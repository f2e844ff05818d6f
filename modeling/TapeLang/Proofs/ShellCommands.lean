import TapeLang.Shell.Command

/-!
# TapeLang.Proofs.ShellCommands — how commands are written

What the shell takes for a command, said without the reader: the mark, a name in small or capital letters, and perhaps blanks
and an argument.

* `Text.Gap`, `Text.Solid`: blanks, and texts that neither start nor end with one.  Trimming takes a text out of the gaps around
  it (`trim_gaps`), and every text is a solid one between gaps (`exists_gaps`).
* `Text.lower_eq_iff`: the lower-case form of a text is made of plain letters just when the text is made of the same letters,
  small or capital.  The letters beyond ASCII do not come down to plain ones, with the sign for kelvin as the one exception.
* `Shell.Command.Call`: a command as it is written.
* **`Shell.Command.parse_iff_call`**: these and no others are read, each as what it says.
-/

namespace TapeLang

/-! ## Blanks around a text -/

namespace Text

/-- A run of blanks. -/
structure Gap where
  text : List Char
  blank : ∀ c ∈ text, isBlank c = true

/-- No blanks. -/
def Gap.nothing : Gap := ⟨[], fun _ h => by cases h⟩

/-- A text that neither starts nor ends with a blank. -/
structure Solid (cs : List Char) : Prop where
  first : ∀ c ∈ cs.head?, isBlank c = false
  last : ∀ c ∈ cs.getLast?, isBlank c = false

variable {cs : List Char}

theorem trimStart_of_head? (h : ∀ c ∈ cs.head?, isBlank c = false) : trimStart cs = cs := by
  cases cs with
  | nil => rfl
  | cons c cs => rw [trimStart, List.dropWhile_cons_of_neg (by simp [h c rfl])]

theorem trimEnd_gap (h : ∀ c ∈ cs.getLast?, isBlank c = false) (after : Gap) : trimEnd (cs ++ after.text) = cs := by
  have hblank : ∀ c ∈ after.text.reverse, isBlank c = true := fun c hc => after.blank c (List.mem_reverse.mp hc)
  have hstop : trimStart cs.reverse = cs.reverse := trimStart_of_head? (by rwa [List.head?_reverse])
  rw [trimEnd, List.reverse_append, List.dropWhile_append_of_pos hblank, ← trimStart, hstop, List.reverse_reverse]

/-- Trimming takes a text out of the blanks around it. -/
theorem trim_gaps (before after : Gap) (h : Solid cs) : trim (before.text ++ (cs ++ after.text)) = cs := by
  have hstart : trimStart (before.text ++ (cs ++ after.text)) = trimStart (cs ++ after.text) :=
    List.dropWhile_append_of_pos before.blank
  rw [trim, hstart]
  cases cs with
  | nil =>
    have hall : trimStart after.text = [] := by
      rw [trimStart, ← List.append_nil after.text, List.dropWhile_append_of_pos after.blank]
      rfl
    rw [List.nil_append, hall]
    rfl
  | cons c cs =>
    have hsolid : trimStart (c :: cs ++ after.text) = c :: cs ++ after.text := trimStart_of_head? h.first
    rw [hsolid]
    exact trimEnd_gap h.last after

theorem head?_trimStart (cs : List Char) : ∀ c ∈ (trimStart cs).head?, isBlank c = false := by
  intro c hc
  have h := List.head?_dropWhile_not isBlank cs
  rw [← trimStart, Option.mem_def.mp hc] at h
  simpa using h

theorem exists_gap_before (cs : List Char) : ∃ before : Gap, cs = before.text ++ trimStart cs := by
  have hblank : ∀ c ∈ cs.takeWhile isBlank, isBlank c = true := fun c hc => List.all_eq_true.mp List.all_takeWhile c hc
  exact ⟨⟨_, hblank⟩, List.takeWhile_append_dropWhile.symm⟩

theorem exists_gap_after (cs : List Char) : ∃ after : Gap, cs = trimEnd cs ++ after.text := by
  obtain ⟨before, hb⟩ := exists_gap_before cs.reverse
  refine ⟨⟨before.text.reverse, fun c hc => before.blank c (List.mem_reverse.mp hc)⟩, ?_⟩
  rw [trimEnd, ← trimStart, ← List.reverse_append, ← hb, List.reverse_reverse]

/-- Every text is a solid one between blanks. -/
theorem exists_gaps (cs : List Char) :
    ∃ before after : Gap, cs = before.text ++ (trim cs ++ after.text) ∧ Solid (trim cs) := by
  obtain ⟨before, hb⟩ := exists_gap_before cs
  obtain ⟨after, ha⟩ := exists_gap_after (trimStart cs)
  refine ⟨before, after, ?_, ?_, ?_⟩
  · rw [trim, ← ha, ← hb]
  · -- what is left starts as the text does behind its leading blanks
    intro c hc
    apply head?_trimStart cs c
    rw [ha]
    cases htrim : trim cs with
    | nil => rw [htrim] at hc; cases hc
    | cons d ds =>
      rw [htrim] at hc
      rw [trim] at htrim
      rw [htrim]
      exact hc
  · intro c hc
    rw [trim, trimEnd, List.getLast?_reverse] at hc
    exact head?_trimStart (trimStart cs).reverse c hc

theorem getLast?_append_of_ne {ds : List Char} (h : ds ≠ []) : (cs ++ ds).getLast? = ds.getLast? := by
  rw [List.getLast?_append, Option.or_of_isSome (List.getLast?_isSome.mpr h)]

/-- Blanks at the end of a text that does not end with one are none. -/
theorem gap_eq_nil (cs : List Char) (after : Gap) (h : ∀ c ∈ (cs ++ after.text).getLast?, isBlank c = false) :
    after.text = [] := by
  rcases List.eq_nil_or_concat after.text with hnil | ⟨ds, d, hd⟩
  · exact hnil
  · have hblank : isBlank d = true := after.blank d (by simp [hd])
    have hlast := h d (by simp [hd])
    rw [hblank] at hlast
    cases hlast

/-! ## Letters, small and capital -/

/-- An ASCII character that is not the lower-case form of anything beyond ASCII. -/
def IsPlain (c : Char) : Prop := 0 < c.toNat ∧ c.toNat < 0x80 ∧ c ≠ 'k'

instance (c : Char) : Decidable (IsPlain c) := inferInstanceAs (Decidable (0 < c.toNat ∧ c.toNat < 0x80 ∧ c ≠ 'k'))

/-- The sign for kelvin is the only letter beyond ASCII whose lower-case letter is in ASCII. -/
theorem caseRuns_beyond_ascii : ∀ r ∈ caseRuns,
    r.last < 0x80 ∨ 0x80 ≤ (r.first : Int) + r.shift ∨ r.first = 0x212A ∧ r.last = 0x212A ∧ r.shift = -8383 := by
  decide +kernel

theorem toNat_ofNat (n : Nat) : (Char.ofNat n).toNat = n ∨ (Char.ofNat n).toNat = 0 := by
  by_cases h : n.isValidChar
  · exact .inl (by rw [Char.ofNat, dif_pos h]; rfl)
  · exact .inr (by rw [Char.ofNat, dif_neg h]; rfl)

theorem not_isPlain_ofNat {n : Nat} (h : 0x80 ≤ n ∨ n = 0x6B) : ¬IsPlain (Char.ofNat n) := by
  rintro ⟨hpos, hlt, hk⟩
  rcases h with h | rfl
  · rcases toNat_ofNat n with hn | hn <;> omega
  · exact hk rfl

theorem not_isPlain_of_lower? {r : CaseRun} {c d : Char} (hr : r ∈ caseRuns) (hc : 0x80 ≤ c.toNat)
    (h : r.lower? c = some d) : ¬IsPlain d := by
  simp only [CaseRun.lower?, Option.ite_none_right_eq_some, Option.some.injEq] at h
  obtain ⟨⟨hfirst, hlast, -⟩, rfl⟩ := h
  apply not_isPlain_ofNat
  rcases caseRuns_beyond_ascii r hr with h | h | ⟨h1, h2, h3⟩ <;> omega

/-- Beyond ASCII no letter has a lower-case form of plain letters. -/
theorem exists_not_isPlain {c : Char} (hc : 0x80 ≤ c.toNat) : ∃ d ∈ lowerChar c, ¬IsPlain d := by
  unfold lowerChar
  rw [if_neg (Nat.not_lt.mpr hc)]
  split
  · exact ⟨Char.ofNat 0x307, by simp, not_isPlain_ofNat (.inl (by decide))⟩
  · refine ⟨_, List.mem_singleton_self _, ?_⟩
    cases h : caseRuns.findSome? (·.lower? c) with
    | none => exact fun hplain => absurd hplain.2.1 (Nat.not_lt.mpr hc)
    | some d =>
      obtain ⟨r, hr, hd⟩ := List.exists_of_findSome?_eq_some h
      exact not_isPlain_of_lower? hr hc hd

theorem toLower_of_not_capital {c : Char} (h : ¬(65 ≤ c.toNat ∧ c.toNat ≤ 90)) : c.toLower = c := by
  have hnot : ¬(c.val ≥ 'A'.val ∧ c.val ≤ 'Z'.val) := h
  exact dif_neg hnot

theorem isBlank_toLower {c : Char} (h : isBlank c = true) : isBlank c.toLower = true := by
  have hnot : ¬(65 ≤ c.toNat ∧ c.toNat ≤ 90) := by
    simp [isBlank] at h
    omega
  rwa [toLower_of_not_capital hnot]

theorem lowerFrom_eq (done : List Char) (inWord : Bool) (cs : List Char) :
    lowerFrom done inWord cs = done.reverse ++ lowerFrom [] inWord cs := by
  induction cs generalizing done inWord with
  | nil => simp [lowerFrom]
  | cons c cs ih =>
    rw [lowerFrom, lowerFrom, ih, ih (_ ++ [])]
    simp

/-- The lower-case form is made of plain letters just when the text is made of the same letters, small or capital. -/
theorem lowerFrom_eq_iff {ds : List Char} (hds : ∀ d ∈ ds, IsPlain d) (inWord : Bool) (cs : List Char) :
    lowerFrom [] inWord cs = ds ↔ cs.map Char.toLower = ds := by
  induction cs generalizing inWord ds with
  | nil => rfl
  | cons c cs ih =>
    rw [lowerFrom, lowerFrom_eq, List.append_nil, List.reverse_reverse]
    rcases Nat.lt_or_ge c.toNat 0x80 with hc | hc
    · -- in ASCII both sides go on behind the same letter
      rw [if_neg (by omega), lowerChar, if_pos hc, List.singleton_append, List.map_cons]
      cases ds with
      | nil => simp
      | cons d ds => simp only [List.cons.injEq, ih (List.forall_mem_cons.mp hds).2]
    · -- beyond it neither side gives plain letters
      constructor
      · rintro rfl
        have hstrange : ∃ d ∈ if c.toNat = 0x3A3 then [lowerSigma inWord cs] else lowerChar c, ¬IsPlain d := by
          split
          · refine ⟨_, List.mem_singleton_self _, not_isPlain_ofNat (.inl ?_)⟩
            split <;> decide
          · exact exists_not_isPlain hc
        obtain ⟨d, hd, hplain⟩ := hstrange
        exact absurd (hds d (List.mem_append_left _ hd)) hplain
      · rintro rfl
        have hplain := hds c.toLower (List.mem_cons_self ..)
        rw [toLower_of_not_capital (by omega)] at hplain
        exact absurd hplain.2.1 (Nat.not_lt.mpr hc)

theorem lower_eq_iff {ds : List Char} (hds : ∀ d ∈ ds, IsPlain d) (cs : List Char) :
    lower cs = ds ↔ cs.map Char.toLower = ds := lowerFrom_eq_iff hds false cs

end Text

/-! ## Commands as they are written -/

namespace Shell.Command

open Text (Gap Solid)

theorem mem_all (c : Command) : c ∈ all := by cases c <;> decide

theorem all_words : ∀ c ∈ all, ∀ name ∈ c.words,
    name.toList.all (fun d => Text.IsPlain d ∧ Text.isBlank d = false ∧ d.toLower = d) = true := by
  decide +kernel

/-- What the names of commands are made of. -/
theorem of_mem_words {c : Command} {name : String} {d : Char} (h : name ∈ c.words) (hd : d ∈ name.toList) :
    Text.IsPlain d ∧ Text.isBlank d = false ∧ d.toLower = d :=
  of_decide_eq_true (List.all_eq_true.mp (all_words c (mem_all c) name h) d hd)

/-- No name is the name of two commands. -/
theorem eq_of_mem_words : ∀ c ∈ all, ∀ c' ∈ all, ∀ name ∈ c.words, name ∈ c'.words → c = c' := by
  decide +kernel

variable {word : List Char} {c : Command} {line : String}

theorem any_words_iff (c : Command) (word : List Char) :
    (c.words.any (·.toList = Text.lower word)) = true ↔ ∃ name ∈ c.words, word.map Char.toLower = name.toList := by
  simp only [List.any_eq_true, decide_eq_true_eq]
  refine exists_congr fun name => and_congr_right fun hname => ?_
  rw [eq_comm]
  exact Text.lower_eq_iff (fun d hd => (of_mem_words hname hd).1) word

/-- A word names a command if it is one of its names, in small or capital letters. -/
theorem ofWord?_eq_some_iff : ofWord? word = some c ↔ ∃ name ∈ c.words, word.map Char.toLower = name.toList := by
  constructor
  · intro h
    rw [ofWord?] at h
    have hany := List.find?_some h
    exact (any_words_iff c word).mp hany
  · rintro ⟨name, hname, hword⟩
    have hfound : (ofWord? word).isSome = true := by
      rw [ofWord?, List.find?_isSome]
      exact ⟨c, mem_all c, (any_words_iff c word).mpr ⟨name, hname, hword⟩⟩
    obtain ⟨c', hc'⟩ := Option.isSome_iff_exists.mp hfound
    -- the first command that has the name is the only one
    rw [ofWord?] at hc'
    have hany := List.find?_some hc'
    obtain ⟨name', hname', hword'⟩ := (any_words_iff c' word).mp hany
    have heq : name' = name := String.toList_inj.mp (hword'.symm.trans hword)
    rw [ofWord?, hc', eq_of_mem_words c (mem_all c) c' (mem_all c') name hname (heq ▸ hname')]

/-- An argument behind a word: blanks, and a text that neither starts nor ends with one. -/
structure Argument where
  gap : Gap
  gap_ne_nil : gap.text ≠ []
  text : List Char
  text_ne_nil : text ≠ []
  solid : Solid text

namespace Argument

/-- The blanks and the text. -/
def written (a : Argument) : List Char := a.gap.text ++ a.text

/-- Behind the first blank, the text is what trimming leaves. -/
theorem written_cons (a : Argument) : ∃ b rest, a.written = b :: rest ∧ Text.isBlank b = true ∧ Text.trim rest = a.text := by
  cases hgap : a.gap.text with
  | nil => exact absurd hgap a.gap_ne_nil
  | cons b bs =>
    obtain ⟨hb, hbs⟩ := List.forall_mem_cons.mp (hgap ▸ a.gap.blank)
    refine ⟨b, bs ++ a.text, by rw [written, hgap, List.cons_append], hb, ?_⟩
    have htrim := Text.trim_gaps ⟨bs, hbs⟩ .nothing a.solid
    rwa [Gap.nothing, List.append_nil] at htrim

/-- A text that starts with a blank and does not end with one is the text of an argument. -/
theorem exists_of_blank {b : Char} {rest : List Char} (hb : Text.isBlank b = true)
    (hlast : ∀ d ∈ (b :: rest).getLast?, Text.isBlank d = false) : ∃ a : Argument, b :: rest = a.written := by
  obtain ⟨before, after, hrest, hsolid⟩ := Text.exists_gaps rest
  let gap : Gap := ⟨b :: before.text, List.forall_mem_cons.mpr ⟨hb, before.blank⟩⟩
  have hwhole : b :: rest = gap.text ++ Text.trim rest ++ after.text := by
    rw [List.append_assoc, List.cons_append, ← hrest]
  rw [hwhole] at hlast
  rw [hwhole, Text.gap_eq_nil _ after hlast, List.append_nil]
  have hne : Text.trim rest ≠ [] := by
    intro hnil
    rw [Text.gap_eq_nil _ after hlast, hnil, List.append_nil, List.append_nil] at hlast
    exact absurd (Text.gap_eq_nil [] gap hlast) (List.cons_ne_nil _ _)
  exact ⟨⟨gap, List.cons_ne_nil _ _, Text.trim rest, hne, hsolid⟩, rfl⟩

end Argument

/-- A command as it is written, without the blanks around it. -/
structure Call where
  command : Command
  name : String
  named : name ∈ command.words
  /-- The name, each letter small or capital. -/
  word : List Char
  cased : word.map Char.toLower = name.toList
  argument? : Option Argument

namespace Call

/-- What stands behind the word. -/
def tail (x : Call) : List Char := (x.argument?.map Argument.written).getD []

/-- The text of a command: the mark, the word right behind it, and perhaps an argument. -/
def written (x : Call) : List Char := '!' :: (x.word ++ x.tail)

/-- The argument without the blanks before it. -/
def argument (x : Call) : Option String := x.argument?.map fun a => String.ofList a.text

theorem isBlank_of_mem_word (x : Call) {d : Char} (hd : d ∈ x.word) : Text.isBlank d = false := by
  have hmem : d.toLower ∈ x.name.toList := x.cased ▸ List.mem_map_of_mem hd
  have hsolid := (of_mem_words x.named hmem).2.1
  cases hblank : Text.isBlank d with
  | false => rfl
  | true => rw [Text.isBlank_toLower hblank] at hsolid; cases hsolid

theorem cutAtBlank_tail (x : Call) : Text.cutAtBlank (x.word ++ x.tail) = (x.word, x.tail.tail?) := by
  have hword : ∀ d ∈ x.word, (!Text.isBlank d) = true := fun d hd => by rw [x.isBlank_of_mem_word hd]; rfl
  rw [Text.cutAtBlank, List.takeWhile_append_of_pos hword, List.dropWhile_append_of_pos hword, tail]
  cases x.argument? with
  | none => simp
  | some a =>
    obtain ⟨b, rest, hcons, hb, -⟩ := a.written_cons
    simp [hcons, hb]

theorem parse_of_trim (x : Call) (h : Text.trim line.toList = x.written) : parse line = some (x.command, x.argument) := by
  have hname : ofWord? x.word = some x.command := ofWord?_eq_some_iff.mpr ⟨x.name, x.named, x.cased⟩
  simp only [parse, h, written, x.cutAtBlank_tail, hname, Option.map_some]
  rw [tail, argument]
  cases x.argument? with
  | none => rfl
  | some a =>
    obtain ⟨b, rest, hcons, -, htrim⟩ := a.written_cons
    simp [hcons, htrim, Option.filter, a.text_ne_nil]

theorem solid_written (x : Call) : Solid x.written := by
  refine ⟨fun d hd => ?_, fun d hd => ?_⟩
  · cases hd
    rfl
  · cases ha : x.argument? with
    | none =>
      have hmem := List.mem_of_getLast? hd
      rw [written, tail, ha, Option.map_none, Option.getD_none, List.append_nil] at hmem
      rcases List.mem_cons.mp hmem with rfl | hmem
      · rfl
      · exact x.isBlank_of_mem_word hmem
    | some a =>
      apply a.solid.last
      have hsplit : x.written = '!' :: (x.word ++ a.gap.text) ++ a.text := by simp [written, tail, ha, Argument.written]
      rwa [hsplit, Text.getLast?_append_of_ne a.text_ne_nil] at hd

/-- A line on which a command is written, perhaps with blanks around it. -/
def Fills (x : Call) (line : String) : Prop :=
  ∃ before after : Gap, line = String.ofList (before.text ++ (x.written ++ after.text))

theorem fills_iff_trim (x : Call) : x.Fills line ↔ Text.trim line.toList = x.written := by
  constructor
  · rintro ⟨before, after, rfl⟩
    rw [String.toList_ofList, Text.trim_gaps before after x.solid_written]
  · intro h
    obtain ⟨before, after, hline, -⟩ := Text.exists_gaps line.toList
    exact ⟨before, after, by rw [← h, ← hline, String.ofList_toList]⟩

/-- What is written is read, whatever blanks stand around it. -/
theorem parse_of_fills (x : Call) (h : x.Fills line) : parse line = some (x.command, x.argument) :=
  x.parse_of_trim (x.fills_iff_trim.mp h)

end Call

/-- Whatever is read as a command is written as one. -/
theorem exists_call {argument : Option String} (h : parse line = some (c, argument)) :
    ∃ x : Call, Text.trim line.toList = x.written := by
  obtain ⟨-, -, -, -, hlast⟩ := Text.exists_gaps line.toList
  unfold parse at h
  split at h
  next rest htrim =>
    obtain ⟨c', hword, -⟩ := Option.map_eq_some_iff.mp h
    obtain ⟨name, hname, hcased⟩ := ofWord?_eq_some_iff.mp hword
    rw [htrim] at hlast ⊢
    have hrest : rest = (Text.cutAtBlank rest).1 ++ rest.dropWhile (!Text.isBlank ·) :=
      List.takeWhile_append_dropWhile.symm
    have hhead := List.head?_dropWhile_not (!Text.isBlank ·) rest
    cases htail : rest.dropWhile (!Text.isBlank ·) with
    | nil =>
      refine ⟨⟨c', name, hname, _, hcased, none⟩, ?_⟩
      rw [htail] at hrest
      exact congrArg ('!' :: ·) hrest
    | cons b bs =>
      rw [htail] at hrest hhead
      have hb : Text.isBlank b = true := by simpa using hhead
      have hend : ∀ d ∈ (b :: bs).getLast?, Text.isBlank d = false := by
        intro d hd
        apply hlast
        rw [hrest, ← List.cons_append, Text.getLast?_append_of_ne (List.cons_ne_nil b bs)]
        exact hd
      obtain ⟨a, ha⟩ := Argument.exists_of_blank hb hend
      refine ⟨⟨c', name, hname, _, hcased, some a⟩, ?_⟩
      rw [ha] at hrest
      exact congrArg ('!' :: ·) hrest
  next => cases h

theorem map_toLower_name {name : String} (h : name ∈ c.words) : name.toList.map Char.toLower = name.toList := by
  rw [List.map_congr_left fun d hd => (of_mem_words h hd).2.2, List.map_id']

/-- A word and a name have the same lower-case form just when they have the same letters, small or capital. -/
theorem lower_eq_lower_iff {name : String} (h : name ∈ c.words) :
    Text.lower word = Text.lower name.toList ↔ word.map Char.toLower = name.toList := by
  have hplain : ∀ d ∈ name.toList, Text.IsPlain d := fun d hd => (of_mem_words h hd).1
  rw [(Text.lower_eq_iff hplain name.toList).mpr (map_toLower_name h), Text.lower_eq_iff hplain]

/-- **The shell reads just what is written as a command.**  A line is read as a command with an argument or none just when
it is written as one: between blanks the mark, a name of the command in small or capital letters, and blanks and the argument
if there is one.  No line is written for two commands or two arguments, and what is written, between any blanks, is read as it
was meant.  A word has the lower-case form of a name just when it is the name in small or capital letters. -/
theorem parse_iff_call (line : String) (c : Command) (argument : Option String) :
    (parse line = some (c, argument) ↔ ∃ x : Call, x.Fills line ∧ x.command = c ∧ x.argument = argument) ∧
      (∀ x y : Call, x.Fills line → y.Fills line → x.command = y.command ∧ x.argument = y.argument) ∧
      (∀ (x : Call) (before after : Gap),
        parse (String.ofList (before.text ++ (x.written ++ after.text))) = some (x.command, x.argument)) ∧
      ∀ name ∈ c.words, ∀ word : List Char,
        Text.lower word = Text.lower name.toList ↔ word.map Char.toLower = name.toList := by
  refine ⟨⟨fun h => ?_, ?_⟩, fun x y hx hy => ?_, fun x before after => ?_, fun name hname word => ?_⟩
  · obtain ⟨x, hx⟩ := exists_call h
    obtain ⟨hc, ha⟩ := Prod.mk.inj (Option.some.inj ((x.parse_of_trim hx).symm.trans h))
    exact ⟨x, x.fills_iff_trim.mpr hx, hc, ha⟩
  · rintro ⟨x, hx, rfl, rfl⟩
    exact x.parse_of_fills hx
  · have hboth := (x.parse_of_fills hx).symm.trans (y.parse_of_fills hy)
    exact Prod.mk.inj (Option.some.inj hboth)
  · exact x.parse_of_fills ⟨before, after, rfl⟩
  · exact lower_eq_lower_iff hname

/-- Letters of both sizes, two kinds of blanks, and an argument with a blank in it. -/
def loadCall : Call where
  command := .load
  name := "load"
  named := by decide
  word := ['L', 'o', 'A', 'd']
  cased := rfl
  argument? := some
    { gap := ⟨['\t', ' '], by simp [Text.isBlank]⟩
      gap_ne_nil := List.cons_ne_nil _ _
      text := ['a', ' ', 'b']
      text_ne_nil := List.cons_ne_nil _ _
      solid := ⟨by rintro _ ⟨⟩; rfl, by rintro _ ⟨⟩; rfl⟩ }

/-- The call between a line end and an ideographic space: it is found, and it is the only one. -/
theorem parse_iff_call_load :
    parse (String.ofList ['\n', '!', 'L', 'o', 'A', 'd', '\t', ' ', 'a', ' ', 'b', '\u3000']) =
        some (.load, some (String.ofList ['a', ' ', 'b'])) ∧
      (∃ x : Call, x.Fills (String.ofList ['\n', '!', 'L', 'o', 'A', 'd', '\t', ' ', 'a', ' ', 'b', '\u3000']) ∧
        x.command = loadCall.command ∧ x.argument = loadCall.argument) ∧
      "load" ∈ words .load ∧ Text.lower ['L', 'o', 'A', 'd'] = Text.lower "load".toList := by
  obtain ⟨hiff, hone, hread, hcase⟩ := parse_iff_call
    (String.ofList ['\n', '!', 'L', 'o', 'A', 'd', '\t', ' ', 'a', ' ', 'b', '\u3000']) .load
    (some (String.ofList ['a', ' ', 'b']))
  have hblank : ∀ c ∈ ['\n'], Text.isBlank c = true := by simp [Text.isBlank]
  have hblank' : ∀ c ∈ ['\u3000'], Text.isBlank c = true := by simp [Text.isBlank]
  have hparse := hread loadCall ⟨_, hblank⟩ ⟨_, hblank'⟩
  obtain ⟨x, hx, -⟩ := hiff.mp hparse
  refine ⟨hparse, ⟨x, hx, ?_⟩, by decide, (hcase "load" (by decide) _).mpr rfl⟩
  exact hone x loadCall hx ⟨⟨_, hblank⟩, ⟨_, hblank'⟩, rfl⟩

/-- The long s has the capital of the s, but it is another letter. -/
example : parse "!liſt" = none := by decide

end Shell.Command
end TapeLang
