import TapeLang.Proofs.ShellCommands
import TapeLang.Shell.Editor

/-!
# TapeLang.Proofs.Typing — help that can be trusted

Completion, hints and colours are made by three functions of their own, and the commands are read by a fourth.

* `Shell.complete_eq`: at a position between two characters, what is offered depends on the text before it alone.
* `Shell.Offered`: what is offered behind a text, said of the names of commands and of what they are read as.
* `Shell.continuation?_eq`: the hint is the first way to go on that has something to add.  A name has no blanks in it, so it
  makes no difference that only completion looks for them (`candidates_eq_nil`).
* **`Shell.completion_agrees`** puts this together.
* `Text.unstyled`: a text without its colour sequences.  `Text.Styles xs cs`: however the text goes on, the sequences in `xs`
  are found and leave `cs`.  Colours and weights may be put around each other.
* **`Shell.highlight_keeps_text`**: without the sequences, a line in colours is the line.
-/

namespace TapeLang

/-! ## Completion and hints -/

namespace Shell

open TapeLang.Shell.Command (Call)

section Completing

variable {word : List Char}

theorem utf8ByteSize_cons (c : Char) (cs : List Char) :
    (String.ofList (c :: cs)).utf8ByteSize = c.utf8Size + (String.ofList cs).utf8ByteSize := by
  rw [String.ofList_cons, String.utf8ByteSize_append, String.utf8ByteSize_singleton]

/-- A character that ends before the position is passed. -/
theorem bytePrefix_cons (done : List Char) (n : Nat) (c : Char) (cs : List Char) :
    bytePrefix done (c.utf8Size + n) (c :: cs) = bytePrefix (c :: done) n cs := by
  have hpos := c.utf8Size_pos
  obtain ⟨m, hm⟩ : ∃ m, c.utf8Size + n = m + 1 := ⟨c.utf8Size + n - 1, by omega⟩
  have hrest : m + 1 - c.utf8Size = n := by omega
  rw [hm, bytePrefix, if_pos (by omega), hrest]

/-- A position behind a text gives the text back. -/
theorem bytePrefix_append (done cs rest : List Char) :
    bytePrefix done (String.ofList cs).utf8ByteSize (cs ++ rest) = some (done.reverse ++ cs) := by
  induction cs generalizing done with
  | nil => simp [bytePrefix]
  | cons c cs ih =>
    rw [utf8ByteSize_cons, List.cons_append, bytePrefix_cons, ih, List.reverse_cons, List.append_assoc,
      List.singleton_append]

/-- A text in which a command may be being typed: the mark, and no blanks. -/
def StartsCommand (text : String) : Prop := text.toList.head? = some '!' ∧ ∀ c ∈ text.toList, Text.isBlank c = false

theorem startsCommand_iff {text : String} :
    (text.toList.head? = some '!' ∧ (!text.toList.any Text.isBlank) = true) ↔ StartsCommand text := by
  simp [StartsCommand]

instance (text : String) : Decidable (StartsCommand text) := decidable_of_iff _ startsCommand_iff

theorem complete_eq (before after : String) : complete (before ++ after) before.utf8ByteSize =
    some ⟨before.utf8ByteSize, if StartsCommand before then candidates before.toList else []⟩ := by
  have hprefix := bytePrefix_append [] before.toList after.toList
  rw [String.ofList_toList, List.reverse_nil, List.nil_append] at hprefix
  simp only [complete, String.toList_append, hprefix, Option.bind_eq_bind, Option.bind_some]
  by_cases h : StartsCommand before
  · rw [if_pos (startsCommand_iff.mpr h), if_pos h]
    rfl
  · rw [if_neg (mt startsCommand_iff.mp h), if_neg h]
    rfl

/-- The names of commands, in the order of the table. -/
def names : List String := Command.all.map fun c => String.ofList c.name

theorem display_candidates (word : List Char) :
    (candidates word).map (·.display) = names.filter (word.isPrefixOf ·.toList) := by
  simp [candidates, names, List.filter_map, Function.comp_def]

theorem mem_candidates {word : List Char} {x : Candidate} (h : x ∈ candidates word) :
    ∃ c : Command, x.display = String.ofList c.name ∧ x.display = String.ofList word ++ x.replacement := by
  simp only [candidates, List.mem_map, List.mem_filter] at h
  obtain ⟨-, ⟨⟨c, -, rfl⟩, hprefix⟩, rfl⟩ := h
  obtain ⟨rest, hrest⟩ := List.isPrefixOf_iff_prefix.mp hprefix
  refine ⟨c, rfl, ?_⟩
  rw [← hrest, List.drop_left, String.ofList_append]

/-- What is offered for a command is the mark and one of its names. -/
theorem name_eq : ∀ c ∈ Command.all, ∃ word ∈ c.words, c.name = '!' :: word.toList := by
  decide +kernel

/-- The name that is offered for a command is read as that command. -/
theorem parse_name (c : Command) : Command.parse (String.ofList c.name) = some (c, none) := by
  obtain ⟨word, hword, hname⟩ := name_eq c (Command.mem_all c)
  let x : Call := ⟨c, word, hword, word.toList, Command.map_toLower_name hword, none⟩
  have hwritten : x.written = c.name := by simp [x, Call.written, Call.tail, hname]
  have hparse := x.parse_of_fills ⟨.nothing, .nothing, rfl⟩
  rwa [Text.Gap.nothing, List.append_nil, List.nil_append, hwritten] at hparse

theorem isBlank_of_mem_name {c : Command} {d : Char} (h : d ∈ c.name) : Text.isBlank d = false := by
  obtain ⟨word, hword, hname⟩ := name_eq c (Command.mem_all c)
  rcases List.mem_cons.mp (hname ▸ h) with rfl | h
  · rfl
  · exact (Command.of_mem_words hword h).2.1

/-- No name goes on from a text with a blank in it. -/
theorem candidates_eq_nil {d : Char} (hd : d ∈ word) (hblank : Text.isBlank d = true) : candidates word = [] := by
  simp only [candidates, List.map_eq_nil_iff, List.filter_eq_nil_iff, List.mem_map]
  rintro - ⟨c, -, rfl⟩ hprefix
  have hmem : d ∈ c.name := (List.isPrefixOf_iff_prefix.mp hprefix).subset hd
  rw [isBlank_of_mem_name hmem] at hblank
  cases hblank

/-- The hint is the first way to go on that has something to add. -/
theorem continuation?_eq (word : List Char) :
    continuation? word = ((candidates word).find? (·.replacement ≠ "")).map (·.replacement.toList) := by
  have hadds : ∀ name : List Char, (word.length < name.length) ↔ String.ofList (name.drop word.length) ≠ "" := by
    intro name
    rw [← String.ofList_nil, ne_eq, String.ofList_inj, List.drop_eq_nil_iff, Nat.not_le]
  simp only [continuation?, candidates, List.find?_map, List.find?_filter, Option.map_map, Function.comp_def,
    String.toList_ofList, hadds, Bool.decide_and, Bool.decide_eq_true]

/-- What is offered behind a text. -/
structure Offered (before : String) (k : Completion) : Prop where
  /-- Replacements are put in right behind the text. -/
  start : k.start = before.utf8ByteSize
  /-- The names that go on from the text are offered, in the order of the table, -/
  listed : StartsCommand before → k.candidates.map (·.display) = names.filter (before.toList.isPrefixOf ·.toList)
  /-- unless no command is being typed. -/
  nothing : ¬StartsCommand before → k.candidates = []
  /-- A replacement is what is missing of the name. -/
  display : ∀ x ∈ k.candidates, x.display = before ++ x.replacement
  /-- With it, the text is read as the command that has the name, without an argument. -/
  parsed : ∀ x ∈ k.candidates, ∃ c : Command, x.display = String.ofList c.name ∧
    Command.parse (before ++ x.replacement) = some (c, none)

theorem offered_candidates (before : String) :
    Offered before ⟨before.utf8ByteSize, if StartsCommand before then candidates before.toList else []⟩ := by
  by_cases h : StartsCommand before
  · rw [if_pos h]
    have hmem : ∀ x ∈ candidates before.toList, ∃ c : Command, x.display = String.ofList c.name ∧
        x.display = before ++ x.replacement := by
      intro x hx
      have hcandidate := mem_candidates hx
      rwa [String.ofList_toList] at hcandidate
    refine ⟨rfl, fun _ => display_candidates _, fun hn => absurd h hn, fun x hx => ?_, fun x hx => ?_⟩
    · obtain ⟨-, -, hdisplay⟩ := hmem x hx
      exact hdisplay
    · obtain ⟨c, hname, hdisplay⟩ := hmem x hx
      exact ⟨c, hname, by rw [← hdisplay, hname, parse_name]⟩
  · rw [if_neg h]
    exact ⟨rfl, fun hs => absurd hs h, fun _ => rfl, fun x hx => (by cases hx), fun x hx => (by cases hx)⟩

/-- The hint at the end of a line, by what is offered there. -/
theorem hint_eq {line : String} (h : 2 ≤ line.utf8ByteSize) : hint line line.utf8ByteSize =
    ((if StartsCommand line then candidates line.toList else []).find? (·.replacement ≠ "")).map
      fun x => Text.fade x.replacement := by
  by_cases hmark : line.toList.head? = some '!'
  · rw [hint, if_neg (by simp [hmark]; omega), continuation?_eq, Option.map_map]
    by_cases hblank : ∀ c ∈ line.toList, Text.isBlank c = false
    · rw [if_pos ⟨hmark, hblank⟩]
      rfl
    · -- the hint does not look for blanks, but no name has one
      obtain ⟨d, hd, hisBlank⟩ : ∃ d ∈ line.toList, Text.isBlank d = true := by simpa using hblank
      rw [if_neg (fun hs => hblank hs.2), candidates_eq_nil hd hisBlank]
      rfl
  · rw [hint, if_pos (.inr (.inr hmark)), if_neg (fun hs => hmark hs.1)]
    rfl

end Completing

/-- **Completion, hints and the reading of commands agree.**  At every position of a line that stands between two characters,
the text before it is completed as `Offered` says.  At the end of a line of at least two bytes, the hint is the dimmed
replacement of the first candidate that has one, and there is none if no candidate has one. -/
theorem completion_agrees (line : String) :
    (∀ before after : String, line = before ++ after →
      ∃ k, complete line before.utf8ByteSize = some k ∧ Offered before k) ∧
      (2 ≤ line.utf8ByteSize → ∃ k, complete line line.utf8ByteSize = some k ∧
        hint line line.utf8ByteSize =
          (k.candidates.find? (·.replacement ≠ "")).map fun x => Text.fade x.replacement) := by
  constructor
  · rintro before after rfl
    exact ⟨_, complete_eq before after, offered_candidates before⟩
  · intro h
    have hcomplete := complete_eq line ""
    rw [String.append_empty] at hcomplete
    exact ⟨_, hcomplete, hint_eq h⟩

/-- Two names go on from a mark and a letter, whatever stands behind them. -/
theorem completion_agrees_clear :
    (∃ k, complete "!cé" "!c".utf8ByteSize = some k ∧ Offered "!c" k ∧ StartsCommand "!c" ∧
        k.candidates.map (·.display) = ["!clear", "!compile"]) ∧
      2 ≤ "!c".utf8ByteSize ∧ hint "!c" "!c".utf8ByteSize = some (Text.fade "lear") := by
  obtain ⟨k, hk, hoffered⟩ := (completion_agrees "!cé").1 "!c" "é" rfl
  have hstarts : StartsCommand "!c" := by decide
  obtain ⟨k', hk', hhint⟩ := (completion_agrees "!c").2 (by decide)
  cases hk'
  exact ⟨⟨k, hk, hoffered, hstarts, hoffered.listed hstarts⟩, by decide, hhint⟩

end Shell

/-! ## Colours -/

namespace Text

/-- The length of the colour sequence that a text starts with, 0 if there is none.  A sequence is made of the escape
character, a bracket, digits and an `m`. -/
def sequenceLength : List Char → Nat
  | e :: b :: cs =>
    let digits := cs.takeWhile Char.isDigit
    if e = escapeChar ∧ b = '[' ∧ digits ≠ [] ∧ cs[digits.length]? = some 'm' then digits.length + 3 else 0
  | _ => 0

/-- A text without its colour sequences, when its first `skip` characters belong to one. -/
def unstyledFrom : Nat → List Char → List Char
  | _, [] => []
  | skip + 1, _ :: cs => unstyledFrom skip cs
  | 0, c :: cs =>
    match sequenceLength (c :: cs) with
    | 0 => c :: unstyledFrom 0 cs
    | more + 1 => unstyledFrom more cs

/-- A text without its colour sequences. -/
def unstyled (cs : List Char) : List Char := unstyledFrom 0 cs

/-- However the text goes on, the colour sequences in `xs` are found and leave `cs`. -/
def Styles (xs cs : List Char) : Prop := ∀ rest, unstyled (xs ++ rest) = cs ++ unstyled rest

section Styles

variable {xs ys cs ds : List Char}

theorem unstyledFrom_length (xs rest : List Char) : unstyledFrom xs.length (xs ++ rest) = unstyled rest := by
  induction xs with
  | nil => rfl
  | cons x xs ih => exact ih

theorem sequenceLength_sequence {code : String} (h : code.toList ≠ [] ∧ code.toList.all Char.isDigit = true)
    (rest : List Char) : sequenceLength (sequence code ++ rest) = code.toList.length + 3 := by
  have htake : (code.toList ++ 'm' :: rest).takeWhile Char.isDigit = code.toList := by
    rw [List.takeWhile_append_of_pos (List.all_eq_true.mp h.2)]
    simp
  have hsplit : sequence code ++ rest = escapeChar :: '[' :: (code.toList ++ 'm' :: rest) := by simp [sequence]
  rw [hsplit, sequenceLength]
  simp [htake, h.1]

/-- A sequence leaves nothing. -/
theorem styles_sequence {code : String} (h : code.toList ≠ [] ∧ code.toList.all Char.isDigit = true) :
    Styles (sequence code) [] := by
  intro rest
  have hsplit : sequence code ++ rest = escapeChar :: ('[' :: code.toList ++ ['m'] ++ rest) := by simp [sequence]
  have hlength := sequenceLength_sequence h rest
  have hskip := unstyledFrom_length ('[' :: code.toList ++ ['m']) rest
  rw [show ('[' :: code.toList ++ ['m']).length = code.toList.length + 2 by simp] at hskip
  rw [hsplit] at hlength ⊢
  -- the escape character is dropped, and the rest of the sequence is skipped
  rw [unstyled, unstyledFrom, hlength]
  exact hskip

/-- Text without the escape character is left as it is. -/
theorem styles_plain (h : escapeChar ∉ cs) : Styles cs cs := by
  intro rest
  induction cs with
  | nil => rfl
  | cons c cs ih =>
    have hc : c ≠ escapeChar := fun heq => h (heq ▸ List.mem_cons_self ..)
    have hlength : sequenceLength (c :: (cs ++ rest)) = 0 := by
      unfold sequenceLength
      split
      · simp_all
      · rfl
    rw [List.cons_append, unstyled, unstyledFrom, hlength]
    exact congrArg (c :: ·) (ih fun hmem => h (List.mem_cons_of_mem c hmem))

theorem Styles.append (h : Styles xs cs) (h' : Styles ys ds) : Styles (xs ++ ys) (cs ++ ds) := by
  intro rest
  rw [List.append_assoc, h, h', List.append_assoc]

theorem Styles.between {start stop : List Char} (hstart : Styles start []) (h : Styles xs cs) (hstop : Styles stop []) :
    Styles (start ++ xs ++ stop) cs := by
  have hwhole := (hstart.append h).append hstop
  rwa [List.nil_append, List.append_nil] at hwhole

theorem Styles.colour (c : Colour) (h : Styles xs cs) : Styles (colour c xs) cs := by
  have hcode : Styles (sequence c.code) [] := styles_sequence (by cases c <;> decide +kernel)
  exact hcode.between h (styles_sequence (by decide +kernel))

theorem Styles.bold (h : Styles xs cs) : Styles (bold xs) cs :=
  (styles_sequence (by decide +kernel)).between h (styles_sequence (by decide +kernel))

theorem Styles.dim (h : Styles xs cs) : Styles (dim xs) cs :=
  (styles_sequence (by decide +kernel)).between h (styles_sequence (by decide +kernel))

theorem styles_flatMap {f : Char → List Char} (h : ∀ c ∈ cs, Styles (f c) [c]) : Styles (cs.flatMap f) cs := by
  induction cs with
  | nil => exact fun _ => rfl
  | cons c cs ih =>
    obtain ⟨hc, hcs⟩ := List.forall_mem_cons.mp h
    exact hc.append (ih hcs)

end Styles
end Text

namespace Shell

open Text

theorem styles_highlightChar {c : Char} (h : c ≠ escapeChar) : Styles (highlightChar c) [c] := by
  have hplain : Styles [c] [c] := styles_plain fun hmem => h (List.mem_singleton.mp hmem).symm
  unfold highlightChar
  split
  · exact hplain.colour _
  · exact hplain.colour _
  · exact hplain.colour _
  · exact hplain.colour _
  · exact (hplain.colour _).bold
  · exact (hplain.colour _).bold
  · exact (hplain.colour _).bold
  · exact (hplain.colour _).bold
  · exact hplain.dim

/-- **Highlighting keeps the text.**  If no escape character is in a line, then without the colour sequences the line in
colours is the line again, be it a command or program text. -/
theorem highlight_keeps_text (line : String) (h : escapeChar ∉ line.toList) :
    String.ofList (unstyled (highlight line).toList) = line := by
  have hstyles : Styles (highlight line).toList line.toList := by
    rw [highlight, String.toList_ofList]
    split
    · exact (styles_plain h).colour _
    · exact styles_flatMap fun c hc => styles_highlightChar fun heq => h (heq ▸ hc)
  -- nothing stands behind the line
  have hall := hstyles []
  have hnil : unstyled [] = [] := rfl
  rw [List.append_nil, hnil, List.append_nil] at hall
  rw [hall, String.ofList_toList]

/-- A comment that looks like the rest of a colour sequence, right behind an operator. -/
theorem highlight_keeps_text_digits :
    escapeChar ∉ (String.ofList [',', '[', '3', '1', 'm', ']']).toList ∧
      String.ofList (unstyled (highlight (String.ofList [',', '[', '3', '1', 'm', ']'])).toList) =
        String.ofList [',', '[', '3', '1', 'm', ']'] := by
  have h : escapeChar ∉ (String.ofList [',', '[', '3', '1', 'm', ']']).toList := by simp [escapeChar]
  exact ⟨h, highlight_keeps_text _ h⟩

end Shell
end TapeLang
