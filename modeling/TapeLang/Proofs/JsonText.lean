import TapeLang.Proofs.JsonGrammar

/-!
# TapeLang.Proofs.JsonText — texts that are read back

However a value is written, the reader finds it, whatever stands behind.

* `Stops`: what may stand behind a number.  A digit would make it longer.
* `number_text`, `string_text`: the tokens of `NumberText` and `StringText` are read.  The reader finds a text in a string just
  when the code points make one up (`textOf_of_joined`, `joined_of_textOf`).
* `Denotes cs v`: in front of anything that stops a number, `cs` is read as `v`, with as many steps as `cs` is long.
* `Denotes.array`, `Denotes.object`: the two ways to nest, for any number of elements or members and any blanks.
* **`Spelled.denotes`**: every way to write a value is read as that value; `parse_of_spelled` says it of whole texts.
-/

namespace TapeLang.Json

/-! ## Numbers -/

section Numbers

open Text

/-- No digit stands in front. -/
def NoDigit (rest : List Char) : Prop := ∀ c ∈ rest.head?, c.isDigit = false

/-- What may stand behind a number: neither a digit nor the start of a fraction or an exponent. -/
def Stops (rest : List Char) : Prop := ∀ c ∈ rest.head?, c.isDigit = false ∧ c ≠ '.' ∧ c ≠ 'e' ∧ c ≠ 'E'

theorem Stops.noDigit {rest : List Char} (h : Stops rest) : NoDigit rest := fun c hc => (h c hc).1

theorem stops_cons {c : Char} {cs : List Char} (h : c.isDigit = false ∧ c ≠ '.' ∧ c ≠ 'e' ∧ c ≠ 'E') :
    Stops (c :: cs) := by
  intro d hd
  cases hd
  exact h

theorem noDigit_cons {c : Char} {cs : List Char} (h : c.isDigit = false) : NoDigit (c :: cs) := by
  intro d hd
  cases hd
  exact h

variable {n : Nat} {ds f e rest : List Char}

theorem takeWhile_digits (hds : ∀ c ∈ ds, c.isDigit = true) (h : NoDigit rest) :
    (ds ++ rest).takeWhile Char.isDigit = ds := by
  rw [List.takeWhile_append_of_pos hds]
  cases rest with
  | nil => simp
  | cons c cs => simp [h c rfl]

theorem dropWhile_digits (hds : ∀ c ∈ ds, c.isDigit = true) (h : NoDigit rest) :
    (ds ++ rest).dropWhile Char.isDigit = rest := by
  rw [List.dropWhile_append_of_pos hds]
  cases rest with
  | nil => rfl
  | cons c cs => simp [h c rfl]

theorem foldlM_digits (hds : ∀ c ∈ ds, c.isDigit = true) (n : Nat) :
    ds.foldlM (fun n c => (digit? c).map (10 * n + ·)) n = some (Nat.ofDigitChars 10 ds n) := by
  induction ds generalizing n with
  | nil => simp [Nat.ofDigitChars_nil]
  | cons c ds ih =>
    have hc : c.isDigit = true := hds c (List.mem_cons_self ..)
    rw [List.foldlM_cons, digit?, if_pos hc, Nat.ofDigitChars_cons]
    exact ih (fun d hd => hds d (List.mem_cons_of_mem c hd)) _

/-- A run of digits is read up to its end. -/
theorem digits_append (hds : IsDigits ds) (h : NoDigit rest) :
    digits (ds ++ rest) = some (Nat.ofDigitChars 10 ds 0, rest) := by
  have hne : ds.isEmpty = false := by simp [hds.nonempty]
  rw [digits, takeWhile_digits hds.digit h, dropWhile_digits hds.digit h, readDigits, hne, if_neg Bool.false_ne_true,
    foldlM_digits hds.digit]
  rfl

theorem isDigits_decimal (n : Nat) : IsDigits (decimal n) :=
  ⟨Nat.toDigits_ne_nil, fun _ hc => Nat.isDigit_of_mem_toDigits (by decide) (by decide) hc⟩

/-- Only zero starts with a zero. -/
theorem decimal_head (hn : 0 < n) : ∃ c ds, decimal n = c :: ds ∧ c ≠ '0' := by
  induction n using Nat.strongRecOn with
  | _ n ih =>
    rcases Nat.lt_or_ge n 10 with hlt | hge
    · refine ⟨n.digitChar, [], Nat.toDigits_of_lt_base hlt, ?_⟩
      have hall : ∀ d, d < 10 → 0 < d → d.digitChar ≠ '0' := by decide
      exact hall n hlt hn
    · obtain ⟨c, ds, hds, hc⟩ := ih (n / 10) (by omega) (by omega)
      refine ⟨c, ds ++ [(n % 10).digitChar], ?_, hc⟩
      rw [decimal, Nat.toDigits_of_base_le (by decide) hge]
      rw [decimal] at hds
      rw [hds, List.cons_append]

theorem magnitude_decimal (h : NoDigit rest) : magnitude (decimal n ++ rest) = some (n, rest) := by
  rcases Nat.eq_zero_or_pos n with rfl | hpos
  · rfl
  · obtain ⟨c, ds, hds, hc⟩ := decimal_head hpos
    have hdigits := digits_append (isDigits_decimal n) h
    have hvalue : Nat.ofDigitChars 10 (decimal n) 0 = n := by rw [decimal, Nat.ofDigitChars_ten_toDigits]
    rw [hvalue] at hdigits
    rw [hds, List.cons_append] at hdigits ⊢
    rw [magnitude, hdigits]
    intro cs hcs
    exact hc (List.cons.inj hcs).1

theorem fraction_text (h : FractionText f) (hrest : NoDigit rest) (hdot : ∀ c ∈ rest.head?, c ≠ '.') :
    fraction (f ++ rest) = some (!f.isEmpty, rest) := by
  cases h with
  | present hds => simp [fraction, digits_append hds hrest]
  | absent =>
    cases rest with
    | nil => rfl
    | cons c cs =>
      rw [List.nil_append, fraction]
      · rfl
      · intro ds hds
        exact hdot c rfl (List.cons.inj hds).1

/-- A digit is not a sign. -/
theorem exponentDigits_unsigned (hds : IsDigits ds) (rest : List Char) :
    exponentDigits (ds ++ rest) = digits (ds ++ rest) := by
  cases ds with
  | nil => exact absurd rfl hds.nonempty
  | cons c ds =>
    have hdigit := hds.digit c List.mem_cons_self
    rw [List.cons_append, exponentDigits]
    all_goals
      intro cs hcs
      rw [(List.cons.inj hcs).1] at hdigit
      exact absurd hdigit (by decide)

theorem exponent_text (h : ExponentText e) (hrest : Stops rest) : exponent (e ++ rest) = some (!e.isEmpty, rest) := by
  cases h with
  | @present e sign ds he hsign hds =>
    have hread : exponentDigits (sign ++ ds ++ rest) = some (Nat.ofDigitChars 10 ds 0, rest) := by
      rw [← digits_append hds hrest.noDigit, List.append_assoc]
      rcases hsign with rfl | rfl | rfl
      · exact exponentDigits_unsigned hds rest
      · rfl
      · rfl
    rcases he with rfl | rfl
    · simp only [List.cons_append, exponent, hread]
      rfl
    · simp only [List.cons_append, exponent, hread]
      rfl
  | absent =>
    cases rest with
    | nil => rfl
    | cons c cs =>
      rw [List.nil_append, exponent]
      · rfl
      · intro ds hds
        exact (hrest c rfl).2.2.1 (List.cons.inj hds).1
      · intro ds hds
        exact (hrest c rfl).2.2.2 (List.cons.inj hds).1

/-- What stands behind the digits of a number, and behind its fraction. -/
theorem noDigit_exponent (h : ExponentText e) (hrest : Stops rest) :
    NoDigit (e ++ rest) ∧ ∀ c ∈ (e ++ rest).head?, c ≠ '.' := by
  cases h with
  | absent => exact ⟨hrest.noDigit, fun c hc => (hrest c hc).2.1⟩
  | @present e sign ds he _ _ =>
    have hother : e.isDigit = false ∧ e ≠ '.' := by
      rcases he with rfl | rfl <;> decide
    constructor
    · exact noDigit_cons hother.1
    · intro c hc
      cases hc
      exact hother.2

theorem noDigit_fraction (h : FractionText f) (hrest : NoDigit rest) : NoDigit (f ++ rest) := by
  cases h with
  | absent => exact hrest
  | present _ => exact noDigit_cons (by decide)

theorem unsignedNumber_text (negative : Bool) (n : Nat) (hf : FractionText f) (he : ExponentText e) (hrest : Stops rest) :
    unsignedNumber negative (decimal n ++ (f ++ e) ++ rest) = some (⟨negative, n, f.isEmpty && e.isEmpty⟩, rest) := by
  obtain ⟨hdigit, hdot⟩ := noDigit_exponent he hrest
  simp only [unsignedNumber, List.append_assoc, magnitude_decimal (noDigit_fraction hf hdigit), fraction_text hf hdigit hdot,
    exponent_text he hrest, bind, Option.bind, Bool.not_not]
  rfl

/-- A number starts with its sign or with a digit. -/
theorem numberText_first {cs : List Char} {n : Numeral} (h : NumberText cs n) :
    ∃ c ds, cs = c :: ds ∧ (c = '-' ∨ c.isDigit = true) := by
  cases h with
  | @intro negative n f e hf he =>
    cases negative with
    | true => exact ⟨'-', _, rfl, .inl rfl⟩
    | false =>
      obtain ⟨hne, hdigits⟩ := isDigits_decimal n
      cases hds : decimal n with
      | nil => exact absurd hds hne
      | cons c ds => exact ⟨c, _, rfl, .inr (hdigits c (by rw [hds]; exact List.mem_cons_self))⟩

/-- **Numbers are read**, whatever their length. -/
theorem number_text {cs : List Char} {n : Numeral} (h : NumberText cs n) (hrest : Stops rest) :
    number (cs ++ rest) = some (n, rest) := by
  cases h with
  | @intro negative n f e hf he =>
    have hread := unsignedNumber_text negative n hf he hrest
    cases negative with
    | true => exact hread
    | false =>
      rw [← hread, signText, List.nil_append, number]
      -- a digit is not a minus sign
      intro cs hcs
      have hmem : '-' ∈ decimal n := by
        cases hds : decimal n with
        | nil => exact absurd hds (isDigits_decimal n).nonempty
        | cons c ds =>
          rw [hds, List.cons_append, List.cons_append] at hcs
          rw [(List.cons.inj hcs).1]
          exact List.mem_cons_self
      exact absurd ((isDigits_decimal n).digit '-' hmem) (by decide)

theorem numberText_signedDecimal (v : Int) : NumberText (signedDecimal v) ⟨decide (v < 0), v.natAbs, true⟩ := by
  have h := NumberText.intro (decide (v < 0)) v.natAbs .absent .absent
  rw [List.append_nil, List.append_nil] at h
  rw [signedDecimal]
  by_cases hv : v < 0
  · rw [decide_eq_true hv] at h ⊢
    rw [if_pos hv]
    exact h
  · rw [decide_eq_false hv] at h ⊢
    rw [if_neg hv]
    exact h

end Numbers

/-! ## Strings -/

section Strings

theorem hexDigit?_of_isHexDigit {c : Char} {n : Nat} (h : IsHexDigit c n) : hexDigit? c = some n := by
  have hall : ∀ n, n < 16 → hexDigit? n.digitChar = some n ∧ hexDigit? n.digitChar.toUpper = some n := by decide
  obtain ⟨hn, rfl | rfl⟩ := h
  · exact (hall n hn).1
  · exact (hall n hn).2

theorem shortEscape?_of_mem {letter c : Char} (h : (letter, c) ∈ escapes) :
    letter ≠ 'u' ∧ shortEscape? letter = some c.toNat := by
  have hall : ∀ x ∈ escapes, x.1 ≠ 'u' ∧ shortEscape? x.1 = some x.2.toNat := by decide
  exact hall _ h

/-- One code point is read, and is a character or half a pair. -/
theorem stringBody_point {cs : List Char} {n : Nat} (h : PointText cs n) (done : List Nat) (rest : List Char) :
    stringBody done (cs ++ rest) = stringBody (n :: done) rest ∧ n < 0x110000 := by
  cases h with
  | @plain c hlow hquote hslash =>
    have hnot : ¬(c.toNat < 0x20 ∨ c = '\\') := by
      rintro (hlt | heq)
      · omega
      · exact hslash heq
    have hvalid : c.toNat < 0xD800 ∨ 0xDFFF < c.toNat ∧ c.toNat < 0x110000 := c.valid
    refine ⟨?_, by omega⟩
    rw [List.singleton_append, stringBody, if_neg hnot]
    · intro heq; exact hquote heq
    · intro _ _ _ _ _ heq; exact absurd heq hslash
    · intro _ _ heq; exact absurd heq hslash
  | @short letter c hmem =>
    obtain ⟨hu, hescape⟩ := shortEscape?_of_mem hmem
    have hvalid : c.toNat < 0xD800 ∨ 0xDFFF < c.toNat ∧ c.toNat < 0x110000 := c.valid
    refine ⟨?_, by omega⟩
    rw [List.cons_append, List.singleton_append, stringBody, hescape]
    intro _ _ _ _ _ heq
    exact absurd heq hu
  | @long a b c d i j k l ha hb hc hd =>
    have hhex : hex4? a b c d = some (((i * 16 + j) * 16 + k) * 16 + l) := by
      simp only [hex4?, bind, Option.bind, hexDigit?_of_isHexDigit ha, hexDigit?_of_isHexDigit hb, hexDigit?_of_isHexDigit hc,
        hexDigit?_of_isHexDigit hd]
      rfl
    refine ⟨?_, ?_⟩
    · simp only [List.cons_append, List.nil_append, stringBody, hhex]
    · obtain ⟨hi, -⟩ := ha
      obtain ⟨hj, -⟩ := hb
      obtain ⟨hk, -⟩ := hc
      obtain ⟨hl, -⟩ := hd
      omega

theorem stringBody_points {cs : List Char} {ns : List Nat} (h : PointsText cs ns) (done : List Nat) (rest : List Char) :
    stringBody done (cs ++ '"' :: rest) = some (done.reverse ++ ns, rest) ∧ ∀ n ∈ ns, n < 0x110000 := by
  induction h generalizing done with
  | nil => exact ⟨by simp [stringBody], by simp⟩
  | @cons cs ds n ns hpoint _ ih =>
    obtain ⟨hstep, hn⟩ := stringBody_point hpoint done (ds ++ '"' :: rest)
    obtain ⟨hrest, hns⟩ := ih (n :: done)
    refine ⟨?_, ?_⟩
    · rw [List.append_assoc, hstep, hrest]
      simp
    · intro m hm
      rcases List.mem_cons.mp hm with rfl | hm
      · exact hn
      · exact hns m hm

/-- No character is a half of a pair. -/
theorem isSurrogate_toNat (c : Char) : isHighSurrogate c.toNat = false ∧ isLowSurrogate c.toNat = false := by
  have hvalid : c.toNat < 0xD800 ∨ 0xDFFF < c.toNat ∧ c.toNat < 0x110000 := c.valid
  constructor
  · simp only [isHighSurrogate, Bool.and_eq_false_iff, decide_eq_false_iff_not]
    omega
  · simp only [isLowSurrogate, Bool.and_eq_false_iff, decide_eq_false_iff_not]
    omega

theorem textOf_char (c : Char) (done : List Char) (ns : List Nat) :
    textOf done (c.toNat :: ns) = textOf (c :: done) ns := by
  obtain ⟨hhigh, hlow⟩ := isSurrogate_toNat c
  cases ns <;> simp [textOf, hhigh, hlow]

theorem textOf_of_joined {ns : List Nat} {text : List Char} (h : Joined ns text) (done : List Char) :
    textOf done ns = some (done.reverse ++ text) := by
  induction h generalizing done with
  | nil => simp [textOf]
  | char c _ ih => simp [textOf_char, ih]
  | @pair c high low ns text hhigh hhigh' hlow hlow' hc _ ih =>
    have hpair : (isHighSurrogate high && isLowSurrogate low) = true := by
      simp [isHighSurrogate, isLowSurrogate, hhigh, hhigh', hlow, hlow']
    rw [textOf, if_pos hpair, ← hc, Char.ofNat_toNat, ih]
    simp

/-- A number that is no half of a pair is the code of a character. -/
theorem exists_char {n : Nat} (hn : n < 0x110000) (hhigh : isHighSurrogate n = false) (hlow : isLowSurrogate n = false) :
    ∃ c : Char, c.toNat = n := by
  have hvalid : n.isValidChar := by
    simp only [isHighSurrogate, isLowSurrogate, Bool.and_eq_false_iff, decide_eq_false_iff_not] at hhigh hlow
    simp only [Nat.isValidChar]
    omega
  refine ⟨Char.ofNat n, ?_⟩
  rw [Char.ofNat, dif_pos hvalid]
  rfl

/-- Where a text is made up, the code points make it up. -/
theorem joined_of_textOf {ns : List Nat} {done text : List Char} (hns : ∀ n ∈ ns, n < 0x110000)
    (h : textOf done ns = some text) : ∃ text, Joined ns text := by
  fun_induction textOf done ns with
  | case1 => exact ⟨[], .nil⟩
  | case2 => cases h
  | case3 done n hhalf =>
    simp only [Bool.or_eq_true, not_or, Bool.not_eq_true] at hhalf
    obtain ⟨c, rfl⟩ := exists_char (hns n List.mem_cons_self) hhalf.1 hhalf.2
    exact ⟨[c], .char c .nil⟩
  | case4 done n m rest hpair ih =>
    obtain ⟨text, hjoined⟩ := ih (fun k hk => hns k (by simp [hk])) h
    simp only [isHighSurrogate, isLowSurrogate, Bool.and_eq_true, decide_eq_true_eq] at hpair
    obtain ⟨⟨hhigh, hhigh'⟩, hlow, hlow'⟩ := hpair
    -- two halves never make up a third one
    obtain ⟨c, hc⟩ := exists_char (n := 0x10000 + (n - 0xD800) * 0x400 + (m - 0xDC00)) (by omega)
      (by simp [isHighSurrogate]; omega) (by simp [isLowSurrogate]; omega)
    exact ⟨c :: text, .pair hhigh hhigh' hlow hlow' hc hjoined⟩
  | case5 => cases h
  | case6 done n m rest _ hhalf ih =>
    obtain ⟨text, hjoined⟩ := ih (fun k hk => hns k (List.mem_cons_of_mem n hk)) h
    simp only [Bool.or_eq_true, not_or, Bool.not_eq_true] at hhalf
    obtain ⟨c, rfl⟩ := exists_char (hns n List.mem_cons_self) hhalf.1 hhalf.2
    exact ⟨c :: text, .char c hjoined⟩

/-- **Strings are read**, and have a text just when their code points make one up. -/
theorem string_text {cs : List Char} {text : Option (List Char)} (h : StringText cs text) :
    ∃ ds, cs = '"' :: ds ∧ ∀ rest, string (ds ++ rest) = some (text, rest) := by
  have hread {cs : List Char} {ns : List Nat} (hpoints : PointsText cs ns) (rest : List Char) :
      string (cs ++ ['"'] ++ rest) = some (textOf [] ns, rest) := by
    rw [List.append_assoc, List.singleton_append, string, (stringBody_points hpoints [] rest).1]
    rfl
  cases h with
  | @text cs ns text hpoints hjoined =>
    refine ⟨cs ++ ['"'], rfl, fun rest => ?_⟩
    rw [hread hpoints, textOf_of_joined hjoined]
    rfl
  | @broken cs ns hpoints hbroken =>
    refine ⟨cs ++ ['"'], rfl, fun rest => ?_⟩
    rw [hread hpoints]
    cases htext : textOf [] ns with
    | none => rfl
    | some text =>
      obtain ⟨text, hjoined⟩ := joined_of_textOf (stringBody_points hpoints [] rest).2 htext
      exact absurd hjoined (hbroken text)

/-- A text that stands for itself between quotes. -/
def Plain (text : List Char) : Prop := ∀ c ∈ text, 0x20 ≤ c.toNat ∧ c ≠ '"' ∧ c ≠ '\\'

theorem stringText_plain {text : List Char} (h : Plain text) : StringText ('"' :: (text ++ ['"'])) (some text) := by
  have hparts : PointsText text (text.map Char.toNat) ∧ Joined (text.map Char.toNat) text := by
    induction text with
    | nil => exact ⟨.nil, .nil⟩
    | cons c text ih =>
      obtain ⟨hlow, hquote, hslash⟩ := h c List.mem_cons_self
      obtain ⟨hpoints, hjoined⟩ := ih fun d hd => h d (List.mem_cons_of_mem c hd)
      exact ⟨.cons (.plain hlow hquote hslash) hpoints, .char c hjoined⟩
  exact .text hparts.1 hparts.2

end Strings

/-! ## Blanks -/

section Blank

variable {c : Char} {cs rest : List Char}

theorem skipBlanks_cons (h : isBlank c = false) (cs : List Char) : skipBlanks (c :: cs) = c :: cs := by
  simp [skipBlanks, h]

theorem skipBlanks_blanks (b : Blanks) (cs : List Char) : skipBlanks (b.text ++ cs) = skipBlanks cs := by
  rw [skipBlanks, List.dropWhile_append_of_pos]
  · rfl
  · intro c hc
    rcases b.only c hc with rfl | rfl | rfl | rfl <;> rfl

/-- Blanks stop a number as well as what stands behind them. -/
theorem stops_blanks (b : Blanks) (h : Stops rest) : Stops (b.text ++ rest) := by
  cases htext : b.text with
  | nil => exact h
  | cons c cs =>
    refine stops_cons ?_
    rcases b.only c (by rw [htext]; exact List.mem_cons_self) with rfl | rfl | rfl | rfl <;> decide

end Blank

/-! ## Values -/

section Values

/-- A text is read as a value in front of anything that stops a number. -/
structure Denotes (cs : List Char) (v : Value) : Prop where
  head : ∃ c ds, cs = c :: ds ∧ isBlank c = false ∧ c ≠ ']'
  read : ∀ (fuel : Nat) (rest : List Char), cs.length ≤ fuel → Stops rest → value fuel (cs ++ rest) = some (v, rest)

variable {fuel : Nat} {c : Char} {cs ds rest : List Char} {v : Value}

theorem Denotes.skipBlanks_eq (h : Denotes cs v) (rest : List Char) : skipBlanks (cs ++ rest) = cs ++ rest := by
  obtain ⟨c, ds, rfl, hblank, -⟩ := h.head
  exact skipBlanks_cons hblank _

/-- A value that its first character gives away. -/
theorem denotes_cons (hblank : isBlank c = false) (hne : c ≠ ']')
    (h : ∀ fuel rest, ds.length ≤ fuel → Stops rest → value (fuel + 1) (c :: (ds ++ rest)) = some (v, rest)) :
    Denotes (c :: ds) v := by
  refine ⟨⟨c, ds, rfl, hblank, hne⟩, ?_⟩
  intro fuel rest hfuel hrest
  rw [List.length_cons] at hfuel
  obtain ⟨fuel, rfl⟩ : ∃ f, fuel = f + 1 := ⟨fuel - 1, by omega⟩
  exact h fuel rest (by omega) hrest

theorem value_of_number (h : c = '-' ∨ c.isDigit = true) (fuel : Nat) (cs : List Char) :
    value (fuel + 1) (c :: cs) = (number (c :: cs)).map fun (n, rest) => (.number n, rest) := by
  have hne (d : Char) (hd : ¬(d = '-' ∨ d.isDigit = true)) : c ≠ d := by
    rintro rfl
    exact hd h
  rw [value]
  · intro ds hds; exact hne 'n' (by decide) (List.cons.inj hds).1
  · intro ds hds; exact hne 't' (by decide) (List.cons.inj hds).1
  · intro ds hds; exact hne 'f' (by decide) (List.cons.inj hds).1
  · intro ds hds; exact hne '"' (by decide) (List.cons.inj hds).1
  · intro ds hds; exact hne '[' (by decide) (List.cons.inj hds).1
  · intro ds hds; exact hne '\x7b' (by decide) (List.cons.inj hds).1

/-- The first character of a number is not one that means something else. -/
theorem number_first (h : c = '-' ∨ c.isDigit = true) : isBlank c = false ∧ c ≠ ']' := by
  have hne (d : Char) (hd : ¬(d = '-' ∨ d.isDigit = true)) : c ≠ d := by
    rintro rfl
    exact hd h
  refine ⟨?_, hne _ (by decide)⟩
  simp [isBlank, hne ' ' (by decide), hne '\t' (by decide), hne '\n' (by decide), hne '\r' (by decide)]

theorem denotes_number {n : Numeral} (h : NumberText cs n) : Denotes cs (.number n) := by
  obtain ⟨c, ds, rfl, hc⟩ := numberText_first h
  obtain ⟨hblank, hne⟩ := number_first hc
  refine denotes_cons hblank hne fun fuel rest _ hrest => ?_
  have hread := number_text h hrest
  rw [List.cons_append] at hread
  rw [value_of_number hc, hread]
  rfl

theorem denotes_string {text : Option (List Char)} (h : StringText cs text) : Denotes cs (.string text) := by
  obtain ⟨ds, rfl, hread⟩ := string_text h
  refine denotes_cons (by decide) (by decide) fun fuel rest _ _ => ?_
  rw [value, hread]
  rfl

end Values

/-! ## Nesting -/

section Nesting

variable {fuel : Nat} {cs rest : List Char}

theorem intercalate_one (x : List Char) : [','].intercalate [x] = x := by simp [List.intercalate]

theorem intercalate_cons (x y : List Char) (ys : List (List Char)) :
    [','].intercalate (x :: y :: ys) = x ++ ',' :: [','].intercalate (y :: ys) := by
  simp [List.intercalate]

theorem intercalate_first (x : List Char) (xs : List (List Char)) :
    ∃ more, [','].intercalate (x :: xs) = x ++ more := by
  cases xs with
  | nil => exact ⟨[], by rw [intercalate_one, List.append_nil]⟩
  | cons y xs => exact ⟨_, intercalate_cons ..⟩

theorem Element.length_written (x : Element) : x.text.length ≤ x.written.length := by
  simp only [Element.written, List.length_append]
  omega

/-- An element is read without the blanks in front of it; those behind it are left. -/
theorem value_written {x : Element} (h : Denotes x.text x.value) (hfuel : x.written.length ≤ fuel) (hrest : Stops rest) :
    value fuel (skipBlanks (x.written ++ rest)) = some (x.value, x.after.text ++ rest) := by
  have hlength := x.length_written
  rw [Element.written, List.append_assoc, skipBlanks_blanks, List.append_assoc, h.skipBlanks_eq]
  exact h.read fuel _ (by omega) (stops_blanks _ hrest)

/-! ### Arrays -/

theorem elements_last {x : Element} (h : Denotes x.text x.value) (hfuel : x.written.length ≤ fuel) (done : List Value) :
    elements (fuel + 1) done (skipBlanks (x.written ++ ']' :: rest)) = some ((x.value :: done).reverse, rest) := by
  rw [elements, value_written h hfuel (stops_cons (by decide))]
  simp only [skipBlanks_blanks, skipBlanks_cons (show isBlank ']' = false by decide)]

theorem elements_more {x : Element} (h : Denotes x.text x.value) (hfuel : x.written.length ≤ fuel) (done : List Value) :
    elements (fuel + 1) done (skipBlanks (x.written ++ ',' :: rest)) =
      elements fuel (x.value :: done) (skipBlanks rest) := by
  rw [elements, value_written h hfuel (stops_cons (by decide))]
  simp only [skipBlanks_blanks, skipBlanks_cons (show isBlank ',' = false by decide)]

theorem elements_of_denotes {x : Element} {xs : List Element} (h : ∀ y ∈ x :: xs, Denotes y.text y.value)
    (hfuel : ([','].intercalate ((x :: xs).map Element.written)).length < fuel) (done : List Value) (rest : List Char) :
    elements fuel done (skipBlanks ([','].intercalate ((x :: xs).map Element.written) ++ ']' :: rest)) =
      some (done.reverse ++ (x :: xs).map (·.value), rest) := by
  have hx := h x List.mem_cons_self
  obtain ⟨fuel, rfl⟩ : ∃ f, fuel = f + 1 := ⟨fuel - 1, by omega⟩
  induction xs generalizing x fuel done with
  | nil =>
    rw [List.map_singleton, intercalate_one] at hfuel ⊢
    rw [elements_last hx (by omega), List.reverse_cons, List.map_singleton]
  | cons y xs ih =>
    have hy := h y (by simp)
    rw [List.map_cons, List.map_cons, intercalate_cons, List.length_append, List.length_cons, ← List.map_cons] at hfuel
    obtain ⟨fuel, rfl⟩ : ∃ f, fuel = f + 1 := ⟨fuel - 1, by omega⟩
    have hrest := ih (fun z hz => h z (List.mem_cons_of_mem x hz)) (x.value :: done) hy fuel (by omega)
    rw [List.map_cons, List.map_cons, intercalate_cons, List.append_assoc, List.cons_append, ← List.map_cons,
      elements_more hx (by omega), hrest]
    simp

theorem value_array {c : Char} {ds : List Char} (h : skipBlanks cs = c :: ds) (hne : c ≠ ']') :
    value (fuel + 1) ('[' :: cs) = (elements fuel [] (skipBlanks cs)).map fun (items, rest) => (.array items, rest) := by
  rw [value, h]
  split
  · rename_i heq
    exact absurd (List.cons.inj heq).1 hne
  · rfl

theorem denotes_emptyArray (b : Blanks) : Denotes ('[' :: (b.text ++ [']'])) (.array []) := by
  refine denotes_cons (by decide) (by decide) fun fuel rest _ _ => ?_
  rw [List.append_assoc, value, skipBlanks_blanks]
  rfl

/-- The first element of an array is what stands behind the blanks. -/
theorem skipBlanks_intercalate {x : Element} (h : Denotes x.text x.value) (xs : List Element) (rest : List Char) :
    ∃ c ds, skipBlanks ([','].intercalate ((x :: xs).map Element.written) ++ rest) = c :: ds ∧ c ≠ ']' := by
  obtain ⟨more, hmore⟩ := intercalate_first x.written (xs.map Element.written)
  obtain ⟨c, ds, hds, -, hne⟩ := h.head
  refine ⟨c, ds ++ (x.after.text ++ (more ++ rest)), ?_, hne⟩
  rw [List.map_cons, hmore, Element.written, List.append_assoc, List.append_assoc, skipBlanks_blanks, List.append_assoc,
    h.skipBlanks_eq, hds]
  rfl

/-- An array of texts that are read. -/
theorem Denotes.array {xs : List Element} (hne : xs ≠ []) (h : ∀ x ∈ xs, Denotes x.text x.value) :
    Denotes ('[' :: ([','].intercalate (xs.map Element.written) ++ [']'])) (.array (xs.map (·.value))) := by
  cases xs with
  | nil => exact absurd rfl hne
  | cons x xs =>
    refine denotes_cons (by decide) (by decide) fun fuel rest hfuel _ => ?_
    rw [List.length_append, List.length_singleton] at hfuel
    rw [List.append_assoc, List.singleton_append]
    obtain ⟨c, ds, hfirst, hother⟩ := skipBlanks_intercalate (h x List.mem_cons_self) xs (']' :: rest)
    rw [value_array hfirst hother, elements_of_denotes h (by omega)]
    rfl

/-! ### Objects -/

/-- A member is read up to the blanks behind its value. -/
theorem Member.skipBlanks_written {x : Member} (h : StringText x.keyText x.key) (rest : List Char) :
    skipBlanks (x.written ++ rest) = x.keyText ++ (x.after.text ++ ':' :: (x.element.written ++ rest)) := by
  rw [written, List.append_assoc, skipBlanks_blanks, List.append_assoc, (denotes_string h).skipBlanks_eq, List.append_assoc,
    List.cons_append]

theorem Member.length_written (x : Member) : x.element.written.length < x.written.length := by
  simp only [Member.written, List.length_append, List.length_cons]
  omega

variable {done : List (Option (List Char) × Value)}

theorem members_last {x : Member} (hkey : StringText x.keyText x.key) (h : Denotes x.element.text x.element.value)
    (hfuel : x.written.length ≤ fuel) :
    members (fuel + 1) done (skipBlanks (x.written ++ '\x7d' :: rest)) =
      some (((x.key, x.element.value) :: done).reverse, rest) := by
  have hlength := x.length_written
  have hstops : Stops ('\x7d' :: rest) := stops_cons (by decide)
  have hread := value_written h (show _ ≤ fuel by omega) hstops
  rw [Member.skipBlanks_written hkey]
  obtain ⟨ds, hds, hstring⟩ := string_text hkey
  rw [hds, List.cons_append, members, hstring]
  simp only [skipBlanks_blanks, skipBlanks_cons (show isBlank ':' = false by decide), hread,
    skipBlanks_cons (show isBlank '\x7d' = false by decide)]

theorem members_more {x : Member} (hkey : StringText x.keyText x.key) (h : Denotes x.element.text x.element.value)
    (hfuel : x.written.length ≤ fuel) :
    members (fuel + 1) done (skipBlanks (x.written ++ ',' :: rest)) =
      members fuel ((x.key, x.element.value) :: done) (skipBlanks rest) := by
  have hlength := x.length_written
  have hstops : Stops (',' :: rest) := stops_cons (by decide)
  have hread := value_written h (show _ ≤ fuel by omega) hstops
  rw [Member.skipBlanks_written hkey]
  obtain ⟨ds, hds, hstring⟩ := string_text hkey
  rw [hds, List.cons_append, members, hstring]
  simp only [skipBlanks_blanks, skipBlanks_cons (show isBlank ':' = false by decide), hread,
    skipBlanks_cons (show isBlank ',' = false by decide)]

theorem members_of_denotes {x : Member} {xs : List Member} (hkeys : ∀ y ∈ x :: xs, StringText y.keyText y.key)
    (h : ∀ y ∈ x :: xs, Denotes y.element.text y.element.value)
    (hfuel : ([','].intercalate ((x :: xs).map Member.written)).length < fuel)
    (done : List (Option (List Char) × Value)) (rest : List Char) :
    members fuel done (skipBlanks ([','].intercalate ((x :: xs).map Member.written) ++ '\x7d' :: rest)) =
      some (done.reverse ++ (x :: xs).map (fun y => (y.key, y.element.value)), rest) := by
  have hkey := hkeys x List.mem_cons_self
  have hx := h x List.mem_cons_self
  obtain ⟨fuel, rfl⟩ : ∃ f, fuel = f + 1 := ⟨fuel - 1, by omega⟩
  induction xs generalizing x fuel done with
  | nil =>
    rw [List.map_singleton, intercalate_one] at hfuel ⊢
    rw [members_last hkey hx (by omega), List.reverse_cons, List.map_singleton]
  | cons y xs ih =>
    have hkey' := hkeys y (by simp)
    have hy := h y (by simp)
    rw [List.map_cons, List.map_cons, intercalate_cons, List.length_append, List.length_cons, ← List.map_cons] at hfuel
    obtain ⟨fuel, rfl⟩ : ∃ f, fuel = f + 1 := ⟨fuel - 1, by omega⟩
    have hrest := ih (fun z hz => hkeys z (List.mem_cons_of_mem x hz)) (fun z hz => h z (List.mem_cons_of_mem x hz))
      ((x.key, x.element.value) :: done) hkey' hy fuel (by omega)
    rw [List.map_cons, List.map_cons, intercalate_cons, List.append_assoc, List.cons_append, ← List.map_cons,
      members_more hkey hx (by omega), hrest]
    simp

theorem value_object {ds : List Char} (h : skipBlanks cs = '"' :: ds) :
    value (fuel + 1) ('\x7b' :: cs) =
      (members fuel [] (skipBlanks cs)).map fun (members, rest) => (.object members, rest) := by
  rw [value, h]
  rfl

theorem denotes_emptyObject (b : Blanks) : Denotes ('\x7b' :: (b.text ++ ['\x7d'])) (.object []) := by
  refine denotes_cons (by decide) (by decide) fun fuel rest _ _ => ?_
  rw [List.append_assoc, value, skipBlanks_blanks]
  rfl

/-- An object of texts that are read. -/
theorem Denotes.object {xs : List Member} (hne : xs ≠ []) (hkeys : ∀ x ∈ xs, StringText x.keyText x.key)
    (h : ∀ x ∈ xs, Denotes x.element.text x.element.value) :
    Denotes ('\x7b' :: ([','].intercalate (xs.map Member.written) ++ ['\x7d']))
      (.object (xs.map fun x => (x.key, x.element.value))) := by
  cases xs with
  | nil => exact absurd rfl hne
  | cons x xs =>
    refine denotes_cons (by decide) (by decide) fun fuel rest hfuel _ => ?_
    rw [List.length_append, List.length_singleton] at hfuel
    rw [List.append_assoc, List.singleton_append]
    obtain ⟨more, hmore⟩ := intercalate_first x.written (xs.map Member.written)
    obtain ⟨ds, hds, -⟩ := string_text (hkeys x List.mem_cons_self)
    have hfirst := Member.skipBlanks_written (hkeys x List.mem_cons_self) (more ++ '\x7d' :: rest)
    rw [← List.append_assoc, ← hmore, ← List.map_cons, hds, List.cons_append] at hfirst
    rw [value_object hfirst, members_of_denotes hkeys h (by omega)]
    rfl

end Nesting

/-! ## Whole texts -/

/-- **Values are read**, however they are written. -/
theorem Spelled.denotes {cs : List Char} {v : Value} (h : Spelled cs v) : Denotes cs v := by
  induction h with
  | null => exact denotes_cons (by decide) (by decide) fun _ _ _ _ => rfl
  | true => exact denotes_cons (by decide) (by decide) fun _ _ _ _ => rfl
  | false => exact denotes_cons (by decide) (by decide) fun _ _ _ _ => rfl
  | number hn => exact denotes_number hn
  | string hs => exact denotes_string hs
  | emptyArray b => exact denotes_emptyArray b
  | array hne _ ih => exact .array hne ih
  | emptyObject b => exact denotes_emptyObject b
  | object hne hkeys _ ih => exact .object hne hkeys ih

/-- A value with blanks around it is read as a whole. -/
theorem parse_of_spelled {cs : List Char} {v : Value} (h : Spelled cs v) (before after : Blanks) :
    parse (before.text ++ (cs ++ after.text)) = some v := by
  have hdenotes := h.denotes
  have hstops : Stops after.text := by
    have hempty : Stops [] := by
      intro c hc
      cases hc
    have hblanks := stops_blanks after hempty
    rwa [List.append_nil] at hblanks
  have hskip : skipBlanks after.text = [] := by
    have hblanks := skipBlanks_blanks after []
    rwa [List.append_nil] at hblanks
  have hread := hdenotes.read (2 * (before.text ++ (cs ++ after.text)).length + 2) after.text (by simp; omega) hstops
  rw [parse, skipBlanks_blanks, hdenotes.skipBlanks_eq, hread]
  exact if_pos hskip

end TapeLang.Json
