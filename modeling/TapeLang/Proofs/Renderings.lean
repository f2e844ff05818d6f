import TapeLang.Proofs.ImageText

/-!
# TapeLang.Proofs.Renderings — images that were written by others

An image need not be written by `encode` to be read.  The two lines in front may have blanks at their ends, and the code may be
written in any way that JSON allows, with its members in any order and with members that say nothing about the code.

* `Text.withReturns`: a text with a carriage return before each line end.
* `Json.Spelled.withReturns`: numbers and strings stay on one line, so line ends are blanks and may be written in either way.
* `Image.Rendering c text`: the text says that it holds the code `c`.  The image itself does (`rendering_encode`).
* **`Image.decode_rendering`**: every rendering of code that may be run is read as the code, whichever way its lines end.
-/

namespace TapeLang

/-! ## Line ends -/

namespace Text

/-- A text with a carriage return before each line end. -/
def withReturns (cs : List Char) : List Char := cs.flatMap fun c => if c = '\n' then ['\r', '\n'] else [c]

theorem withReturns_append (cs ds : List Char) : withReturns (cs ++ ds) = withReturns cs ++ withReturns ds :=
  List.flatMap_append

theorem withReturns_lineEnd (cs : List Char) : withReturns ('\n' :: cs) = '\r' :: '\n' :: withReturns cs := rfl

theorem withReturns_cons {c : Char} (h : c ≠ '\n') (cs : List Char) : withReturns (c :: cs) = c :: withReturns cs := by
  have hfirst : withReturns (c :: cs) = (if c = '\n' then ['\r', '\n'] else [c]) ++ withReturns cs := rfl
  rw [hfirst, if_neg h]
  rfl

/-- A single line stays as it is. -/
theorem withReturns_line {cs : List Char} (h : '\n' ∉ cs) : withReturns cs = cs := by
  induction cs with
  | nil => rfl
  | cons c cs ih =>
    rw [List.mem_cons, not_or] at h
    rw [withReturns_cons (Ne.symm h.1), ih h.2]

theorem mem_withReturns {c : Char} {cs : List Char} (h : c ∈ withReturns cs) : c = '\r' ∨ c ∈ cs := by
  obtain ⟨d, hd, hc⟩ := List.mem_flatMap.mp h
  by_cases hline : d = '\n'
  · rw [if_pos hline] at hc
    simp only [List.mem_cons, List.not_mem_nil, or_false] at hc
    rcases hc with rfl | rfl
    · exact .inl rfl
    · exact .inr (hline ▸ hd)
  · rw [if_neg hline, List.mem_singleton] at hc
    exact .inr (hc ▸ hd)

theorem withReturns_intercalate (xs : List (List Char)) :
    withReturns ([','].intercalate xs) = [','].intercalate (xs.map withReturns) := by
  induction xs with
  | nil => rfl
  | cons x xs ih =>
    cases xs with
    | nil => rw [List.map_singleton, Json.intercalate_one, Json.intercalate_one]
    | cons y ys =>
      rw [Json.intercalate_cons, withReturns_append, withReturns_cons (by decide), ih]
      exact (Json.intercalate_cons ..).symm

end Text

namespace Json

open Text (withReturns withReturns_append withReturns_cons withReturns_line withReturns_intercalate)

section LineEnds

theorem newline_not_mem_digits {ds : List Char} (h : IsDigits ds) : '\n' ∉ ds := by
  intro hmem
  exact absurd (h.digit '\n' hmem) (by decide)

theorem newline_not_mem_number {cs : List Char} {n : Numeral} (h : NumberText cs n) : '\n' ∉ cs := by
  cases h with
  | @intro negative n f e hf he =>
    have hsign : '\n' ∉ signText negative := by cases negative <;> decide
    have hdigits := newline_not_mem_digits (isDigits_decimal n)
    have hfraction : '\n' ∉ f := by
      cases hf with
      | absent => simp
      | present hds => simp [newline_not_mem_digits hds]
    have hexponent : '\n' ∉ e := by
      cases he with
      | absent => simp
      | present he hsign hds =>
        have hdigits := newline_not_mem_digits hds
        rcases he with rfl | rfl <;> rcases hsign with rfl | rfl | rfl <;> simp [hdigits]
    simp [hsign, hdigits, hfraction, hexponent]

theorem newline_not_mem_point {cs : List Char} {n : Nat} (h : PointText cs n) : '\n' ∉ cs := by
  have hhex (k : Nat) : ¬IsHexDigit '\n' k := by
    intro hdigit
    cases hexDigit?_of_isHexDigit hdigit
  cases h with
  | plain hlow _ _ =>
    intro hmem
    rw [← List.mem_singleton.mp hmem] at hlow
    exact absurd hlow (by decide)
  | @short letter c hmem =>
    have hall : ∀ x ∈ escapes, '\n' ∉ ['\\', x.1] := by decide
    exact hall _ hmem
  | long ha hb hc hd =>
    intro hmem
    simp only [List.mem_cons, List.not_mem_nil, or_false] at hmem
    rcases hmem with hmem | hmem | rfl | rfl | rfl | rfl
    · exact absurd hmem (by decide)
    · exact absurd hmem (by decide)
    · exact hhex _ ha
    · exact hhex _ hb
    · exact hhex _ hc
    · exact hhex _ hd

theorem newline_not_mem_string {cs : List Char} {text : Option (List Char)} (h : StringText cs text) : '\n' ∉ cs := by
  have hpoints {cs : List Char} {ns : List Nat} (h : PointsText cs ns) : '\n' ∉ cs := by
    induction h with
    | nil => simp
    | cons hpoint _ ih => simp [newline_not_mem_point hpoint, ih]
  cases h with
  | text h _ => simp [hpoints h]
  | broken h _ => simp [hpoints h]

/-- Blanks are blanks, whichever way their lines end. -/
def Blanks.withReturns (b : Blanks) : Blanks where
  text := Text.withReturns b.text
  only := by
    intro c hc
    rcases Text.mem_withReturns hc with rfl | hmem
    · exact .inr (.inr (.inr rfl))
    · exact b.only c hmem

def Element.withReturns (x : Element) : Element :=
  ⟨x.before.withReturns, Text.withReturns x.text, x.value, x.after.withReturns⟩

theorem Element.written_withReturns (x : Element) : x.withReturns.written = Text.withReturns x.written := by
  simp only [written, withReturns_append]
  rfl

def Member.withReturns (x : Member) : Member :=
  ⟨x.before.withReturns, Text.withReturns x.keyText, x.key, x.after.withReturns, x.element.withReturns⟩

theorem Member.written_withReturns (x : Member) : x.withReturns.written = Text.withReturns x.written := by
  have hcolon := withReturns_cons (show (':' : Char) ≠ '\n' by decide) x.element.written
  simp only [written, withReturns_append, hcolon, ← Element.written_withReturns]
  rfl

/-- However a value is written, its lines may end in either way. -/
theorem Spelled.withReturns {cs : List Char} {v : Value} (h : Spelled cs v) : Spelled (Text.withReturns cs) v := by
  induction h with
  | null => exact .null
  | true => exact .true
  | false => exact .false
  | number hn =>
    rw [withReturns_line (newline_not_mem_number hn)]
    exact .number hn
  | string hs =>
    rw [withReturns_line (newline_not_mem_string hs)]
    exact .string hs
  | emptyArray b =>
    rw [withReturns_cons (by decide), withReturns_append]
    exact .emptyArray b.withReturns
  | @array xs hne _ ih =>
    have hitems : ∀ x ∈ xs.map Element.withReturns, Spelled x.text x.value := by
      intro x hx
      obtain ⟨y, hy, rfl⟩ := List.mem_map.mp hx
      exact ih y hy
    have hwritten : Element.written ∘ Element.withReturns = Text.withReturns ∘ Element.written :=
      funext Element.written_withReturns
    have harray := Spelled.array (mt List.map_eq_nil_iff.mp hne) hitems
    rw [List.map_map, List.map_map, hwritten, ← List.map_map, ← withReturns_intercalate] at harray
    rw [withReturns_cons (by decide), withReturns_append]
    exact harray
  | emptyObject b =>
    rw [withReturns_cons (by decide), withReturns_append]
    exact .emptyObject b.withReturns
  | @object xs hne hkeys _ ih =>
    have hkeys' : ∀ x ∈ xs.map Member.withReturns, StringText x.keyText x.key := by
      intro x hx
      obtain ⟨y, hy, rfl⟩ := List.mem_map.mp hx
      have hkey := hkeys y hy
      rw [← withReturns_line (newline_not_mem_string hkey)] at hkey
      exact hkey
    have hvalues : ∀ x ∈ xs.map Member.withReturns, Spelled x.element.text x.element.value := by
      intro x hx
      obtain ⟨y, hy, rfl⟩ := List.mem_map.mp hx
      exact ih y hy
    have hwritten : Member.written ∘ Member.withReturns = Text.withReturns ∘ Member.written :=
      funext Member.written_withReturns
    have hobject := Spelled.object (mt List.map_eq_nil_iff.mp hne) hkeys' hvalues
    rw [List.map_map, List.map_map, hwritten, ← List.map_map, ← withReturns_intercalate] at hobject
    rw [withReturns_cons (by decide), withReturns_append]
    exact hobject

end LineEnds

end Json

/-! ## Renderings -/

namespace Image

open Json (Value Spelled Blanks Plain)
open Text (withReturns withReturns_append withReturns_lineEnd withReturns_line)

/-- A text that holds some code.  The name of a member is a text: half a pair of surrogates in a name is no name at all, while
in a value that is not asked for it does no harm. -/
def Rendering (c : Code) (text : String) : Prop :=
  ∃ (first second : Margin) (before after : Blanks) (body : List Char) (v : Value),
    text.toList = lines first second (before.text ++ (body ++ after.text)) ∧ Spelled body v ∧ CodeValue c v

theorem rendering_encode (c : Code) : Rendering c (encode c) :=
  ⟨.nothing, .nothing, .nothing, lineEnd, showCode c, codeValue c, toList_encode c, spelled_showCode c,
    codeValue_codeValue c⟩

/-- The blanks at the end of a line and a carriage return. -/
def Margin.withReturn (m : Margin) : Margin where
  text := m.text ++ ['\r']
  only := by
    intro c hc
    rcases List.mem_append.mp hc with hc | hc
    · exact m.only c hc
    · rw [List.mem_singleton.mp hc]
      decide

theorem withReturns_lines (first second : Margin) (body : List Char) :
    withReturns (lines first second body) = lines first.withReturn second.withReturn (withReturns body) := by
  have hmargin (m : Margin) : withReturns m.text = m.text := withReturns_line fun h => (m.only '\n' h).2 rfl
  have hdirective : withReturns directive.toList = directive.toList := withReturns_line (by simp [directive])
  have hformat : withReturns format.toList = format.toList := withReturns_line (by simp [format])
  simp only [lines, Margin.withReturn, withReturns_append, withReturns_lineEnd, hmargin, hdirective, hformat,
    List.append_assoc, List.singleton_append]

theorem Rendering.withReturns {c : Code} {text : String} (h : Rendering c text) :
    Rendering c (String.ofList (withReturns text.toList)) := by
  obtain ⟨first, second, before, after, body, v, htext, hbody, hvalue⟩ := h
  refine ⟨first.withReturn, second.withReturn, before.withReturns, after.withReturns, _, v, ?_, hbody.withReturns, hvalue⟩
  rw [String.toList_ofList, htext, withReturns_lines, withReturns_append, withReturns_append]
  rfl

/-- **Renderings are read.**  Every rendering of code that may be run is read as the code, and the same is read if its lines
end in the other way; the image is one of them. -/
theorem decode_rendering {c : Code} (hfits : c.Fits) (hvalid : validate c = .ok ()) (path : String) :
    Rendering c (encode c) ∧ ∀ text, Rendering c text →
      decode text path = .ok c ∧ decode (String.ofList (withReturns text.toList)) path = .ok c := by
  have hread (text : String) (h : Rendering c text) : decode text path = .ok c := by
    obtain ⟨first, second, before, after, body, v, htext, hbody, hvalue⟩ := h
    rw [decode, htext, decodeText_rendering hfits hbody hvalue first second before after, hvalid]
    rfl
  exact ⟨rendering_encode c, fun text h => ⟨hread text h, hread _ h.withReturns⟩⟩

/-! ### A strange image -/

/-- `[-1.5e+3 ,"\uD800"]`, where a number is not whole and a string has half a pair of surrogates. -/
def strayElement : Json.Element :=
  bareElement "[-1.5e+3 ,\"\\uD800\"]".toList (.array [.number ⟨true, 1, false⟩, .string none])

theorem spelled_strayElement : Spelled strayElement.text strayElement.value := by
  have hdigit (c : Char) (h : c.isDigit = true) : Json.IsDigits [c] := ⟨List.cons_ne_nil _ _, List.forall_mem_singleton.mpr h⟩
  have hfraction : Json.FractionText ['.', '5'] := .present (hdigit '5' rfl)
  have hexponent : Json.ExponentText ('e' :: (['+'] ++ ['3'])) :=
    .present (.inl rfl) (.inr (.inl rfl)) (hdigit '3' rfl)
  have hpoint : Json.PointText ['\\', 'u', 'D', '8', '0', '0'] 0xD800 :=
    .long (i := 13) (j := 8) (k := 0) (l := 0) ⟨by decide, .inr rfl⟩ ⟨by decide, .inl rfl⟩ ⟨by decide, .inl rfl⟩
      ⟨by decide, .inl rfl⟩
  have hhalf (text : List Char) : ¬Json.Joined [0xD800] text := by
    intro h
    cases Json.textOf_of_joined h []
  have hitems : ∀ x ∈ [⟨.nothing, "-1.5e+3".toList, .number ⟨true, 1, false⟩, ⟨[' '], by simp⟩⟩,
      bareElement "\"\\uD800\"".toList (.string none)], Spelled x.text x.value :=
    List.forall_mem_cons.mpr ⟨.number (.intro true 1 hfraction hexponent),
      List.forall_mem_singleton.mpr (.string (.broken (.cons hpoint .nil) hhalf))⟩
  exact .array (List.cons_ne_nil _ _) hitems

/-- An instruction with those of its members that are given. -/
def givenMembers (ms : List Json.Member) : Json.Element :=
  bareElement ('\x7b' :: ([','].intercalate (ms.map Json.Member.written) ++ ['\x7d']))
    (.object (ms.map fun m => (m.key, m.element.value)))

theorem spelled_givenMembers {x : Instr} {ms : List Json.Member} (hne : ms ≠ []) (h : ∀ m ∈ ms, m ∈ instrMembers x) :
    Spelled (givenMembers ms).text (givenMembers ms).value :=
  spelled_object hne fun m hm => instrMembers_bare x m (h m hm)

/-- Two instructions.  The first has its members in the other order, and the second has no operand. -/
def strangeItems : List (Instr × Json.Element) :=
  [(⟨.newTape, some (.size 3)⟩, givenMembers (instrMembers ⟨.newTape, some (.size 3)⟩).reverse),
    (.plain .ret, givenMembers ((instrMembers (.plain .ret)).take 1))]

/-- `{ "by":[-1.5e+3 ,"\uD800"],"instructions":[{"operand":{"Size":3},"opcode":"NewTape"},{"opcode":"Return"}]}`, by its
members. -/
def strangeMembers : List Json.Member :=
  [⟨⟨[' '], by simp⟩, '"' :: ("by".toList ++ ['"']), some "by".toList, .nothing, strayElement⟩,
    bareMember "instructions".toList
      ('[' :: ([','].intercalate (strangeItems.map fun item => item.2.written) ++ [']']))
      (.array (strangeItems.map fun item => item.2.value))]

/-- A blank at the end of a line. -/
def blankMargin (c : Char) (h : Text.isBlank c = true ∧ c ≠ '\n') : Margin := ⟨[c], List.forall_mem_singleton.mpr h⟩

/-- This code, in an image with blanks at the ends of its lines. -/
def strangeImage : String :=
  String.ofList (lines (blankMargin ' ' (by decide)).withReturn (blankMargin '\t' (by decide))
    ('\x7b' :: ([','].intercalate (strangeMembers.map Json.Member.written) ++ ['\x7d'])))

theorem decode_rendering_strange :
    decode strangeImage "a.twx" = .ok ⟨#[⟨.newTape, some (.size 3)⟩, .plain .ret]⟩ ∧
      decode (String.ofList (withReturns strangeImage.toList)) "a.twx" =
        .ok ⟨#[⟨.newTape, some (.size 3)⟩, .plain .ret]⟩ := by
  have hfits : (⟨#[⟨.newTape, some (.size 3)⟩, .plain .ret]⟩ : Code).Fits := by
    intro x hx o ho
    simp only [List.mem_cons, List.not_mem_nil, or_false] at hx
    rcases hx with rfl | rfl
    · cases ho; exact (by decide : 3 < Json.maxCount)
    · cases ho
  have hitems : ∀ x ∈ strangeItems.map (·.2), Spelled x.text x.value :=
    List.forall_mem_cons.mpr ⟨spelled_givenMembers (List.cons_ne_nil _ _) fun m hm => List.mem_reverse.mp hm,
      List.forall_mem_singleton.mpr (spelled_givenMembers (List.cons_ne_nil _ _) fun m hm => List.mem_of_mem_take hm)⟩
  have hkeys : ∀ m ∈ strangeMembers, Json.StringText m.keyText m.key :=
    List.forall_mem_cons.mpr ⟨Json.stringText_plain (by simp [Plain]),
      List.forall_mem_singleton.mpr (Json.stringText_plain (by simp [Plain]))⟩
  have hvalues : ∀ m ∈ strangeMembers, Spelled m.element.text m.element.value :=
    List.forall_mem_cons.mpr ⟨spelled_strayElement, List.forall_mem_singleton.mpr (.array (List.cons_ne_nil _ _) hitems)⟩
  refine (decode_rendering hfits rfl "a.twx").2 _ ⟨(blankMargin ' ' (by decide)).withReturn, blankMargin '\t' (by decide),
    .nothing, .nothing, _, _, ?_, .object (List.cons_ne_nil _ _) hkeys hvalues, ?_⟩
  · rw [strangeImage, String.toList_ofList, Blanks.nothing, List.append_nil]
    rfl
  · refine ⟨strangeItems.map fun item => (item.1, item.2.value), rfl, ?_, ?_⟩
    · exact List.forall_mem_cons.mpr ⟨.inl ⟨[operandMember _, opcodeMember _], [], rfl, .swap .., by simp⟩,
        List.forall_mem_singleton.mpr (.inr ⟨rfl, hasMembers_known _ _⟩)⟩
    · exact ⟨[("by".toList, strayElement.value), ("instructions".toList, _)], [("by".toList, strayElement.value)], rfl,
        .swap .., by simp⟩

end Image
end TapeLang
