import TapeLang.Image
import TapeLang.Proofs.JsonText

/-!
# TapeLang.Proofs.ImageText — images that are read back

What is written as an image is read as the same code, if the code may be run at all.

* `Code.Fits`: the counts in the code are machine words.  Code that was read fits (`fits_of_code?`).
* `InstrValue`, `CodeValue`: the JSON values that stand for code.  They may have members that the code does not need, and have
  them in any order.  Each of them is read as the code (`code?_of_codeValue`).
* `codeValue`: the one that is written (`spelled_showCode`, `codeValue_codeValue`).
* `decodeText_lines`: the two lines in front of the code may have blanks at their ends.
* `decodeText_encode`: so reading an image leaves only the question whether the code is valid.
* `decode_encode`: the whole statement, and its consequence for texts that somebody else wrote.
-/

namespace TapeLang

/-- Whether a count is a machine word. -/
def Operand.Fits : Operand → Prop
  | .int _ => True
  | .size n | .label n | .jump n => n < Json.maxCount

/-- Whether all counts in an instruction are machine words. -/
def Instr.Fits (x : Instr) : Prop := ∀ o, x.operand = some o → o.Fits

/-- Whether all counts in some code are machine words. -/
def Code.Fits (c : Code) : Prop := ∀ x ∈ c.instrs.toList, x.Fits

namespace Image

open Json (Value Spelled Plain)
open Text (decimal signedDecimal)

/-! ## Code as JSON -/

section Values

/-- An object with one member. -/
def single (key : String) (v : Value) : Value := .object [(some key.toList, v)]

def operandValue : Option Operand → Value
  | none => .null
  | some (.int v) => single "Int" (.number ⟨decide (v.toInt < 0), v.toInt.natAbs, true⟩)
  | some (.size n) => single "Size" (.number ⟨false, n, true⟩)
  | some (.label n) => single "Label" (.number ⟨false, n, true⟩)
  | some (.jump n) => single "Jump" (.number ⟨false, n, true⟩)

/-- An object whose members all have names. -/
def objectOf (fields : List (List Char × Value)) : Value := .object (fields.map fun f => (some f.1, f.2))

/-- An object that has the `known` members and any others that have none of the names, all of them in any order. -/
def HasMembers (names : List String) (known : List (List Char × Value)) (v : Value) : Prop :=
  ∃ fields extra : List (List Char × Value), v = objectOf fields ∧ fields.Perm (known ++ extra) ∧
    ∀ f ∈ extra, ∀ name ∈ names, f.1 ≠ name.toList

def opcodeMember (x : Instr) : List Char × Value := ("opcode".toList, .string (some x.opcode.name.toList))

def operandMember (x : Instr) : List Char × Value := ("operand".toList, operandValue x.operand)

/-- A value that stands for an instruction.  If the instruction has no operand, then none need be given. -/
def InstrValue (x : Instr) (v : Value) : Prop :=
  HasMembers ["opcode", "operand"] [opcodeMember x, operandMember x] v ∨
    x.operand = none ∧ HasMembers ["opcode", "operand"] [opcodeMember x] v

/-- A value that stands for code. -/
def CodeValue (c : Code) (v : Value) : Prop :=
  ∃ items : List (Instr × Value), c.instrs.toList = items.map (·.1) ∧ (∀ item ∈ items, InstrValue item.1 item.2) ∧
    HasMembers ["instructions"] [("instructions".toList, .array (items.map (·.2)))] v

def instrValue (x : Instr) : Value := objectOf [opcodeMember x, operandMember x]

def codeValue (c : Code) : Value := single "instructions" (.array (c.instrs.toList.map instrValue))

theorem hasMembers_known (names : List String) (known : List (List Char × Value)) :
    HasMembers names known (objectOf known) := by
  refine ⟨known, [], rfl, ?_, ?_⟩
  · exact .of_eq (List.append_nil known).symm
  · intro f hf
    cases hf

theorem codeValue_codeValue (c : Code) : CodeValue c (codeValue c) := by
  refine ⟨c.instrs.toList.map fun x => (x, instrValue x), ?_, ?_, ?_⟩
  · rw [List.map_map]
    exact (List.map_id _).symm
  · intro item hitem
    obtain ⟨x, -, rfl⟩ := List.mem_map.mp hitem
    exact .inl (hasMembers_known _ _)
  · rw [List.map_map]
    exact hasMembers_known _ [("instructions".toList, .array (c.instrs.toList.map instrValue))]

end Values

/-! ## Writing -/

section Writing

/-- A value without blanks around it. -/
def bareElement (text : List Char) (v : Value) : Json.Element := ⟨.nothing, text, v, .nothing⟩

/-- A member without blanks. -/
def bareMember (key text : List Char) (v : Value) : Json.Member :=
  ⟨.nothing, '"' :: (key ++ ['"']), some key, .nothing, bareElement text v⟩

theorem written_bareElement (text : List Char) (v : Value) : (bareElement text v).written = text := List.append_nil text

theorem written_bareMember (key text : List Char) (v : Value) :
    (bareMember key text v).written = '"' :: (key ++ '"' :: ':' :: text) := by
  simp [Json.Member.written, bareMember, written_bareElement, Json.Blanks.nothing]

/-- An object without blanks. -/
theorem spelled_object {ms : List Json.Member} (hne : ms ≠ [])
    (h : ∀ m ∈ ms, ∃ key text v, m = bareMember key text v ∧ Plain key ∧ Spelled text v) :
    Spelled ('\x7b' :: ([','].intercalate (ms.map Json.Member.written) ++ ['\x7d']))
      (.object (ms.map fun m => (m.key, m.element.value))) := by
  refine .object hne ?_ ?_
  · intro m hm
    obtain ⟨key, text, v, rfl, hkey, -⟩ := h m hm
    exact Json.stringText_plain hkey
  · intro m hm
    obtain ⟨key, text, v, rfl, -, hvalue⟩ := h m hm
    exact hvalue

theorem spelled_single (key : String) {text : List Char} {v : Value} (hkey : Plain key.toList) (h : Spelled text v) :
    Spelled ('\x7b' :: '"' :: (key.toList ++ '"' :: ':' :: (text ++ ['\x7d']))) (single key v) := by
  have hmembers : ∀ m ∈ [bareMember key.toList text v], ∃ key text v, m = bareMember key text v ∧ Plain key ∧
      Spelled text v := by
    intro m hm
    exact ⟨_, _, _, List.mem_singleton.mp hm, hkey, h⟩
  have hobject := spelled_object (List.cons_ne_nil _ _) hmembers
  rw [List.map_singleton, Json.intercalate_one, written_bareMember, List.cons_append, List.append_assoc] at hobject
  exact hobject

theorem spelled_signedDecimal (v : Int) : Spelled (signedDecimal v) (.number ⟨decide (v < 0), v.natAbs, true⟩) :=
  .number (Json.numberText_signedDecimal v)

theorem spelled_decimal (n : Nat) : Spelled (decimal n) (.number ⟨false, n, true⟩) := by
  have h := spelled_signedDecimal n
  have hnot : ¬((n : Int) < 0) := by omega
  rw [signedDecimal, if_neg hnot, Int.natAbs_natCast, decide_eq_false hnot] at h
  exact h

theorem spelled_showOperand (o : Option Operand) : Spelled (showOperand o) (operandValue o) := by
  cases o with
  | none => exact .null
  | some o =>
    cases o with
    | int v => exact spelled_single "Int" (by simp [Plain]) (spelled_signedDecimal v.toInt)
    | size n => exact spelled_single "Size" (by simp [Plain]) (spelled_decimal n)
    | label n => exact spelled_single "Label" (by simp [Plain]) (spelled_decimal n)
    | jump n => exact spelled_single "Jump" (by simp [Plain]) (spelled_decimal n)

theorem plain_name (o : Opcode) : Plain o.name.toList := by
  cases o <;> simp [Opcode.name, Plain]

/-- The members of an instruction as they are written. -/
def instrMembers (x : Instr) : List Json.Member :=
  [bareMember "opcode".toList ('"' :: (x.opcode.name.toList ++ ['"'])) (.string (some x.opcode.name.toList)),
    bareMember "operand".toList (showOperand x.operand) (operandValue x.operand)]

/-- Two members, the first of them a string, written one after the other. -/
theorem intercalate_two (key key' text text' : List Char) (v v' : Value) :
    '\x7b' :: '"' :: (key ++ ['"', ':', '"']) ++ text ++ '"' :: ',' :: '"' :: (key' ++ ['"', ':']) ++ text' ++
        ['\x7d'] =
      '\x7b' :: ([','].intercalate
        ([bareMember key ('"' :: (text ++ ['"'])) v, bareMember key' text' v'].map Json.Member.written) ++ ['\x7d']) := by
  simp [List.intercalate, written_bareMember]

theorem showInstr_eq (x : Instr) :
    showInstr x = '\x7b' :: ([','].intercalate ((instrMembers x).map Json.Member.written) ++ ['\x7d']) :=
  intercalate_two "opcode".toList "operand".toList ..

theorem instrMembers_bare (x : Instr) :
    ∀ m ∈ instrMembers x, ∃ key text v, m = bareMember key text v ∧ Plain key ∧ Spelled text v := by
  intro m hm
  rcases List.mem_cons.mp hm with rfl | hm
  · have hkey : Plain "opcode".toList := by simp [Plain]
    exact ⟨_, _, _, rfl, hkey, .string (Json.stringText_plain (plain_name x.opcode))⟩
  · have hkey : Plain "operand".toList := by simp [Plain]
    exact ⟨_, _, _, List.mem_singleton.mp hm, hkey, spelled_showOperand x.operand⟩

theorem spelled_showInstr (x : Instr) : Spelled (showInstr x) (instrValue x) := by
  rw [showInstr_eq]
  exact spelled_object (List.cons_ne_nil _ _) (instrMembers_bare x)

/-- An array without blanks. -/
theorem spelled_array {xs : List (List Char × Value)} (h : ∀ x ∈ xs, Spelled x.1 x.2) :
    Spelled ('[' :: ([','].intercalate (xs.map (·.1)) ++ [']'])) (.array (xs.map (·.2))) := by
  cases xs with
  | nil => exact .emptyArray .nothing
  | cons x xs =>
    have hitems : ∀ y ∈ (x :: xs).map (fun x => bareElement x.1 x.2), Spelled y.text y.value := by
      intro y hy
      obtain ⟨x, hx, rfl⟩ := List.mem_map.mp hy
      exact h x hx
    have hwritten : Json.Element.written ∘ (fun x : List Char × Value => bareElement x.1 x.2) = (·.1) :=
      funext fun x => written_bareElement x.1 x.2
    have hne : (x :: xs).map (fun x => bareElement x.1 x.2) ≠ [] := List.cons_ne_nil _ _
    have harray := Spelled.array hne hitems
    rw [List.map_map, List.map_map, hwritten] at harray
    exact harray

/-- The brackets of the array are written with the member around it. -/
theorem showCode_eq (c : Code) :
    showCode c = '\x7b' :: '"' :: ("instructions".toList ++ '"' :: ':' ::
      ('[' :: ([','].intercalate (c.instrs.toList.map showInstr) ++ [']']) ++ ['\x7d'])) :=
  congrArg (fun text => '\x7b' :: '"' :: ("instructions".toList ++ '"' :: ':' :: '[' :: text))
    (List.append_assoc _ [']'] ['\x7d']).symm

theorem spelled_showCode (c : Code) : Spelled (showCode c) (codeValue c) := by
  have hitems : ∀ y ∈ c.instrs.toList.map (fun x => (showInstr x, instrValue x)), Spelled y.1 y.2 := by
    intro y hy
    obtain ⟨x, -, rfl⟩ := List.mem_map.mp hy
    exact spelled_showInstr x
  have harray := spelled_array hitems
  rw [List.map_map, List.map_map] at harray
  rw [showCode_eq]
  exact spelled_single "instructions" (by simp [Plain]) harray

end Writing

/-! ## Reading -/

section Reading

theorem word?_toInt (v : Int64) :
    (Value.number ⟨decide (v.toInt < 0), v.toInt.natAbs, true⟩).word? = some v := by
  have hlow := v.le_toInt
  have hhigh := v.toInt_lt
  by_cases hv : v.toInt < 0
  · have hneg : -(v.toInt.natAbs : Int) = v.toInt := by omega
    simp only [Value.word?, decide_eq_true hv, hneg, Int64.ofInt_toInt]
    exact if_pos (by omega)
  · have hpos : (v.toInt.natAbs : Int) = v.toInt := by omega
    simp only [Value.word?, decide_eq_false hv, hpos, Int64.ofInt_toInt]
    exact if_pos (by omega)

theorem count?_number {n : Nat} (h : n < Json.maxCount) : (Value.number ⟨false, n, true⟩).count? = some n := if_pos h

theorem operand?_operandValue {o : Option Operand} (h : ∀ x, o = some x → x.Fits) :
    operand? (operandValue o) = some o := by
  cases o with
  | none => rfl
  | some o =>
    have hfits := h o rfl
    cases o with
    | int v => simp [operand?, operandValue, single, word?_toInt]
    | size n => simp [operand?, operandValue, single, count?_number hfits]
    | label n => simp [operand?, operandValue, single, count?_number hfits]
    | jump n => simp [operand?, operandValue, single, count?_number hfits]

theorem ofName?_name (o : Opcode) : Opcode.ofName? o.name = some o := by
  cases o <;> decide

/-- Members that are not asked for make no difference, nor does the order. -/
theorem field?_of_perm {name : String} {fields known extra : List (List Char × Value)} {o : Option Value}
    (hperm : fields.Perm (known ++ extra)) (hextra : ∀ f ∈ extra, f.1 ≠ name.toList)
    (h : Json.field? name known = some o) : Json.field? name fields = some o := by
  have hnone : extra.filter (·.1 = name.toList) = [] := by
    rw [List.filter_eq_nil_iff]
    intro f hf
    exact mt of_decide_eq_true (hextra f hf)
  have hfilter := hperm.filter (·.1 = name.toList)
  rw [List.filter_append, hnone, List.append_nil] at hfilter
  unfold Json.field? at h ⊢
  split at h
  · rename_i hknown
    rw [hknown] at hfilter
    rw [hfilter.eq_nil]
    exact h
  · rename_i hknown
    rw [hknown] at hfilter
    rw [List.perm_singleton.mp hfilter]
    exact h
  · cases h

theorem fields?_objectOf (fields : List (List Char × Value)) : (objectOf fields).fields? = some fields := by
  rw [objectOf, Value.fields?]
  induction fields with
  | nil => rfl
  | cons f fields ih =>
    simp only [List.map_cons, List.mapM_cons, ih]
    rfl

/-- The members that are known can be asked for by their names. -/
theorem HasMembers.field? {names : List String} {known : List (List Char × Value)} {v : Value}
    (h : HasMembers names known v) :
    ∃ fields, v = objectOf fields ∧ v.fields? = some fields ∧
      ∀ name ∈ names, ∀ o, Json.field? name known = some o → Json.field? name fields = some o := by
  obtain ⟨fields, extra, hv, hperm, hextra⟩ := h
  refine ⟨fields, hv, ?_, ?_⟩
  · rw [hv, fields?_objectOf]
  · intro name hname o ho
    exact field?_of_perm hperm (fun f hf => hextra f hf name hname) ho

theorem field?_only (name : String) (v : Value) : Json.field? name [(name.toList, v)] = some (some v) := by
  simp [Json.field?]

theorem field?_first (name : String) {k : List Char} (v w : Value) (h : k ≠ name.toList) :
    Json.field? name [(name.toList, v), (k, w)] = some (some v) := by
  simp [Json.field?, h]

theorem field?_second (name : String) {k : List Char} (v w : Value) (h : k ≠ name.toList) :
    Json.field? name [(k, v), (name.toList, w)] = some (some w) := by
  simp [Json.field?, h]

theorem field?_other (name : String) {k : List Char} (v : Value) (h : k ≠ name.toList) :
    Json.field? name [(k, v)] = some none := by
  simp [Json.field?, h]

/-- An instruction is read from what can be asked for; where no operand is found, there is none. -/
theorem instr?_of_fields {ms : List (Option (List Char) × Value)} {fields : List (List Char × Value)} {x : Instr}
    {o : Option Value} (hfields : (Value.object ms).fields? = some fields)
    (hopcode : Json.field? "opcode" fields = some (some (.string (some x.opcode.name.toList))))
    (hoperand : Json.field? "operand" fields = some o) (ho : o.elim (some none) operand? = some x.operand) :
    instr? (.object ms) = some x := by
  obtain ⟨opcode, operand⟩ := x
  have hname : opcode? (.string (some opcode.name.toList)) = some opcode := by
    rw [opcode?, String.ofList_toList, ofName?_name]
  unfold instr?
  simp only [hfields, bind, Option.bind, hopcode, hname, hoperand]
  cases o with
  | none =>
    cases ho
    rfl
  | some v =>
    rw [Option.elim_some] at ho
    simp only [ho]
    rfl

theorem instr?_of_instrValue {x : Instr} {v : Value} (hfits : x.Fits) (h : InstrValue x v) : instr? v = some x := by
  have hopcode : "opcode" ∈ ["opcode", "operand"] := List.mem_cons_self
  have hoperand : "operand" ∈ ["opcode", "operand"] := List.mem_cons_of_mem _ List.mem_cons_self
  have hne : "operand".toList ≠ "opcode".toList := by decide
  rcases h with h | ⟨hnone, h⟩
  · obtain ⟨fields, rfl, hfields, hread⟩ := h.field?
    exact instr?_of_fields hfields (hread _ hopcode _ (field?_first "opcode" _ _ hne))
      (hread _ hoperand _ (field?_second "operand" _ _ hne.symm)) (operand?_operandValue hfits)
  · obtain ⟨fields, rfl, hfields, hread⟩ := h.field?
    refine instr?_of_fields hfields (hread _ hopcode _ (field?_only "opcode" _))
      (hread _ hoperand _ (field?_other "operand" _ hne.symm)) ?_
    rw [hnone]
    rfl

theorem mapM_instr? {items : List (Instr × Value)} (hfits : ∀ item ∈ items, item.1.Fits)
    (h : ∀ item ∈ items, InstrValue item.1 item.2) : (items.map (·.2)).mapM instr? = some (items.map (·.1)) := by
  induction items with
  | nil => rfl
  | cons item items ih =>
    have hitem := instr?_of_instrValue (hfits item List.mem_cons_self) (h item List.mem_cons_self)
    have hitems := ih (fun y hy => hfits y (List.mem_cons_of_mem item hy)) fun y hy => h y (List.mem_cons_of_mem item hy)
    simp [hitem, hitems]

/-- Every value that stands for code is read as the code. -/
theorem code?_of_codeValue {c : Code} {v : Value} (hfits : c.Fits) (h : CodeValue c v) : code? v = some c := by
  obtain ⟨items, hinstrs, hitems, hmembers⟩ := h
  have hfits' : ∀ item ∈ items, item.1.Fits := by
    intro item hitem
    apply hfits
    rw [hinstrs]
    exact List.mem_map_of_mem hitem
  obtain ⟨fields, rfl, hfields, hread⟩ := hmembers.field?
  have hfield := hread "instructions" List.mem_cons_self _ (field?_only "instructions" _)
  have hcode : instrs? (.array (items.map (·.2))) = some c := by
    rw [instrs?, mapM_instr? hfits' hitems, ← hinstrs]
    rfl
  rw [objectOf] at hfields ⊢
  simp only [code?, hfields, bind, Option.bind, hfield, hcode]

/-! ### What is read fits -/

theorem mem_of_mapM {items : List Value} {xs : List Instr} (h : items.mapM instr? = some xs) :
    ∀ x ∈ xs, ∃ item ∈ items, instr? item = some x := by
  induction items generalizing xs with
  | nil =>
    cases h
    intro x hx
    cases hx
  | cons item items ih =>
    simp only [List.mapM_cons, Option.bind_eq_bind, Option.bind_eq_some_iff, Option.pure_def, Option.some.injEq] at h
    obtain ⟨y, hy, ys, hys, rfl⟩ := h
    intro x hx
    rcases List.mem_cons.mp hx with rfl | hx
    · exact ⟨item, List.mem_cons_self .., hy⟩
    · obtain ⟨item', hmem, hitem'⟩ := ih hys x hx
      exact ⟨item', List.mem_cons_of_mem item hmem, hitem'⟩

theorem count?_lt {v : Value} {n : Nat} (h : v.count? = some n) : n < Json.maxCount := by
  unfold Value.count? at h
  split at h
  · split at h
    · cases h
      assumption
    · cases h
  · cases h

theorem fits_of_operand? {v : Value} {o : Option Operand} (h : operand? v = some o) : ∀ x, o = some x → x.Fits := by
  rintro x rfl
  have hcount {w : Value} (f : Nat → Operand) (hf : ∀ n, n < Json.maxCount → (f n).Fits)
      (hw : w.count?.map (some <| f ·) = some (some x)) : x.Fits := by
    obtain ⟨n, hn, hx⟩ := Option.map_eq_some_iff.mp hw
    cases hx
    exact hf n (count?_lt hn)
  unfold operand? at h
  split at h
  · cases h
  · split at h
    · obtain ⟨w, -, hw⟩ := Option.map_eq_some_iff.mp h
      cases hw
      trivial
    · split at h
      · exact hcount .size (fun _ hn => hn) h
      · split at h
        · exact hcount .label (fun _ hn => hn) h
        · split at h
          · exact hcount .jump (fun _ hn => hn) h
          · cases h
  · cases h

theorem fits_of_instr? {v : Value} {x : Instr} (h : instr? v = some x) : x.Fits := by
  have hplain (opcode : Opcode) : (Instr.plain opcode).Fits := by
    intro o ho
    cases ho
  unfold instr? at h
  split at h
  · simp only [Option.bind_eq_bind, Option.bind_eq_some_iff, Option.pure_def, Option.some.injEq] at h
    obtain ⟨opcode, -, operand, hoperand, rfl⟩ := h
    exact fits_of_operand? hoperand
  · simp only [Option.bind_eq_bind, Option.bind_eq_some_iff] at h
    obtain ⟨fields, -, first, -, second, -, opcode, -, third, -, h⟩ := h
    split at h
    · simp only [Option.bind_eq_some_iff, Option.pure_def, Option.some.injEq] at h
      obtain ⟨operand, hoperand, rfl⟩ := h
      exact fits_of_operand? hoperand
    · cases h
      exact hplain opcode

theorem fits_of_instrs? {v : Value} {c : Code} (h : instrs? v = some c) : c.Fits := by
  cases v with
  | array items =>
    simp only [instrs?, Option.bind_eq_bind, Option.bind_eq_some_iff, Option.pure_def, Option.some.injEq] at h
    obtain ⟨xs, hxs, rfl⟩ := h
    intro x hx
    obtain ⟨item, -, hitem⟩ := mem_of_mapM hxs x hx
    exact fits_of_instr? hitem
  | _ => cases h

theorem fits_of_code? {v : Value} {c : Code} (h : code? v = some c) : c.Fits := by
  unfold code? at h
  split at h
  · exact fits_of_instrs? h
  · simp only [Option.bind_eq_bind, Option.bind_eq_some_iff] at h
    obtain ⟨fields, -, first, -, items, -, h⟩ := h
    exact fits_of_instrs? h

end Reading

/-! ## Whole images -/

section Whole

theorem cutLine_append {line : List Char} (h : ∀ c ∈ line, c ≠ '\n') (rest : List Char) :
    cutLine (line ++ '\n' :: rest) = (line, some rest) := by
  have hline : ∀ c ∈ line, (c != '\n') = true := fun c hc => bne_iff_ne.mpr (h c hc)
  rw [cutLine, List.takeWhile_append_of_pos hline, List.dropWhile_append_of_pos hline]
  simp

/-- Blanks at the end of a line. -/
structure Margin where
  text : List Char
  only : ∀ c ∈ text, Text.isBlank c = true ∧ c ≠ '\n'

/-- No blanks. -/
def Margin.nothing : Margin := ⟨[], fun _ h => by cases h⟩

theorem trimEnd_margin {line : List Char} (h : Text.trimEnd line = line) (m : Margin) :
    Text.trimEnd (line ++ m.text) = line := by
  have hblank : ∀ c ∈ m.text.reverse, Text.isBlank c = true := fun c hc => (m.only c (List.mem_reverse.mp hc)).1
  rw [Text.trimEnd, List.reverse_append, List.dropWhile_append_of_pos hblank]
  exact h

theorem cutLine_margin {line : List Char} (h : ∀ c ∈ line, c ≠ '\n') (m : Margin) (rest : List Char) :
    cutLine (line ++ (m.text ++ '\n' :: rest)) = (line ++ m.text, some rest) := by
  rw [← List.append_assoc]
  apply cutLine_append
  intro c hc
  rcases List.mem_append.mp hc with hc | hc
  · exact h c hc
  · exact (m.only c hc).2

/-- The text of an image: the two lines, and the rest. -/
def lines (first second : Margin) (body : List Char) : List Char :=
  directive.toList ++ (first.text ++ '\n' :: (format.toList ++ (second.text ++ '\n' :: body)))

/-- Behind the two lines of an image there is only the code to look at. -/
theorem decodeText_lines {first second : Margin} {body : List Char} {c : Code} (h : Json.parse body >>= code? = some c) :
    decodeText (lines first second body) = (validate c).map fun _ => c := by
  have hfirst := cutLine_margin (show ∀ c ∈ directive.toList, c ≠ '\n' by simp [directive]) first
    (format.toList ++ (second.text ++ '\n' :: body))
  have hsecond := cutLine_margin (show ∀ c ∈ format.toList, c ≠ '\n' by simp [format]) second body
  have htrim := trimEnd_margin (show Text.trimEnd directive.toList = directive.toList by decide) first
  have htrim' := trimEnd_margin (show Text.trimEnd format.toList = format.toList by decide) second
  simp only [decodeText, lines, hfirst, hsecond, htrim, htrim', ne_eq, not_true_eq_false, if_false, Option.getD_some, h]
  cases validate c <;> simp [bind, Except.bind, pure, Except.pure, Except.map]

/-- **Renderings are read.**  Whatever blanks stand around the code, and however it is written. -/
theorem decodeText_rendering {c : Code} {body : List Char} {v : Value} (hfits : c.Fits) (hbody : Spelled body v)
    (hvalue : CodeValue c v) (first second : Margin) (before after : Json.Blanks) :
    decodeText (lines first second (before.text ++ (body ++ after.text))) = (validate c).map fun _ => c := by
  apply decodeText_lines
  rw [Json.parse_of_spelled hbody before after]
  exact code?_of_codeValue hfits hvalue

/-- A single line end. -/
def lineEnd : Json.Blanks := ⟨['\n'], by simp⟩

theorem toList_encode (c : Code) :
    (encode c).toList = lines .nothing .nothing (Json.Blanks.nothing.text ++ (showCode c ++ lineEnd.text)) := by
  rw [encode, String.toList_ofList, lines]
  generalize directive.toList = first
  generalize format.toList = second
  simp [Margin.nothing, Json.Blanks.nothing, lineEnd]

theorem decodeText_encode {c : Code} (h : c.Fits) :
    decodeText (encode c).toList = (validate c).map fun _ => c := by
  rw [toList_encode]
  exact decodeText_rendering h (spelled_showCode c) (codeValue_codeValue c) ..

/-- What validation may say against some code. -/
theorem validate_error_cases {c : Code} {why : ImageFault} (h : validate c = .error why) :
    (∃ n, why = .tapeTooLarge n) ∨ why = .noTape ∨ ∃ index x, why = .badInstruction index x := by
  unfold validate at h
  simp only [bind, Except.bind, pure, Except.pure, throw, throwThe, MonadExceptOf.throw] at h
  split at h
  · rename_i n _
    split at h
    · cases h
      exact .inl ⟨n, rfl⟩
    · split at h
      · cases h
        exact .inr (.inl rfl)
      · split at h
        · rename_i x index _
          cases h
          exact .inr (.inr ⟨index, x, rfl⟩)
        · cases h
  · cases h
    exact .inr (.inl rfl)

/-- Code that was read fits and is valid. -/
theorem of_decodeText {cs : List Char} {c : Code} (h : decodeText cs = .ok c) : c.Fits ∧ validate c = .ok () := by
  unfold decodeText at h
  simp only [bind, Except.bind, pure, Except.pure, throw, throwThe, MonadExceptOf.throw] at h
  split at h
  · cases h
  · split at h
    · split at h
      · cases h
      · split at h
        · rename_i code hcode
          obtain ⟨v, -, hv⟩ := Option.bind_eq_some_iff.mp hcode
          split at h
          · cases h
          · rename_i hvalid
            cases h
            exact ⟨fits_of_code? hv, hvalid⟩
        · cases h
    · cases h

/-- **Images are read back.**  If the counts of some code are machine words, its image is read as the code just when the
code is valid, and otherwise refused for the reason that validation gives, which is never one about the form of the
image.  So code that was read from any text at all is read back from its own image. -/
theorem decode_encode (c : Code) (path : String) :
    (c.Fits → (decode (encode c) path = .ok c ↔ validate c = .ok ()) ∧
      ∀ why, validate c = .error why → decode (encode c) path = .error (.image path why) ∧
        why ≠ .noDirective ∧ why ≠ .unknownFormat ∧ why ≠ .corrupt) ∧
      ∀ text path', decode text path' = .ok c → decode (encode c) path = .ok c := by
  have hdecode (hfits : c.Fits) : decode (encode c) path = ((validate c).map fun _ => c).mapError (.image path) := by
    rw [decode, decodeText_encode hfits]
  refine ⟨fun hfits => ⟨?_, fun why hwhy => ⟨?_, ?_⟩⟩, fun text path' htext => ?_⟩
  · rw [hdecode hfits]
    cases validate c with
    | ok _ => exact ⟨fun _ => rfl, fun _ => rfl⟩
    | error why => exact ⟨fun h => (nomatch h), fun h => (nomatch h)⟩
  · rw [hdecode hfits, hwhy]
    rfl
  · rcases validate_error_cases hwhy with ⟨n, rfl⟩ | rfl | ⟨index, x, rfl⟩
    · exact ⟨nofun, nofun, nofun⟩
    · exact ⟨nofun, nofun, nofun⟩
    · exact ⟨nofun, nofun, nofun⟩
  · have hread : decodeText text.toList = .ok c := by
      rw [decode] at htext
      cases hd : decodeText text.toList with
      | error why => rw [hd] at htext; cases htext
      | ok code => rw [hd] at htext; cases htext; rfl
    obtain ⟨hfits, hvalid⟩ := of_decodeText hread
    rw [hdecode hfits, hvalid]
    rfl

theorem decode_encode_extremes :
    (∃ c : Code,
      c = ⟨#[⟨.newTape, some (.size 3)⟩, .constant Int64.minValue, ⟨.jump, some (.jump 0)⟩]⟩ ∧
        decode (encode c) "a.twx" = .ok c) ∧
    ∃ x : Instr, x = ⟨.jump, some (.label 18446744073709551615)⟩ ∧
      decode (encode ⟨#[⟨.newTape, some (.size 3)⟩, x]⟩) "a.twx" = .error (.image "a.twx" (.badInstruction 1 x)) := by
  refine ⟨⟨_, rfl, ((decode_encode _ "a.twx").1 ?_).1.mpr rfl⟩, ⟨_, rfl, (((decode_encode _ "a.twx").1 ?_).2 _ rfl).1⟩⟩
  · intro x hx o ho
    simp only [List.mem_cons, List.not_mem_nil, or_false] at hx
    rcases hx with rfl | rfl | rfl
    · cases ho; exact (by decide : 3 < Json.maxCount)
    · cases ho; trivial
    · cases ho; exact (by decide : 0 < Json.maxCount)
  · intro x hx o ho
    simp only [List.mem_cons, List.not_mem_nil, or_false] at hx
    rcases hx with rfl | rfl
    · cases ho; exact (by decide : 3 < Json.maxCount)
    · cases ho; exact (by decide : 18446744073709551615 < Json.maxCount)

end Whole
end Image
end TapeLang
