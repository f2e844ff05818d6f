import TapeLang.Proofs.History
import TapeLang.Proofs.Layout
import TapeLang.Proofs.Safety
import TapeLang.Proofs.Tree
import TapeLang.Storage

/-!
# TapeLang.Proofs.Stored — images on a disk

Compiling a program into a file, and what is found there afterwards.

* `Image.saving` is three operations on files.  What each comes to is told by the slot of the path alone
  (`Image.advance_saving` and the lemmas after it), whatever happens to other files in between.
* `Image.load_of_file`: valid code is loaded from a file that holds its image.
* **`Translator.translateTo_stores`**: what compiling into a file changes, what it answers, and that the code comes back.
-/

namespace TapeLang

theorem World.readText_of_read {w : World} {path text : String} (h : w.disk.read w.here path.toList = .ok text.toUTF8) :
    w.readText path = .ok text := by
  have hutf8 : String.fromUTF8? text.toUTF8 = some text := dif_pos text.isValidUTF8
  unfold World.readText
  rw [h]
  simp only [bind, Except.bind, hutf8]
  rfl

/-! ## Errands in a world -/

namespace Errand

variable {α : Type} {e e' : Errand α} {w w' : World}

theorem run_of_advance (h : (e.advance : Sim (Errand α)) w = some (e', w')) : (e.run : Sim α) w = (e'.run : Sim α) w' := by
  cases e with
  | done result => cases h; rfl
  | write path text next => cases h; rfl
  | makeExecutable path next => cases h; rfl
  | canonical path next => cases h; rfl

end Errand

namespace Image

section Saving

variable {code : Code} {path : String} {place : Place} {w : World} {data : ByteArray} {executable : Bool}

/-- What is left to do when the image is made executable: to ask for its path from the root. -/
def naming (path : String) : Errand (Except Error String) :=
  .canonical path <| .unlessRefused fun name => .done (.ok name)

/-- What is left to do when the image is written. -/
def marking (path : String) : Errand (Except Error String) := .makeExecutable path <| .unlessRefused fun _ => naming path

theorem advance_saving (code : Code) (h : w.disk.slot w.here path.toList = .ok place) :
    ∃ executable, ((saving code path).advance : Sim _) w =
      some (marking path, { w with disk := w.disk.put place (.file (encode code).toUTF8 executable) }) := by
  obtain ⟨executable, hwrite⟩ := Disk.write_of_slot h (encode code).toUTF8
  refine ⟨executable, ?_⟩
  show some (Errand.unlessRefused (fun _ => marking path)
      (w.update (w.disk.write w.here path.toList (encode code).toUTF8)).1,
    (w.update (w.disk.write w.here path.toList (encode code).toUTF8)).2) = _
  rw [hwrite]
  rfl

theorem advance_saving_refused (code : Code) {f : Fault} (h : w.disk.slot w.here path.toList = .error f) :
    ((saving code path).advance : Sim _) w = some (.done (.error (.io f)), w) := by
  show some (Errand.unlessRefused (fun _ => marking path)
      (w.update (w.disk.write w.here path.toList (encode code).toUTF8)).1,
    (w.update (w.disk.write w.here path.toList (encode code).toUTF8)).2) = _
  rw [Disk.write_of_refused h]
  rfl

theorem advance_marking (h : w.disk.slot w.here path.toList = .ok place)
    (hfile : w.disk.get? place = some (.file data executable)) :
    ((marking path).advance : Sim _) w = some (naming path, { w with disk := w.disk.put place (.file data true) }) := by
  show some (Errand.unlessRefused (fun _ => naming path) (w.update (w.disk.makeExecutable w.here path.toList)).1,
    (w.update (w.disk.makeExecutable w.here path.toList)).2) = _
  rw [Disk.makeExecutable_of_slot h hfile]
  rfl

/-- What someone who stores an image is told in the end. -/
def answer (place : Place) : Except Error String := ((Disk.nameOf place).map String.ofList).mapError .io

theorem advance_naming (h : w.disk.slot w.here path.toList = .ok place)
    (hfile : w.disk.get? place = some (.file data executable)) :
    ((naming path).advance : Sim _) w = some (.done (answer place), w) := by
  show some (Errand.unlessRefused (fun name => .done (.ok name))
    (String.ofList <$> w.disk.canonical w.here path.toList), w) = _
  rw [Disk.canonical_of_slot h hfile, answer]
  cases Disk.nameOf place <;> rfl

theorem run_saving (code : Code) (h : w.disk.slot w.here path.toList = .ok place) :
    ((saving code path).run : Sim _) w =
      some (answer place, { w with disk := w.disk.put place (.file (encode code).toUTF8 true) }) := by
  obtain ⟨-, hfree⟩ := Disk.slot_eq_ok_iff.mp h
  have hne := Disk.slot_ne_nil h
  have hslot (executable : Bool) :
      (w.disk.put place (.file (encode code).toUTF8 executable)).slot w.here path.toList = .ok place :=
    (Disk.sameDirectories_put hne hfree _ executable).slot h
  have hfile (executable : Bool) : (w.disk.put place (.file (encode code).toUTF8 executable)).get? place =
      some (.file (encode code).toUTF8 executable) := by
    rw [Disk.get?_put hne, if_pos rfl]
  obtain ⟨executable, hsaving⟩ := advance_saving code h
  have hmarking := advance_marking
    (w := { w with disk := w.disk.put place (.file (encode code).toUTF8 executable) }) (hslot executable) (hfile executable)
  rw [Disk.put_put] at hmarking
  have hnaming := advance_naming
    (w := { w with disk := w.disk.put place (.file (encode code).toUTF8 true) }) (hslot true) (hfile true)
  rw [Errand.run_of_advance hsaving, Errand.run_of_advance hmarking, Errand.run_of_advance hnaming]
  rfl

theorem run_saving_refused (code : Code) {f : Fault} (h : w.disk.slot w.here path.toList = .error f) :
    ((saving code path).run : Sim _) w = some (.error (.io f), w) := by
  rw [Errand.run_of_advance (advance_saving_refused code h)]
  rfl

theorem answer_eq_ok_iff {p : String} :
    answer place = .ok p ↔ ∃ name, Disk.nameOf place = .ok name ∧ p = String.ofList name := by
  unfold answer
  cases Disk.nameOf place with
  | error f =>
    constructor
    · intro h
      cases h
    · rintro ⟨name, hname, -⟩
      cases hname
  | ok name =>
    constructor
    · intro h
      cases h
      exact ⟨name, rfl, rfl⟩
    · rintro ⟨name', hname, rfl⟩
      cases hname
      rfl

end Saving

/-! ## Loading -/

section Loading

variable {code : Code} {place : Place} {w : World} {executable : Bool} {p : String}

theorem fits_of_instrOk {size : Nat} {x : Instr} (h : instrOk size x = true) (hsize : size ≤ Json.maxCount) : x.Fits := by
  obtain ⟨hlabel, hjump⟩ := Program.operand_of_instrOk h
  intro o ho
  cases o with
  | int v => trivial
  | label l => exact absurd ho (hlabel l)
  | jump t => exact Nat.lt_of_lt_of_le (hjump t ho) hsize
  | size n =>
    obtain ⟨opcode, operand⟩ := x
    cases ho
    cases opcode with
    | newTape =>
      have hle : n ≤ sizeLimit := by
        simp [instrOk] at h
        exact h.2
      exact Nat.lt_of_le_of_lt hle (by decide)
    | _ => cases h

theorem run_load {text : String} (h : w.readText p = .ok text) :
    (load p : ExceptT Error Sim Code).run w = some (decode text p, w) := by
  have hread : (refusal (Host.readText p) : ExceptT Error Sim String).run w = some (.ok text, w) := by
    show some ((w.readText p).mapError Error.io, w) = _
    rw [h]
    rfl
  unfold load
  rw [ExceptT.run_bind]
  simp only [bind, StateT.bind, hread]
  rfl

/-- What is found at the path of a file that holds an image. -/
theorem readText_of_file (htree : w.disk.IsTree) (hne : place ≠ [])
    (hfile : w.disk.get? place = some (.file (encode code).toUTF8 executable)) (hname : answer place = .ok p) :
    w.readText p = .ok (encode code) := by
  obtain ⟨name, hnameOf, rfl⟩ := answer_eq_ok_iff.mp hname
  have hlocate : w.disk.locate w.here name = .ok place := htree.locate_nameOf (by rw [hfile]; rfl) hne hnameOf w.here
  have hread : w.disk.read w.here name = .ok (encode code).toUTF8 := by
    unfold Disk.read
    rw [hlocate]
    simp only [bind, Except.bind, hfile]
    rfl
  exact World.readText_of_read (by rw [String.toList_ofList, hread])

/-- Valid code is read back from its image, as long as its instructions can be counted. -/
theorem decode_of_validate (hvalid : validate code = .ok ()) (hsize : code.size ≤ Json.maxCount) (p : String) :
    decode (encode code) p = .ok code := by
  have hfits : code.Fits := by
    intro x hx
    obtain ⟨i, hi⟩ := List.mem_iff_getElem?.mp hx
    exact fits_of_instrOk ((valid_of_validate hvalid).operands i x (by simpa using hi)) hsize
  unfold decode
  rw [decodeText_encode hfits, hvalid]
  rfl

/-- Valid code is found again in a file that holds its image. -/
theorem load_of_file (htree : w.disk.IsTree) (hvalid : validate code = .ok ()) (hsize : code.size ≤ Json.maxCount)
    (hne : place ≠ []) (hfile : w.disk.get? place = some (.file (encode code).toUTF8 executable))
    (hname : answer place = .ok p) : (load p : ExceptT Error Sim Code).run w = some (.ok code, w) := by
  rw [run_load (readText_of_file htree hne hfile hname), decode_of_validate hvalid hsize]

end Loading
end Image

/-! ## Compiling into files -/

namespace Translator

section Translating

variable {t : Translator} {source destination : String} {tapeSize : Nat} {directory : Option String}

theorem of_new (h : Translator.new tapeSize directory = .ok t) : 1 ≤ t.tapeSize ∧ t.tapeSize ≤ sizeLimit := by
  unfold Translator.new Config.validate Config.checkSize at h
  by_cases hzero : tapeSize = 0
  · rw [if_pos hzero] at h
    cases h
  · by_cases hlarge : sizeLimit < tapeSize
    · rw [if_neg hzero, if_pos hlarge] at h
      cases h
    · rw [if_neg hzero, if_neg hlarge] at h
      cases h
      exact ⟨Nat.pos_of_ne_zero hzero, Nat.not_lt.mp hlarge⟩

theorem emit_eq_ok (t : Translator) (h : Balanced source.toList) :
    t.emit source = .ok ((Program.ofString source).code t.tapeSize) := by
  have hcheck : (Program.ofString source).check = .ok () := check_eq_ok_iff_balanced.mpr h
  exact Assembler.compile_eq_ok hcheck (Assembler.new t.tapeSize)

theorem emit_eq_error (t : Translator) (h : ¬Balanced source.toList) :
    ∃ u, (Program.ofString source).check = .error u ∧ t.emit source = .error (.malformed u) := by
  cases hcheck : (Program.ofString source).check with
  | ok _ => exact absurd (check_eq_ok_iff_balanced.mp hcheck) h
  | error u =>
    refine ⟨u, rfl, ?_⟩
    unfold emit compile
    rw [Assembler.compile_eq_error (Matching.ofProgram_eq_error_iff.mpr hcheck)]

theorem validate_of_emit {code : Code} (h : Translator.new tapeSize directory = .ok t) (hemit : t.emit source = .ok code) :
    Image.validate code = .ok () := by
  by_cases hb : Balanced source.toList
  · cases (emit_eq_ok t hb).symm.trans hemit
    exact Program.validate_code _ (of_new h).1 (of_new h).2
  · obtain ⟨u, -, herror⟩ := emit_eq_error t hb
    cases herror.symm.trans hemit

theorem run_translateTo_error {w : World} {why : Error} (h : t.emit source = .error why) :
    (t.translateTo source destination : ExceptT Error Sim String).run w = some (.error why, w) := by
  unfold translateTo translating
  rw [h]
  rfl

theorem run_translateTo_ok {code : Code} (h : t.emit source = .ok code) (w : World) :
    (t.translateTo source destination : ExceptT Error Sim String).run w =
      ((Image.saving code (t.resolve destination)).run : Sim _) w := by
  unfold translateTo translating
  rw [h]
  rfl

/-- What is so when the image of some code was stored under a path, and the answer was its path `p` from the root. -/
structure Stored (code : Code) (path : String) (w : World) (p : String) (w' : World) : Prop where
  /-- Nothing but the disk is touched, -/
  rest : w' = { w with disk := w'.disk }
  /-- and there only the file at the path, which holds the image now whatever it held before. -/
  file : ∃ place, w'.disk.locate w.here path.toList = .ok place ∧ p = String.ofList (Disk.pathTo place) ∧
    w'.disk.get? place = some (.file (Image.encode code).toUTF8 true) ∧ ∀ q, q ≠ place → w'.disk.get? q = w.disk.get? q
  /-- The disk is still a tree. -/
  tree : w'.disk.IsTree
  /-- The code is loaded from there. -/
  loads : code.size ≤ Json.maxCount → (Image.load p : ExceptT Error Sim Code).run w' = some (.ok code, w')

theorem stored_of_slot {code : Code} {path p : String} {w : World} {place : Place} (hw : w.disk.IsTree)
    (hslot : w.disk.slot w.here path.toList = .ok place) (hp : Image.answer place = .ok p)
    (hvalid : Image.validate code = .ok ()) :
    Stored code path w p { w with disk := w.disk.put place (.file (Image.encode code).toUTF8 true) } := by
  obtain ⟨-, hfree⟩ := Disk.slot_eq_ok_iff.mp hslot
  have hne := Disk.slot_ne_nil hslot
  have htree := hw.put hslot (Image.encode code).toUTF8 true
  have hfile : (w.disk.put place (.file (Image.encode code).toUTF8 true)).get? place =
      some (.file (Image.encode code).toUTF8 true) := by rw [Disk.get?_put hne, if_pos rfl]
  have hslot' := (Disk.sameDirectories_put hne hfree (Image.encode code).toUTF8 true).slot hslot
  refine ⟨rfl, ⟨place, ?_, ?_, hfile, ?_⟩, htree, ?_⟩
  · rw [Disk.locate_of_target (Disk.slot_eq_ok_iff.mp hslot').1, hfile]
    rfl
  · obtain ⟨name, hname, rfl⟩ := Image.answer_eq_ok_iff.mp hp
    rw [Disk.eq_of_nameOf hname]
  · intro q hq
    exact (Disk.get?_put hne q).trans (if_neg hq)
  · intro hsize
    exact Image.load_of_file htree hvalid hsize hne hfile hp

/-- **Compiling into a file.**  On any disk that is a tree, and whatever file was there before.  Where brackets do not match,
the answer is the error of the check and nothing is touched.  Where the answer is a path, only the file at the resolved
destination has changed: it holds the image of the program's code, and that code, which runs as the program does, is loaded
back from the path.  Where the parent directory is missing or the destination is a directory, the host refuses and nothing
is touched.  The answer is a path just where brackets match and the destination has a slot whose name is not too long. -/
theorem translateTo_stores (ht : Translator.new tapeSize directory = .ok t) (source destination : String) (w : World)
    (hw : w.disk.IsTree) :
    ∃ r w', (t.translateTo source destination : ExceptT Error Sim String).run w = some (r, w') ∧
      (¬Balanced source.toList →
        ∃ u, (Program.ofString source).check = .error u ∧ r = .error (.malformed u) ∧ w' = w) ∧
      (∀ p, r = .ok p → ∃ code, t.emit source = .ok code ∧ Stored code (t.resolve destination) w p w' ∧
        ∀ e : Engine, e.mode = .translate → e.translator = t → ∀ {κ : Type} [Console κ] (fuel : Nat) (k : κ),
          e.run fuel source k = (code.run fuel k).map fun f => ⟨f.result, e, f.console⟩) ∧
      (Balanced source.toList → w.disk.LacksParent w.here (t.resolve destination).toList ∨
          w.disk.LeadsToDirectory w.here (t.resolve destination).toList → ∃ f, r = .error (.io f) ∧ w' = w) ∧
      ((∃ p, r = .ok p) ↔ Balanced source.toList ∧ ∃ place name,
        w.disk.slot w.here (t.resolve destination).toList = .ok place ∧ Disk.nameOf place = .ok name) := by
  by_cases hb : Balanced source.toList
  · have hemit := emit_eq_ok t hb
    have hvalid := validate_of_emit ht hemit
    rw [run_translateTo_ok hemit]
    cases hslot : w.disk.slot w.here (t.resolve destination).toList with
    | error f =>
      refine ⟨_, _, Image.run_saving_refused _ hslot, fun h => absurd hb h, nofun, fun _ _ => ⟨f, rfl, rfl⟩, nofun, ?_⟩
      rintro ⟨-, place, name, ⟨⟩, -⟩
    | ok place =>
      refine ⟨_, _, Image.run_saving _ hslot, fun h => absurd hb h, fun p hp => ?_, fun _ hbad => ?_, ?_⟩
      · refine ⟨_, hemit, stored_of_slot hw hslot hp hvalid, ?_⟩
        intro e hmode htranslator κ _ fuel k
        exact Engine.run_of_emit_ok hmode (htranslator ▸ hemit) fuel k
      · rcases hbad with hbad | hbad
        · exact absurd hslot (hbad.slot_ne_ok place)
        · exact absurd hslot (hbad.slot_ne_ok place)
      · constructor
        · rintro ⟨p, hp⟩
          obtain ⟨name, hname, -⟩ := Image.answer_eq_ok_iff.mp hp
          exact ⟨hb, place, name, rfl, hname⟩
        · rintro ⟨-, _, name, ⟨⟩, hname⟩
          exact ⟨_, Image.answer_eq_ok_iff.mpr ⟨name, hname, rfl⟩⟩
  · obtain ⟨u, hcheck, hemit⟩ := emit_eq_error t hb
    refine ⟨_, _, run_translateTo_error hemit, fun _ => ⟨u, hcheck, rfl, rfl⟩, nofun, fun h => absurd h hb, nofun, ?_⟩
    rintro ⟨h, -⟩
    exact absurd h hb

/-- A longer file is replaced. -/
theorem translateTo_stores_again :
    ∃ (t : Translator) (w w' : World) (code : Code) (p : String),
      Translator.new 30 none = .ok t ∧ w.disk.IsTree ∧
      w.disk.get? [['w'], ['a', '.', 't', 'w', 'x']] = some (.file ⟨Array.replicate 5000 0⟩ false) ∧
      (t.translateTo (String.ofList ['[', '-', ']', '#']) (String.ofList ['a']) : ExceptT Error Sim String).run w =
        some (.ok p, w') ∧
      t.emit (String.ofList ['[', '-', ']', '#']) = .ok code ∧ Stored code (t.resolve (String.ofList ['a'])) w p w' ∧
      (Image.load p : ExceptT Error Sim Code).run w' = some (.ok code, w') := by
  let source : String := String.ofList ['[', '-', ']', '#']
  let disk : Disk :=
    ⟨[([['w']], .directory), ([['w'], ['a', '.', 't', 'w', 'x']], .file ⟨Array.replicate 5000 0⟩ false)]⟩
  let w : World := { disk := disk, here := [['w']], patience := 0 }
  have htree : disk.IsTree := by
    intro n hn
    simp only [disk, List.mem_cons, List.not_mem_nil, or_false] at hn
    rcases hn with rfl | rfl
    · exact ⟨[], ['w'], rfl, by decide, rfl⟩
    · exact ⟨[['w']], ['a', '.', 't', 'w', 'x'], rfl, by decide, rfl⟩
  have hb : Balanced source.toList := by
    rw [String.toList_ofList]
    show Balanced ('[' :: (['-'] ++ ']' :: ['#']))
    exact .loop (.other (by decide) (by decide) .nil) (.other (by decide) (by decide) .nil)
  have hpath : (resolve ⟨30, here⟩ (String.ofList ['a'])).toList = ['.', '/', 'a', '.', 't', 'w', 'x'] := by
    unfold resolve
    rw [String.toList_ofList, String.toList_ofList]
    decide
  have hslot : disk.slot [['w']] (resolve ⟨30, here⟩ (String.ofList ['a'])).toList =
      .ok [['w'], ['a', '.', 't', 'w', 'x']] := by
    rw [hpath]
    rfl
  have hnew : Translator.new 30 none = .ok ⟨30, here⟩ := rfl
  obtain ⟨r, w', hrun, -, hok, -, hiff⟩ := translateTo_stores hnew source (String.ofList ['a']) w htree
  obtain ⟨p, rfl⟩ := hiff.mpr ⟨hb, _, _, hslot, rfl⟩
  obtain ⟨code, hemit, hstored, -⟩ := hok p rfl
  refine ⟨⟨30, here⟩, w, w', code, p, rfl, htree, rfl, hrun, hemit, hstored, hstored.loads ?_⟩
  rw [emit_eq_ok _ hb] at hemit
  cases hemit
  decide

end Translating
end Translator
end TapeLang
