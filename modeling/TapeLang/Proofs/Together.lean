import TapeLang.Proofs.Stored

/-!
# TapeLang.Proofs.Together — images that are written at the same time

Several programs are compiled into files, and the operations on those files come in any order that keeps the order within
each errand.  Two of the files can be one and the same.

* `Errand.Kept`: what every operation of every errand keeps.  `Errand.Kept.together`: it is kept until all errands are
  done, whatever the host says about whose turn it is.
* `Translator.Holds`: a file holds the image of one of the jobs that write to its place.
* `Translator.Progress`: how far an errand has come.  Its result is told by the disk it was begun on.
* **`Translator.translateAllTo_makes`**: what is so when all are done.
-/

namespace TapeLang

/-! ## Runs of several errands -/

namespace Errand

variable {α : Type} {I : World → List (Errand α) → Prop}

/-- Something that every operation of every errand keeps. -/
def Kept (I : World → List (Errand α) → Prop) : Prop :=
  ∀ w es i e, I w es → es[i]? = some e →
    ∃ e' w', (e.advance : Sim (Errand α)) w = some (e', w') ∧ I w' (es.set i e')

theorem Kept.interleave (h : Kept I) (turns : List Nat) {w : World} {es : List (Errand α)} (hI : I w es) :
    ∃ es' w', (Errand.interleave turns es : Sim _) w = some (es', w') ∧ I w' es' := by
  induction turns generalizing w es with
  | nil => exact ⟨es, w, rfl, hI⟩
  | cons i turns ih =>
    unfold Errand.interleave
    cases he : es[i]? with
    | none => exact ih hI
    | some e =>
      obtain ⟨e', w', hadvance, hI'⟩ := h w es i e hI he
      obtain ⟨es'', w'', hrest, hI''⟩ := ih hI'
      refine ⟨es'', w'', ?_, hI''⟩
      simp only [bind, StateT.bind, hadvance]
      exact hrest

theorem Kept.run (h : Kept I) (e : Errand α) {w : World} {es : List (Errand α)} {i : Nat} (hI : I w es)
    (he : es[i]? = some e) : ∃ r w', (e.run : Sim α) w = some (r, w') ∧ I w' (es.set i (.done r)) := by
  induction e generalizing w es with
  | done r =>
    have hself : es.set i (.done r) = es := by
      obtain ⟨hlt, heq⟩ := List.getElem?_eq_some_iff.mp he
      rw [← heq]
      exact List.set_getElem_self hlt
    exact ⟨r, w, rfl, hself.symm ▸ hI⟩
  | write path text next ih | makeExecutable path next ih | canonical path next ih =>
    obtain ⟨e', w', hadvance, hI'⟩ := h w es i _ hI he
    have hlt : i < es.length := (List.getElem?_eq_some_iff.mp he).1
    have hnext : ∃ a, e' = next a := by cases hadvance; exact ⟨_, rfl⟩
    obtain ⟨a, rfl⟩ := hnext
    obtain ⟨r, w'', hrun, hI''⟩ := ih a hI' (by simp [hlt])
    rw [List.set_set] at hI''
    exact ⟨r, w'', (run_of_advance hadvance).trans hrun, hI''⟩

theorem Kept.mapM_run (h : Kept I) {w : World} {es : List (Errand α)} (results : List α)
    (hI : I w (results.map .done ++ es)) :
    ∃ rs w', (es.mapM Errand.run : Sim (List α)) w = some (rs, w') ∧ I w' ((results ++ rs).map .done) := by
  induction es generalizing w results with
  | nil => exact ⟨[], w, rfl, by simpa using hI⟩
  | cons e es ih =>
    obtain ⟨r, w₁, hrun, hI₁⟩ := h.run e hI (i := results.length) (by simp)
    have hset : (results.map Errand.done ++ e :: es).set results.length (.done r) = (results ++ [r]).map .done ++ es := by
      simp
    obtain ⟨rs, w₂, hrest, hI₂⟩ := ih (results ++ [r]) (hset ▸ hI₁)
    refine ⟨r :: rs, w₂, ?_, by simpa using hI₂⟩
    rw [List.mapM_cons]
    simp only [bind, StateT.bind, hrun, Option.bind_some, hrest]
    rfl

/-- **What every operation keeps is kept until all is done**, whoever's turn it is. -/
theorem Kept.together (h : Kept I) {w : World} {es : List (Errand α)} (hI : I w es) :
    ∃ rs w', (Errand.together es : Sim (List α)) w = some (rs, w') ∧ I w' (rs.map .done) := by
  obtain ⟨es', w₁, hinterleave, hI₁⟩ := h.interleave w.turns hI
  obtain ⟨rs, w₂, hruns, hI₂⟩ := h.mapM_run [] hI₁
  refine ⟨rs, w₂, ?_, hI₂⟩
  show (do (← Errand.interleave w.turns es).mapM Errand.run : Sim (List α)) w = _
  simp only [bind, StateT.bind, hinterleave]
  exact hruns

end Errand

/-! ## Several programs -/

namespace Translator

section Jobs

variable {t : Translator} {jobs : List (String × String)} {w₀ w : World} {d : Disk} {place : Place}
  {job : String × String} {es : List (Errand (Except Error String))} {code : Code} {i : Nat}

/-- The place that a job writes to: a program and the name of its image. -/
def slotOf (t : Translator) (w : World) (job : String × String) : Except Fault Place :=
  w.disk.slot w.here (t.resolve job.2).toList

/-- At a place is the image of one of the jobs that write there. -/
def Holds (t : Translator) (jobs : List (String × String)) (w₀ : World) (d : Disk) (place : Place) : Prop :=
  ∃ job ∈ jobs, ∃ code executable, t.emit job.1 = .ok code ∧ t.slotOf w₀ job = .ok place ∧
    d.get? place = some (.file (Image.encode code).toUTF8 executable)

/-- How far the errand of a job has come.  The disk that it was begun on tells where it leads. -/
inductive Progress (t : Translator) (jobs : List (String × String)) (w₀ : World) (d : Disk) (job : String × String)
    (e : Errand (Except Error String)) : Prop
  | malformed {why : Error} : t.emit job.1 = .error why → e = .done (.error why) → Progress t jobs w₀ d job e
  | begun {code : Code} : t.emit job.1 = .ok code → e = Image.saving code (t.resolve job.2) → Progress t jobs w₀ d job e
  | refused {code : Code} {f : Fault} : t.emit job.1 = .ok code → (∀ place, t.slotOf w₀ job ≠ .ok place) →
    e = .done (.error (.io f)) → Progress t jobs w₀ d job e
  | written {code : Code} {place : Place} : t.emit job.1 = .ok code → t.slotOf w₀ job = .ok place →
    Holds t jobs w₀ d place →
    e = Image.marking (t.resolve job.2) ∨ e = Image.naming (t.resolve job.2) ∨ e = .done (Image.answer place) →
    Progress t jobs w₀ d job e

/-- Jobs begun in a world `w₀`, at some moment. -/
structure Underway (t : Translator) (jobs : List (String × String)) (w₀ w : World)
    (es : List (Errand (Except Error String))) : Prop where
  rest : w = { w₀ with disk := w.disk }
  tree : w.disk.IsTree
  same : w₀.disk.SameDirectories w.disk
  files : ∀ q, w.disk.get? q = w₀.disk.get? q ∨ Holds t jobs w₀ w.disk q
  length : es.length = jobs.length
  progress : ∀ (i : Nat) (e : Errand (Except Error String)), es[i]? = some e →
    ∃ job, jobs[i]? = some job ∧ Progress t jobs w₀ w.disk job e

theorem Progress.mono {d' : Disk} {e : Errand (Except Error String)} (h : Progress t jobs w₀ d job e)
    (hd : ∀ q, Holds t jobs w₀ d q → Holds t jobs w₀ d' q) : Progress t jobs w₀ d' job e := by
  cases h with
  | malformed hemit he => exact .malformed hemit he
  | begun hemit he => exact .begun hemit he
  | refused hemit hslot he => exact .refused hemit hslot he
  | written hemit hslot hholds he => exact .written hemit hslot (hd _ hholds) he

theorem Underway.slot_iff (h : Underway t jobs w₀ w es) :
    w.disk.slot w.here (t.resolve job.2).toList = .ok place ↔ t.slotOf w₀ job = .ok place := by
  have hhere : w.here = w₀.here := by rw [h.rest]
  rw [hhere]
  exact ⟨h.same.symm.slot, h.same.slot⟩

/-- An errand goes on without touching the disk. -/
theorem Underway.set (h : Underway t jobs w₀ w es) (hjob : jobs[i]? = some job) {e : Errand (Except Error String)}
    (he : Progress t jobs w₀ w.disk job e) : Underway t jobs w₀ w (es.set i e) := by
  refine ⟨h.rest, h.tree, h.same, h.files, by rw [List.length_set, h.length], ?_⟩
  intro j e' he'
  rw [List.getElem?_set] at he'
  split at he'
  · rename_i hij
    split at he'
    · cases he'
      exact ⟨job, hij ▸ hjob, he⟩
    · cases he'
  · exact h.progress j e' he'

/-- The image of a job is written, or made executable, at the place of the job. -/
theorem Underway.put (h : Underway t jobs w₀ w es) (hmem : job ∈ jobs) (hemit : t.emit job.1 = .ok code)
    (hslot : t.slotOf w₀ job = .ok place) (executable : Bool) :
    Underway t jobs w₀ { w with disk := w.disk.put place (.file (Image.encode code).toUTF8 executable) } es ∧
      Holds t jobs w₀ (w.disk.put place (.file (Image.encode code).toUTF8 executable)) place := by
  have hnow := h.slot_iff.mpr hslot
  have hne := Disk.slot_ne_nil hnow
  have hget (q : Place) : (w.disk.put place (.file (Image.encode code).toUTF8 executable)).get? q =
      if q = place then some (.file (Image.encode code).toUTF8 executable) else w.disk.get? q := Disk.get?_put hne q
  have hplace : Holds t jobs w₀ (w.disk.put place (.file (Image.encode code).toUTF8 executable)) place :=
    ⟨job, hmem, code, executable, hemit, hslot, by rw [hget, if_pos rfl]⟩
  have hmono (q : Place) (hq : Holds t jobs w₀ w.disk q) :
      Holds t jobs w₀ (w.disk.put place (.file (Image.encode code).toUTF8 executable)) q := by
    by_cases heq : q = place
    · rw [heq]
      exact hplace
    · obtain ⟨job', hmem', code', executable', hemit', hslot', hfile⟩ := hq
      exact ⟨job', hmem', code', executable', hemit', hslot', by rw [hget, if_neg heq, hfile]⟩
  refine ⟨⟨by rw [h.rest], h.tree.put hnow _ _, ?_, ?_, h.length, ?_⟩, hplace⟩
  · exact h.same.trans (Disk.sameDirectories_put hne (Disk.slot_eq_ok_iff.mp hnow).2 _ _)
  · intro q
    by_cases heq : q = place
    · rw [heq]
      exact .inr hplace
    · rcases h.files q with hq | hq
      · exact .inl (by rw [hget, if_neg heq, hq])
      · exact .inr (hmono q hq)
  · intro j e he
    obtain ⟨job', hjob', hprogress⟩ := h.progress j e he
    exact ⟨job', hjob', hprogress.mono hmono⟩

/-- **One operation of one of the errands**, with the others anywhere. -/
theorem underway_kept (t : Translator) (jobs : List (String × String)) (w₀ : World) :
    Errand.Kept (Underway t jobs w₀) := by
  intro w es i e h he
  obtain ⟨job, hjob, hprogress⟩ := h.progress i e he
  have hmem : job ∈ jobs := List.mem_of_getElem? hjob
  cases hprogress with
  | malformed hemit heq =>
    subst heq
    exact ⟨_, w, rfl, h.set hjob (.malformed hemit rfl)⟩
  | refused hemit hslot heq =>
    subst heq
    exact ⟨_, w, rfl, h.set hjob (.refused hemit hslot rfl)⟩
  | @begun code hemit heq =>
    subst heq
    cases hslot : w.disk.slot w.here (t.resolve job.2).toList with
    | error f =>
      have hnone (place : Place) : t.slotOf w₀ job ≠ .ok place := by
        rw [ne_eq, ← h.slot_iff, hslot]
        nofun
      exact ⟨_, w, Image.advance_saving_refused code hslot, h.set hjob (.refused hemit hnone rfl)⟩
    | ok place =>
      have hslot₀ := h.slot_iff.mp hslot
      obtain ⟨executable, hadvance⟩ := Image.advance_saving code hslot
      obtain ⟨hput, hplace⟩ := h.put hmem hemit hslot₀ executable
      exact ⟨_, _, hadvance, hput.set hjob (.written hemit hslot₀ hplace (.inl rfl))⟩
  | @written code place hemit hslot hholds heq =>
    obtain ⟨job', hmem', code', executable, hemit', hslot', hfile⟩ := hholds
    have hnow := h.slot_iff.mpr hslot
    rcases heq with rfl | rfl | rfl
    · obtain ⟨hput, hplace⟩ := h.put hmem' hemit' hslot' true
      exact ⟨_, _, Image.advance_marking hnow hfile, hput.set hjob (.written hemit hslot hplace (.inr (.inl rfl)))⟩
    · exact ⟨_, w, Image.advance_naming hnow hfile,
        h.set hjob (.written hemit hslot ⟨job', hmem', code', executable, hemit', hslot', hfile⟩ (.inr (.inr rfl)))⟩
    · exact ⟨_, w, rfl,
        h.set hjob (.written hemit hslot ⟨job', hmem', code', executable, hemit', hslot', hfile⟩ (.inr (.inr rfl)))⟩

theorem underway_start (t : Translator) (jobs : List (String × String)) (hw : w.disk.IsTree) :
    Underway t jobs w w (jobs.map fun job => t.translating job.1 job.2) := by
  refine ⟨rfl, hw, .refl _, fun _ => .inl rfl, List.length_map _, ?_⟩
  intro i e he
  rw [List.getElem?_map] at he
  obtain ⟨job, hjob, rfl⟩ := Option.map_eq_some_iff.mp he
  refine ⟨job, hjob, ?_⟩
  unfold translating
  cases hemit : t.emit job.1 with
  | error why => exact .malformed hemit rfl
  | ok code => exact .begun hemit rfl

/-- What a job comes to: code, the place of its image, and the path that is given as the answer. -/
structure Makes (t : Translator) (w : World) (job : String × String) (code : Code) (place : Place) (p : String) : Prop where
  emit : t.emit job.1 = .ok code
  slot : t.slotOf w job = .ok place
  answer : Image.answer place = .ok p

/-- The result of a job, and what is at its place when all errands are done. -/
theorem Underway.settled {rs : List (Except Error String)} (h : Underway t jobs w₀ w (rs.map .done))
    (hjob : jobs[i]? = some job) {r : Except Error String} (hr : rs[i]? = some r) :
    (∀ p, r = .ok p ↔ ∃ code place, Makes t w₀ job code place p) ∧
      ∀ code place p, Makes t w₀ job code place p → Holds t jobs w₀ w.disk place := by
  obtain ⟨job', hjob', hprogress⟩ := h.progress i (.done r) (by simp [hr])
  cases hjob.symm.trans hjob'
  cases hprogress with
  | malformed hemit he =>
    cases he
    have hnone (code : Code) (place : Place) (p : String) : ¬Makes t w₀ job code place p := by
      intro hmakes
      cases hemit.symm.trans hmakes.emit
    exact ⟨fun p => ⟨nofun, fun ⟨code, place, hmakes⟩ => absurd hmakes (hnone code place p)⟩,
      fun code place p hmakes => absurd hmakes (hnone code place p)⟩
  | begun hemit he => cases he
  | refused hemit hslot he =>
    cases he
    exact ⟨fun p => ⟨nofun, fun ⟨code, place, hmakes⟩ => absurd hmakes.slot (hslot place)⟩,
      fun code place p hmakes => absurd hmakes.slot (hslot place)⟩
  | @written code place hemit hslot hholds he =>
    obtain he | he | he := he
    · cases he
    · cases he
    · cases he
      refine ⟨fun p => ⟨fun hp => ⟨code, place, hemit, hslot, hp⟩, ?_⟩, ?_⟩
      · rintro ⟨code', place', hmakes⟩
        cases hslot.symm.trans hmakes.slot
        exact hmakes.answer
      · intro code' place' p hmakes
        cases hslot.symm.trans hmakes.slot
        exact hholds

/-- **Programs compiled at the same time.**  Whatever the order of the operations, the answers are those that the disk at the
start calls for.  Only the places of the jobs change, and at the place of each job that ended well is the image of a job
with that place, though not always its own. -/
theorem translateAllTo_makes (t : Translator) (jobs : List (String × String)) (hw : w.disk.IsTree) :
    ∃ rs w', (t.translateAllTo jobs : Sim _) w = some (rs, w') ∧ w' = { w with disk := w'.disk } ∧ w'.disk.IsTree ∧
      (∀ q, w'.disk.get? q = w.disk.get? q ∨ Holds t jobs w w'.disk q) ∧ rs.length = jobs.length ∧
      (∀ x ∈ jobs.zip rs, ∀ p, x.2 = .ok p ↔ ∃ code place, Makes t w x.1 code place p) ∧
      ∀ job ∈ jobs, ∀ code place p, Makes t w job code place p → Holds t jobs w w'.disk place := by
  obtain ⟨rs, w', hrun, h⟩ := (underway_kept t jobs w).together (underway_start t jobs hw)
  have hlength : rs.length = jobs.length := by simpa using h.length
  refine ⟨rs, w', hrun, h.rest, h.tree, h.files, hlength, ?_, ?_⟩
  · intro x hx
    obtain ⟨i, hi⟩ := List.mem_iff_getElem?.mp hx
    obtain ⟨hjob, hr⟩ := List.getElem?_zip_eq_some.mp hi
    exact (h.settled hjob hr).1
  · intro job hmem
    obtain ⟨i, hjob⟩ := List.mem_iff_getElem?.mp hmem
    have hlt : i < rs.length := hlength ▸ (List.getElem?_eq_some_iff.mp hjob).1
    exact (h.settled hjob (List.getElem?_eq_getElem hlt)).2

end Jobs
end Translator
end TapeLang
