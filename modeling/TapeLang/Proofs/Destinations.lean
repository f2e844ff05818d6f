import TapeLang.Engine
import TapeLang.Proofs.Tree

/-!
# TapeLang.Proofs.Destinations — where images go

An image with a relative name goes to the output directory.  The name is joined to the directory, and an extension is added to
whatever the last component of the whole path is then.

* `Path.components_join`: a relative path adds its steps to the components of the directory.
* `Path.endsIn_dropTail`: a path whose last component is a name is that name behind a directory, once slashes and dots at its
  end are dropped.  So adding an extension changes the last component only (`components_addExtension`).
* `Translator.Escapes`: the destination makes no step, and the directory has a name without extension.  Then the directory's
  own name gets the extension.
* **`Translator.resolve_stays_inside`**: this is the only way out of the output directory.
-/

namespace TapeLang
namespace Path

/-! ## Joined paths -/

section Joining

variable {path directory xs ys : List Char}

/-- The steps that a path makes from a directory: what it names, without a `.` in front. -/
def steps (path : List Char) : List Component := (pieces path).filterMap component?

theorem isAbsolute_append (hxs : xs ≠ []) (ys : List Char) : isAbsolute (xs ++ ys) = isAbsolute xs := by
  cases xs with
  | nil => exact absurd rfl hxs
  | cons c xs => rfl

/-- Behind a slash all pieces count alike. -/
theorem components_slash (xs ys : List Char) :
    components (xs ++ '/' :: ys) = components (xs ++ ['/']) ++ steps ys := by
  have habsolute : isAbsolute (xs ++ '/' :: ys) = isAbsolute (xs ++ ['/']) := by cases xs <;> rfl
  have hpieces : pieces (xs ++ ['/']) = pieces xs ++ [[]] := pieces_append_slash xs []
  cases hp : pieces xs with
  | nil => exact absurd hp (pieces_ne_nil xs)
  | cons first rest => simp [components, steps, pieces_append_slash, hpieces, hp, habsolute, component?]

theorem components_trailing (hxs : xs ≠ []) : components (xs ++ ['/']) = components xs := by
  have hpieces : pieces (xs ++ ['/']) = pieces xs ++ [[]] := pieces_append_slash xs []
  cases hp : pieces xs with
  | nil => exact absurd hp (pieces_ne_nil xs)
  | cons first rest => simp [components, hpieces, hp, isAbsolute_append hxs, component?]

/-- A `.` in front is all that is not a step. -/
theorem components_relative (h : isAbsolute path = false) :
    components path = steps path ∨ components path = .here :: steps path := by
  cases hp : pieces path with
  | nil => exact absurd hp (pieces_ne_nil path)
  | cons first rest =>
    by_cases hdot : first = ['.']
    · right
      simp [components, steps, hp, h, hdot, component?]
    · left
      cases hc : component? first <;> simp [components, steps, hp, h, hdot, hc]

theorem mem_components_of_mem_steps (h : isAbsolute path = false) {c : Component} (hc : c ∈ steps path) :
    c ∈ components path := by
  rcases components_relative h with heq | heq
  · rw [heq]
    exact hc
  · rw [heq]
    exact List.mem_cons_of_mem _ hc

/-- A path makes no step just when it names nothing but the place where it starts. -/
theorem steps_eq_nil_iff (h : isAbsolute path = false) : steps path = [] ↔ ∀ c ∈ components path, c = .here := by
  constructor
  · intro hnil c hc
    rcases components_relative h with heq | heq
    · rw [heq, hnil] at hc
      cases hc
    · rw [heq, hnil] at hc
      exact List.mem_singleton.mp hc
  · intro hall
    rw [List.eq_nil_iff_forall_not_mem]
    intro c hc
    -- no piece counts as a `.` behind the front
    have hhere := hall c (mem_components_of_mem_steps h hc)
    obtain ⟨piece, -, hpiece⟩ := List.mem_filterMap.mp hc
    rw [hhere, component?] at hpiece
    split at hpiece
    · cases hpiece
    · split at hpiece <;> cases hpiece

/-- **A relative path adds its steps to a directory.** -/
theorem components_join (hpath : isAbsolute path = false) (hdir : directory ≠ []) :
    components (join directory path) = components directory ++ steps path := by
  rw [join, hpath]
  by_cases hlast : directory.getLast? = some '/'
  · obtain ⟨xs, rfl⟩ : ∃ xs, directory = xs ++ ['/'] := List.getLast?_eq_some_iff.mp hlast
    rw [if_neg Bool.false_ne_true, if_pos (.inr hlast), List.append_assoc, List.singleton_append, components_slash]
  · rw [if_neg Bool.false_ne_true, if_neg (by simp [hdir, hlast]), components_slash, components_trailing hdir]

theorem join_nil (path : List Char) : join [] path = path := by
  cases h : isAbsolute path <;> simp [join, h]

end Joining

/-! ## Extensions -/

section Extensions

variable {path n extension : List Char}

/-- What is in front of a name: nothing, or something that ends with a slash. -/
def IsFront (front : List Char) : Prop := front = [] ∨ ∃ xs, front = xs ++ ['/']

/-- A piece that is a name. -/
structure IsNamePiece (n : List Char) : Prop where
  no_slash : '/' ∉ n
  component : component? n = some (.name n)

theorem isNamePiece_of_ne (hslash : '/' ∉ n) (hnil : n ≠ []) (hdot : n ≠ ['.']) (hdots : n ≠ ['.', '.']) : IsNamePiece n :=
  ⟨hslash, by simp [component?, hnil, hdot, hdots]⟩

theorem IsNamePiece.ne (h : IsNamePiece n) : n ≠ [] ∧ n ≠ ['.'] ∧ n ≠ ['.', '.'] := by
  refine ⟨?_, ?_, ?_⟩
  all_goals
    rintro rfl
    exact absurd h.component (by decide)

theorem IsNamePiece.append (h : IsNamePiece n) (hext : '/' ∉ extension) : IsNamePiece (n ++ '.' :: extension) := by
  obtain ⟨hnil, hdot, -⟩ := h.ne
  have hslash : '/' ∉ n ++ '.' :: extension := by simp [h.no_slash, hext]
  refine isNamePiece_of_ne hslash (by simp) ?_ ?_
  · intro heq
    cases n with
    | nil => exact hnil rfl
    | cons c n => simp at heq
  · intro heq
    cases n with
    | nil => exact hnil rfl
    | cons c n =>
      cases n with
      | nil =>
        simp only [List.cons_append, List.nil_append, List.cons.injEq] at heq
        exact hdot (by rw [heq.1])
      | cons d n => simp at heq

theorem steps_of_no_slash (h : '/' ∉ n) : steps n = (component? n).toList := by
  rw [steps, pieces_of_no_slash h]
  cases hc : component? n <;> simp [hc]

theorem components_front {front : List Char} (hfront : IsFront front) (hn : IsNamePiece n) :
    components (front ++ n) = components front ++ [.name n] := by
  have hsteps : steps n = [.name n] := by rw [steps_of_no_slash hn.no_slash, hn.component, Option.toList_some]
  rcases hfront with rfl | ⟨xs, rfl⟩
  · have habsolute : isAbsolute n = false := by
      cases n with
      | nil => rfl
      | cons c n => simpa [isAbsolute] using fun h => hn.no_slash (by simp [h])
    show components n = [.name n]
    simp [components, pieces_of_no_slash hn.no_slash, habsolute, hn.ne.2.1, hn.component]
  · rw [List.append_assoc, List.singleton_append, components_slash, hsteps]

theorem exists_last_slash {cs : List Char} (h : '/' ∈ cs) : ∃ xs ys, cs = xs ++ '/' :: ys ∧ '/' ∉ ys := by
  obtain ⟨ys, xs, hcs, hys⟩ := List.eq_append_cons_of_mem (List.mem_reverse.mpr h)
  refine ⟨xs.reverse, ys.reverse, ?_, by simpa using hys⟩
  rw [← List.reverse_reverse cs, hcs]
  simp

theorem fileName?_eq_some_iff : fileName? path = some n ↔ ∃ cs, components path = cs ++ [.name n] := by
  rw [fileName?, ← List.getLast?_eq_some_iff]
  cases (components path).getLast? with
  | none => simp
  | some c => cases c <;> simp

/-- A path is a name behind a front, up to what `short` lacks of it. -/
structure EndsIn (path n short : List Char) : Prop where
  name : IsNamePiece n
  split : ∃ front, IsFront front ∧ short = front ++ n ∧ components path = components front ++ [.name n]

theorem EndsIn.congr {path' short : List Char} (heq : components path = components path') (h : EndsIn path' n short) :
    EndsIn path n short :=
  ⟨h.name, by rw [heq]; exact h.split⟩

/-- A path that ends neither with a slash nor with a `.` behind a slash ends with its last component. -/
theorem endsIn_self (h : fileName? path = some n) (hslash : ∀ xs, path ≠ xs ++ ['/'])
    (hdot : ∀ xs, path ≠ xs ++ ['/', '.']) : EndsIn path n path := by
  obtain ⟨cs, hcs⟩ := fileName?_eq_some_iff.mp h
  have hfront {front last : List Char} (hf : IsFront front) (hpath : path = front ++ last) (hlast : '/' ∉ last)
      (hnil : last ≠ []) (hone : last ≠ ['.']) (htwo : last ≠ ['.', '.']) : EndsIn path n path := by
    have hname := isNamePiece_of_ne hlast hnil hone htwo
    have hsplit := components_front hf hname
    rw [← hpath, hcs] at hsplit
    obtain ⟨rfl, hn⟩ := List.append_inj' hsplit rfl
    cases hn
    exact ⟨hname, front, hf, hpath, hcs⟩
  by_cases hmem : '/' ∈ path
  · obtain ⟨xs, last, hpath, hlast⟩ := exists_last_slash hmem
    have hsplit : path = (xs ++ ['/']) ++ last := by simp [hpath]
    refine hfront (.inr ⟨xs, rfl⟩) hsplit hlast ?_ ?_ ?_
    · rintro rfl
      exact hslash xs hpath
    · rintro rfl
      exact hdot xs hpath
    · rintro rfl
      rw [hpath, components_slash] at hcs
      cases (List.append_inj' hcs rfl).2
  · refine hfront (.inl rfl) rfl hmem ?_ ?_ ?_
    all_goals
      rintro rfl
      cases h

theorem components_dropped {xs : List Char} (hxs : xs ≠ []) :
    components (xs ++ ['/', '.']) = components xs := by
  have hsteps : steps ['.'] = [] := rfl
  rw [components_slash, components_trailing hxs, hsteps, List.append_nil]

/-- Slashes and dots at the end of a path say nothing. -/
theorem endsIn_dropTail (h : fileName? path = some n) : EndsIn path n (dropTail path) := by
  rw [dropTail]
  generalize hback : path.reverse = back
  have hpath : path = back.reverse := by rw [← hback, List.reverse_reverse]
  fun_induction dropTail.dropBack back generalizing path with
  | case1 cs ih =>
    rw [List.reverse_cons] at hpath
    by_cases hcs : cs.reverse = []
    · rw [hpath, hcs] at h
      cases h
    have heq : components path = components cs.reverse := by rw [hpath, components_trailing hcs]
    rw [fileName?, heq] at h
    exact (ih h (List.reverse_reverse cs) rfl).congr heq
  | case2 cs ih =>
    rw [List.reverse_cons, List.reverse_cons, List.append_assoc] at hpath
    by_cases hcs : cs.reverse = []
    · rw [hpath, hcs] at h
      cases h
    have heq : components path = components cs.reverse := by rw [hpath]; exact components_dropped hcs
    rw [fileName?, heq] at h
    exact (ih h (List.reverse_reverse cs) rfl).congr heq
  | case3 cs hslash hdot =>
    rw [← hpath]
    apply endsIn_self h
    · rintro xs rfl
      rw [List.reverse_append] at hback
      exact hslash _ hback.symm
    · rintro xs rfl
      rw [List.reverse_append] at hback
      exact hdot _ hback.symm

/-- **An extension is added to the last component**, and the others stay. -/
theorem components_addExtension {cs : List Component} (h : components path = cs ++ [.name n]) (hext : '/' ∉ extension) :
    components (addExtension path extension) = cs ++ [.name (n ++ '.' :: extension)] := by
  have hname : fileName? path = some n := fileName?_eq_some_iff.mpr ⟨cs, h⟩
  obtain ⟨hn, front, hfront, hshort, hsplit⟩ := endsIn_dropTail hname
  rw [h] at hsplit
  rw [addExtension, hname, hshort]
  show components (front ++ n ++ '.' :: extension) = _
  rw [List.append_assoc, components_front hfront (hn.append hext), (List.append_inj' hsplit rfl).1]

/-- A name that has no extension gets one, and any other path stays. -/
theorem components_withDefaultExtension (path : List Char) (hext : '/' ∉ extension) :
    (∃ cs n, components path = cs ++ [.name n] ∧ (splitExtension n).2 = none ∧
      components (withDefaultExtension path extension) = cs ++ [.name (n ++ '.' :: extension)]) ∨
    ((∀ n, fileName? path = some n → (splitExtension n).2 ≠ none) ∧
      components (withDefaultExtension path extension) = components path) := by
  rw [withDefaultExtension, extension?]
  cases hname : fileName? path with
  | none =>
    right
    refine ⟨?_, by simp [addExtension, hname]⟩
    intro n hn
    cases hn
  | some n =>
    obtain ⟨cs, hcs⟩ := fileName?_eq_some_iff.mp hname
    cases hsplit : (splitExtension n).2 with
    | none =>
      left
      refine ⟨cs, n, hcs, hsplit, ?_⟩
      simpa [hsplit] using components_addExtension hcs hext
    | some e =>
      right
      refine ⟨?_, by simp [hsplit]⟩
      rintro _ ⟨⟩
      simp [hsplit]

end Extensions
end Path

/-! ## Destinations -/

namespace Translator

open TapeLang.Path

/-- A destination leaves the output directory: it makes no step from there, and the directory has a name without extension. -/
structure Escapes (t : Translator) (destination : String) : Prop where
  no_step : ∀ c ∈ components destination.toList, c = .here
  bare : ∃ n, fileName? t.directory.toList = some n ∧ (splitExtension n).2 = none

variable {t : Translator} {destination : String}

theorem toList_resolve (t : Translator) (destination : String) :
    (t.resolve destination).toList =
      withDefaultExtension (join t.directory.toList destination.toList) Image.extension.toList := by
  rw [resolve, String.toList_ofList]

theorem slash_not_mem_extension : '/' ∉ Image.extension.toList := by decide

/-- The name of the output directory gets the extension. -/
theorem Escapes.components_resolve (hrel : isAbsolute destination.toList = false) (h : t.Escapes destination) :
    ∃ above n, components t.directory.toList = above ++ [.name n] ∧
      components (t.resolve destination).toList = above ++ [.name (n ++ '.' :: Image.extension.toList)] := by
  obtain ⟨n, hn, hbare⟩ := h.bare
  obtain ⟨above, habove⟩ := fileName?_eq_some_iff.mp hn
  have hdir : t.directory.toList ≠ [] := by
    intro hnil
    rw [hnil] at hn
    cases hn
  -- without a step the joined path has the components of the directory
  have hjoin : components (join t.directory.toList destination.toList) = above ++ [.name n] := by
    rw [components_join hrel hdir, (steps_eq_nil_iff hrel).mpr h.no_step, List.append_nil, habove]
  rw [toList_resolve]
  rcases components_withDefaultExtension (join t.directory.toList destination.toList) slash_not_mem_extension with
    ⟨cs, m, hcs, -, hresolve⟩ | ⟨hother, -⟩
  · rw [hjoin] at hcs
    obtain ⟨rfl, hm⟩ := List.append_inj' hcs rfl
    cases hm
    exact ⟨above, n, habove, hresolve⟩
  · exact absurd hbare (hother n (fileName?_eq_some_iff.mpr ⟨above, hjoin⟩))

/-- What is written below the directory, when there is something below it or nothing is added. -/
theorem components_resolve_of_join {below : List Component} (hup : .up ∉ below)
    (hjoin : components (join t.directory.toList destination.toList) = components t.directory.toList ++ below)
    (hbelow : below ≠ [] ∨ ∀ n, fileName? t.directory.toList = some n → (splitExtension n).2 ≠ none) :
    ∃ rest, components (t.resolve destination).toList = components t.directory.toList ++ rest ∧ .up ∉ rest := by
  rw [toList_resolve]
  rcases components_withDefaultExtension (join t.directory.toList destination.toList) slash_not_mem_extension with
    ⟨cs, n, hcs, hbare, hresolve⟩ | ⟨-, hresolve⟩
  · rw [hjoin] at hcs
    have hne : below ≠ [] := by
      rintro rfl
      rw [List.append_nil] at hcs
      exact hbelow.elim (fun h => h rfl) fun h => h n (fileName?_eq_some_iff.mpr ⟨cs, hcs⟩) hbare
    obtain ⟨front, last, rfl⟩ : ∃ front last, below = front ++ [last] :=
      ⟨_, _, (List.dropLast_concat_getLast hne).symm⟩
    rw [← List.append_assoc] at hcs
    obtain ⟨rfl, -⟩ := List.append_inj' hcs rfl
    refine ⟨front ++ [.name (n ++ '.' :: Image.extension.toList)], by rw [hresolve, List.append_assoc], ?_⟩
    simp only [List.mem_append, List.mem_singleton, not_or] at hup ⊢
    exact ⟨hup.1, by simp⟩
  · exact ⟨below, hresolve.trans hjoin, hup⟩

/-- **Images with relative names stay inside the output directory, with one exception.**  Take a relative destination without
`..`.  The path of its image is the output directory with more names behind it, unless the destination makes no step at all and
the directory has a name without extension.  In that case the extension is added to the name of the directory, and the
image goes beside it. -/
theorem resolve_stays_inside (t : Translator) (destination : String) (hrel : isAbsolute destination.toList = false)
    (hup : .up ∉ components destination.toList) :
    (¬t.Escapes destination →
      ∃ rest, components (t.resolve destination).toList = components t.directory.toList ++ rest ∧ .up ∉ rest) ∧
    (t.Escapes destination →
      ¬components t.directory.toList <+: components (t.resolve destination).toList ∧
      ∃ above n, components t.directory.toList = above ++ [.name n] ∧
        components (t.resolve destination).toList = above ++ [.name (n ++ '.' :: Image.extension.toList)]) := by
  constructor
  · intro hstays
    by_cases hdir : t.directory.toList = []
    · have hjoin : components (join t.directory.toList destination.toList) =
          components t.directory.toList ++ components destination.toList := by
        rw [hdir, join_nil]
        rfl
      refine components_resolve_of_join hup hjoin (.inr ?_)
      intro n hn
      rw [hdir] at hn
      cases hn
    · have hsteps : .up ∉ steps destination.toList := fun h => hup (mem_components_of_mem_steps hrel h)
      refine components_resolve_of_join hsteps (components_join hrel hdir) ?_
      by_cases hnil : steps destination.toList = []
      · right
        intro n hn hbare
        exact hstays ⟨(steps_eq_nil_iff hrel).mp hnil, n, hn, hbare⟩
      · exact .inl hnil
  · intro hescapes
    obtain ⟨above, n, habove, hresolve⟩ := hescapes.components_resolve hrel
    refine ⟨?_, above, n, habove, hresolve⟩
    rintro ⟨rest, hrest⟩
    rw [habove, hresolve, List.append_assoc] at hrest
    have hlast := List.append_cancel_left hrest
    simp at hlast

/-- A hidden file with a `.` in front of it and a slash behind. -/
theorem resolve_stays_inside_hidden :
    isAbsolute "./.a/".toList = false ∧ .up ∉ components "./.a/".toList ∧ ¬Escapes ⟨4, "out"⟩ "./.a/" ∧
      resolve ⟨4, "out"⟩ "./.a/" = "out/./.a.twx" ∧
      ∃ rest, components (resolve ⟨4, "out"⟩ "./.a/").toList = components "out".toList ++ rest ∧ .up ∉ rest := by
  have hrel : isAbsolute "./.a/".toList = false := by decide
  have hup : .up ∉ components "./.a/".toList := by decide
  have hstays : ¬Escapes ⟨4, "out"⟩ "./.a/" := by
    intro h
    have hname := h.no_step (.name ['.', 'a']) (by decide)
    cases hname
  exact ⟨hrel, hup, hstays, by decide, (resolve_stays_inside ⟨4, "out"⟩ "./.a/" hrel hup).1 hstays⟩

/-- A destination without `..` may leave the output directory. -/
theorem resolve_leaves_directory :
    isAbsolute ".".toList = false ∧ .up ∉ components ".".toList ∧ resolve ⟨4, "out"⟩ "." = "out.twx" ∧
      ¬components "out".toList <+: components (resolve ⟨4, "out"⟩ ".").toList := by
  decide

end Translator
end TapeLang
