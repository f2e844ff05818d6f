import TapeLang.Host

/-!
# TapeLang.Proofs.Tree — the theory of disks

Where a file that is filled stands, and how it is found again.

* `Disk.get?_put`: a node that is put somewhere is there, and everything else stays.
* `Disk.IsTree`: every node has a name that can be walked to and stands in a directory.  Filling files keeps it.
* `Disk.slot`: the place of the file that a path lets one fill.  It is the place that the path leads to as soon as something
  is there (`locate_of_target`), and it depends on the directories of the disk alone (`SameDirectories.slot`).
* `Disk.IsTree.locate_nameOf`: the name of a place leads back to the place.
-/

namespace TapeLang

/-! ## Paths in pieces -/

namespace Path

theorem pieces_ne_nil (cs : List Char) : pieces cs ≠ [] := by
  fun_cases pieces cs <;> simp_all

theorem exists_last_piece (cs : List Char) : ∃ names name, pieces cs = names ++ [name] := by
  rcases List.eq_nil_or_concat (pieces cs) with h | ⟨names, name, h⟩
  · exact absurd h (pieces_ne_nil cs)
  · exact ⟨names, name, by rw [h, List.concat_eq_append]⟩

theorem pieces_append_slash (xs ys : List Char) : pieces (xs ++ '/' :: ys) = pieces xs ++ pieces ys := by
  induction xs with
  | nil => simp [pieces]
  | cons c xs ih =>
    by_cases hc : c = '/'
    · simp [pieces, hc, ih]
    · cases hp : pieces xs with
      | nil => exact absurd hp (pieces_ne_nil xs)
      | cons p ps => simp [pieces, hc, ih, hp]

theorem pieces_of_no_slash {cs : List Char} (h : '/' ∉ cs) : pieces cs = [cs] := by
  induction cs with
  | nil => rfl
  | cons c cs ih =>
    obtain ⟨hc, hcs⟩ := not_or.mp (mt List.mem_cons.mpr h)
    rw [pieces, if_neg (Ne.symm hc), ih hcs]

theorem of_mem_pieces {cs p : List Char} (h : p ∈ pieces cs) : '/' ∉ p ∧ p ⊆ cs := by
  induction cs generalizing p with
  | nil =>
    cases List.mem_singleton.mp h
    simp
  | cons c cs ih =>
    by_cases hc : c = '/'
    · rw [pieces, if_pos hc, List.mem_cons] at h
      rcases h with rfl | h
      · simp
      · exact ⟨(ih h).1, List.subset_cons_of_subset c (ih h).2⟩
    · rw [pieces, if_neg hc] at h
      cases hp : pieces cs with
      | nil => exact absurd hp (pieces_ne_nil cs)
      | cons q qs =>
        simp only [hp, List.mem_cons] at h ih
        rcases h with rfl | h
        · obtain ⟨hslash, hsub⟩ := ih (.inl rfl)
          exact ⟨by simp [Ne.symm hc, hslash], List.cons_subset_cons c hsub⟩
        · obtain ⟨hslash, hsub⟩ := ih (.inr h)
          exact ⟨hslash, List.subset_cons_of_subset c hsub⟩

end Path

namespace Disk

variable {d d' : Disk} {here place parent : Place} {path name : List Char} {node : Node}

/-! ## Nodes -/

section Nodes

theorem get?_put (hplace : place ≠ []) (q : Place) :
    (d.put place node).get? q = if q = place then some node else d.get? q := by
  by_cases hq : q = []
  · simp [get?, hq, hplace.symm]
  by_cases hany : d.nodes.any (·.1 = place)
  · -- what is at the place is replaced where it stands in the list
    have hsame : ((fun n : Place × Node => decide (n.1 = q)) ∘ fun n => if n.1 = place then (place, node) else n) =
        fun n => decide (n.1 = q) := by
      funext n
      by_cases hn : n.1 = place <;> simp [hn]
    rw [put, if_pos hany, get?, if_neg hq, List.find?_map, hsame, get?, if_neg hq]
    cases hfind : d.nodes.find? (·.1 = q) with
    | none =>
      have hne : q ≠ place := by
        rintro rfl
        obtain ⟨n, hn, hnq⟩ := List.any_eq_true.mp hany
        exact absurd hnq (List.find?_eq_none.mp hfind n hn)
      simp [hne]
    | some n =>
      have hn : n.1 = q := by simpa using List.find?_some hfind
      by_cases hqp : q = place <;> simp [hn, hqp]
  · have hnone : d.nodes.find? (·.1 = place) = none :=
      List.find?_eq_none.mpr fun n hn hp => hany (List.any_eq_true.mpr ⟨n, hn, hp⟩)
    rw [put, if_neg hany, get?, if_neg hq, List.find?_append, get?, if_neg hq]
    by_cases hqp : q = place
    · simp [hqp, hnone]
    · simp [hqp, Ne.symm hqp]

theorem put_put (d : Disk) (place : Place) (node node' : Node) :
    (d.put place node).put place node' = d.put place node' := by
  by_cases hany : d.nodes.any (·.1 = place)
  · have hput : d.put place node = ⟨d.nodes.map fun n => if n.1 = place then (place, node) else n⟩ := if_pos hany
    have hany' : (d.put place node).nodes.any (·.1 = place) := by
      obtain ⟨n, hn, hp⟩ := List.any_eq_true.mp hany
      rw [hput]
      exact List.any_eq_true.mpr ⟨(place, node), List.mem_map.mpr ⟨n, hn, if_pos (of_decide_eq_true hp)⟩, by simp⟩
    rw [put, if_pos hany', hput, put, if_pos hany]
    simp only [List.map_map, mk.injEq, List.map_inj_left, Function.comp_apply]
    intro n _
    by_cases hn : n.1 = place <;> simp [hn]
  · have hput : d.put place node = ⟨d.nodes ++ [(place, node)]⟩ := if_neg hany
    have hany' : (d.put place node).nodes.any (·.1 = place) := by simp [hput]
    have hkeep : (d.nodes.map fun n => if n.1 = place then (place, node') else n) = d.nodes := by
      refine (List.map_congr_left fun n hn => if_neg fun hp => hany ?_).trans (List.map_id _)
      exact List.any_eq_true.mpr ⟨n, hn, decide_eq_true hp⟩
    rw [put, if_pos hany', hput, put, if_neg hany]
    simp [hkeep]

theorem mem_nodes_put {n : Place × Node} (h : n ∈ (d.put place node).nodes) : n = (place, node) ∨ n ∈ d.nodes := by
  unfold put at h
  split at h
  · obtain ⟨n', hn', rfl⟩ := List.mem_map.mp h
    split
    · exact .inl rfl
    · exact .inr hn'
  · rcases List.mem_append.mp h with h | h
    · exact .inr h
    · exact .inl (List.mem_singleton.mp h)

theorem isSome_of_hasDirectory (h : d.hasDirectory place) : (d.get? place).isSome := by
  unfold hasDirectory at h
  cases hn : d.get? place with
  | none => rw [hn] at h; cases h
  | some node => rfl

end Nodes

/-! ## Disks with the same directories -/

section SameDirectories

/-- The same places are directories. -/
def SameDirectories (d d' : Disk) : Prop := ∀ place, d'.hasDirectory place = d.hasDirectory place

theorem SameDirectories.refl (d : Disk) : d.SameDirectories d := fun _ => rfl

theorem SameDirectories.symm (h : d.SameDirectories d') : d'.SameDirectories d := fun place => (h place).symm

theorem SameDirectories.trans {d'' : Disk} (h : d.SameDirectories d') (h' : d'.SameDirectories d'') :
    d.SameDirectories d'' := fun place => (h' place).trans (h place)

theorem sameDirectories_put (hplace : place ≠ []) (h : d.hasDirectory place = false) (data : ByteArray)
    (executable : Bool) : d.SameDirectories (d.put place (.file data executable)) := by
  intro q
  rw [hasDirectory, get?_put hplace]
  by_cases hq : q = place
  · rw [if_pos hq, hq, h]
    rfl
  · rw [if_neg hq]
    rfl

end SameDirectories

/-! ## Walks -/

section Walks

theorem walk_cons (place : Place) (piece : List Char) (pieces : List (List Char)) :
    d.walk place (piece :: pieces) = d.step place piece >>= fun next => d.walk next pieces := List.foldlM_cons

theorem walk_append (place : Place) (xs ys : List (List Char)) :
    d.walk place (xs ++ ys) = d.walk place xs >>= fun next => d.walk next ys := List.foldlM_append

/-- What a walk takes as the name of a node. -/
structure IsName (name : List Char) : Prop where
  ne_nil : name ≠ []
  ne_dot : name ≠ ['.']
  ne_up : name ≠ ['.', '.']
  no_slash : '/' ∉ name
  no_nul : '\x00' ∉ name
  size_le : byteSize name ≤ nameLimit

theorem isName_iff : IsName name ↔ name ≠ [] ∧ name ≠ ['.'] ∧ name ≠ ['.', '.'] ∧ '/' ∉ name ∧ '\x00' ∉ name ∧
    byteSize name ≤ nameLimit :=
  ⟨fun h => ⟨h.1, h.2, h.3, h.4, h.5, h.6⟩, fun ⟨h1, h2, h3, h4, h5, h6⟩ => ⟨h1, h2, h3, h4, h5, h6⟩⟩

instance : Decidable (IsName name) := decidable_of_iff _ isName_iff.symm

theorem IsName.step_eq (hname : IsName name) (hplace : d.hasDirectory place) :
    d.step place name = if (d.get? (place ++ [name])).isSome then .ok (place ++ [name]) else .error .notFound := by
  simp [step, hplace, hname.ne_nil, hname.ne_dot, hname.ne_up, Nat.not_lt.mpr hname.size_le]

theorem hasDirectory_of_step {piece : List Char} (h : d.step place piece = .ok parent) : d.hasDirectory place := by
  cases hdir : d.hasDirectory place with
  | true => rfl
  | false => simp [step, hdir] at h

/-- A walk that ends in a directory goes through directories only. -/
theorem hasDirectory_of_walk {pieces : List (List Char)} (h : d.walk place pieces = .ok parent)
    (hparent : d.hasDirectory parent) : d.hasDirectory place := by
  cases pieces with
  | nil => cases h; exact hparent
  | cons piece pieces =>
    rw [walk_cons] at h
    cases hstep : d.step place piece with
    | error f => rw [hstep] at h; cases h
    | ok next => exact hasDirectory_of_step hstep

theorem SameDirectories.step (hd : d.SameDirectories d') {piece : List Char} (h : d.step place piece = .ok parent)
    (hparent : d.hasDirectory parent) : d'.step place piece = .ok parent := by
  have hexists : (d'.get? parent).isSome := isSome_of_hasDirectory (by rw [hd, hparent])
  have hplace := hasDirectory_of_step h
  unfold Disk.step at h ⊢
  rw [hplace] at h
  rw [hd, hplace]
  split at h
  · cases h
  · split at h
    · cases h; simp_all
    · split at h
      · cases h; simp_all
      · split at h
        · cases h
        · split at h
          · cases h; simp_all
          · cases h

theorem SameDirectories.walk (hd : d.SameDirectories d') {pieces : List (List Char)}
    (h : d.walk place pieces = .ok parent) (hparent : d.hasDirectory parent) : d'.walk place pieces = .ok parent := by
  induction pieces generalizing place with
  | nil => exact h
  | cons piece pieces ih =>
    rw [walk_cons] at h ⊢
    cases hstep : d.step place piece with
    | error f => rw [hstep] at h; cases h
    | ok next =>
      rw [hstep] at h
      have hnext : d'.step place piece = .ok next := hd.step hstep (hasDirectory_of_walk h hparent)
      rw [hnext]
      exact ih h

end Walks

/-! ## Places of files -/

section Slots

theorem checkPath_eq_ok_iff : checkPath path = .ok () ↔ '\x00' ∉ path ∧ path ≠ [] ∧ byteSize path < pathLimit := by
  simp only [checkPath, List.contains_iff_mem]
  split
  · simp_all
  · split
    · simp_all
    · split <;> simp_all

theorem target_of_dropEmpty {names : List (List Char)} (hcheck : checkPath path = .ok ())
    (hnames : dropEmpty (Path.pieces path) = names ++ [name]) :
    d.target here path = d.walk (start here path) names >>= fun parent =>
      if !d.hasDirectory parent then .error .notDirectory
      else if (names ++ [name]).length < (Path.pieces path).length ∨ name = ['.'] ∨ name = ['.', '.'] then
        .error .isDirectory
      else if nameLimit < byteSize name then .error .nameTooLong
      else .ok (parent ++ [name]) := by
  unfold target
  simp only [hcheck, hnames, List.getLast?_concat, List.dropLast_concat]
  cases d.walk (start here path) names with
  | error f => rfl
  | ok parent =>
    simp only [bind, Except.bind]
    split
    · rfl
    · split
      · rfl
      · split <;> rfl

theorem target_ne_ok_of_slash {names : List (List Char)} (hpieces : Path.pieces path = names ++ [[]]) (place : Place) :
    d.target here path ≠ .ok place := by
  -- something was dropped, so the path counts as that of a directory
  have hlt : (dropEmpty (Path.pieces path)).length < (Path.pieces path).length := by
    have hle := (List.dropWhile_suffix (l := names.reverse) (·.isEmpty)).length_le
    simp [dropEmpty, hpieces] at hle ⊢
    omega
  intro h
  cases hcheck : checkPath path with
  | error f => simp [target, hcheck, bind, Except.bind] at h
  | ok _ =>
    rcases List.eq_nil_or_concat (dropEmpty (Path.pieces path)) with hnames | ⟨inner, name, hnames⟩
    · simp [target, hcheck, hnames, bind, Except.bind, throw, throwThe, MonadExceptOf.throw] at h
    · rw [List.concat_eq_append] at hnames
      rw [target_of_dropEmpty hcheck hnames, ← hnames] at h
      cases hwalk : d.walk (start here path) inner with
      | error f => rw [hwalk] at h; cases h
      | ok parent => cases hdir : d.hasDirectory parent <;> simp [hwalk, hdir, hlt, bind, Except.bind] at h

theorem target_of_name {names : List (List Char)} (hcheck : checkPath path = .ok ())
    (hpieces : Path.pieces path = names ++ [name]) (hnil : name ≠ []) :
    d.target here path = d.walk (start here path) names >>= fun parent =>
      if d.hasDirectory parent = false then .error .notDirectory
      else if name = ['.'] ∨ name = ['.', '.'] then .error .isDirectory
      else if nameLimit < byteSize name then .error .nameTooLong
      else .ok (parent ++ [name]) := by
  have hnames : dropEmpty (Path.pieces path) = names ++ [name] := by simp [dropEmpty, hpieces, hnil]
  rw [target_of_dropEmpty hcheck hnames, ← hpieces]
  simp

/-- **What a path must be like for a file to be made there.**  Its last piece is a name, and the others lead to a
directory. -/
theorem target_eq_ok_iff : d.target here path = .ok place ↔
    checkPath path = .ok () ∧ ∃ names name parent, Path.pieces path = names ++ [name] ∧ IsName name ∧
      d.walk (start here path) names = .ok parent ∧ d.hasDirectory parent ∧ place = parent ++ [name] := by
  cases hcheck : checkPath path with
  | error f => simp [target, hcheck, bind, Except.bind]
  | ok _ =>
    obtain ⟨names, name, hpieces⟩ := Path.exists_last_piece path
    constructor
    · intro h
      have hnil : name ≠ [] := by
        rintro rfl
        exact target_ne_ok_of_slash hpieces place h
      have hmem : name ∈ Path.pieces path := by simp [hpieces]
      obtain ⟨hslash, hsub⟩ := Path.of_mem_pieces hmem
      have hnul : '\x00' ∉ name := fun hmem => (checkPath_eq_ok_iff.mp hcheck).1 (hsub hmem)
      rw [target_of_name hcheck hpieces hnil] at h
      cases hwalk : d.walk (start here path) names with
      | error f => rw [hwalk] at h; cases h
      | ok parent =>
        simp only [hwalk, bind, Except.bind] at h
        split at h
        · cases h
        · split at h
          · cases h
          · split at h
            · cases h
            · rename_i hdir hdots hsize
              obtain ⟨hdot, hup⟩ := not_or.mp hdots
              cases h
              exact ⟨rfl, names, name, parent, hpieces, ⟨hnil, hdot, hup, hslash, hnul, Nat.not_lt.mp hsize⟩, hwalk,
                by simpa using hdir, rfl⟩
    · rintro ⟨-, names', name', parent, hpieces', hname, hwalk, hdir, rfl⟩
      obtain ⟨rfl, heq⟩ := List.append_inj' (hpieces.symm.trans hpieces') rfl
      cases List.singleton_inj.mp heq
      rw [target_of_name hcheck hpieces hname.ne_nil, hwalk]
      simp [hdir, bind, Except.bind, hname.ne_dot, hname.ne_up, Nat.not_lt.mpr hname.size_le]

/-- A path under which a file can be made leads to that file, once there is one. -/
theorem locate_of_target (h : d.target here path = .ok place) :
    d.locate here path = if (d.get? place).isSome then .ok place else .error .notFound := by
  obtain ⟨hcheck, names, name, parent, hpieces, hname, hwalk, hparent, rfl⟩ := target_eq_ok_iff.mp h
  have hlast : d.walk parent [name] = d.step parent name := by
    rw [walk_cons]
    cases d.step parent name <;> rfl
  unfold locate
  rw [hcheck, hpieces, walk_append, hwalk]
  exact hlast.trans (hname.step_eq hparent)

/-- The place of the file that can be filled under a path. -/
def slot (d : Disk) (here : Place) (path : List Char) : Except Fault Place := do
  let place ← d.target here path
  if d.hasDirectory place then throw .isDirectory
  return place

theorem slot_eq_ok_iff : d.slot here path = .ok place ↔ d.target here path = .ok place ∧ d.hasDirectory place = false := by
  unfold slot
  cases htarget : d.target here path with
  | error f => simp [bind, Except.bind]
  | ok q =>
    by_cases hq : d.hasDirectory q
    · simp only [bind, Except.bind, hq, if_true, Except.ok.injEq]
      refine ⟨fun h => (nomatch h), ?_⟩
      rintro ⟨rfl, hfalse⟩
      rw [hq] at hfalse
      cases hfalse
    · simp only [bind, Except.bind, hq, Except.ok.injEq]
      refine ⟨?_, ?_⟩
      · rintro ⟨⟩
        exact ⟨rfl, by simpa using hq⟩
      · rintro ⟨rfl, -⟩
        rfl

theorem slot_ne_nil (h : d.slot here path = .ok place) : place ≠ [] := by
  obtain ⟨-, names, name, parent, -, -, -, -, rfl⟩ := target_eq_ok_iff.mp (slot_eq_ok_iff.mp h).1
  simp

theorem SameDirectories.slot (hd : d.SameDirectories d') (h : d.slot here path = .ok place) :
    d'.slot here path = .ok place := by
  obtain ⟨htarget, hfile⟩ := slot_eq_ok_iff.mp h
  obtain ⟨hcheck, names, name, parent, hpieces, hname, hwalk, hparent, rfl⟩ := target_eq_ok_iff.mp htarget
  rw [slot_eq_ok_iff, hd, target_eq_ok_iff]
  exact ⟨⟨hcheck, names, name, parent, hpieces, hname, hd.walk hwalk hparent, by rw [hd, hparent], rfl⟩, hfile⟩

/-- A path leads to a directory. -/
def LeadsToDirectory (d : Disk) (here : Place) (path : List Char) : Prop :=
  ∃ place, d.locate here path = .ok place ∧ d.hasDirectory place

theorem LeadsToDirectory.slot_ne_ok (hpath : d.LeadsToDirectory here path) (place : Place) :
    d.slot here path ≠ .ok place := by
  obtain ⟨q, hlocate, hq⟩ := hpath
  intro h
  obtain ⟨htarget, hfile⟩ := slot_eq_ok_iff.mp h
  rw [locate_of_target htarget] at hlocate
  split at hlocate
  · cases hlocate
    rw [hq] at hfile
    cases hfile
  · cases hlocate

theorem byteSize_append (xs ys : List Char) : byteSize (xs ++ ys) = byteSize xs + byteSize ys := by
  have hfrom (n : Nat) (cs : List Char) : cs.foldl (fun n c => n + c.utf8Size) n = n + byteSize cs := by
    unfold byteSize
    induction cs generalizing n with
    | nil => rfl
    | cons c cs ih => rw [List.foldl_cons, List.foldl_cons, ih, ih (0 + c.utf8Size)]; omega
  rw [byteSize, List.foldl_append, hfrom]
  rfl

/-- What stands before the last slash of a path does not lead to a directory. -/
def LacksParent (d : Disk) (here : Place) (path : List Char) : Prop :=
  ∃ directory name, path = directory ++ '/' :: name ∧ '/' ∉ name ∧ directory ≠ [] ∧ ¬d.LeadsToDirectory here directory

theorem LacksParent.slot_ne_ok (hpath : d.LacksParent here path) (place : Place) : d.slot here path ≠ .ok place := by
  obtain ⟨directory, name, hpath, hname, hne, hmissing⟩ := hpath
  intro h
  obtain ⟨hcheck, names, name', parent, hpieces, -, hwalk, hparent, -⟩ := target_eq_ok_iff.mp (slot_eq_ok_iff.mp h).1
  have hstart : start here path = start here directory := by
    obtain ⟨c, cs, rfl⟩ := List.exists_cons_of_ne_nil hne
    rw [hpath]
    rfl
  have hnames : names = Path.pieces directory := by
    rw [hpath, Path.pieces_append_slash, Path.pieces_of_no_slash hname] at hpieces
    exact (List.append_inj' hpieces rfl).1.symm
  have hcheck' : checkPath directory = .ok () := by
    rw [checkPath_eq_ok_iff] at hcheck ⊢
    rw [hpath, byteSize_append] at hcheck
    exact ⟨fun h => hcheck.1 (List.mem_append_left _ h), hne, by omega⟩
  have hlocate : d.locate here directory = .ok parent := by
    unfold locate
    rw [hcheck', ← hnames, ← hstart]
    exact hwalk
  exact hmissing ⟨parent, hlocate, hparent⟩

end Slots

/-! ## Files -/

section Files

variable {data : ByteArray} {executable : Bool}

theorem write_of_slot (h : d.slot here path = .ok place) (data : ByteArray) :
    ∃ executable, d.write here path data = .ok (d.put place (.file data executable)) := by
  obtain ⟨htarget, hfile⟩ := slot_eq_ok_iff.mp h
  unfold write
  rw [htarget]
  simp only [bind, Except.bind]
  cases hnode : d.get? place with
  | none => exact ⟨false, rfl⟩
  | some node =>
    cases node with
    | directory => simp [hasDirectory, hnode, Node.isDirectory] at hfile
    | file _ executable => exact ⟨executable, rfl⟩

theorem write_of_refused {f : Fault} (h : d.slot here path = .error f) (data : ByteArray) :
    d.write here path data = .error f := by
  unfold slot at h
  unfold write
  cases htarget : d.target here path with
  | error g => rw [htarget] at h; cases h; rfl
  | ok place =>
    rw [htarget] at h
    simp only [bind, Except.bind] at h ⊢
    cases hnode : d.get? place with
    | none => simp [hasDirectory, hnode, pure, Except.pure] at h
    | some node =>
      cases node with
      | directory =>
        have hdir : d.hasDirectory place = true := by simp [hasDirectory, hnode, Node.isDirectory]
        rw [hdir] at h
        cases h
        rfl
      | file data' executable => simp [hasDirectory, hnode, Node.isDirectory, pure, Except.pure] at h

theorem makeExecutable_of_slot (h : d.slot here path = .ok place) (hfile : d.get? place = some (.file data executable)) :
    d.makeExecutable here path = .ok (d.put place (.file data true)) := by
  unfold makeExecutable
  rw [locate_of_target (slot_eq_ok_iff.mp h).1, hfile]
  simp only [Option.isSome_some, if_true, bind, Except.bind, hfile]
  rfl

theorem canonical_of_slot (h : d.slot here path = .ok place) (hfile : d.get? place = some (.file data executable)) :
    d.canonical here path = nameOf place := by
  unfold canonical
  rw [locate_of_target (slot_eq_ok_iff.mp h).1, hfile]
  rfl

end Files

/-! ## Trees -/

section Trees

/-- Every node has a name and is in a directory. -/
def IsTree (d : Disk) : Prop := ∀ n ∈ d.nodes, ∃ parent name, n.1 = parent ++ [name] ∧ IsName name ∧ d.hasDirectory parent

/-- Filling a file keeps a tree a tree. -/
theorem IsTree.put (ht : d.IsTree) (h : d.slot here path = .ok place) (data : ByteArray) (executable : Bool) :
    (d.put place (.file data executable)).IsTree := by
  obtain ⟨htarget, hfile⟩ := slot_eq_ok_iff.mp h
  have hsame := sameDirectories_put (slot_ne_nil h) hfile data executable
  intro n hn
  rcases mem_nodes_put hn with rfl | hold
  · obtain ⟨-, -, name, parent, -, hname, -, hparent, rfl⟩ := target_eq_ok_iff.mp htarget
    exact ⟨parent, name, rfl, hname, by rw [hsame, hparent]⟩
  · obtain ⟨parent, name, heq, hname, hparent⟩ := ht n hold
    exact ⟨parent, name, heq, hname, by rw [hsame, hparent]⟩

theorem IsTree.of_get? (ht : d.IsTree) (h : (d.get? (parent ++ [name])).isSome) : IsName name ∧ d.hasDirectory parent := by
  have hne : parent ++ [name] ≠ [] := by simp
  rw [get?, if_neg hne, Option.isSome_map, List.find?_isSome] at h
  obtain ⟨n, hn, hplace⟩ := h
  obtain ⟨parent', name', heq, hname, hparent⟩ := ht n hn
  obtain ⟨rfl, hlast⟩ := List.append_inj' (heq.symm.trans (of_decide_eq_true hplace)) rfl
  cases List.singleton_inj.mp hlast
  exact ⟨hname, hparent⟩

/-- Everything in a tree is reached from the root, by its names. -/
theorem IsTree.walk_root (ht : d.IsTree) (h : (d.get? place).isSome) :
    d.walk [] place = .ok place ∧ ∀ name ∈ place, IsName name := by
  -- a longest walk first: all but the last name lead to a directory
  induction hlen : place.length generalizing place with
  | zero =>
    cases List.length_eq_zero_iff.mp hlen
    exact ⟨rfl, by simp⟩
  | succ n ih =>
    rcases List.eq_nil_or_concat place with rfl | ⟨parent, name, rfl⟩
    · cases hlen
    · rw [List.concat_eq_append] at h hlen ⊢
      obtain ⟨hname, hparent⟩ := ht.of_get? h
      obtain ⟨hwalk, hnames⟩ := ih (isSome_of_hasDirectory hparent) (by simpa using hlen)
      refine ⟨?_, ?_⟩
      · have hstep : d.step parent name = .ok (parent ++ [name]) := by rw [hname.step_eq hparent, if_pos h]
        rw [walk_append, hwalk]
        simp only [bind, Except.bind, walk_cons, hstep]
        rfl
      · intro name' hmem
        rcases List.mem_append.mp hmem with hmem | hmem
        · exact hnames name' hmem
        · rw [List.mem_singleton.mp hmem]
          exact hname

theorem pieces_names {names : List (List Char)} (hname : '/' ∉ name) (hnames : ∀ n ∈ names, '/' ∉ n) :
    Path.pieces (name ++ names.flatMap ('/' :: ·)) = name :: names := by
  induction names generalizing name with
  | nil => simpa using Path.pieces_of_no_slash hname
  | cons next names ih =>
    rw [List.flatMap_cons, List.cons_append, Path.pieces_append_slash, Path.pieces_of_no_slash hname,
      ih (hnames next (by simp)) fun n hn => hnames n (by simp [hn])]
    rfl

theorem eq_of_nameOf {text : List Char} (h : nameOf place = .ok text) : text = pathTo place := by
  unfold nameOf at h
  split at h
  · cases h
  · cases h
    rfl

/-- **The name of a place leads to the place**, from wherever one stands. -/
theorem IsTree.locate_nameOf (ht : d.IsTree) (h : (d.get? place).isSome) (hne : place ≠ []) {text : List Char}
    (hname : nameOf place = .ok text) (here : Place) : d.locate here text = .ok place := by
  obtain ⟨hwalk, hnames⟩ := ht.walk_root h
  unfold nameOf at hname
  split at hname
  · cases hname
  · rename_i hsize
    cases hname
    obtain ⟨first, rest, rfl⟩ := List.exists_cons_of_ne_nil hne
    have htext : pathTo (first :: rest) = '/' :: (first ++ rest.flatMap ('/' :: ·)) := by simp [pathTo]
    have hcheck : checkPath (pathTo (first :: rest)) = .ok () := by
      refine checkPath_eq_ok_iff.mpr ⟨?_, by simp [htext], Nat.not_le.mp hsize⟩
      intro hnul
      simp only [pathTo, if_neg hne, List.mem_flatMap, List.mem_cons] at hnul
      obtain ⟨n, hn, hslash | hmem⟩ := hnul
      · exact absurd hslash (by decide)
      · exact (hnames n (by simpa using hn)).no_nul hmem
    have hpieces : Path.pieces (pathTo (first :: rest)) = [] :: first :: rest := by
      rw [htext, Path.pieces, if_pos rfl, pieces_names (hnames first (by simp)).no_slash
        fun n hn => (hnames n (by simp [hn])).no_slash]
    have hstart : start here (pathTo (first :: rest)) = [] := by
      rw [htext]
      rfl
    -- the empty piece in front of the first slash stays at the root
    have hroot : d.step [] [] = .ok [] := by simp [step, hasDirectory, get?, Node.isDirectory]
    unfold locate
    rw [hcheck, hpieces, hstart]
    show d.walk [] ([] :: first :: rest) = .ok (first :: rest)
    rw [walk_cons, hroot]
    exact hwalk

end Trees

end Disk
end TapeLang
