import TapeLang.Proofs.Lockstep
import TapeLang.Host

/-!
# TapeLang.Proofs.Lines — runs that share a terminal by line

Between runs a terminal is read by line.  A program that stopped in the middle of a line has had that line: its rest is
dropped when the run is finished.  A program that read nothing, or read to the end of a line, leaves everything else where
it was.

* `Quiet`: a terminal of bytes and interruptions that then is at its end.
* `nextStart bytes o k`: where the next run starts if a run started at byte `o` and read `k` bytes.
* `Visit`, `Session`: one run with a fresh line input on what the terminal has left, and one run after the other.
* `Reads start l`: what line inputs come to; `invariant_reads`: reading keeps to it.
* **`runs_keep_to_lines`**: every run of a session starts where `nextStart` says, at the beginning of a line or at the end of
  the terminal, and nothing is dropped but the rest of the line that the run read last.

The bytes are told apart from the interruptions first (`Finished`), so that the arithmetic of lines is about lists of bytes.
-/

namespace TapeLang

/-! ## Lines of bytes -/

section Bytes

/-- Just after the first newline at index `i` or behind it, or the end where there is none. -/
def lineEnd (bytes : List UInt8) (i : Nat) : Nat :=
  match (bytes.drop i).findIdx? (· = newline) with
  | some d => i + d + 1
  | none => bytes.length

/-- Where the next run starts, after a run that started at byte `o` and read `k` bytes. -/
def nextStart (bytes : List UInt8) (o k : Nat) : Nat := if k = 0 then o else lineEnd bytes (o + k - 1)

/-- The beginning of a line, or the end. -/
def IsLineStart (bytes : List UInt8) (o : Nat) : Prop :=
  o = 0 ∨ bytes[o - 1]? = some newline ∨ o = bytes.length

/-- The number of the line that a byte belongs to: that of the newlines before it. -/
def lineOf (bytes : List UInt8) (i : Nat) : Nat := (bytes.take i).count newline

/-- What is left of `start` by a run (`left`), and then by dropping the rest of its line (`next`). -/
inductive Finished (start : List UInt8) : List UInt8 → List UInt8 → Prop
  /-- The run read nothing. -/
  | untouched : Finished start start start
  /-- It read up to `b`, and the line goes on to a newline, if `b` is none. -/
  | cut {read line left next : List UInt8} {b : UInt8} : start = read ++ b :: left → b :: left = line ++ newline :: next →
      newline ∉ line → Finished start left next
  /-- It read up to `b`, and there is no newline behind. -/
  | last {read left : List UInt8} {b : UInt8} : start = read ++ b :: left → newline ∉ b :: left → Finished start left []

theorem findIdx?_newline {line : List UInt8} (h : newline ∉ line) : line.findIdx? (· = newline) = none := by
  rw [List.findIdx?_eq_none_iff]
  intro x hx
  exact decide_eq_false fun hnl => h (hnl ▸ hx)

theorem lineEnd_cut (before line next : List UInt8) (h : newline ∉ line) :
    lineEnd (before ++ (line ++ newline :: next)) before.length = before.length + line.length + 1 := by
  have hidx : (line ++ newline :: next).findIdx? (· = newline) = some line.length := by
    rw [List.findIdx?_append, findIdx?_newline h, List.findIdx?_cons, if_pos (decide_eq_true rfl)]
    simp
  simp only [lineEnd, List.drop_left, hidx]

theorem lineEnd_last (before line : List UInt8) (h : newline ∉ line) :
    lineEnd (before ++ line) before.length = (before ++ line).length := by
  simp only [lineEnd, List.drop_left, findIdx?_newline h]

variable {bytes start left next : List UInt8} {i j : Nat}

/-- Behind `i` there are other bytes and then a newline, or other bytes only. -/
theorem lineEnd_cases (hi : i ≤ bytes.length) : ∃ before line, before.length = i ∧ newline ∉ line ∧
    ((∃ next, bytes = before ++ (line ++ newline :: next) ∧ lineEnd bytes i = i + line.length + 1) ∨
      bytes = before ++ line ∧ lineEnd bytes i = bytes.length) := by
  have hlen : (bytes.take i).length = i := List.length_take_of_le hi
  have hbytes : bytes = bytes.take i ++ bytes.drop i := (List.take_append_drop i bytes).symm
  by_cases hmem : newline ∈ bytes.drop i
  · obtain ⟨line, next, hdrop, hline⟩ := List.eq_append_cons_of_mem hmem
    have hend := lineEnd_cut (bytes.take i) line next hline
    rw [← hdrop, ← hbytes, hlen] at hend
    rw [hdrop] at hbytes
    exact ⟨bytes.take i, line, hlen, hline, .inl ⟨next, hbytes, hend⟩⟩
  · have hend := lineEnd_last (bytes.take i) (bytes.drop i) hmem
    rw [← hbytes, hlen] at hend
    exact ⟨bytes.take i, bytes.drop i, hlen, hmem, .inr ⟨hbytes, hend⟩⟩

theorem isLineStart_lineEnd (hi : i ≤ bytes.length) : IsLineStart bytes (lineEnd bytes i) := by
  obtain ⟨before, line, rfl, -, ⟨next, hbytes, hend⟩ | ⟨-, hend⟩⟩ := lineEnd_cases hi
  · refine .inr (.inl ?_)
    rw [hend, hbytes, Nat.add_sub_cancel, ← List.append_assoc, ← List.length_append,
      List.getElem?_append_right (Nat.le_refl _), Nat.sub_self, List.getElem?_cons_zero]
  · exact .inr (.inr hend)

/-- No line ends between `i` and the end of its line. -/
theorem lineOf_eq_of_lt_lineEnd (hi : i ≤ bytes.length) (hij : i ≤ j) (hj : j < lineEnd bytes i) :
    lineOf bytes j = lineOf bytes i := by
  obtain ⟨before, line, rfl, hline, hcases⟩ := lineEnd_cases hi
  have htake : ∃ more, bytes.take j = before ++ more ∧ newline ∉ more := by
    obtain ⟨d, rfl⟩ := Nat.exists_eq_add_of_le hij
    refine ⟨line.take d, ?_, fun hmem => hline (List.mem_of_mem_take hmem)⟩
    rcases hcases with ⟨next, rfl, hend⟩ | ⟨rfl, hend⟩
    · rw [List.take_length_add_append, List.take_append_of_le_length (by omega)]
    · rw [List.take_length_add_append]
  have hbefore : bytes.take before.length = before := by
    rcases hcases with ⟨next, rfl, -⟩ | ⟨rfl, -⟩ <;> exact List.take_left
  obtain ⟨more, hmore, hfree⟩ := htake
  rw [lineOf, lineOf, hmore, hbefore, List.count_append, List.count_eq_zero.mpr hfree, Nat.add_zero]

theorem nextStart_succ (bytes : List UInt8) (o k : Nat) : nextStart bytes o (k + 1) = lineEnd bytes (o + k) := by
  rw [nextStart, if_neg (Nat.succ_ne_zero k), ← Nat.add_assoc, Nat.add_sub_cancel]

/-- Where a finished run has left the bytes is where the next one starts. -/
theorem Finished.nextStart_eq (h : Finished start left next) (before : List UInt8) :
    (before ++ start).length - next.length = nextStart (before ++ start) before.length (start.length - left.length) := by
  cases h with
  | untouched => simp [nextStart]
  | @cut read line _ _ b hstart hleft hline =>
    have hk : start.length - left.length = read.length + 1 := by simp [hstart]; omega
    have hbytes : before ++ start = (before ++ read) ++ (line ++ newline :: next) := by
      rw [hstart, hleft, List.append_assoc]
    have hend := lineEnd_cut (before ++ read) line next hline
    rw [hk, nextStart_succ, hbytes, ← List.length_append, hend]
    simp
    omega
  | @last read _ b hstart hline =>
    have hk : start.length - left.length = read.length + 1 := by simp [hstart]; omega
    have hbytes : before ++ start = (before ++ read) ++ b :: left := by rw [hstart, List.append_assoc]
    have hend := lineEnd_last (before ++ read) (b :: left) hline
    rw [hk, nextStart_succ, hbytes, ← List.length_append, hend, List.length_nil, Nat.sub_zero]

end Bytes

/-! ## Line inputs on a quiet terminal -/

section Items

/-- The byte that an item gives, if it gives one. -/
def Item.byte? : Item → Option UInt8
  | .byte b => some b
  | _ => none

/-- The bytes of a terminal. -/
def bytesOf (items : List Item) : List UInt8 := items.filterMap Item.byte?

/-- Bytes and interruptions only. -/
def Quiet (items : List Item) : Prop := ∀ i ∈ items, i = .interrupted ∨ ∃ b, i = .byte b

/-- What a fresh line input on `start` can come to. -/
inductive Reads (start : List Item) : LineInput → Prop
  | nothing : Reads start ⟨start, false⟩
  | upTo {read left : List Item} {b : UInt8} : start = read ++ .byte b :: left → Reads start ⟨left, b != newline⟩
  | everything : Reads start ⟨[], false⟩

variable {start items : List Item} {l : LineInput}

theorem Reads.suffix (h : Reads start l) : l.items <:+ start := by
  cases h with
  | nothing => exact List.suffix_refl start
  | upTo hstart =>
    rw [hstart]
    exact (List.suffix_cons _ _).trans (List.suffix_append _ _)
  | everything => exact List.nil_suffix

theorem Quiet.of_suffix (h : Quiet start) (hsuffix : items <:+ start) : Quiet items :=
  fun i hi => h i (hsuffix.mem hi)

/-- On a quiet terminal a read finds a byte or the end. -/
theorem nextOf_quiet (midLine : Bool) (h : Quiet items) :
    (LineInput.nextOf midLine items).2 = ⟨[], false⟩ ∨
      ∃ skipped b left, items = skipped ++ .byte b :: left ∧ (LineInput.nextOf midLine items).2 = ⟨left, b != newline⟩ := by
  induction items with
  | nil => exact .inl rfl
  | cons i items ih =>
    rcases h i (.head _) with rfl | ⟨b, rfl⟩
    · rcases ih fun i hi => h i (.tail _ hi) with hend | ⟨skipped, b, left, rfl, hbyte⟩
      · exact .inl hend
      · exact .inr ⟨.interrupted :: skipped, b, left, rfl, hbyte⟩
    · exact .inr ⟨[], b, items, rfl, rfl⟩

theorem Reads.next (hquiet : Quiet start) (h : Reads start l) : Reads start (Source.next l).2 := by
  have hsuffix := h.suffix
  show Reads start (LineInput.nextOf l.midLine l.items).2
  rcases nextOf_quiet l.midLine (hquiet.of_suffix hsuffix) with hend | ⟨skipped, b, left, hitems, hbyte⟩
  · rw [hend]
    exact .everything
  · obtain ⟨before, hstart⟩ := hsuffix
    rw [hitems, ← List.append_assoc] at hstart
    rw [hbyte]
    exact .upTo hstart.symm

/-- Dropping the rest of a line goes to the next newline, or to the end where there is none. -/
theorem dropLine_quiet (h : Quiet items) :
    (LineInput.dropLine items).1 = .ok () ∧ (LineInput.dropLine items).2 <:+ items ∧
      ((∃ line, newline ∉ line ∧ bytesOf items = line ++ newline :: bytesOf (LineInput.dropLine items).2) ∨
        newline ∉ bytesOf items ∧ bytesOf (LineInput.dropLine items).2 = []) := by
  induction items with
  | nil => exact ⟨rfl, List.suffix_refl _, .inr ⟨nofun, rfl⟩⟩
  | cons i items ih =>
    obtain ⟨hok, hsuffix, hline⟩ := ih fun i hi => h i (.tail _ hi)
    rcases h i (.head _) with rfl | ⟨b, rfl⟩
    · exact ⟨hok, hsuffix.trans (List.suffix_cons _ _), hline⟩
    · by_cases hb : b = newline
      · subst hb
        exact ⟨rfl, List.suffix_cons _ _, .inl ⟨[], nofun, rfl⟩⟩
      · rw [LineInput.dropLine, if_neg hb]
        refine ⟨hok, hsuffix.trans (List.suffix_cons _ _), ?_⟩
        rcases hline with ⟨line, hfree, hbytes⟩ | ⟨hfree, hnone⟩
        · have hfree' := List.not_mem_cons_of_ne_of_not_mem (Ne.symm hb) hfree
          exact .inl ⟨b :: line, hfree', congrArg (b :: ·) hbytes⟩
        · exact .inr ⟨List.not_mem_cons_of_ne_of_not_mem (Ne.symm hb) hfree, hnone⟩

/-- A run that read everything has finished its last line. -/
theorem finished_everything (start : List UInt8) : Finished start [] [] := by
  rcases List.eq_nil_or_concat start with rfl | ⟨read, b, rfl⟩
  · exact .untouched
  · rw [List.concat_eq_append]
    by_cases hb : b = newline
    · subst hb
      exact .cut rfl (List.nil_append _).symm nofun
    · exact .last rfl fun hmem => hb (List.mem_singleton.mp hmem).symm

/-- **Finishing succeeds**, and drops no more than the rest of a line. -/
theorem Reads.finished (hquiet : Quiet start) (h : Reads start l) :
    l.finish.1 = .ok () ∧ l.finish.2 <:+ l.items ∧ Finished (bytesOf start) (bytesOf l.items) (bytesOf l.finish.2) := by
  have hleft := hquiet.of_suffix h.suffix
  cases h with
  | nothing => exact ⟨rfl, List.suffix_refl _, .untouched⟩
  | everything => exact ⟨rfl, List.suffix_refl _, finished_everything _⟩
  | @upTo read left b hstart =>
    have hbytes : bytesOf start = bytesOf read ++ b :: bytesOf left := by
      rw [hstart, bytesOf, List.filterMap_append]
      rfl
    by_cases hb : b = newline
    · subst hb
      exact ⟨rfl, List.suffix_refl _, .cut hbytes (List.nil_append _).symm nofun⟩
    · have hfinish : LineInput.finish ⟨left, b != newline⟩ = LineInput.dropLine left := if_pos (bne_iff_ne.mpr hb)
      rw [hfinish]
      obtain ⟨hok, hsuffix, ⟨line, hfree, hline⟩ | ⟨hfree, hnone⟩⟩ := dropLine_quiet hleft
      · have hcut : b :: bytesOf left = (b :: line) ++ newline :: _ := congrArg (b :: ·) hline
        exact ⟨hok, hsuffix, .cut hbytes hcut (List.not_mem_cons_of_ne_of_not_mem (Ne.symm hb) hfree)⟩
      · rw [hnone]
        exact ⟨hok, hsuffix, .last hbytes (List.not_mem_cons_of_ne_of_not_mem (Ne.symm hb) hfree)⟩

end Items

/-! ## One run after the other -/

section Sessions

/-- A run on what a terminal has left. -/
structure Visit where
  /-- The terminal when the run starts. -/
  start : List Item
  /-- The line input when the run has ended. -/
  left : LineInput

namespace Visit

/-- The terminal when the run is finished. -/
def next (v : Visit) : List Item := v.left.finish.2

/-- Some engine ran some source on a fresh line input and ended. -/
def Made (v : Visit) : Prop :=
  ∃ (τ : Type) (_ : Drain τ) (e : Engine) (fuel : Nat) (source : String) (t : τ) (f : Finish Engine (LineInput × τ)),
    e.run fuel source ((⟨v.start, false⟩ : LineInput), t) = some f ∧ f.console.1 = v.left

end Visit

/-- Runs one after the other, each on what the one before has left. -/
inductive Session : List Item → List Visit → Prop
  | nil {terminal : List Item} : Session terminal []
  | cons {v : Visit} {visits : List Visit} : v.Made → Session v.next visits → Session v.start (v :: visits)

/-- How many bytes of `items` come before `left`. -/
def offset (items left : List Item) : Nat := (bytesOf items).length - (bytesOf left).length

/-- A run takes lines of the terminal and leaves lines. -/
structure Visit.KeepsToLines (terminal : List Item) (v : Visit) : Prop where
  /-- It starts with what the terminal has left, -/
  start_suffix : v.start <:+ terminal
  /-- reads some of it, -/
  left_suffix : v.left.items <:+ v.start
  /-- and some more is dropped, -/
  next_suffix : v.next <:+ v.left.items
  /-- without a refusal. -/
  finishes : v.left.finish.1 = .ok ()
  /-- The next run starts behind the line that was read last. -/
  next_offset : offset terminal v.next =
    nextStart (bytesOf terminal) (offset terminal v.start) (offset v.start v.left.items)
  /-- The run starts at the beginning of a line or at the end. -/
  start_line : IsLineStart (bytesOf terminal) (offset terminal v.start)
  /-- A byte that is dropped belongs to the line of the last byte that was read. -/
  dropped_line : ∀ j, offset terminal v.left.items ≤ j → j < offset terminal v.next →
    0 < offset v.start v.left.items ∧
      lineOf (bytesOf terminal) j = lineOf (bytesOf terminal) (offset terminal v.left.items - 1)

variable {terminal start left : List Item} {v : Visit} {visits : List Visit}

theorem bytesOf_append (xs ys : List Item) : bytesOf (xs ++ ys) = bytesOf xs ++ bytesOf ys :=
  List.filterMap_append

theorem offset_add (hleft : left <:+ start) (hstart : start <:+ terminal) :
    offset terminal start + offset start left = offset terminal left := by
  have h₁ := (hleft.filterMap Item.byte?).length_le
  have h₂ := (hstart.filterMap Item.byte?).length_le
  simp only [offset, bytesOf]
  omega

/-- What line inputs come to is kept by every run. -/
theorem invariant_reads {τ : Type} [Drain τ] (hquiet : Quiet start) :
    Invariant fun k : LineInput × τ => Reads start k.1 :=
  ⟨fun hk => hk.next hquiet, fun _ hk => hk, fun hk => hk⟩

theorem Visit.Made.reads (h : v.Made) (hquiet : Quiet v.start) : Reads v.start v.left := by
  obtain ⟨τ, _, e, fuel, source, t, f, hrun, hleft⟩ := h
  rw [← hleft]
  exact (e.uniform_run fuel source).keeps (invariant_reads hquiet) Reads.nothing hrun

/-- The bytes between where a run ended and where the next one starts are on one line. -/
theorem isLineStart_nextStart {bytes : List UInt8} {o k : Nat} (hok : o + k ≤ bytes.length) (ho : IsLineStart bytes o) :
    IsLineStart bytes (nextStart bytes o k) ∧
      ∀ j, o + k ≤ j → j < nextStart bytes o k → 0 < k ∧ lineOf bytes j = lineOf bytes (o + k - 1) := by
  by_cases hk : k = 0
  · rw [nextStart, if_pos hk]
    refine ⟨ho, fun j hj hlt => ?_⟩
    omega
  · rw [nextStart, if_neg hk]
    refine ⟨isLineStart_lineEnd (by omega), fun j hj hlt => ⟨Nat.pos_of_ne_zero hk, ?_⟩⟩
    exact lineOf_eq_of_lt_lineEnd (by omega) (by omega) hlt

/-- **One run.** -/
theorem Visit.Made.keepsToLines (h : v.Made) (hquiet : Quiet terminal) (hsuffix : v.start <:+ terminal)
    (hline : IsLineStart (bytesOf terminal) (offset terminal v.start)) : v.KeepsToLines terminal := by
  have hstart := hquiet.of_suffix hsuffix
  have hreads := h.reads hstart
  obtain ⟨hok, hnext, hfinished⟩ := hreads.finished hstart
  have hadd := offset_add hreads.suffix hsuffix
  have hoffset : offset terminal v.next =
      nextStart (bytesOf terminal) (offset terminal v.start) (offset v.start v.left.items) := by
    obtain ⟨before, rfl⟩ := hsuffix
    have hbefore : offset (before ++ v.start) v.start = (bytesOf before).length := by
      rw [offset, bytesOf_append, List.length_append, Nat.add_sub_cancel]
    rw [hbefore, offset, bytesOf_append]
    exact hfinished.nextStart_eq (bytesOf before)
  have hle : offset terminal v.start + offset v.start v.left.items ≤ (bytesOf terminal).length := by
    rw [hadd]
    exact Nat.sub_le _ _
  have hdropped := (isLineStart_nextStart hle hline).2
  rw [hadd, ← hoffset] at hdropped
  exact ⟨hsuffix, hreads.suffix, hnext, hok, hoffset, hline, hdropped⟩

theorem Visit.KeepsToLines.next_line (h : v.KeepsToLines terminal) :
    IsLineStart (bytesOf terminal) (offset terminal v.next) := by
  have hle : offset terminal v.start + offset v.start v.left.items ≤ (bytesOf terminal).length := by
    rw [offset_add h.left_suffix h.start_suffix]
    exact Nat.sub_le _ _
  rw [h.next_offset]
  exact (isLineStart_nextStart hle h.start_line).1

/-- **Many runs**, from any line of the terminal on. -/
theorem Session.keepsToLines (h : Session start visits) (hquiet : Quiet terminal) (hsuffix : start <:+ terminal)
    (hline : IsLineStart (bytesOf terminal) (offset terminal start)) : ∀ v ∈ visits, v.KeepsToLines terminal := by
  induction h with
  | nil => exact nofun
  | @cons v visits hmade hrest ih =>
    have hv := hmade.keepsToLines hquiet hsuffix hline
    have hnext : v.next <:+ terminal := hv.next_suffix.trans (hv.left_suffix.trans hsuffix)
    intro u hu
    rcases List.mem_cons.mp hu with rfl | hu
    · exact hv
    · exact ih hnext hv.next_line u hu

/-- **Runs that share a terminal keep to its lines**, and so does a host that feeds its runs by line. -/
theorem runs_keep_to_lines (hquiet : Quiet terminal) :
    (∀ visits, Session terminal visits → ∀ v ∈ visits, v.KeepsToLines terminal) ∧
      ∀ (w w' : World) (e : Engine) (source : String) (answer : Except Error Outcome × Engine),
        w.runEngine .lines e source = some (answer, w') → ∃ v : Visit, v.Made ∧ v.start = w.input ∧ v.next = w'.input := by
  refine ⟨fun visits hsession => ?_, fun w w' e source answer hrun => ?_⟩
  · refine hsession.keepsToLines hquiet (List.suffix_refl _) (.inl ?_)
    exact Nat.sub_self _
  · obtain ⟨f, hf, heq⟩ := Option.map_eq_some_iff.mp hrun
    obtain ⟨-, rfl⟩ := Prod.ext_iff.mp heq
    exact ⟨⟨w.input, f.console.1⟩, ⟨_, _, e, w.patience, source, w.output, f, hf, rfl⟩, rfl, rfl⟩

/-- One byte of the first line is read, then nothing, then a byte of the second line, which has no end. -/
theorem runs_keep_to_lines_thrice : ∃ terminal visits, Quiet terminal ∧ Session terminal visits ∧
    visits.map (fun v => (offset terminal v.start, offset v.start v.left.items)) = [(0, 1), (3, 0), (3, 1)] ∧
    visits.map (fun v => offset terminal v.next) = [3, 3, 5] ∧ ∀ v ∈ visits, v.KeepsToLines terminal := by
  have hquiet : Quiet [.byte 97, .interrupted, .byte 98, .byte newline, .byte 99, .interrupted, .byte 100] := by
    intro i hi
    simp only [List.mem_cons, List.not_mem_nil, or_false] at hi
    rcases hi with rfl | rfl | rfl | rfl | rfl | rfl | rfl <;> simp
  have hfirst : Engine.run 9 ⟨.interpret, .idle ⟨4, 16⟩, ⟨4, "."⟩⟩ (String.ofList [','])
      ((⟨[.byte 97, .interrupted, .byte 98, .byte newline, .byte 99, .interrupted, .byte 100], false⟩ : LineInput),
        ({} : Sink)) = some _ := rfl
  have hnothing : Engine.run 9 ⟨.interpret, .idle ⟨4, 16⟩, ⟨4, "."⟩⟩ (String.ofList ['['])
      ((⟨[.byte 99, .interrupted, .byte 100], false⟩ : LineInput), ({} : Sink)) = some _ := rfl
  have hlast : Engine.run 9 ⟨.translate, .idle ⟨4, 16⟩, ⟨4, "."⟩⟩ (String.ofList [','])
      ((⟨[.byte 99, .interrupted, .byte 100], false⟩ : LineInput), ({} : Sink)) = some _ := rfl
  have hsession := Session.cons (v := ⟨_, _⟩) ⟨_, _, _, _, _, _, _, hfirst, rfl⟩
    (.cons (v := ⟨_, _⟩) ⟨_, _, _, _, _, _, _, hnothing, rfl⟩ (.cons (v := ⟨_, _⟩) ⟨_, _, _, _, _, _, _, hlast, rfl⟩ .nil))
  exact ⟨_, _, hquiet, hsession, rfl, rfl, (runs_keep_to_lines hquiet).1 _ hsession⟩

end Sessions
end TapeLang
