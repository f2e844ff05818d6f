import TapeLang.Proofs.Lockstep

/-!
# TapeLang.Proofs.Streams — streams say what scripts say

A program reads events; a stream is made of read calls, some of which give nothing and are repeated.  What a stream says is
told by its items alone: `answers items` are the answers that it has for a program, in order.

* `Consumed items received left`: after the answers `received` exactly `left` is still to come, i.e. the stream was read up to
  and including the item that gave the last answer.
* `Script.ofItems`: the script of a stream, up to its first refusal.
* `Runner.Follows run items t`: what a run on the stream `items` has to do with the run on its script, the run on a line input
  with the same items, and the run on a stream with other interruptions.
* **`runs_follow_script`**: every run of an interpreter, of code and of an engine.

Everything is said of recorded runs, where each question and each answer can be seen; recording changes nothing.
-/

namespace TapeLang

open Recorded (record eraseFinish)

/-! ## What a stream says -/

section Answers

/-- What a read call gives a program; nothing if the call is to be repeated. -/
def Item.answer? : Item → Option (Except Fault Event)
  | .byte b => some (.ok (if b = escape then .cancel else .byte b))
  | .eof => some (.ok .cancel)
  | .interrupted => none
  | .fail text => some (.error (.other text))

/-- The answers that a stream has for a program. -/
def answers (items : List Item) : List (Except Fault Event) := items.filterMap Item.answer?

/-- The events before the first refusal. -/
def eventsOf : List (Except Fault Event) → List Event
  | .ok e :: rest => e :: eventsOf rest
  | _ => []

/-- The script of a stream, up to its first refusal. -/
def Script.ofItems (items : List Item) : Script := ⟨eventsOf (answers items)⟩

/-- A stream without its interruptions. -/
def calm (items : List Item) : List Item := items.filter (· ≠ .interrupted)

/-- After the answers, exactly `left` is still to come of a stream. -/
inductive Consumed (items : List Item) : List (Except Fault Event) → List Item → Prop
  /-- Nothing was asked of it. -/
  | nothing : Consumed items [] items
  /-- It was read up to and including the item that gave the last answer. -/
  | upTo {before left : List Item} {last : Item} {a : Except Fault Event} {received : List (Except Fault Event)} :
      items = before ++ last :: left → last.answer? = some a → received = answers before ++ [a] →
      Consumed items received left
  /-- It was read to its end, and the last answer is due to the end. -/
  | everything {received : List (Except Fault Event)} (n : Nat) :
      received = answers items ++ List.replicate (n + 1) (.ok .cancel) → Consumed items received []

variable {items left : List Item} {received : List (Except Fault Event)}

theorem answers_append (xs ys : List Item) : answers (xs ++ ys) = answers xs ++ answers ys :=
  List.filterMap_append

theorem answers_cons {i : Item} {a : Except Fault Event} (h : i.answer? = some a) (rest : List Item) :
    answers (i :: rest) = a :: answers rest :=
  List.filterMap_cons_some h

/-- A read passes over what gives no answer; at the end of the stream it is answered all the same. -/
theorem nextOf_cases (items : List Item) :
    (answers items = [] ∧ Reader.nextOf items = (.ok .cancel, [])) ∨
      ∃ skipped last a rest, items = skipped ++ last :: rest ∧ answers skipped = [] ∧ last.answer? = some a ∧
        Reader.nextOf items = (a, rest) := by
  induction items with
  | nil => exact .inl ⟨rfl, rfl⟩
  | cons i items ih =>
    cases i with
    | byte b => exact .inr ⟨[], .byte b, _, items, rfl, rfl, rfl, rfl⟩
    | eof => exact .inr ⟨[], .eof, _, items, rfl, rfl, rfl, rfl⟩
    | fail text => exact .inr ⟨[], .fail text, _, items, rfl, rfl, rfl, rfl⟩
    | interrupted =>
      rcases ih with ⟨hanswers, hnext⟩ | ⟨skipped, last, a, rest, rfl, hskipped, ha, hnext⟩
      · exact .inl ⟨hanswers, hnext⟩
      · exact .inr ⟨.interrupted :: skipped, last, a, rest, rfl, hskipped, ha, hnext⟩

/-- One more read. -/
theorem Consumed.next (h : Consumed items received left) :
    Consumed items (received ++ [(Reader.nextOf left).1]) (Reader.nextOf left).2 := by
  cases h with
  | nothing =>
    rcases nextOf_cases items with ⟨hnone, hnext⟩ | ⟨skipped, last, a, rest, hitems, hskipped, ha, hnext⟩
    · rw [hnext]
      exact .everything 0 (by rw [hnone]; rfl)
    · rw [hnext]
      exact .upTo hitems ha (by rw [hskipped])
  | @upTo before _ last a _ hitems ha hreceived =>
    rcases nextOf_cases left with ⟨hnone, hnext⟩ | ⟨skipped, last', a', rest, hleft, hskipped, ha', hnext⟩
    · rw [hnext]
      refine .everything 0 ?_
      rw [hreceived, hitems, answers_append, answers_cons ha, hnone]
      rfl
    · rw [hnext]
      have hitems' : items = (before ++ last :: skipped) ++ last' :: rest := by
        rw [hitems, hleft, List.append_assoc, List.cons_append]
      refine .upTo hitems' ha' ?_
      rw [hreceived, answers_append, answers_cons ha, hskipped]
  | everything n hreceived =>
    refine .everything (n + 1) ?_
    rw [hreceived, List.replicate_succ' (n := n + 1), List.append_assoc]
    rfl

/-- A refusal that was met was given by the last item that was read. -/
theorem Consumed.of_error {w : Fault} {before : List (Except Fault Event)}
    (h : Consumed items (before ++ [.error w]) left) :
    ∃ read text, items = read ++ .fail text :: left ∧ answers read = before ∧ w = .other text := by
  generalize hall : before ++ [Except.error w] = received at h
  cases h with
  | nothing => exact absurd hall (by simp)
  | @upTo read _ last a _ hitems ha hreceived =>
    obtain ⟨hread, hlast⟩ := List.append_inj' (hall.trans hreceived) rfl
    obtain rfl : .error w = a := List.singleton_inj.mp hlast
    cases last with
    | fail text =>
      cases ha
      exact ⟨read, text, hitems, hread.symm, rfl⟩
    | byte b => cases ha
    | eof => cases ha
    | interrupted => cases ha
  | everything n hreceived =>
    rw [List.replicate_succ', ← List.append_assoc] at hreceived
    obtain ⟨-, hlast⟩ := List.append_inj' (hall.trans hreceived) rfl
    cases hlast

end Answers

/-! ## Sources that say the same -/

section Alike

/-- A stream gives the events of its script, until it refuses. -/
theorem next_ofItems (r : Reader) (s : Script) (h : s = .ofItems r.items) :
    Answers (fun (r : Reader) (s : Script) => s = .ofItems r.items) (fun _ _ => True) (Source.next r) (Source.next s) := by
  obtain ⟨items⟩ := r
  subst h
  show Answers _ _ ((Reader.nextOf items).1, (⟨(Reader.nextOf items).2⟩ : Reader)) _
  rcases nextOf_cases items with ⟨hnone, hnext⟩ | ⟨skipped, last, a, rest, rfl, hskipped, ha, hnext⟩
  · rw [hnext, Script.ofItems, hnone]
    exact .inl ⟨rfl, rfl⟩
  · rw [hnext, Script.ofItems, answers_append, hskipped, List.nil_append, answers_cons ha]
    cases a with
    | ok e => exact .inl ⟨rfl, rfl⟩
    | error w => exact .inr ⟨w, rfl, trivial⟩

/-- Interruptions are passed over. -/
theorem nextOf_calm (items : List Item) :
    Reader.nextOf (calm items) = ((Reader.nextOf items).1, calm (Reader.nextOf items).2) := by
  induction items with
  | nil => rfl
  | cons i items ih =>
    cases i with
    | interrupted => exact ih
    | byte b => rfl
    | eof => rfl
    | fail text => rfl

theorem next_calm (r r' : Reader) (h : calm r.items = calm r'.items) :
    Answers (fun r r' : Reader => calm r.items = calm r'.items) Never (Source.next r) (Source.next r') := by
  have hnext : Reader.nextOf (calm r.items) = Reader.nextOf (calm r'.items) := by rw [h]
  rw [nextOf_calm, nextOf_calm] at hnext
  obtain ⟨hanswer, hleft⟩ := Prod.ext_iff.mp hnext
  exact .inl ⟨hanswer, hleft⟩

/-- What a line input knows of its lines does not change what it says. -/
theorem nextOf_lines (midLine : Bool) (items : List Item) :
    (LineInput.nextOf midLine items).1 = (Reader.nextOf items).1 ∧
      (LineInput.nextOf midLine items).2.items = (Reader.nextOf items).2 := by
  induction items with
  | nil => exact ⟨rfl, rfl⟩
  | cons i items ih =>
    cases i with
    | interrupted => exact ih
    | byte b => exact ⟨rfl, rfl⟩
    | eof => exact ⟨rfl, rfl⟩
    | fail text => exact ⟨rfl, rfl⟩

theorem next_lines (l : LineInput) (r : Reader) (h : l.items = r.items) :
    Answers (fun (l : LineInput) (r : Reader) => l.items = r.items) Never (Source.next l) (Source.next r) := by
  obtain ⟨items, midLine⟩ := l
  subst h
  exact .inl (nextOf_lines midLine r.items)

end Alike

/-! ## Runs on streams -/

section Runs

variable {σ τ : Type}

/-- What is seen of a recorded run: its result, the state that it stopped in, all that it asked with the answers that it got,
and the drain that it leaves. -/
def seen {ς : Type} (f : Finish σ (Recorded (ς × τ))) : Except Error Outcome × σ × List Entry × τ :=
  (f.result, f.state, f.console.log, f.console.console.2)

variable [Drain τ]

/-- A run follows the script of a stream, whatever the stream is made of. -/
structure Runner.Follows (run : Runner σ) (items : List Item) (t : τ) : Prop where
  /-- What is said of recorded runs is said of runs. -/
  recorded : ∀ {κ : Type} [Console κ] (k : κ), run κ k = (run (Recorded κ) (record k)).map eraseFinish
  /-- The run on the script takes no fewer steps. -/
  underway : run _ (record ((⟨items⟩ : Reader), t)) = none → run _ (record (Script.ofItems items, t)) = none
  /-- A run that meets no refusal is the run on the script. -/
  scripted : ∀ f, run _ (record ((⟨items⟩ : Reader), t)) = some f → (∀ w, .error w ∉ f.console.received) →
    (run _ (record (Script.ofItems items, t))).map seen = some (seen f)
  /-- A refusal that is met ends the run, and it is the first one of the stream. -/
  refused : ∀ f, run _ (record ((⟨items⟩ : Reader), t)) = some f → ∀ w, .error w ∈ f.console.received →
    f.result = .error (.io w) ∧ ∃ before text, items = before ++ .fail text :: f.console.console.1.items ∧
      (∀ text', .fail text' ∉ before) ∧ w = .other text
  /-- The stream is read up to and including the item that gave the last answer. -/
  consumed : ∀ f, run _ (record ((⟨items⟩ : Reader), t)) = some f →
    Consumed items f.console.received f.console.console.1.items
  /-- A line input with the same items makes no difference. -/
  lines : ∀ midLine, (run _ (record ((⟨items, midLine⟩ : LineInput), t))).map (fun f => (seen f, f.console.console.1.items)) =
    (run _ (record ((⟨items⟩ : Reader), t))).map fun f => (seen f, f.console.console.1.items)
  /-- Other interruptions make no difference. -/
  interruptions : ∀ items', calm items' = calm items →
    (run _ (record ((⟨items'⟩ : Reader), t))).map (fun f => (seen f, calm f.console.console.1.items)) =
      (run _ (record ((⟨items⟩ : Reader), t))).map fun f => (seen f, calm f.console.console.1.items)

variable {run : Runner σ}

theorem not_mem_of_answers {items : List Item} (h : ∀ w, .error w ∉ answers items) (text : String) : .fail text ∉ items :=
  fun hmem => h (.other text) (List.mem_filterMap.mpr ⟨_, hmem, rfl⟩)

/-- Sources that stay side by side and never part. -/
theorem Runner.Uniform.map_eq_of_next {ς ς' α : Type} [Source ς] [Source ς'] (h : run.Uniform) {S : ς → ς' → Prop}
    (hnext : ∀ s s', S s s' → Answers S Never (Source.next s) (Source.next s')) {left : ς → α} {left' : ς' → α}
    (hleft : ∀ s s', S s s' → left s = left' s') {s : ς} {s' : ς'} (hS : S s s') (t : τ) :
    (run _ (record (s, t))).map (fun f => (seen f, left f.console.console.1)) =
      (run _ (record (s', t))).map fun f => (seen f, left' f.console.console.1) := by
  have halike := h.alike (lockstep_of_next hnext) (⟨hS, rfl, rfl⟩ : (record (s, t)).Beside S (record (s', t)))
  refine halike.map_eq (fun _ _ hbad => hbad.1) fun result state r r' hR => ?_
  simp only [seen, hR.drain, hR.log, hleft _ _ hR.source]

/-- **Every uniform run follows scripts.** -/
theorem Runner.Uniform.follows (h : run.Uniform) (items : List Item) (t : τ) : run.Follows items t := by
  have halike := h.alike (lockstep_of_next next_ofItems)
    (⟨rfl, rfl, rfl⟩ : (record ((⟨items⟩ : Reader), t)).Beside (fun r s => s = Script.ofItems r.items)
      (record (Script.ofItems items, t)))
  have hconsumed : ∀ f, run _ (record ((⟨items⟩ : Reader), t)) = some f →
      Consumed items f.console.received f.console.console.1.items := fun f hf =>
    h.keeps (invariant_of_next fun (r : Reader) received (hr : Consumed items received r.items) => hr.next)
      Consumed.nothing hf
  exact {
    recorded := h.recorded
    underway := fun hnone => by
      rw [hnone] at halike
      generalize run _ (record (Script.ofItems items, t)) = other at halike ⊢
      cases halike
      rfl
    scripted := fun f hf hnone => by
      rw [hf] at halike
      generalize run _ (record (Script.ofItems items, t)) = other at halike ⊢
      cases halike with
      | ended result s hR => exact congrArg some (by simp only [seen, hR.drain, hR.log])
      | broken s _ hbad => exact absurd hbad.2 (hnone _)
    refused := fun f hf w hw => by
      obtain ⟨hresult, before, hreceived, hbefore⟩ := h.refused hf hw
      have hread := hconsumed f hf
      rw [hreceived] at hread
      obtain ⟨read, text, hitems, rfl, hw⟩ := hread.of_error
      exact ⟨hresult, read, text, hitems, not_mem_of_answers hbefore, hw⟩
    consumed := hconsumed
    lines := fun midLine => h.map_eq_of_next next_lines (fun _ _ hS => hS) rfl t
    interruptions := fun items' hcalm => h.map_eq_of_next next_calm (fun _ _ hS => hS) hcalm t }

/-- **Streams say what scripts say**, to an interpreter, to code and to an engine. -/
theorem runs_follow_script (items : List Item) (t : τ) :
    (∀ (m : Interpreter) (fuel : Nat) (source : String), Runner.Follows (fun _ _ k => m.run fuel source k) items t) ∧
      (∀ (code : Code) (fuel : Nat), Runner.Follows (fun _ _ k => code.run fuel k) items t) ∧
      ∀ (e : Engine) (fuel : Nat) (source : String), Runner.Follows (fun _ _ k => e.run fuel source k) items t := by
  refine ⟨fun m fuel source => ?_, fun code fuel => ?_, fun e fuel source => ?_⟩
  · exact (m.uniform_run fuel source).follows items t
  · exact (code.uniform_run fuel).follows items t
  · exact (e.uniform_run fuel source).follows items t

/-- A byte is copied, then an escape cancels or the stream fails; interruptions come in between, and a byte is left. -/
theorem runs_follow_script_cut :
    (∃ f, (Interpreter.idle ⟨4, 16⟩).run 9 (String.ofList [',', '.', ','])
        (record ((⟨[.interrupted, .byte 65, .interrupted, .byte escape, .byte 66]⟩ : Reader), ({} : Sink))) = some f ∧
      f.result = .ok .cancelled ∧ f.console.accepted = [65] ∧ f.console.console.1.items = [.byte 66] ∧
      ((Interpreter.idle ⟨4, 16⟩).run 9 (String.ofList [',', '.', ','])
        (record ((⟨[.byte 65, .cancel, .byte 66]⟩ : Script), ({} : Sink)))).map seen = some (seen f)) ∧
    ∃ f, (Interpreter.idle ⟨4, 16⟩).run 9 (String.ofList [',', '.', ','])
        (record ((⟨[.byte 65, .interrupted, .fail "", .byte 66]⟩ : Reader), ({} : Sink))) = some f ∧
      f.result = .error (.io (.other "")) ∧ f.console.console.1.items = [.byte 66] := by
  refine ⟨?_, ?_⟩
  · have hfollows := (runs_follow_script [.interrupted, .byte 65, .interrupted, .byte escape, .byte 66] ({} : Sink)).1
      (.idle ⟨4, 16⟩) 9 (String.ofList [',', '.', ','])
    refine ⟨_, rfl, rfl, rfl, rfl, hfollows.scripted _ rfl fun w hw => ?_⟩
    rcases List.mem_cons.mp hw with h | hw
    · cases h
    · cases List.mem_singleton.mp hw
  · have hfollows := (runs_follow_script [.byte 65, .interrupted, .fail "", .byte 66] ({} : Sink)).1 (.idle ⟨4, 16⟩) 9
      (String.ofList [',', '.', ','])
    exact ⟨_, rfl, (hfollows.refused _ rfl (.other "") (.tail _ (.head _))).1, rfl⟩

end Runs
end TapeLang
