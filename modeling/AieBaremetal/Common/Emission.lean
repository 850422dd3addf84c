import AieBaremetal.Common.Monitor
import AieBaremetal.Common.Program

/-!
# Programs whose state follows from their trace

Where every change of the state is an event, the state of a run is a function of the events since it
began. A program that asks for nothing is then the list of its events, and a program that asks is
described by the lists it may have produced when it returns and while it waits. What holds of all
runs is a statement about these lists.
-/

namespace AieBaremetal.Common

namespace Program

variable {Ev Ans S A B : Type} (step : S → Ev → S)

def emit (events : List Ev) : Program Ev Ans S Unit := fun w =>
  (.returned (), ⟨replay step w.state events, w.trace ++ events, w.script⟩)

theorem emit_nil : (emit step [] : Program Ev Ans S Unit) = pure () := by
  funext w
  change (Outcome.returned (), (⟨w.state, w.trace ++ [], w.script⟩ : World Ev Ans S)) = _
  rw [List.append_nil]
  rfl

theorem emit_then (events more : List Ev) (next : Unit → Program Ev Ans S A) :
    (emit step events >>= fun _ => emit step more >>= next) = emit step (events ++ more) >>= next := by
  funext w
  change next () _ = next () _
  rw [replay_append, List.append_assoc]

theorem emit_emit (events more : List Ev) :
    (emit step events >>= fun _ => emit step more : Program Ev Ans S Unit) = emit step (events ++ more) :=
  emit_then step events more pure

theorem emit_getState (events : List Ev) (next : S → Program Ev Ans S A) (w : World Ev Ans S) :
    (emit step events >>= fun _ => getState >>= next) w =
      (emit step events >>= fun _ => next (replay step w.state events)) w := rfl

theorem emit_then_apply {events more : List Ev} {p : Program Ev Ans S Unit} {w : World Ev Ans S}
    (h : p ⟨replay step w.state events, w.trace ++ events, w.script⟩ =
      emit step more ⟨replay step w.state events, w.trace ++ events, w.script⟩) (next : Unit → Program Ev Ans S A) :
    (emit step events >>= fun _ => p >>= next) w = (emit step (events ++ more) >>= next) w := by
  rw [← emit_then]
  change (p >>= next) _ = (emit step more >>= next) _
  rw [bind_apply, bind_apply, h]

theorem runAll_tell (f : B → Ev) (hkeeps : ∀ s b, step s (f b) = s) (list : List B) (next : Program Ev Ans S A) :
    (runAll (fun b => tell (f b)) list >>= fun _ => next) = emit step (list.map f) >>= fun _ => next := by
  induction list with
  | nil => rw [List.map_nil, emit_nil]; rfl
  | cons b rest ih =>
    have htell : (tell (f b) : Program Ev Ans S Unit) = emit step [f b] := by
      funext w
      change _ = (Outcome.returned (), (⟨step w.state (f b), w.trace ++ [f b], w.script⟩ : World Ev Ans S))
      rw [hkeeps]
      rfl
    have hsplit : (b :: rest).map f = [f b] ++ rest.map f := rfl
    rw [hsplit, ← emit_then, ← ih, runAll, htell]
    simp only [bind_assoc, pure_bind]

/-- A world that came from another one by some events. -/
structure Since (w₀ : World Ev Ans S) (events : List Ev) (w : World Ev Ans S) : Prop where
  state : w.state = replay step w₀.state events
  trace : w.trace = w₀.trace ++ events

variable {step} {w₀ w : World Ev Ans S} {events : List Ev} {mid : World Ev Ans S → Prop}

theorem since_start (w₀ : World Ev Ans S) : Since step w₀ [] w₀ := ⟨rfl, (List.append_nil _).symm⟩

theorem Since.append {w₁ : World Ev Ans S} {more : List Ev} (h : Since step w₀ events w₁)
    (hmore : Since step w₁ more w) :
    Since step w₀ (events ++ more) w :=
  ⟨by rw [hmore.state, h.state, replay_append], by rw [hmore.trace, h.trace, List.append_assoc]⟩

theorem triple_emit (more : List Ev) :
    Triple (Since step w₀ events) (emit step more) (fun _ => Since step w₀ (events ++ more)) mid :=
  fun _ h => h.append ⟨rfl, rfl⟩

theorem askUntil_blocked (record : Ans → Ev) {stop : Ans → Bool} {answers : List Ans}
    (h : ∀ a ∈ answers, stop a = false) (s : S) (trace : List Ev) :
    askUntil record stop ⟨s, trace, answers⟩ = (.blocked, ⟨s, trace ++ answers.map record, []⟩) := by
  have hfrom (w : World Ev Ans S) :
      askUntilFrom record stop answers w = (.blocked, ⟨w.state, w.trace ++ answers.map record, []⟩) := by
    induction answers generalizing w with
    | nil => rw [List.map_nil, List.append_nil]; rfl
    | cons a rest ih =>
      obtain ⟨ha, hrest⟩ := List.forall_mem_cons.mp h
      simp only [askUntilFrom, ha, ih hrest, List.append_assoc]
      rfl
  exact hfrom ⟨s, trace, answers⟩

section Questions

variable (record : Ans → Ev) (hkeeps : ∀ s a, step s (record a) = s)

include hkeeps

theorem Since.asked {answers : List Ans} (h : Since step w₀ (events ++ answers.map record) w)
    (a : Ans) (rest : List Ans) :
    Since step w₀ (events ++ (answers ++ [a]).map record)
      { w with trace := w.trace ++ [record a], script := rest } := by
  rw [List.map_append, ← List.append_assoc]
  exact h.append ⟨(hkeeps _ a).symm, rfl⟩

theorem triple_since_ask (hmid : ∀ w, Since step w₀ events w → mid w) :
    Triple (Since step w₀ events) (ask record) (fun a => Since step w₀ (events ++ [record a])) mid :=
  triple_ask record hmid fun w a _ h _ => h.append ⟨(hkeeps w.state a).symm, rfl⟩

theorem triple_since_askUntil {stop : Ans → Bool}
    (hmid : ∀ (answers : List Ans) w, (∀ a ∈ answers, stop a = false) →
      Since step w₀ (events ++ answers.map record) w → mid w) :
    Triple (Since step w₀ events) (askUntil record stop)
      (fun _ w => ∃ (answers : List Ans) (last : Ans), (∀ a ∈ answers, stop a = false) ∧ stop last = true ∧
        Since step w₀ (events ++ (answers ++ [last]).map record) w) mid := by
  refine (triple_askUntil record stop
    (fun w => ∃ answers, (∀ a ∈ answers, stop a = false) ∧ Since step w₀ (events ++ answers.map record) w)
      ?_).consequence
    (fun w h => ⟨[], nofun, by rwa [List.map_nil, List.append_nil]⟩) ?_ fun w h =>
      h.elim fun answers h => hmid _ w h.1 h.2
  · rintro w a rest ⟨answers, hall, h⟩ - hgo
    exact ⟨answers ++ [a], List.forall_mem_append.mpr ⟨hall, List.forall_mem_singleton.mpr hgo⟩,
      h.asked record hkeeps a rest⟩
  · rintro _ w ⟨w₁, last, ⟨answers, hall, h⟩, hstop, -, hw⟩
    rw [hw]
    exact ⟨answers, last, hall, hstop, h.asked record hkeeps last _⟩

end Questions

end Program

end AieBaremetal.Common
