import Mathlib.Data.List.Basic

/-!
# Watching a trace

An observer that keeps a state of its own and updates it at every event. What a trace must or
must not contain is said of each event together with the observer's state in front of it, so
assumptions about the outside world and guarantees about the program have the same shape.
-/

namespace AieBaremetal.Common

variable {M Ev : Type}

/-- The observer's state after a trace. -/
def replay (step : M → Ev → M) (m : M) (trace : List Ev) : M := trace.foldl step m

/-- A condition on event and observer holds all along a trace. -/
def Along (step : M → Ev → M) (holds : M → Ev → Prop) : M → List Ev → Prop
  | _, [] => True
  | m, e :: rest => holds m e ∧ Along step holds (step m e) rest

instance decidableAlong (step : M → Ev → M) (holds : M → Ev → Prop) [∀ m e, Decidable (holds m e)] :
    ∀ m trace, Decidable (Along step holds m trace)
  | _, [] => .isTrue trivial
  | m, e :: rest =>
    have := decidableAlong step holds (step m e) rest
    inferInstanceAs (Decidable (holds m e ∧ Along step holds (step m e) rest))

theorem replay_append (step : M → Ev → M) (m : M) (trace more : List Ev) :
    replay step m (trace ++ more) = replay step (replay step m trace) more :=
  List.foldl_append

@[simp] theorem replay_concat (step : M → Ev → M) (m : M) (trace : List Ev) (e : Ev) :
    replay step m (trace ++ [e]) = step (replay step m trace) e :=
  replay_append step m trace [e]

theorem replay_eq_self {step : M → Ev → M} {trace : List Ev} (h : ∀ e ∈ trace, ∀ m, step m e = m) (m : M) :
    replay step m trace = m := by
  induction trace with
  | nil => rfl
  | cons e rest ih =>
    obtain ⟨he, hrest⟩ := List.forall_mem_cons.mp h
    exact (congrArg (replay step · rest) (he m)).trans (ih hrest)

theorem along_append (step : M → Ev → M) (holds : M → Ev → Prop) (m : M) (trace more : List Ev) :
    Along step holds m (trace ++ more) ↔ Along step holds m trace ∧
    Along step holds (replay step m trace) more := by
  induction trace generalizing m with
  | nil => exact ⟨fun h => ⟨trivial, h⟩, fun h => h.2⟩
  | cons e rest ih =>
    rw [List.cons_append, Along, Along, ih, and_assoc]
    rfl

@[simp] theorem along_concat (step : M → Ev → M) (holds : M → Ev → Prop) (m : M) (trace : List Ev) (e : Ev) :
    Along step holds m (trace ++ [e]) ↔ Along step holds m trace ∧ holds (replay step m trace) e := by
  rw [along_append]
  exact and_congr_right fun _ => ⟨fun h => h.1, fun h => ⟨h, trivial⟩⟩

/-- A trace takes the observer from one property to another. -/
def Passes (step : M → Ev → M) (holds : M → Ev → Prop) (P : M → Prop) (trace : List Ev) (Q : M → Prop) : Prop :=
  ∀ m, P m → Along step holds m trace ∧ Q (replay step m trace)

section Passes

variable {step : M → Ev → M} {holds : M → Ev → Prop} {P Q R : M → Prop} {trace more : List Ev}

theorem Passes.append (h : Passes step holds P trace Q) (hmore : Passes step holds Q more R) :
    Passes step holds P (trace ++ more) R := by
  intro m hm
  obtain ⟨halong, hQ⟩ := h m hm
  rw [along_append, replay_append]
  obtain ⟨halong', hR⟩ := hmore _ hQ
  exact ⟨⟨halong, halong'⟩, hR⟩

theorem Passes.imp {P' Q' : M → Prop} (h : Passes step holds P trace Q) (hpre : ∀ m, P' m → P m)
    (hpost : ∀ m, Q m → Q' m) :
    Passes step holds P' trace Q' := fun m hm => (h m (hpre m hm)).imp_right (hpost _)

theorem passes_of_step (h : ∀ e ∈ trace, ∀ m, P m → holds m e ∧ P (step m e)) : Passes step holds P trace P := by
  induction trace with
  | nil => exact fun m hm => ⟨trivial, hm⟩
  | cons e rest ih =>
    obtain ⟨he, hrest⟩ := List.forall_mem_cons.mp h
    intro m hm
    obtain ⟨hholds, hstep⟩ := he m hm
    obtain ⟨halong, hend⟩ := ih hrest _ hstep
    exact ⟨⟨hholds, halong⟩, hend⟩

end Passes

theorem along_iff {step : M → Ev → M} {holds first second : M → Ev → Prop}
    (hiff : ∀ m e, holds m e → (first m e ↔ second m e)) {m : M} {trace : List Ev}
    (h : Along step holds m trace) : Along step first m trace ↔ Along step second m trace := by
  induction trace generalizing m with
  | nil => exact Iff.rfl
  | cons e rest ih => exact and_congr (hiff m e h.1) (ih h.2)

end AieBaremetal.Common
