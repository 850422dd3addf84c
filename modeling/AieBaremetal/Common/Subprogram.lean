import AieBaremetal.Common.Program

/-!
# Programs inside programs

A component with a state and events of its own is called from a larger program: it runs from a state
the caller chooses, on the caller's answers, its events are translated into the caller's, and its
final state is part of the result. What is said here about a run that does not return is said about
blocked and faulting runs alike.
-/

namespace AieBaremetal.Common

variable {Ev Ans S A B Ev' Ans' S' : Type}

/-- The world of a caller when a component stopped in `w₁`. -/
def World.resume (w : World Ev' Ans' S') (ev : Ev → List Ev') (w₁ : World Ev Ans S) : World Ev' Ans' S' where
  state := w.state
  trace := w.trace ++ w₁.trace.flatMap ev
  script := w.script.drop (w.script.length - w₁.script.length)

namespace Program

def runIn (ev : Ev → List Ev') (ans : Ans' → Ans) (s : S) (p : Program Ev Ans S A) : Program Ev' Ans' S' (A × S) :=
  fun w =>
    match p { state := s, trace := [], script := w.script.map ans } with
    | (.returned a, w₁) => (.returned (a, w₁.state), w.resume ev w₁)
    | (.blocked, w₁) => (.blocked, w.resume ev w₁)
    | (.fault, w₁) => (.fault, w.resume ev w₁)

/-- Run a component on a part of the caller's state and store it however the component ends. -/
def runWithin (ev : Ev → List Ev') (ans : Ans' → Ans) (s : S) (put : S → S' → S') (p : Program Ev Ans S A) :
    Program Ev' Ans' S' A :=
  fun w =>
    match p { state := s, trace := [], script := w.script.map ans } with
    | (outcome, w₁) => (outcome, { w.resume ev w₁ with state := put w₁.state w.state })

/-- Every run from `pre` that returns ends in `post`, every other one in `stop`. -/
def Leaves (pre : World Ev Ans S → Prop) (p : Program Ev Ans S A) (post : A → World Ev Ans S → Prop)
    (stop : World Ev Ans S → Prop) : Prop :=
  ∀ w, pre w →
    match p w with
    | (.returned a, w') => post a w'
    | (.blocked, w') => stop w'
    | (.fault, w') => stop w'

variable {pre : World Ev Ans S → Prop} {stop : World Ev Ans S → Prop}

variable {p : Program Ev Ans S A} {post : A → World Ev Ans S → Prop}

theorem Triple.leaves (h : Triple pre p post stop) :
    Leaves pre p post stop := by
  intro w hw
  have hrun := h w hw
  revert hrun
  rcases p w with ⟨outcome, w'⟩
  cases outcome with
  | returned a => exact id
  | blocked => exact id
  | fault => exact False.elim

theorem Leaves.consequence {pre' : World Ev Ans S → Prop}
    {post' : A → World Ev Ans S → Prop} {stop' : World Ev Ans S → Prop} (h : Leaves pre p post stop)
    (hpre : ∀ w, pre' w → pre w) (hpost : ∀ a w, post a w → post' a w) (hstop : ∀ w, stop w → stop' w) :
    Leaves pre' p post' stop' := by
  intro w hw
  have hrun := h w (hpre w hw)
  revert hrun
  rcases p w with ⟨outcome, w'⟩
  cases outcome with
  | returned a => exact hpost a w'
  | blocked => exact hstop w'
  | fault => exact hstop w'

theorem Leaves.of_returned (h : Leaves pre p post stop)
    {w w' : World Ev Ans S} {a : A} (hw : pre w) (hrun : p w = (.returned a, w')) : post a w' := by
  have hleaves := h w hw
  rwa [hrun] at hleaves

theorem Leaves.always (h : Leaves pre p (fun _ => stop) stop) {w : World Ev Ans S} (hw : pre w) :
    stop (p w).2 := by
  have hrun := h w hw
  revert hrun
  rcases p w with ⟨outcome, w'⟩
  cases outcome <;> exact id

theorem Leaves.bind {next : A → Program Ev Ans S B} {post' : B → World Ev Ans S → Prop} (h : Leaves pre p post stop)
    (hnext : ∀ a, Leaves (post a) (next a) post' stop) : Leaves pre (p >>= next) post' stop := by
  intro w hw
  have hrun := h w hw
  rw [bind_apply]
  revert hrun
  rcases p w with ⟨outcome, w'⟩
  cases outcome with
  | returned a => exact hnext a w'
  | blocked => exact id
  | fault => exact id

theorem leaves_getState : Leaves pre (getState : Program Ev Ans S S) (fun _ => pre) stop := fun _ h => h

theorem leaves_ofOption (o : Option A) (hstop : ∀ w, pre w → stop w) :
    Leaves pre (ofOption o : Program Ev Ans S A) (fun a w => pre w ∧ o = some a) stop := by
  cases o with
  | none => exact hstop
  | some a => exact fun w hw => ⟨hw, rfl⟩

theorem leaves_runAll {Op R : Type} (exec : Op → Program Ev Ans S R) {inv : World Ev Ans S → Prop} {ops : List Op}
    (hexec : ∀ op ∈ ops, Leaves inv (exec op) (fun _ => inv) stop) :
    Leaves inv (runAll exec ops) (fun _ => inv) stop := by
  induction ops with
  | nil => exact fun _ h => h
  | cons op rest ih =>
    have hrest := ih fun op hop => hexec op (List.mem_cons_of_mem _ hop)
    exact (hexec op List.mem_cons_self).bind fun _ => hrest.bind fun _ _ h => h

theorem leaves_runIn (ev : Ev → List Ev') (ans : Ans' → Ans) (s : S) {pre' : World Ev' Ans' S' → Prop}
    {post' : A × S → World Ev' Ans' S' → Prop}
    {stop' : World Ev' Ans' S' → Prop} (hp : Leaves (fun w => w.state = s ∧ w.trace = []) p post stop)
    (hpost : ∀ w a w₁, pre' w → post a w₁ → post' (a, w₁.state) (w.resume ev w₁))
    (hstop : ∀ w w₁, pre' w → stop w₁ → stop' (w.resume ev w₁)) :
    Leaves pre' (runIn ev ans s p) post' stop' := by
  intro w hw
  have hrun := hp { state := s, trace := [], script := w.script.map ans } ⟨rfl, rfl⟩
  unfold runIn
  revert hrun
  rcases p { state := s, trace := [], script := w.script.map ans } with ⟨outcome, w₁⟩
  cases outcome with
  | returned a => exact hpost w a w₁ hw
  | blocked => exact hstop w w₁ hw
  | fault => exact hstop w w₁ hw

theorem leaves_runWithin (ev : Ev → List Ev') (ans : Ans' → Ans) (s : S) (put : S → S' → S')
    {post₁ : A → World Ev Ans S → Prop} {stop₁ : World Ev Ans S → Prop} {pre' : World Ev' Ans' S' → Prop}
    {post : A → World Ev' Ans' S' → Prop} {stop' : World Ev' Ans' S' → Prop}
    (hp : Leaves (fun w => w.state = s ∧ w.trace = []) p post₁ stop₁)
    (hpost : ∀ w a w₁, pre' w → post₁ a w₁ → post a { w.resume ev w₁ with state := put w₁.state w.state })
    (hstop : ∀ w w₁, pre' w → stop₁ w₁ → stop' { w.resume ev w₁ with state := put w₁.state w.state }) :
    Leaves pre' (runWithin ev ans s put p) post stop' := by
  intro w hw
  have hrun := hp { state := s, trace := [], script := w.script.map ans } ⟨rfl, rfl⟩
  revert hrun
  unfold runWithin
  rcases p { state := s, trace := [], script := w.script.map ans } with ⟨outcome, w₁⟩
  cases outcome with
  | returned a => exact hpost w a w₁ hw
  | blocked => exact hstop w w₁ hw
  | fault => exact hstop w w₁ hw

end Program

end AieBaremetal.Common
