import Mathlib.Data.List.Basic

/-!
# Programs that put questions to an environment

A program runs in a world of its own state, the trace of everything it did and the script of answers
still to come. Asking consumes one answer and records it. A program whose script is used up is
blocked: it has not returned yet, and its world is what an observer sees at that moment. So all
scripts cover every environment and every point of time at which a question is open.

Undefined behaviour is a separate outcome. Triples are partial: they bound what a blocked run may
have done, exclude undefined behaviour, and do not promise that an answer ever comes.
-/

namespace AieBaremetal.Common

/-- A value, waiting for an answer, or undefined behaviour. -/
inductive Outcome (A : Type) where
  | returned (value : A)
  | blocked
  | fault
  deriving DecidableEq, Repr

/-- The program's state, what was done and the answers to come. -/
structure World (Ev Ans S : Type) where
  state : S
  trace : List Ev
  script : List Ans

/-- A computation over worlds that may block or fault. -/
def Program (Ev Ans S A : Type) := World Ev Ans S → Outcome A × World Ev Ans S

namespace Program

variable {Ev Ans S L A B : Type}

/-- Sequencing stops at the first part that blocks or faults. -/
instance : Monad (Program Ev Ans S) where
  pure a := fun w => (.returned a, w)
  bind p next := fun w =>
    match p w with
    | (.returned a, w') => next a w'
    | (.blocked, w') => (.blocked, w')
    | (.fault, w') => (.fault, w')

@[simp] theorem pure_apply (a : A) (w : World Ev Ans S) :
    (pure a : Program Ev Ans S A) w = (.returned a, w) := rfl

theorem bind_apply (p : Program Ev Ans S A) (next : A → Program Ev Ans S B) (w : World Ev Ans S) :
    (p >>= next) w =
      match p w with
      | (.returned a, w') => next a w'
      | (.blocked, w') => (.blocked, w')
      | (.fault, w') => (.fault, w') := rfl

instance : LawfulMonad (Program Ev Ans S) :=
  LawfulMonad.mk' _
    (by
      intro A p
      funext w
      change (p >>= fun a => pure a) w = p w
      rw [bind_apply]
      rcases p w with ⟨outcome, w'⟩
      cases outcome <;> rfl)
    (fun _ _ => rfl)
    (by
      intro A B C p next after
      funext w
      simp only [bind_apply]
      rcases p w with ⟨outcome, w'⟩
      cases outcome <;> rfl)

variable {Op R : Type} {a : A} {m n : ℕ} {next : A → Program Ev Ans S B} {p : Program Ev Ans S A}
  {w w' : World Ev Ans S}

theorem bind_of_returned (next : A → Program Ev Ans S B) (h : p w = (.returned a, w')) :
    (p >>= next) w = next a w' := by
  rw [bind_apply, h]

theorem exists_of_bind_returned {b : B}
    (h : (p >>= next) w = (.returned b, w')) : ∃ a w₀, p w = (.returned a, w₀) ∧ next a w₀ = (.returned b, w') := by
  rw [bind_apply] at h
  revert h
  rcases p w with ⟨outcome, w₀⟩
  cases outcome with
  | returned a => exact fun h => ⟨a, w₀, rfl, h⟩
  | blocked => exact fun h => nomatch h
  | fault => exact fun h => nomatch h

theorem exists_of_map_returned {f : A → B} {b : B}
    (h : ((f <$> p) w).1 = .returned b) : ∃ a, (p w).1 = .returned a ∧ f a = b := by
  rw [map_eq_pure_bind, bind_apply] at h
  revert h
  rcases p w with ⟨outcome, w'⟩
  cases outcome with
  | returned a => exact fun h => ⟨a, rfl, by injection h⟩
  | blocked => exact fun h => nomatch h
  | fault => exact fun h => nomatch h

/-- Put a question: record it with its answer, or block. -/
def ask (record : Ans → Ev) : Program Ev Ans S Ans := fun w =>
  match w.script with
  | [] => (.blocked, w)
  | a :: rest => (.returned a, { w with trace := w.trace ++ [record a], script := rest })

theorem exists_of_ask_returned {record : Ans → Ev} {w w' : World Ev Ans S} {a : Ans}
    (h : ask record w = (.returned a, w')) :
    ∃ rest, w.script = a :: rest ∧ w' = ⟨w.state, w.trace ++ [record a], rest⟩ := by
  rcases w with ⟨state, trace, _ | ⟨b, rest⟩⟩
  · exact nomatch h
  · cases h
    exact ⟨rest, rfl, rfl⟩

def tell (event : Ev) : Program Ev Ans S Unit := fun w =>
  (.returned (), { w with trace := w.trace ++ [event] })

/-- Read the program's own state. -/
def getState : Program Ev Ans S S := fun w => (.returned w.state, w)

theorem getState_bind (next : S → Program Ev Ans S A) (w : World Ev Ans S) :
    (getState >>= next) w = next w.state w := rfl

/-- Change the program's own state. -/
def modifyState (f : S → S) : Program Ev Ans S Unit := fun w =>
  (.returned (), { w with state := f w.state })

def undefined : Program Ev Ans S A := fun w => (.fault, w)

/-- A partial operation: undefined where it has no result. -/
def ofOption : Option A → Program Ev Ans S A
  | some a => pure a
  | none => undefined

/-- Repeat a question over the given answers until one stops the loop. -/
def askUntilFrom (record : Ans → Ev) (stop : Ans → Bool) :
    List Ans → World Ev Ans S → Outcome (List Ans) × World Ev Ans S
  | [], w => (.blocked, { w with script := [] })
  | a :: rest, w =>
    let w' := { w with trace := w.trace ++ [record a], script := rest }
    if stop a then (.returned [a], w')
    else
      match askUntilFrom record stop rest w' with
      | (.returned answers, w'') => (.returned (a :: answers), w'')
      | (.blocked, w'') => (.blocked, w'')
      | (.fault, w'') => (.fault, w'')

/-- The loop `do { ask } while (!stop)`, with every answer it got. -/
def askUntil (record : Ans → Ev) (stop : Ans → Bool) : Program Ev Ans S (List Ans) := fun w =>
  askUntilFrom record stop w.script w

/-- Repeat a question and a state change while the condition holds. -/
def whileAskFrom (continues : L → S → Bool) (record : Ans → Ev) (body : L → Ans → S → Option (L × S)) :
    List Ans → L → World Ev Ans S → Outcome L × World Ev Ans S
  | [], l, w => if continues l w.state then (.blocked, { w with script := [] }) else (.returned l, w)
  | a :: rest, l, w =>
    if continues l w.state then
      match body l a w.state with
      | some (l', s') =>
        whileAskFrom continues record body rest l'
          { state := s', trace := w.trace ++ [record a], script := rest }
      | none => (.fault, { w with trace := w.trace ++ [record a], script := rest })
    else (.returned l, w)

/-- The loop `while (continues) { ask; body }` with a local value. -/
def whileAsk (continues : L → S → Bool) (record : Ans → Ev)
    (body : L → Ans → S → Option (L × S)) (l : L) : Program Ev Ans S L := fun w =>
  whileAskFrom continues record body w.script l w

/-- Run calls one after another and collect their results. -/
def runAll {Op R : Type} (exec : Op → Program Ev Ans S R) : List Op → Program Ev Ans S (List R)
  | [] => pure []
  | op :: rest => do
    let r ← exec op
    let rs ← runAll exec rest
    pure (r :: rs)

theorem runAll_append (exec : Op → Program Ev Ans S R) (ops more : List Op) :
    runAll exec (ops ++ more) = (do
      let rs ← runAll exec ops
      let rs' ← runAll exec more
      pure (rs ++ rs')) := by
  induction ops with
  | nil => simp [runAll]
  | cons op rest ih => simp [runAll, ih]

theorem exists_of_runAll_append {exec : Op → Program Ev Ans S R} {ops more : List Op} {rs : List R}
    (h : runAll exec (ops ++ more) w = (.returned rs, w')) :
    ∃ rs₁ rs₂ w₀, runAll exec ops w = (.returned rs₁, w₀) ∧ runAll exec more w₀ = (.returned rs₂, w') ∧
      rs = rs₁ ++ rs₂ := by
  rw [runAll_append] at h
  obtain ⟨rs₁, w₀, hops, h⟩ := exists_of_bind_returned h
  obtain ⟨rs₂, w₁, hmore, h⟩ := exists_of_bind_returned h
  cases h
  exact ⟨rs₁, rs₂, w₀, hops, hmore, rfl⟩

/-- So many answers suffice to return, and no more are taken. -/
def AnsweredBy (n : ℕ) (p : Program Ev Ans S A) : Prop :=
  ∀ w, n ≤ w.script.length → ∃ a w', p w = (.returned a, w') ∧ w.script.length ≤ w'.script.length + n

theorem AnsweredBy.mono (h : AnsweredBy n p) (hle : n ≤ m) : AnsweredBy m p := by
  intro w hw
  obtain ⟨a, w', hrun, hlen⟩ := h w (Nat.le_trans hle hw)
  exact ⟨a, w', hrun, by omega⟩

theorem answeredBy_pure (n : ℕ) (a : A) : AnsweredBy n (pure a : Program Ev Ans S A) :=
  fun w _ => ⟨a, w, rfl, Nat.le_add_right _ _⟩

theorem answeredBy_ask (record : Ans → Ev) : AnsweredBy 1 (ask record : Program Ev Ans S Ans) := by
  rintro ⟨state, trace, _ | ⟨a, rest⟩⟩ h
  · exact absurd h (Nat.not_succ_le_zero 0)
  · exact ⟨a, _, rfl, Nat.le_refl _⟩

theorem AnsweredBy.bind {k : ℕ} (h : AnsweredBy n p)
    (hnext : ∀ a, AnsweredBy m (next a)) (hk : n + m ≤ k) : AnsweredBy k (p >>= next) := by
  intro w hw
  obtain ⟨a, w₁, hp, hlen₁⟩ := h w (by omega)
  obtain ⟨b, w₂, hb, hlen₂⟩ := hnext a w₁ (by omega)
  exact ⟨b, w₂, (bind_of_returned next hp).trans hb, by omega⟩

theorem answeredBy_tell (event : Ev) : AnsweredBy 0 (tell event : Program Ev Ans S Unit) :=
  fun _ _ => ⟨(), _, rfl, Nat.le_refl _⟩

theorem answeredBy_runAll {exec : Op → Program Ev Ans S R} (h : ∀ op, AnsweredBy n (exec op))
    (ops : List Op) : AnsweredBy (n * ops.length) (runAll exec ops) := by
  induction ops with
  | nil => exact answeredBy_pure _ _
  | cons op rest ih =>
    have hrest (r : R) : AnsweredBy (n * rest.length) (do
        let rs ← runAll exec rest
        pure (r :: rs)) := ih.bind (fun _ => answeredBy_pure 0 _) (Nat.le_refl _)
    refine (h op).bind hrest (Nat.le_of_eq ?_)
    rw [List.length_cons, Nat.mul_succ, Nat.add_comm]

/-- So many answers suffice not to block, though it may fault. -/
def UnblockedBy (n : ℕ) (p : Program Ev Ans S A) : Prop :=
  ∀ w, n ≤ w.script.length → (p w).1 ≠ .blocked ∧ w.script.length ≤ (p w).2.script.length + n

theorem AnsweredBy.unblockedBy (h : AnsweredBy n p) : UnblockedBy n p := by
  intro w hw
  obtain ⟨a, w', hrun, hlen⟩ := h w hw
  rw [hrun]
  exact ⟨nofun, hlen⟩

theorem unblockedBy_ofOption (o : Option A) : UnblockedBy 0 (ofOption o : Program Ev Ans S A) := by
  cases o with
  | none => exact fun _ _ => ⟨nofun, Nat.le_refl _⟩
  | some a => exact fun _ _ => ⟨nofun, Nat.le_refl _⟩

theorem UnblockedBy.bind {k : ℕ} (h : UnblockedBy n p)
    (hnext : ∀ a, UnblockedBy m (next a)) (hk : n + m ≤ k) : UnblockedBy k (p >>= next) := by
  intro w hw
  obtain ⟨hp, hlen⟩ := h w (by omega)
  rw [bind_apply]
  revert hp hlen
  rcases p w with ⟨outcome, w'⟩
  cases outcome with
  | returned a =>
    intro _ hlen
    change w.script.length ≤ w'.script.length + n at hlen
    obtain ⟨hrun, hrest⟩ := hnext a w' (by omega)
    exact ⟨hrun, by change w.script.length ≤ (next a w').2.script.length + k; omega⟩
  | blocked => exact fun h => absurd rfl h
  | fault =>
    intro _ hlen
    change w.script.length ≤ w'.script.length + n at hlen
    exact ⟨nofun, by change w.script.length ≤ w'.script.length + k; omega⟩

/-- No fault, `post` if the run returned and `mid` if it is blocked. -/
def Meets (post : A → World Ev Ans S → Prop) (mid : World Ev Ans S → Prop) :
    Outcome A × World Ev Ans S → Prop
  | (.returned a, w) => post a w
  | (.blocked, w) => mid w
  | (.fault, _) => False

/-- Every run from `pre` returns in `post` or blocks in `mid`, without a fault. -/
def Triple (pre : World Ev Ans S → Prop) (p : Program Ev Ans S A)
    (post : A → World Ev Ans S → Prop) (mid : World Ev Ans S → Prop) : Prop :=
  ∀ w, pre w → Meets post mid (p w)

/-- No run ends in undefined behaviour. -/
def Safe (p : Program Ev Ans S A) : Prop := ∀ w, (p w).1 ≠ .fault

/-- Every run ends in undefined behaviour. -/
def Faults (p : Program Ev Ans S A) : Prop := ∀ w, (p w).1 = .fault

theorem safe_pure (a : A) : Safe (pure a : Program Ev Ans S A) := fun _ h => nomatch h

theorem safe_ask (record : Ans → Ev) : Safe (ask record : Program Ev Ans S Ans) := by
  intro w
  unfold ask
  split <;> exact fun h => nomatch h

theorem safe_tell (event : Ev) : Safe (tell event : Program Ev Ans S Unit) := fun _ h => nomatch h

theorem Safe.bind (h : Safe p) (hnext : ∀ a, Safe (next a)) : Safe (p >>= next) := by
  intro w
  have hw := h w
  rw [bind_apply]
  revert hw
  rcases p w with ⟨outcome, w'⟩
  cases outcome with
  | returned a => exact fun _ => hnext a w'
  | blocked => exact fun _ h => nomatch h
  | fault => exact fun h => absurd rfl h

theorem Safe.map (h : Safe p) (f : A → B) : Safe (f <$> p) := by
  rw [map_eq_pure_bind]
  exact h.bind fun a => safe_pure (f a)

theorem Faults.bind (h : Faults p) (next : A → Program Ev Ans S B) :
    Faults (p >>= next) := by
  intro w
  have hw := h w
  rw [bind_apply]
  revert hw
  rcases p w with ⟨outcome, w'⟩
  cases outcome with
  | returned a => exact fun h => nomatch h
  | blocked => exact fun h => nomatch h
  | fault => exact fun _ => rfl

theorem faults_undefined : Faults (undefined : Program Ev Ans S A) := fun _ => rfl

@[simp] theorem ofOption_some (a : A) : (ofOption (some a) : Program Ev Ans S A) = pure a := rfl

theorem ofOption_bind {o : Option A} (h : o = some a) (next : A → Program Ev Ans S B) :
    (ofOption o >>= next : Program Ev Ans S B) = next a := by
  subst h
  rfl

theorem eq_of_ofOption_returned {o : Option A} (h : ofOption o w = (.returned a, w')) : o = some a ∧ w' = w := by
  cases o with
  | none => exact nomatch h
  | some b =>
    cases h
    exact ⟨rfl, rfl⟩

@[simp] theorem ofOption_none : (ofOption none : Program Ev Ans S A) = undefined := rfl

theorem askUntil_ne_fault (record : Ans → Ev) (stop : Ans → Bool) (w : World Ev Ans S) :
    (askUntil record stop w).1 ≠ .fault := by
  obtain ⟨state, trace, script⟩ := w
  induction script generalizing trace with
  | nil => exact nofun
  | cons a rest ih =>
    have hrest := ih (trace ++ [record a])
    simp only [askUntil, askUntilFrom] at hrest ⊢
    split
    · exact nofun
    · split
      · exact nofun
      · exact nofun
      · next hfault =>
        rw [hfault] at hrest
        exact absurd rfl hrest

theorem exists_of_askUntil_returned {record : Ans → Ev} {stop : Ans → Bool} {answers : List Ans}
    (h : askUntil record stop w = (.returned answers, w')) :
    w'.trace = w.trace ++ answers.map record ∧ w'.state = w.state ∧
      ∃ asked last, answers = asked ++ [last] ∧ stop last = true := by
  obtain ⟨state, trace, script⟩ := w
  induction script generalizing trace answers with
  | nil => cases h
  | cons a rest ih =>
    simp only [askUntil, askUntilFrom] at h
    split at h
    · next hstop =>
      cases h
      exact ⟨rfl, rfl, [], a, rfl, hstop⟩
    · split at h
      · next later w'' hrest =>
        cases h
        obtain ⟨htrace, hstate, asked, last, rfl, hlast⟩ := ih _ hrest
        refine ⟨?_, hstate, a :: asked, last, rfl, hlast⟩
        rw [htrace, List.append_assoc]
        rfl
      · cases h
      · cases h

theorem state_of_whileAsk_returned {continues : L → S → Bool} {record : Ans → Ev}
    {body : L → Ans → S → Option (L × S)} {inv : S → Prop}
    (hbody : ∀ l a s l' s', body l a s = some (l', s') → inv s → inv s') {l l' : L}
    (h : whileAsk continues record body l w = (.returned l', w')) (hw : inv w.state) : inv w'.state := by
  obtain ⟨state, trace, script⟩ := w
  induction script generalizing l state trace with
  | nil =>
    simp only [whileAsk, whileAskFrom] at h
    split at h
    · cases h
    · cases h
      exact hw
  | cons a rest ih =>
    simp only [whileAsk, whileAskFrom] at h
    split at h
    · split at h
      · rename_i hstep
        exact ih _ _ h (hbody _ _ _ _ _ hstep hw)
      · cases h
    · cases h
      exact hw

section Rules

variable {pre pre' : World Ev Ans S → Prop} {post post' : A → World Ev Ans S → Prop}
  {mid mid' : World Ev Ans S → Prop}

theorem Meets.imp {run : Outcome A × World Ev Ans S} (h : Meets post mid run)
    (hpost : ∀ a w, post a w → post' a w) (hmid : ∀ w, mid w → mid' w) : Meets post' mid' run := by
  revert h
  rcases run with ⟨outcome, w⟩
  cases outcome with
  | returned a => exact hpost a w
  | blocked => exact hmid w
  | fault => exact id

theorem Meets.always {run : Outcome A × World Ev Ans S} (h : Meets post mid run) {inv : World Ev Ans S → Prop}
    (hpost : ∀ a w, post a w → inv w) (hmid : ∀ w, mid w → inv w) : run.1 ≠ .fault ∧ inv run.2 := by
  revert h
  rcases run with ⟨outcome, w⟩
  cases outcome with
  | returned a => exact fun h => ⟨nofun, hpost a w h⟩
  | blocked => exact fun h => ⟨nofun, hmid w h⟩
  | fault => exact False.elim

theorem Triple.consequence (h : Triple pre p post mid) (hpre : ∀ w, pre' w → pre w)
    (hpost : ∀ a w, post a w → post' a w) (hmid : ∀ w, mid w → mid' w) : Triple pre' p post' mid' :=
  fun w hw => (h w (hpre w hw)).imp hpost hmid

theorem Triple.of_returned (h : Triple pre p post mid) (hw : pre w) (hrun : p w = (.returned a, w')) :
    post a w' := by
  have hmeets := h w hw
  rwa [hrun] at hmeets

theorem Triple.of_fact {fact : Prop} (h : fact → Triple pre p post mid) :
    Triple (fun w => pre w ∧ fact) p post mid := fun w hw => h hw.2 w hw.1

theorem Triple.bind {post' : B → World Ev Ans S → Prop} (h : Triple pre p post mid)
    (hnext : ∀ a, Triple (post a) (next a) post' mid) : Triple pre (p >>= next) post' mid := by
  intro w hw
  have hrun := h w hw
  rw [bind_apply]
  revert hrun
  rcases p w with ⟨outcome, w'⟩
  cases outcome with
  | returned a => exact hnext a w'
  | blocked => exact id
  | fault => exact id

theorem triple_ask (record : Ans → Ev) {post : Ans → World Ev Ans S → Prop} (hmid : ∀ w, pre w → mid w)
    (hpost : ∀ w a rest, pre w → w.script = a :: rest →
      post a { w with trace := w.trace ++ [record a], script := rest }) :
    Triple pre (ask record) post mid := by
  intro w hw
  unfold ask
  split
  · exact hmid w hw
  · rename_i a rest hscript
    exact hpost w a rest hw hscript

theorem triple_tell (event : Ev) {post : Unit → World Ev Ans S → Prop}
    (h : ∀ w, pre w → post () { w with trace := w.trace ++ [event] }) :
    Triple pre (tell event) post mid := h

theorem triple_getState {post : S → World Ev Ans S → Prop} (h : ∀ w, pre w → post w.state w) :
    Triple pre getState post mid := h

theorem triple_modifyState (f : S → S) {post : Unit → World Ev Ans S → Prop}
    (h : ∀ w, pre w → post () { w with state := f w.state }) :
    Triple pre (modifyState f) post mid := h

theorem triple_askUntil (record : Ans → Ev) (stop : Ans → Bool) (inv : World Ev Ans S → Prop)
    (hstep : ∀ w a rest, inv w → w.script = a :: rest → stop a = false →
      inv { w with trace := w.trace ++ [record a], script := rest }) :
    Triple inv (askUntil record stop) (fun _ w => ∃ w₀ a, inv w₀ ∧ stop a = true ∧ w₀.script = a :: w.script ∧
        w = { w₀ with trace := w₀.trace ++ [record a], script := w.script }) inv := by
  rintro ⟨state, trace, script⟩ hw
  induction script generalizing trace with
  | nil => exact hw
  | cons a rest ih =>
    simp only [askUntil, askUntilFrom]
    split
    · rename_i hstop
      exact ⟨_, a, hw, hstop, rfl, rfl⟩
    · rename_i hgo
      have hrest := ih _ (hstep _ a rest hw rfl (by simpa using hgo))
      simp only [askUntil] at hrest
      revert hrest
      rcases askUntilFrom record stop rest _ with ⟨outcome, w'⟩
      cases outcome <;> exact id

theorem triple_whileAsk (continues : L → S → Bool) (record : Ans → Ev)
    (body : L → Ans → S → Option (L × S)) (l : L) (inv : L → World Ev Ans S → Prop) (hmid : ∀ l w, inv l w → mid w)
    (hstep : ∀ l w a rest, inv l w → continues l w.state = true → w.script = a :: rest →
      ∃ l' s', body l a w.state = some (l', s') ∧
        inv l' { state := s', trace := w.trace ++ [record a], script := rest }) :
    Triple (inv l) (whileAsk continues record body l)
      (fun l' w => inv l' w ∧ continues l' w.state = false) mid := by
  rintro ⟨state, trace, script⟩ hw
  induction script generalizing l state trace with
  | nil =>
    simp only [whileAsk, whileAskFrom]
    split
    · exact hmid l _ hw
    · rename_i hstop
      exact ⟨hw, by simpa using hstop⟩
  | cons a rest ih =>
    simp only [whileAsk, whileAskFrom]
    split
    · rename_i hgo
      obtain ⟨l', s', hbody, hinv⟩ := hstep l _ a rest hw hgo rfl
      simp only [hbody]
      exact ih l' _ _ hinv
    · rename_i hstop
      exact ⟨hw, by simpa using hstop⟩

theorem triple_runAll (exec : Op → Program Ev Ans S R) {inv : World Ev Ans S → Prop} {ops : List Op}
    (hexec : ∀ op ∈ ops, Triple inv (exec op) (fun _ w => inv w) mid) :
    Triple inv (runAll exec ops) (fun _ w => inv w) mid := by
  induction ops with
  | nil => exact fun _ h => h
  | cons op rest ih =>
    have hrest := ih fun op hop => hexec op (List.mem_cons_of_mem _ hop)
    exact (hexec op List.mem_cons_self).bind fun _ => hrest.bind fun _ _ h => h

end Rules

section Frames

/-- A condition holds at the end of every run that begins with it, also a blocked one. -/
def Keeps (inv : World Ev Ans S → Prop) (p : Program Ev Ans S A) : Prop := Triple inv p (fun _ => inv) inv

variable {inv : World Ev Ans S → Prop}

theorem keeps_pure (a : A) : Keeps inv (pure a : Program Ev Ans S A) := fun _ h => h

theorem keeps_getState : Keeps inv (getState : Program Ev Ans S S) := fun _ h => h

theorem Keeps.bind (h : Keeps inv p) (hnext : ∀ a, Keeps inv (next a)) :
    Keeps inv (p >>= next) := Triple.bind h hnext

theorem keeps_ask (record : Ans → Ev)
    (h : ∀ w a rest, inv w → inv { w with trace := w.trace ++ [record a], script := rest }) :
    Keeps inv (ask record : Program Ev Ans S Ans) :=
  triple_ask record (fun _ hw => hw) fun w a rest hw _ => h w a rest hw

theorem keeps_askUntil (record : Ans → Ev) (stop : Ans → Bool)
    (h : ∀ w a rest, inv w → inv { w with trace := w.trace ++ [record a], script := rest }) :
    Keeps inv (askUntil record stop : Program Ev Ans S (List Ans)) := by
  refine (triple_askUntil record stop inv fun w a rest hw _ _ => h w a rest hw).consequence (fun _ hw => hw) ?_
    fun _ hw => hw
  rintro _ w ⟨w₀, a, hw₀, -, -, hw⟩
  rw [hw]
  exact h w₀ a _ hw₀

theorem keeps_whileAsk (continues : L → S → Bool) (record : Ans → Ev) (body : L → Ans → L) (l : L)
    (h : ∀ w a rest, inv w → inv { w with trace := w.trace ++ [record a], script := rest }) :
    Keeps inv (whileAsk continues record (fun l a s => some (body l a, s)) l : Program Ev Ans S L) := by
  refine (triple_whileAsk continues record _ l (fun _ => inv) (fun _ _ hw => hw) ?_).consequence (fun _ hw => hw)
    (fun _ _ hw => hw.1) fun _ hw => hw
  exact fun l w a rest hw _ _ => ⟨body l a, w.state, rfl, h w a rest hw⟩

end Frames

end Program

end AieBaremetal.Common
