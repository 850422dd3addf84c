import AieBaremetal.Common.Program

/-!
# What returned runs record

Of a trace only some entries may matter, and of a state only some part. Code is said to record
values if every run that returns adds just these values to the trace and keeps this part of the
state. Runs that block or fail are not constrained.
-/

namespace AieBaremetal.Common

namespace Program

variable {Ev Ans S A B V T : Type} {value : Ev → Option V} {part : S → T} {values more : List V}

/-- Every run that returns adds these values to the trace and keeps this part of the state. -/
def Records (value : Ev → Option V) (part : S → T) (values : List V) (p : Program Ev Ans S A) : Prop :=
  ∀ w a w', p w = (.returned a, w') →
    w'.trace.filterMap value = w.trace.filterMap value ++ values ∧ part w'.state = part w.state

theorem records_pure (a : A) : Records value part [] (pure a : Program Ev Ans S A) := by
  intro w b w' h
  cases h
  exact ⟨(List.append_nil _).symm, rfl⟩

variable {next : A → Program Ev Ans S B} {p : Program Ev Ans S A}

theorem Records.bind (hp : Records value part values p)
    (hnext : ∀ a, Records value part more (next a)) : Records value part (values ++ more) (p >>= next) := by
  intro w b w' h
  obtain ⟨a, w₁, hfirst, hsecond⟩ := exists_of_bind_returned h
  obtain ⟨htrace₁, hstate₁⟩ := hp w a w₁ hfirst
  obtain ⟨htrace₂, hstate₂⟩ := hnext a w₁ b w' hsecond
  exact ⟨by rw [htrace₂, htrace₁, List.append_assoc], hstate₂.trans hstate₁⟩

theorem Records.quiet (hp : Records value part [] p)
    (hnext : ∀ a, Records value part more (next a)) : Records value part more (p >>= next) :=
  hp.bind hnext

theorem Records.single {v : V} (hp : Records value part [v] p) (hnext : ∀ a, Records value part more (next a)) :
    Records value part (v :: more) (p >>= next) :=
  hp.bind hnext

theorem records_ask {record : Ans → Ev} {v : Option V} (hrecord : ∀ answer, value (record answer) = v) :
    Records value part v.toList (ask record : Program Ev Ans S Ans) := by
  intro w answer w' h
  obtain ⟨rest, -, rfl⟩ := exists_of_ask_returned h
  refine ⟨?_, rfl⟩
  rw [List.filterMap_append, List.filterMap_cons, hrecord answer]
  cases v with
  | none => rfl
  | some v => rfl

theorem records_getState : Records value part [] (getState : Program Ev Ans S S) := by
  intro w s w' h
  cases h
  exact ⟨(List.append_nil _).symm, rfl⟩

theorem records_modifyState {f : S → S} (hf : ∀ s, part (f s) = part s) :
    Records value part [] (modifyState f : Program Ev Ans S Unit) := by
  intro w u w' h
  cases h
  exact ⟨(List.append_nil _).symm, hf w.state⟩

theorem records_ofOption (o : Option A) : Records value part [] (ofOption o : Program Ev Ans S A) := by
  intro w a w' h
  obtain ⟨-, rfl⟩ := eq_of_ofOption_returned h
  exact ⟨(List.append_nil _).symm, rfl⟩

end Program

end AieBaremetal.Common
