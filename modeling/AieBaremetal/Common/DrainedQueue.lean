import Mathlib.Data.List.Induction
import Mathlib.Data.List.Perm.Basic

/-!
# Work that is collected from one queue

Work is started under a key and put in a queue, even if starting it failed. A wait for a key may
observe that its work is done, and it may drain the queue. By a second account only a wait that
observes a key done collects, and what it collects is the started work of this key. The two agree
exactly when nothing else is in the queue at any wait that drains it, and nothing is missed by
a wait that does not.
-/

namespace AieBaremetal.Common

section Prefixes

variable {A : Type} {Q : List A → A → Prop}

/-- A property of every element and the list before it. -/
def AtEach (Q : List A → A → Prop) (as : List A) : Prop := ∀ before a after, as = before ++ a :: after → Q before a

theorem atEach_nil : AtEach Q [] := by
  intro before a after h
  exact absurd h (by simp)

theorem atEach_snoc {as : List A} {a : A} : AtEach Q (as ++ [a]) ↔ AtEach Q as ∧ Q as a := by
  constructor
  · intro h
    refine ⟨fun before b after hsplit => h before b (after ++ [a]) ?_, h as a [] rfl⟩
    rw [hsplit, List.append_assoc, List.cons_append]
  · rintro ⟨has, ha⟩ before b after hsplit
    obtain rfl | ⟨earlier, last, rfl⟩ := List.eq_nil_or_concat after
    · obtain ⟨rfl, hlast⟩ := List.append_inj' hsplit rfl
      cases hlast
      exact ha
    · rw [List.concat_eq_append, ← List.cons_append, ← List.append_assoc] at hsplit
      exact has before b earlier (List.append_inj' hsplit rfl).1

end Prefixes

/-- Starting work, or waiting for a key. -/
inductive QueueCall (K E : Type) where
  | start (key : K) (entry : E) (started : Bool)
  | wait (key : K) (observed drains : Bool) (collected : List E)

structure QueueItem (K E : Type) where
  key : K
  entry : E
  started : Bool

section Accounts

variable {K E : Type} {calls : List (QueueCall K E)} {call : QueueCall K E}

def queueStep (queue : List (QueueItem K E)) : QueueCall K E → List (QueueItem K E)
  | .start key entry started => queue ++ [⟨key, entry, started⟩]
  | .wait _ _ drains _ => if drains then [] else queue

def queued (calls : List (QueueCall K E)) : List (QueueItem K E) := calls.foldl queueStep []

theorem queued_snoc : queued (calls ++ [call]) = queueStep (queued calls) call := by
  simp only [queued, List.foldl_append, List.foldl_cons, List.foldl_nil]

/-- A wait collects what it drains. -/
def CollectsQueue (calls : List (QueueCall K E)) : Prop :=
  AtEach (fun before call =>
    match call with
    | .start _ _ _ => True
    | .wait _ _ drains collected => collected = if drains then (queued before).map QueueItem.entry else []) calls

def startedItems (queue : List (QueueItem K E)) : List (K × E) :=
  (queue.filter QueueItem.started).map fun item => (item.key, item.entry)

variable [DecidableEq K]

/-- Started work that is not collected yet, after a call. -/
def owedStep (owed : List (K × E)) : QueueCall K E → List (K × E)
  | .start key entry started => if started then owed ++ [(key, entry)] else owed
  | .wait key observed _ _ => if observed then owed.filter fun item => item.1 ≠ key else owed

/-- The started work that is not collected after calls. -/
def owed (calls : List (QueueCall K E)) : List (K × E) := calls.foldl owedStep []

/-- A wait collects once what is owed of a key it observes done. -/
def CollectsOwed (calls : List (QueueCall K E)) : Prop :=
  AtEach (fun before call =>
    match call with
    | .start _ _ _ => True
    | .wait key observed _ collected =>
      collected.Perm (if observed then ((owed before).filter fun item => item.1 = key).map Prod.snd else [])) calls

/-- A wait that drains finds only started work of a key it observes done; any other observes no key with started
work. -/
def WaitsForQueue (calls : List (QueueCall K E)) : Prop :=
  AtEach (fun before call =>
    match call with
    | .start _ _ _ => True
    | .wait key observed drains _ =>
      if drains then ∀ item ∈ queued before, observed = true ∧ item.started = true ∧ item.key = key
      else observed = true → ∀ item ∈ queued before, item.started = true → item.key ≠ key) calls

theorem owed_snoc : owed (calls ++ [call]) = owedStep (owed calls) call := by
  simp only [owed, List.foldl_append, List.foldl_cons, List.foldl_nil]

/-- As long as waits fit the queue, what is owed is the started work in it. -/
theorem owed_eq_startedItems (h : WaitsForQueue calls) : owed calls = startedItems (queued calls) := by
  induction calls using List.reverseRecOn with
  | nil => rfl
  | append_singleton calls call ih =>
    obtain ⟨hcalls, hcall⟩ := atEach_snoc.mp h
    rw [owed_snoc, queued_snoc, ih hcalls]
    cases call with
    | start key entry started => cases started <;> simp [owedStep, queueStep, startedItems]
    | wait key observed drains collected =>
      cases drains with
      | true =>
        simp only [if_true] at hcall
        have hnothing : (if observed then (startedItems (queued calls)).filter fun item => item.1 ≠ key
            else startedItems (queued calls)) = [] := by
          cases observed with
          | true =>
            simp only [if_true, startedItems, List.filter_eq_nil_iff, List.mem_map, List.mem_filter]
            rintro _ ⟨item, ⟨hitem, -⟩, rfl⟩
            simp [(hcall item hitem).2.2]
          | false =>
            have hempty : queued calls = [] := List.eq_nil_iff_forall_not_mem.mpr fun item hitem =>
              Bool.false_ne_true (hcall item hitem).1
            rw [hempty]
            rfl
        exact hnothing
      | false =>
        simp only [Bool.false_eq_true, if_false] at hcall
        cases observed with
        | true =>
          simp only [owedStep, queueStep, if_true, Bool.false_eq_true, if_false, startedItems]
          rw [List.filter_eq_self]
          simp only [List.mem_map, List.mem_filter]
          rintro _ ⟨item, ⟨hitem, hstarted⟩, rfl⟩
          simpa using hcall rfl item hitem hstarted
        | false => rfl

theorem map_snd_filter_startedItems (queue : List (QueueItem K E)) (key : K) :
    ((startedItems queue).filter fun item => item.1 = key).map Prod.snd =
      (queue.filter fun item => item.started && decide (item.key = key)).map QueueItem.entry := by
  rw [startedItems, List.filter_map, List.filter_filter, List.map_map]
  congr 1
  exact List.filter_congr fun item _ => Bool.and_comm _ _

theorem perm_collected_iff (queue : List (QueueItem K E)) (key : K) (observed drains : Bool) :
    (if drains then queue.map QueueItem.entry else []).Perm
        (if observed then ((startedItems queue).filter fun item => item.1 = key).map Prod.snd else []) ↔
      if drains then ∀ item ∈ queue, observed = true ∧ item.started = true ∧ item.key = key
      else observed = true → ∀ item ∈ queue, item.started = true → item.key ≠ key := by
  rw [map_snd_filter_startedItems]
  cases drains with
  | true =>
    simp only [if_true]
    cases observed with
    | true =>
      simp only [if_true, true_and]
      constructor
      · intro hperm
        have hlength := hperm.length_eq
        rw [List.length_map, List.length_map] at hlength
        have hall := List.length_filter_eq_length_iff.mp hlength.symm
        exact fun item hitem => by simpa using hall item hitem
      · intro hall
        rw [List.filter_eq_self.mpr fun item hitem => by simpa using hall item hitem]
    | false =>
      simp only [Bool.false_eq_true, if_false, false_and, imp_false, List.perm_nil, List.map_eq_nil_iff]
      exact List.eq_nil_iff_forall_not_mem
  | false =>
    simp only [Bool.false_eq_true, if_false, List.nil_perm]
    cases observed with
    | true =>
      simp only [if_true, List.map_eq_nil_iff, List.filter_eq_nil_iff, true_imp_iff]
      exact forall₂_congr fun item _ => by simp
    | false => simp

theorem collectsOwed_iff (h : CollectsQueue calls) : CollectsOwed calls ↔ WaitsForQueue calls := by
  induction calls using List.reverseRecOn with
  | nil => exact iff_of_true atEach_nil atEach_nil
  | append_singleton calls call ih =>
    obtain ⟨hcalls, hcall⟩ := atEach_snoc.mp h
    rw [CollectsOwed, WaitsForQueue, atEach_snoc, atEach_snoc]
    refine (and_congr_left' (ih hcalls)).trans (and_congr_right fun hwaits => ?_)
    cases call with
    | start key entry started => exact Iff.rfl
    | wait key observed drains collected =>
      simp only [] at hcall ⊢
      rw [hcall, owed_eq_startedItems hwaits]
      exact perm_collected_iff _ _ _ _

end Accounts

end AieBaremetal.Common
