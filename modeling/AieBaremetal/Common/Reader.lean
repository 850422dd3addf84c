import AieBaremetal.Common.ByteMemory
import Mathlib.Algebra.Ring.Int.Defs
import Mathlib.Tactic.Ring

/-!
# Reading through a moving cursor

A reader takes values from a memory at a cursor and moves the cursor, or fails. The memory has no
edges: outside the string of interest are some values too. `Reads p vs a` says that wherever the
memory holds `vs`, the reader `p` gives `a` and stops right behind `vs`. It composes along the code
of a reader, and a loop visits exactly the boundaries of the chunks the string consists of.
-/

namespace AieBaremetal.Common

/-- A computation over a memory and a cursor. -/
def Reader (V E A : Type) := (ℤ → V) → ℤ → Except E (A × ℤ)

namespace Reader

variable {V E A B : Type}

instance : Monad (Reader V E) where
  pure a := fun _ cursor => .ok (a, cursor)
  bind p f := fun mem cursor =>
    match p mem cursor with
    | .error e => .error e
    | .ok (a, next) => f a mem next

def fail (e : E) : Reader V E A := fun _ _ => .error e

def position : Reader V E ℤ := fun _ cursor => .ok (cursor, cursor)

def move (offset : ℤ) : Reader V E Unit := fun _ cursor => .ok ((), cursor + offset)

def take (n : ℕ) : Reader V E (List V) := fun mem cursor =>
  .ok (load mem (fun i => cursor + i) n, cursor + n)

def times (p : Reader V E A) : ℕ → Reader V E (List A)
  | 0 => pure []
  | n + 1 => do
    let a ← p
    let rest ← times p n
    pure (a :: rest)

/-- Read, and remember where the cursor stands afterwards. -/
def marked (p : Reader V E A) : Reader V E (A × ℤ) := do
  let a ← p
  let cursor ← position
  pure (a, cursor)

/-- Read while a test of the cursor passes; `stuck` if the fuel is used up. -/
def readWhile (more : ℤ → Bool) (p : Reader V E A) (stuck : E) : ℕ → Reader V E (List A)
  | 0 => fail stuck
  | fuel + 1 => do
    let cursor ← position
    if more cursor then do
      let a ← p
      let rest ← readWhile more p stuck fuel
      pure (a :: rest)
    else pure []

def Holds (mem : ℤ → V) (cursor : ℤ) (vs : List V) : Prop := load mem (fun i => cursor + i) vs.length = vs

/-- Wherever the string stands, the reader gives the value and stops behind it. -/
def Reads (p : Reader V E A) (vs : List V) (a : A) : Prop :=
  ∀ mem cursor, Holds mem cursor vs → p mem cursor = .ok (a, cursor + vs.length)

/-- The reader gives a value with a property and stops behind the string. -/
def ReadsTo (p : Reader V E A) (vs : List V) (post : A → Prop) : Prop := ∃ a, Reads p vs a ∧ post a

/-- The reader ends as given: behind the string or with a failure. -/
def Runs (p : Reader V E A) (vs : List V) (result : Except E A) : Prop :=
  ∀ mem cursor, Holds mem cursor vs → p mem cursor = result.map fun a => (a, cursor + vs.length)

/-- The reader goes on behind the string as another one. -/
def Leads (p : Reader V E A) (vs : List V) (q : Reader V E A) : Prop :=
  ∀ mem cursor, Holds mem cursor vs → p mem cursor = q mem (cursor + vs.length)

/-- The reader goes from chunk to chunk and gives the values. -/
inductive ReadsFrom (p : Reader V E A) (mem : ℤ → V) : ℤ → List (List V) → List A → Prop
  | nil (cursor : ℤ) : ReadsFrom p mem cursor [] []
  | cons {cursor : ℤ} {chunk : List V} {chunks : List (List V)} {a : A} {as : List A}
      (hfirst : p mem cursor = .ok (a, cursor + chunk.length))
      (hrest : ReadsFrom p mem (cursor + chunk.length) chunks as) :
        ReadsFrom p mem cursor (chunk :: chunks) (a :: as)

/-- The cursors right behind each of several chunks. -/
def boundaries : ℤ → List (List V) → List ℤ
  | _, [] => []
  | start, chunk :: rest => (start + chunk.length) :: boundaries (start + chunk.length) rest

variable {a : A} {as : List A} {back front vs : List V} {chunks : List (List V)} {cursor : ℤ}
  {f : A → Reader V E B} {fuel : ℕ} {mem : ℤ → V} {more : ℤ → Bool} {p : Reader V E A}

theorem holds_append :
    Holds mem cursor (front ++ back) ↔ Holds mem cursor front ∧ Holds mem (cursor + front.length) back := by
  have hcell : (fun i : ℕ => cursor + ((front.length + i : ℕ) : ℤ)) = fun i : ℕ => cursor + front.length + i := by
    funext i
    rw [Nat.cast_add, add_assoc]
  rw [Holds, Holds, Holds, ← hcell]
  exact contains_append

theorem holds_chunk {width : ℕ}
    (hwidth : ∀ chunk ∈ chunks, chunk.length = width) (h : Holds mem cursor chunks.flatten) {k : ℕ} {chunk : List V}
    (hk : chunks[k]? = some chunk) : Holds mem (cursor + width * k) chunk := by
  induction chunks generalizing cursor k with
  | nil => exact absurd hk (by simp)
  | cons first rest ih =>
    obtain ⟨hfirst, hrest⟩ := holds_append.mp h
    rw [hwidth first List.mem_cons_self] at hrest
    cases k with
    | zero =>
      obtain rfl : first = chunk := by simpa using hk
      simpa using hfirst
    | succ k =>
      have hlater := ih (fun c hc => hwidth c (List.mem_cons_of_mem _ hc)) hrest (by simpa using hk)
      rwa [add_assoc, show (width : ℤ) + width * k = width * (k + 1 : ℕ) by push_cast; ring] at hlater

theorem holds_store (mem : ℤ → V) (vs : List V) : Holds (store mem (fun i => (i : ℤ)) vs) 0 vs := by
  simp only [Holds, zero_add]
  apply load_store
  intro i _ j _ heq
  exact Int.ofNat.inj heq

theorem bind_of_ok {next : ℤ} (f : A → Reader V E B)
    (h : p mem cursor = .ok (a, next)) : (p >>= f) mem cursor = f a mem next := by
  simp only [Bind.bind, h]

theorem bind_of_error {e : E} (f : A → Reader V E B)
    (h : p mem cursor = .error e) : (p >>= f) mem cursor = .error e := by
  simp only [Bind.bind, h]

theorem bind_bind {C : Type} (p : Reader V E A) (f : A → Reader V E B) (g : B → Reader V E C) :
    (p >>= f) >>= g = p >>= fun a => f a >>= g := by
  funext mem cursor
  cases hp : p mem cursor with
  | error e => rw [bind_of_error _ hp, bind_of_error _ (bind_of_error _ hp)]
  | ok result =>
    rw [bind_of_ok _ hp]
    simp only [Bind.bind, hp]

theorem pure_then (a : A) (f : A → Reader V E B) : (Pure.pure a : Reader V E A) >>= f = f a := rfl

theorem exists_of_bind_ok {stop : ℤ} {b : B} (h : (p >>= f) mem cursor = .ok (b, stop)) :
    ∃ a next, p mem cursor = .ok (a, next) ∧ f a mem next = .ok (b, stop) := by
  cases hp : p mem cursor with
  | error e =>
    rw [bind_of_error f hp] at h
    exact absurd h (by simp)
  | ok result =>
    rw [bind_of_ok f hp] at h
    exact ⟨result.1, result.2, rfl, h⟩

theorem marked_of_ok {next : ℤ} (h : p mem cursor = .ok (a, next)) : marked p mem cursor = .ok ((a, next), next) :=
  bind_of_ok _ h

theorem Reads.pure (a : A) : Reads (Pure.pure a : Reader V E A) [] a := by
  intro mem cursor _
  simp [Pure.pure]

theorem Reads.bind_runs {result : Except E B}
    (hp : Reads p front a) (hf : Runs (f a) back result) : Runs (p >>= f) (front ++ back) result := by
  intro mem cursor hmem
  obtain ⟨hfront, hback⟩ := holds_append.mp hmem
  rw [bind_of_ok f (hp mem cursor hfront), hf mem _ hback, List.length_append, Nat.cast_add, add_assoc]

theorem Runs.reads (h : Runs p vs (.ok a)) : Reads p vs a := h

theorem Reads.runs (h : Reads p vs a) : Runs p vs (.ok a) := h

theorem Reads.bind {b : B} (hp : Reads p front a) (hf : Reads (f a) back b) : Reads (p >>= f) (front ++ back) b :=
  (hp.bind_runs hf.runs).reads

theorem ReadsTo.pure {post : A → Prop} (h : post a) :
    ReadsTo (Pure.pure a : Reader V E A) [] post := ⟨a, Reads.pure a, h⟩

theorem ReadsTo.bind {post : A → Prop} {post' : B → Prop} (hp : ReadsTo p front post)
    (hf : ∀ a, post a → ReadsTo (f a) back post') : ReadsTo (p >>= f) (front ++ back) post' := by
  obtain ⟨a, ha, hpost⟩ := hp
  obtain ⟨b, hb, hpost'⟩ := hf a hpost
  exact ⟨b, ha.bind hb, hpost'⟩

theorem Leads.refl (q : Reader V E A) : Leads q [] q := by
  intro mem cursor _
  simp

theorem Reads.bind_leads {q : Reader V E B}
    (hp : Reads p front a) (hf : Leads (f a) back q) : Leads (p >>= f) (front ++ back) q := by
  intro mem cursor hmem
  obtain ⟨hfront, hback⟩ := holds_append.mp hmem
  rw [bind_of_ok f (hp mem cursor hfront), hf mem _ hback, List.length_append, Nat.cast_add, add_assoc]

theorem Leads.reads {q : Reader V E A} (h : Leads p front q) (hq : Reads q back a) :
    Reads p (front ++ back) a := by
  intro mem cursor hmem
  obtain ⟨hfront, hback⟩ := holds_append.mp hmem
  rw [h mem cursor hfront, hq mem _ hback, List.length_append, Nat.cast_add, add_assoc]

theorem Reads.map {f : A → B} (hp : Reads p vs a) :
    Reads (p >>= fun a => Pure.pure (f a)) vs (f a) := by
  intro mem cursor hmem
  rw [bind_of_ok _ (hp mem cursor hmem)]
  rfl

theorem reads_take (vs : List V) : Reads (take vs.length : Reader V E (List V)) vs vs := by
  intro mem cursor hmem
  rw [take, hmem]

theorem readsFrom_of_forall₂ (h : List.Forall₂ (Reads p) chunks as) (hmem : Holds mem cursor chunks.flatten) :
    ReadsFrom p mem cursor chunks as := by
  induction h generalizing cursor with
  | nil => exact .nil cursor
  | cons hchunk _ ih =>
    obtain ⟨hfront, hback⟩ := holds_append.mp hmem
    exact .cons (hchunk mem cursor hfront) (ih hback)

theorem ReadsFrom.marked (h : ReadsFrom p mem cursor chunks as) :
    ReadsFrom p.marked mem cursor chunks (as.zip (boundaries cursor chunks)) := by
  induction h with
  | nil cursor => exact .nil cursor
  | cons hfirst _ ih => exact .cons (marked_of_ok hfirst) ih

theorem ReadsFrom.times (h : ReadsFrom p mem cursor chunks as) :
    p.times chunks.length mem cursor = .ok (as, cursor + chunks.flatten.length) := by
  induction h with
  | nil cursor => simp [Reader.times, Pure.pure]
  | cons hfirst _ ih =>
    rw [List.length_cons, Reader.times, bind_of_ok _ hfirst, bind_of_ok _ ih]
    simp [Pure.pure, add_assoc]

theorem reads_times (h : List.Forall₂ (Reads p) chunks as) : Reads (p.times chunks.length) chunks.flatten as := by
  intro mem cursor hmem
  exact (readsFrom_of_forall₂ h hmem).times

/-- A turn of a loop that goes on. -/
theorem readWhile_of_more {stuck : E} (h : more cursor = true) :
    readWhile more p stuck (fuel + 1) mem cursor =
      (p >>= fun a => readWhile more p stuck fuel >>= fun rest => Pure.pure (a :: rest)) mem cursor := by
  change (if more cursor then _ else _ : Reader V E (List A)) mem cursor = _
  rw [if_pos h]

/-- The end of a loop. -/
theorem readWhile_of_end {stuck : E} (h : more cursor = false) :
    readWhile more p stuck (fuel + 1) mem cursor = .ok ([], cursor) := by
  change (if more cursor then _ else _ : Reader V E (List A)) mem cursor = _
  rw [if_neg (by simpa using h)]
  rfl

theorem ReadsFrom.readWhile (h : ReadsFrom p mem cursor chunks as) (stuck : E) (hne : ∀ chunk ∈ chunks, chunk ≠ [])
    (hmore : ∀ c, cursor ≤ c → c < cursor + chunks.flatten.length → more c = true)
    (hend : more (cursor + chunks.flatten.length) = false) (hfuel : chunks.length < fuel) :
    Reader.readWhile more p stuck fuel mem cursor = .ok (as, cursor + chunks.flatten.length) := by
  induction h generalizing fuel with
  | nil cursor =>
    obtain ⟨fuel, rfl⟩ := Nat.exists_eq_succ_of_ne_zero (Nat.ne_zero_of_lt hfuel)
    simpa using readWhile_of_end (by simpa using hend)
  | @cons cursor chunk chunks a as hfirst _ ih =>
    obtain ⟨fuel, rfl⟩ := Nat.exists_eq_succ_of_ne_zero (Nat.ne_zero_of_lt hfuel)
    have hpos : 0 < chunk.length := List.length_pos_iff.mpr (hne chunk List.mem_cons_self)
    have hlength : ((chunk :: chunks).flatten.length : ℤ) = chunk.length + chunks.flatten.length := by simp
    rw [hlength] at hmore hend
    have hrest := ih (fun c hc => hne c (List.mem_cons_of_mem _ hc))
      (fun c hc hlt => hmore c (by omega) (by omega)) (by rw [add_assoc]; exact hend) (Nat.lt_of_succ_lt_succ hfuel)
    rw [readWhile_of_more (hmore cursor (Int.le_refl cursor) (by omega)), bind_of_ok _ hfirst, bind_of_ok _ hrest]
    simp [Pure.pure, add_assoc]

theorem readWhile_cons_ok {stuck : E} {stop : ℤ}
    (h : Reader.readWhile more p stuck fuel mem cursor = .ok (a :: as, stop)) :
    ∃ rest next, p mem cursor = .ok (a, next) ∧ Reader.readWhile more p stuck rest mem next = .ok (as, stop) := by
  cases fuel with
  | zero => exact absurd h (by simp [Reader.readWhile, fail])
  | succ rest =>
    cases hmore : more cursor with
    | true =>
      rw [readWhile_of_more hmore] at h
      obtain ⟨first, next, hfirst, h⟩ := exists_of_bind_ok h
      obtain ⟨others, last, hothers, h⟩ := exists_of_bind_ok h
      obtain ⟨⟨rfl, rfl⟩, rfl⟩ : (first = a ∧ others = as) ∧ last = stop := by simpa [Pure.pure] using h
      exact ⟨rest, next, hfirst, hothers⟩
    | false => exact absurd ((readWhile_of_end hmore).symm.trans h) (by simp)

theorem readWhile_map {q : Reader V E B} {f : A → B} {stuck : E} {stop : ℤ}
    (h : Reader.readWhile more p stuck fuel mem cursor = .ok (as, stop))
    (hq : ∀ a ∈ as, ∀ c next, p mem c = .ok (a, next) → q mem c = .ok (f a, next)) :
    Reader.readWhile more q stuck fuel mem cursor = .ok (as.map f, stop) := by
  induction fuel generalizing cursor as with
  | zero => exact absurd h (by simp [Reader.readWhile, fail])
  | succ fuel ih =>
    cases hmore : more cursor with
    | true =>
      rw [readWhile_of_more hmore] at h ⊢
      obtain ⟨first, next, hfirst, h⟩ := exists_of_bind_ok h
      obtain ⟨others, last, hothers, h⟩ := exists_of_bind_ok h
      obtain ⟨rfl, rfl⟩ : first :: others = as ∧ last = stop := by simpa [Pure.pure] using h
      have hrest := ih hothers fun a ha => hq a (List.mem_cons_of_mem _ ha)
      rw [bind_of_ok _ (hq first List.mem_cons_self _ _ hfirst), bind_of_ok _ hrest]
      rfl
    | false =>
      rw [readWhile_of_end hmore] at h ⊢
      cases h
      rfl

theorem ReadsFrom.readWhile_error (h : ReadsFrom p mem cursor chunks as) (stuck : E) {e : E}
    (hmore : ∀ c, cursor ≤ c → c ≤ cursor + chunks.flatten.length → more c = true)
    (herror : p mem (cursor + chunks.flatten.length) = .error e) (hfuel : chunks.length < fuel) :
    Reader.readWhile more p stuck fuel mem cursor = .error e := by
  induction h generalizing fuel with
  | nil cursor =>
    obtain ⟨fuel, rfl⟩ := Nat.exists_eq_succ_of_ne_zero (Nat.ne_zero_of_lt hfuel)
    simp only [List.flatten_nil, List.length_nil, Nat.cast_zero, add_zero] at herror hmore
    rw [readWhile_of_more (hmore cursor (Int.le_refl _) (Int.le_refl _)), bind_of_error _ herror]
  | @cons cursor chunk chunks a as hfirst _ ih =>
    obtain ⟨fuel, rfl⟩ := Nat.exists_eq_succ_of_ne_zero (Nat.ne_zero_of_lt hfuel)
    have hlength : ((chunk :: chunks).flatten.length : ℤ) = chunk.length + chunks.flatten.length := by simp
    rw [hlength] at hmore herror
    rw [← add_assoc] at herror
    have hrest := ih (fun c hc hle => hmore c (by omega) (by omega)) herror (Nat.lt_of_succ_lt_succ hfuel)
    rw [readWhile_of_more (hmore cursor (Int.le_refl _) (by omega)), bind_of_ok _ hfirst, bind_of_error _ hrest]

end Reader

end AieBaremetal.Common
