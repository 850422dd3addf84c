import Mathlib.Data.BitVec

/-!
# The length of an allocation

`AIEGraph::malloc` takes a `size_t` and passes it on as a `uint32_t`, then as an `ssize_t`, and at
the end as the `uint64_t` of the driver or as the `uint32_t` of the IPC backend, whose host block comes
from `malloc`. An `ssize_t` has 32 or 64 bits. A pointer is modelled by the number of bytes behind it,
a null pointer by none.
-/

namespace AieBaremetal.AieGraph

/-- The widths of `size_t` and `ssize_t`. -/
inductive Target where
  | bits32
  | bits64
  deriving DecidableEq, Repr

def Target.width : Target → ℕ
  | bits32 => 32
  | bits64 => 64

/-- Driver and host as assumed: a block has the bytes asked for. -/
structure Allocators (t : Target) where
  memAllocate : BitVec 64 → Option ℕ
  hostMalloc : BitVec t.width → Option ℕ
  allocGm : BitVec 32 → BitVec 64
  memAllocate_ge : ∀ n block, memAllocate n = some block → n.toNat ≤ block
  hostMalloc_ge : ∀ n block, hostMalloc n = some block → n.toNat ≤ block

/-- `XAieMem`: over the driver or over IPC. -/
structure XAieMem where
  ipc : Bool
  deriving DecidableEq, Repr

section Malloc

variable {t : Target} (alloc : Allocators t)

def allocGmHost (size : BitVec 32) : Option ℕ :=
  if alloc.allocGm size = 0 then none else alloc.hostMalloc (size.setWidth t.width)

def XAieMem.malloc (mem : XAieMem) (size : BitVec t.width) : Option ℕ :=
  if mem.ipc then allocGmHost alloc (size.setWidth 32) else alloc.memAllocate (size.signExtend 64)

def simMalloc (xaiemem : Option XAieMem) (len : BitVec 32) : Option ℕ :=
  xaiemem.bind fun mem => mem.malloc alloc (len.setWidth t.width)

def malloc (xaiemem : Option XAieMem) (len : BitVec t.width) : Option ℕ :=
  if len = 0 then none else simMalloc alloc xaiemem (len.setWidth 32)

end Malloc

def exactAllocators (t : Target) : Allocators t where
  memAllocate n := some n.toNat
  hostMalloc n := some n.toNat
  allocGm _ := 1
  memAllocate_ge _ _ h := (Option.some.inj h).le
  hostMalloc_ge _ _ h := (Option.some.inj h).le

theorem toNat_le_signExtend {w : ℕ} (hw : w ≤ 64) (x : BitVec w) : x.toNat ≤ (x.signExtend 64).toNat := by
  have hlt : x.toNat < 2 ^ 64 := x.isLt.trans_le (Nat.pow_le_pow_right (by decide) hw)
  rw [BitVec.toNat_signExtend, BitVec.toNat_setWidth, Nat.mod_eq_of_lt hlt]
  exact Nat.le_add_right _ _

theorem malloc_covers {t : Target} (alloc : Allocators t) (mem : XAieMem) {len : BitVec t.width}
    (hlen : len.toNat < 2 ^ 32) {block : ℕ} (h : malloc alloc (some mem) len = some block) : len.toNat ≤ block := by
  have hwidth : 32 ≤ t.width ∧ t.width ≤ 64 := by cases t <;> decide
  have hword : (len.setWidth 32).toNat = len.toNat := by rw [BitVec.toNat_setWidth, Nat.mod_eq_of_lt hlen]
  have hwide : ((len.setWidth 32).setWidth t.width).toNat = len.toNat := by
    rw [BitVec.toNat_setWidth, hword, Nat.mod_eq_of_lt len.isLt]
  unfold malloc simMalloc XAieMem.malloc allocGmHost at h
  split at h
  · exact absurd h (by simp)
  · rw [Option.bind_some] at h
    split at h
    · split at h
      · exact absurd h (by simp)
      · refine le_of_eq_of_le ?_ (alloc.hostMalloc_ge _ _ h)
        rw [BitVec.toNat_setWidth, BitVec.toNat_setWidth, hwide, Nat.mod_eq_of_lt hlen, Nat.mod_eq_of_lt len.isLt]
    · exact hwide.ge.trans ((toNat_le_signExtend hwidth.2 _).trans (alloc.memAllocate_ge _ _ h))

theorem malloc_exact (mem : XAieMem) (len : BitVec 64) (hne : len ≠ 0) :
    malloc (exactAllocators .bits64) (some mem) len = some (len.toNat % 2 ^ 32) := by
  have hwide : ((len.setWidth 32).setWidth 64).toNat = len.toNat % 2 ^ 32 := by
    rw [BitVec.toNat_setWidth, BitVec.toNat_setWidth]
    omega
  have hmalloc : malloc (exactAllocators .bits64) (some mem) len =
      mem.malloc (exactAllocators .bits64) ((len.setWidth 32).setWidth 64) := if_neg hne
  rw [hmalloc, ← hwide]
  rcases mem with ⟨_ | _⟩
  · exact congrArg (fun n : BitVec 64 => some n.toNat) (BitVec.signExtend_eq _)
  · have hagain : (((len.setWidth 32).setWidth 64).setWidth 32).setWidth 64 = (len.setWidth 32).setWidth 64 := by
      apply BitVec.eq_of_toNat_eq
      simp
    exact congrArg (fun n : BitVec 64 => some n.toNat) hagain

/-- A block covers the length asked for, whatever the allocators do, exactly when the length has 32 bits. -/
theorem malloc_covers_iff (t : Target) (mem : XAieMem) (len : BitVec t.width) :
    (∀ (alloc : Allocators t) (block : ℕ), malloc alloc (some mem) len = some block → len.toNat ≤ block) ↔
      len.toNat < 2 ^ 32 := by
  constructor
  · intro hcovers
    by_contra hlong
    cases t with
    | bits32 => exact hlong len.isLt
    | bits64 =>
      have hne : len ≠ 0 := fun hzero => hlong (by rw [hzero]; decide)
      have hle := hcovers _ _ (malloc_exact mem len hne)
      have hmod := Nat.mod_lt len.toNat (show 0 < 2 ^ 32 by decide)
      omega
  · exact fun hlen alloc block => malloc_covers alloc mem hlen

/-- Sixteen bytes more than 32 bits hold give a block of sixteen bytes. -/
theorem malloc_short_block :
    malloc (exactAllocators .bits64) (some ⟨false⟩) 0x100000010#64 = some 16 ∧
      malloc (exactAllocators .bits64) (some ⟨true⟩) 0x100000010#64 = some 16 := by
  decide

end AieBaremetal.AieGraph
