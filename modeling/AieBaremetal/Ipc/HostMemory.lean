import AieBaremetal.Common.ByteMemory
import AieBaremetal.Common.OrderedMap
import Mathlib.Data.List.Nodup
import Mathlib.Data.List.Pairwise

/-!
# Host blocks and their device addresses

The client backend keeps a host block for each block of simulated device memory it allocated, in a map
ordered by host address. A pointer into a host block is translated by one step back from the upper
bound, and the sync calls move bytes between the two sides.

The answers of the server and of `malloc` are arguments of the calls; what is assumed of them stands in
`Block` and `Permitted`. Addresses are below `2 ^ 64`, and the two sums the code forms wrap around there;
the end of a host block is still an address. Sizes are below `2 ^ 32`, so transfers are taken whole. The
application may store into host memory at any time, which is a call of its own here.
-/

namespace AieBaremetal.Ipc

open Common

/-- The device address and the size kept for a host block. -/
structure GmHostAlloc where
  devAddr : ℕ
  size : ℕ
  deriving DecidableEq

/-- The map of host blocks, and the two memories. -/
structure HostMemory where
  gmHostAllocs : List (ℕ × GmHostAlloc)
  host : ℕ → UInt8
  device : ℕ → UInt8

/-- The address of new device memory; an empty block is refused. -/
def aegIpcAllocGm (size answer : ℕ) : ℕ := if size = 0 then 0 else answer

/-- Allocate a host block with its device block, or return null. -/
def aegIpcAllocGmHost (s : HostMemory) (size devAnswer hostAnswer : ℕ) : ℕ × HostMemory :=
  let devAddr := aegIpcAllocGm size devAnswer
  if devAddr = 0 then (0, s)
  else if hostAnswer = 0 then (0, s)
  else (hostAnswer, { s with gmHostAllocs := insertKey hostAnswer ⟨devAddr, size⟩ s.gmHostAllocs })

def aegIpcFreeGmHost (s : HostMemory) (host : ℕ) : HostMemory :=
  { s with gmHostAllocs := eraseKey host s.gmHostAllocs }

/-- Translate a host pointer by the entry in front of its upper bound. -/
def aegIpcDevAddr (s : HostMemory) (addr : ℕ) : ℕ :=
  match entryBefore s.gmHostAllocs addr with
  | none => 0
  | some (base, alloc) =>
    if addr < base ∨ (base + alloc.size) % 2 ^ 64 ≤ addr then 0 else (alloc.devAddr + (addr - base)) % 2 ^ 64

def syncForDev (s : HostMemory) (vaddr size : ℕ) : ℤ × HostMemory :=
  let devAddr := aegIpcDevAddr s vaddr
  if devAddr = 0 then (-1, s)
  else (0, { s with device := store s.device (devAddr + ·) (load s.host (vaddr + ·) size) })

/-- Copy device bytes to the host. -/
def syncForCpu (s : HostMemory) (vaddr size : ℕ) : ℤ × HostMemory :=
  let devAddr := aegIpcDevAddr s vaddr
  if devAddr = 0 then (-1, s)
  else (0, { s with host := store s.host (vaddr + ·) (load s.device (devAddr + ·) size) })

/-- The calls on host blocks with their answers, and a store by the application. -/
inductive HostCall where
  | allocGmHost (size devAnswer hostAnswer : ℕ)
  | freeGmHost (host : ℕ)
  | syncForDev (vaddr size : ℕ)
  | syncForCpu (vaddr size : ℕ)
  | store (addr : ℕ) (bytes : List UInt8)

/-- What a call leaves. -/
def HostMemory.after (s : HostMemory) : HostCall → HostMemory
  | .allocGmHost size devAnswer hostAnswer => (aegIpcAllocGmHost s size devAnswer hostAnswer).2
  | .freeGmHost host => aegIpcFreeGmHost s host
  | .syncForDev vaddr size => (Ipc.syncForDev s vaddr size).2
  | .syncForCpu vaddr size => (Ipc.syncForCpu s vaddr size).2
  | .store addr bytes => { s with host := Common.store s.host (addr + ·) bytes }

/-! ## Live blocks -/

/-- A host block and its device block, both addressable and not null. -/
structure Block where
  base : ℕ
  dev : ℕ
  size : ℕ
  base_pos : 0 < base
  dev_pos : 0 < dev
  size_pos : 0 < size
  size_lt : size < 2 ^ 32
  base_fits : base + size < 2 ^ 64
  dev_fits : dev + size ≤ 2 ^ 64
  deriving DecidableEq

def Block.Contains (b : Block) (p : ℕ) : Prop := b.base ≤ p ∧ p < b.base + b.size

def Block.Covers (b : Block) (p n : ℕ) : Prop := b.base ≤ p ∧ p + n ≤ b.base + b.size

/-- Two blocks that share neither host nor device bytes. -/
def Block.Apart (b c : Block) : Prop :=
  (b.base + b.size ≤ c.base ∨ c.base + c.size ≤ b.base) ∧ (b.dev + b.size ≤ c.dev ∨ c.dev + c.size ≤ b.dev)

/-- The entry the map has for a block. -/
def Block.entry (b : Block) : ℕ × GmHostAlloc := (b.base, ⟨b.dev, b.size⟩)

/-- A call that may be made while some blocks are live, its block and the blocks live after it. A new block shares
no bytes with the live ones. A pointer handed back may be the start of a live block or of none, and a sync range
lies in a live block. -/
inductive Permitted (live : List Block) : HostCall → Option Block → List Block → Prop
  | allocated (b : Block) (hapart : ∀ c ∈ live, b.Apart c) :
    Permitted live (.allocGmHost b.size b.dev b.base) (some b) (b :: live)
  | noSize (devAnswer hostAnswer : ℕ) : Permitted live (.allocGmHost 0 devAnswer hostAnswer) none live
  | noDevice (size hostAnswer : ℕ) : Permitted live (.allocGmHost size 0 hostAnswer) none live
  | noHost (size devAnswer : ℕ) : Permitted live (.allocGmHost size devAnswer 0) none live
  | freed (b : Block) (hb : b ∈ live) : Permitted live (.freeGmHost b.base) (some b) (live.erase b)
  | freedOther (host : ℕ) (hhost : ∀ b ∈ live, b.base ≠ host) : Permitted live (.freeGmHost host) none live
  | sentToDev (b : Block) (hb : b ∈ live) (p n : ℕ) (hp : b.Covers p n) :
    Permitted live (.syncForDev p n) (some b) live
  | fetchedForCpu (b : Block) (hb : b ∈ live) (p n : ℕ) (hp : b.Covers p n) :
    Permitted live (.syncForCpu p n) (some b) live
  | stored (addr : ℕ) (bytes : List UInt8) : Permitted live (.store addr bytes) none live

/-- Permitted calls that are not about a given block. -/
inductive Meanwhile (b : Block) (live : List Block) (s : HostMemory) : List Block → HostMemory → Prop
  | refl : Meanwhile b live s live s
  | step {live₁ live₂ : List Block} {s₁ : HostMemory} {call : HostCall} {about : Option Block}
    (h : Meanwhile b live s live₁ s₁) (hcall : Permitted live₁ call about live₂) (hother : about ≠ some b) :
    Meanwhile b live s live₂ (s₁.after call)

/-! ## What the map represents -/

/-- The map has exactly the entries of the live blocks, which are apart. -/
structure Represents (live : List Block) (s : HostMemory) : Prop where
  ordered : Ordered s.gmHostAllocs
  apart : live.Pairwise Block.Apart
  mem_iff : ∀ e, e ∈ s.gmHostAllocs ↔ ∃ b ∈ live, b.entry = e

theorem Block.Apart.symm {b c : Block} (h : b.Apart c) : c.Apart b := ⟨h.1.symm, h.2.symm⟩

theorem Block.Apart.base_ne {b c : Block} (h : b.Apart c) : b.base ≠ c.base := by
  have hb := b.size_pos
  have hc := c.size_pos
  have hbase := h.1
  omega

theorem Block.Apart.ne {b c : Block} (h : b.Apart c) : b ≠ c := fun heq => h.base_ne (congrArg Block.base heq)

variable {live live' : List Block} {s : HostMemory} {b c : Block} {p n : ℕ}

theorem Represents.nodup (h : Represents live s) : live.Nodup := h.apart.imp fun hapart => hapart.ne

theorem Represents.apart_of_ne (h : Represents live s) (hb : b ∈ live) (hc : c ∈ live) (hne : b ≠ c) : b.Apart c :=
  have : Std.Symm Block.Apart := ⟨fun _ _ h => h.symm⟩
  h.apart.forall hb hc hne

theorem Represents.allocated (h : Represents live s) (hapart : ∀ c ∈ live, b.Apart c) :
    Represents (b :: live) (aegIpcAllocGmHost s b.size b.dev b.base).2 := by
  have hdev : aegIpcAllocGm b.size b.dev = b.dev := if_neg b.size_pos.ne'
  have hafter : (aegIpcAllocGmHost s b.size b.dev b.base).2.gmHostAllocs
      = insertKey b.base ⟨b.dev, b.size⟩ s.gmHostAllocs := by
    simp [aegIpcAllocGmHost, hdev, b.dev_pos.ne', b.base_pos.ne']
  refine ⟨hafter ▸ ordered_insertKey h.ordered .., List.pairwise_cons.mpr ⟨hapart, h.apart⟩, fun e => ?_⟩
  rw [hafter, mem_insertKey h.ordered, h.mem_iff, List.exists_mem_cons_iff, eq_comm]
  refine or_congr_right ⟨And.left, ?_⟩
  rintro ⟨c, hc, rfl⟩
  exact ⟨⟨c, hc, rfl⟩, (hapart c hc).base_ne.symm⟩

theorem Represents.freed (h : Represents live s) (hb : b ∈ live) :
    Represents (live.erase b) (aegIpcFreeGmHost s b.base) := by
  refine ⟨ordered_eraseKey h.ordered _, h.apart.sublist List.erase_sublist, fun e => ?_⟩
  rw [aegIpcFreeGmHost, mem_eraseKey, h.mem_iff]
  constructor
  · rintro ⟨⟨c, hc, rfl⟩, hne⟩
    exact ⟨c, (List.mem_erase_of_ne fun heq => hne (congrArg Block.base heq)).mpr hc, rfl⟩
  · rintro ⟨c, hc, rfl⟩
    obtain ⟨hne, hc⟩ := h.nodup.mem_erase_iff.mp hc
    exact ⟨⟨c, hc, rfl⟩, (h.apart_of_ne hc hb hne).base_ne⟩

theorem Represents.congr (h : Represents live s) {s' : HostMemory} (hsame : s'.gmHostAllocs = s.gmHostAllocs) :
    Represents live s' :=
  ⟨hsame ▸ h.ordered, h.apart, hsame ▸ h.mem_iff⟩

theorem Represents.freedOther (h : Represents live s) {host : ℕ} (hhost : ∀ b ∈ live, b.base ≠ host) :
    Represents live (aegIpcFreeGmHost s host) := by
  refine h.congr (List.filter_eq_self.mpr fun e he => ?_)
  obtain ⟨b, hb, rfl⟩ := (h.mem_iff e).mp he
  exact decide_eq_true (hhost b hb)

@[simp] theorem syncForDev_allocs (s : HostMemory) (p n : ℕ) :
    (syncForDev s p n).2.gmHostAllocs = s.gmHostAllocs := by
  unfold syncForDev
  dsimp only
  split <;> rfl

@[simp] theorem syncForCpu_allocs (s : HostMemory) (p n : ℕ) :
    (syncForCpu s p n).2.gmHostAllocs = s.gmHostAllocs := by
  unfold syncForCpu
  dsimp only
  split <;> rfl

theorem aegIpcAllocGmHost_failed {size devAnswer hostAnswer : ℕ}
    (h : size = 0 ∨ devAnswer = 0 ∨ hostAnswer = 0) : aegIpcAllocGmHost s size devAnswer hostAnswer = (0, s) := by
  unfold aegIpcAllocGmHost aegIpcAllocGm
  rcases h with rfl | rfl | rfl <;> simp

/-- Every permitted call keeps the map in step with the live blocks. -/
theorem Represents.after (h : Represents live s) {call : HostCall} {about : Option Block}
    (hcall : Permitted live call about live') : Represents live' (s.after call) := by
  cases hcall with
  | allocated b hapart => exact h.allocated hapart
  | noSize | noDevice | noHost =>
    rw [HostMemory.after, aegIpcAllocGmHost_failed (by simp)]
    exact h
  | freed b hb => exact h.freed hb
  | freedOther host hhost => exact h.freedOther hhost
  | sentToDev b hb p n hp => exact h.congr (syncForDev_allocs s p n)
  | fetchedForCpu b hb p n hp => exact h.congr (syncForCpu_allocs s p n)
  | stored addr bytes => exact h.congr rfl

theorem aegIpcDevAddr_of_contains (h : Represents live s) (hb : b ∈ live) (hp : b.Contains p) :
    aegIpcDevAddr s p = b.dev + (p - b.base) := by
  obtain ⟨hlow, hhigh⟩ := hp
  have hentry : b.entry ∈ s.gmHostAllocs := (h.mem_iff _).mpr ⟨b, hb, rfl⟩
  cases hfound : entryBefore s.gmHostAllocs p with
  | none => exact absurd hlow (not_le.mpr ((entryBefore_eq_none h.ordered).mp hfound _ hentry))
  | some e =>
    obtain ⟨he, hkey, hmax⟩ := entryBefore_eq_some h.ordered hfound
    obtain ⟨c, hc, rfl⟩ := (h.mem_iff e).mp he
    have hbase : b.base ≤ c.base := hmax _ hentry hlow
    have hstart : c.base ≤ p := hkey
    -- another block that starts between the base and the pointer would share bytes with this one
    obtain rfl : b = c := by
      by_contra hne
      have hapart := (h.apart_of_ne hb hc hne).1
      have hsize := c.size_pos
      omega
    have hfits := b.base_fits
    have hdev := b.dev_fits
    have hsum : (b.base + b.size) % 2 ^ 64 = b.base + b.size := Nat.mod_eq_of_lt hfits
    have hinside : ¬ (p < b.base ∨ (b.base + b.size) % 2 ^ 64 ≤ p) := by omega
    simp only [aegIpcDevAddr, hfound, Block.entry, if_neg hinside]
    exact Nat.mod_eq_of_lt (by omega)

theorem Block.Covers.contains (h : b.Covers p n) (hn : 0 < n) : b.Contains p := by
  obtain ⟨hlow, hhigh⟩ := h
  exact ⟨hlow, by omega⟩

/-- A range of host bytes as device bytes. -/
def Block.devCell (b : Block) (p : ℕ) (i : ℕ) : ℕ := b.dev + (p - b.base) + i

theorem syncForDev_eq (h : Represents live s) (hb : b ∈ live) (hp : b.Covers p n) (hn : 0 < n) :
    syncForDev s p n = (0, { s with device := store s.device (b.devCell p) (load s.host (p + ·) n) }) := by
  have hdev := aegIpcDevAddr_of_contains h hb (hp.contains hn)
  have hpos := b.dev_pos
  have hne : b.dev + (p - b.base) ≠ 0 := by omega
  simp only [syncForDev, hdev, if_neg hne]
  rfl

theorem syncForCpu_eq (h : Represents live s) (hb : b ∈ live) (hp : b.Covers p n) (hn : 0 < n) :
    syncForCpu s p n = (0, { s with host := store s.host (p + ·) (load s.device (b.devCell p) n) }) := by
  have hdev := aegIpcDevAddr_of_contains h hb (hp.contains hn)
  have hpos := b.dev_pos
  have hne : b.dev + (p - b.base) ≠ 0 := by omega
  simp only [syncForCpu, hdev, if_neg hne]
  rfl

theorem syncForDev_zero (s : HostMemory) (p : ℕ) : (syncForDev s p 0).2 = s := by
  unfold syncForDev
  dsimp only
  split <;> rfl

theorem syncForCpu_zero (s : HostMemory) (p : ℕ) : (syncForCpu s p 0).2 = s := by
  unfold syncForCpu
  dsimp only
  split <;> rfl

theorem syncForDev_frame (h : Represents live s) (hb : b ∈ live) (hp : b.Covers p n) :
    (syncForDev s p n).2.host = s.host ∧
      ∀ q, ¬ (b.dev ≤ q ∧ q < b.dev + b.size) → (syncForDev s p n).2.device q = s.device q := by
  rcases Nat.eq_zero_or_pos n with rfl | hn
  · rw [syncForDev_zero]
    exact ⟨rfl, fun _ _ => rfl⟩
  · rw [syncForDev_eq h hb hp hn]
    refine ⟨rfl, fun q hq => store_of_ne _ fun i hi => ?_⟩
    obtain ⟨hlow, hhigh⟩ := hp
    rw [load_length] at hi
    rw [Block.devCell]
    omega

theorem syncForCpu_frame (h : Represents live s) (hb : b ∈ live) (hp : b.Covers p n) :
    (syncForCpu s p n).2.device = s.device ∧
      ∀ q, ¬ (b.base ≤ q ∧ q < b.base + b.size) → (syncForCpu s p n).2.host q = s.host q := by
  rcases Nat.eq_zero_or_pos n with rfl | hn
  · rw [syncForCpu_zero]
    exact ⟨rfl, fun _ _ => rfl⟩
  · rw [syncForCpu_eq h hb hp hn]
    refine ⟨rfl, fun q hq => store_of_ne _ fun i hi => ?_⟩
    obtain ⟨hlow, hhigh⟩ := hp
    rw [load_length] at hi
    omega

theorem after_of_other (h : Represents live s) (hb : b ∈ live) {call : HostCall} {about : Option Block}
    (hcall : Permitted live call about live') (hother : about ≠ some b) :
    b ∈ live' ∧ ∀ q, b.dev ≤ q → q < b.dev + b.size → (s.after call).device q = s.device q := by
  cases hcall with
  | allocated c hapart =>
    refine ⟨List.mem_cons_of_mem _ hb, fun q _ _ => ?_⟩
    simp only [HostMemory.after, aegIpcAllocGmHost]
    split_ifs <;> rfl
  | noSize | noDevice | noHost =>
    rw [HostMemory.after, aegIpcAllocGmHost_failed (by simp)]
    exact ⟨hb, fun _ _ _ => rfl⟩
  | freed c hc =>
    have hne : b ≠ c := fun heq => hother (heq ▸ rfl)
    exact ⟨(List.mem_erase_of_ne hne).mpr hb, fun _ _ _ => rfl⟩
  | freedOther host hhost => exact ⟨hb, fun _ _ _ => rfl⟩
  | sentToDev c hc p n hp =>
    have hne : b ≠ c := fun heq => hother (heq ▸ rfl)
    have hapart := (h.apart_of_ne hb hc hne).2
    exact ⟨hb, fun q hlow hhigh => (syncForDev_frame h hc hp).2 q (by omega)⟩
  | fetchedForCpu c hc p n hp =>
    exact ⟨hb, fun q _ _ => congrFun (syncForCpu_frame h hc hp).1 q⟩
  | stored addr bytes => exact ⟨hb, fun _ _ _ => rfl⟩

theorem Meanwhile.keeps (h : Represents live s) (hb : b ∈ live) {s' : HostMemory}
    (hmean : Meanwhile b live s live' s') :
    Represents live' s' ∧ b ∈ live' ∧ ∀ q, b.dev ≤ q → q < b.dev + b.size → s'.device q = s.device q := by
  induction hmean with
  | refl => exact ⟨h, hb, fun _ _ _ => rfl⟩
  | step _ hcall hother ih =>
    obtain ⟨hrep, hmem, hbytes⟩ := ih
    obtain ⟨hmem', hstep⟩ := after_of_other hrep hmem hcall hother
    exact ⟨hrep.after hcall, hmem', fun q hlow hhigh => (hstep q hlow hhigh).trans (hbytes q hlow hhigh)⟩

end AieBaremetal.Ipc
