import AieBaremetal.Net.Connection
import Mathlib.Data.List.Flatten

/-!
# How a file arrives does not matter, unless it arrives in chains

What a connection does depends only on the bytes that were looked at, not on how they were cut. But the
callback looks at the first packet buffer of a chain only: bytes behind it are lost, and then the user is
not given the file. The checksum is taken after the user's function has had the data.
-/

namespace AieBaremetal.Net

open Common

/-- The magic number and the size, most significant byte first. -/
def fileHeader (size : ℕ) : List UInt8 := (leBytes 4 magicNumber.toNat).reverse ++ (leBytes 8 size).reverse

def Event.call? : Event → Option (List UInt8 × ℤ)
  | callback data len => some (data, len)
  | write _ => none

def Event.reply? : Event → Option (List UInt8)
  | callback _ _ => none
  | write bytes => some bytes

/-- The user's function is called once with the file, and one reply starts with its checksum. -/
def Delivered (file : List UInt8) (s : Server) : Prop :=
  s.trace.filterMap Event.call? = [(file, (file.length : ℤ))] ∧
    ∃ type : BitVec 16,
      s.trace.filterMap Event.reply? = [leBytes 4 (crc32Bitwise file).toNat ++ leBytes 2 type.toNat]

section Header

variable {n : ℕ} {header : List UInt8}

theorem fileHeader_length (n : ℕ) : (fileHeader n).length = headerSize := by
  simp [fileHeader, headerSize]

theorem fileHeader_magic (n : ℕ) : ntohl ((fileHeader n).take 4) = magicNumber := by
  rw [fileHeader, List.take_left' (by simp), ntohl, List.reverse_reverse]
  rfl

/-- The announced size is read most significant byte first. -/
theorem announcedSize_eq (hheader : header.length = headerSize) :
    announcedSize header = BitVec.ofNat 64 (leNat (header.drop 4).reverse) := by
  have hlo : ((header.drop 8).take 4).length = 4 := by simp [hheader, headerSize]
  have hhi : ((header.drop 4).take 4).length = 4 := by simp [hheader, headerSize]
  have hsplit : header.drop 4 = (header.drop 4).take 4 ++ (header.drop 8).take 4 := by
    have hend : (header.drop 8).take 4 = header.drop 8 := List.take_of_length_le (by simp [hheader, headerSize])
    rw [hend, ← List.drop_drop (i := 4) (j := 4), List.take_append_drop]
  rw [hsplit, List.reverse_append, leNat_append, List.length_reverse, hlo]
  have hlo' := leNat_lt ((header.drop 8).take 4).reverse
  have hhi' := leNat_lt ((header.drop 4).take 4).reverse
  rw [List.length_reverse, hlo] at hlo'
  rw [List.length_reverse, hhi] at hhi'
  rw [announcedSize, ntohl, ntohl]
  generalize leNat ((header.drop 8).take 4).reverse = lo at *
  generalize leNat ((header.drop 4).take 4).reverse = hi at *
  have hor : hi <<< 32 ||| lo = hi * 2 ^ 32 + lo := by rw [← Nat.shiftLeft_add_eq_or_of_lt hlo', Nat.shiftLeft_eq]
  have hfit : hi <<< 32 < 2 ^ 64 := by rw [Nat.shiftLeft_eq]; omega
  apply BitVec.eq_of_toNat_eq
  simp only [BitVec.toNat_or, BitVec.toNat_shiftLeft, BitVec.toNat_setWidth, BitVec.toNat_ofNat]
  rw [show hi % 2 ^ 32 % 2 ^ 64 = hi by omega, show lo % 2 ^ 32 % 2 ^ 64 = lo by omega, Nat.mod_eq_of_lt hfit, hor]
  omega

theorem announcedSize_fileHeader (n : ℕ) : announcedSize (fileHeader n) = BitVec.ofNat 64 n := by
  rw [announcedSize_eq (fileHeader_length n), fileHeader, List.drop_left' (by simp),
    List.reverse_reverse, leNat_leBytes]
  apply BitVec.eq_of_toNat_eq
  simp

theorem image_fits (hn : n ≤ 2 ^ 31 - 8) :
    n ≤ ((((BitVec.ofNat 64 n + 3) / 4 * 4).setWidth 32).signExtend 64).toNat := by
  have hlen : (((BitVec.ofNat 64 n + 3) / 4 * 4).setWidth 32).toNat = (n + 3) / 4 * 4 := by
    have hthree : (3 : BitVec 64).toNat = 3 := rfl
    have hfour : (4 : BitVec 64).toNat = 4 := rfl
    simp only [hthree, hfour, BitVec.toNat_setWidth, BitVec.toNat_mul, BitVec.toNat_udiv,
      BitVec.toNat_add, BitVec.toNat_ofNat]
    omega
  have hpos : (((BitVec.ofNat 64 n + 3) / 4 * 4).setWidth 32).msb = false := by
    rw [BitVec.msb_eq_false_iff_two_mul_lt, hlen]
    omega
  rw [BitVec.signExtend_eq_setWidth_of_msb_false hpos, BitVec.toNat_setWidth, hlen]
  omega

theorem announce_fits (hn : n ≤ 2 ^ 31 - 8) (imglen : BitVec 32) :
    n ≤ ((announce imglen (BitVec.ofNat 64 n)).signExtend 64).toNat := by
  unfold announce
  split
  case isTrue => exact image_fits hn
  case isFalse hfits =>
    rw [BitVec.ult, decide_eq_true_eq, BitVec.toNat_ofNat] at hfits
    omega

end Header

section Callbacks

variable (env : Env)

/-- A new connection has looked at nothing. -/
theorem runCallbacks_accept (imgdata : ℕ → UInt8) (imglen : BitVec 32) (chains : List Pbuf)
    {result : Option Server} (hresult : runCallbacks env (.accept imgdata imglen) (chains.map some) = result) :
    (result = none ↔ Overflows imglen (chains.map Pbuf.payload).flatten) ∧
      ∀ s, result = some s → Phase env imglen (chains.map Pbuf.payload).flatten s :=
  runCallbacks_phase env (.header (by decide)) hresult (not_overflows_of_le (by decide))

/-- A file of an admissible size has room in the image buffer. -/
theorem not_overflows_fileHeader {file : List UInt8} (hlen : file.length ≤ 2 ^ 31 - 8) (imglen : BitVec 32) :
    ¬Overflows imglen (fileHeader file.length ++ file) := by
  rw [overflows_header_append (fileHeader_length _) (fileHeader_magic _), room,
    announcedSize_fileHeader, List.length_take]
  have hroom := announce_fits hlen imglen
  omega

end Callbacks

section Delivery

variable (env : Env) {func : DataCallback} {file : List UInt8} {chains : List Pbuf}

theorem payload_length (chains : List Pbuf) :
    (chains.map Pbuf.bytes).flatten.length =
      (chains.map Pbuf.payload).flatten.length + (chains.map fun p => p.next.flatten.length).sum := by
  induction chains with
  | nil => rfl
  | cons p rest ih =>
    simp only [List.map_cons, List.flatten_cons, List.length_append, Pbuf.bytes, List.sum_cons, ih]
    omega

theorem payload_eq_bytes (h : ∀ p ∈ chains, p.next.flatten = []) :
    (chains.map Pbuf.payload).flatten = (chains.map Pbuf.bytes).flatten := by
  congr 1
  apply List.map_congr_left
  intro p hp
  rw [Pbuf.bytes, h p hp, List.append_nil]

theorem leBytes_injective {a b : BitVec 32} (h : leBytes 4 a.toNat = leBytes 4 b.toNat) : a = b := by
  have hvalue := congrArg leNat h
  rw [leNat_leBytes_of_lt 4 _ a.isLt, leNat_leBytes_of_lt 4 _ b.isLt] at hvalue
  exact BitVec.eq_of_toNat_eq hvalue

theorem delivered_iff {s : Server} {crc : BitVec 32} {type : BitVec 16}
    (htrace : s.trace = [.callback file file.length, .write (leBytes 4 crc.toNat ++ leBytes 2 type.toNat)]) :
    Delivered file s ↔ crc = crc32Bitwise file := by
  have hreplies : s.trace.filterMap Event.reply? = [leBytes 4 crc.toNat ++ leBytes 2 type.toNat] := by
    rw [htrace]
    rfl
  constructor
  · rintro ⟨-, other, hother⟩
    have hbytes := List.singleton_injective (hreplies.symm.trans hother)
    exact leBytes_injective (List.append_inj_left hbytes (by simp))
  · rintro rfl
    exact ⟨by rw [htrace]; rfl, type, hreplies⟩

theorem delivery_some (hfunc : env.func = some func) (hlen : file.length ≤ 2 ^ 31 - 8) :
    delivery env file = [.callback file file.length, .write (leBytes 4 (crc32Bitwise
      (func.leaves file file.length)).toNat ++ leBytes 2 (func.type file file.length).toNat)] := by
  have hint : (BitVec.ofNat 32 file.length).toInt = file.length := by
    have hword : (BitVec.ofNat 32 file.length).toNat = file.length := by
      rw [BitVec.toNat_ofNat]
      omega
    rw [BitVec.toInt_eq_toNat_of_lt (by omega), hword]
  simp only [delivery, hfunc, hint]

theorem Phase.trace_of_file {imglen : BitVec 32} {s : Server}
    (h : Phase env imglen (fileHeader file.length ++ file) s)
    (hfunc : env.func = some func) (hpos : 1 ≤ file.length) (hlen : file.length ≤ 2 ^ 31 - 8) :
    s.trace = [.callback file file.length, .write (leBytes 4 (crc32Bitwise
      (func.leaves file file.length)).toNat ++ leBytes 2 (func.type file file.length).toNat)] := by
  have hsize : (announcedSize (fileHeader file.length)).toNat = file.length := by
    rw [announcedSize_fileHeader, BitVec.toNat_ofNat]
    omega
  cases h with
  | header hshort => exact absurd hshort (by simp [fileHeader_length])
  | data hlooked hheader hmagic hmore =>
    obtain ⟨rfl, rfl⟩ := List.append_inj hlooked (by rw [hheader, fileHeader_length])
    rcases hmore with hmore | rfl
    · omega
    · exact absurd hpos (by decide)
  | aborted _ hmagic =>
    rw [List.take_append_of_le_length (by rw [fileHeader_length]; decide)] at hmagic
    exact absurd (fileHeader_magic _) hmagic
  | finished hlooked hheader _ hdone _ _ _ htrace =>
    obtain ⟨rfl, hrest⟩ := List.append_inj hlooked (by rw [hheader, fileHeader_length])
    obtain ⟨rfl, -⟩ := List.append_inj ((List.append_nil file).trans hrest) (by omega)
    rw [htrace, delivery_some env hfunc hlen]

theorem Phase.length_of_delivered {imglen : BitVec 32} {looked : List UInt8} {s : Server}
    (h : Phase env imglen looked s) (hfunc : env.func = some func) (hdelivered : Delivered file s) :
    headerSize + file.length ≤ looked.length := by
  cases h with
  | header | data => exact absurd hdelivered.1 (by simp)
  | aborted _ _ _ htrace => exact absurd hdelivered.1 (by simp [htrace])
  | finished hlooked hheader _ _ _ _ _ htrace =>
    have hcalls := hdelivered.1
    rw [htrace] at hcalls
    simp only [delivery, hfunc, List.filterMap_cons, List.filterMap_nil, Event.call?, List.cons.injEq,
      Prod.mk.injEq] at hcalls
    rw [hlooked, List.length_append, List.length_append, hheader, hcalls.1.1]
    omega

/-- A file is delivered, however it arrives, exactly when every chain has its bytes in the first buffer and the
user's function leaves data with the checksum of the file. -/
theorem fileRecv_delivered_iff (hfunc : env.func = some func) (imgdata : ℕ → UInt8) (imglen : BitVec 32)
    (hpos : 1 ≤ file.length) (hlen : file.length ≤ 2 ^ 31 - 8)
    (hchains : (chains.map Pbuf.bytes).flatten = fileHeader file.length ++ file) :
    (∃ s, runCallbacks env (.accept imgdata imglen) (chains.map some) = some s ∧ Delivered file s) ↔
      (∀ p ∈ chains, p.next.flatten = []) ∧ crc32Bitwise (func.leaves file file.length) = crc32Bitwise file := by
  constructor
  · rintro ⟨s, hrun, hdelivered⟩
    -- Header and file were looked at completely, so no byte was lost.
    have hphase := (runCallbacks_accept env imgdata imglen chains hrun).2 s rfl
    have hlooked := hphase.length_of_delivered env hfunc hdelivered
    have hcount := payload_length chains
    rw [hchains, List.length_append, fileHeader_length] at hcount
    have hlost : (chains.map fun p => p.next.flatten.length).sum = 0 := by
      omega
    have hfirst : ∀ p ∈ chains, p.next.flatten = [] := fun p hp =>
      List.length_eq_zero_iff.mp (List.sum_eq_zero_iff_forall_eq_nat.mp hlost _ (List.mem_map_of_mem hp))
    rw [payload_eq_bytes hfirst, hchains] at hphase
    exact ⟨hfirst, (delivered_iff (hphase.trace_of_file env hfunc hpos hlen)).mp hdelivered⟩
  · rintro ⟨hfirst, hcrc⟩
    rw [← payload_eq_bytes hfirst] at hchains
    have hresult := runCallbacks_accept env imgdata imglen chains rfl
    rw [hchains] at hresult
    obtain ⟨s, hrun⟩ :=
      Option.ne_none_iff_exists'.mp fun hnone => not_overflows_fileHeader hlen imglen (hresult.1.mp hnone)
    have hphase := hresult.2 s hrun
    exact ⟨s, hrun, (delivered_iff (hphase.trace_of_file env hfunc hpos hlen)).mpr hcrc⟩

/-- A connection does what its bytes say, however they arrive: it leaves the image buffer if there are more bytes
of the file than it has room for, and otherwise delivers the file a right header announces once all of it is
there. -/
theorem runCallbacks_trace (imgdata : ℕ → UInt8) (imglen : BitVec 32) (chains : List Pbuf) :
    let looked := (chains.map Pbuf.payload).flatten
    (runCallbacks env (.accept imgdata imglen) (chains.map some)).map Server.trace =
      if Overflows imglen looked then none
      else some (if headerSize < looked.length ∧ ntohl (looked.take 4) = magicNumber ∧
          headerSize + (announcedSize (looked.take headerSize)).toNat ≤
            looked.length then delivery env (fileOf looked)
        else []) := by
  intro looked
  obtain ⟨hnone, hsome⟩ := runCallbacks_accept env imgdata imglen chains rfl
  cases hrun : runCallbacks env (.accept imgdata imglen) (chains.map some) with
  | none => exact (if_pos (hnone.mp hrun)).symm
  | some s =>
    have hroom : ¬Overflows imglen looked := fun hover => absurd (hrun.symm.trans (hnone.mpr hover)) (by simp)
    have hphase : Phase env imglen looked s := hsome s hrun
    rw [if_neg hroom]
    clear_value looked
    refine congrArg some ?_
    cases hphase with
    | header hshort => rw [if_neg (by omega)]
    | data hlooked hheader _ hmore =>
      subst hlooked
      rw [List.length_append, List.take_left' hheader, if_neg]
      rcases hmore with hmore | rfl
      · omega
      · simp [hheader]
    | aborted _ hmagic _ htrace => rw [if_neg (fun h => hmagic h.2.1), htrace]
    | finished hlooked hheader hmagic hsize _ hbeyond _ htrace =>
      subst hlooked
      have hmore := List.length_pos_of_ne_nil hbeyond
      rw [fileOf_header_append hheader, ← hsize, List.take_left, List.length_append,
        List.take_left' hheader, htrace,
        take_four_header hheader, if_pos ⟨by omega, hmagic, by simp [hheader, ← hsize]⟩]

/-- A user's function that leaves the data as they are. -/
def sampleEnv : Env where
  func := some { type := fun _ _ => 7, leaves := fun data _ => data, leaves_length := fun _ _ => rfl }
  fresh := fun _ => 0
  stack := [0, 0]
  stack_length := rfl

/-- A file of two bytes is delivered though header and file arrive in pieces. -/
theorem fileRecv_delivered_sample :
    ∃ s, runCallbacks sampleEnv (.accept (fun _ => 0) 0)
        ([⟨(fileHeader 2).take 5, [], by decide⟩, ⟨(fileHeader 2).drop 5 ++ [1], [[]], by decide⟩,
          ⟨[2], [], by decide⟩].map some) = some s ∧ Delivered [1, 2] s :=
  (fileRecv_delivered_iff sampleEnv rfl _ _ (by decide) (by decide) (by decide)).mpr ⟨by decide, rfl⟩

/-- The same file is not delivered when it arrives in the second buffer of a chain. -/
theorem chained_file_not_delivered :
    ¬∃ s, runCallbacks sampleEnv (.accept (fun _ => 0) 0)
      ([⟨fileHeader 2, [[1, 2]], by decide⟩].map some) = some s ∧
      Delivered [1, 2] s := by
  rintro ⟨s, hrun, hdelivered⟩
  have htrace : (runCallbacks sampleEnv (.accept (fun _ => 0) 0)
      ([⟨fileHeader 2, [[1, 2]], by decide⟩].map some)).map Server.trace = some [] := by decide
  rw [hrun] at htrace
  have hcalls := hdelivered.1
  rw [Option.some.inj htrace] at hcalls
  exact absurd hcalls (by simp)

end Delivery

end AieBaremetal.Net
