import Mathlib.Data.BitVec
import AieBaremetal.Net.Segments

/-!
# The header that the client builds

`client.c` turns the magic number into network byte order, but copies the size of the file as it is
stored; the conversion is there as a comment only. On a host that stores the least significant byte
first, the server reads the bytes of the size in the opposite order.
-/

namespace AieBaremetal.Net

open Common

def clientHeader (fileSize : BitVec 64) : List UInt8 :=
  (leBytes 4 magicNumber.toNat).reverse ++ leBytes 8 fileSize.toNat

/-- The header of the client has the right length. -/
theorem clientHeader_length (fileSize : BitVec 64) : (clientHeader fileSize).length = headerSize := by
  simp [clientHeader, headerSize]

/-- The server reads the bytes of the size in the other order. -/
theorem announcedSize_clientHeader (fileSize : BitVec 64) :
    announcedSize (clientHeader fileSize) = BitVec.ofNat 64 (leNat (leBytes 8 fileSize.toNat).reverse) := by
  rw [announcedSize_eq (clientHeader_length fileSize), clientHeader, List.drop_left' (by simp)]

/-- Eight bytes spell a number if they are its bytes. -/
theorem ofNat_leNat_eq_iff {bytes : List UInt8} (hbytes : bytes.length = 8) (x : BitVec 64) :
    BitVec.ofNat 64 (leNat bytes) = x ↔ bytes = leBytes 8 x.toNat := by
  have hlt : leNat bytes < 2 ^ 64 := (leNat_lt bytes).trans_le (by rw [hbytes]; decide)
  constructor
  · rintro rfl
    rw [BitVec.toNat_ofNat, Nat.mod_eq_of_lt hlt, ← hbytes, leBytes_leNat]
  · rintro rfl
    rw [leNat_leBytes_of_lt 8 _ x.isLt, BitVec.ofNat_toNat, BitVec.setWidth_eq]

/-- Behind the client's header the size was taken from it. -/
theorem Phase.fileSize_of_clientHeader {env : Env} {imglen : BitVec 32} {fileSize : BitVec 64} {s : Server}
    (h : Phase env imglen (clientHeader fileSize) s) :
    s.state.fileSize = announcedSize (clientHeader fileSize) := by
  have hlength := clientHeader_length fileSize
  cases h with
  | header hshort => exact absurd hshort (by simp [hlength])
  | data hlooked hheader =>
    obtain ⟨rfl, -⟩ := List.append_inj ((List.append_nil _).trans hlooked) (by rw [hheader, hlength])
    rfl
  | aborted _ hmagic =>
    rw [clientHeader, List.take_left' (by simp), ntohl, List.reverse_reverse] at hmagic
    exact absurd rfl hmagic
  | finished hlooked hheader _ _ _ hbeyond =>
    obtain ⟨-, hnil⟩ := List.append_inj ((List.append_nil _).trans hlooked) (by rw [hheader, hlength])
    exact absurd hnil.symm hbeyond

/-- However the client's header arrives, the server takes the size of the file from it exactly when the bytes of
the size read the same in both orders. -/
theorem clientHeader_decoded_iff (env : Env) (imgdata : ℕ → UInt8) (imglen : BitVec 32) (fileSize : BitVec 64)
    {chains : List Pbuf} (hchains : (chains.map Pbuf.payload).flatten = clientHeader fileSize) :
    (∃ s, runCallbacks env (.accept imgdata imglen) (chains.map some) = some s ∧ s.state.fileSize = fileSize) ↔
      (leBytes 8 fileSize.toNat).reverse = leBytes 8 fileSize.toNat := by
  have hresult := runCallbacks_accept env imgdata imglen chains rfl
  rw [hchains] at hresult
  have hroom : ¬Overflows imglen (clientHeader fileSize) := not_overflows_of_le (clientHeader_length fileSize).le
  obtain ⟨s, hrun⟩ := Option.ne_none_iff_exists'.mp fun hnone => hroom (hresult.1.mp hnone)
  have hphase := hresult.2 s hrun
  have hsize : s.state.fileSize = fileSize ↔ (leBytes 8 fileSize.toNat).reverse = leBytes 8 fileSize.toNat := by
    rw [hphase.fileSize_of_clientHeader, announcedSize_clientHeader, ofNat_leNat_eq_iff (by simp)]
  constructor
  · rintro ⟨s', hrun', hs'⟩
    obtain rfl := Option.some.inj (hrun.symm.trans hrun')
    exact hsize.mp hs'
  · intro hsame
    exact ⟨s, hrun, hsize.mpr hsame⟩

/-- A size with the same bytes in both orders is understood. -/
theorem clientHeader_decoded_sample :
    ∃ s, runCallbacks sampleEnv (.accept (fun _ => 0) 0)
      ([⟨(clientHeader 0x0100000000000001).take 7, [], by decide⟩,
        ⟨(clientHeader 0x0100000000000001).drop 7, [], by decide⟩].map some) = some s ∧
      s.state.fileSize = 0x0100000000000001 :=
  (clientHeader_decoded_iff sampleEnv (fun _ => 0) 0 0x0100000000000001 (by decide)).mpr (by decide)

/-- A file of one byte passes for one of `2 ^ 56` bytes. -/
theorem clientHeader_one_misread :
    (runCallbacks sampleEnv (.accept (fun _ => 0) 0) ([⟨clientHeader 1, [], by decide⟩].map some)).map
      (·.state.fileSize) = some (2 ^ 56) ∧ (2 : BitVec 64) ^ 56 ≠ 1 := by
  decide

end AieBaremetal.Net
