import AieBaremetal.Cdo.Actions

/-!
# Which blobs the parser reads within bounds

The parser checks that the announced payload fits the blob and that each command's announced size
fits what remains. It does not check that the length word of a long command exists, that the payload
is as long as the opcode needs, nor that the 32-bit size has not wrapped.

The readable window is the header and the announced payload. A poll whose value has bits outside its
mask never succeeds and so protects what follows; every other poll can succeed for some registers.
-/

namespace AieBaremetal.Cdo

open Common Common.Program

/-- A memory holds words at a position and nothing behind. -/
def HoldsAt (mem : WordMemory) (buf : ℕ) (words : List (BitVec 32)) : Prop :=
  ∀ k, mem (buf + k) = words[k]?

theorem HoldsAt.drop {mem : WordMemory} {buf : ℕ} {words : List (BitVec 32)}
    (h : HoldsAt mem buf words) (n : ℕ) : HoldsAt mem (buf + n) (words.drop n) := by
  intro k
  rw [Nat.add_assoc, h, List.getElem?_drop]

def commandExtent : List (BitVec 32) → Option DecodedCmd
  | [] => none
  | word0 :: rest =>
    if shortLen word0 = kMaxShortCmdLen then
      rest.head?.map fun payloadLen =>
        { payload := kLongCmdHdrLen.toNat, payloadLen, size := kLongCmdHdrLen + payloadLen }
    else
      some { payload := kShortCmdHdrLen.toNat, payloadLen := shortLen word0,
             size := kShortCmdHdrLen + shortLen word0 }

/-- The opcode of the command in front of a list of words. -/
def commandId (words : List (BitVec 32)) : BitVec 32 := words.headD 0 &&& kCmdApiIdMask

def sizeAccepted (cmd : DecodedCmd) (left : ℕ) : Prop := cmd.size ≠ 0 ∧ cmd.size.toNat ≤ left

/-- Some register values let the parser go on. -/
def mayContinue (words : List (BitVec 32)) (cmd : DecodedCmd) : Prop :=
  if commandId words = kCmdMaskPoll64 then
    5#32 ≤ cmd.payloadLen ∧ ∃ mask value, words[cmd.payload + 2]? = some mask ∧
      words[cmd.payload + 3]? = some value ∧ value &&& mask = value
  else if commandId words = kCmdDmaWrite then 2#32 ≤ cmd.payloadLen
  else commandId words ∈ [kCmdWrite, kCmdMaskWrite, kCmdWrite64, kCmdMaskWrite64, kCmdNop]

/-- A payload leads the parser to a command that needs words behind its end. -/
inductive ReachesOverrun : List (BitVec 32) → Prop where
  /-- A length word is announced that is not there. -/
  | lengthWord (words : List (BitVec 32)) (hne : words ≠ []) (hcmd : commandExtent words = none) :
      ReachesOverrun words
  /-- An opcode reads more words than are left. -/
  | payload (words : List (BitVec 32)) (cmd : DecodedCmd) (hcmd : commandExtent words = some cmd)
      (hsize : sizeAccepted cmd words.length)
      (hshort : words.length < cmd.payload + wordsRead (commandId words) cmd.payloadLen) :
      ReachesOverrun words
  /-- A harmless command before an overrun. -/
  | later (words : List (BitVec 32)) (cmd : DecodedCmd) (hcmd : commandExtent words = some cmd)
      (hsize : sizeAccepted cmd words.length)
      (hfits : cmd.payload + wordsRead (commandId words) cmd.payloadLen ≤ words.length)
      (hgoes : mayContinue words cmd) (hrest : ReachesOverrun (words.drop cmd.size.toNat)) :
      ReachesOverrun words

section Reads

variable {mem : WordMemory} {buf : ℕ} {words : List (BitVec 32)} {A : Type}

theorem readWord_of_holdsAt (h : HoldsAt mem buf words) (k : ℕ) :
    readWord mem (buf + k) = Program.ofOption words[k]? := by
  rw [readWord, h]

theorem decodeCmd_of_holdsAt (h : HoldsAt mem buf words) :
    decodeCmd mem buf = Program.ofOption
      ((commandExtent words).map fun cmd => { cmd with payload := buf + cmd.payload }) := by
  have h0 : readWord mem buf = Program.ofOption words[0]? := readWord_of_holdsAt h 0
  have h1 := readWord_of_holdsAt h 1
  rw [decodeCmd, h0, h1]
  cases words with
  | nil => rfl
  | cons word0 rest =>
    simp only [commandExtent, List.getElem?_cons_zero, ofOption_some, pure_bind]
    split
    · cases rest <;> rfl
    · rfl

theorem HoldsAt.present (h : HoldsAt mem buf words) {payload n : ℕ} (hfits : payload + n ≤ words.length) :
    ∀ j < n, mem (buf + payload + j) ≠ none := by
  intro j hj
  rw [Nat.add_assoc, h, List.getElem?_eq_getElem (by omega)]
  exact Option.some_ne_none _

theorem HoldsAt.missing (h : HoldsAt mem buf words) {payload n : ℕ} (hstart : payload ≤ words.length)
    (hshort : words.length < payload + n) : ∃ j < n, mem (buf + payload + j) = none := by
  refine ⟨words.length - payload, by omega, ?_⟩
  rw [Nat.add_assoc, h, List.getElem?_eq_none (by omega)]

theorem pollMatch_safe (addr : BitVec 64) (mask value : BitVec 32) (reads : ℕ) :
    (Command.pollMatch addr mask value reads).Safe := by
  induction reads with
  | zero => exact safe_pure _
  | succ reads ih =>
    refine (safe_ask _).bind fun current => ?_
    split
    · exact safe_pure _
    · split
      · exact safe_pure _
      · exact (safe_tell _).bind fun _ => ih

theorem pollMatch_no_match {addr : BitVec 64} {mask value : BitVec 32} (hmatch : value &&& mask ≠ value) (reads : ℕ)
    (w : World RegAccess (BitVec 32) Unit) : (Command.pollMatch addr mask value reads w).1 ≠ .returned true := by
  have hnever (current : BitVec 32) : current &&& mask ≠ value := by
    intro heq
    apply hmatch
    rw [← heq, BitVec.and_assoc, BitVec.and_self]
  induction reads generalizing w with
  | zero =>
    intro h
    cases h
  | succ reads ih =>
    simp only [Command.pollMatch, bind_apply, Program.ask]
    cases w.script with
    | nil =>
      intro h
      cases h
    | cons current rest =>
      simp only [hnever, if_false]
      split
      · intro h
        cases h
      · exact ih _

theorem writeBlock_returns (base : BitVec 64) (i : ℕ) (data : List (BitVec 32)) (trace : List RegAccess)
    (script : List (BitVec 32)) :
    ∃ trace', writeBlock base i data ⟨(), trace, script⟩ = (.returned (), ⟨(), trace', script⟩) := by
  induction data generalizing i trace with
  | nil => exact ⟨trace, rfl⟩
  | cons word rest ih => exact ih (i + 1) _

end Reads

section Commands

variable {mem : WordMemory} {buf : ℕ} {words : List (BitVec 32)} {cmd : DecodedCmd}
  (dev : DevInst) (cdoBase : BitVec 64)

/-- Some register values let the parser go on. -/
def Entry.MayContinue : Entry → Prop
  | .refused => False
  | .perform (.poll _ mask value _) => value &&& mask = value
  | .perform _ => True

theorem switch_safe (entry : Entry) : (entry.switch dev cdoBase).Safe := by
  rcases entry with action | _
  · refine Program.Safe.map ?_ _
    cases action with
    | write addr value => exact (safe_tell _).bind fun _ => safe_pure _
    | update addr mask value => exact ((safe_ask _).bind fun _ => safe_tell _).bind fun _ => safe_pure _
    | poll addr mask value timeoutUs => exact pollMatch_safe _ _ _ _
    | block addr data =>
      refine Program.Safe.bind (fun w => ?_) fun _ => safe_pure _
      obtain ⟨trace, hrun⟩ := writeBlock_returns (cdoRegOff addr dev cdoBase) 0 data w.trace w.script
      rw [hrun]
      exact fun h => nomatch h
    | nothing => exact safe_pure _
  · exact safe_pure _

theorem switch_continues {entry : Entry} (h : entry.MayContinue) :
    ∃ answers, ∀ trace rest, ∃ trace', entry.switch dev cdoBase ⟨(), trace, answers ++ rest⟩ =
      (.returned (.ok .xaieOk), ⟨(), trace', rest⟩) := by
  rcases entry with action | _
  · cases action with
    | write addr value => exact ⟨[], fun trace rest => ⟨_, rfl⟩⟩
    | update addr mask value => exact ⟨[0], fun trace rest => ⟨_, rfl⟩⟩
    | poll addr mask value timeoutUs =>
      refine ⟨[value], fun trace rest => ⟨trace ++ [.read (cdoRegOff addr dev cdoBase) value], ?_⟩⟩
      have hmatch : value &&& mask = value := h
      rw [Entry.switch, map_eq_pure_bind, Action.run]
      refine bind_of_returned (a := true) _ ?_
      simp [Command.pollMatch, bind_apply, Program.ask, hmatch]
    | block addr data =>
      refine ⟨[], fun trace rest => ?_⟩
      obtain ⟨trace', hrun⟩ := writeBlock_returns (cdoRegOff addr dev cdoBase) 0 data trace rest
      refine ⟨trace', ?_⟩
      rw [Entry.switch, map_eq_pure_bind, Action.run, bind_assoc]
      exact bind_of_returned _ hrun
    | nothing => exact ⟨[], fun trace rest => ⟨_, rfl⟩⟩
  · exact h.elim

theorem switch_stops {entry : Entry} (h : ¬ entry.MayContinue) (w : World RegAccess (BitVec 32) Unit) :
    (entry.switch dev cdoBase w).1 ≠ .returned (.ok .xaieOk) := by
  rcases entry with action | _
  · cases action with
    | poll addr mask value timeoutUs =>
      intro hgoes
      obtain ⟨succeeded, hrun, hok⟩ := exists_of_map_returned hgoes
      cases succeeded with
      | false => exact nomatch hok
      | true => exact pollMatch_no_match h _ w hrun
    | _ => exact absurd trivial h
  · exact fun h => nomatch h

theorem HoldsAt.getElem? (h : HoldsAt mem buf words) {payload j : ℕ} (hj : payload + j < words.length) :
    words[payload + j]? = some (wordAt mem (buf + payload + j)) := by
  rw [wordAt, Nat.add_assoc, h, List.getElem?_eq_getElem hj, Option.getD_some]

/-- Whether a command may be passed can be read off its words. -/
theorem mayContinue_iff (h : HoldsAt mem buf words)
    (hfits : cmd.payload + wordsRead (commandId words) cmd.payloadLen ≤ words.length) :
    mayContinue words cmd ↔
      (actionOf (wordAt mem) { cmd with payload := buf + cmd.payload } (commandId words)).MayContinue := by
  unfold mayContinue
  obtain hid | hid | hid | hid | hid | hid | hid | hother := opcode_cases (commandId words)
  · rw [hid]
    exact iff_of_true (show kCmdWrite ∈ _ by decide) trivial
  · rw [hid]
    exact iff_of_true (show kCmdMaskWrite ∈ _ by decide) trivial
  · rw [hid]
    exact iff_of_true (show kCmdWrite64 ∈ _ by decide) trivial
  · rw [hid]
    exact iff_of_true (show kCmdMaskWrite64 ∈ _ by decide) trivial
  · rw [hid] at hfits ⊢
    change cmd.payload + (if cmd.payloadLen < 5#32 then 0 else 5) ≤ _ at hfits
    change (5#32 ≤ cmd.payloadLen ∧ _) ↔ Entry.MayContinue (if cmd.payloadLen < 5#32 then _ else _)
    by_cases hlen : cmd.payloadLen < 5#32
    · rw [if_pos hlen]
      exact iff_of_false (fun hgoes => BitVec.not_lt.2 hgoes.1 hlen) id
    · rw [if_neg hlen] at hfits ⊢
      rw [h.getElem? (by omega), h.getElem? (by omega)]
      simp only [Option.some_inj, exists_and_left, exists_eq_left', and_iff_right (BitVec.not_lt.1 hlen)]
      rfl
  · rw [hid]
    change 2#32 ≤ cmd.payloadLen ↔ Entry.MayContinue (if cmd.payloadLen < 2#32 then _ else _)
    by_cases hlen : cmd.payloadLen < 2#32
    · rw [if_pos hlen]
      exact iff_of_false (fun hgoes => BitVec.not_lt.2 hgoes hlen) id
    · rw [if_neg hlen]
      exact iff_of_true (BitVec.not_lt.1 hlen) trivial
  · rw [hid]
    exact iff_of_true (show kCmdNop ∈ _ by decide) trivial
  · simp only [List.mem_cons, List.not_mem_nil, or_false, not_or] at hother
    simp [actionOf, hother, Entry.MayContinue]

end Commands

section Loop

variable {mem : WordMemory} {buf : ℕ} {words : List (BitVec 32)} {cmd : DecodedCmd}
  {remaining : BitVec 32} (dev : DevInst) (cdoBase : BitVec 64)

theorem commandExtent_payload_le (hcmd : commandExtent words = some cmd) : cmd.payload ≤ words.length := by
  cases words with
  | nil => exact nomatch hcmd
  | cons word0 rest =>
    rw [commandExtent] at hcmd
    split at hcmd
    · obtain ⟨payloadLen, hlen, rfl⟩ := Option.map_eq_some_iff.mp hcmd
      cases rest with
      | nil => exact nomatch hlen
      | cons _ rest => change 2 ≤ rest.length + 1 + 1; omega
    · cases hcmd
      change 1 ≤ rest.length + 1
      omega

theorem sizeAccepted_iff (hrem : remaining.toNat = words.length) :
    sizeAccepted cmd words.length ↔ ¬ (cmd.size = 0 ∨ remaining < cmd.size) := by
  rw [sizeAccepted, not_or, BitVec.not_lt, BitVec.le_def, hrem]

theorem applyCommands_turn (h : HoldsAt mem buf words) (hne : remaining ≠ 0)
    (hcmd : commandExtent words = some cmd) (hsize : ¬ (cmd.size = 0 ∨ remaining < cmd.size)) :
    applyCommands mem dev cdoBase buf remaining =
      (applyCommand mem dev cdoBase { cmd with payload := buf + cmd.payload } (commandId words) >>= fun rc =>
        match rc with
        | .error code => pure code
        | .ok .xaieErr => pure .aieDriverError
        | .ok .xaieOk => applyCommands mem dev cdoBase (buf + cmd.size.toNat) (remaining - cmd.size)) := by
  obtain ⟨word0, rest, rfl⟩ : ∃ word0 rest, words = word0 :: rest := by
    cases words with
    | nil => exact nomatch hcmd
    | cons word0 rest => exact ⟨word0, rest, rfl⟩
  have hword : readWord mem buf = pure word0 := readWord_of_holdsAt h 0
  rw [applyCommands, if_neg hne, decodeCmd_of_holdsAt h, hcmd, Option.map_some, ofOption_some,
    pure_bind, hword, pure_bind, dif_neg hsize]
  rfl

theorem applyCommands_step (h : HoldsAt mem buf words) (hrem : remaining.toNat = words.length)
    (hcmd : commandExtent words = some cmd) (hsize : sizeAccepted cmd words.length) :
    applyCommands mem dev cdoBase buf remaining =
      (applyCommand mem dev cdoBase { cmd with payload := buf + cmd.payload } (commandId words) >>= fun rc =>
        match rc with
        | .error code => pure code
        | .ok .xaieErr => pure .aieDriverError
        | .ok .xaieOk => applyCommands mem dev cdoBase (buf + cmd.size.toNat) (remaining - cmd.size)) := by
  refine applyCommands_turn dev cdoBase h ?_ hcmd ((sizeAccepted_iff hrem).mp hsize)
  rintro rfl
  obtain rfl : words = [] := List.length_eq_zero_iff.mp hrem.symm
  exact nomatch hcmd

theorem applyCommands_faults_of_extent (h : HoldsAt mem buf words) (hrem : remaining.toNat = words.length)
    (hne : words ≠ []) (hcmd : commandExtent words = none) :
    (applyCommands mem dev cdoBase buf remaining).Faults := by
  have hpos : remaining ≠ 0 := by
    rintro rfl
    exact hne (List.length_eq_zero_iff.mp hrem.symm)
  rw [applyCommands, if_neg hpos, decodeCmd_of_holdsAt h, hcmd]
  exact faults_undefined.bind _

theorem remaining_after (hrem : remaining.toNat = words.length) (hsize : sizeAccepted cmd words.length) :
    (remaining - cmd.size).toNat = (words.drop cmd.size.toNat).length := by
  rw [BitVec.toNat_sub_of_le (by rw [BitVec.le_def, hrem]; exact hsize.2), List.length_drop, hrem]

theorem applyCommands_overruns (hover : ReachesOverrun words) (h : HoldsAt mem buf words)
    (hrem : remaining.toNat = words.length) :
    ∃ script, ∀ trace, (applyCommands mem dev cdoBase buf remaining ⟨(), trace, script⟩).1 = .fault := by
  induction hover generalizing buf remaining with
  | lengthWord words hne hcmd =>
    exact ⟨[], fun trace => applyCommands_faults_of_extent dev cdoBase h hrem hne hcmd _⟩
  | payload words cmd hcmd hsize hshort =>
    refine ⟨[], fun trace => ?_⟩
    have hmissing := h.missing (commandExtent_payload_le hcmd) hshort
    rw [applyCommands_step dev cdoBase h hrem hcmd hsize]
    exact ((applyCommand_reading mem dev cdoBase _ (commandId words)).faults hmissing).bind _ _
  | later words cmd hcmd hsize hfits hgoes _ ih =>
    obtain ⟨script, hscript⟩ := ih (h.drop cmd.size.toNat) (remaining_after hrem hsize)
    obtain ⟨answers, hanswers⟩ := switch_continues dev cdoBase ((mayContinue_iff h hfits).1 hgoes)
    refine ⟨answers ++ script, fun trace => ?_⟩
    obtain ⟨trace', htrace⟩ := hanswers trace script
    rw [applyCommands_step dev cdoBase h hrem hcmd hsize,
      (applyCommand_reading mem dev cdoBase _ (commandId words)).eq (h.present hfits), bind_of_returned _ htrace]
    exact hscript trace'

/-- Without a reachable overrun the loop is free of undefined behaviour. -/
theorem applyCommands_safe (hover : ¬ ReachesOverrun words) (h : HoldsAt mem buf words)
    (hrem : remaining.toNat = words.length) : (applyCommands mem dev cdoBase buf remaining).Safe := by
  -- Induction on the words left: every accepted command consumes at least one of them.
  induction hn : words.length using Nat.strong_induction_on generalizing words buf remaining with
  | _ n ih =>
    subst hn
    by_cases hne : words = []
    · subst hne
      have hzero : remaining = 0 := BitVec.eq_of_toNat_eq hrem
      rw [applyCommands, if_pos hzero]
      exact safe_pure _
    · cases hcmd : commandExtent words with
      | none => exact absurd (.lengthWord words hne hcmd) hover
      | some cmd =>
        by_cases hsize : sizeAccepted cmd words.length
        · have hfits : cmd.payload + wordsRead (commandId words) cmd.payloadLen ≤ words.length :=
            Nat.le_of_not_lt fun hshort => hover (.payload words cmd hcmd hsize hshort)
          rw [applyCommands_step dev cdoBase h hrem hcmd hsize,
            (applyCommand_reading mem dev cdoBase _ (commandId words)).eq (h.present hfits)]
          by_cases hgoes : mayContinue words cmd
          · have hrest : ¬ ReachesOverrun (words.drop cmd.size.toNat) := fun hrest =>
              hover (.later words cmd hcmd hsize hfits hgoes hrest)
            have hshorter : (words.drop cmd.size.toNat).length < words.length := by
              have hpos : cmd.size.toNat ≠ 0 := fun hzero => hsize.1 (BitVec.eq_of_toNat_eq hzero)
              have hle := hsize.2
              rw [List.length_drop]
              omega
            refine (switch_safe dev cdoBase _).bind fun rc => ?_
            split
            · exact safe_pure _
            · exact safe_pure _
            · exact ih _ hshorter hrest (h.drop cmd.size.toNat) (remaining_after hrem hsize) rfl
          · -- The command cannot succeed, so the loop ends with it.
            intro w
            have hstops := switch_stops dev cdoBase (fun hgoes' => hgoes ((mayContinue_iff h hfits).2 hgoes')) w
            generalize actionOf (wordAt mem) _ (commandId words) = entry at hstops ⊢
            have hsafe := switch_safe dev cdoBase entry w
            rw [bind_apply]
            revert hsafe
            revert hstops
            rcases Entry.switch dev cdoBase _ w with ⟨(code | _ | _) | _ | _, w'⟩
            · rintro - - ⟨⟩
            · exact fun hstops => absurd rfl hstops
            · rintro - - ⟨⟩
            · rintro - - ⟨⟩
            · exact fun _ hsafe => absurd rfl hsafe
        · rw [sizeAccepted_iff hrem, not_not] at hsize
          obtain ⟨word0, rest, rfl⟩ := List.exists_cons_of_ne_nil hne
          have hpos : remaining ≠ 0 := by
            rintro rfl
            simp at hrem
          have hword : readWord mem buf = pure word0 := readWord_of_holdsAt h 0
          rw [applyCommands, if_neg hpos, decodeCmd_of_holdsAt h, hcmd, Option.map_some, ofOption_some,
            pure_bind, hword, pure_bind, dif_pos hsize]
          exact safe_pure _

end Loop

/-- The payload length a blob announces in header word 3. -/
def announcedLen (words : List (BitVec 32)) : ℕ := (words.getD 3 0).toNat

/-- The words a blob announces as its payload. -/
def announcedPayload (words : List (BitVec 32)) : List (BitVec 32) :=
  (words.drop kCdoHdrLen).take (announcedLen words)

/-- The checks of the header: length, magic, checksum, payload length. -/
def headerAccepted (words : List (BitVec 32)) : Prop :=
  kCdoHdrLen < words.length ∧ words.getD 1 0 = kCdoHdrIdnWrd ∧
    headerChecksum (words.getD 0 0) (words.getD 1 0) (words.getD 2 0) (words.getD 3 0) = words.getD 4 0 ∧
    announcedLen words ≤ words.length - kCdoHdrLen

instance (words : List (BitVec 32)) : Decidable (headerAccepted words) := by
  unfold headerAccepted
  infer_instance

/-- The words the parser may read: up to the end of the announced payload. -/
def blobWindow (blob : List UInt8) : WordMemory := fun i =>
  if i < kCdoHdrLen + announcedLen (byteWords blob) then (byteWords blob)[i]? else none

theorem blobWindow_holdsAt (blob : List UInt8) :
    HoldsAt (blobWindow blob) kCdoHdrLen (announcedPayload (byteWords blob)) := by
  intro k
  rw [blobWindow, announcedPayload, List.getElem?_take, List.getElem?_drop]
  simp only [Nat.add_lt_add_iff_left]

/-- A blob longer than its header is judged by the header's words alone. -/
theorem parseAndApply_of_long (blob : List UInt8) (dev : DevInst) (cdoBase : BitVec 64) (mem : WordMemory)
    (hhdr : ∀ i < kCdoHdrLen, mem i = (byteWords blob)[i]?) (hlong : kCdoHdrLen < (byteWords blob).length) :
    parseAndApply (some mem) blob.length (some dev) cdoBase = if headerAccepted (byteWords blob) then
        applyCommands mem dev cdoBase kCdoHdrLen ((byteWords blob).getD 3 0) else pure .userError := by
  have hread (i : ℕ) (hi : i < kCdoHdrLen) : readWord mem i = pure ((byteWords blob).getD i 0) := by
    have hlt : i < (byteWords blob).length := Nat.lt_trans hi hlong
    rw [readWord, hhdr i hi, List.getElem?_eq_getElem hlt, ofOption_some, List.getD_eq_getElem?_getD,
      List.getElem?_eq_getElem hlt, Option.getD_some]
  simp only [parseAndApply, ← byteWords_length, Nat.not_le.mpr hlong, if_false, hread 0 (by decide),
    hread 1 (by decide), hread 2 (by decide), hread 3 (by decide), hread 4 (by decide), pure_bind,
    headerAccepted, hlong, true_and, announcedLen]
  by_cases hmagic : (byteWords blob).getD 1 0 = kCdoHdrIdnWrd
  · by_cases hsum : headerChecksum ((byteWords blob).getD 0 0) ((byteWords blob).getD 1 0)
        ((byteWords blob).getD 2 0) ((byteWords blob).getD 3 0) = (byteWords blob).getD 4 0
    · rw [if_neg (not_not.mpr hmagic), if_neg (not_not.mpr hsum)]
      by_cases hlen : ((byteWords blob).getD 3 0).toNat ≤ (byteWords blob).length - kCdoHdrLen
      · rw [if_neg (Nat.not_lt.mpr hlen), if_pos ⟨hmagic, hsum, hlen⟩]
      · rw [if_pos (Nat.not_le.mp hlen), if_neg (fun h => hlen h.2.2)]
    · rw [if_neg (not_not.mpr hmagic), if_pos hsum, if_neg (fun h => hsum h.2.1)]
  · rw [if_pos hmagic, if_neg (fun h => hmagic h.1)]

theorem parseAndApply_of_headerAccepted (blob : List UInt8) (dev : DevInst) (cdoBase : BitVec 64)
    (mem : WordMemory) (hhdr : ∀ i < kCdoHdrLen, mem i = (byteWords blob)[i]?)
    (haccept : headerAccepted (byteWords blob)) :
    parseAndApply (some mem) blob.length (some dev) cdoBase =
      applyCommands mem dev cdoBase kCdoHdrLen ((byteWords blob).getD 3 0) := by
  rw [parseAndApply_of_long blob dev cdoBase mem hhdr haccept.1, if_pos haccept]

theorem parseAndApply_of_not_headerAccepted (blob : List UInt8) (dev : DevInst) (cdoBase : BitVec 64)
    (mem : WordMemory) (hhdr : ∀ i < kCdoHdrLen, mem i = (byteWords blob)[i]?)
    (hreject : ¬ headerAccepted (byteWords blob)) :
    parseAndApply (some mem) blob.length (some dev) cdoBase = pure .userError := by
  by_cases hlong : kCdoHdrLen < (byteWords blob).length
  · rw [parseAndApply_of_long blob dev cdoBase mem hhdr hlong, if_neg hreject]
  · simp only [parseAndApply, ← byteWords_length, Nat.not_lt.mp hlong, if_true]

theorem blobWindow_header (blob : List UInt8) (i : ℕ) (hi : i < kCdoHdrLen) :
    blobWindow blob i = (byteWords blob)[i]? := by
  rw [blobWindow, if_pos (by omega)]

theorem announcedPayload_length (words : List (BitVec 32)) (haccept : headerAccepted words) :
    (words.getD 3 0).toNat = (announcedPayload words).length := by
  obtain ⟨-, -, -, hlen⟩ := haccept
  rw [announcedPayload, List.length_take, List.length_drop, Nat.min_eq_left hlen, announcedLen]

/-- The parser reads only words of the blob, and after the header only announced ones, exactly when an accepted
header announces a payload without a reachable overrun. -/
theorem parseAndApply_in_bounds_iff (blob : List UInt8) (dev : Option DevInst) (cdoBase : BitVec 64) :
    (parseAndApply (some (blobWindow blob)) blob.length dev cdoBase).Safe ↔
      (dev ≠ none → headerAccepted (byteWords blob) → ¬ ReachesOverrun (announcedPayload (byteWords blob))) := by
  cases dev with
  | none => exact ⟨fun _ hdev => absurd rfl hdev, fun _ => Program.safe_pure _⟩
  | some dev =>
    by_cases haccept : headerAccepted (byteWords blob)
    · rw [parseAndApply_of_headerAccepted blob dev cdoBase _ (blobWindow_header blob) haccept]
      have hlen := announcedPayload_length _ haccept
      constructor
      · intro hsafe _ _ hover
        obtain ⟨script, hfault⟩ := applyCommands_overruns dev cdoBase hover (blobWindow_holdsAt blob) hlen
        exact hsafe _ (hfault [])
      · intro hbounds
        exact applyCommands_safe dev cdoBase (hbounds (Option.some_ne_none dev) haccept)
          (blobWindow_holdsAt blob) hlen
    · rw [parseAndApply_of_not_headerAccepted blob dev cdoBase _ (blobWindow_header blob) haccept]
      exact ⟨fun _ _ h => absurd h haccept, fun _ => Program.safe_pure _⟩

def oneWordHeader :
    List (BitVec 32) := [0#32, kCdoHdrIdnWrd, 0#32, 1#32, headerChecksum 0#32 kCdoHdrIdnWrd 0#32 1#32]

/-- A blob whose only command is a WRITE without payload. -/
def truncatedWrite : List UInt8 := (oneWordHeader ++ [kCmdWrite]).flatMap wordBytes

/-- The truncated WRITE passes every check and reads behind the blob. -/
theorem truncatedWrite_reads_behind_blob :
    ¬ (parseAndApply (some (blobWindow truncatedWrite)) truncatedWrite.length (some ⟨0#64⟩) 0#64).Safe := by
  have hwords : byteWords truncatedWrite = oneWordHeader ++ [kCmdWrite] := by decide
  have haccept : headerAccepted (byteWords truncatedWrite) := by
    rw [hwords]
    exact ⟨by decide, by decide, by decide, by decide⟩
  have hpayload : announcedPayload (byteWords truncatedWrite) = [kCmdWrite] := by rw [hwords]; decide
  intro hsafe
  rw [parseAndApply_of_headerAccepted _ _ _ _ (blobWindow_header truncatedWrite) haccept] at hsafe
  obtain ⟨script, hfault⟩ := applyCommands_overruns ⟨0#64⟩ 0#64
    (.payload _ ⟨1, 0#32, 1#32⟩ (by rw [hpayload]; decide) ⟨by decide, by rw [hpayload]; decide⟩
      (by rw [hpayload]; decide)) (blobWindow_holdsAt truncatedWrite) (announcedPayload_length _ haccept)
  exact hsafe _ (hfault [])

end AieBaremetal.Cdo
