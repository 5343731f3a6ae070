import Subown.ClaimOverWire

/-! Fault injection in `box_sim.c`: after a claim the main loop sends the update again, built
a second time by a designated initializer that names only some of its fields. -/
namespace Subown

variable {σ : Type*}

/-- `subown_zmq_emit_update`; what `zmq_send` returns and does is a parameter. -/
def zmqEmitUpdate (zmqSend : Frame → σ → Int × σ) : EmitUpdateFn σ := fun update pub =>
  match encodeUpdateV1 update wireV1FrameSize with
  | none => (.errInvalidArgument, pub)
  | some wire =>
      let sent := zmqSend wire pub
      if sent.1 = wire.length then (.ok, sent.2) else (.errCallbackFailed, sent.2)

/-- The record of a simulated box before its first iteration. -/
def simRecord (subscriberId timestamp : UInt64) (ownerEpoch : UInt32) : SubownRecord where
  subscriberId := subscriberId
  generation := 0
  ownerBox := 0
  reserved := (0, 0, 0)
  policyMask := 0
  activationTs := 0
  lastSeenTs := 0
  remotePacketCounter := 0
  ownerBoxId := 0xFFFF
  timestamp := timestamp
  ownerEpoch := ownerEpoch
  state := .stateUnowned

/-- The duplicate update; the initializer leaves the fields it does not name zero. -/
def duplicateUpdate (record : SubownRecord) : SubownUpdate where
  msgVersion := msgVersion1
  subscriberId := record.subscriberId
  generation := record.generation
  ownerBox := 0
  reserved := (0, 0, 0)
  activationTs := 0
  policyMask := 0
  ownerBoxId := record.ownerBoxId
  timestamp := record.timestamp
  ownerEpoch := record.ownerEpoch

/-- The variables of `main` that the claim of an iteration reads and writes. -/
structure SimState (σ : Type*) where
  record : SubownRecord
  result : SubownResult
  adapter : σ
  claimedOnce : Bool
  claimsTotal : UInt64
  emitsTotal : UInt64

/-- The loop over `emit_dup_count`. -/
def emitDuplicates (zmqSend : Frame → σ → Int × σ) : ℕ → SimState σ → SimState σ
  | 0, st => st
  | remaining + 1, st =>
      emitDuplicates zmqSend remaining
        { st with
          adapter := (zmqEmitUpdate zmqSend (duplicateUpdate st.record) st.adapter).2
          emitsTotal := st.emitsTotal + 1 }

/-- The claim of one iteration of `main`, with the duplicates it injects. -/
def claimIteration (zmqSend : Frame → σ → Int × σ) (boxId : UInt16) (emitDupCount : UInt32)
    (now : UInt64) (st : SimState σ) : SimState σ :=
  let s := claimLocal st.record boxId now (some (zmqEmitUpdate zmqSend)) st.adapter st.result
  let st := { st with record := s.record, adapter := s.userCtx, result := s.out }
  if s.status = .ok ∧ s.out.decision = .emitLocalUpdate then
    emitDuplicates zmqSend emitDupCount.toNat
      { st with
        claimedOnce := true
        claimsTotal := st.claimsTotal + 1
        emitsTotal := st.emitsTotal + 1 }
  else st

/-- The receive loop of `main` on frames that arrive unchanged: the final record, and the
result of each frame the decoder accepts. -/
def receiveAll : SubownRecord → List Frame → SubownRecord × List SubownResult
  | record, [] => (record, [])
  | record, wire :: wires =>
      match decodeUpdateV1 wire with
      | none => receiveAll record wires
      | some incoming =>
          let applied := applyRemoteUpdate record incoming
          let rest := receiveAll applied.record wires
          (rest.1, applied.out :: rest.2)

/-- A socket that logs the frames it is handed and answers as told. -/
def loggingSend (answer : List Frame → Int) : Frame → List Frame → Int × List Frame :=
  fun wire sent => (answer sent, sent ++ [wire])

/-- The duplicates of a claim are its frame, and no receiver can tell them from it. -/
structure TrueDuplicates (r : SubownRecord) (original : Frame) (duplicates : List Frame) :
    Prop where
  bytes : ∀ frame ∈ duplicates, frame = original
  record : ∀ receiver : SubownRecord, receiver.subscriberId = r.subscriberId →
    (receiveAll receiver (original :: duplicates)).1 = (receiveAll receiver [original]).1
  dropped : ∀ receiver : SubownRecord, receiver.subscriberId = r.subscriberId →
    ∀ first rest, (receiveAll receiver (original :: duplicates)).2 = first :: rest →
      first.decision = .applyRemote →
        rest = List.replicate duplicates.length ⟨.noop, .dropDuplicate⟩

variable {r : SubownRecord} {b : Box} {now : UInt64}

/-! ### The frames of an iteration -/

theorem zmqEmitUpdate_log (answer : List Frame → Int) (u : SubownUpdate) (sent : List Frame) :
    zmqEmitUpdate (loggingSend answer) u sent =
      (if answer sent = 40 then .ok else .errCallbackFailed, sent ++ [frameBytes u]) := by
  simp only [zmqEmitUpdate, encodeUpdateV1_frameSize, loggingSend, length_frameBytes]
  split_ifs <;> simp_all

theorem emitDuplicates_sent (answer : List Frame → Int) (n : ℕ) (st : SimState (List Frame)) :
    (emitDuplicates (loggingSend answer) n st).adapter =
      st.adapter ++ List.replicate n (frameBytes (duplicateUpdate st.record)) := by
  induction n generalizing st with
  | zero => simp [emitDuplicates]
  | succ n ih =>
      rw [emitDuplicates, ih, zmqEmitUpdate_log, List.replicate_succ]
      simp

/-- The claim of an iteration is emitted: it was no refresh and the socket took the frame. -/
def ClaimEmitted (answer : List Frame → Int) (b : Box) (now : UInt64)
    (st : SimState (List Frame)) : Prop :=
  let s := claimLocal st.record b.id.toUInt16 now (some (zmqEmitUpdate (loggingSend answer)))
    st.adapter st.result
  s.status = .ok ∧ s.out.decision = .emitLocalUpdate

theorem ClaimEmitted.outcome {answer : List Frame → Int} {st : SimState (List Frame)}
    (h : ClaimEmitted answer b now st) :
    claimLocal st.record b.id.toUInt16 now (some (zmqEmitUpdate (loggingSend answer)))
        st.adapter st.result =
      ⟨.ok, claimedRecord st.record b.id now,
        st.adapter ++ [frameBytes (claimUpdate (claimedRecord st.record b.id now))],
        ⟨.emitLocalUpdate, .localClaim⟩⟩ := by
  obtain ⟨hok, hemit⟩ := h
  by_cases hrefresh : st.record.ownerBox = b.id.toUInt16.toUInt8 ∧ st.record.state = .stateLocal
  · rw [claimLocal_refresh hrefresh.1 hrefresh.2] at hemit
    cases hemit
  · rw [claimLocal_claim hrefresh, toUInt8_toUInt16] at hok ⊢
    dsimp only at hok ⊢
    rw [zmqEmitUpdate_log] at hok ⊢
    dsimp only at hok ⊢
    split_ifs at hok ⊢ <;> simp_all

/-- What an iteration sends after a claim that was emitted. -/
theorem ClaimEmitted.sent {answer : List Frame → Int} {st : SimState (List Frame)}
    (h : ClaimEmitted answer b now st) (emitDupCount : UInt32) :
    (claimIteration (loggingSend answer) b.id.toUInt16 emitDupCount now st).adapter =
      st.adapter ++ frameBytes (claimUpdate (claimedRecord st.record b.id now)) ::
        List.replicate emitDupCount.toNat
          (frameBytes (duplicateUpdate (claimedRecord st.record b.id now))) := by
  simp [claimIteration, h.outcome, emitDuplicates_sent]

/-! ### Bytes -/

theorem wireOwner_duplicate (r : SubownRecord) : wireOwner (duplicateUpdate r) = box0Id := rfl

/-- The initializer forgets the native owner and the policy, and the encoder reads both. -/
theorem duplicate_frame_iff (r : SubownRecord) (b : Box) (now : UInt64) :
    frameBytes (duplicateUpdate (claimedRecord r b.id now)) =
        frameBytes (claimUpdate (claimedRecord r b.id now)) ↔
      b = .box0 ∧ r.policyMask = 0 := by
  constructor
  · intro h
    have hdec := congrArg decodeUpdateV1 h
    have hknown : KnownOwner (wireOwner (duplicateUpdate (claimedRecord r b.id now))) :=
      Or.inl (wireOwner_duplicate _)
    rw [decodeUpdateV1_claim b.isBoxId.known, decodeUpdateV1_frameBytes, if_pos hknown,
      Option.some.injEq] at hdec
    have howner : box0Id = b.id := congrArg SubownUpdate.ownerBox hdec
    have hpolicy : 0 = r.policyMask := congrArg SubownUpdate.policyMask hdec
    exact ⟨Box.id_inj howner.symm, hpolicy.symm⟩
  · rintro ⟨rfl, hpolicy⟩
    simp only [frameBytes, wireOwner_claim, wireOwner_duplicate]
    simp [duplicateUpdate, claimUpdate, claimedRecord, hpolicy, Box.id]

/-! ### The receiver -/

/-- A frame that does not change the record does not change it any number of times. -/
theorem receiveAll_replicate {frame : Frame} {u : SubownUpdate}
    (hdec : decodeUpdateV1 frame = some u) (hkeep : (applyRemoteUpdate r u).record = r) (n : ℕ) :
    receiveAll r (List.replicate n frame) =
      (r, List.replicate n (applyRemoteUpdate r u).out) := by
  induction n with
  | zero => rfl
  | succ n ih => simp [List.replicate_succ, receiveAll, hdec, hkeep, ih]

/-- What was applied once is outranked. -/
theorem applyRemoteUpdate_again {u : SubownUpdate} (hv : ValidFor r u) :
    (applyRemoteUpdate (applyRemoteUpdate r u).record u).record =
      (applyRemoteUpdate r u).record := by
  have hv' : ValidFor (applyRemoteUpdate r u).record u :=
    ⟨hv.1, hv.2.trans (applyRemoteUpdate_subscriberId r u).symm⟩
  rw [applyRemoteUpdate_record hv', StrictBest.take_of_le]
  rw [applyRemoteUpdate_record hv, StrictBest.rank_take key_adopt]
  exact le_max_right _ _

/-- What won once is a duplicate from then on. -/
theorem applyRemoteUpdate_duplicate {u : SubownUpdate} (hv : ValidFor r u)
    (hwin : (applyRemoteUpdate r u).out.decision = .applyRemote) :
    (applyRemoteUpdate (applyRemoteUpdate r u).record u).out = ⟨.noop, .dropDuplicate⟩ := by
  have hadopt : (applyRemoteUpdate r u).record = adopt r u := by
    rcases applyRemoteUpdate_cases hv with ⟨_, e⟩ | ⟨_, e⟩ | ⟨_, _, e⟩ | ⟨_, _, e⟩ | ⟨_, _, e⟩ <;>
      rw [e] at hwin ⊢ <;> cases hwin
  rw [hadopt]
  have hv' : ValidFor (adopt r u) u := hv
  obtain ⟨_, e⟩ | ⟨hlt, _⟩ | ⟨hlt, _⟩ := applyRemoteUpdate_tie hv' rfl
  · exact e
  · exact absurd hlt (UInt8.lt_irrefl _)
  · exact absurd hlt (UInt8.lt_irrefl _)

theorem trueDuplicates_replicate {frame : Frame} {u : SubownUpdate}
    (hdec : decodeUpdateV1 frame = some u) (hsid : u.subscriberId = r.subscriberId) (n : ℕ) :
    TrueDuplicates r frame (List.replicate n frame) := by
  have hreceive : ∀ receiver : SubownRecord, receiver.subscriberId = r.subscriberId →
      ValidFor receiver u ∧ receiveAll receiver (frame :: List.replicate n frame) =
        ((applyRemoteUpdate receiver u).record, (applyRemoteUpdate receiver u).out ::
          List.replicate n (applyRemoteUpdate (applyRemoteUpdate receiver u).record u).out) := by
    intro receiver hreceiver
    have hv : ValidFor receiver u :=
      ⟨(decodeUpdateV1_wellFormed hdec).version, hsid.trans hreceiver.symm⟩
    refine ⟨hv, ?_⟩
    simp [receiveAll, hdec, receiveAll_replicate hdec (applyRemoteUpdate_again hv)]
  constructor
  · intro f hf
    exact List.eq_of_mem_replicate hf
  · intro receiver hreceiver
    rw [(hreceive receiver hreceiver).2]
    simp [receiveAll, hdec]
  · intro receiver hreceiver first rest hresults hwin
    obtain ⟨hv, e⟩ := hreceive receiver hreceiver
    rw [e] at hresults
    obtain ⟨rfl, rfl⟩ := List.cons.inj hresults
    rw [applyRemoteUpdate_duplicate hv hwin, List.length_replicate]

/-- After a claim that was emitted, the injected duplicates are true duplicates exactly for
box 0 and a record without policy bits. -/
theorem duplicates_true_iff (answer : List Frame → Int) (b : Box) (now : UInt64)
    (st : SimState (List Frame)) (hclaim : ClaimEmitted answer b now st) :
    (∀ emitDupCount : UInt32, ∃ original duplicates,
      (claimIteration (loggingSend answer) b.id.toUInt16 emitDupCount now st).adapter =
        st.adapter ++ original :: duplicates ∧
      duplicates.length = emitDupCount.toNat ∧ TrueDuplicates st.record original duplicates) ↔
    b = .box0 ∧ st.record.policyMask = 0 := by
  rw [← duplicate_frame_iff st.record b now]
  constructor
  · intro h
    obtain ⟨original, duplicates, hsent, _, htrue⟩ := h 1
    rw [hclaim.sent] at hsent
    obtain ⟨rfl, rfl⟩ := List.cons.inj (List.append_cancel_left hsent)
    exact htrue.bytes _ (List.mem_singleton.mpr rfl)
  · intro h emitDupCount
    refine ⟨_, _, hclaim.sent emitDupCount, List.length_replicate .., ?_⟩
    have hdec := decodeUpdateV1_claim b.isBoxId.known st.record now
    have hsid : (claimUpdate (claimedRecord st.record b.id now)).subscriberId =
        st.record.subscriberId := rfl
    rw [h]
    exact trueDuplicates_replicate hdec hsid _

theorem duplicates_true_iff_box0 : ∃ original duplicates,
    (claimIteration (loggingSend fun _ => 40) Box.box0.id.toUInt16 2 20
      ⟨simRecord 3001 7 1, ⟨.noop, .invalidMessage⟩, [], false, 0, 0⟩).adapter =
      [] ++ original :: duplicates ∧
    duplicates.length = 2 ∧ TrueDuplicates (simRecord 3001 7 1) original duplicates :=
  (duplicates_true_iff (fun _ => 40) .box0 20
    ⟨simRecord 3001 7 1, ⟨.noop, .invalidMessage⟩, [], false, 0, 0⟩
    ⟨by decide, by decide⟩).mpr ⟨rfl, rfl⟩ 2

/-- Box 1 claims; its first duplicate names box 0, which wins the tie at the receiver. -/
theorem duplicate_of_box1_differs :
    ¬ ∀ b now st, ClaimEmitted (fun _ => 40) b now st → ∀ emitDupCount : UInt32,
      ∃ original duplicates,
        (claimIteration (loggingSend fun _ => 40) b.id.toUInt16 emitDupCount now st).adapter =
          st.adapter ++ original :: duplicates ∧
        duplicates.length = emitDupCount.toNat ∧
          TrueDuplicates st.record original duplicates := by
  intro h
  let st : SimState (List Frame) :=
    ⟨simRecord 3001 7 1, ⟨.noop, .invalidMessage⟩, [], false, 0, 0⟩
  have hclaim : ClaimEmitted (fun _ => 40) .box1 20 st := ⟨by decide, by decide⟩
  obtain ⟨original, duplicates, hsent, _, htrue⟩ := h .box1 20 st hclaim 1
  rw [hclaim.sent] at hsent
  obtain ⟨rfl, rfl⟩ := List.cons.inj (List.append_cancel_left hsent)
  have hsame := htrue.bytes _ (List.mem_singleton.mpr rfl)
  exact absurd ((duplicate_frame_iff _ _ _).mp hsame).1 (by decide)

end Subown
