import Subown.CoreClaim
import Subown.WireTransparency

/-! Claims that travel. `subown_claim_local` narrows the claimant's id to the owner byte; the
frame of the claim reaches a peer under the claimant's name exactly when the id is one the
wire knows. -/
namespace Subown

/-- The emitter of a box: the encoded update is in flight. -/
def wireEmitter : EmitUpdateFn (List Frame) := fun update inFlight =>
  match encodeUpdateV1 update wireV1FrameSize with
  | none => (.errCallbackFailed, inFlight)
  | some frame => (.ok, inFlight ++ [frame])

/-- The peer takes the update `u` for the claim that `claimed` records. -/
structure PeerAdopts (claimed peer : SubownRecord) (localBoxId : UInt16) (u : SubownUpdate) :
    Prop where
  status : (applyRemoteUpdate peer u).status = .ok
  decision : (applyRemoteUpdate peer u).out.decision = .applyRemote
  ownerBoxId : (applyRemoteUpdate peer u).record.ownerBoxId = localBoxId
  generation : (applyRemoteUpdate peer u).record.generation = claimed.generation
  ownerEpoch : (applyRemoteUpdate peer u).record.ownerEpoch = claimed.ownerEpoch
  activationTs : (applyRemoteUpdate peer u).record.activationTs = claimed.activationTs
  policyMask : (applyRemoteUpdate peer u).record.policyMask = claimed.policyMask

/-- A claim that reports success leaves the claimant's id in the record and a frame that
every peer not ahead of it adopts under that id. -/
def ReachesPeer (r : SubownRecord) (localBoxId : UInt16) (now : UInt64) : Prop :=
  ∀ (inFlight : List Frame) (out : SubownResult),
    let called := claimLocal r localBoxId now (some wireEmitter) inFlight out
    called.status = .ok → called.out.decision = .emitLocalUpdate →
      called.record.ownerBoxId = localBoxId ∧
      ∃ frame, called.userCtx = inFlight ++ [frame] ∧
        ∃ u, decodeUpdateV1 frame = some u ∧
          ∀ peer, peer.subscriberId = r.subscriberId → peer.stamp ≤ r.stamp →
            PeerAdopts called.record peer localBoxId u

variable {r : SubownRecord} {o : UInt8} {now : UInt64}

/-! ### Frames of claims -/

theorem wireEmitter_eq (u : SubownUpdate) (inFlight : List Frame) :
    wireEmitter u inFlight = (.ok, inFlight ++ [frameBytes u]) := by
  simp [wireEmitter]

/-- Both owner fields of a claim hold its owner, so the encoder sends it whatever it is. -/
theorem wireOwner_claim (r : SubownRecord) (o : UInt8) (now : UInt64) :
    wireOwner (claimUpdate (claimedRecord r o now)) = o := by
  simp [wireOwner, claimUpdate, claimedRecord]

theorem claimUpdate_owner (ho : KnownOwner o) (r : SubownRecord) (now : UInt64) :
    (claimUpdate (claimedRecord r o now)).owner = o := normalizeOwner_self ho

theorem claimUpdate_ts (r : SubownRecord) (o : UInt8) (now : UInt64) :
    (claimUpdate (claimedRecord r o now)).ts = now := normalizeTs_self now

theorem claimUpdate_key (ho : KnownOwner o) (r : SubownRecord) (now : UInt64) :
    (claimUpdate (claimedRecord r o now)).key = (claimedRecord r o now).key := by
  unfold SubownUpdate.key
  rw [claimUpdate_owner ho]
  rfl

theorem decodeUpdateV1_claim_isSome (r : SubownRecord) (o : UInt8) (now : UInt64) :
    (decodeUpdateV1 (frameBytes (claimUpdate (claimedRecord r o now)))).isSome = true ↔
      KnownOwner o := by
  rw [decodeUpdateV1_frameBytes, wireOwner_claim]
  split_ifs with h <;> simp [h]

/-- A claim announces itself unchanged: the receiver decodes the update the claim made. -/
theorem decodeUpdateV1_claim (ho : KnownOwner o) (r : SubownRecord) (now : UInt64) :
    decodeUpdateV1 (frameBytes (claimUpdate (claimedRecord r o now))) =
      some (claimUpdate (claimedRecord r o now)) := by
  rw [decodeUpdateV1_frameBytes, wireOwner_claim, if_pos ho, Option.some.injEq]
  simp only [carried, wireOwner_claim, claimUpdate_ts]
  rfl

/-! ### Reaching the peer -/

theorem knownOwnerId_iff (id : UInt16) :
    KnownOwnerId id ↔ KnownOwner id.toUInt8 ∧ id.toUInt8.toUInt16 = id := by
  constructor
  · exact fun h => ⟨h.toUInt8, h.eq⟩
  · rintro ⟨h, e⟩
    unfold KnownOwnerId
    rw [← e]
    rcases h with h | h | h <;> simp [h]

/-- A peer that is not ahead of the claimant's old record adopts the claim. -/
theorem peerAdopts_claim (ho : KnownOwner o) (hgen : r.generation ≠ 0xFFFFFFFF)
    {peer : SubownRecord} (hsid : peer.subscriberId = r.subscriberId)
    (hstamp : peer.stamp ≤ r.stamp) :
    PeerAdopts (claimedRecord r o now) peer o.toUInt16 (claimUpdate (claimedRecord r o now)) := by
  have hvalid : ValidFor peer (claimUpdate (claimedRecord r o now)) := ⟨rfl, hsid.symm⟩
  have hnewer : peer.stamp < (claimUpdate (claimedRecord r o now)).stamp :=
    hstamp.trans_lt (claimedRecord_stamp o now hgen)
  have happly := applyRemoteUpdate_newer hvalid hnewer
  constructor <;> rw [happly]
  · simp only [adopt, claimUpdate_owner ho]
  · rfl
  · rfl
  · simp only [adopt, claimUpdate_ts]
    rfl
  · rfl

/-- A claim below the last generation that reports success reaches the peer exactly when its
id is known to the wire; a claim by the present local owner is a refresh and sends nothing. -/
theorem claim_reaches_iff_known_id (r : SubownRecord) (localBoxId : UInt16) (now : UInt64)
    (hgen : r.generation ≠ 0xFFFFFFFF) :
    ReachesPeer r localBoxId now ↔
      KnownOwnerId localBoxId ∨ (r.ownerBox = localBoxId.toUInt8 ∧ r.state = .stateLocal) := by
  by_cases hrefresh : r.ownerBox = localBoxId.toUInt8 ∧ r.state = .stateLocal
  · refine ⟨fun _ => Or.inr hrefresh, fun _ inFlight out => ?_⟩
    rw [claimLocal_refresh hrefresh.1 hrefresh.2]
    intro called _ hemit
    cases hemit
  have hcall : ∀ inFlight out, claimLocal r localBoxId now (some wireEmitter) inFlight out =
      ⟨.ok, claimedRecord r localBoxId.toUInt8 now,
        inFlight ++ [frameBytes (claimUpdate (claimedRecord r localBoxId.toUInt8 now))],
        ⟨.emitLocalUpdate, .localClaim⟩⟩ := by
    intro inFlight out
    rw [claimLocal_claim hrefresh]
    simp [wireEmitter_eq]
  constructor
  · intro h
    obtain ⟨hid, frame, hframe, u, hdec, _⟩ :=
      h [] ⟨.noop, .invalidMessage⟩ (by rw [hcall]) (by rw [hcall])
    rw [hcall] at hid hframe
    obtain rfl : _ = frame := by simpa using hframe
    have hknown := (decodeUpdateV1_claim_isSome r _ now).mp (Option.isSome_of_mem hdec)
    exact Or.inl ((knownOwnerId_iff localBoxId).mpr ⟨hknown, hid⟩)
  · intro h
    obtain ⟨hknown, hid⟩ := (knownOwnerId_iff localBoxId).mp (h.resolve_right hrefresh)
    intro inFlight out called _ _
    have hcalled : called = _ := hcall inFlight out
    rw [hcalled]
    refine ⟨hid, _, rfl, _, decodeUpdateV1_claim hknown _ _, ?_⟩
    intro peer hsid hstamp
    have hadopts : PeerAdopts (claimedRecord r localBoxId.toUInt8 now) peer
        localBoxId.toUInt8.toUInt16 _ := peerAdopts_claim hknown hgen hsid hstamp
    rw [hid] at hadopts
    exact hadopts

theorem claim_reaches_iff_known_id_box1 : ReachesPeer (mkRecord 400 unownedState 5) 1 500 :=
  (claim_reaches_iff_known_id (mkRecord 400 unownedState 5) 1 500 (by decide)).mpr
    (Or.inl (by decide))

/-- Id 2 fits the owner byte and is claimed, but no peer decodes the frame. -/
theorem claim_of_unknown_id_lost :
    ¬ ∀ r localBoxId now, r.generation ≠ 0xFFFFFFFF → ReachesPeer r localBoxId now := by
  intro h
  obtain ⟨_, frame, hframe, u, hdec, _⟩ := h (mkRecord 400 unownedState 5) 2 500 (by decide) []
    ⟨.noop, .invalidMessage⟩ (by decide) (by decide)
  have hsent : frameBytes (claimUpdate (claimedRecord (mkRecord 400 unownedState 5) 2 500)) =
      frame := List.singleton_inj.mp hframe
  rw [← hsent] at hdec
  exact absurd ((decodeUpdateV1_claim_isSome _ _ _).mp (Option.isSome_of_mem hdec)) (by decide)

end Subown
