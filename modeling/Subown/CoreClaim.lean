import Subown.CoreResolver

/-! Local claims and the packet fast path: `subown_claim_local` and
`subown_process_packet_event`. The emitter is a callback over an arbitrary context. -/
namespace Subown

variable {σ : Type*}

structure ClaimOutcome (σ : Type*) where
  status : SubownStatus
  record : SubownRecord
  userCtx : σ
  out : SubownResult

/-- The record as a claim leaves it before the emitter runs. -/
def claimedRecord (record : SubownRecord) (localOwner : UInt8) (now : UInt64) : SubownRecord :=
  { record with
    ownerBox := localOwner
    ownerBoxId := localOwner.toUInt16
    generation := record.generation + 1
    activationTs := now
    timestamp := now
    lastSeenTs := now
    remotePacketCounter := 0
    state := .stateLocal }

/-- The update a claim hands to the emitter. The source leaves the reserved bytes
unset; nothing reads them. -/
def claimUpdate (record : SubownRecord) : SubownUpdate where
  msgVersion := msgVersion1
  subscriberId := record.subscriberId
  generation := record.generation
  ownerBox := record.ownerBox
  reserved := (0, 0, 0)
  ownerBoxId := record.ownerBox.toUInt16
  activationTs := record.activationTs
  timestamp := record.activationTs
  policyMask := record.policyMask
  ownerEpoch := record.ownerEpoch

def claimLocal (record : SubownRecord) (localBoxId : UInt16) (now : UInt64)
    (emitter : Option (EmitUpdateFn σ)) (userCtx : σ) (out : SubownResult) : ClaimOutcome σ :=
  let localOwner := localBoxId.toUInt8
  match emitter with
  | none => ⟨.errInvalidArgument, record, userCtx, out⟩
  | some emit =>
      if record.ownerBox = localOwner ∧ record.state = .stateLocal then
        ⟨.ok, { record with lastSeenTs := now }, userCtx, ⟨.noop, .localRefresh⟩⟩
      else
        let claimed := claimedRecord record localOwner now
        let emitted := emit (claimUpdate claimed) userCtx
        if emitted.1 ≠ .ok then
          ⟨.errCallbackFailed, claimed, emitted.2, out⟩
        else
          ⟨.ok, claimed, emitted.2, ⟨.emitLocalUpdate, .localClaim⟩⟩

def processPacketEvent (record : SubownRecord) (localBoxId : UInt8) (now : UInt64)
    (migrationThreshold : UInt64) (emitter : Option (EmitUpdateFn σ)) (userCtx : σ)
    (out : SubownResult) : ClaimOutcome σ :=
  if ¬ BoxId localBoxId then
    ⟨.errInvalidArgument, record, userCtx, out⟩
  else
    let remoteBoxId := localBoxId ^^^ 0x01
    if record.ownerBox = localBoxId then
      ⟨.ok, { record with lastSeenTs := now }, userCtx, ⟨.processLocal, .localHit⟩⟩
    else if record.ownerBox = remoteBoxId then
      let badPkts := record.remotePacketCounter + 1
      if migrationThreshold > 0 ∧ badPkts > migrationThreshold then
        ⟨.ok, { record with remotePacketCounter := 0 }, userCtx,
          ⟨.triggerMigration, .remoteMigrationThreshold⟩⟩
      else
        ⟨.ok, { record with remotePacketCounter := badPkts }, userCtx,
          ⟨.forwardRemote, .remoteMisroute⟩⟩
    else if record.ownerBox = unownedState then
      match emitter with
      | none => ⟨.errInvalidArgument, record, userCtx, out⟩
      | some emit =>
          let claim := claimLocal record localBoxId.toUInt16 now (some emit) userCtx out
          if claim.status ≠ .ok then
            ⟨.errCallbackFailed, claim.record, claim.userCtx, claim.out⟩
          else
            ⟨.ok, claim.record, claim.userCtx, { claim.out with reason := .unownedClaim }⟩
    else
      ⟨.ok, record, userCtx, ⟨.forwardRemote, .remoteMisroute⟩⟩

/-! ### What a call does -/

section Cases

variable {record : SubownRecord} {now threshold : UInt64} {emit : EmitUpdateFn σ} {ctx : σ}
  {out : SubownResult}

theorem claimedRecord_stamp {r : SubownRecord} (b : UInt8) (now : UInt64)
    (hgen : r.generation ≠ 0xFFFFFFFF) : r.stamp < (claimedRecord r b now).stamp := by
  refine stampOf_lt.mpr (Or.inr ⟨rfl, ?_⟩)
  change r.generation < r.generation + 1
  grind

theorem claimLocal_refresh {b : UInt16} (howner : record.ownerBox = b.toUInt8)
    (hstate : record.state = .stateLocal) :
    claimLocal record b now (some emit) ctx out =
      ⟨.ok, { record with lastSeenTs := now }, ctx, ⟨.noop, .localRefresh⟩⟩ :=
  if_pos ⟨howner, hstate⟩

/-- A claim that is not a refresh: the record is rewritten whatever the emitter answers. -/
theorem claimLocal_claim {b : UInt16}
    (h : ¬ (record.ownerBox = b.toUInt8 ∧ record.state = .stateLocal)) :
    claimLocal record b now (some emit) ctx out =
      let claimed := claimedRecord record b.toUInt8 now
      let emitted := emit (claimUpdate claimed) ctx
      if emitted.1 = .ok then
        ⟨.ok, claimed, emitted.2, ⟨.emitLocalUpdate, .localClaim⟩⟩
      else
        ⟨.errCallbackFailed, claimed, emitted.2, out⟩ := by
  simp only [claimLocal, if_neg h]
  split_ifs <;> first | rfl | contradiction

theorem processPacketEvent_rejected {emitter : Option (EmitUpdateFn σ)} {b : UInt8}
    (hb : ¬ BoxId b) : processPacketEvent record b now threshold emitter ctx out =
      ⟨.errInvalidArgument, record, ctx, out⟩ := if_pos hb

/-- The three branches of the fast path at a valid box id, for a record whose owner the
protocol knows. -/
theorem processPacketEvent_local {b : UInt8} (hb : BoxId b) (h : record.ownerBox = b) :
    processPacketEvent record b now threshold (some emit) ctx out =
      ⟨.ok, { record with lastSeenTs := now }, ctx, ⟨.processLocal, .localHit⟩⟩ := by
  simp only [processPacketEvent]
  rw [if_neg (not_not.mpr hb), if_pos h]

/-- The packet counter after a misrouted packet, and whether it triggers a migration. -/
def misroute (record : SubownRecord) (threshold : UInt64) : SubownRecord × SubownResult :=
  if threshold > 0 ∧ record.remotePacketCounter + 1 > threshold then
    ({ record with remotePacketCounter := 0 }, ⟨.triggerMigration, .remoteMigrationThreshold⟩)
  else
    ({ record with remotePacketCounter := record.remotePacketCounter + 1 },
      ⟨.forwardRemote, .remoteMisroute⟩)

theorem misroute_frame (r : SubownRecord) (threshold : UInt64) :
    ∃ c, (misroute r threshold).1 = { r with remotePacketCounter := c } := by
  unfold misroute
  split_ifs
  · exact ⟨_, rfl⟩
  · exact ⟨_, rfl⟩

theorem processPacketEvent_remote {b : UInt8} (hb : BoxId b) (h : record.ownerBox = peerOf b) :
    processPacketEvent record b now threshold (some emit) ctx out =
      ⟨.ok, (misroute record threshold).1, ctx, (misroute record threshold).2⟩ := by
  have hne : record.ownerBox ≠ b := by
    rcases hb with rfl | rfl <;> rw [h] <;> decide
  simp only [processPacketEvent]
  rw [if_neg (not_not.mpr hb), if_neg hne]
  refine (if_pos h).trans ?_
  unfold misroute
  split_ifs <;> rfl

theorem processPacketEvent_unowned {b : UInt8} (hb : BoxId b)
    (h : record.ownerBox = unownedState) :
    processPacketEvent record b now threshold (some emit) ctx out =
      let claimed := claimedRecord record b now
      let emitted := emit (claimUpdate claimed) ctx
      if emitted.1 = .ok then
        ⟨.ok, claimed, emitted.2, ⟨.emitLocalUpdate, .unownedClaim⟩⟩
      else
        ⟨.errCallbackFailed, claimed, emitted.2, out⟩ := by
  have hlocal : record.ownerBox ≠ b := by
    rcases hb with rfl | rfl <;> rw [h] <;> decide
  have hremote : record.ownerBox ≠ b ^^^ 0x01 := by
    rcases hb with rfl | rfl <;> rw [h] <;> decide
  have hclaim : ¬ (record.ownerBox = b.toUInt16.toUInt8 ∧ record.state = .stateLocal) := by
    rw [toUInt8_toUInt16]
    exact fun hc => hlocal hc.1
  simp only [processPacketEvent]
  rw [if_neg (not_not.mpr hb), if_neg hlocal, if_neg hremote, if_pos h, claimLocal_claim hclaim,
    toUInt8_toUInt16]
  dsimp only
  split_ifs <;> simp_all

theorem processPacketEvent_other {b : UInt8} (hb : BoxId b) (h : ¬ KnownOwner record.ownerBox) :
    processPacketEvent record b now threshold (some emit) ctx out =
      ⟨.ok, record, ctx, ⟨.forwardRemote, .remoteMisroute⟩⟩ := by
  have hlocal : record.ownerBox ≠ b := by
    rintro rfl
    exact h (hb.elim Or.inl fun e => Or.inr (Or.inl e))
  have hremote : record.ownerBox ≠ b ^^^ 0x01 := by
    intro e
    apply h
    rw [e]
    rcases hb with rfl | rfl <;> decide
  have hunowned : record.ownerBox ≠ unownedState := fun e => h (Or.inr (Or.inr e))
  simp only [processPacketEvent]
  rw [if_neg (not_not.mpr hb), if_neg hlocal, if_neg hremote, if_neg hunowned]

theorem claimLocal_subscriberId (record : SubownRecord) (b : UInt16) (now : UInt64)
    (emitter : Option (EmitUpdateFn σ)) (ctx : σ) (out : SubownResult) :
    (claimLocal record b now emitter ctx out).record.subscriberId = record.subscriberId := by
  cases emitter with
  | none => rfl
  | some emit =>
      unfold claimLocal
      dsimp only
      split_ifs <;> rfl

theorem processPacketEvent_subscriberId (record : SubownRecord) (b : UInt8)
    (now threshold : UInt64) (emitter : Option (EmitUpdateFn σ)) (ctx : σ) (out : SubownResult) :
    (processPacketEvent record b now threshold emitter ctx out).record.subscriberId =
      record.subscriberId := by
  unfold processPacketEvent
  cases emitter with
  | none =>
      dsimp only
      split_ifs <;> rfl
  | some emit =>
      have hclaim := claimLocal_subscriberId record b.toUInt16 now (some emit) ctx out
      dsimp only
      split_ifs <;> first | rfl | exact hclaim

/-- What the emitter leaves alone, the call leaves alone: nothing else touches the context. -/
theorem claimLocal_userCtx {α : Type*} {f : σ → α} {emitter : Option (EmitUpdateFn σ)}
    (hemit : ∀ emit, emitter = some emit → ∀ u ctx, f (emit u ctx).2 = f ctx)
    (record : SubownRecord) (b : UInt16) (now : UInt64) (ctx : σ) (out : SubownResult) :
    f (claimLocal record b now emitter ctx out).userCtx = f ctx := by
  cases emitter with
  | none => rfl
  | some emit =>
      unfold claimLocal
      dsimp only
      split_ifs <;> first | rfl | exact hemit emit rfl _ ctx

theorem processPacketEvent_userCtx {α : Type*} {f : σ → α} {emitter : Option (EmitUpdateFn σ)}
    (hemit : ∀ emit, emitter = some emit → ∀ u ctx, f (emit u ctx).2 = f ctx)
    (record : SubownRecord) (b : UInt8) (now threshold : UInt64) (ctx : σ) (out : SubownResult) :
    f (processPacketEvent record b now threshold emitter ctx out).userCtx = f ctx := by
  unfold processPacketEvent
  cases emitter with
  | none =>
      dsimp only
      split_ifs <;> rfl
  | some emit =>
      have hclaim := claimLocal_userCtx hemit record b.toUInt16 now ctx out
      dsimp only
      split_ifs <;> first | rfl | exact hclaim

end Cases

/-! ### The emitter as a parameter -/

section Parametric

variable {τ : Type*} {emit : EmitUpdateFn σ} {emit' : EmitUpdateFn τ} {R : σ → τ → Prop}
  {ctx : σ} {ctx' : τ}

/-- Outcomes that differ in the context only. -/
structure SameOutcome (R : σ → τ → Prop) (x : ClaimOutcome σ) (y : ClaimOutcome τ) : Prop where
  status : x.status = y.status
  record : x.record = y.record
  userCtx : R x.userCtx y.userCtx
  out : x.out = y.out

/-- Emitters that answer alike are used alike: a call sees nothing of the context but the
status the emitter returns. -/
theorem processPacketEvent_congr (hctx : R ctx ctx')
    (hemit : ∀ u, (emit u ctx).1 = (emit' u ctx').1 ∧ R (emit u ctx).2 (emit' u ctx').2)
    (record : SubownRecord) (b : UInt8) (now threshold : UInt64) (out : SubownResult) :
    SameOutcome R (processPacketEvent record b now threshold (some emit) ctx out)
      (processPacketEvent record b now threshold (some emit') ctx' out) := by
  by_cases hb : BoxId b
  swap
  · rw [processPacketEvent_rejected hb, processPacketEvent_rejected hb]
    exact ⟨rfl, rfl, hctx, rfl⟩
  rcases hb.owner_cases record.ownerBox with hlocal | hremote | hunowned | hother
  · rw [processPacketEvent_local hb hlocal, processPacketEvent_local hb hlocal]
    exact ⟨rfl, rfl, hctx, rfl⟩
  · rw [processPacketEvent_remote hb hremote, processPacketEvent_remote hb hremote]
    exact ⟨rfl, rfl, hctx, rfl⟩
  · obtain ⟨hstatus, hrel⟩ := hemit (claimUpdate (claimedRecord record b now))
    rw [processPacketEvent_unowned hb hunowned, processPacketEvent_unowned hb hunowned]
    dsimp only
    rw [← hstatus]
    split_ifs
    · exact ⟨rfl, rfl, hrel, rfl⟩
    · exact ⟨rfl, rfl, hrel, rfl⟩
  · rw [processPacketEvent_other hb hother, processPacketEvent_other hb hother]
    exact ⟨rfl, rfl, hctx, rfl⟩

end Parametric

end Subown
