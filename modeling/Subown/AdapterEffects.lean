import Subown.RecordMap

/-! Adapter calls as effects on the record map. The abstract machine is the map with the
core's own calls on single records as its moves; every adapter call is one of its effects. -/
namespace Subown

abbrev RecordMap := UInt64 → Option SubownRecord

/-- The core's calls on one record; the emitter of a packet is known by its answer. -/
inductive CoreCall where
  | packet (now : UInt64) (emitted : SubownStatus)
  | remote (incoming : SubownUpdate)
  | release (peerBoxId : UInt8)
  deriving DecidableEq

/-- An emitter that answers as told and keeps the update it accepted. -/
def answer (emitted : SubownStatus) : EmitUpdateFn (Option SubownUpdate) := fun u _ =>
  (emitted, if emitted = .ok then some u else none)

/-- The fast path on one record, with a prescribed answer of the emitter. -/
def corePacket (cfg : OwnAdapterCfg) (record : SubownRecord) (now : UInt64)
    (emitted : SubownStatus) : ClaimOutcome (Option SubownUpdate) :=
  processPacketEvent record cfg.localBoxId now cfg.migrationThreshold (some (answer emitted))
    none unsetResult

def CoreCall.apply (cfg : OwnAdapterCfg) (record : SubownRecord) : CoreCall → SubownRecord
  | .packet now emitted => (corePacket cfg record now emitted).record
  | .remote incoming => (applyRemoteUpdate record incoming).record
  | .release peerBoxId => peerDownRecord peerBoxId record

inductive Effect where
  | quiet
  | core (subscriberId : UInt64) (call : CoreCall)
  | sweep (peerBoxId : UInt8)

def Effect.on (cfg : OwnAdapterCfg) (records : RecordMap) : Effect → RecordMap
  | .quiet => records
  | .core s call =>
      Function.update records s (some (call.apply cfg ((records s).getD (freshRecord s))))
  | .sweep peerBoxId => fun s => (records s).map (peerDownRecord peerBoxId)

/-- What the ownership protocol sees of an adapter: everything but the event ring, the
counters and the configuration. -/
structure Replica where
  table : Fin ownRecordCap → OwnSlot
  outbound : Fin ownOutboundCap → Frame
  outboundLen : Fin ownOutboundCap → UInt32
  outHead : Fin ownOutboundCap
  outTail : Fin ownOutboundCap

namespace OwnershipAdapter

def replica (a : OwnershipAdapter) : Replica :=
  ⟨a.table, a.outbound, a.outboundLen, a.outHead, a.outTail⟩

/-- What the emitter answers: an error exactly when the outbound queue is full. -/
def emitStatus (a : OwnershipAdapter) : SubownStatus :=
  if nextIdx a.outTail = a.outHead then .errCallbackFailed else .ok

def enqueue (a : OwnershipAdapter) (u : SubownUpdate) : OwnershipAdapter :=
  { a with
    outbound := Function.update a.outbound a.outTail (frameBytes u)
    outboundLen := Function.update a.outboundLen a.outTail (frameBytes u).length.toUInt32
    outTail := nextIdx a.outTail }

def enqueueAll (a : OwnershipAdapter) : Option SubownUpdate → OwnershipAdapter
  | none => a
  | some u => a.enqueue u

end OwnershipAdapter

/-- The effect an adapter call has in the state it meets. -/
def OwnershipAdapter.effect (a : OwnershipAdapter) : AdapterCall → Effect
  | .onPacket s now =>
      if a.cfg.mode = .modeDisabled ∨ ¬ a.Room s then .quiet
      else .core s (.packet now a.emitStatus)
  | .onRemoteMsg msg =>
      match decodeUpdateV1 msg with
      | none => .quiet
      | some u => if a.Room u.subscriberId then .core u.subscriberId (.remote u) else .quiet
  | .onPeerDown peerBoxId => .sweep peerBoxId
  | _ => .quiet

/-- The update the core hands to the emitter in a call and the emitter takes, if any. -/
def OwnershipAdapter.emittedBy (a : OwnershipAdapter) (call : AdapterCall) :
    Option SubownUpdate :=
  match a.effect call with
  | .core s (.packet now emitted) => (corePacket a.cfg (a.workingRecord s) now emitted).userCtx
  | _ => none

/-- The frame a call places in the outbound queue, if any. -/
def OwnershipAdapter.queuedBy (a : OwnershipAdapter) (call : AdapterCall) : List Frame :=
  if (a.step call).outTail = a.outTail then [] else [(a.step call).outbound a.outTail]

open OwnershipAdapter

variable {a a' : OwnershipAdapter} {s s' : UInt64} {i : Fin ownRecordCap} {r : SubownRecord}

/-! ### Calls -/

theorem adapterEmitLocal_eq (u : SubownUpdate) (a : OwnershipAdapter) :
    adapterEmitLocal u a =
      (a.emitStatus, if a.emitStatus = .ok then a.enqueue u else a.countSendErr) := by
  simp only [adapterEmitLocal, encodeUpdateV1_frameSize, emitStatus]
  split_ifs <;> first | rfl | contradiction

theorem emitStatus_ok_iff : a.emitStatus = .ok ↔ nextIdx a.outTail ≠ a.outHead := by
  unfold emitStatus
  split_ifs with h <;> simp [h]

theorem countEvent_frame (pushed : Int × OwnershipAdapter) :
    (countEvent pushed).replica = pushed.2.replica ∧ (countEvent pushed).cfg = pushed.2.cfg := by
  unfold countEvent
  split_ifs <;> exact ⟨rfl, rfl⟩

theorem pushEvent_frame (a : OwnershipAdapter) (evt : OwnRingEvent) :
    (a.pushEvent evt).2.replica = a.replica ∧ (a.pushEvent evt).2.cfg = a.cfg := by
  unfold OwnershipAdapter.pushEvent
  dsimp only
  split_ifs <;> exact ⟨rfl, rfl⟩

theorem popEvent_frame (a : OwnershipAdapter) :
    a.popEvent.2.replica = a.replica ∧ a.popEvent.2.cfg = a.cfg := by
  unfold OwnershipAdapter.popEvent
  split_ifs <;> exact ⟨rfl, rfl⟩

theorem countPush_frame (a : OwnershipAdapter) (s now : UInt64) (e : OwnEventType) :
    (countEvent (Subown.pushEvent a s e now)).replica = a.replica ∧
      (countEvent (Subown.pushEvent a s e now)).cfg = a.cfg := by
  have hc := countEvent_frame (Subown.pushEvent a s e now)
  have hp := pushEvent_frame a ⟨s, e, a.cfg.localBoxId, now⟩
  exact ⟨hc.1.trans hp.1, hc.2.trans hp.2⟩

/-- The switch over the decision touches the ring and the counters only. -/
theorem actOn_frame (a : OwnershipAdapter) (s now : UInt64) (out : OwnResult)
    (d : SubownDecision) :
    (a.actOn s now out d).adapter.replica = a.replica ∧ (a.actOn s now out d).adapter.cfg = a.cfg ∧
      (a.actOn s now out d).rc = 0 ∧ (a.actOn s now out d).out.reason = out.reason ∧
      (a.actOn s now out d).out.peerOwner = out.peerOwner := by
  have hpush := countPush_frame a s now
  cases d with
  | processLocal => exact ⟨rfl, rfl, rfl, rfl, rfl⟩
  | forwardRemote =>
      unfold actOn
      dsimp only
      split_ifs
      · exact ⟨rfl, rfl, rfl, rfl, rfl⟩
      · exact ⟨(hpush _).1, (hpush _).2, rfl, rfl, rfl⟩
  | triggerMigration =>
      unfold actOn
      dsimp only
      split_ifs <;> exact ⟨(hpush .evtMigrationHint).1, (hpush .evtMigrationHint).2, rfl, rfl, rfl⟩
  | emitLocalUpdate =>
      unfold actOn
      dsimp only
      split_ifs <;> exact ⟨(hpush .evtUnownedClaim).1, (hpush .evtUnownedClaim).2, rfl, rfl, rfl⟩
  | applyRemote => exact ⟨rfl, rfl, rfl, rfl, rfl⟩
  | keepLocal => exact ⟨rfl, rfl, rfl, rfl, rfl⟩
  | noop => exact ⟨rfl, rfl, rfl, rfl, rfl⟩

/-- The rest of `on_packet` once the core has answered about slot `i`. -/
def packetReply (i : Fin ownRecordCap) (s now : UInt64) (res : ClaimOutcome OwnershipAdapter) :
    PacketReply :=
  if res.status ≠ .ok then ⟨-1, ⟨.actNoop, 0, 0⟩, res.userCtx.writeRecord i res.record⟩
  else (res.userCtx.writeRecord i res.record).actOn s now
    ⟨.actNoop, res.record.ownerBox, res.out.reason.code⟩ res.out.decision

theorem onPacket_of_lookup (hmode : a.cfg.mode ≠ .modeDisabled)
    (hlookup : lookupSlot a s true = (some i, a')) (hr : (a'.table i).record = r) (now : UInt64) :
    a.onPacket s now = packetReply i s now (processPacketEvent r a'.cfg.localBoxId now
      a'.cfg.migrationThreshold (some adapterEmitLocal) a' unsetResult) := by
  subst hr
  unfold onPacket packetReply
  rw [if_neg hmode, hlookup]
  simp [writeRecord]

/-- The outcomes of the fast path on one record. -/
theorem corePacket_cases {cfg : OwnAdapterCfg} (hb : BoxId cfg.localBoxId) (r : SubownRecord)
    (now : UInt64) (emitted : SubownStatus) :
    (r.ownerBox = cfg.localBoxId ∧ corePacket cfg r now emitted =
      ⟨.ok, { r with lastSeenTs := now }, none, ⟨.processLocal, .localHit⟩⟩) ∨
    (r.ownerBox = peerOf cfg.localBoxId ∧ corePacket cfg r now emitted =
      ⟨.ok, (misroute r cfg.migrationThreshold).1, none, (misroute r cfg.migrationThreshold).2⟩) ∨
    (r.ownerBox = unownedState ∧ emitted = .ok ∧ corePacket cfg r now emitted =
      ⟨.ok, claimedRecord r cfg.localBoxId now,
        some (claimUpdate (claimedRecord r cfg.localBoxId now)),
        ⟨.emitLocalUpdate, .unownedClaim⟩⟩) ∨
    (r.ownerBox = unownedState ∧ emitted ≠ .ok ∧ corePacket cfg r now emitted =
      ⟨.errCallbackFailed, claimedRecord r cfg.localBoxId now, none, unsetResult⟩) ∨
    (¬ KnownOwner r.ownerBox ∧ corePacket cfg r now emitted =
      ⟨.ok, r, none, ⟨.forwardRemote, .remoteMisroute⟩⟩) := by
  unfold corePacket
  rcases hb.owner_cases r.ownerBox with hlocal | hremote | hunowned | hother
  · exact Or.inl ⟨hlocal, processPacketEvent_local hb hlocal⟩
  · exact Or.inr (Or.inl ⟨hremote, processPacketEvent_remote hb hremote⟩)
  · have hclaim := @processPacketEvent_unowned _ r now cfg.migrationThreshold (answer emitted)
      none unsetResult _ hb hunowned
    by_cases hok : emitted = .ok
    · refine Or.inr (Or.inr (Or.inl ⟨hunowned, hok, ?_⟩))
      rw [hclaim]
      simp [answer, hok]
    · refine Or.inr (Or.inr (Or.inr (Or.inl ⟨hunowned, hok, ?_⟩)))
      rw [hclaim]
      simp [answer, hok]
  · exact Or.inr (Or.inr (Or.inr (Or.inr ⟨hother, processPacketEvent_other hb hother⟩)))

/-- On an unowned record the fast path claims, whatever the emitter answers. -/
theorem corePacket_unowned {cfg : OwnAdapterCfg} (hb : BoxId cfg.localBoxId)
    (hun : r.ownerBox = unownedState) (now : UInt64) (emitted : SubownStatus) :
    (corePacket cfg r now emitted).record = claimedRecord r cfg.localBoxId now ∧
      (emitted = .ok → corePacket cfg r now emitted =
        ⟨.ok, claimedRecord r cfg.localBoxId now,
          some (claimUpdate (claimedRecord r cfg.localBoxId now)),
          ⟨.emitLocalUpdate, .unownedClaim⟩⟩) := by
  obtain ⟨ho, _⟩ | ⟨ho, _⟩ | ⟨_, _, e⟩ | ⟨_, hfail, e⟩ | ⟨ho, _⟩ :=
    corePacket_cases hb r now emitted
  · exact absurd (ho.symm.trans hun) hb.ne_unowned.1
  · exact absurd (ho.symm.trans hun) hb.ne_unowned.2
  · exact ⟨by rw [e], fun _ => e⟩
  · exact ⟨by rw [e], fun hok => absurd hok hfail⟩
  · exact absurd (Or.inr (Or.inr hun)) ho

/-- A box id the core rejects leaves everything as it is. -/
theorem corePacket_rejected {cfg : OwnAdapterCfg} (hb : ¬ BoxId cfg.localBoxId) (r : SubownRecord)
    (now : UInt64) (emitted : SubownStatus) :
    corePacket cfg r now emitted = ⟨.errInvalidArgument, r, none, unsetResult⟩ :=
  processPacketEvent_rejected hb

theorem corePacket_subscriberId (cfg : OwnAdapterCfg) (r : SubownRecord) (now : UInt64)
    (emitted : SubownStatus) :
    (corePacket cfg r now emitted).record.subscriberId = r.subscriberId :=
  processPacketEvent_subscriberId ..

/-- The adapter as the emitter leaves it, given the outcome of the core. -/
def OwnershipAdapter.afterEmit (a : OwnershipAdapter)
    (outcome : ClaimOutcome (Option SubownUpdate)) : OwnershipAdapter :=
  if outcome.status = .errCallbackFailed then a.countSendErr else a.enqueueAll outcome.userCtx

/-- The emitter of the adapter is the one that answers with its emit status. -/
theorem emitLocal_answer (a : OwnershipAdapter) (t : Fin ownRecordCap → OwnSlot)
    (r : SubownRecord) (now : UInt64) :
    processPacketEvent r a.cfg.localBoxId now a.cfg.migrationThreshold (some adapterEmitLocal)
        (a.withTable t) unsetResult =
      let outcome := corePacket a.cfg r now a.emitStatus
      ⟨outcome.status, outcome.record, (a.afterEmit outcome).withTable t, outcome.out⟩ := by
  by_cases hb : BoxId a.cfg.localBoxId
  swap
  · rw [corePacket_rejected hb, processPacketEvent_rejected hb]
    rfl
  obtain ⟨ho, e⟩ | ⟨ho, e⟩ | ⟨ho, hok, e⟩ | ⟨ho, hfail, e⟩ | ⟨ho, e⟩ :=
    corePacket_cases hb r now a.emitStatus
  · rw [e, processPacketEvent_local hb ho]
    rfl
  · rw [e, processPacketEvent_remote hb ho]
    rfl
  · have hemit : (a.withTable t).emitStatus = .ok := hok
    rw [e, processPacketEvent_unowned hb ho]
    dsimp only
    rw [adapterEmitLocal_eq]
    dsimp only
    rw [if_pos hemit, if_pos hemit]
    rfl
  · have hemit : (a.withTable t).emitStatus ≠ .ok := hfail
    rw [e, processPacketEvent_unowned hb ho]
    dsimp only
    rw [adapterEmitLocal_eq]
    dsimp only
    rw [if_neg hemit, if_neg hemit]
    rfl
  · rw [e, processPacketEvent_other hb ho]
    rfl

/-- The end of `on_packet`, given the outcome of the core and the adapter it left. -/
def outcomeReply {σ : Type*} (c : OwnershipAdapter) (s now : UInt64) (outcome : ClaimOutcome σ) :
    PacketReply :=
  if outcome.status ≠ .ok then ⟨-1, ⟨.actNoop, 0, 0⟩, c⟩
  else c.actOn s now ⟨.actNoop, outcome.record.ownerBox, outcome.out.reason.code⟩
    outcome.out.decision

/-- `on_packet` in terms of the core: one record is written, the emitter leaves its mark, and
the switch acts on the decision. -/
theorem onPacket_eq (h : a.Sound) (hmode : a.cfg.mode ≠ .modeDisabled) (hroom : a.Room s)
    (now : UInt64) :
    let outcome := corePacket a.cfg (a.workingRecord s) now a.emitStatus
    ∃ t, ((a.withTable t).Sound ∧ (a.withTable t).Keeps a ∧
        (a.withTable t).recordOf = Function.update a.recordOf s (some outcome.record)) ∧
      a.onPacket s now = outcomeReply ((a.afterEmit outcome).withTable t) s now outcome := by
  intro outcome
  obtain ⟨i, t, hlookup, hl⟩ := lookupSlot_room h hroom
  have hsid : outcome.record.subscriberId = s :=
    (corePacket_subscriberId ..).trans (workingRecord_subscriberId h)
  have htable : ((a.afterEmit outcome).withTable t).table = t := rfl
  obtain ⟨hsound, hkeeps, hmap⟩ := hl.write h htable hsid
  have hcfg : (a.withTable t).cfg = a.cfg := rfl
  refine ⟨(((a.afterEmit outcome).withTable t).writeRecord i outcome.record).table,
    ⟨sound_congr rfl hsound, ?_, ?_⟩, ?_⟩
  · exact hkeeps
  · rw [← hmap]
    exact recordOf_congr rfl
  rw [onPacket_of_lookup hmode hlookup (congrArg OwnSlot.record hl.slot) now, hcfg,
    emitLocal_answer]
  rfl

/-- What `on_packet` does when it reaches the core. -/
structure PacketSpec (a : OwnershipAdapter) (s : UInt64) (reply : PacketReply)
    (outcome : ClaimOutcome (Option SubownUpdate)) : Prop where
  sound : reply.adapter.Sound
  keeps : reply.adapter.Keeps a
  records : reply.adapter.recordOf = Function.update a.recordOf s (some outcome.record)
  queue : ∃ t, reply.adapter.replica = { (a.enqueueAll outcome.userCtx).replica with table := t }
  cfg : reply.adapter.cfg = a.cfg
  rc : reply.rc = if outcome.status = .ok then 0 else -1
  out : outcome.status = .ok →
    reply.out.reason = outcome.out.reason.code ∧ reply.out.peerOwner = outcome.record.ownerBox

/-- A failed emitter kept nothing. -/
theorem corePacket_failed {cfg : OwnAdapterCfg} {now : UInt64} {emitted : SubownStatus}
    (h : (corePacket cfg r now emitted).status = .errCallbackFailed) :
    (corePacket cfg r now emitted).userCtx = none := by
  by_cases hb : BoxId cfg.localBoxId
  swap
  · rw [corePacket_rejected hb]
  obtain ⟨_, e⟩ | ⟨_, e⟩ | ⟨_, _, e⟩ | ⟨_, _, e⟩ | ⟨_, e⟩ := corePacket_cases hb r now emitted
  all_goals rw [e] at h ⊢
  cases h

theorem corePacket_status {cfg : OwnAdapterCfg} (hb : BoxId cfg.localBoxId) (r : SubownRecord)
    (now : UInt64) (emitted : SubownStatus) :
    (corePacket cfg r now emitted).status = .ok ∨
      (corePacket cfg r now emitted).status = .errCallbackFailed := by
  obtain ⟨_, e⟩ | ⟨_, e⟩ | ⟨_, _, e⟩ | ⟨_, _, e⟩ | ⟨_, e⟩ := corePacket_cases hb r now emitted <;>
    simp [e]

/-- On success the decision of the fast path is known from its reason. -/
theorem corePacket_out {cfg : OwnAdapterCfg} {now : UInt64} {emitted : SubownStatus}
    (h : (corePacket cfg r now emitted).status = .ok) :
    (corePacket cfg r now emitted).out = ⟨.processLocal, .localHit⟩ ∨
    (corePacket cfg r now emitted).out = ⟨.forwardRemote, .remoteMisroute⟩ ∨
    (corePacket cfg r now emitted).out = ⟨.triggerMigration, .remoteMigrationThreshold⟩ ∨
    (corePacket cfg r now emitted).out = ⟨.emitLocalUpdate, .unownedClaim⟩ := by
  by_cases hb : BoxId cfg.localBoxId
  swap
  · rw [corePacket_rejected hb] at h
    cases h
  obtain ⟨_, e⟩ | ⟨_, e⟩ | ⟨_, _, e⟩ | ⟨_, _, e⟩ | ⟨_, e⟩ := corePacket_cases hb r now emitted
  · simp [e]
  · rw [e]
    unfold misroute
    split_ifs <;> simp
  · simp [e]
  · rw [e] at h
    cases h
  · simp [e]

theorem onPacket_spec (h : a.Sound) (hmode : a.cfg.mode ≠ .modeDisabled) (hroom : a.Room s)
    (now : UInt64) :
    PacketSpec a s (a.onPacket s now) (corePacket a.cfg (a.workingRecord s) now a.emitStatus) := by
  obtain ⟨t, ⟨hsound, hkeeps, hmap⟩, hreply⟩ := onPacket_eq h hmode hroom now
  have hfailed := @corePacket_failed (a.workingRecord s) a.cfg now a.emitStatus
  generalize corePacket a.cfg (a.workingRecord s) now a.emitStatus = outcome
    at hmap hreply hfailed ⊢
  have hcfg : ((a.afterEmit outcome).withTable t).cfg = a.cfg := by
    unfold afterEmit
    cases outcome.userCtx <;> split_ifs <;> rfl
  have hqueue : ((a.afterEmit outcome).withTable t).replica =
      { (a.enqueueAll outcome.userCtx).replica with table := t } := by
    unfold afterEmit
    split_ifs with hstatus
    · rw [hfailed hstatus]
      rfl
    · rfl
  rw [hreply]
  unfold outcomeReply
  by_cases hok : outcome.status = .ok
  · rw [if_neg (not_not.mpr hok)]
    obtain ⟨hframe, hframeCfg, hrc, hreason, howner⟩ := actOn_frame
      ((a.afterEmit outcome).withTable t) s now
      ⟨.actNoop, outcome.record.ownerBox, outcome.out.reason.code⟩ outcome.out.decision
    have htable := congrArg Replica.table hframe
    refine ⟨sound_congr htable hsound, ?_, ?_, ⟨t, hframe.trans hqueue⟩, hframeCfg.trans hcfg, ?_,
      fun _ => ⟨hreason, howner⟩⟩
    · intro j s' hj
      rw [keys_congr htable]
      exact hkeeps j s' hj
    · rw [recordOf_congr htable, ← hmap]
      exact recordOf_congr rfl
    · rw [hrc, if_pos hok]
  · rw [if_pos hok]
    refine ⟨sound_congr rfl hsound, hkeeps, ?_, ⟨t, hqueue⟩, hcfg, (if_neg hok).symm,
      fun e => absurd e hok⟩
    rw [← hmap]
    exact recordOf_congr rfl

theorem onPacket_full (hmode : a.cfg.mode ≠ .modeDisabled) (hroom : ¬ a.Room s) (now : UInt64) :
    a.onPacket s now = ⟨-1, ⟨.actNoop, 0, 0⟩, a⟩ := by
  unfold onPacket
  rw [if_neg hmode, lookupSlot_full hroom]

/-- A packet stops before the core or reaches it. -/
theorem idle_or_reaches (a : OwnershipAdapter) (s : UInt64) :
    (a.cfg.mode = .modeDisabled ∨ ¬ a.Room s) ∨ (a.cfg.mode ≠ .modeDisabled ∧ a.Room s) := by
  by_cases hmode : a.cfg.mode = .modeDisabled
  · exact Or.inl (Or.inl hmode)
  · by_cases hroom : a.Room s
    · exact Or.inr ⟨hmode, hroom⟩
    · exact Or.inl (Or.inr hroom)

/-- A packet that does not reach the core gets the initial reply. -/
theorem onPacket_idle_eq (h : a.cfg.mode = .modeDisabled ∨ ¬ a.Room s) (now : UInt64) :
    a.onPacket s now =
      ⟨if a.cfg.mode = .modeDisabled then 0 else -1, ⟨.actNoop, 0, 0⟩, a⟩ := by
  by_cases hmode : a.cfg.mode = .modeDisabled
  · rw [onPacket, if_pos hmode, if_pos hmode]
  · rw [onPacket_full hmode (h.resolve_left hmode), if_neg hmode]

theorem onPacket_idle (h : a.cfg.mode = .modeDisabled ∨ ¬ a.Room s) (now : UInt64) :
    (a.onPacket s now).adapter = a := by
  rw [onPacket_idle_eq h]

/-- A packet that does not fail reaches the core. -/
theorem room_of_rc (hmode : a.cfg.mode ≠ .modeDisabled) {now : UInt64}
    (hrc : (a.onPacket s now).rc = 0) : a.Room s := by
  by_contra hroom
  rw [onPacket_full hmode hroom] at hrc
  cases hrc

theorem decoded_validFor {m : List UInt8} {u : SubownUpdate} (hdec : decodeUpdateV1 m = some u)
    (hsid : r.subscriberId = u.subscriberId) : ValidFor r u :=
  ⟨(decodeUpdateV1_wellFormed hdec).version, hsid.symm⟩

/-- A message is undecodable, finds no slot or reaches the resolver. -/
theorem message_cases (a : OwnershipAdapter) (m : List UInt8) :
    decodeUpdateV1 m = none ∨
    (∃ u, decodeUpdateV1 m = some u ∧ ¬ a.Room u.subscriberId) ∨
    ∃ u, decodeUpdateV1 m = some u ∧ a.Room u.subscriberId := by
  cases hdec : decodeUpdateV1 m with
  | none => exact Or.inl rfl
  | some u =>
      by_cases hroom : a.Room u.subscriberId
      · exact Or.inr (Or.inr ⟨u, rfl, hroom⟩)
      · exact Or.inr (Or.inl ⟨u, rfl, hroom⟩)

theorem onRemoteMsg_undecodable {m : List UInt8} (hdec : decodeUpdateV1 m = none) :
    a.onRemoteMsg m = (-1, a.countRecvErr) := by
  unfold onRemoteMsg
  rw [hdec]

theorem onRemoteMsg_full {m : List UInt8} {u : SubownUpdate} (hdec : decodeUpdateV1 m = some u)
    (hroom : ¬ a.Room u.subscriberId) : a.onRemoteMsg m = (-1, a) := by
  unfold onRemoteMsg
  rw [hdec]
  dsimp only
  rw [lookupSlot_full hroom]

/-- What `on_remote_msg` does when it reaches the resolver. -/
structure RemoteSpec (a : OwnershipAdapter) (u : SubownUpdate) (reply : Int × OwnershipAdapter) :
    Prop where
  sound : reply.2.Sound
  keeps : reply.2.Keeps a
  records : reply.2.recordOf = Function.update a.recordOf u.subscriberId
    (some (applyRemoteUpdate (a.workingRecord u.subscriberId) u).record)
  queue : ∃ t, reply.2.replica = { a.replica with table := t }
  cfg : reply.2.cfg = a.cfg
  rc : reply.1 = 0

/-- `on_remote_msg` in terms of the resolver: one record is written, and the reason is
counted. -/
theorem onRemoteMsg_eq (h : a.Sound) {m : List UInt8} {u : SubownUpdate}
    (hdec : decodeUpdateV1 m = some u) (hroom : a.Room u.subscriberId) :
    let applied := applyRemoteUpdate (a.workingRecord u.subscriberId) u
    ∃ t, ((a.withTable t).Sound ∧ (a.withTable t).Keeps a ∧ (a.withTable t).recordOf =
        Function.update a.recordOf u.subscriberId (some applied.record)) ∧
      a.onRemoteMsg m =
        (0, { a with table := t, metrics := a.metrics.countRemote applied.out.reason }) := by
  intro applied
  obtain ⟨i, t, hlookup, hl⟩ := lookupSlot_room h hroom
  have hsid : (a.workingRecord u.subscriberId).subscriberId = u.subscriberId :=
    workingRecord_subscriberId h
  have hstatus : applied.status = .ok := applyRemoteUpdate_status (decoded_validFor hdec hsid)
  have happlied : applied.record.subscriberId = u.subscriberId :=
    (applyRemoteUpdate_subscriberId ..).trans hsid
  obtain ⟨hs, hk, hm⟩ := hl.write h (withTable_table a t) happlied
  refine ⟨((a.withTable t).writeRecord i applied.record).table, ⟨hs, hk, hm⟩, ?_⟩
  have hrecord : ((a.withTable t).table i).record = a.workingRecord u.subscriberId :=
    congrArg OwnSlot.record hl.slot
  unfold onRemoteMsg
  rw [hdec]
  dsimp only
  rw [hlookup]
  dsimp only
  rw [hrecord, if_neg (not_not.mpr hstatus)]
  rfl

theorem onRemoteMsg_spec (h : a.Sound) {m : List UInt8} {u : SubownUpdate}
    (hdec : decodeUpdateV1 m = some u) (hroom : a.Room u.subscriberId) :
    RemoteSpec a u (a.onRemoteMsg m) := by
  obtain ⟨t, ⟨hs, hk, hm⟩, hreply⟩ := onRemoteMsg_eq h hdec hroom
  rw [hreply]
  constructor
  · exact sound_congr rfl hs
  · intro j t' hj
    exact hk j t' hj
  · rw [← hm]
    exact recordOf_congr rfl
  · exact ⟨_, rfl⟩
  · rfl
  · rfl

/-- The sweep in one step: it rewrites every slot on its own. -/
theorem onPeerDown_eq (a : OwnershipAdapter) (p : UInt8) :
    a.onPeerDown p = (0, a.withTable fun i => peerDownSlot p (a.table i)) := by
  have hfold : ∀ (l : List (Fin ownRecordCap)) (b : OwnershipAdapter), l.Nodup →
      l.foldl (fun adapter i => { adapter with
        table := Function.update adapter.table i (peerDownSlot p (adapter.table i)) }) b =
      b.withTable fun i => if i ∈ l then peerDownSlot p (b.table i) else b.table i := by
    intro l
    induction l with
    | nil =>
        intro b _
        rfl
    | cons i l ih =>
        intro b hnodup
        obtain ⟨hi, hl⟩ := List.nodup_cons.mp hnodup
        rw [List.foldl_cons, ih _ hl]
        refine congrArg b.withTable (funext fun j => ?_)
        by_cases hj : j = i
        · subst hj
          simp [hi]
        · simp [hj]
  unfold onPeerDown
  rw [hfold _ a (List.nodup_finRange _)]
  simp

theorem peerDownRecord_subscriberId (p : UInt8) (r : SubownRecord) :
    (peerDownRecord p r).subscriberId = r.subscriberId := by
  unfold peerDownRecord
  split_ifs <;> rfl

theorem onPeerDown_keys (a : OwnershipAdapter) (p : UInt8) : (a.onPeerDown p).2.keys = a.keys := by
  rw [onPeerDown_eq]
  funext i
  unfold OwnershipAdapter.keys peerDownSlot
  dsimp only
  rw [withTable_table]
  split_ifs <;> simp_all [peerDownRecord_subscriberId]

theorem onPeerDown_map (h : a.Sound) (p : UInt8) :
    (a.onPeerDown p).2.Sound ∧ (a.onPeerDown p).2.Keeps a ∧
      ∀ s, (a.onPeerDown p).2.recordOf s = (a.recordOf s).map (peerDownRecord p) := by
  have hkeys := onPeerDown_keys a p
  have hsound : (a.onPeerDown p).2.Sound := by
    unfold Sound
    rw [hkeys]
    exact h
  refine ⟨hsound, keeps_of_keys hkeys, ?_⟩
  intro s
  have hslot : (a.onPeerDown p).2.slotOf s = a.slotOf s := by
    apply Option.ext
    intro j
    simp only [slotOf_eq_some h, slotOf_eq_some hsound, ← keys_eq_some, hkeys]
  unfold recordOf
  rw [hslot, onPeerDown_eq]
  cases hj : a.slotOf s with
  | none => rfl
  | some j =>
      have hused := ((slotOf_eq_some h).mp hj).1
      simp [peerDownSlot, hused]

theorem flushFrom_eq (a : OwnershipAdapter) (k : Int) :
    a.flushFrom k =
      (k + CyclicIndex.dist a.outHead a.outTail, { a with outHead := a.outTail }) := by
  induction a, k using OwnershipAdapter.flushFrom.induct with
  | case1 a k hne ih =>
      unfold flushFrom
      rw [dif_pos hne, ih, ← CyclicIndex.dist_next hne]
      push_cast
      congr 1
      ring
  | case2 a k heq =>
      have e : a.outHead = a.outTail := not_not.mp heq
      have ha : { a with outHead := a.outTail } = a :=
        congrArg (fun i => { a with outHead := i }) e.symm
      have hdist : CyclicIndex.dist a.outHead a.outTail = 0 := by
        rw [e, CyclicIndex.dist_of_le le_rfl, Nat.sub_self]
      unfold flushFrom
      rw [dif_neg heq, hdist, ha, Nat.cast_zero, add_zero]

theorem flushOutbound_eq (a : OwnershipAdapter) :
    a.flushOutbound.2 = { a with outHead := a.outTail } := by
  unfold flushOutbound
  rw [flushFrom_eq]

end Subown
