import Subown.AdapterState
import Subown.RunRules

/-! The public calls of `ownership_adapter.c` and one step of a run of them. -/
namespace Subown

/-- Return code and out-parameter of `ownership_adapter_on_packet`. -/
structure PacketReply where
  rc : Int
  out : OwnResult
  adapter : OwnershipAdapter

def countEvent (pushed : Int × OwnershipAdapter) : OwnershipAdapter :=
  if pushed.1 = 0 then
    { pushed.2 with metrics :=
      { pushed.2.metrics with
        ownWorkerEventsTotal := pushed.2.metrics.ownWorkerEventsTotal + 1 } }
  else pushed.2

def OwnershipAdapter.countMigration (adapter : OwnershipAdapter) : OwnershipAdapter :=
  { adapter with metrics :=
    { adapter.metrics with
      ownMigrationTriggerTotal := adapter.metrics.ownMigrationTriggerTotal + 1 } }

/-- The switch of `on_packet` over the decision of the core. -/
def OwnershipAdapter.actOn (adapter : OwnershipAdapter) (subscriberId now : UInt64)
    (out : OwnResult) (decision : SubownDecision) : PacketReply :=
  match decision with
  | .processLocal => ⟨0, { out with action := .actProcessLocal }, adapter⟩
  | .forwardRemote =>
      if adapter.cfg.mode = .modeEnforce then
        ⟨0, { out with action := .actForwardRemote }, adapter⟩
      else
        ⟨0, { out with action := .actProcessLocal },
          countEvent (Subown.pushEvent adapter subscriberId .evtMisroute now)⟩
  | .triggerMigration =>
      let pushed := countEvent (Subown.pushEvent adapter subscriberId .evtMigrationHint now)
      let noted := pushed.countMigration
      if noted.cfg.mode = .modeEnforce then
        ⟨0, { out with action := .actTriggerMigration }, noted⟩
      else ⟨0, { out with action := .actProcessLocal }, noted⟩
  | .emitLocalUpdate =>
      let noted := countEvent (Subown.pushEvent adapter subscriberId .evtUnownedClaim now)
      if noted.cfg.mode = .modeEnforce then
        ⟨0, { out with action := .actClaimEmitted }, noted⟩
      else ⟨0, { out with action := .actProcessLocal }, noted⟩
  | _ => ⟨0, { out with action := .actNoop }, adapter⟩

/-- What `res` holds before the core writes it; the source leaves it unset and does not
read it then. -/
def unsetResult : SubownResult := ⟨.noop, .invalidMessage⟩

def OwnershipAdapter.onPacket (adapter : OwnershipAdapter) (subscriberId now : UInt64) :
    PacketReply :=
  let out : OwnResult := ⟨.actNoop, 0, 0⟩
  if adapter.cfg.mode = .modeDisabled then ⟨0, out, adapter⟩
  else
    match lookupSlot adapter subscriberId true with
    | (none, adapter) => ⟨-1, out, adapter⟩
    | (some slot, adapter) =>
        let res := processPacketEvent (adapter.table slot).record adapter.cfg.localBoxId now
          adapter.cfg.migrationThreshold (some adapterEmitLocal) adapter unsetResult
        let adapter := res.userCtx.writeRecord slot res.record
        if res.status ≠ .ok then ⟨-1, out, adapter⟩
        else
          adapter.actOn subscriberId now
            { out with
              reason := res.out.reason.code
              peerOwner := (adapter.table slot).record.ownerBox }
            res.out.decision

def OwnAdapterMetrics.countRemote (metrics : OwnAdapterMetrics) (reason : SubownReason) :
    OwnAdapterMetrics :=
  let metrics :=
    match reason with
    | .dropStaleEpoch | .dropStaleGeneration =>
        { metrics with ownStaleDropTotal := metrics.ownStaleDropTotal + 1 }
    | .dropDuplicate => { metrics with ownDupDropTotal := metrics.ownDupDropTotal + 1 }
    | .winTieBreakBoxId | .keepLocalTieBreak =>
        { metrics with ownConflictTotal := metrics.ownConflictTotal + 1 }
    | _ => metrics
  { metrics with ownApplyRemoteTotal := metrics.ownApplyRemoteTotal + 1 }

def OwnershipAdapter.onRemoteMsg (adapter : OwnershipAdapter) (msg : List UInt8) :
    Int × OwnershipAdapter :=
  match decodeUpdateV1 msg with
  | none => (-1, adapter.countRecvErr)
  | some update =>
      match lookupSlot adapter update.subscriberId true with
      | (none, adapter) => (-1, adapter)
      | (some slot, adapter) =>
          let applied := applyRemoteUpdate (adapter.table slot).record update
          let adapter := adapter.writeRecord slot applied.record
          if applied.status ≠ .ok then (-1, adapter.countRecvErr)
          else (0, { adapter with metrics := adapter.metrics.countRemote applied.out.reason })

/-- What `on_peer_down` writes into a record the peer owned. -/
def releaseRecord (record : SubownRecord) : SubownRecord :=
  { record with
    ownerBox := unownedState
    ownerBoxId := unownedState.toUInt16
    state := .stateUnowned
    remotePacketCounter := 0 }

/-- The effect of `on_peer_down` on one record. -/
def peerDownRecord (peerBoxId : UInt8) (record : SubownRecord) : SubownRecord :=
  if record.ownerBox = peerBoxId then releaseRecord record else record

def peerDownSlot (peerBoxId : UInt8) (slot : OwnSlot) : OwnSlot :=
  if ¬ slot.used then slot else { slot with record := peerDownRecord peerBoxId slot.record }

-- Irreducible: unfolding the sweep enumerates the table.
@[irreducible] def OwnershipAdapter.onPeerDown (adapter : OwnershipAdapter) (peerBoxId : UInt8) :
    Int × OwnershipAdapter :=
  (0, (List.finRange ownRecordCap).foldl
    (fun adapter i => { adapter with
      table := Function.update adapter.table i (peerDownSlot peerBoxId (adapter.table i)) })
    adapter)

def OwnershipAdapter.onAgingTick (adapter : OwnershipAdapter) (_nowTsc : UInt64) :
    Int × OwnershipAdapter := (0, adapter)

def OwnershipAdapter.getMetrics (adapter : OwnershipAdapter) : Int × OwnAdapterMetrics :=
  (0, adapter.metrics)

/-! ### Runs -/

inductive AdapterCall where
  | onPacket (subscriberId now : UInt64)
  | onRemoteMsg (msg : List UInt8)
  | flushOutbound
  | onPeerDown (peerBoxId : UInt8)
  | onAgingTick (nowTsc : UInt64)
  | pushEvent (evt : OwnRingEvent)
  | popEvent
  | getMetrics
  deriving DecidableEq

def OwnershipAdapter.step (adapter : OwnershipAdapter) : AdapterCall → OwnershipAdapter
  | .onPacket subscriberId now => (adapter.onPacket subscriberId now).adapter
  | .onRemoteMsg msg => (adapter.onRemoteMsg msg).2
  | .flushOutbound => adapter.flushOutbound.2
  | .onPeerDown peerBoxId => (adapter.onPeerDown peerBoxId).2
  | .onAgingTick nowTsc => (adapter.onAgingTick nowTsc).2
  | .pushEvent evt => (adapter.pushEvent evt).2
  | .popEvent => adapter.popEvent.2
  | .getMetrics => adapter

def OwnershipAdapter.returnCode (adapter : OwnershipAdapter) : AdapterCall → Int
  | .onPacket subscriberId now => (adapter.onPacket subscriberId now).rc
  | .onRemoteMsg msg => (adapter.onRemoteMsg msg).1
  | .flushOutbound => adapter.flushOutbound.1
  | .onPeerDown peerBoxId => (adapter.onPeerDown peerBoxId).1
  | .onAgingTick nowTsc => (adapter.onAgingTick nowTsc).1
  | .pushEvent evt => (adapter.pushEvent evt).1
  | .popEvent => 0
  | .getMetrics => adapter.getMetrics.1

/-- The adapter after a list of calls. -/
abbrev OwnershipAdapter.run (adapter : OwnershipAdapter) (calls : List AdapterCall) :
    OwnershipAdapter :=
  RunRules.exec OwnershipAdapter.step adapter calls

end Subown
