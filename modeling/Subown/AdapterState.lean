import Subown.CoreClaim
import Subown.WireCodec
import Subown.LinearProbing

/-! State of `ownership_adapter.c`: the record table, the event ring and the outbound queue.
A `calloc`ed adapter is all zeros; pointers into the table are modelled as slot indices, and
null adapters are left out. `shard_count` is read by nothing. -/
namespace Subown

abbrev ownEventQCap : ℕ := 2048
abbrev ownRecordCap : ℕ := 4096
abbrev ownOutboundCap : ℕ := 512

inductive OwnMode where
  | modeDisabled | modeObserve | modeEnforce
  deriving DecidableEq, Repr

inductive OwnAction where
  | actNoop | actProcessLocal | actForwardRemote | actTriggerMigration | actClaimEmitted
  deriving DecidableEq, Repr

inductive OwnEventType where
  | evtMisroute | evtUnownedClaim | evtMigrationHint
  deriving DecidableEq, Repr

structure OwnResult where
  action : OwnAction
  peerOwner : UInt8
  reason : UInt8
  deriving DecidableEq, Repr

structure OwnRingEvent where
  subscriberId : UInt64
  eventType : OwnEventType
  localBoxId : UInt8
  tsc : UInt64
  deriving DecidableEq, Repr

structure OwnAdapterCfg where
  mode : OwnMode
  localBoxId : UInt8
  migrationThreshold : UInt64
  deriving DecidableEq, Repr

structure OwnAdapterMetrics where
  ownWorkerEventsTotal : UInt64
  ownWorkerRingDropTotal : UInt64
  ownApplyRemoteTotal : UInt64
  ownConflictTotal : UInt64
  ownStaleDropTotal : UInt64
  ownDupDropTotal : UInt64
  ownMigrationTriggerTotal : UInt64
  ownZmqRecvErrTotal : UInt64
  ownZmqSendErrTotal : UInt64
  deriving DecidableEq, Repr

structure OwnSlot where
  used : Bool
  record : SubownRecord
  deriving DecidableEq, Repr

structure OwnershipAdapter where
  cfg : OwnAdapterCfg
  q : Fin ownEventQCap → OwnRingEvent
  qHead : Fin ownEventQCap
  qTail : Fin ownEventQCap
  table : Fin ownRecordCap → OwnSlot
  outbound : Fin ownOutboundCap → Frame
  outboundLen : Fin ownOutboundCap → UInt32
  outHead : Fin ownOutboundCap
  outTail : Fin ownOutboundCap
  metrics : OwnAdapterMetrics

/-- The cast of `subown_reason_t` to a byte. -/
def SubownReason.code : SubownReason → UInt8
  | .winHigherGeneration => 0
  | .winTieBreakBoxId => 1
  | .dropStaleGeneration => 2
  | .dropDuplicate => 3
  | .keepLocalTieBreak => 4
  | .winNewerEpoch => 5
  | .dropStaleEpoch => 6
  | .invalidMessage => 7
  | .localClaim => 8
  | .localRefresh => 9
  | .localHit => 10
  | .remoteMisroute => 11
  | .remoteMigrationThreshold => 12
  | .unownedClaim => 13

theorem SubownReason.code_inj {r s : SubownReason} (h : r.code = s.code) : r = s := by
  cases r <;> cases s <;> first | rfl | exact absurd h (by decide)

def zeroRecord : SubownRecord where
  subscriberId := 0
  generation := 0
  ownerBox := 0
  reserved := (0, 0, 0)
  policyMask := 0
  activationTs := 0
  lastSeenTs := 0
  remotePacketCounter := 0
  ownerBoxId := 0
  timestamp := 0
  ownerEpoch := 0
  state := .stateUnowned

def zeroMetrics : OwnAdapterMetrics := ⟨0, 0, 0, 0, 0, 0, 0, 0, 0⟩

def OwnershipAdapter.create (cfg : OwnAdapterCfg) : OwnershipAdapter where
  cfg := cfg
  q := fun _ => ⟨0, .evtMisroute, 0, 0⟩
  qHead := 0
  qTail := 0
  table := fun _ => ⟨false, zeroRecord⟩
  outbound := fun _ => List.replicate wireV1FrameSize 0
  outboundLen := fun _ => 0
  outHead := 0
  outTail := 0
  metrics := zeroMetrics

/-- `(i + 1) % cap`. -/
abbrev nextIdx {cap : ℕ} (i : Fin cap) : Fin cap := CyclicIndex.next i

/-! ### The event ring and the outbound queue -/

def OwnershipAdapter.pushEvent (adapter : OwnershipAdapter) (evt : OwnRingEvent) :
    Int × OwnershipAdapter :=
  let n := nextIdx adapter.qTail
  if n = adapter.qHead then
    (-1, { adapter with metrics :=
      { adapter.metrics with
        ownWorkerRingDropTotal := adapter.metrics.ownWorkerRingDropTotal + 1 } })
  else
    (0, { adapter with q := Function.update adapter.q adapter.qTail evt, qTail := n })

def pushEvent (adapter : OwnershipAdapter) (subscriberId : UInt64) (eventType : OwnEventType)
    (tsc : UInt64) : Int × OwnershipAdapter :=
  adapter.pushEvent ⟨subscriberId, eventType, adapter.cfg.localBoxId, tsc⟩

def OwnershipAdapter.popEvent (adapter : OwnershipAdapter) :
    Option OwnRingEvent × OwnershipAdapter :=
  if adapter.qHead = adapter.qTail then (none, adapter)
  else (some (adapter.q adapter.qHead), { adapter with qHead := nextIdx adapter.qHead })

def OwnershipAdapter.countSendErr (adapter : OwnershipAdapter) : OwnershipAdapter :=
  { adapter with metrics :=
    { adapter.metrics with ownZmqSendErrTotal := adapter.metrics.ownZmqSendErrTotal + 1 } }

def OwnershipAdapter.countRecvErr (adapter : OwnershipAdapter) : OwnershipAdapter :=
  { adapter with metrics :=
    { adapter.metrics with ownZmqRecvErrTotal := adapter.metrics.ownZmqRecvErrTotal + 1 } }

def adapterEmitLocal : EmitUpdateFn OwnershipAdapter := fun update adapter =>
  let n := nextIdx adapter.outTail
  if n = adapter.outHead then (.errCallbackFailed, adapter.countSendErr)
  else
    match encodeUpdateV1 update wireV1FrameSize with
    | none => (.errCallbackFailed, adapter.countSendErr)
    | some frame =>
        (.ok,
          { adapter with
            outbound := Function.update adapter.outbound adapter.outTail frame
            outboundLen :=
              Function.update adapter.outboundLen adapter.outTail frame.length.toUInt32
            outTail := n })

/-- The loop of `flush_outbound` after `flushed` iterations. -/
def OwnershipAdapter.flushFrom (adapter : OwnershipAdapter) (flushed : Int) :
    Int × OwnershipAdapter :=
  if _ : adapter.outHead ≠ adapter.outTail then
    { adapter with outHead := nextIdx adapter.outHead }.flushFrom (flushed + 1)
  else (flushed, adapter)
termination_by CyclicIndex.dist adapter.outHead adapter.outTail
decreasing_by
  exact (Nat.lt_succ_self _).trans_eq (CyclicIndex.dist_next ‹_›)

def OwnershipAdapter.flushOutbound (adapter : OwnershipAdapter) : Int × OwnershipAdapter :=
  adapter.flushFrom 0

/-! ### The record table -/

def freshRecord (subscriberId : UInt64) : SubownRecord :=
  { zeroRecord with
    subscriberId := subscriberId
    ownerBox := unownedState
    ownerBoxId := unownedState.toUInt16
    state := .stateUnowned
    ownerEpoch := 1 }

/-- The probing loop of `lookup_slot` from its `i`-th iteration on. -/
def lookupFrom (adapter : OwnershipAdapter) (subscriberId : UInt64) (create : Bool)
    (start : Fin ownRecordCap) : ℕ → ℕ → Option (Fin ownRecordCap) × OwnershipAdapter
  | 0, _ => (none, adapter)
  | remaining + 1, i =>
      let idx := CyclicIndex.shift start i
      let slot := adapter.table idx
      if ¬ slot.used then
        if ¬ create then (none, adapter)
        else
          (some idx, { adapter with
            table := Function.update adapter.table idx ⟨true, freshRecord subscriberId⟩ })
      else if slot.record.subscriberId = subscriberId then (some idx, adapter)
      else lookupFrom adapter subscriberId create start remaining (i + 1)

/-- `subscriber_id % OWN_RECORD_CAP`. -/
def homeSlot (subscriberId : UInt64) : Fin ownRecordCap :=
  ⟨subscriberId.toNat % ownRecordCap, Nat.mod_lt _ (by decide)⟩

def lookupSlot (adapter : OwnershipAdapter) (subscriberId : UInt64) (create : Bool) :
    Option (Fin ownRecordCap) × OwnershipAdapter :=
  lookupFrom adapter subscriberId create (homeSlot subscriberId) ownRecordCap 0

/-- The writes a call makes through the slot pointer it was given. -/
def OwnershipAdapter.writeRecord (adapter : OwnershipAdapter) (idx : Fin ownRecordCap)
    (record : SubownRecord) : OwnershipAdapter :=
  { adapter with
    table := Function.update adapter.table idx { adapter.table idx with record := record } }

end Subown
