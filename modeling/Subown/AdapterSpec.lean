import Subown.EventRing

/-! What the ownership adapter is for, without hashing, probing and cyclic arrays: a map from
at most 4096 subscribers to records, a queue of frames, a queue of events and counters. -/
namespace Subown

open RingBuffer

/-- What a call gives back to its caller. -/
inductive AdapterReply where
  | packet (rc : Int) (out : OwnResult)
  | code (rc : Int)
  | event (popped : Option OwnRingEvent)
  | metrics (rc : Int) (values : OwnAdapterMetrics)
  deriving DecidableEq

def OwnershipAdapter.reply (adapter : OwnershipAdapter) : AdapterCall → AdapterReply
  | .onPacket subscriberId now =>
      .packet (adapter.onPacket subscriberId now).rc (adapter.onPacket subscriberId now).out
  | .onRemoteMsg msg => .code (adapter.onRemoteMsg msg).1
  | .flushOutbound => .code adapter.flushOutbound.1
  | .onPeerDown peerBoxId => .code (adapter.onPeerDown peerBoxId).1
  | .onAgingTick nowTsc => .code (adapter.onAgingTick nowTsc).1
  | .pushEvent evt => .code (adapter.pushEvent evt).1
  | .popEvent => .event adapter.popEvent.1
  | .getMetrics => .metrics adapter.getMetrics.1 adapter.getMetrics.2

/-! ### The registry -/

/-- The records of at most 4096 subscribers. -/
structure Registry where
  records : RecordMap
  held : Finset UInt64
  domain : ∀ s, records s ≠ none ↔ s ∈ held
  bound : held.card ≤ 4096

namespace Registry

def empty : Registry := ⟨fun _ => none, ∅, by simp, by simp⟩

/-- The subscriber has a record or can get one. -/
def Room (g : Registry) (s : UInt64) : Prop := s ∈ g.held ∨ g.held.card < 4096

instance (g : Registry) (s : UInt64) : Decidable (g.Room s) := inferInstanceAs (Decidable (_ ∨ _))

def working (g : Registry) (s : UInt64) : SubownRecord := (g.records s).getD (freshRecord s)

def put (g : Registry) (s : UInt64) (hroom : g.Room s) (r : SubownRecord) : Registry where
  records := Function.update g.records s (some r)
  held := insert s g.held
  domain t := by
    by_cases hts : t = s
    · simp [hts]
    · simp [hts, g.domain]
  bound := by
    rcases hroom with hs | hlt
    · rw [Finset.insert_eq_of_mem hs]
      exact g.bound
    · exact (Finset.card_insert_le s g.held).trans hlt

def release (g : Registry) (p : UInt8) : Registry where
  records s := (g.records s).map (peerDownRecord p)
  held := g.held
  domain s := by simpa using g.domain s
  bound := g.bound

end Registry

/-! ### The adapter -/

structure AdapterSpec where
  cfg : OwnAdapterCfg
  registry : Registry
  outbox : Fifo Frame 511
  events : Fifo OwnRingEvent 2047
  metrics : OwnAdapterMetrics

/-- The action the switch of `on_packet` picks for a decision. -/
def packetAction (mode : OwnMode) : SubownDecision → OwnAction
  | .processLocal => .actProcessLocal
  | .forwardRemote => if mode = .modeEnforce then .actForwardRemote else .actProcessLocal
  | .triggerMigration => if mode = .modeEnforce then .actTriggerMigration else .actProcessLocal
  | .emitLocalUpdate => if mode = .modeEnforce then .actClaimEmitted else .actProcessLocal
  | _ => .actNoop

namespace AdapterSpec

def create (cfg : OwnAdapterCfg) : AdapterSpec := ⟨cfg, .empty, .empty, .empty, zeroMetrics⟩

def withMetrics (x : AdapterSpec) (metrics : OwnAdapterMetrics) : AdapterSpec :=
  { x with metrics := metrics }

/-- An emitter that takes an update unless the outbox is full. -/
def emit (x : AdapterSpec) (outcome : ClaimOutcome (Option SubownUpdate)) : AdapterSpec :=
  if outcome.status = .errCallbackFailed then
    x.withMetrics { x.metrics with ownZmqSendErrTotal := x.metrics.ownZmqSendErrTotal + 1 }
  else
    match outcome.userCtx with
    | none => x
    | some u =>
        if h : x.outbox.Full then x else { x with outbox := x.outbox.push h (frameBytes u) }

/-- An event of the adapter's own is queued and counted, or dropped and counted. -/
def note (x : AdapterSpec) : Option OwnRingEvent → AdapterSpec
  | none => x
  | some evt =>
      if h : x.events.Full then
        x.withMetrics
          { x.metrics with ownWorkerRingDropTotal := x.metrics.ownWorkerRingDropTotal + 1 }
      else
        { x with
          events := x.events.push h evt
          metrics :=
            { x.metrics with ownWorkerEventsTotal := x.metrics.ownWorkerEventsTotal + 1 } }

/-- What follows a decision of the core. -/
def decided (x : AdapterSpec) (s now : UInt64) (decision : SubownDecision) : AdapterSpec :=
  let noted := x.note (packetEvent x.cfg s now decision)
  if decision = .triggerMigration then
    noted.withMetrics
      { noted.metrics with
        ownMigrationTriggerTotal := noted.metrics.ownMigrationTriggerTotal + 1 }
  else noted

def onPacket (x : AdapterSpec) (s now : UInt64) : AdapterReply × AdapterSpec :=
  if x.cfg.mode = .modeDisabled then (.packet 0 ⟨.actNoop, 0, 0⟩, x)
  else if hroom : x.registry.Room s then
    let emitted := if x.outbox.Full then .errCallbackFailed else .ok
    let outcome := corePacket x.cfg (x.registry.working s) now emitted
    let y := { x with registry := x.registry.put s hroom outcome.record }.emit outcome
    if outcome.status ≠ .ok then (.packet (-1) ⟨.actNoop, 0, 0⟩, y)
    else
      (.packet 0 ⟨packetAction x.cfg.mode outcome.out.decision, outcome.record.ownerBox,
        outcome.out.reason.code⟩, y.decided s now outcome.out.decision)
  else (.packet (-1) ⟨.actNoop, 0, 0⟩, x)

def onRemoteMsg (x : AdapterSpec) (msg : List UInt8) : AdapterReply × AdapterSpec :=
  match decodeUpdateV1 msg with
  | none =>
      (.code (-1),
        x.withMetrics { x.metrics with ownZmqRecvErrTotal := x.metrics.ownZmqRecvErrTotal + 1 })
  | some u =>
      if hroom : x.registry.Room u.subscriberId then
        let applied := applyRemoteUpdate (x.registry.working u.subscriberId) u
        (.code 0, { x with
          registry := x.registry.put u.subscriberId hroom applied.record
          metrics := x.metrics.countRemote applied.out.reason })
      else (.code (-1), x)

def pushEvent (x : AdapterSpec) (evt : OwnRingEvent) : AdapterReply × AdapterSpec :=
  if h : x.events.Full then
    (.code (-1), x.withMetrics
      { x.metrics with ownWorkerRingDropTotal := x.metrics.ownWorkerRingDropTotal + 1 })
  else (.code 0, { x with events := x.events.push h evt })

/-- One call: the reply and the state it leaves. -/
def respond (x : AdapterSpec) : AdapterCall → AdapterReply × AdapterSpec
  | .onPacket s now => x.onPacket s now
  | .onRemoteMsg msg => x.onRemoteMsg msg
  | .flushOutbound => (.code x.outbox.items.length, { x with outbox := .empty })
  | .onPeerDown p => (.code 0, { x with registry := x.registry.release p })
  | .onAgingTick _ => (.code 0, x)
  | .pushEvent evt => x.pushEvent evt
  | .popEvent => (.event x.events.items.head?, { x with events := x.events.pop })
  | .getMetrics => (.metrics 0 x.metrics, x)

def step (x : AdapterSpec) (call : AdapterCall) : AdapterSpec := (x.respond call).2

def reply (x : AdapterSpec) (call : AdapterCall) : AdapterReply := (x.respond call).1

end AdapterSpec

end Subown
