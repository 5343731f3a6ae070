import Subown.AdapterStep
import Subown.RingBuffer

/-! The worker event ring over whole runs: what the calls push and pop, and that the ring is a
bounded queue between the two. -/
namespace Subown

open OwnershipAdapter RunRules

/-- What the event ring consists of, with the counter of the events it refused. -/
structure EventRing where
  q : Fin ownEventQCap → OwnRingEvent
  qHead : Fin ownEventQCap
  qTail : Fin ownEventQCap
  drops : UInt64

namespace OwnershipAdapter

def ring (a : OwnershipAdapter) : EventRing :=
  ⟨a.q, a.qHead, a.qTail, a.metrics.ownWorkerRingDropTotal⟩

/-- The queued events, oldest first. -/
def events (a : OwnershipAdapter) : List OwnRingEvent :=
  RingBuffer.contents a.q a.qHead a.qTail

def countRingDrop (a : OwnershipAdapter) : OwnershipAdapter :=
  { a with metrics :=
    { a.metrics with ownWorkerRingDropTotal := a.metrics.ownWorkerRingDropTotal + 1 } }

/-- The event a call pushes; for a packet it is read off the reply. -/
def offeredBy (a : OwnershipAdapter) : AdapterCall → Option OwnRingEvent
  | .pushEvent evt => some evt
  | .onPacket s now =>
      let reply := a.onPacket s now
      if reply.rc ≠ 0 then none
      else if reply.out.reason = SubownReason.remoteMigrationThreshold.code then
        some ⟨s, .evtMigrationHint, a.cfg.localBoxId, now⟩
      else if reply.out.reason = SubownReason.unownedClaim.code then
        some ⟨s, .evtUnownedClaim, a.cfg.localBoxId, now⟩
      else if reply.out.reason = SubownReason.remoteMisroute.code ∧ a.cfg.mode = .modeObserve then
        some ⟨s, .evtMisroute, a.cfg.localBoxId, now⟩
      else none
  | _ => none

/-- The event of a call whose push succeeds. -/
def storedBy (a : OwnershipAdapter) (call : AdapterCall) : List OwnRingEvent :=
  (a.offeredBy call).toList.filter fun evt => (a.pushEvent evt).1 = 0

def poppedBy (a : OwnershipAdapter) : AdapterCall → List OwnRingEvent
  | .popEvent => a.popEvent.1.toList
  | _ => []

/-- The adapter after pushing an event, if there is one. -/
def offer (a : OwnershipAdapter) : Option OwnRingEvent → OwnershipAdapter
  | none => a
  | some evt => (a.pushEvent evt).2

/-- As `offer`, counting an event that was pushed. -/
def note (a : OwnershipAdapter) : Option OwnRingEvent → OwnershipAdapter
  | none => a
  | some evt => countEvent (a.pushEvent evt)

end OwnershipAdapter

/-- An adapter with the events pushed and popped so far. -/
structure EventLog where
  adapter : OwnershipAdapter
  pushed : List OwnRingEvent
  popped : List OwnRingEvent

namespace EventLog

def start (cfg : OwnAdapterCfg) : EventLog := ⟨OwnershipAdapter.create cfg, [], []⟩

def step (h : EventLog) (call : AdapterCall) : EventLog :=
  ⟨h.adapter.step call, h.pushed ++ h.adapter.storedBy call, h.popped ++ h.adapter.poppedBy call⟩

end EventLog

/-- The ring as a bounded queue: its contents, and when pushes and pops are refused. -/
structure RingLaw (h : EventLog) : Prop where
  indices : h.adapter.qHead.val < 2048 ∧ h.adapter.qTail.val < 2048
  fifo : h.popped ++ h.adapter.events = h.pushed
  pushFails : ∀ evt, (h.adapter.pushEvent evt).1 ≠ 0 ↔ h.adapter.events.length = 2047
  pushDrops : ∀ evt, (h.adapter.pushEvent evt).1 ≠ 0 →
    (h.adapter.pushEvent evt).2 = h.adapter.countRingDrop
  drops : ∀ call, (h.adapter.step call).metrics.ownWorkerRingDropTotal =
    if (h.adapter.offeredBy call).isSome ∧ h.adapter.events.length = 2047 then
      h.adapter.metrics.ownWorkerRingDropTotal + 1
    else h.adapter.metrics.ownWorkerRingDropTotal
  popNone : h.adapter.popEvent.1 = none ↔ h.adapter.events = []
  popIdle : h.adapter.popEvent.1 = none → h.adapter.popEvent.2 = h.adapter

variable {a c : OwnershipAdapter} {cfg : OwnAdapterCfg} {s now : UInt64} {call : AdapterCall}

/-! ### Pushing and popping -/

theorem events_congr (h : c.ring = a.ring) : c.events = a.events := by
  unfold events
  rw [show c.q = a.q from congrArg EventRing.q h,
    show c.qHead = a.qHead from congrArg EventRing.qHead h,
    show c.qTail = a.qTail from congrArg EventRing.qTail h]

theorem full_iff : nextIdx a.qTail = a.qHead ↔ a.events.length = 2047 :=
  RingBuffer.next_eq_head.trans Nat.succ_inj

theorem pushEvent_full (h : a.events.length = 2047) (evt : OwnRingEvent) :
    a.pushEvent evt = (-1, a.countRingDrop) := if_pos (full_iff.mpr h)

theorem pushEvent_room (h : a.events.length ≠ 2047) (evt : OwnRingEvent) :
    a.pushEvent evt =
      (0, { a with q := Function.update a.q a.qTail evt, qTail := nextIdx a.qTail }) :=
  if_neg fun e => h (full_iff.mp e)

theorem pushEvent_rc {evt : OwnRingEvent} :
    (a.pushEvent evt).1 = 0 ↔ a.events.length ≠ 2047 := by
  by_cases h : a.events.length = 2047
  · simp [pushEvent_full h, h]
  · simp [pushEvent_room h, h]

/-- A push that succeeds appends its event. -/
theorem events_pushEvent (a : OwnershipAdapter) (evt : OwnRingEvent) :
    (a.pushEvent evt).2.events = a.events ++ [evt].filter fun e => (a.pushEvent e).1 = 0 := by
  by_cases h : a.events.length = 2047
  · simp only [List.filter_singleton, pushEvent_full h]
    exact (List.append_nil _).symm
  · have hne : nextIdx a.qTail ≠ a.qHead := fun e => h (full_iff.mp e)
    simp only [List.filter_singleton, pushEvent_room h]
    exact RingBuffer.contents_push hne evt

theorem drops_pushEvent (a : OwnershipAdapter) (evt : OwnRingEvent) :
    (a.pushEvent evt).2.metrics.ownWorkerRingDropTotal =
      if a.events.length = 2047 then a.metrics.ownWorkerRingDropTotal + 1
      else a.metrics.ownWorkerRingDropTotal := by
  split_ifs with h
  · rw [pushEvent_full h]
    rfl
  · rw [pushEvent_room h]

theorem popEvent_none : a.popEvent.1 = none ↔ a.events = [] := by
  unfold OwnershipAdapter.popEvent
  rw [events, RingBuffer.contents_eq_nil]
  split_ifs with h <;> simp [h]

theorem popEvent_idle (h : a.popEvent.1 = none) : a.popEvent.2 = a := by
  unfold OwnershipAdapter.popEvent at h ⊢
  split_ifs at h ⊢
  rfl

theorem events_popEvent (a : OwnershipAdapter) :
    a.popEvent.1.toList ++ a.popEvent.2.events = a.events := by
  unfold OwnershipAdapter.popEvent
  split_ifs with h
  · rfl
  · exact (RingBuffer.contents_pop h).symm

/-! ### What a call pushes -/

theorem ring_countEvent (pushed : Int × OwnershipAdapter) :
    (countEvent pushed).ring = pushed.2.ring := by
  unfold countEvent
  split_ifs <;> rfl

theorem ring_offer (h : c.ring = a.ring) (offered : Option OwnRingEvent) :
    (c.offer offered).ring = (a.offer offered).ring := by
  cases offered with
  | none => exact h
  | some evt =>
      have hlen : c.events.length = a.events.length := by rw [events_congr h]
      have hq : c.q = a.q := congrArg EventRing.q h
      have hhead : c.qHead = a.qHead := congrArg EventRing.qHead h
      have htail : c.qTail = a.qTail := congrArg EventRing.qTail h
      have hdrops : c.metrics.ownWorkerRingDropTotal = a.metrics.ownWorkerRingDropTotal :=
        congrArg EventRing.drops h
      unfold offer
      by_cases hfull : a.events.length = 2047
      · simp only [pushEvent_full hfull, pushEvent_full (hlen.trans hfull), ring, countRingDrop,
          hq, hhead, htail, hdrops]
      · have hfull' : c.events.length ≠ 2047 := hlen ▸ hfull
        simp only [pushEvent_room hfull, pushEvent_room hfull', ring, hq, hhead, htail, hdrops]

/-- The event the switch of `on_packet` pushes for a decision. -/
def packetEvent (cfg : OwnAdapterCfg) (s now : UInt64) : SubownDecision → Option OwnRingEvent
  | .forwardRemote =>
      if cfg.mode = .modeEnforce then none else some ⟨s, .evtMisroute, cfg.localBoxId, now⟩
  | .triggerMigration => some ⟨s, .evtMigrationHint, cfg.localBoxId, now⟩
  | .emitLocalUpdate => some ⟨s, .evtUnownedClaim, cfg.localBoxId, now⟩
  | _ => none

theorem actOn_adapter (c : OwnershipAdapter) (s now : UInt64) (out : OwnResult)
    (d : SubownDecision) :
    (c.actOn s now out d).adapter =
      if d = .triggerMigration then (c.note (packetEvent c.cfg s now d)).countMigration
      else c.note (packetEvent c.cfg s now d) := by
  cases d with
  | forwardRemote =>
      simp only [reduceCtorEq, if_false, actOn, packetEvent]
      split_ifs <;> rfl
  | triggerMigration =>
      simp only [if_true, actOn]
      split_ifs <;> rfl
  | emitLocalUpdate =>
      simp only [reduceCtorEq, if_false, actOn]
      split_ifs <;> rfl
  | processLocal => rfl
  | applyRemote => rfl
  | keepLocal => rfl
  | noop => rfl

theorem ring_note (c : OwnershipAdapter) (offered : Option OwnRingEvent) :
    (c.note offered).ring = (c.offer offered).ring := by
  cases offered with
  | none => rfl
  | some evt => exact ring_countEvent _

theorem ring_actOn (c : OwnershipAdapter) (s now : UInt64) (out : OwnResult)
    (d : SubownDecision) :
    (c.actOn s now out d).adapter.ring = (c.offer (packetEvent c.cfg s now d)).ring := by
  rw [actOn_adapter]
  split_ifs <;> exact ring_note c _

theorem offeredBy_idle (h : a.cfg.mode = .modeDisabled ∨ ¬ a.Room s) (now : UInt64) :
    a.offeredBy (.onPacket s now) = none := by
  simp [offeredBy, onPacket_idle_eq h, SubownReason.code]

/-- The reply of a packet that reaches the core names the event it pushed. -/
theorem offeredBy_packet (h : a.Sound) (hmode : a.cfg.mode ≠ .modeDisabled) (hroom : a.Room s)
    (now : UInt64) :
    let outcome := corePacket a.cfg (a.workingRecord s) now a.emitStatus
    a.offeredBy (.onPacket s now) =
      if outcome.status = .ok then packetEvent a.cfg s now outcome.out.decision else none := by
  intro outcome
  have hspec := onPacket_spec h hmode hroom now
  have hrc := hspec.rc
  unfold offeredBy
  by_cases hok : outcome.status = .ok
  swap
  · rw [if_neg hok] at hrc ⊢
    simp [hrc]
  have hreason := (hspec.out hok).1
  rw [if_pos hok] at hrc ⊢
  obtain e | e | e | e := corePacket_out hok
  · simp [hrc, hreason, e, outcome, packetEvent, SubownReason.code]
  · simp only [hrc, hreason, e, outcome, packetEvent, SubownReason.code]
    cases hm : a.cfg.mode <;> simp_all
  · simp [hrc, hreason, e, outcome, packetEvent, SubownReason.code]
  · simp [hrc, hreason, e, outcome, packetEvent, SubownReason.code]

/-- The emitter leaves the ring and the configuration alone. -/
theorem afterEmit_frame (a : OwnershipAdapter) (outcome : ClaimOutcome (Option SubownUpdate))
    (t : Fin ownRecordCap → OwnSlot) : ((a.afterEmit outcome).withTable t).ring = a.ring ∧
      ((a.afterEmit outcome).withTable t).cfg = a.cfg := by
  unfold afterEmit
  cases outcome.userCtx <;> split_ifs <;> exact ⟨rfl, rfl⟩

theorem ring_onPacket (h : a.Sound) (s now : UInt64) :
    (a.onPacket s now).adapter.ring = (a.offer (a.offeredBy (.onPacket s now))).ring := by
  obtain hidle | ⟨hmode, hroom⟩ := idle_or_reaches a s
  · rw [offeredBy_idle hidle, onPacket_idle hidle]
    rfl
  obtain ⟨t, -, hreply⟩ := onPacket_eq h hmode hroom now
  rw [offeredBy_packet h hmode hroom, hreply]
  generalize corePacket a.cfg (a.workingRecord s) now a.emitStatus = outcome
  have hframe := afterEmit_frame a outcome t
  unfold outcomeReply
  by_cases hok : outcome.status = .ok
  · rw [if_neg (not_not.mpr hok), if_pos hok, ring_actOn, hframe.2]
    exact ring_offer hframe.1 _
  · rw [if_pos hok, if_neg hok]
    exact hframe.1

theorem ring_onRemoteMsg (h : a.Sound) (m : List UInt8) : (a.onRemoteMsg m).2.ring = a.ring := by
  obtain hdec | ⟨u, hdec, hroom⟩ | ⟨u, hdec, hroom⟩ := message_cases a m
  · rw [onRemoteMsg_undecodable hdec]
    rfl
  · rw [onRemoteMsg_full hdec hroom]
  · obtain ⟨t, -, hreply⟩ := onRemoteMsg_eq h hdec hroom
    rw [hreply]
    unfold ring OwnAdapterMetrics.countRemote
    dsimp only
    split <;> rfl

/-- Every call but a pop changes the ring by the push of the event it offers. -/
theorem step_ring (h : a.Sound) (call : AdapterCall) (hpop : call ≠ .popEvent) :
    (a.step call).ring = (a.offer (a.offeredBy call)).ring := by
  cases call with
  | onPacket s now => exact ring_onPacket h s now
  | onRemoteMsg m => exact ring_onRemoteMsg h m
  | flushOutbound =>
      change a.flushOutbound.2.ring = a.ring
      rw [flushOutbound_eq]
      rfl
  | onPeerDown p =>
      change (a.onPeerDown p).2.ring = a.ring
      rw [onPeerDown_eq]
      rfl
  | onAgingTick now => rfl
  | pushEvent evt => rfl
  | popEvent => exact absurd rfl hpop
  | getMetrics => rfl

theorem events_offer (a : OwnershipAdapter) (offered : Option OwnRingEvent) :
    (a.offer offered).events =
      a.events ++ offered.toList.filter fun evt => (a.pushEvent evt).1 = 0 := by
  cases offered with
  | none => exact (List.append_nil _).symm
  | some evt => exact events_pushEvent a evt

/-- Conservation of one call: what was queued and what is pushed is popped or still queued. -/
theorem step_events (h : a.Sound) (call : AdapterCall) :
    a.poppedBy call ++ (a.step call).events = a.events ++ a.storedBy call := by
  by_cases hpop : call = .popEvent
  · subst hpop
    exact (events_popEvent a).trans (List.append_nil _).symm
  · have hnone : a.poppedBy call = [] := by
      cases call <;> first | rfl | exact absurd rfl hpop
    rw [hnone, List.nil_append, events_congr (step_ring h call hpop), events_offer]
    rfl

theorem step_drops (h : a.Sound) (call : AdapterCall) :
    (a.step call).metrics.ownWorkerRingDropTotal =
      if (a.offeredBy call).isSome ∧ a.events.length = 2047 then
        a.metrics.ownWorkerRingDropTotal + 1
      else a.metrics.ownWorkerRingDropTotal := by
  by_cases hpop : call = .popEvent
  · subst hpop
    change a.popEvent.2.metrics.ownWorkerRingDropTotal = _
    unfold OwnershipAdapter.popEvent
    simp only [offeredBy, Option.isSome_none]
    split_ifs <;> first | rfl | simp_all
  · have hdrops := congrArg EventRing.drops (step_ring h call hpop)
    change (a.step call).metrics.ownWorkerRingDropTotal =
      (a.offer (a.offeredBy call)).metrics.ownWorkerRingDropTotal at hdrops
    rw [hdrops]
    cases a.offeredBy call with
    | none => simp [offer]
    | some evt => simpa [offer] using drops_pushEvent a evt

/-! ### Runs -/

structure RingInv (cfg : OwnAdapterCfg) (h : EventLog) : Prop extends Grounded cfg h.adapter where
  fifo : h.popped ++ h.adapter.events = h.pushed

theorem create_events (cfg : OwnAdapterCfg) : (OwnershipAdapter.create cfg).events = [] :=
  RingBuffer.contents_eq_nil.mpr rfl

theorem RingInv.start (cfg : OwnAdapterCfg) : RingInv cfg (EventLog.start cfg) where
  toGrounded := .create cfg
  fifo := (List.nil_append _).trans (create_events cfg)

theorem RingInv.step {h : EventLog} (hi : RingInv cfg h) (call : AdapterCall) :
    RingInv cfg (h.step call) where
  toGrounded := hi.toGrounded.step call
  fifo := by
    change (h.popped ++ h.adapter.poppedBy call) ++ (h.adapter.step call).events =
      h.pushed ++ h.adapter.storedBy call
    rw [List.append_assoc, step_events hi.sound, ← List.append_assoc, hi.fifo]

theorem RingInv.law {h : EventLog} (hi : RingInv cfg h) : RingLaw h where
  indices := ⟨h.adapter.qHead.isLt, h.adapter.qTail.isLt⟩
  fifo := hi.fifo
  pushFails evt := (not_congr pushEvent_rc).trans not_not
  pushDrops evt hfail := by
    rw [pushEvent_full (not_not.mp fun e => hfail (pushEvent_rc.mpr e))]
  drops call := step_drops hi.sound call
  popNone := popEvent_none
  popIdle := popEvent_idle

/-- Over every run the event ring is a queue of at most 2047 events: nothing pushed is lost,
repeated or changed before it is popped. -/
theorem event_ring_fifo (cfg : OwnAdapterCfg) (calls : List AdapterCall) :
    Always EventLog.step RingLaw (EventLog.start cfg) calls :=
  always_of_inv (P := fun _ _ => True) (fun _ hi => hi.law) (fun _ call hi _ => hi.step call)
    (RingInv.start cfg) (.of_forall fun _ _ => trivial)

end Subown
