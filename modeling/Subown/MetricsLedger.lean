import Subown.EventRing

/-! The counters of an adapter against the history of its calls. Counters are 64-bit and wrap;
the history counts without bound. -/
namespace Subown

open OwnershipAdapter RunRules

namespace OwnershipAdapter

/-- Messages `on_remote_msg` answers with zero. -/
def acceptedCount (a : OwnershipAdapter) : AdapterCall → ℕ
  | .onRemoteMsg m => if (a.onRemoteMsg m).1 = 0 then 1 else 0
  | _ => 0

/-- Messages that strictly raise the (epoch, generation) of their subscriber's record. -/
def raisedCount (a : OwnershipAdapter) : AdapterCall → ℕ
  | .onRemoteMsg m =>
      match decodeUpdateV1 m with
      | none => 0
      | some u =>
          if (a.workingRecord u.subscriberId).stamp <
              ((a.onRemoteMsg m).2.workingRecord u.subscriberId).stamp then 1 else 0
  | _ => 0

/-- Packets that decide a migration trigger, an unowned claim or, in `OBSERVE`, a misroute. -/
def decidedCount (a : OwnershipAdapter) : AdapterCall → ℕ
  | .onPacket s now =>
      let reply := a.onPacket s now
      if reply.rc = 0 ∧ (reply.out.reason = SubownReason.remoteMigrationThreshold.code ∨
          reply.out.reason = SubownReason.unownedClaim.code ∨
          (reply.out.reason = SubownReason.remoteMisroute.code ∧ a.cfg.mode = .modeObserve))
      then 1 else 0
  | _ => 0

def triggerCount (a : OwnershipAdapter) : AdapterCall → ℕ
  | .onPacket s now =>
      if (a.onPacket s now).out.reason = SubownReason.remoteMigrationThreshold.code then 1 else 0
  | _ => 0

/-- Packets that fail although `lookup_slot` has a slot for the subscriber. -/
def refusedCount (a : OwnershipAdapter) : AdapterCall → ℕ
  | .onPacket s now => if (a.onPacket s now).rc = -1 ∧ a.Room s then 1 else 0
  | _ => 0

end OwnershipAdapter

/-- An adapter with what its calls amount to so far. -/
structure Ledger where
  adapter : OwnershipAdapter
  accepted : ℕ
  raised : ℕ
  popped : ℕ
  decided : ℕ
  triggers : ℕ
  refused : ℕ

namespace Ledger

def start (cfg : OwnAdapterCfg) : Ledger := ⟨OwnershipAdapter.create cfg, 0, 0, 0, 0, 0, 0⟩

def step (h : Ledger) (call : AdapterCall) : Ledger where
  adapter := h.adapter.step call
  accepted := h.accepted + h.adapter.acceptedCount call
  raised := h.raised + h.adapter.raisedCount call
  popped := h.popped + (h.adapter.poppedBy call).length
  decided := h.decided + h.adapter.decidedCount call
  triggers := h.triggers + h.adapter.triggerCount call
  refused := h.refused + h.adapter.refusedCount call

end Ledger

/-- The counters agree with the history. -/
structure Balanced (h : Ledger) : Prop where
  applied : h.adapter.metrics.ownApplyRemoteTotal = UInt64.ofNat h.accepted
  classes : h.adapter.metrics.ownApplyRemoteTotal = h.adapter.metrics.ownStaleDropTotal +
    h.adapter.metrics.ownDupDropTotal + h.adapter.metrics.ownConflictTotal + UInt64.ofNat h.raised
  events : h.adapter.metrics.ownWorkerEventsTotal =
    UInt64.ofNat (h.popped + h.adapter.events.length)
  decided : h.adapter.metrics.ownWorkerEventsTotal + h.adapter.metrics.ownWorkerRingDropTotal =
    UInt64.ofNat h.decided
  triggers : h.adapter.metrics.ownMigrationTriggerTotal = UInt64.ofNat h.triggers
  refused : h.adapter.metrics.ownZmqSendErrTotal = UInt64.ofNat h.refused

variable {a : OwnershipAdapter} {cfg : OwnAdapterCfg} {s now : UInt64} {call : AdapterCall}

/-! ### Packets -/

theorem metrics_note (c : OwnershipAdapter) (offered : Option OwnRingEvent) :
    (c.note offered).metrics = { c.metrics with
      ownWorkerEventsTotal := c.metrics.ownWorkerEventsTotal +
        UInt64.ofNat (offered.toList.filter fun evt => (c.pushEvent evt).1 = 0).length
      ownWorkerRingDropTotal := (c.offer offered).metrics.ownWorkerRingDropTotal } := by
  cases offered with
  | none => simp [note, offer]
  | some evt =>
      unfold note offer countEvent
      by_cases h : c.events.length = 2047
      · simp [pushEvent_full h, countRingDrop]
      · simp [pushEvent_room h]

theorem decidedCount_eq (a : OwnershipAdapter) (s now : UInt64) :
    a.decidedCount (.onPacket s now) = (a.offeredBy (.onPacket s now)).toList.length := by
  unfold decidedCount offeredBy
  dsimp only
  split_ifs <;> simp_all

/-- A packet that does not reach the core counts for nothing. -/
theorem idle_counts (h : a.cfg.mode = .modeDisabled ∨ ¬ a.Room s) (now : UInt64) :
    a.triggerCount (.onPacket s now) = 0 ∧ a.refusedCount (.onPacket s now) = 0 := by
  constructor
  · simp [triggerCount, onPacket_idle_eq h, SubownReason.code]
  · rcases h with hmode | hroom
    · simp [refusedCount, onPacket_idle_eq (Or.inl hmode), hmode]
    · simp [refusedCount, hroom]

/-- What the counts say about a packet that reaches the core. -/
theorem packet_counts (h : a.Sound) (hmode : a.cfg.mode ≠ .modeDisabled) (hroom : a.Room s)
    (now : UInt64) :
    let outcome := corePacket a.cfg (a.workingRecord s) now a.emitStatus
    a.triggerCount (.onPacket s now) =
        (if outcome.status = .ok ∧ outcome.out.decision = .triggerMigration then 1 else 0) ∧
      a.refusedCount (.onPacket s now) = if outcome.status = .ok then 0 else 1 := by
  intro outcome
  have hspec := onPacket_spec h hmode hroom now
  have hrc := hspec.rc
  by_cases hok : outcome.status = .ok
  · rw [if_pos hok] at hrc ⊢
    constructor
    · simp only [triggerCount, (hspec.out hok).1, hok, true_and]
      obtain e | e | e | e := corePacket_out hok <;> simp [e, outcome, SubownReason.code]
    · simp [refusedCount, hrc]
  · obtain ⟨t, -, hreply⟩ := onPacket_eq h hmode hroom now
    have hout : (a.onPacket s now).out = ⟨.actNoop, 0, 0⟩ := by
      rw [hreply, outcomeReply, if_pos hok]
    rw [if_neg hok] at hrc ⊢
    constructor
    · simp [triggerCount, hout, hok, SubownReason.code]
    · simp [refusedCount, hrc, hroom]

/-- The emitter counts its refusal and nothing else. -/
theorem metrics_afterEmit (a : OwnershipAdapter) {outcome : ClaimOutcome (Option SubownUpdate)}
    (hstatus : outcome.status = .ok ∨ outcome.status = .errCallbackFailed)
    (t : Fin ownRecordCap → OwnSlot) :
    ((a.afterEmit outcome).withTable t).metrics = { a.metrics with
      ownZmqSendErrTotal := a.metrics.ownZmqSendErrTotal +
        UInt64.ofNat (if outcome.status = .ok then 0 else 1) } := by
  unfold afterEmit
  rcases hstatus with e | e
  · cases hu : outcome.userCtx <;> simp [e, enqueueAll, enqueue, withTable]
  · simp [e, countSendErr, withTable]

/-- The counters a packet moves. -/
theorem metrics_onPacket (h : a.Sound) (hb : BoxId a.cfg.localBoxId) (s now : UInt64) :
    (a.onPacket s now).adapter.metrics = { a.metrics with
      ownWorkerEventsTotal := a.metrics.ownWorkerEventsTotal +
        UInt64.ofNat (a.storedBy (.onPacket s now)).length
      ownWorkerRingDropTotal :=
        (a.offer (a.offeredBy (.onPacket s now))).metrics.ownWorkerRingDropTotal
      ownMigrationTriggerTotal := a.metrics.ownMigrationTriggerTotal +
        UInt64.ofNat (a.triggerCount (.onPacket s now))
      ownZmqSendErrTotal := a.metrics.ownZmqSendErrTotal +
        UInt64.ofNat (a.refusedCount (.onPacket s now)) } := by
  obtain hidle | ⟨hmode, hroom⟩ := idle_or_reaches a s
  · obtain ⟨htrigger, hrefused⟩ := idle_counts hidle now
    simp [storedBy, offeredBy_idle hidle, onPacket_idle hidle, htrigger, hrefused, offer]
  obtain ⟨t, -, hreply⟩ := onPacket_eq h hmode hroom now
  obtain ⟨htrigger, hrefused⟩ := packet_counts h hmode hroom now
  have hoffered := offeredBy_packet h hmode hroom now
  have hemit := metrics_afterEmit a (corePacket_status hb (a.workingRecord s) now a.emitStatus) t
  dsimp only at hreply htrigger hrefused hoffered
  generalize corePacket a.cfg (a.workingRecord s) now a.emitStatus = outcome at *
  obtain ⟨hring, hcfg⟩ := afterEmit_frame a outcome t
  generalize (a.afterEmit outcome).withTable t = c at *
  rw [htrigger, hrefused, storedBy, hoffered, hreply, outcomeReply]
  by_cases hok : outcome.status = .ok
  swap
  · simp [hok, hemit, offer]
  -- The event goes into the ring of `a`, by way of the adapter the emitter left.
  have hdrops : ∀ offered, (c.offer offered).metrics.ownWorkerRingDropTotal =
      (a.offer offered).metrics.ownWorkerRingDropTotal := fun offered =>
    congrArg EventRing.drops (ring_offer hring offered)
  have hmetrics : c.metrics = a.metrics := by simpa [hok] using hemit
  have hnote := metrics_note c (packetEvent a.cfg s now outcome.out.decision)
  simp only [pushEvent_rc, events_congr hring, hmetrics, hdrops] at hnote
  rw [if_neg (not_not.mpr hok), actOn_adapter, hcfg]
  generalize packetEvent a.cfg s now outcome.out.decision = offered at *
  by_cases hd : outcome.out.decision = .triggerMigration
  · simp [hd, hok, countMigration, hnote, pushEvent_rc]
  · simp [hd, hok, hnote, pushEvent_rc]

/-! ### Messages -/

/-- Every accepted message falls into one class: stale, duplicate, conflict or raise. -/
theorem countRemote_classes {r : SubownRecord} {u : SubownUpdate} (hv : ValidFor r u)
    (m : OwnAdapterMetrics) :
    let applied := applyRemoteUpdate r u
    let m' := m.countRemote applied.out.reason
    m'.ownApplyRemoteTotal = m.ownApplyRemoteTotal + 1 ∧
    m'.ownStaleDropTotal + m'.ownDupDropTotal + m'.ownConflictTotal +
        UInt64.ofNat (if r.stamp < applied.record.stamp then 1 else 0) =
      m.ownStaleDropTotal + m.ownDupDropTotal + m.ownConflictTotal + 1 ∧
    m'.ownWorkerEventsTotal = m.ownWorkerEventsTotal ∧
    m'.ownWorkerRingDropTotal = m.ownWorkerRingDropTotal ∧
    m'.ownMigrationTriggerTotal = m.ownMigrationTriggerTotal ∧
    m'.ownZmqSendErrTotal = m.ownZmqSendErrTotal := by
  have hstamp : (adopt r u).stamp = u.stamp := rfl
  obtain ⟨_, e⟩ | ⟨hs, e⟩ | ⟨_, _, e⟩ | ⟨hs, _, e⟩ | ⟨_, _, e⟩ := applyRemoteUpdate_cases hv
  · rw [e]
    dsimp only
    split_ifs <;> simp [OwnAdapterMetrics.countRemote] <;> grind
  · rw [e]
    dsimp only
    split_ifs <;> simp_all [OwnAdapterMetrics.countRemote]
  · rw [e]
    simp [OwnAdapterMetrics.countRemote]
    grind
  · rw [e]
    simp [OwnAdapterMetrics.countRemote, hstamp, hs]
    grind
  · rw [e]
    simp [OwnAdapterMetrics.countRemote]
    grind

/-! ### One call -/

/-- What one call adds to the counters. -/
structure CountedStep (a : OwnershipAdapter) (call : AdapterCall) : Prop where
  applied : (a.step call).metrics.ownApplyRemoteTotal =
    a.metrics.ownApplyRemoteTotal + UInt64.ofNat (a.acceptedCount call)
  classes : (a.step call).metrics.ownStaleDropTotal + (a.step call).metrics.ownDupDropTotal +
      (a.step call).metrics.ownConflictTotal + UInt64.ofNat (a.raisedCount call) =
    a.metrics.ownStaleDropTotal + a.metrics.ownDupDropTotal + a.metrics.ownConflictTotal +
      UInt64.ofNat (a.acceptedCount call)
  events : (a.step call).metrics.ownWorkerEventsTotal =
    a.metrics.ownWorkerEventsTotal + UInt64.ofNat (a.storedBy call).length
  triggers : (a.step call).metrics.ownMigrationTriggerTotal =
    a.metrics.ownMigrationTriggerTotal + UInt64.ofNat (a.triggerCount call)
  refused : (a.step call).metrics.ownZmqSendErrTotal =
    a.metrics.ownZmqSendErrTotal + UInt64.ofNat (a.refusedCount call)

/-- Every event a packet decides is stored or dropped. -/
theorem stored_or_dropped (h : a.Sound) (call : AdapterCall) :
    (a.step call).metrics.ownWorkerRingDropTotal + UInt64.ofNat (a.storedBy call).length =
      a.metrics.ownWorkerRingDropTotal + UInt64.ofNat (a.offeredBy call).toList.length := by
  rw [step_drops h]
  unfold storedBy
  cases a.offeredBy call with
  | none => simp
  | some evt =>
      by_cases hfull : a.events.length = 2047
      · simp [hfull, pushEvent_full hfull]
      · simp [hfull, pushEvent_room hfull]

theorem counted_remote (h : a.Sound) (m : List UInt8) : CountedStep a (.onRemoteMsg m) := by
  obtain hdec | ⟨u, hdec, hroom⟩ | ⟨u, hdec, hroom⟩ := message_cases a m
  · have hstep : a.onRemoteMsg m = (-1, a.countRecvErr) := onRemoteMsg_undecodable hdec
    constructor <;>
      simp [step, hstep, countRecvErr, acceptedCount, raisedCount, hdec, storedBy, offeredBy,
        triggerCount, refusedCount]
  · have hstep : a.onRemoteMsg m = (-1, a) := onRemoteMsg_full hdec hroom
    constructor <;>
      simp [step, hstep, acceptedCount, raisedCount, hdec, storedBy, offeredBy, triggerCount,
        refusedCount]
  have hv := decoded_validFor hdec (workingRecord_subscriberId (s := u.subscriberId) h)
  obtain ⟨happlied, hclasses, hevents, -, htriggers, hrefused⟩ :=
    countRemote_classes hv a.metrics
  have hspec := onRemoteMsg_spec h hdec hroom
  obtain ⟨t, -, hreply⟩ := onRemoteMsg_eq h hdec hroom
  have hafter : (a.onRemoteMsg m).2.workingRecord u.subscriberId =
      (applyRemoteUpdate (a.workingRecord u.subscriberId) u).record := by
    apply workingRecord_of_some
    rw [hspec.records, Function.update_self]
  have haccepted : a.acceptedCount (.onRemoteMsg m) = 1 := by
    simp [acceptedCount, hspec.rc]
  have hraised : a.raisedCount (.onRemoteMsg m) =
      if (a.workingRecord u.subscriberId).stamp <
        (applyRemoteUpdate (a.workingRecord u.subscriberId) u).record.stamp then 1 else 0 := by
    simp only [raisedCount, hdec, hafter]
  have hmetrics : (a.step (.onRemoteMsg m)).metrics = a.metrics.countRemote
      (applyRemoteUpdate (a.workingRecord u.subscriberId) u).out.reason :=
    congrArg (fun reply => reply.2.metrics) hreply
  constructor
  · rw [hmetrics, haccepted, happlied]
    rfl
  · rw [hmetrics, haccepted, hraised, hclasses]
    rfl
  · rw [hmetrics, hevents]
    simp [storedBy, offeredBy]
  · rw [hmetrics, htriggers]
    simp [triggerCount]
  · rw [hmetrics, hrefused]
    simp [refusedCount]

/-- A call that counts nothing and leaves the counters alone. -/
theorem CountedStep.of_metrics (hmetrics : (a.step call).metrics = a.metrics)
    (haccepted : a.acceptedCount call = 0) (hraised : a.raisedCount call = 0)
    (hoffered : a.offeredBy call = none) (htriggers : a.triggerCount call = 0)
    (hrefused : a.refusedCount call = 0) : CountedStep a call := by
  constructor <;>
    simp [hmetrics, haccepted, hraised, storedBy, hoffered, htriggers, hrefused]

theorem counted_step (h : a.Sound) (hb : BoxId a.cfg.localBoxId) (call : AdapterCall)
    (hpush : ∀ evt, call ≠ .pushEvent evt) : CountedStep a call := by
  cases call with
  | onPacket s now =>
      have hmetrics : (a.step (.onPacket s now)).metrics = _ := metrics_onPacket h hb s now
      constructor <;> simp [hmetrics, acceptedCount, raisedCount]
  | onRemoteMsg m => exact counted_remote h m
  | flushOutbound =>
      have hmetrics : a.flushOutbound.2.metrics = a.metrics := by rw [flushOutbound_eq]
      exact .of_metrics hmetrics rfl rfl rfl rfl rfl
  | onPeerDown p =>
      have hmetrics : (a.onPeerDown p).2.metrics = a.metrics := by
        rw [onPeerDown_eq]
        rfl
      exact .of_metrics hmetrics rfl rfl rfl rfl rfl
  | onAgingTick now => exact .of_metrics rfl rfl rfl rfl rfl rfl
  | pushEvent evt => exact absurd rfl (hpush evt)
  | popEvent =>
      have hmetrics : a.popEvent.2.metrics = a.metrics := by
        unfold OwnershipAdapter.popEvent
        split_ifs <;> rfl
      exact .of_metrics hmetrics rfl rfl rfl rfl rfl
  | getMetrics => exact .of_metrics rfl rfl rfl rfl rfl rfl

theorem decidedCount_offered (hpush : ∀ evt, call ≠ .pushEvent evt) :
    a.decidedCount call = (a.offeredBy call).toList.length := by
  cases call with
  | onPacket s now => exact decidedCount_eq a s now
  | pushEvent evt => exact absurd rfl (hpush evt)
  | onRemoteMsg m => rfl
  | flushOutbound => rfl
  | onPeerDown p => rfl
  | onAgingTick now => rfl
  | popEvent => rfl
  | getMetrics => rfl

/-! ### Runs -/

structure LedgerInv (cfg : OwnAdapterCfg) (h : Ledger) : Prop
    extends Grounded cfg h.adapter, Balanced h

theorem LedgerInv.start (cfg : OwnAdapterCfg) : LedgerInv cfg (Ledger.start cfg) where
  toGrounded := .create cfg
  applied := rfl
  classes := rfl
  events := by
    change 0 = UInt64.ofNat (0 + (OwnershipAdapter.create cfg).events.length)
    rw [create_events]
    rfl
  decided := rfl
  triggers := rfl
  refused := rfl

theorem LedgerInv.step {h : Ledger} (hb : BoxId cfg.localBoxId) (hi : LedgerInv cfg h)
    (call : AdapterCall) (hpush : ∀ evt, call ≠ .pushEvent evt) : LedgerInv cfg (h.step call) := by
  have hcount := counted_step hi.sound (hi.boxId hb) call hpush
  have happlied := hcount.applied
  have hevents := hcount.events
  constructor
  · exact hi.toGrounded.step call
  constructor
  · change (h.adapter.step call).metrics.ownApplyRemoteTotal = UInt64.ofNat (_ + _)
    rw [happlied, hi.applied, UInt64.ofNat_add]
  · have hclasses := hcount.classes
    have hbefore := hi.classes
    change (h.adapter.step call).metrics.ownApplyRemoteTotal =
      (h.adapter.step call).metrics.ownStaleDropTotal +
        (h.adapter.step call).metrics.ownDupDropTotal +
        (h.adapter.step call).metrics.ownConflictTotal + UInt64.ofNat (_ + _)
    rw [UInt64.ofNat_add]
    grind
  · have hqueue := congrArg List.length (step_events hi.sound call)
    rw [List.length_append, List.length_append] at hqueue
    change (h.adapter.step call).metrics.ownWorkerEventsTotal =
      UInt64.ofNat (h.popped + (h.adapter.poppedBy call).length +
        (h.adapter.step call).events.length)
    rw [hevents, hi.events, ← UInt64.ofNat_add]
    congr 1
    omega
  · have hstored := stored_or_dropped hi.sound call
    have hbefore := hi.decided
    rw [← decidedCount_offered hpush] at hstored
    change (h.adapter.step call).metrics.ownWorkerEventsTotal +
      (h.adapter.step call).metrics.ownWorkerRingDropTotal = UInt64.ofNat (_ + _)
    rw [hevents, UInt64.ofNat_add, ← hbefore]
    grind
  · change (h.adapter.step call).metrics.ownMigrationTriggerTotal = UInt64.ofNat (_ + _)
    rw [hcount.triggers, hi.triggers, UInt64.ofNat_add]
  · change (h.adapter.step call).metrics.ownZmqSendErrTotal = UInt64.ofNat (_ + _)
    rw [hcount.refused, hi.refused, UInt64.ofNat_add]

/-- Along a run without direct pushes the counters agree with the history of its calls. -/
theorem metrics_balanced (hb : BoxId cfg.localBoxId) (calls : List AdapterCall)
    (hpush : ∀ evt, AdapterCall.pushEvent evt ∉ calls) :
    Always Ledger.step Balanced (Ledger.start cfg) calls :=
  always_of_inv (P := fun _ call => ∀ evt, call ≠ .pushEvent evt)
    (fun _ hi => hi.toBalanced) (fun _ call hi hp => hi.step hb call hp) (LedgerInv.start cfg)
    (.of_mem fun _ _ hcall evt e => hpush evt (e ▸ hcall))

theorem metrics_balanced_claim :
    Always Ledger.step Balanced (Ledger.start ⟨.modeObserve, 0, 3⟩)
      [.onPacket 7 5, .onPacket 7 6, .popEvent, .onPeerDown 1] :=
  metrics_balanced (Or.inl rfl) _ (by simp)

end Subown
