import Subown.AdapterStep

/-! Observe mode against enforce mode: two adapters that differ in the mode, given the same
calls. The mode only decides about actions and events, which nothing reads back. -/
namespace Subown

open OwnershipAdapter RunRules

/-- `o` observes what `e` enforces: same configuration up to the mode, same table and same
outbound queue. -/
structure Shadow (o e : OwnershipAdapter) : Prop where
  observes : o.cfg = { e.cfg with mode := .modeObserve }
  enforces : e.cfg.mode = .modeEnforce
  replica : o.replica = e.replica

/-- The event a call pushes on the ring, if any. -/
def OwnershipAdapter.pushedBy (a : OwnershipAdapter) (call : AdapterCall) : List OwnRingEvent :=
  if (a.step call).qTail = a.qTail then [] else [(a.step call).q a.qTail]

/-- A call drops an event on a full ring. -/
def Overflows (a : OwnershipAdapter) (call : AdapterCall) : Prop :=
  (a.step call).metrics.ownWorkerRingDropTotal ≠ a.metrics.ownWorkerRingDropTotal

def enforcedEvents (evts : List OwnRingEvent) : List OwnRingEvent :=
  evts.filter fun evt => evt.eventType ≠ .evtMisroute

/-- What corresponding calls answer. -/
structure SameReply (o e : OwnershipAdapter) (call : AdapterCall) : Prop where
  code : call ≠ .popEvent → o.returnCode call = e.returnCode call
  packet : ∀ s now, call = .onPacket s now →
    (o.onPacket s now).out.reason = (e.onPacket s now).out.reason ∧
    (o.onPacket s now).out.peerOwner = (e.onPacket s now).out.peerOwner ∧
    ((o.onPacket s now).rc = 0 → (o.onPacket s now).out.action = .actProcessLocal)

/-- The calls that may be interleaved; pushing foreign events is not among them. -/
def ShadowCall (call : AdapterCall) : Prop := ∀ evt, call ≠ .pushEvent evt

variable {o e a a' a'' : OwnershipAdapter} {s now : UInt64} {call : AdapterCall}

/-! ### The event ring -/

structure SameRing (a' a : OwnershipAdapter) : Prop where
  q : a'.q = a.q
  qTail : a'.qTail = a.qTail
  drops : a'.metrics.ownWorkerRingDropTotal = a.metrics.ownWorkerRingDropTotal

/-- Between `a` and `a'` exactly `evts` was offered to the ring, at most one event; unless
it was dropped, it was pushed. -/
def Offers (a a' : OwnershipAdapter) (evts : List OwnRingEvent) : Prop :=
  a'.metrics.ownWorkerRingDropTotal = a.metrics.ownWorkerRingDropTotal →
    (if a'.qTail = a.qTail then [] else [a'.q a.qTail]) = evts

theorem SameRing.offers (h : SameRing a' a) : Offers a a' [] := fun _ => if_pos h.qTail

theorem SameRing.trans (h : SameRing a'' a') (h' : SameRing a' a) : SameRing a'' a :=
  ⟨h.q.trans h'.q, h.qTail.trans h'.qTail, h.drops.trans h'.drops⟩

theorem Offers.of_sameRing {evts : List OwnRingEvent} (h : Offers a' a'' evts)
    (hr : SameRing a' a) : Offers a a'' evts := by
  unfold Offers at h ⊢
  rw [← hr.qTail, ← hr.drops]
  exact h

theorem Offers.then_sameRing {evts : List OwnRingEvent} (h : Offers a a' evts)
    (hr : SameRing a'' a') : Offers a a'' evts := by
  unfold Offers at h ⊢
  rw [hr.q, hr.qTail, hr.drops]
  exact h

theorem pushEvent_offers (a : OwnershipAdapter) (evt : OwnRingEvent) :
    Offers a (a.pushEvent evt).2 [evt] := by
  intro hdrop
  unfold OwnershipAdapter.pushEvent at hdrop ⊢
  by_cases hfull : nextIdx a.qTail = a.qHead
  · dsimp only at hdrop
    rw [if_pos hfull] at hdrop
    have hne : ∀ x : UInt64, x + 1 ≠ x := by
      intro x
      grind
    exact absurd hdrop (hne _)
  · dsimp only
    rw [if_neg hfull]
    dsimp only
    rw [if_neg (CyclicIndex.next_ne (by decide) _), Function.update_self]

theorem countEvent_ring (pushed : Int × OwnershipAdapter) :
    SameRing (countEvent pushed) pushed.2 := by
  unfold countEvent
  split_ifs <;> exact ⟨rfl, rfl, rfl⟩

theorem countEvent_offers (a : OwnershipAdapter) (s now : UInt64) (t : OwnEventType) :
    Offers a (countEvent (Subown.pushEvent a s t now)) [⟨s, t, a.cfg.localBoxId, now⟩] :=
  (pushEvent_offers a _).then_sameRing (countEvent_ring _)

theorem popEvent_ring (a : OwnershipAdapter) : SameRing a.popEvent.2 a := by
  unfold OwnershipAdapter.popEvent
  split_ifs <;> exact ⟨rfl, rfl, rfl⟩

theorem onRemoteMsg_ring (a : OwnershipAdapter) (m : List UInt8) :
    SameRing (a.onRemoteMsg m).2 a := by
  have hlookup : ∀ s, SameRing (lookupSlot a s true).2 a := by
    intro s
    rw [lookupSlot_eq]
    cases LinearProbing.find a.keys s (homeSlot s) <;> exact ⟨rfl, rfl, rfl⟩
  unfold onRemoteMsg
  cases decodeUpdateV1 m with
  | none => exact ⟨rfl, rfl, rfl⟩
  | some u =>
      dsimp only
      have h := hlookup u.subscriberId
      generalize lookupSlot a u.subscriberId true = found at h ⊢
      obtain ⟨i, b⟩ := found
      cases i with
      | none => exact h
      | some i =>
          dsimp only
          split_ifs
          · exact ⟨h.q, h.qTail, h.drops⟩
          · refine ⟨h.q, h.qTail, Eq.trans ?_ h.drops⟩
            dsimp only [OwnAdapterMetrics.countRemote]
            split <;> rfl

/-! ### The core under the two modes -/

/-- Contexts of corresponding core calls: still in shadow, rings untouched. -/
structure ShadowContext (o e c c' : OwnershipAdapter) : Prop where
  shadow : Shadow c c'
  observer : SameRing c o
  enforcer : SameRing c' e

theorem Shadow.table (h : Shadow o e) : o.table = e.table := congrArg Replica.table h.replica

theorem Shadow.withTable (h : Shadow o e) (t : Fin ownRecordCap → OwnSlot) :
    Shadow (o.withTable t) (e.withTable t) where
  observes := h.observes
  enforces := h.enforces
  replica := congrArg (fun R : Replica => { R with table := t }) h.replica

theorem Shadow.writeRecord (h : Shadow o e) (i : Fin ownRecordCap) (r : SubownRecord) :
    Shadow (o.writeRecord i r) (e.writeRecord i r) := by
  have hw := h.withTable (Function.update o.table i { o.table i with record := r })
  refine ⟨h.observes, h.enforces, hw.replica.trans ?_⟩
  rw [h.table]
  rfl

theorem Shadow.of_frame (h : Shadow o e) {o' e' : OwnershipAdapter} (ho : o'.replica = o.replica)
    (ho' : o'.cfg = o.cfg) (he : e'.replica = e.replica) (he' : e'.cfg = e.cfg) : Shadow o' e' where
  observes := by rw [ho', he', h.observes]
  enforces := by rw [he', h.enforces]
  replica := by rw [ho, he, h.replica]

theorem Shadow.lookup (h : Shadow o e) (s : UInt64) :
    (lookupSlot o s true = (none, o) ∧ lookupSlot e s true = (none, e)) ∨
    ∃ i t, lookupSlot o s true = (some i, o.withTable t) ∧
      lookupSlot e s true = (some i, e.withTable t) := by
  rw [lookupSlot_eq, lookupSlot_eq, keys_congr h.table]
  cases LinearProbing.find e.keys s (homeSlot s) with
  | hit i =>
      refine Or.inr ⟨i, o.table, rfl, ?_⟩
      rw [h.table]
      rfl
  | free i =>
      refine Or.inr ⟨i, Function.update o.table i ⟨true, freshRecord s⟩, rfl, ?_⟩
      rw [h.table]
      rfl
  | full => exact Or.inl ⟨rfl, rfl⟩

theorem Shadow.emit (h : Shadow o e) (u : SubownUpdate) :
    (adapterEmitLocal u o).1 = (adapterEmitLocal u e).1 ∧
      ShadowContext o e (adapterEmitLocal u o).2 (adapterEmitLocal u e).2 := by
  have htail := congrArg Replica.outTail h.replica
  have hhead := congrArg Replica.outHead h.replica
  change o.outTail = e.outTail at htail
  change o.outHead = e.outHead at hhead
  have hstatus : o.emitStatus = e.emitStatus := by rw [emitStatus, emitStatus, htail, hhead]
  rw [adapterEmitLocal_eq, adapterEmitLocal_eq]
  refine ⟨hstatus, ?_⟩
  dsimp only
  rw [hstatus]
  split_ifs
  · refine ⟨⟨h.observes, h.enforces, ?_⟩, ⟨rfl, rfl, rfl⟩, ⟨rfl, rfl, rfl⟩⟩
    have hout := congrArg Replica.outbound h.replica
    have hlen := congrArg Replica.outboundLen h.replica
    change o.outbound = e.outbound at hout
    change o.outboundLen = e.outboundLen at hlen
    simp only [OwnershipAdapter.replica, enqueue, h.table, hout, hlen, hhead, htail]
  · exact ⟨⟨h.observes, h.enforces, h.replica⟩, ⟨rfl, rfl, rfl⟩, ⟨rfl, rfl, rfl⟩⟩

/-- The decisions `on_packet` has a case for. -/
def SwitchedOn (d : SubownDecision) : Prop :=
  d = .processLocal ∨ d = .forwardRemote ∨ d = .triggerMigration ∨ d = .emitLocalUpdate

/-- The fast path decides nothing else, so the default of the switch is never taken. -/
theorem processPacketEvent_decision {σ : Type*} {b : UInt8} (hb : BoxId b) (r : SubownRecord)
    (now threshold : UInt64) (emit : EmitUpdateFn σ) (ctx : σ) (out : SubownResult)
    (hok : (processPacketEvent r b now threshold (some emit) ctx out).status = .ok) :
    SwitchedOn (processPacketEvent r b now threshold (some emit) ctx out).out.decision := by
  rcases hb.owner_cases r.ownerBox with hlocal | hremote | hunowned | hother
  · rw [processPacketEvent_local hb hlocal]
    exact Or.inl rfl
  · rw [processPacketEvent_remote hb hremote]
    unfold misroute
    split_ifs
    · exact Or.inr (Or.inr (Or.inl rfl))
    · exact Or.inr (Or.inl rfl)
  · rw [processPacketEvent_unowned hb hunowned] at hok ⊢
    dsimp only at hok ⊢
    split_ifs at hok ⊢
    exact Or.inr (Or.inr (Or.inr rfl))
  · rw [processPacketEvent_other hb hother]
    exact Or.inr (Or.inl rfl)

/-- What two corresponding packet replies share. -/
structure ShadowReply (o e : OwnershipAdapter) (x y : PacketReply) : Prop where
  shadow : Shadow x.adapter y.adapter
  rc : x.rc = y.rc
  reason : x.out.reason = y.out.reason
  peerOwner : x.out.peerOwner = y.out.peerOwner
  action : x.rc = 0 → x.out.action = .actProcessLocal
  events : ∃ evts, Offers o x.adapter evts ∧ Offers e y.adapter (enforcedEvents evts)

theorem countMigration_ring (a : OwnershipAdapter) : SameRing a.countMigration a := ⟨rfl, rfl, rfl⟩

/-- The switch over a decision in the two modes. -/
theorem actOn_shadow {c c' : OwnershipAdapter} (h : ShadowContext o e c c') (s now : UInt64)
    (out : OwnResult) {d : SubownDecision} (hd : SwitchedOn d) :
    ShadowReply o e (c.actOn s now out d) (c'.actOn s now out d) := by
  obtain ⟨hr, hc, hrc, hreason, howner⟩ := actOn_frame c s now out d
  obtain ⟨hr', hc', hrc', hreason', howner'⟩ := actOn_frame c' s now out d
  have hbox : c.cfg.localBoxId = c'.cfg.localBoxId := by rw [h.shadow.observes]
  have hobserve : ¬ c.cfg.mode = .modeEnforce := by
    rw [h.shadow.observes]
    exact nofun
  have hpush : ∀ t, t ≠ .evtMisroute → ∃ evts,
      Offers o (countEvent (Subown.pushEvent c s t now)) evts ∧
        Offers e (countEvent (Subown.pushEvent c' s t now)) (enforcedEvents evts) := by
    intro t ht
    have hoffer := (countEvent_offers c' s now t).of_sameRing h.enforcer
    refine ⟨_, (countEvent_offers c s now t).of_sameRing h.observer, ?_⟩
    rw [hbox]
    simpa [enforcedEvents, ht] using hoffer
  have hnoted : ∀ t, ¬ (countEvent (Subown.pushEvent c s t now)).cfg.mode = .modeEnforce := by
    intro t
    rw [(countPush_frame c s now t).2]
    exact hobserve
  refine ⟨h.shadow.of_frame hr hc hr' hc', hrc.trans hrc'.symm, hreason.trans hreason'.symm,
    howner.trans howner'.symm, fun _ => ?_, ?_⟩
  · obtain rfl | rfl | rfl | rfl := hd
    · rfl
    · rw [actOn, if_neg hobserve]
    · have hmode :
          ¬ (countEvent (Subown.pushEvent c s .evtMigrationHint now)).countMigration.cfg.mode =
            .modeEnforce := hnoted _
      rw [actOn, if_neg hmode]
    · rw [actOn, if_neg (hnoted _)]
  · obtain rfl | rfl | rfl | rfl := hd
    · exact ⟨[], h.observer.offers, h.enforcer.offers⟩
    · refine ⟨[⟨s, .evtMisroute, c.cfg.localBoxId, now⟩], ?_, ?_⟩
      · rw [actOn, if_neg hobserve]
        exact (countEvent_offers c s now _).of_sameRing h.observer
      · rw [actOn, if_pos h.shadow.enforces]
        exact h.enforcer.offers
    · obtain ⟨evts, ho, he⟩ := hpush .evtMigrationHint nofun
      refine ⟨evts, ?_, ?_⟩
      · rw [actOn]
        apply ho.then_sameRing
        split_ifs <;> exact countMigration_ring _
      · rw [actOn]
        apply he.then_sameRing
        split_ifs <;> exact countMigration_ring _
    · obtain ⟨evts, ho, he⟩ := hpush .evtUnownedClaim nofun
      refine ⟨evts, ?_, ?_⟩
      · rw [actOn]
        split_ifs <;> exact ho
      · rw [actOn]
        split_ifs <;> exact he

/-! ### Calls -/

theorem writeRecord_ring (a : OwnershipAdapter) (i : Fin ownRecordCap) (r : SubownRecord) :
    SameRing (a.writeRecord i r) a := ⟨rfl, rfl, rfl⟩

theorem onPacket_shadow (h : Shadow o e) (hb : BoxId e.cfg.localBoxId) (s now : UInt64) :
    ShadowReply o e (o.onPacket s now) (e.onPacket s now) := by
  have hbo : o.cfg.localBoxId = e.cfg.localBoxId := by rw [h.observes]
  have hto : o.cfg.migrationThreshold = e.cfg.migrationThreshold := by rw [h.observes]
  have hmo : o.cfg.mode ≠ .modeDisabled := by
    rw [h.observes]
    exact nofun
  have hme : e.cfg.mode ≠ .modeDisabled := by
    rw [h.enforces]
    exact nofun
  obtain ⟨hlo, hle⟩ | ⟨i, t, hlo, hle⟩ := h.lookup s
  · have hro : ¬ o.Room s := not_not.mpr (congrArg Prod.fst hlo)
    have hre : ¬ e.Room s := not_not.mpr (congrArg Prod.fst hle)
    rw [onPacket_full hmo hro, onPacket_full hme hre]
    exact ⟨h, rfl, rfl, rfl, nofun, [], fun _ => if_pos rfl, fun _ => if_pos rfl⟩
  · rw [onPacket_of_lookup hmo hlo rfl, onPacket_of_lookup hme hle rfl, withTable_cfg,
      withTable_cfg, withTable_table, withTable_table, hbo, hto]
    have hsame := processPacketEvent_congr (R := ShadowContext (o.withTable t) (e.withTable t))
      ⟨h.withTable t, ⟨rfl, rfl, rfl⟩, ⟨rfl, rfl, rfl⟩⟩ (h.withTable t).emit (t i).record
      e.cfg.localBoxId now e.cfg.migrationThreshold unsetResult
    have hdecision := processPacketEvent_decision hb (t i).record now e.cfg.migrationThreshold
      adapterEmitLocal (o.withTable t) unsetResult
    generalize processPacketEvent (t i).record e.cfg.localBoxId now e.cfg.migrationThreshold
      (some adapterEmitLocal) (o.withTable t) unsetResult = x at hsame hdecision ⊢
    generalize processPacketEvent (t i).record e.cfg.localBoxId now e.cfg.migrationThreshold
      (some adapterEmitLocal) (e.withTable t) unsetResult = y at hsame ⊢
    obtain ⟨hstatus, hrecord, ⟨hshadow, hro, hre⟩, hout⟩ := hsame
    have hcontext : ShadowContext o e (x.userCtx.writeRecord i x.record)
        (y.userCtx.writeRecord i x.record) :=
      ⟨hshadow.writeRecord i x.record, (writeRecord_ring _ _ _).trans (hro.trans ⟨rfl, rfl, rfl⟩),
        (writeRecord_ring _ _ _).trans (hre.trans ⟨rfl, rfl, rfl⟩)⟩
    unfold packetReply
    rw [← hstatus, ← hrecord, ← hout]
    by_cases hok : x.status = .ok
    · rw [if_neg (not_not.mpr hok), if_neg (not_not.mpr hok)]
      exact actOn_shadow hcontext s now _ (hdecision hok)
    · rw [if_pos hok, if_pos hok]
      exact ⟨hcontext.shadow, rfl, rfl, rfl, nofun, [], hcontext.observer.offers,
        hcontext.enforcer.offers⟩

theorem onRemoteMsg_shadow (h : Shadow o e) (m : List UInt8) :
    Shadow (o.onRemoteMsg m).2 (e.onRemoteMsg m).2 ∧ (o.onRemoteMsg m).1 = (e.onRemoteMsg m).1 := by
  unfold onRemoteMsg
  cases decodeUpdateV1 m with
  | none => exact ⟨⟨h.observes, h.enforces, h.replica⟩, rfl⟩
  | some u =>
      dsimp only
      obtain ⟨hlo, hle⟩ | ⟨i, t, hlo, hle⟩ := h.lookup u.subscriberId
      · rw [hlo, hle]
        exact ⟨h, rfl⟩
      · rw [hlo, hle]
        have hw := (h.withTable t).writeRecord i (applyRemoteUpdate (t i).record u).record
        dsimp only
        rw [withTable_table, withTable_table]
        split_ifs
        · exact ⟨⟨hw.observes, hw.enforces, hw.replica⟩, rfl⟩
        · exact ⟨⟨hw.observes, hw.enforces, hw.replica⟩, rfl⟩

theorem flushOutbound_shadow (h : Shadow o e) :
    Shadow o.flushOutbound.2 e.flushOutbound.2 ∧ o.flushOutbound.1 = e.flushOutbound.1 := by
  have htail : o.outTail = e.outTail := congrArg Replica.outTail h.replica
  have hhead : o.outHead = e.outHead := congrArg Replica.outHead h.replica
  refine ⟨?_, ?_⟩
  · rw [flushOutbound_eq, flushOutbound_eq]
    refine ⟨h.observes, h.enforces, ?_⟩
    have hr := congrArg (fun R : Replica => { R with outHead := R.outTail }) h.replica
    exact hr
  · unfold flushOutbound
    rw [flushFrom_eq, flushFrom_eq, htail, hhead]

/-- What one call does to both adapters. -/
structure ShadowStep (o e : OwnershipAdapter) (call : AdapterCall) : Prop where
  shadow : Shadow (o.step call) (e.step call)
  reply : SameReply o e call
  events : ¬ Overflows o call → ¬ Overflows e call →
    e.pushedBy call = enforcedEvents (o.pushedBy call)

theorem events_of_offers {evts : List OwnRingEvent} (ho : Offers o (o.step call) evts)
    (he : Offers e (e.step call) (enforcedEvents evts)) (hdo : ¬ Overflows o call)
    (hde : ¬ Overflows e call) : e.pushedBy call = enforcedEvents (o.pushedBy call) := by
  have hpo : o.pushedBy call = evts := ho (not_not.mp hdo)
  have hpe : e.pushedBy call = enforcedEvents evts := he (not_not.mp hde)
  rw [hpo, hpe]

theorem ShadowStep.of_silent (h : Shadow (o.step call) (e.step call))
    (hcode : call ≠ .popEvent → o.returnCode call = e.returnCode call)
    (hpacket : ∀ s now, call ≠ .onPacket s now) (ho : SameRing (o.step call) o)
    (he : SameRing (e.step call) e) : ShadowStep o e call where
  shadow := h
  reply := ⟨hcode, fun s now hc => absurd hc (hpacket s now)⟩
  events := events_of_offers ho.offers he.offers

theorem step_shadow (h : Shadow o e) (hb : BoxId e.cfg.localBoxId) (call : AdapterCall)
    (hcall : ShadowCall call) : ShadowStep o e call := by
  cases call with
  | onPacket s now =>
      have hr := onPacket_shadow h hb s now
      obtain ⟨evts, ho, he⟩ := hr.events
      refine ⟨hr.shadow, ⟨fun _ => hr.rc, ?_⟩, events_of_offers ho he⟩
      intro s' now' hc
      cases hc
      exact ⟨hr.reason, hr.peerOwner, hr.action⟩
  | onRemoteMsg m =>
      obtain ⟨hs, hc⟩ := onRemoteMsg_shadow h m
      exact .of_silent hs (fun _ => hc) nofun (onRemoteMsg_ring o m) (onRemoteMsg_ring e m)
  | flushOutbound =>
      obtain ⟨hs, hc⟩ := flushOutbound_shadow h
      have hring : ∀ a : OwnershipAdapter, SameRing a.flushOutbound.2 a := by
        intro a
        rw [flushOutbound_eq]
        exact ⟨rfl, rfl, rfl⟩
      exact .of_silent hs (fun _ => hc) nofun (hring o) (hring e)
  | onPeerDown p =>
      have hring : ∀ a : OwnershipAdapter, SameRing (a.onPeerDown p).2 a := by
        intro a
        rw [onPeerDown_eq]
        exact ⟨rfl, rfl, rfl⟩
      have hs : Shadow (o.onPeerDown p).2 (e.onPeerDown p).2 := by
        rw [onPeerDown_eq, onPeerDown_eq, h.table]
        exact h.withTable _
      refine .of_silent hs (fun _ => ?_) nofun (hring o) (hring e)
      change (o.onPeerDown p).1 = (e.onPeerDown p).1
      rw [onPeerDown_eq, onPeerDown_eq]
  | onAgingTick now => exact .of_silent h (fun _ => rfl) nofun ⟨rfl, rfl, rfl⟩ ⟨rfl, rfl, rfl⟩
  | pushEvent evt => exact absurd rfl (hcall evt)
  | popEvent =>
      obtain ⟨ho, ho'⟩ := popEvent_frame o
      obtain ⟨he, he'⟩ := popEvent_frame e
      exact .of_silent (h.of_frame ho ho' he he') (fun hc => absurd rfl hc) nofun
        (popEvent_ring o) (popEvent_ring e)
  | getMetrics => exact .of_silent h (fun _ => rfl) nofun ⟨rfl, rfl, rfl⟩ ⟨rfl, rfl, rfl⟩

/-! ### Runs -/

/-- The two adapters side by side, given the same call. -/
def bothStep (pair : OwnershipAdapter × OwnershipAdapter) (call : AdapterCall) :
    OwnershipAdapter × OwnershipAdapter := (pair.1.step call, pair.2.step call)

structure ShadowInv (b : UInt8) (pair : OwnershipAdapter × OwnershipAdapter) : Prop where
  shadow : Shadow pair.1 pair.2
  sound : pair.2.Sound
  box : pair.2.cfg.localBoxId = b

variable {b : UInt8}

theorem ShadowInv.start (b : UInt8) (threshold : UInt64) :
    ShadowInv b (create ⟨.modeObserve, b, threshold⟩, create ⟨.modeEnforce, b, threshold⟩) where
  shadow := ⟨rfl, rfl, rfl⟩
  sound := create_sound _
  box := rfl

theorem ShadowInv.step (hb : BoxId b) {pair : OwnershipAdapter × OwnershipAdapter}
    (hi : ShadowInv b pair) (hcall : ShadowCall call) :
    ShadowStep pair.1 pair.2 call ∧ ShadowInv b (bothStep pair call) := by
  have hbe : BoxId pair.2.cfg.localBoxId := by rwa [hi.box]
  have hstep := step_shadow hi.shadow hbe call hcall
  refine ⟨hstep, hstep.shadow, (step_spec hi.sound call).sound, ?_⟩
  exact (congrArg OwnAdapterCfg.localBoxId (step_cfg hi.sound call)).trans hi.box

/-- The events of a run that overflows neither ring. -/
theorem events_of_steps {o e : OwnershipAdapter} {calls : List AdapterCall}
    (h : Each bothStep (fun pair call => ShadowStep pair.1 pair.2 call) (o, e) calls)
    (ho : Each OwnershipAdapter.step (fun a call => ¬ Overflows a call) o calls)
    (he : Each OwnershipAdapter.step (fun a call => ¬ Overflows a call) e calls) :
    observed OwnershipAdapter.step pushedBy e calls =
      enforcedEvents (observed OwnershipAdapter.step pushedBy o calls) := by
  induction calls generalizing o e with
  | nil => rfl
  | cons call calls ih =>
      rw [observed, observed, ih h.2 ho.2 he.2, h.1.events ho.1 he.1]
      exact (List.filter_append ..).symm

/-- Observe mode shadows enforce mode: along every common run the tables and the outbound
queues stay the same, corresponding calls answer alike, the observer always processes
locally, and until a ring overflows the enforcer's events are the observer's without the
misroutes. -/
theorem observe_shadows_enforce (hb : BoxId b) (threshold : UInt64) (calls : List AdapterCall)
    (hcalls : ∀ call ∈ calls, ShadowCall call) :
    let o := create ⟨.modeObserve, b, threshold⟩
    let e := create ⟨.modeEnforce, b, threshold⟩
    Always bothStep (fun pair => pair.1.replica = pair.2.replica) (o, e) calls ∧
    Each bothStep (fun pair call => SameReply pair.1 pair.2 call) (o, e) calls ∧
    (Each OwnershipAdapter.step (fun a call => ¬ Overflows a call) o calls →
      Each OwnershipAdapter.step (fun a call => ¬ Overflows a call) e calls →
      observed OwnershipAdapter.step pushedBy e calls =
        enforcedEvents (observed OwnershipAdapter.step pushedBy o calls)) := by
  intro o e
  have hallowed : Each bothStep (fun _ call => ShadowCall call) (o, e) calls := by
    apply each_iff_split.mpr
    rintro pre call post rfl
    exact hcalls call (by simp)
  have hstart := ShadowInv.start b threshold
  have hsteps : Each bothStep (fun pair call => ShadowStep pair.1 pair.2 call) (o, e) calls :=
    (each_iff_each (P := fun _ _ => True) (fun _ _ hi hc _ => hi.step hb hc)
      (fun _ _ _ _ hfalse => absurd trivial hfalse) hstart hallowed).mpr
      (.of_forall fun _ _ => trivial)
  refine ⟨?_, hsteps.imp fun _ _ hs => hs.reply, events_of_steps hsteps⟩
  exact always_of_inv (fun _ hi => hi.shadow.replica) (fun _ _ hi hc => (hi.step hb hc).2) hstart
    hallowed

/-- A misrouted packet, then a claim of another subscriber. -/
theorem observe_shadows_enforce_misroute :
    let calls : List AdapterCall :=
      [.onRemoteMsg (frameBytes (mkUpdate 7 1 1 5 1)), .onPacket 7 6, .onPacket 8 7, .popEvent]
    Always bothStep (fun pair => pair.1.replica = pair.2.replica)
      (create ⟨.modeObserve, 0, 3⟩, create ⟨.modeEnforce, 0, 3⟩) calls :=
  (observe_shadows_enforce (Or.inl rfl) 3 _ (by
    intro call hcall evt e
    subst e
    simp at hcall)).1

end Subown
