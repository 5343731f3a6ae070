import Subown.AdapterSpec
import Subown.OutboundQueue

/-! The adapter answers every call as its specification does, over every run. -/
namespace Subown

open OwnershipAdapter RunRules RingBuffer

/-- The adapter stands for a state of the specification. -/
structure StandsFor (a : OwnershipAdapter) (x : AdapterSpec) : Prop where
  sound : a.Sound
  config : a.cfg = x.cfg
  records : a.recordOf = x.registry.records
  outbox : a.pending = x.outbox.items.map fun f => (f, 40)
  events : a.events = x.events.items
  metrics : a.metrics = x.metrics

variable {a c : OwnershipAdapter} {x y : AdapterSpec} {s now : UInt64}

namespace StandsFor

theorem create (cfg : OwnAdapterCfg) :
    StandsFor (OwnershipAdapter.create cfg) (AdapterSpec.create cfg) where
  sound := create_sound cfg
  config := rfl
  records := funext (create_recordOf cfg)
  outbox := contents_eq_nil.mpr rfl
  events := create_events cfg
  metrics := rfl

theorem room (h : StandsFor a x) : a.Room s ↔ x.registry.Room s := by
  refine room_iff_held h.sound fun t => ?_
  rw [h.records]
  exact x.registry.domain t

theorem working (h : StandsFor a x) : a.workingRecord s = x.registry.working s := by
  rw [workingRecord, h.records]
  rfl

theorem outboxFull (h : StandsFor a x) : x.outbox.Full ↔ a.emitStatus ≠ .ok := by
  rw [emitStatus_full, h.outbox, List.length_map]
  exact Iff.rfl

theorem emitStatus (h : StandsFor a x) :
    a.emitStatus = if x.outbox.Full then .errCallbackFailed else .ok := by
  split_ifs with hfull
  · have hne := h.outboxFull.mp hfull
    unfold OwnershipAdapter.emitStatus at hne ⊢
    split_ifs at hne ⊢
    · rfl
    · exact absurd rfl hne
  · exact not_not.mp (mt h.outboxFull.mpr hfull)

theorem eventsFull (h : StandsFor a x) : x.events.Full ↔ a.events.length = 2047 := by
  rw [h.events]
  exact Iff.rfl

/-- A change of the counters. -/
theorem count (h : StandsFor a x) {m : OwnAdapterMetrics} (hreplica : c.replica = a.replica)
    (hcfg : c.cfg = a.cfg) (hevents : c.events = a.events) (hm : c.metrics = m) :
    StandsFor c (x.withMetrics m) where
  sound := sound_congr (congrArg Replica.table hreplica) h.sound
  config := hcfg.trans h.config
  records := (recordOf_congr (congrArg Replica.table hreplica)).trans h.records
  outbox := (pending_congr (t := a.table) hreplica).trans h.outbox
  events := hevents.trans h.events
  metrics := hm

theorem enqueue (h : StandsFor a x) (hfree : ¬ x.outbox.Full) (u : SubownUpdate) :
    StandsFor (a.enqueue u) { x with outbox := x.outbox.push hfree (frameBytes u) } where
  sound := sound_congr (a := a) rfl h.sound
  config := h.config
  records := by
    have hrecords : (a.enqueue u).recordOf = a.recordOf := recordOf_congr rfl
    rw [hrecords]
    exact h.records
  outbox := by
    change _ = (x.outbox.items ++ [frameBytes u]).map _
    rw [pending_enqueue (not_not.mp (mt h.outboxFull.mpr hfree)), h.outbox, List.map_append]
    rfl
  events := by
    rw [events_congr (a := a) (c := a.enqueue u) rfl]
    exact h.events
  metrics := h.metrics

theorem push (h : StandsFor a x) (hfree : ¬ x.events.Full) (evt : OwnRingEvent) :
    StandsFor (a.pushEvent evt).2 { x with events := x.events.push hfree evt } := by
  have hroom := mt h.eventsFull.mpr hfree
  obtain ⟨hreplica, hcfg⟩ := pushEvent_frame a evt
  have htable := congrArg Replica.table hreplica
  refine ⟨sound_congr htable h.sound, hcfg.trans h.config,
    (recordOf_congr htable).trans h.records, (pending_congr (t := a.table) hreplica).trans h.outbox,
    ?_, ?_⟩
  · simp [events_pushEvent, pushEvent_rc.mpr hroom, h.events, Fifo.push]
  · rw [pushEvent_room hroom]
    exact h.metrics

theorem write (h : StandsFor a x) (hroom : x.registry.Room s) {r : SubownRecord}
    {t : Fin ownRecordCap → OwnSlot} (hsound : (a.withTable t).Sound)
    (hmap : (a.withTable t).recordOf = Function.update a.recordOf s (some r)) :
    StandsFor (a.withTable t) { x with registry := x.registry.put s hroom r } := by
  refine ⟨hsound, h.config, ?_, ?_, ?_, h.metrics⟩
  · rw [hmap, h.records]
    rfl
  · rw [pending_congr (a := a) (c := a.withTable t) (t := t) rfl]
    exact h.outbox
  · rw [events_congr (a := a) (c := a.withTable t) rfl]
    exact h.events

/-- The record is written and the emitter leaves its mark. -/
theorem emit (h : StandsFor a x) (hroom : x.registry.Room s)
    {outcome : ClaimOutcome (Option SubownUpdate)}
    (hkept : ∀ u, outcome.userCtx = some u → a.emitStatus = .ok)
    {t : Fin ownRecordCap → OwnSlot} (hsound : (a.withTable t).Sound)
    (hmap : (a.withTable t).recordOf = Function.update a.recordOf s (some outcome.record)) :
    StandsFor ((a.afterEmit outcome).withTable t)
      ({ x with registry := x.registry.put s hroom outcome.record }.emit outcome) := by
  have hwritten := h.write hroom hsound hmap
  unfold OwnershipAdapter.afterEmit AdapterSpec.emit
  by_cases hstatus : outcome.status = .errCallbackFailed
  · rw [if_pos hstatus, if_pos hstatus]
    refine hwritten.count rfl rfl (events_congr rfl) ?_
    dsimp only [withTable, countSendErr]
    rw [h.metrics]
  rw [if_neg hstatus, if_neg hstatus]
  cases hu : outcome.userCtx with
  | none => exact hwritten
  | some u =>
      have hfree : ¬ x.outbox.Full := fun hfull => h.outboxFull.mp hfull (hkept u hu)
      dsimp only
      rw [dif_neg hfree]
      exact hwritten.enqueue hfree u

/-- An event goes into the ring. -/
theorem note (h : StandsFor a x) (offered : Option OwnRingEvent) :
    StandsFor (a.note offered) (x.note offered) := by
  cases offered with
  | none => exact h
  | some evt =>
      unfold AdapterSpec.note
      dsimp only
      by_cases hfull : x.events.Full
      · have hnote : a.note (some evt) = a.countRingDrop := by
          rw [OwnershipAdapter.note, pushEvent_full (h.eventsFull.mp hfull)]
          rfl
        rw [dif_pos hfull, hnote]
        refine h.count rfl rfl rfl ?_
        rw [← h.metrics]
        rfl
      · have hpush := h.push hfull evt
        have hnote : a.note (some evt) = countEvent (a.pushEvent evt) := rfl
        rw [dif_neg hfull, hnote, countEvent, if_pos (pushEvent_rc.mpr (mt h.eventsFull.mpr hfull))]
        refine hpush.count rfl rfl rfl ?_
        rw [hpush.metrics]

theorem countMigration (h : StandsFor a x) :
    StandsFor a.countMigration (x.withMetrics
      { x.metrics with ownMigrationTriggerTotal := x.metrics.ownMigrationTriggerTotal + 1 }) := by
  refine h.count rfl rfl (events_congr rfl) ?_
  rw [← h.metrics]
  rfl

theorem decided (h : StandsFor a x) (s now : UInt64) (out : OwnResult) (d : SubownDecision) :
    StandsFor (a.actOn s now out d).adapter (x.decided s now d) := by
  rw [actOn_adapter, h.config]
  unfold AdapterSpec.decided
  dsimp only
  split_ifs
  · exact (h.note _).countMigration
  · exact h.note _

theorem actOn_out (c : OwnershipAdapter) (s now : UInt64) (out : OwnResult)
    (d : SubownDecision) :
    (c.actOn s now out d).out = { out with action := packetAction c.cfg.mode d } := by
  have hcfg := fun e => (countPush_frame c s now e).2
  cases d with
  | forwardRemote =>
      unfold actOn packetAction
      dsimp only
      split_ifs <;> rfl
  | triggerMigration =>
      unfold actOn packetAction OwnershipAdapter.countMigration
      dsimp only
      rw [hcfg]
      split_ifs <;> rfl
  | emitLocalUpdate =>
      unfold actOn packetAction
      dsimp only
      rw [hcfg]
      split_ifs <;> rfl
  | processLocal => rfl
  | applyRemote => rfl
  | keepLocal => rfl
  | noop => rfl

end StandsFor

/-! ### Calls -/

/-- What the core hands to an emitter that refuses is not kept. -/
theorem corePacket_kept {cfg : OwnAdapterCfg} {r : SubownRecord} {emitted : SubownStatus}
    {u : SubownUpdate} (hu : (corePacket cfg r now emitted).userCtx = some u) : emitted = .ok := by
  by_cases hb : BoxId cfg.localBoxId
  swap
  · rw [corePacket_rejected hb] at hu
    cases hu
  obtain ⟨_, e⟩ | ⟨_, e⟩ | ⟨_, hok, _⟩ | ⟨_, _, e⟩ | ⟨_, e⟩ := corePacket_cases hb r now emitted
  · rw [e] at hu
    cases hu
  · rw [e] at hu
    cases hu
  · exact hok
  · rw [e] at hu
    cases hu
  · rw [e] at hu
    cases hu

/-- The implementation's answer to a call corresponds to the specification's. -/
structure Answers (a : OwnershipAdapter) (call : AdapterCall)
    (answer : AdapterReply × AdapterSpec) : Prop where
  reply : a.reply call = answer.1
  state : StandsFor (a.step call) answer.2

theorem Answers.of_packet {reply : PacketReply} (hreply : a.onPacket s now = reply)
    (h : StandsFor reply.adapter y) :
    Answers a (.onPacket s now) (.packet reply.rc reply.out, y) where
  reply := by
    rw [← hreply]
    rfl
  state := by
    rw [← hreply] at h
    exact h

theorem onPacket_answers (h : StandsFor a x) (s now : UInt64) :
    Answers a (.onPacket s now) (x.onPacket s now) := by
  unfold AdapterSpec.onPacket
  by_cases hmode : x.cfg.mode = .modeDisabled
  · have hdisabled : a.cfg.mode = .modeDisabled := h.config ▸ hmode
    have hreply := onPacket_idle_eq (s := s) (Or.inl hdisabled) now
    rw [if_pos hdisabled] at hreply
    rw [if_pos hmode]
    exact .of_packet hreply h
  have henabled : a.cfg.mode ≠ .modeDisabled := h.config ▸ hmode
  rw [if_neg hmode]
  by_cases hroom : x.registry.Room s
  swap
  · rw [dif_neg hroom]
    exact .of_packet (onPacket_full henabled (mt h.room.mp hroom) now) h
  rw [dif_pos hroom]
  obtain ⟨t, ⟨hsound, -, hmap⟩, hreply⟩ := onPacket_eq h.sound henabled (h.room.mpr hroom) now
  have hkept := fun u => @corePacket_kept now a.cfg (a.workingRecord s) a.emitStatus u
  have hemit := h.emit hroom hkept hsound hmap
  rw [h.config, h.working, h.emitStatus] at hreply hemit
  dsimp only at hreply ⊢
  generalize corePacket x.cfg (x.registry.working s) now _ = outcome at *
  unfold outcomeReply at hreply
  by_cases hok : outcome.status = .ok
  · rw [if_neg (not_not.mpr hok)] at hreply ⊢
    have hcfg := (afterEmit_frame a outcome t).2.trans h.config
    have hrc := (actOn_frame ((a.afterEmit outcome).withTable t) s now
      ⟨.actNoop, outcome.record.ownerBox, outcome.out.reason.code⟩ outcome.out.decision).2.2.1
    have hanswer := Answers.of_packet hreply (hemit.decided s now _ _)
    rw [hrc, StandsFor.actOn_out, hcfg] at hanswer
    exact hanswer
  · rw [if_pos hok] at hreply ⊢
    exact .of_packet hreply hemit

theorem Answers.of_remote {m : List UInt8} {reply : Int × OwnershipAdapter}
    (hreply : a.onRemoteMsg m = reply) (h : StandsFor reply.2 y) :
    Answers a (.onRemoteMsg m) (.code reply.1, y) where
  reply := by
    rw [← hreply]
    rfl
  state := by
    rw [← hreply] at h
    exact h

theorem onRemoteMsg_answers (h : StandsFor a x) (m : List UInt8) :
    Answers a (.onRemoteMsg m) (x.onRemoteMsg m) := by
  unfold AdapterSpec.onRemoteMsg
  obtain hdec | ⟨u, hdec, hroom⟩ | ⟨u, hdec, hroom⟩ := message_cases a m
  · rw [hdec]
    refine .of_remote (onRemoteMsg_undecodable hdec) (h.count rfl rfl (events_congr rfl) ?_)
    rw [← h.metrics]
    rfl
  · rw [hdec]
    dsimp only
    rw [dif_neg (mt h.room.mpr hroom)]
    exact .of_remote (onRemoteMsg_full hdec hroom) h
  · obtain ⟨t, ⟨hsound, -, hmap⟩, hreply⟩ := onRemoteMsg_eq h.sound hdec hroom
    rw [hdec]
    dsimp only
    rw [dif_pos (h.room.mp hroom)]
    refine .of_remote hreply ((h.write (h.room.mp hroom) hsound ?_).count rfl rfl ?_ ?_)
    · rw [hmap, h.working]
    · rfl
    · rw [h.working, h.metrics]

theorem flushOutbound_answers (h : StandsFor a x) :
    Answers a .flushOutbound (.code x.outbox.items.length, { x with outbox := .empty }) := by
  have hstate : a.step .flushOutbound = { a with outHead := a.outTail } := flushOutbound_eq a
  refine ⟨?_, ?_⟩
  · change AdapterReply.code a.flushOutbound.1 = _
    rw [flushOutbound_rc, h.outbox, List.length_map]
  · rw [hstate]
    have hrecords : ({ a with outHead := a.outTail } : OwnershipAdapter).recordOf = a.recordOf :=
      recordOf_congr rfl
    exact ⟨sound_congr (a := a) rfl h.sound, h.config, hrecords.trans h.records, contents_self,
      h.events, h.metrics⟩

theorem onPeerDown_answers (h : StandsFor a x) (p : UInt8) :
    Answers a (.onPeerDown p) (.code 0, { x with registry := x.registry.release p }) := by
  obtain ⟨hsound, -, hmap⟩ := onPeerDown_map h.sound p
  have hreply := onPeerDown_eq a p
  refine ⟨?_, hsound, ?_, ?_, ?_, ?_, ?_⟩
  · change AdapterReply.code (a.onPeerDown p).1 = _
    rw [hreply]
  · change (a.onPeerDown p).2.cfg = _
    rw [hreply]
    exact h.config
  · funext s
    change (a.onPeerDown p).2.recordOf s = (x.registry.records s).map (peerDownRecord p)
    rw [hmap, h.records]
  · change (a.onPeerDown p).2.pending = _
    rw [hreply]
    exact h.outbox
  · change (a.onPeerDown p).2.events = _
    rw [hreply]
    exact h.events
  · change (a.onPeerDown p).2.metrics = _
    rw [hreply]
    exact h.metrics

theorem pushEvent_answers (h : StandsFor a x) (evt : OwnRingEvent) :
    Answers a (.pushEvent evt) (x.pushEvent evt) := by
  unfold AdapterSpec.pushEvent
  by_cases hfull : x.events.Full
  · have hpushed := pushEvent_full (h.eventsFull.mp hfull) evt
    rw [dif_pos hfull]
    refine ⟨?_, ?_⟩
    · change AdapterReply.code (a.pushEvent evt).1 = _
      rw [hpushed]
    · change StandsFor (a.pushEvent evt).2 _
      rw [hpushed]
      refine h.count rfl rfl rfl ?_
      rw [← h.metrics]
      rfl
  · rw [dif_neg hfull]
    exact ⟨congrArg AdapterReply.code (pushEvent_rc.mpr (mt h.eventsFull.mpr hfull)),
      h.push hfull evt⟩

theorem popEvent_answers (h : StandsFor a x) :
    Answers a .popEvent (.event x.events.items.head?, { x with events := x.events.pop }) := by
  have hpopped : a.popEvent.1 = x.events.items.head? ∧
      a.popEvent.2.events = x.events.items.tail := by
    have hqueue := events_popEvent a
    rw [h.events] at hqueue
    cases hpop : a.popEvent.1 with
    | none =>
        have hempty := h.events.symm.trans (popEvent_none.mp hpop)
        rw [popEvent_idle hpop, h.events, hempty]
        exact ⟨rfl, rfl⟩
    | some evt =>
        rw [hpop] at hqueue
        rw [← hqueue]
        exact ⟨rfl, rfl⟩
  obtain ⟨hreplica, hcfg⟩ := popEvent_frame a
  have htable := congrArg Replica.table hreplica
  have hmetrics : a.popEvent.2.metrics = a.metrics := by
    unfold OwnershipAdapter.popEvent
    split_ifs <;> rfl
  exact ⟨congrArg AdapterReply.event hpopped.1, sound_congr htable h.sound, hcfg.trans h.config,
    (recordOf_congr htable).trans h.records, (pending_congr (t := a.table) hreplica).trans h.outbox,
    hpopped.2, hmetrics.trans h.metrics⟩

/-- One call: the same reply, and the states still correspond. -/
theorem answers (h : StandsFor a x) (call : AdapterCall) : Answers a call (x.respond call) := by
  cases call with
  | onPacket s now => exact onPacket_answers h s now
  | onRemoteMsg m => exact onRemoteMsg_answers h m
  | flushOutbound => exact flushOutbound_answers h
  | onPeerDown p => exact onPeerDown_answers h p
  | onAgingTick now => exact ⟨rfl, h⟩
  | pushEvent evt => exact pushEvent_answers h evt
  | popEvent => exact popEvent_answers h
  | getMetrics => exact ⟨congrArg _ h.metrics, h⟩

/-- Over every run, whatever the configuration and the arguments, the adapter gives every caller
the reply the specification gives. -/
theorem adapter_meets_spec (cfg : OwnAdapterCfg) (calls : List AdapterCall) :
    observed OwnershipAdapter.step (fun a call => [a.reply call]) (OwnershipAdapter.create cfg)
        calls =
      observed AdapterSpec.step (fun x call => [x.reply call]) (AdapterSpec.create cfg) calls := by
  refine observed_congr (fun a x call h => ?_) (StandsFor.create cfg) calls
  have hanswer := answers h call
  exact ⟨congrArg (fun reply => [reply]) hanswer.reply, hanswer.state⟩

/-- A packet claims its subscriber; the event and the frame of the claim wait to be fetched. -/
example : observed AdapterSpec.step (fun x call => [x.reply call])
    (AdapterSpec.create ⟨.modeEnforce, 0, 3⟩) [.onPacket 7 5, .popEvent, .flushOutbound] =
      [.packet 0 ⟨.actClaimEmitted, 0, 13⟩, .event (some ⟨7, .evtUnownedClaim, 0, 5⟩),
        .code 1] := by decide

end Subown
