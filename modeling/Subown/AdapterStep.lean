import Subown.AdapterEffects

/-! One step of an adapter: every call has exactly its effect on the record map, and queues
exactly the claim the core emitted. -/
namespace Subown

open OwnershipAdapter

variable {a a' : OwnershipAdapter} {s s' : UInt64} {r : SubownRecord}

theorem effect_onPacket (hmode : a.cfg.mode ≠ .modeDisabled) (hroom : a.Room s) (now : UInt64) :
    a.effect (.onPacket s now) = .core s (.packet now a.emitStatus) := by
  rw [effect, if_neg (not_or.mpr ⟨hmode, not_not.mpr hroom⟩)]

theorem effect_idle (h : a.cfg.mode = .modeDisabled ∨ ¬ a.Room s) (now : UInt64) :
    a.effect (.onPacket s now) = .quiet := by
  rw [effect, if_pos h]

theorem effect_undecodable {m : List UInt8} (hdec : decodeUpdateV1 m = none) :
    a.effect (.onRemoteMsg m) = .quiet := by
  simp only [effect, hdec]

theorem effect_decoded {m : List UInt8} {u : SubownUpdate} (hdec : decodeUpdateV1 m = some u) :
    a.effect (.onRemoteMsg m) =
      if a.Room u.subscriberId then .core u.subscriberId (.remote u) else .quiet := by
  simp only [effect, hdec]

theorem effect_full {m : List UInt8} {u : SubownUpdate} (hdec : decodeUpdateV1 m = some u)
    (hroom : ¬ a.Room u.subscriberId) : a.effect (.onRemoteMsg m) = .quiet := by
  rw [effect_decoded hdec, if_neg hroom]

theorem effect_remote {m : List UInt8} {u : SubownUpdate} (hdec : decodeUpdateV1 m = some u)
    (hroom : a.Room u.subscriberId) :
    a.effect (.onRemoteMsg m) = .core u.subscriberId (.remote u) := by
  rw [effect_decoded hdec, if_pos hroom]

theorem step_cfg (h : a.Sound) (call : AdapterCall) :
    (a.step call).cfg = a.cfg := by
  cases call with
  | onPacket s now =>
      obtain hidle | ⟨hmode, hroom⟩ := idle_or_reaches a s
      · exact congrArg _ (onPacket_idle hidle now)
      · exact (onPacket_spec h hmode hroom now).cfg
  | onRemoteMsg msg =>
      change (a.onRemoteMsg msg).2.cfg = a.cfg
      obtain hdec | ⟨u, hdec, hroom⟩ | ⟨u, hdec, hroom⟩ := message_cases a msg
      · rw [onRemoteMsg_undecodable hdec]
        rfl
      · rw [onRemoteMsg_full hdec hroom]
      · exact (onRemoteMsg_spec h hdec hroom).cfg
  | flushOutbound =>
      change a.flushOutbound.2.cfg = a.cfg
      rw [flushOutbound_eq]
  | onPeerDown p => exact congrArg (fun x => x.2.cfg) (onPeerDown_eq a p)
  | onAgingTick now => rfl
  | pushEvent evt => exact (pushEvent_frame a evt).2
  | popEvent => exact (popEvent_frame a).2
  | getMetrics => rfl

/-- Refinement: on the record map, every adapter call has exactly its effect. -/
structure StepSpec (a a' : OwnershipAdapter) (e : Effect) : Prop where
  sound : a'.Sound
  keeps : a'.Keeps a
  records : a'.recordOf = e.on a.cfg a.recordOf

theorem StepSpec.of_table (h : a.Sound) (htable : a'.table = a.table) : StepSpec a a' .quiet :=
  ⟨sound_congr htable h, keeps_of_keys (keys_congr htable), recordOf_congr htable⟩

theorem StepSpec.core_same {c : CoreCall} (h : StepSpec a a' (.core s c)) :
    a'.recordOf s = some (c.apply a.cfg (a.workingRecord s)) := by
  rw [h.records]
  exact Function.update_self ..

theorem StepSpec.core_other {c : CoreCall} (h : StepSpec a a' (.core s' c)) (hst : s ≠ s') :
    a'.recordOf s = a.recordOf s := by
  rw [h.records]
  exact Function.update_of_ne hst ..

theorem step_spec (h : a.Sound) (call : AdapterCall) :
    StepSpec a (a.step call) (a.effect call) := by
  cases call with
  | onPacket s now =>
      obtain hidle | ⟨hmode, hroom⟩ := idle_or_reaches a s
      · have hstep : a.step (.onPacket s now) = a := onPacket_idle hidle now
        rw [hstep, effect_idle hidle]
        exact StepSpec.of_table h rfl
      · have hspec := onPacket_spec h hmode hroom now
        rw [effect_onPacket hmode hroom]
        exact ⟨hspec.sound, hspec.keeps, hspec.records⟩
  | onRemoteMsg msg =>
      change StepSpec a (a.onRemoteMsg msg).2 _
      obtain hdec | ⟨u, hdec, hroom⟩ | ⟨u, hdec, hroom⟩ := message_cases a msg
      · rw [onRemoteMsg_undecodable hdec, effect_undecodable hdec]
        exact StepSpec.of_table h rfl
      · rw [onRemoteMsg_full hdec hroom, effect_full hdec hroom]
        exact StepSpec.of_table h rfl
      · have hspec := onRemoteMsg_spec h hdec hroom
        rw [effect_remote hdec hroom]
        exact ⟨hspec.sound, hspec.keeps, hspec.records⟩
  | flushOutbound =>
      have htable : a.flushOutbound.2.table = a.table := by rw [flushOutbound_eq]
      exact StepSpec.of_table h htable
  | onPeerDown p =>
      obtain ⟨hs, hk, hm⟩ := onPeerDown_map h p
      exact ⟨hs, hk, funext hm⟩
  | onAgingTick now => exact StepSpec.of_table h rfl
  | pushEvent evt => exact StepSpec.of_table h (congrArg Replica.table (pushEvent_frame a evt).1)
  | popEvent => exact StepSpec.of_table h (congrArg Replica.table (popEvent_frame a).1)
  | getMetrics => exact StepSpec.of_table h rfl

theorem queuedBy_of_replica {call : AdapterCall} {queued : Option SubownUpdate}
    (h : ∃ t, (a.step call).replica = { (a.enqueueAll queued).replica with table := t }) :
    a.queuedBy call = queued.toList.map frameBytes := by
  obtain ⟨t, h⟩ := h
  have htail := congrArg Replica.outTail h
  have hout := congrArg Replica.outbound h
  unfold queuedBy
  cases queued with
  | none => exact if_pos htail
  | some u =>
      change (a.step call).outTail = nextIdx a.outTail at htail
      change (a.step call).outbound = Function.update a.outbound a.outTail (frameBytes u) at hout
      have hmoved : ¬ (a.step call).outTail = a.outTail := by
        rw [htail]
        exact CyclicIndex.next_ne (by decide) _
      rw [if_neg hmoved, hout, Function.update_self]
      rfl

/-- A message emits nothing. -/
theorem emittedBy_remote (a : OwnershipAdapter) (m : List UInt8) :
    a.emittedBy (.onRemoteMsg m) = none := by
  unfold emittedBy
  obtain hdec | ⟨u, hdec, hroom⟩ | ⟨u, hdec, hroom⟩ := message_cases a m
  · rw [effect_undecodable hdec]
  · rw [effect_full hdec hroom]
  · rw [effect_remote hdec hroom]

/-- Every call but a flush leaves the outbound queue as it is, up to the update it emits. -/
theorem step_replica (h : a.Sound) (call : AdapterCall) (hflush : call ≠ .flushOutbound) :
    ∃ t, (a.step call).replica =
      { (a.enqueueAll (a.emittedBy call)).replica with table := t } := by
  cases call with
  | onPacket s now =>
      unfold emittedBy
      obtain hidle | ⟨hmode, hroom⟩ := idle_or_reaches a s
      · have hstep : a.step (.onPacket s now) = a := onPacket_idle hidle now
        rw [effect_idle hidle, hstep]
        exact ⟨a.table, rfl⟩
      · rw [effect_onPacket hmode hroom]
        exact (onPacket_spec h hmode hroom now).queue
  | onRemoteMsg msg =>
      rw [emittedBy_remote]
      change ∃ t, (a.onRemoteMsg msg).2.replica = { a.replica with table := t }
      obtain hdec | ⟨u, hdec, hroom⟩ | ⟨u, hdec, hroom⟩ := message_cases a msg
      · rw [onRemoteMsg_undecodable hdec]
        exact ⟨a.table, rfl⟩
      · rw [onRemoteMsg_full hdec hroom]
        exact ⟨a.table, rfl⟩
      · exact (onRemoteMsg_spec h hdec hroom).queue
  | flushOutbound => exact absurd rfl hflush
  | onPeerDown p =>
      change ∃ t, (a.onPeerDown p).2.replica = { a.replica with table := t }
      rw [onPeerDown_eq]
      exact ⟨_, rfl⟩
  | onAgingTick now => exact ⟨a.table, rfl⟩
  | pushEvent evt => exact ⟨a.table, (pushEvent_frame a evt).1⟩
  | popEvent => exact ⟨a.table, (popEvent_frame a).1⟩
  | getMetrics => exact ⟨a.table, rfl⟩

/-- A frame is queued exactly by a packet that reaches the core and makes it emit. -/
theorem queuedBy_eq (h : a.Sound) (call : AdapterCall) :
    a.queuedBy call =
      match a.effect call with
      | .core s (.packet now emitted) =>
          (corePacket a.cfg (a.workingRecord s) now emitted).userCtx.toList.map frameBytes
      | _ => [] := by
  have hemitted : a.queuedBy call = (a.emittedBy call).toList.map frameBytes := by
    by_cases hflush : call = .flushOutbound
    · subst hflush
      have htail : a.flushOutbound.2.outTail = a.outTail := by rw [flushOutbound_eq]
      exact if_pos htail
    · exact queuedBy_of_replica (step_replica h call hflush)
  rw [hemitted, emittedBy]
  cases a.effect call with
  | quiet => rfl
  | sweep p => rfl
  | core s c => cases c <;> rfl

/-- A message is accepted exactly when it decodes and the table has room. -/
theorem onRemoteMsg_accepts (h : a.Sound) {m : List UInt8} :
    (a.onRemoteMsg m).1 = 0 ↔ ∃ u, decodeUpdateV1 m = some u ∧ a.Room u.subscriberId := by
  obtain hdec | ⟨u, hdec, hroom⟩ | ⟨u, hdec, hroom⟩ := message_cases a m
  · simp [onRemoteMsg_undecodable hdec, hdec]
  · simp [onRemoteMsg_full hdec hroom, hdec, hroom]
  · simp [(onRemoteMsg_spec h hdec hroom).rc, hdec, hroom]

/-! ### Properties of all records -/

theorem peerDownRecord_fresh (p : UInt8) (s : UInt64) :
    peerDownRecord p (freshRecord s) = freshRecord s := by
  unfold peerDownRecord
  split_ifs <;> rfl

/-- The working record of a subscriber after a step. -/
theorem StepSpec.working_cases {e : Effect} (h : StepSpec a a' e) (s : UInt64) :
    a'.workingRecord s = a.workingRecord s ∨
    (∃ c, e = .core s c ∧ a'.workingRecord s = c.apply a.cfg (a.workingRecord s)) ∨
    (∃ p, e = .sweep p ∧ a'.workingRecord s = peerDownRecord p (a.workingRecord s)) := by
  cases e with
  | quiet =>
      refine Or.inl ?_
      rw [workingRecord, h.records]
      rfl
  | core t c =>
      by_cases hst : s = t
      · subst hst
        exact Or.inr (Or.inl ⟨c, rfl, workingRecord_of_some h.core_same⟩)
      · refine Or.inl ?_
        rw [workingRecord, h.core_other hst]
        rfl
  | sweep p =>
      refine Or.inr (Or.inr ⟨p, rfl, ?_⟩)
      unfold workingRecord
      rw [h.records]
      change ((a.recordOf s).map (peerDownRecord p)).getD (freshRecord s) = _
      cases a.recordOf s with
      | none => exact (peerDownRecord_fresh p s).symm
      | some r => rfl

theorem StepSpec.working_core {c : CoreCall} (h : StepSpec a a' (.core s c)) :
    a'.workingRecord =
      Function.update a.workingRecord s (c.apply a.cfg (a.workingRecord s)) := by
  funext t
  by_cases hts : t = s
  · subst hts
    rw [Function.update_self]
    exact workingRecord_of_some h.core_same
  · rw [Function.update_of_ne hts, workingRecord, h.core_other hts]
    rfl

theorem StepSpec.working_sweep {p : UInt8} (h : StepSpec a a' (.sweep p)) (s : UInt64) :
    a'.workingRecord s = peerDownRecord p (a.workingRecord s) := by
  unfold workingRecord
  rw [h.records]
  change ((a.recordOf s).map (peerDownRecord p)).getD (freshRecord s) = _
  cases a.recordOf s with
  | none => exact (peerDownRecord_fresh p s).symm
  | some r => rfl

/-- A property of records that holds of fresh ones and that the core's calls keep. -/
theorem StepSpec.forall_working {e : Effect} (h : StepSpec a a' e)
    {I : UInt64 → SubownRecord → Prop} (hI : ∀ s, I s (a.workingRecord s))
    (hcore : ∀ s c, e = .core s c → I s (c.apply a.cfg (a.workingRecord s)))
    (hsweep : ∀ p, e = .sweep p → ∀ s, I s (peerDownRecord p (a.workingRecord s))) :
    ∀ s, I s (a'.workingRecord s) := by
  intro s
  obtain hw | ⟨c, he, hw⟩ | ⟨p, he, hw⟩ := h.working_cases s
  · rw [hw]
    exact hI s
  · rw [hw]
    exact hcore s c he
  · rw [hw]
    exact hsweep p he s

/-- Records are never lost. -/
theorem StepSpec.present {e : Effect} (h : StepSpec a a' e) (hr : a.recordOf s = some r) :
    a'.recordOf s = some (a'.workingRecord s) := by
  cases hr' : a'.recordOf s with
  | some r' => rw [workingRecord_of_some hr']
  | none =>
      rw [h.records] at hr'
      cases e with
      | quiet =>
          rw [Effect.on, hr] at hr'
          cases hr'
      | core t c =>
          by_cases hst : s = t
          · subst hst
            rw [Effect.on, Function.update_self] at hr'
            cases hr'
          · rw [Effect.on, Function.update_of_ne hst, hr] at hr'
            cases hr'
      | sweep p =>
          change (a.recordOf s).map (peerDownRecord p) = none at hr'
          rw [hr] at hr'
          cases hr'

/-- The two calls that reach the core. -/
theorem effect_core {call : AdapterCall} {c : CoreCall} (h : a.effect call = .core s c) :
    (∃ now, call = .onPacket s now ∧ a.cfg.mode ≠ .modeDisabled ∧ a.Room s ∧
      c = .packet now a.emitStatus) ∨
    (∃ m u, call = .onRemoteMsg m ∧ decodeUpdateV1 m = some u ∧ a.Room s ∧
      u.subscriberId = s ∧ c = .remote u) := by
  cases call with
  | onPacket t now =>
      obtain hidle | ⟨hmode, hroom⟩ := idle_or_reaches a t
      · rw [effect_idle hidle] at h
        cases h
      · rw [effect_onPacket hmode hroom] at h
        cases h
        exact Or.inl ⟨now, rfl, hmode, hroom, rfl⟩
  | onRemoteMsg m =>
      obtain hdec | ⟨u, hdec, hroom⟩ | ⟨u, hdec, hroom⟩ := message_cases a m
      · rw [effect_undecodable hdec] at h
        cases h
      · rw [effect_full hdec hroom] at h
        cases h
      · rw [effect_remote hdec hroom] at h
        cases h
        exact Or.inr ⟨m, u, rfl, hdec, hroom, rfl, rfl⟩
  | flushOutbound => cases h
  | onPeerDown p => cases h
  | onAgingTick now => cases h
  | pushEvent evt => cases h
  | popEvent => cases h
  | getMetrics => cases h

theorem effect_sweep {call : AdapterCall} {p : UInt8} (h : a.effect call = .sweep p) :
    call = .onPeerDown p := by
  cases call with
  | onPacket t now =>
      obtain hidle | ⟨hmode, hroom⟩ := idle_or_reaches a t
      · rw [effect_idle hidle] at h
        cases h
      · rw [effect_onPacket hmode hroom] at h
        cases h
  | onRemoteMsg m =>
      obtain hdec | ⟨u, hdec, hroom⟩ | ⟨u, hdec, hroom⟩ := message_cases a m
      · rw [effect_undecodable hdec] at h
        cases h
      · rw [effect_full hdec hroom] at h
        cases h
      · rw [effect_remote hdec hroom] at h
        cases h
  | onPeerDown q =>
      cases h
      rfl
  | flushOutbound => cases h
  | onAgingTick now => cases h
  | pushEvent evt => cases h
  | popEvent => cases h
  | getMetrics => cases h

/-! ### Runs from a fresh adapter -/

theorem create_sound (cfg : OwnAdapterCfg) : (OwnershipAdapter.create cfg).Sound :=
  LinearProbing.Chained.empty

theorem create_recordOf (cfg : OwnAdapterCfg) (s : UInt64) :
    (OwnershipAdapter.create cfg).recordOf s = none := by
  apply Option.eq_none_iff_forall_ne_some.mpr
  intro r hr
  obtain ⟨i, hused, _⟩ := (recordOf_eq_some (create_sound cfg)).mp hr
  exact absurd hused Bool.false_ne_true

theorem create_workingRecord (cfg : OwnAdapterCfg) (s : UInt64) :
    (OwnershipAdapter.create cfg).workingRecord s = freshRecord s := by
  rw [workingRecord, create_recordOf]
  rfl

/-! ### Adapters of one configuration -/

/-- What every run keeps: the configuration and a well-formed table. -/
structure Grounded (cfg : OwnAdapterCfg) (a : OwnershipAdapter) : Prop where
  sound : a.Sound
  config : a.cfg = cfg

namespace Grounded

variable {cfg : OwnAdapterCfg}

theorem create (cfg : OwnAdapterCfg) : Grounded cfg (OwnershipAdapter.create cfg) :=
  ⟨create_sound cfg, rfl⟩

theorem boxId (h : Grounded cfg a) (hb : BoxId cfg.localBoxId) : BoxId a.cfg.localBoxId := by
  rwa [h.config]

theorem mode (h : Grounded cfg a) (hmode : cfg.mode ≠ .modeDisabled) :
    a.cfg.mode ≠ .modeDisabled := by
  rwa [h.config]

theorem step (h : Grounded cfg a) (call : AdapterCall) : Grounded cfg (a.step call) :=
  ⟨(step_spec h.sound call).sound, (step_cfg h.sound call).trans h.config⟩

theorem run (h : Grounded cfg a) (calls : List AdapterCall) : Grounded cfg (a.run calls) :=
  RunRules.exec_inv (P := fun _ _ => True) (fun _ call h _ => h.step call) h
    (.of_forall fun _ _ => trivial)

end Grounded

end Subown
