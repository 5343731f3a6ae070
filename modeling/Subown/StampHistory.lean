import Subown.AdapterHistory
import Subown.ResolverJoin

/-! Stamps along a run: the pair (epoch, generation) of a record does not decrease and a
claim supersedes what was accepted or queued before, until a claim wraps the 32-bit
generation. -/
namespace Subown

open OwnershipAdapter

/-- What is asked of each step of a run. -/
structure MonotoneStep (h : History) (call : AdapterCall) : Prop where
  /-- The stamp of a record never decreases, and records do not disappear. -/
  monotone : ∀ s r, h.adapter.recordOf s = some r →
    ∃ r', (h.adapter.step call).recordOf s = some r' ∧ r.stamp ≤ r'.stamp
  /-- A queued frame outranks every earlier update for its subscriber. -/
  supersedes : ∀ f ∈ h.adapter.queuedBy call, ∃ u, decodeUpdateV1 f = some u ∧
    ∀ v ∈ h.updates, v.subscriberId = u.subscriberId → v.stamp < u.stamp
  /-- A replica that saw any of the earlier updates, and no others, adopts it. -/
  adopted : ∀ f ∈ h.adapter.queuedBy call, ∀ u, decodeUpdateV1 f = some u →
    ∀ vs, (∀ v ∈ vs, v ∈ h.updates ∧ v.subscriberId = u.subscriberId) →
      (applyRemoteUpdate (applyAll (freshRecord u.subscriberId) vs) u).out.decision = .applyRemote

/-- A packet claims a record whose generation is the last 32-bit value. -/
def WrappingClaim (a : OwnershipAdapter) : AdapterCall → Prop
  | .onPacket s _ => a.cfg.mode ≠ .modeDisabled ∧
      ∃ r, a.recordOf s = some r ∧ r.ownerBox = unownedState ∧ r.generation = 0xFFFFFFFF
  | _ => False

variable {a : OwnershipAdapter} {h : History} {cfg : OwnAdapterCfg} {r : SubownRecord} {s : UInt64}
  {call : AdapterCall} {now : UInt64}

/-! ### Stamps under the core's calls -/

theorem claimedRecord_wraps (b : UInt8) (now : UInt64) (hgen : r.generation = 0xFFFFFFFF) :
    (claimedRecord r b now).stamp < r.stamp := by
  refine stampOf_lt.mpr (Or.inr ⟨rfl, ?_⟩)
  change r.generation + 1 < r.generation
  rw [hgen]
  decide

theorem corePacket_stamp (hb : BoxId cfg.localBoxId) (r : SubownRecord) (now : UInt64)
    (emitted : SubownStatus) (hgen : r.ownerBox = unownedState → r.generation ≠ 0xFFFFFFFF) :
    r.stamp ≤ (corePacket cfg r now emitted).record.stamp := by
  obtain ⟨_, e⟩ | ⟨_, e⟩ | ⟨hun, _, e⟩ | ⟨hun, _, e⟩ | ⟨_, e⟩ := corePacket_cases hb r now emitted
  · rw [e]
    exact le_rfl
  · obtain ⟨c, hc⟩ := misroute_frame r cfg.migrationThreshold
    rw [e, hc]
    exact le_rfl
  · rw [e]
    exact (claimedRecord_stamp _ _ (hgen hun)).le
  · rw [e]
    exact (claimedRecord_stamp _ _ (hgen hun)).le
  · rw [e]

theorem applyRemoteUpdate_stamp {u : SubownUpdate} (hv : ValidFor r u) :
    r.stamp ≤ (applyRemoteUpdate r u).record.stamp ∧
      u.stamp ≤ (applyRemoteUpdate r u).record.stamp := by
  rcases applyRemoteUpdate_cases hv with ⟨hs, e⟩ | ⟨hs, e⟩ | ⟨hs, _, e⟩ | ⟨hs, _, e⟩ | ⟨hs, _, e⟩
  · rw [e]
    exact ⟨le_rfl, hs.le⟩
  · rw [e]
    exact ⟨hs.le, le_rfl⟩
  · rw [e]
    exact ⟨le_rfl, hs.le⟩
  · rw [e]
    exact ⟨hs.ge, le_rfl⟩
  · rw [e]
    exact ⟨le_rfl, hs.le⟩

theorem peerDownRecord_stamp (p : UInt8) (r : SubownRecord) :
    (peerDownRecord p r).stamp = r.stamp := by
  unfold peerDownRecord
  split_ifs <;> rfl

/-! ### The invariant -/

structure StampInv (cfg : OwnAdapterCfg) (h : History) : Prop
    extends Grounded cfg h.adapter where
  floor : ∀ s, (freshRecord s).stamp ≤ (h.adapter.workingRecord s).stamp
  covers : ∀ v ∈ h.updates, v.stamp ≤ (h.adapter.workingRecord v.subscriberId).stamp

theorem StampInv.start (cfg : OwnAdapterCfg) : StampInv cfg (History.start cfg) where
  toGrounded := .create cfg
  floor s := (congrArg SubownRecord.stamp (create_workingRecord cfg s)).ge
  covers v hv := by cases hv

/-- The working record of a claim that does not wrap is below the last generation. -/
theorem working_generation (hwrap : ¬ WrappingClaim a (.onPacket s now))
    (hmode : a.cfg.mode ≠ .modeDisabled) (hun : (a.workingRecord s).ownerBox = unownedState) :
    (a.workingRecord s).generation ≠ 0xFFFFFFFF := by
  intro hgen
  cases hr : a.recordOf s with
  | none =>
      rw [workingRecord, hr] at hgen
      change (0 : UInt32) = 0xFFFFFFFF at hgen
      exact absurd hgen (by decide)
  | some r =>
      rw [workingRecord_of_some hr] at hgen hun
      exact hwrap ⟨hmode, r, hr, hun, hgen⟩

/-- One step moves every record up in the order of stamps. -/
theorem step_stamp (hs : a.Sound) (hb : BoxId a.cfg.localBoxId) (hwrap : ¬ WrappingClaim a call)
    (s : UInt64) : (a.workingRecord s).stamp ≤ ((a.step call).workingRecord s).stamp := by
  obtain hw | ⟨c, he, hw⟩ | ⟨p, _, hw⟩ := (step_spec hs call).working_cases s
  · rw [hw]
  · rw [hw]
    obtain ⟨now, rfl, hmode, _, rfl⟩ | ⟨m, u, rfl, hdec, _, hsid, rfl⟩ := effect_core he
    · exact corePacket_stamp hb _ now _ (working_generation hwrap hmode)
    · have hv := decoded_validFor hdec ((workingRecord_subscriberId hs).trans hsid.symm)
      exact (applyRemoteUpdate_stamp hv).1
  · rw [hw, peerDownRecord_stamp]

theorem StampInv.step (hb : BoxId cfg.localBoxId) (hi : StampInv cfg h) (call : AdapterCall)
    (hwrap : ¬ WrappingClaim h.adapter call) : StampInv cfg (h.step call) := by
  have hba := hi.boxId hb
  have hspec := step_spec hi.sound call
  have hup := step_stamp hi.sound hba hwrap
  refine ⟨hi.toGrounded.step call, ?_, ?_⟩
  · intro s
    exact (hi.floor s).trans (hup s)
  · intro v hv
    obtain hv | ⟨m, rfl, hdec, heff⟩ | ⟨s, now, heff, hun, rfl⟩ :=
      mem_updates_step hi.sound hba hv
    · exact (hi.covers v hv).trans (hup _)
    · rw [heff] at hspec
      have hvalid := decoded_validFor hdec
        (workingRecord_subscriberId (s := v.subscriberId) hi.sound)
      refine (applyRemoteUpdate_stamp hvalid).2.trans (le_of_eq ?_)
      exact (congrArg SubownRecord.stamp (workingRecord_of_some hspec.core_same)).symm
    · have hclaimed := workingRecord_of_some (step_claims hi.sound hba heff hun)
      change _ ≤
        ((h.adapter.step call).workingRecord (h.adapter.workingRecord s).subscriberId).stamp
      rw [workingRecord_subscriberId hi.sound, hclaimed]
      exact le_rfl

/-! ### One step, both ways -/

/-- The stamp of a replica that saw some updates is its own or one of theirs. -/
theorem applyAll_stamp {vs : List SubownUpdate} (hv : ∀ v ∈ vs, ValidFor r v) :
    (applyAll r vs).stamp = r.stamp ∨ ∃ v ∈ vs, (applyAll r vs).stamp = v.stamp := by
  have hkey := StrictBest.rank_takeAll_mem key_adopt r vs
  rw [← applyAll_eq_takeAll hv] at hkey
  rcases hkey with hkey | ⟨v, hmem, hkey⟩
  · obtain ⟨he, hg, _⟩ := resolverKey_inj.mp hkey
    exact Or.inl (stampOf_inj.mpr ⟨he, hg⟩)
  · obtain ⟨he, hg, _⟩ := resolverKey_inj.mp hkey
    exact Or.inr ⟨v, hmem, stampOf_inj.mpr ⟨he, hg⟩⟩

theorem adopts_of_stamp {u : SubownUpdate} (hv : ValidFor r u) (hlt : r.stamp < u.stamp) :
    (applyRemoteUpdate r u).out.decision = .applyRemote := by
  rw [applyRemoteUpdate_newer hv hlt]

theorem StampInv.monotoneStep (hb : BoxId cfg.localBoxId) (hi : StampInv cfg h)
    (call : AdapterCall) (hwrap : ¬ WrappingClaim h.adapter call) : MonotoneStep h call := by
  have hba := hi.boxId hb
  have hup := step_stamp hi.sound hba hwrap
  have hclaim : ∀ f ∈ h.adapter.queuedBy call, ∃ u, decodeUpdateV1 f = some u ∧
      (h.adapter.workingRecord u.subscriberId).stamp < u.stamp := by
    intro f hf
    obtain ⟨s, now, hann⟩ := queuedBy_announces hi.sound hba hf
    refine ⟨_, hann.decodes, ?_⟩
    change (h.adapter.workingRecord (h.adapter.workingRecord s).subscriberId).stamp <
      (claimedRecord (h.adapter.workingRecord s) h.adapter.cfg.localBoxId now).stamp
    rw [workingRecord_subscriberId hi.sound]
    obtain ⟨now', rfl, hmode, _, e⟩ | ⟨_, _, _, _, _, _, e⟩ := effect_core hann.effect
    · obtain ⟨rfl, -⟩ := CoreCall.packet.inj e
      exact claimedRecord_stamp _ _ (working_generation hwrap hmode hann.unowned)
    · cases e
  constructor
  · intro s r hr
    have hle := hup s
    rw [workingRecord_of_some hr] at hle
    exact ⟨_, (step_spec hi.sound call).present hr, hle⟩
  · intro f hf
    obtain ⟨u, hdec, hlt⟩ := hclaim f hf
    refine ⟨u, hdec, ?_⟩
    intro v hv hsid
    apply lt_of_le_of_lt _ hlt
    rw [← hsid]
    exact hi.covers v hv
  · intro f hf u hdec vs hvs
    obtain ⟨u', hdec', hlt⟩ := hclaim f hf
    obtain rfl := Option.some.inj (hdec'.symm.trans hdec)
    have hvalid : ∀ v ∈ vs, ValidFor (freshRecord u'.subscriberId) v := by
      intro v hv
      obtain ⟨hmem, hsid⟩ := hvs v hv
      have hwf : ∃ m, decodeUpdateV1 m = some v := by
        rcases mem_updates.mp hmem with ⟨m, _, hm⟩ | ⟨m, _, hm⟩ <;> exact ⟨m, hm⟩
      obtain ⟨m, hm⟩ := hwf
      exact decoded_validFor hm hsid.symm
    have hsid : (applyAll (freshRecord u'.subscriberId) vs).subscriberId = u'.subscriberId :=
      applyAll_subscriberId hvalid
    apply adopts_of_stamp (decoded_validFor hdec hsid)
    apply lt_of_le_of_lt _ hlt
    rcases applyAll_stamp hvalid with e | ⟨v, hv, e⟩
    · rw [e]
      exact hi.floor _
    · obtain ⟨hmem, hsid⟩ := hvs v hv
      rw [e, ← hsid]
      exact hi.covers v hmem

/-- A claim that wraps takes the record back to generation zero. -/
theorem StampInv.wraps (hb : BoxId cfg.localBoxId) (hi : StampInv cfg h) (call : AdapterCall)
    (hwrap : WrappingClaim h.adapter call) : ¬ MonotoneStep h call := by
  intro hstep
  cases call with
  | onPacket s now =>
      obtain ⟨hmode, r, hr, hun, hgen⟩ := hwrap
      have hba := hi.boxId hb
      have heff := effect_onPacket hmode (room_of_some hi.sound hr) now
      have hworking := workingRecord_of_some hr
      have hclaimed := step_claims hi.sound hba heff (hworking.symm ▸ hun)
      obtain ⟨r', hr', hle⟩ := hstep.monotone s r hr
      rw [hclaimed, hworking, Option.some.injEq] at hr'
      rw [← hr'] at hle
      exact absurd (claimedRecord_wraps _ now hgen) (not_lt.mpr hle)
  | onRemoteMsg m => exact hwrap.elim
  | flushOutbound => exact hwrap.elim
  | onPeerDown p => exact hwrap.elim
  | onAgingTick now => exact hwrap.elim
  | pushEvent evt => exact hwrap.elim
  | popEvent => exact hwrap.elim
  | getMetrics => exact hwrap.elim

/-- Every step of a run is monotone and superseding exactly as long as no packet claims a
record at the last generation. -/
theorem monotone_iff_no_wrap (hb : BoxId cfg.localBoxId) (calls : List AdapterCall) :
    RunRules.Each History.step MonotoneStep (History.start cfg) calls ↔
      RunRules.Each History.step (fun h call => ¬ WrappingClaim h.adapter call)
        (History.start cfg) calls :=
  RunRules.each_iff_each (R := fun _ _ => True)
    (fun _ call hi _ hp => ⟨hi.monotoneStep hb call hp, hi.step hb call hp⟩)
    (fun _ call hi _ hp => hi.wraps hb call (not_not.mp hp)) (StampInv.start cfg)
    (RunRules.each_iff_split.mpr fun _ _ _ _ => trivial)

theorem monotone_iff_no_wrap_claims :
    RunRules.Each History.step MonotoneStep (History.start ⟨.modeEnforce, 0, 3⟩)
      [.onPacket 7 5, .onPeerDown 0, .flushOutbound] := by
  refine (monotone_iff_no_wrap (Or.inl rfl) _).mpr ⟨?_, id, id, trivial⟩
  rintro ⟨_, r, hr, _⟩
  cases (create_recordOf _ _).symm.trans hr

/-- A released record at the last generation wraps on its next packet. -/
theorem StampInv.release_wraps (hb : BoxId cfg.localBoxId) (hmode : cfg.mode ≠ .modeDisabled)
    (hi : StampInv cfg h) {p : UInt8} (hr : h.adapter.recordOf s = some r) (howner : r.ownerBox = p)
    (hgen : r.generation = 0xFFFFFFFF) (now : UInt64) :
    ¬ MonotoneStep (h.step (.onPeerDown p)) (.onPacket s now) := by
  have hnext := hi.step hb (.onPeerDown p) id
  have hrec : (h.step (.onPeerDown p)).adapter.recordOf s = some (releaseRecord r) := by
    change (h.adapter.onPeerDown p).2.recordOf s = _
    rw [(onPeerDown_map hi.sound p).2.2, hr, Option.map_some, peerDownRecord, if_pos howner]
  refine hnext.wraps hb (.onPacket s now) ⟨?_, releaseRecord r, hrec, rfl, hgen⟩
  rw [hnext.config]
  exact hmode

/-- A remote frame sets the last generation, the peer fails, and the next packet claims at
generation zero. -/
theorem monotone_fails_on_wrap :
    ¬ RunRules.Each History.step MonotoneStep (History.start ⟨.modeEnforce, 0, 3⟩)
      [.onRemoteMsg (frameBytes (mkUpdate 7 1 0xFFFFFFFF 5 1)), .onPeerDown 1, .onPacket 7 9] := by
  intro h
  have hb : BoxId (⟨.modeEnforce, 0, 3⟩ : OwnAdapterCfg).localBoxId := Or.inl rfl
  have hfirst := (StampInv.start ⟨.modeEnforce, 0, 3⟩).step hb
    (.onRemoteMsg (frameBytes (mkUpdate 7 1 0xFFFFFFFF 5 1))) id
  have hspec := onRemoteMsg_spec (create_sound ⟨.modeEnforce, 0, 3⟩)
    (m := frameBytes (mkUpdate 7 1 0xFFFFFFFF 5 1)) (u := mkUpdate 7 1 0xFFFFFFFF 5 1)
    (by decide) (by decide)
  have hrec := (congrFun hspec.records 7).trans (Function.update_self ..)
  rw [create_workingRecord] at hrec
  exact hfirst.release_wraps hb (by decide) hrec (by decide) (by decide) 9 h.2.2.1

end Subown
