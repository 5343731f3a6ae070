import Subown.StampHistory

/-! Redelivery of accepted messages. A record that outranks an accepted update keeps it
out; `on_peer_down` hands the record the weakest owner at the same stamp and lets every
update of that stamp in again. -/
namespace Subown

open OwnershipAdapter

/-- Delivering an accepted message again changes no record. -/
def ReplayImmune (h : History) : Prop :=
  ∀ m ∈ h.accepted, ∀ s, (h.adapter.onRemoteMsg m).2.recordOf s = h.adapter.recordOf s

/-- Packets that do not wrap a generation, messages, and `on_peer_down` of the other box. -/
def PeerCall (b : UInt8) (h : History) : AdapterCall → Prop
  | .onPacket s now => ¬ WrappingClaim h.adapter (.onPacket s now)
  | .onRemoteMsg _ => True
  | .onPeerDown p => p = peerOf b
  | _ => False

/-- The call releases a record of the peer it declares down. -/
def ReleasesRecord (a : OwnershipAdapter) : AdapterCall → Prop
  | .onPeerDown p => ∃ s r, a.recordOf s = some r ∧ r.ownerBox = p
  | _ => False

variable {h : History} {cfg : OwnAdapterCfg} {r : SubownRecord} {s : UInt64} {call : AdapterCall}

/-! ### Keys under the core's calls -/

/-- A packet leaves the key alone or makes the local box the owner at a higher stamp. -/
theorem corePacket_key (hb : BoxId cfg.localBoxId) (r : SubownRecord) (now : UInt64)
    (emitted : SubownStatus) (hgen : r.ownerBox = unownedState → r.generation ≠ 0xFFFFFFFF) :
    (corePacket cfg r now emitted).record.key = r.key ∨
      (r.key < (corePacket cfg r now emitted).record.key ∧
        (corePacket cfg r now emitted).record.ownerBox = cfg.localBoxId) := by
  obtain ⟨_, e⟩ | ⟨_, e⟩ | ⟨hun, _, e⟩ | ⟨hun, _, e⟩ | ⟨_, e⟩ := corePacket_cases hb r now emitted
  · rw [e]
    exact Or.inl rfl
  · obtain ⟨c, hc⟩ := misroute_frame r cfg.migrationThreshold
    rw [e, hc]
    exact Or.inl rfl
  · rw [e]
    exact Or.inr ⟨resolverKey_lt_of_stamp _ _ (claimedRecord_stamp _ _ (hgen hun)), rfl⟩
  · rw [e]
    exact Or.inr ⟨resolverKey_lt_of_stamp _ _ (claimedRecord_stamp _ _ (hgen hun)), rfl⟩
  · rw [e]
    exact Or.inl rfl

theorem key_owner {r' : SubownRecord} (hkey : r.key = r'.key) : r.ownerBox = r'.ownerBox :=
  (resolverKey_inj.mp hkey).2.2

theorem peerDownRecord_of_ne {p : UInt8} (hne : r.ownerBox ≠ p) : peerDownRecord p r = r :=
  if_neg hne

/-! ### The invariant -/

structure ReplayInv (cfg : OwnAdapterCfg) (h : History) : Prop
    extends Grounded cfg h.adapter where
  covers : ∀ m ∈ h.accepted, ∃ u r, decodeUpdateV1 m = some u ∧
    h.adapter.recordOf u.subscriberId = some r ∧ u.key ≤ r.key
  owned : ∀ s, (h.adapter.workingRecord s).ownerBox = peerOf cfg.localBoxId →
    ∃ m ∈ h.accepted, ∃ u, decodeUpdateV1 m = some u ∧ u.subscriberId = s ∧
      u.key = (h.adapter.workingRecord s).key

theorem ReplayInv.start (hb : BoxId cfg.localBoxId) : ReplayInv cfg (History.start cfg) where
  toGrounded := .create cfg
  covers m hm := by cases hm
  owned s hs := by
    have hfresh : (History.start cfg).adapter.workingRecord s = freshRecord s :=
      create_workingRecord cfg s
    rw [hfresh] at hs
    exact absurd hs.symm hb.ne_unowned.2

/-- What was accepted is outranked, so taking it again writes the record it finds. -/
theorem ReplayInv.immune (hi : ReplayInv cfg h) : ReplayImmune h := by
  intro m hm s
  obtain ⟨u, r, hdec, hr, hle⟩ := hi.covers m hm
  have hspec := onRemoteMsg_spec hi.sound hdec (room_of_some hi.sound hr)
  have hv := decoded_validFor hdec (recordOf_subscriberId hi.sound hr)
  rw [hspec.records, workingRecord_of_some hr, applyRemoteUpdate_record hv,
    StrictBest.take_of_le hle, ← hr, Function.update_eq_self]

/-- The step of one working record: its key is kept, or raised by a claim, or raised by a
message accepted in this step. -/
theorem step_key (hb : BoxId cfg.localBoxId) (hi : ReplayInv cfg h)
    (hcall : PeerCall cfg.localBoxId h call) (hrel : ¬ ReleasesRecord h.adapter call) (s : UInt64) :
    ((h.step call).adapter.workingRecord s).key = (h.adapter.workingRecord s).key ∨
    ((h.adapter.workingRecord s).key < ((h.step call).adapter.workingRecord s).key ∧
      ((h.step call).adapter.workingRecord s).ownerBox = cfg.localBoxId) ∨
    ((h.adapter.workingRecord s).key < ((h.step call).adapter.workingRecord s).key ∧
      ∃ m ∈ (h.step call).accepted, ∃ u, decodeUpdateV1 m = some u ∧ u.subscriberId = s ∧
        u.key = ((h.step call).adapter.workingRecord s).key) := by
  have hba := hi.boxId hb
  have hstep : (h.step call).adapter = h.adapter.step call := rfl
  rw [hstep]
  obtain hw | ⟨c, he, hw⟩ | ⟨p, he, hw⟩ := (step_spec hi.sound call).working_cases s
  · exact Or.inl (congrArg SubownRecord.key hw)
  · rw [hw]
    obtain ⟨now, rfl, hmode, _, rfl⟩ | ⟨m, u, rfl, hdec, hroom, hsid, rfl⟩ := effect_core he
    · have hkey := corePacket_key hba (h.adapter.workingRecord s) now h.adapter.emitStatus
        (working_generation hcall hmode)
      rw [hi.config] at hkey ⊢
      exact hkey.imp id Or.inl
    · have hv := decoded_validFor hdec ((workingRecord_subscriberId hi.sound).trans hsid.symm)
      rw [CoreCall.apply, applyRemoteUpdate_record hv]
      by_cases hlt : (h.adapter.workingRecord s).key < u.key
      · rw [StrictBest.take_of_lt hlt]
        refine Or.inr (Or.inr ⟨hlt, m, ?_, u, hdec, hsid, rfl⟩)
        have hrc : (h.adapter.onRemoteMsg m).1 = 0 :=
          (onRemoteMsg_accepts hi.sound).mpr ⟨u, hdec, hsid.symm ▸ hroom⟩
        apply List.mem_append_right
        rw [acceptedBy, if_pos hrc]
        exact List.mem_singleton.mpr rfl
      · rw [StrictBest.take_of_le (not_lt.mp hlt)]
        exact Or.inl rfl
  · refine Or.inl ?_
    rw [hw, peerDownRecord_of_ne]
    intro howner
    have hcd := effect_sweep he
    subst hcd
    cases hr : h.adapter.recordOf s with
    | some r =>
        rw [workingRecord_of_some hr] at howner
        exact hrel ⟨s, r, hr, howner⟩
    | none =>
        rw [workingRecord, hr] at howner
        exact hb.ne_unowned.2 (hcall.symm.trans howner.symm)

theorem ReplayInv.step (hb : BoxId cfg.localBoxId) (hi : ReplayInv cfg h) (call : AdapterCall)
    (hcall : PeerCall cfg.localBoxId h call) (hrel : ¬ ReleasesRecord h.adapter call) :
    ReplayInv cfg (h.step call) := by
  have hspec := step_spec hi.sound call
  have hkey := step_key hb hi hcall hrel
  have hup : ∀ s, (h.adapter.workingRecord s).key ≤
      ((h.step call).adapter.workingRecord s).key := by
    intro s
    obtain e | ⟨hlt, _⟩ | ⟨hlt, _⟩ := hkey s
    · exact e.ge
    · exact hlt.le
    · exact hlt.le
  refine ⟨hi.toGrounded.step call, ?_, ?_⟩
  · intro m hm
    rcases List.mem_append.mp hm with hm | hm
    · obtain ⟨u, r, hdec, hr, hle⟩ := hi.covers m hm
      have hle' := hup u.subscriberId
      rw [workingRecord_of_some hr] at hle'
      exact ⟨u, _, hdec, hspec.present hr, hle.trans hle'⟩
    · obtain ⟨u, rfl, hdec, heff⟩ := acceptedBy_core hi.sound hm
      rw [heff] at hspec
      have hv := decoded_validFor hdec (workingRecord_subscriberId (s := u.subscriberId) hi.sound)
      refine ⟨u, _, hdec, hspec.core_same, ?_⟩
      rw [CoreCall.apply, applyRemoteUpdate_record hv, StrictBest.rank_take key_adopt]
      exact le_max_right _ _
  · intro s howner
    obtain e | ⟨_, hlocal⟩ | ⟨_, hfrom⟩ := hkey s
    · rw [key_owner e] at howner
      obtain ⟨m, hm, u, hdec, hsid, hk⟩ := hi.owned s howner
      exact ⟨m, List.mem_append_left _ hm, u, hdec, hsid, hk.trans e.symm⟩
    · exact absurd (hlocal.symm.trans howner) hb.ne_peer
    · exact hfrom

/-- Releasing a record of the peer re-admits the update that made the peer its owner. -/
theorem ReplayInv.released (hb : BoxId cfg.localBoxId) (hi : ReplayInv cfg h) {p : UInt8}
    (hp : p = peerOf cfg.localBoxId) (hr : h.adapter.recordOf s = some r)
    (howner : r.ownerBox = p) : ¬ ReplayImmune (h.step (.onPeerDown p)) := by
  intro himmune
  have hwork := workingRecord_of_some hr
  obtain ⟨m, hm, u, hdec, hsid, hkey⟩ := hi.owned s (by rw [hwork, howner, hp])
  rw [hwork] at hkey
  obtain ⟨hsound, _, hmap⟩ := onPeerDown_map hi.sound p
  have hreleased : (h.adapter.onPeerDown p).2.recordOf u.subscriberId = some (releaseRecord r) := by
    rw [hmap, hsid, hr, Option.map_some, peerDownRecord, if_pos howner]
  have hsame := himmune m (List.mem_append_left _ hm) u.subscriberId
  change ((h.adapter.onPeerDown p).2.onRemoteMsg m).2.recordOf _ =
    (h.adapter.onPeerDown p).2.recordOf _ at hsame
  have hspec := onRemoteMsg_spec hsound hdec (room_of_some hsound hreleased)
  have hlt : (releaseRecord r).key < u.key := by
    rw [hkey]
    refine resolverKey_lt.mpr (Or.inr ⟨rfl, Or.inr ⟨rfl, ?_⟩⟩)
    change r.ownerBox < unownedState
    rw [howner, hp]
    obtain ⟨_, e⟩ | ⟨_, e⟩ := hb.cases <;> rw [e] <;> decide
  have hv := decoded_validFor hdec (recordOf_subscriberId hsound hreleased)
  rw [hspec.records, Function.update_self, workingRecord_of_some hreleased, hreleased,
    applyRemoteUpdate_record hv, StrictBest.take_of_lt hlt, Option.some.injEq] at hsame
  have hback : u.owner = unownedState := congrArg SubownRecord.ownerBox hsame
  have hu : u.owner = r.ownerBox := (resolverKey_inj.mp hkey).2.2
  exact hb.ne_unowned.2 (hp.symm.trans (howner.symm.trans (hu.symm.trans hback)))

/-- Accepted messages stay without effect along a run exactly as long as `on_peer_down`
finds no record to release. -/
theorem replayImmune_iff_no_release (hb : BoxId cfg.localBoxId) (calls : List AdapterCall)
    (hcalls : RunRules.Each History.step (PeerCall cfg.localBoxId) (History.start cfg) calls) :
    RunRules.Always History.step ReplayImmune (History.start cfg) calls ↔
      RunRules.Each History.step (fun h call => ¬ ReleasesRecord h.adapter call)
        (History.start cfg) calls := by
  refine RunRules.always_iff_each (fun _ hi => hi.immune)
    (fun _ call hi hcall hrel => hi.step hb call hcall hrel) ?_ (ReplayInv.start hb) hcalls
  intro h call hi hcall hrel
  cases call with
  | onPeerDown p =>
      obtain ⟨s, r, hr, howner⟩ := not_not.mp hrel
      exact hi.released hb hcall hr howner
  | onPacket s now => exact (hrel id).elim
  | onRemoteMsg m => exact (hrel id).elim
  | flushOutbound => exact hcall.elim
  | onAgingTick now => exact hcall.elim
  | pushEvent evt => exact hcall.elim
  | popEvent => exact hcall.elim
  | getMetrics => exact hcall.elim

/-- Box 0 claims and then accepts the losing claim of box 1. -/
theorem replayImmune_iff_no_release_conflict :
    RunRules.Always History.step ReplayImmune (History.start ⟨.modeEnforce, 0, 3⟩)
      [.onPacket 7 5, .onRemoteMsg (frameBytes (mkUpdate 7 1 1 6 1))] := by
  have hfirst : ¬ WrappingClaim (OwnershipAdapter.create ⟨.modeEnforce, 0, 3⟩) (.onPacket 7 5) := by
    rintro ⟨_, r, hr, _⟩
    cases (create_recordOf _ _).symm.trans hr
  apply (replayImmune_iff_no_release (Or.inl rfl) _ ?_).mpr
  · exact ⟨id, id, trivial⟩
  · exact ⟨hfirst, trivial, trivial⟩

/-- Box 1 owns subscriber 7, fails, and its old frame makes it the owner again. -/
theorem replay_readmitted_after_release :
    ¬ RunRules.Always History.step ReplayImmune (History.start ⟨.modeEnforce, 0, 3⟩)
      [.onRemoteMsg (frameBytes (mkUpdate 7 1 1 5 1)), .onPeerDown 1] := by
  intro h
  have hb : BoxId (⟨.modeEnforce, 0, 3⟩ : OwnAdapterCfg).localBoxId := Or.inl rfl
  have hfirst := (ReplayInv.start hb).step hb (.onRemoteMsg (frameBytes (mkUpdate 7 1 1 5 1)))
    trivial id
  have hspec := onRemoteMsg_spec (create_sound ⟨.modeEnforce, 0, 3⟩)
    (m := frameBytes (mkUpdate 7 1 1 5 1)) (u := mkUpdate 7 1 1 5 1) (by decide) (by decide)
  have hrec := (congrFun hspec.records 7).trans (Function.update_self ..)
  rw [create_workingRecord] at hrec
  exact hfirst.released hb (p := 1) rfl hrec (by decide) h.2.2

end Subown
