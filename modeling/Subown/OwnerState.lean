import Subown.AdapterStep

/-! Agreement of the `state` of a record with its owner. The resolver writes `REMOTE` for
every owner it adopts, the local box included. -/
namespace Subown

open OwnershipAdapter

/-- `state` is the one the owner has at box `b`. -/
structure Agrees (b : UInt8) (r : SubownRecord) : Prop where
  onLocal : r.state = .stateLocal ↔ r.ownerBox = b
  onRemote : r.state = .stateRemote ↔ r.ownerBox = peerOf b
  onUnowned : r.state = .stateUnowned ↔ r.ownerBox = unownedState

/-- After a `LOCAL_HIT` the record is local, and a claim by `b` is a refresh: it only
renews `last_seen_ts` and does not run the emitter. -/
def RefreshAfterHit (b : UInt8) (r : SubownRecord) : Prop :=
  ∀ (σ : Type) (emit : EmitUpdateFn σ) (ctx : σ) (now now' threshold : UInt64)
    (out : SubownResult),
    let hit := processPacketEvent r b now threshold (some emit) ctx out
    hit.status = .ok → hit.out.reason = .localHit →
      hit.record.state = .stateLocal ∧
        claimLocal hit.record b.toUInt16 now' (some emit) hit.userCtx hit.out =
          ⟨.ok, { hit.record with lastSeenTs := now' }, hit.userCtx, ⟨.noop, .localRefresh⟩⟩

/-- Every used record of the table agrees with its owner. -/
def OwnerState (a : OwnershipAdapter) : Prop :=
  ∀ i, (a.table i).used = true →
    Agrees a.cfg.localBoxId (a.table i).record ∧
      RefreshAfterHit a.cfg.localBoxId (a.table i).record

/-- The call delivers a frame that names the local box and beats the record it meets. -/
def EchoWins (a : OwnershipAdapter) : AdapterCall → Prop
  | .onRemoteMsg m => ∃ u, decodeUpdateV1 m = some u ∧ u.ownerBox = a.cfg.localBoxId ∧
      a.Room u.subscriberId ∧ (a.workingRecord u.subscriberId).key < u.key
  | _ => False

variable {a : OwnershipAdapter} {b : UInt8} {r : SubownRecord}

/-! ### Records -/

theorem agrees_local (hb : BoxId b) (howner : r.ownerBox = b) (hstate : r.state = .stateLocal) :
    Agrees b r := by
  obtain ⟨hne, -⟩ := hb.ne_unowned
  constructor <;> simp [howner, hstate, hne, hb.ne_peer]

theorem agrees_remote (hb : BoxId b) (howner : r.ownerBox = peerOf b)
    (hstate : r.state = .stateRemote) : Agrees b r := by
  obtain ⟨-, hne⟩ := hb.ne_unowned
  constructor <;> simp [howner, hstate, hne, hb.ne_peer.symm]

theorem agrees_unowned (hb : BoxId b) (howner : r.ownerBox = unownedState)
    (hstate : r.state = .stateUnowned) : Agrees b r := by
  obtain ⟨hne, hnep⟩ := hb.ne_unowned
  constructor <;> simp [howner, hstate, hne.symm, hnep.symm]

theorem Agrees.congr {r' : SubownRecord} (h : Agrees b r) (howner : r'.ownerBox = r.ownerBox)
    (hstate : r'.state = r.state) : Agrees b r' := by
  constructor
  · rw [howner, hstate]
    exact h.onLocal
  · rw [howner, hstate]
    exact h.onRemote
  · rw [howner, hstate]
    exact h.onUnowned

theorem packet_agrees {cfg : OwnAdapterCfg} (hb : BoxId cfg.localBoxId)
    (h : Agrees cfg.localBoxId r) (now : UInt64) (emitted : SubownStatus) :
    Agrees cfg.localBoxId (corePacket cfg r now emitted).record := by
  obtain ⟨_, e⟩ | ⟨_, e⟩ | ⟨_, _, e⟩ | ⟨_, _, e⟩ | ⟨_, e⟩ := corePacket_cases hb r now emitted
  · rw [e]
    exact h.congr rfl rfl
  · obtain ⟨c, hc⟩ := misroute_frame r cfg.migrationThreshold
    rw [e, hc]
    exact h.congr rfl rfl
  · rw [e]
    exact agrees_local hb rfl rfl
  · rw [e]
    exact agrees_local hb rfl rfl
  · rw [e]
    exact h

/-- Adopting a known owner agrees unless it is the local box. -/
theorem adopt_agrees_iff (hb : BoxId b) {u : SubownUpdate} (hu : KnownOwner u.owner) :
    Agrees b (adopt r u) ↔ u.owner ≠ b := by
  constructor
  · intro h e
    have hremote : (adopt r u).state = .stateRemote := by
      change (if u.owner = unownedState then _ else _) = _
      rw [if_neg (e ▸ hb.ne_unowned.1)]
    have hpeer := h.onRemote.mp hremote
    exact hb.ne_peer (e.symm.trans hpeer)
  · intro hne
    by_cases hun : u.owner = unownedState
    · exact agrees_unowned hb hun (if_pos hun)
    · have hpeer : u.owner = peerOf b := by
        obtain ⟨e, ep⟩ | ⟨e, ep⟩ := hb.cases
        · rw [ep]
          rw [e] at hne
          exact (hu.resolve_left hne).resolve_right hun
        · rw [ep]
          rw [e] at hne
          exact hu.resolve_right fun h => h.elim hne hun
      exact agrees_remote hb hpeer (if_neg hun)

theorem remote_agrees (hb : BoxId b) (h : Agrees b r) {u : SubownUpdate} (hv : ValidFor r u)
    (hu : KnownOwner u.owner) (hecho : ¬ (u.owner = b ∧ r.key < u.key)) :
    Agrees b (applyRemoteUpdate r u).record := by
  rw [applyRemoteUpdate_record hv]
  by_cases hlt : r.key < u.key
  · rw [StrictBest.take_of_lt hlt]
    exact (adopt_agrees_iff hb hu).mpr fun e => hecho ⟨e, hlt⟩
  · rw [StrictBest.take_of_le (not_lt.mp hlt)]
    exact h

theorem peerDown_agrees (hb : BoxId b) (p : UInt8) (h : Agrees b r) :
    Agrees b (peerDownRecord p r) := by
  unfold peerDownRecord
  split_ifs
  · exact agrees_unowned hb rfl rfl
  · exact h

theorem fresh_agrees (hb : BoxId b) (s : UInt64) : Agrees b (freshRecord s) :=
  agrees_unowned hb rfl rfl

theorem Agrees.refreshAfterHit (hb : BoxId b) (h : Agrees b r) : RefreshAfterHit b r := by
  intro σ emit ctx now now' threshold out hit hok hreason
  rcases hb.owner_cases r.ownerBox with hlocal | hremote | hunowned | hother
  · have hhit : hit = ⟨.ok, { r with lastSeenTs := now }, ctx, ⟨.processLocal, .localHit⟩⟩ :=
      processPacketEvent_local hb hlocal
    have hstate : r.state = .stateLocal := h.onLocal.mpr hlocal
    rw [hhit]
    refine ⟨hstate, claimLocal_refresh ?_ hstate⟩
    rw [toUInt8_toUInt16]
    exact hlocal
  · have hhit : hit = _ := processPacketEvent_remote hb hremote
    rw [hhit] at hreason
    unfold misroute at hreason
    by_cases hmigrate : threshold > 0 ∧ r.remotePacketCounter + 1 > threshold
    · rw [if_pos hmigrate] at hreason
      cases hreason
    · rw [if_neg hmigrate] at hreason
      cases hreason
  · have hhit : hit = _ := processPacketEvent_unowned hb hunowned
    rw [hhit] at hreason hok
    dsimp only at hreason hok
    split_ifs at hreason hok
  · have hhit : hit = _ := processPacketEvent_other hb hother
    rw [hhit] at hreason
    cases hreason

/-! ### Runs -/

structure OwnerStateInv (cfg : OwnAdapterCfg) (a : OwnershipAdapter) : Prop
    extends Grounded cfg a where
  agrees : ∀ s, Agrees cfg.localBoxId (a.workingRecord s)

variable {cfg : OwnAdapterCfg}

theorem OwnerStateInv.ownerState (hb : BoxId cfg.localBoxId) (h : OwnerStateInv cfg a) :
    OwnerState a := by
  intro i hi
  rw [h.config]
  have hagrees := h.agrees (a.table i).record.subscriberId
  rw [workingRecord_of_some (recordOf_used h.sound hi)] at hagrees
  exact ⟨hagrees, hagrees.refreshAfterHit hb⟩

theorem OwnerStateInv.create (hb : BoxId cfg.localBoxId) :
    OwnerStateInv cfg (OwnershipAdapter.create cfg) where
  toGrounded := .create cfg
  agrees s := by
    rw [create_workingRecord]
    exact fresh_agrees hb s

theorem OwnerStateInv.step (hb : BoxId cfg.localBoxId) (h : OwnerStateInv cfg a)
    (call : AdapterCall) (hecho : ¬ EchoWins a call) : OwnerStateInv cfg (a.step call) := by
  have hcfg := h.config
  have hspec := step_spec h.sound call
  refine ⟨h.toGrounded.step call, ?_⟩
  refine hspec.forall_working (I := fun _ r => Agrees cfg.localBoxId r) h.agrees ?_ ?_
  · intro s c he
    obtain ⟨now, rfl, _, _, rfl⟩ | ⟨m, u, rfl, hdec, hroom, rfl, rfl⟩ := effect_core he
    · rw [hcfg]
      exact packet_agrees hb (h.agrees s) now _
    · have hwf := decodeUpdateV1_wellFormed hdec
      refine remote_agrees hb (h.agrees _)
        (decoded_validFor hdec (workingRecord_subscriberId h.sound)) hwf.known_owner ?_
      rintro ⟨howner, hlt⟩
      exact hecho ⟨u, hdec, by rw [hcfg, ← howner, hwf.owner], hroom, hlt⟩
  · intro p _ s
    exact peerDown_agrees hb p (h.agrees s)

/-- An echo that wins leaves a record that does not agree. -/
theorem OwnerStateInv.echo (hb : BoxId cfg.localBoxId) (h : OwnerStateInv cfg a)
    (call : AdapterCall) (hecho : EchoWins a call) : ¬ OwnerState (a.step call) := by
  unfold EchoWins at hecho
  split at hecho
  next m =>
    obtain ⟨u, hdec, howner, hroom, hlt⟩ := hecho
    have hwf := decodeUpdateV1_wellFormed hdec
    have hspec := onRemoteMsg_spec h.sound hdec hroom
    have hv := decoded_validFor hdec (workingRecord_subscriberId (s := u.subscriberId) h.sound)
    have hrec : (a.step (.onRemoteMsg m)).recordOf u.subscriberId =
        some (adopt (a.workingRecord u.subscriberId) u) := by
      change (a.onRemoteMsg m).2.recordOf _ = _
      rw [hspec.records, Function.update_self, applyRemoteUpdate_record hv,
        StrictBest.take_of_lt hlt]
    intro hstate
    obtain ⟨i, hused, hi, _⟩ := (recordOf_eq_some hspec.sound).mp hrec
    have hagrees := (hstate i hused).1
    change Agrees (a.onRemoteMsg m).2.cfg.localBoxId
      ((a.onRemoteMsg m).2.table i).record at hagrees
    rw [hspec.cfg, h.config, hi] at hagrees
    exact (adopt_agrees_iff hb hwf.known_owner).mp hagrees (by rw [hwf.owner, howner, h.config])
  · exact hecho.elim

/-- States agree with owners along a run exactly as long as no delivered frame names the
local box and wins. -/
theorem ownerState_iff_no_echo (hb : BoxId cfg.localBoxId) (calls : List AdapterCall) :
    RunRules.Always OwnershipAdapter.step OwnerState (OwnershipAdapter.create cfg) calls ↔
      RunRules.Each OwnershipAdapter.step (fun a call => ¬ EchoWins a call)
        (OwnershipAdapter.create cfg) calls :=
  RunRules.always_iff_each (R := fun _ _ => True) (fun _ h => h.ownerState hb)
    (fun _ call h _ hp => h.step hb call hp)
    (fun _ call h _ hp => h.echo hb call (not_not.mp hp)) (OwnerStateInv.create hb)
    (.of_forall fun _ _ => trivial)

theorem ownerState_iff_no_echo_packet :
    RunRules.Always OwnershipAdapter.step OwnerState (OwnershipAdapter.create ⟨.modeEnforce, 0, 3⟩)
      [.onPacket 7 5, .onPacket 7 6, .onPeerDown 0] :=
  (ownerState_iff_no_echo (Or.inl rfl) _).mpr ⟨id, id, id, trivial⟩

/-- Box 0 is sent a frame that names box 0: the record becomes remote, the owner local. -/
theorem ownerState_fails_on_echo :
    ¬ RunRules.Always OwnershipAdapter.step OwnerState
      (OwnershipAdapter.create ⟨.modeEnforce, 0, 3⟩)
      [.onRemoteMsg (frameBytes (mkUpdate 7 0 1 5 1))] := by
  intro h
  have hstate := h.2 7 (by decide)
  exact absurd hstate.1.onLocal (by decide)

end Subown
