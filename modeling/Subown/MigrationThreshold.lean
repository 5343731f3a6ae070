import Subown.AdapterStep

/-! The migration threshold over whole runs. `remote_packet_counter` should count the misrouted
packets of the present period of remote ownership; the claim and the release of a peer reset it,
an update that is adopted does not. -/
namespace Subown

open OwnershipAdapter RunRules

/-- The packet is answered with the threshold reason. -/
def Reports (a : OwnershipAdapter) (s now : UInt64) : Prop :=
  (a.onPacket s now).out.reason = SubownReason.remoteMigrationThreshold.code

instance (a : OwnershipAdapter) (s now : UInt64) : Decidable (Reports a s now) :=
  inferInstanceAs (Decidable (_ = _))

/-- A packet of `s` finds the record owned by the other box. -/
def FindsRemote (a : OwnershipAdapter) (s : UInt64) : Prop :=
  (a.workingRecord s).ownerBox = peerOf a.cfg.localBoxId

instance (a : OwnershipAdapter) (s : UInt64) : Decidable (FindsRemote a s) :=
  inferInstanceAs (Decidable (_ = _))

/-- The misrouted packets of `s` since the last trigger, after a call. -/
def OwnershipAdapter.recount (a : OwnershipAdapter) (s : UInt64) (n : ℕ) : AdapterCall → ℕ
  | .onPacket t now =>
      if t ≠ s then n
      else if Reports a s now then 0
      else if FindsRemote a s then n + 1
      else n
  | _ => n

/-- An adapter with, for each subscriber, the packets that found its record owned by the other
box since the last trigger or the last change of its owner. -/
structure MisrouteLog where
  adapter : OwnershipAdapter
  seen : UInt64 → ℕ

namespace MisrouteLog

def start (cfg : OwnAdapterCfg) : MisrouteLog := ⟨OwnershipAdapter.create cfg, fun _ => 0⟩

def step (h : MisrouteLog) (call : AdapterCall) : MisrouteLog where
  adapter := h.adapter.step call
  seen s :=
    if ((h.adapter.step call).workingRecord s).ownerBox ≠ (h.adapter.workingRecord s).ownerBox
    then 0
    else h.adapter.recount s (h.seen s) call

end MisrouteLog

/-- A packet reports the threshold exactly when it is the one after `T` misrouted ones. -/
def ThresholdLaw (h : MisrouteLog) : AdapterCall → Prop
  | .onPacket s now => Reports h.adapter s now ↔
      FindsRemote h.adapter s ∧ h.seen s + 1 = h.adapter.cfg.migrationThreshold.toNat + 1
  | _ => True

def NeverReports (h : MisrouteLog) : AdapterCall → Prop
  | .onPacket s now => ¬ Reports h.adapter s now
  | _ => True

/-- The message makes the other box the owner of a record whose counter still holds packets of
an earlier period. -/
def StaleAdoption (a : OwnershipAdapter) : AdapterCall → Prop
  | .onRemoteMsg m => ∃ u, decodeUpdateV1 m = some u ∧ a.Room u.subscriberId ∧
      u.ownerBox = peerOf a.cfg.localBoxId ∧ ¬ FindsRemote a u.subscriberId ∧
      (a.workingRecord u.subscriberId).key < u.key ∧
      (a.workingRecord u.subscriberId).remotePacketCounter ≠ 0
  | _ => False

/-- The counter of the record `r` stands at `n` in a period of remote ownership. -/
structure Counts (cfg : OwnAdapterCfg) (r : SubownRecord) (n : ℕ) : Prop where
  remote : r.ownerBox = peerOf cfg.localBoxId → r.remotePacketCounter.toNat = n
  bound : n ≤ cfg.migrationThreshold.toNat
  others : r.ownerBox ≠ peerOf cfg.localBoxId → n = 0

variable {a : OwnershipAdapter} {cfg : OwnAdapterCfg} {r r' : SubownRecord} {n : ℕ}
  {s now : UInt64} {call : AdapterCall} {h : MisrouteLog}

/-! ### When a packet reports -/

theorem room_of_remote (hs : a.Sound) (hb : BoxId a.cfg.localBoxId) (hf : FindsRemote a s) :
    a.Room s := by
  cases hr : a.recordOf s with
  | some r => exact room_of_some hs hr
  | none =>
      rw [FindsRemote, workingRecord, hr] at hf
      exact absurd hf.symm hb.ne_unowned.2

theorem reports_iff (hs : a.Sound) (hb : BoxId a.cfg.localBoxId)
    (hmode : a.cfg.mode ≠ .modeDisabled) (s now : UInt64) :
    Reports a s now ↔ FindsRemote a s ∧ 0 < a.cfg.migrationThreshold ∧
      a.cfg.migrationThreshold < (a.workingRecord s).remotePacketCounter + 1 := by
  by_cases hroom : a.Room s
  swap
  · have hother : ¬ FindsRemote a s := fun hf => hroom (room_of_remote hs hb hf)
    simp [Reports, onPacket_full hmode hroom, SubownReason.code, hother]
  unfold Reports FindsRemote
  have hspec := onPacket_spec hs hmode hroom now
  have hout := hspec.out
  obtain ⟨ho, e⟩ | ⟨ho, e⟩ | ⟨ho, _, e⟩ | ⟨ho, hfail, e⟩ | ⟨ho, e⟩ :=
    corePacket_cases hb (a.workingRecord s) now a.emitStatus
  · rw [e] at hout
    simp [(hout rfl).1, SubownReason.code, ho, hb.ne_peer]
  · rw [e] at hout
    rw [(hout rfl).1]
    unfold misroute
    split_ifs with htrigger
    · exact iff_of_true rfl ⟨ho, htrigger⟩
    · exact iff_of_false (by simp [SubownReason.code]) fun hl => htrigger hl.2
  · rw [e] at hout
    simp [(hout rfl).1, SubownReason.code, ho, hb.ne_unowned.2.symm]
  · obtain ⟨t, -, hreply⟩ := onPacket_eq hs hmode hroom now
    rw [e] at hreply
    simp [hreply, outcomeReply, SubownReason.code, ho, hb.ne_unowned.2.symm]
  · have hpeer : (a.workingRecord s).ownerBox ≠ peerOf a.cfg.localBoxId := fun hp =>
      ho (hp ▸ hb.peer_known)
    rw [e] at hout
    simp [(hout rfl).1, SubownReason.code, hpeer]

/-! ### One record -/

theorem counts_fresh (hb : BoxId cfg.localBoxId) (s : UInt64) : Counts cfg (freshRecord s) 0 where
  remote hp := absurd hp.symm hb.ne_unowned.2
  bound := Nat.zero_le _
  others _ := rfl

theorem Counts.congr (hc : Counts cfg r n) (howner : r'.ownerBox = r.ownerBox)
    (hcounter : r'.remotePacketCounter = r.remotePacketCounter) : Counts cfg r' n := by
  constructor
  · rw [howner, hcounter]
    exact hc.remote
  · exact hc.bound
  · rw [howner]
    exact hc.others

/-- A change of the owner starts a period: the counter must be zero if the peer is the owner. -/
theorem Counts.restart (hzero : r.ownerBox = peerOf cfg.localBoxId → r.remotePacketCounter = 0) :
    Counts cfg r 0 where
  remote hp := by
    rw [hzero hp]
    rfl
  bound := Nat.zero_le _
  others _ := rfl

/-- In a period of remote ownership the counter has room for one more packet. -/
theorem Counts.next (hc : Counts cfg r n) (hp : r.ownerBox = peerOf cfg.localBoxId)
    (hmax : cfg.migrationThreshold < 0xFFFFFFFFFFFFFFFF) :
    (r.remotePacketCounter + 1).toNat = n + 1 := by
  have hn := hc.remote hp
  have hle := hc.bound
  have hlt : cfg.migrationThreshold.toNat < 0xFFFFFFFFFFFFFFFF := UInt64.lt_iff_toNat_lt.mp hmax
  rw [UInt64.toNat_add, hn]
  exact Nat.mod_eq_of_lt (by change n + 1 < 2 ^ 64; omega)

/-- While the counter is right, it passes the threshold with the packet after `T` others. -/
theorem Counts.trigger_iff (hc : Counts cfg r n) (hp : r.ownerBox = peerOf cfg.localBoxId)
    (hmax : cfg.migrationThreshold < 0xFFFFFFFFFFFFFFFF) :
    cfg.migrationThreshold < r.remotePacketCounter + 1 ↔ n = cfg.migrationThreshold.toNat := by
  have hle := hc.bound
  rw [UInt64.lt_iff_toNat_lt, hc.next hp hmax]
  omega

/-- The count `n` carried over a step that leaves the record `r'`. -/
def carriedCount (r r' : SubownRecord) (n : ℕ) : ℕ := if r'.ownerBox ≠ r.ownerBox then 0 else n

theorem carriedCount_same (howner : r'.ownerBox = r.ownerBox) : carriedCount r r' n = n :=
  if_neg (not_not.mpr howner)

theorem Counts.carry (hc : Counts cfg r n) (howner : r'.ownerBox = r.ownerBox)
    (hcounter : r'.remotePacketCounter = r.remotePacketCounter) :
    Counts cfg r' (carriedCount r r' n) := by
  rw [carriedCount_same howner]
  exact hc.congr howner hcounter

theorem Counts.change (howner : r'.ownerBox ≠ r.ownerBox)
    (hzero : r'.ownerBox = peerOf cfg.localBoxId → r'.remotePacketCounter = 0) :
    Counts cfg r' (carriedCount r r' n) := by
  rw [carriedCount, if_pos howner]
  exact .restart hzero

/-- A misrouted packet is counted, or it triggers and the count starts again. -/
theorem counts_misroute (hc : Counts cfg r n) (hp : r.ownerBox = peerOf cfg.localBoxId)
    (hpos : 0 < cfg.migrationThreshold) (hmax : cfg.migrationThreshold < 0xFFFFFFFFFFFFFFFF) :
    Counts cfg (misroute r cfg.migrationThreshold).1
      (if cfg.migrationThreshold < r.remotePacketCounter + 1 then 0 else n + 1) := by
  unfold misroute
  by_cases htrigger : cfg.migrationThreshold < r.remotePacketCounter + 1
  · rw [if_pos ⟨hpos, htrigger⟩, if_pos htrigger]
    exact .restart fun _ => rfl
  · rw [if_neg fun hl => htrigger hl.2, if_neg htrigger]
    refine ⟨fun _ => hc.next hp hmax, ?_, fun hne => absurd hp hne⟩
    have hle := hc.bound
    have hne : n ≠ cfg.migrationThreshold.toNat := fun hn =>
      htrigger ((hc.trigger_iff hp hmax).mpr hn)
    omega

theorem counts_remote (hc : Counts cfg r n) {u : SubownUpdate} (hv : ValidFor r u)
    (hstale : u.owner = peerOf cfg.localBoxId → r.ownerBox ≠ peerOf cfg.localBoxId →
      r.key < u.key → r.remotePacketCounter = 0) :
    Counts cfg (applyRemoteUpdate r u).record
      (carriedCount r (applyRemoteUpdate r u).record n) := by
  rw [applyRemoteUpdate_record hv]
  by_cases hlt : r.key < u.key
  · rw [StrictBest.take_of_lt hlt]
    by_cases howner : u.owner = r.ownerBox
    · exact hc.carry howner rfl
    · exact .change howner fun hp => hstale hp (fun hr => howner (hp.trans hr.symm)) hlt
  · rw [StrictBest.take_of_le (not_lt.mp hlt)]
    exact hc.carry rfl rfl

theorem counts_peerDown (hb : BoxId cfg.localBoxId) (hc : Counts cfg r n) (p : UInt8) :
    Counts cfg (peerDownRecord p r) (carriedCount r (peerDownRecord p r) n) := by
  unfold peerDownRecord
  by_cases hp : r.ownerBox = p
  · rw [if_pos hp]
    by_cases hun : r.ownerBox = unownedState
    · have hn : n = 0 := hc.others (hun ▸ hb.ne_unowned.2.symm)
      rw [carriedCount_same hun.symm, hn]
      exact .restart fun _ => rfl
    · exact .change (Ne.symm hun) fun _ => rfl
  · rw [if_neg hp]
    exact hc.carry rfl rfl

/-! ### Runs -/

theorem Grounded.reports (hg : Grounded cfg a) (hb : BoxId cfg.localBoxId)
    (hmode : cfg.mode ≠ .modeDisabled) (s now : UInt64) :
    Reports a s now ↔ FindsRemote a s ∧ 0 < cfg.migrationThreshold ∧
      cfg.migrationThreshold < (a.workingRecord s).remotePacketCounter + 1 := by
  have hreports := reports_iff hg.sound (hg.boxId hb) (hg.mode hmode) s now
  rwa [hg.config] at hreports

theorem Grounded.neverReports (hg : Grounded cfg h.adapter) (hb : BoxId cfg.localBoxId)
    (hmode : cfg.mode ≠ .modeDisabled) (hzero : cfg.migrationThreshold = 0) (call : AdapterCall) :
    NeverReports h call := by
  unfold NeverReports
  split
  · intro hreports
    have hpos := ((hg.reports hb hmode _ _).mp hreports).2.1
    rw [hzero] at hpos
    exact absurd hpos (by decide)
  · trivial

structure MisrouteInv (cfg : OwnAdapterCfg) (h : MisrouteLog) : Prop
    extends Grounded cfg h.adapter where
  counts : ∀ s, Counts cfg (h.adapter.workingRecord s) (h.seen s)

theorem MisrouteInv.start (hb : BoxId cfg.localBoxId) :
    MisrouteInv cfg (MisrouteLog.start cfg) where
  toGrounded := .create cfg
  counts s := by
    change Counts cfg ((OwnershipAdapter.create cfg).workingRecord s) 0
    rw [create_workingRecord]
    exact counts_fresh hb s

theorem seen_step (h : MisrouteLog) (call : AdapterCall) (s : UInt64) :
    (h.step call).seen s = carriedCount (h.adapter.workingRecord s)
      ((h.adapter.step call).workingRecord s) (h.adapter.recount s (h.seen s) call) := rfl

section Step

variable (hb : BoxId cfg.localBoxId) (hmode : cfg.mode ≠ .modeDisabled) (hi : MisrouteInv cfg h)
include hb hmode hi

/-- A packet that does not find the peer as owner leaves the count alone. -/
theorem MisrouteInv.recount_other (hs : ¬ FindsRemote h.adapter s) :
    h.adapter.recount s n call = n := by
  unfold recount
  split
  · have hreports : ∀ now, ¬ Reports h.adapter s now := fun now hr =>
      hs ((hi.toGrounded.reports hb hmode s now).mp hr).1
    simp [hs, hreports]
  · rfl

variable (hpos : 0 < cfg.migrationThreshold) (hmax : cfg.migrationThreshold < 0xFFFFFFFFFFFFFFFF)
include hpos hmax

theorem MisrouteInv.law (call : AdapterCall) : ThresholdLaw h call := by
  unfold ThresholdLaw
  split
  · rw [hi.toGrounded.reports hb hmode, hi.config, Nat.succ_inj]
    refine and_congr_right fun hp => ?_
    rw [FindsRemote, hi.config] at hp
    rw [(hi.counts _).trigger_iff hp hmax]
    exact and_iff_right hpos
  · trivial

/-- A packet counts, triggers or ends the period with a claim. -/
theorem MisrouteInv.packet (hroom : h.adapter.Room s) (now : UInt64) :
    Counts cfg ((h.step (.onPacket s now)).adapter.workingRecord s)
      ((h.step (.onPacket s now)).seen s) := by
  have hc := hi.counts s
  have hba := hi.boxId hb
  have hspec := onPacket_spec hi.sound (hi.mode hmode) hroom now
  have hrecord : (h.adapter.step (.onPacket s now)).workingRecord s =
      (corePacket cfg (h.adapter.workingRecord s) now h.adapter.emitStatus).record := by
    apply workingRecord_of_some
    change (h.adapter.onPacket s now).adapter.recordOf s = _
    rw [hspec.records, Function.update_self, hi.config]
  have hreports := hi.toGrounded.reports hb hmode s now
  have hfinds : FindsRemote h.adapter s ↔
      (h.adapter.workingRecord s).ownerBox = peerOf cfg.localBoxId := by
    rw [FindsRemote, hi.config]
  rw [seen_step, hrecord]
  change Counts cfg ((h.adapter.step (.onPacket s now)).workingRecord s) _
  rw [hrecord]
  obtain ⟨ho, e⟩ | ⟨ho, e⟩ | ⟨ho, _, e⟩ | ⟨ho, _, e⟩ | ⟨ho, e⟩ :=
    corePacket_cases hb (h.adapter.workingRecord s) now h.adapter.emitStatus
  · have hother : ¬ FindsRemote h.adapter s := by
      rw [hfinds, ho]
      exact hb.ne_peer
    rw [e, hi.recount_other hb hmode hother]
    exact hc.carry rfl rfl
  · rw [hfinds, and_iff_right ho, and_iff_right hpos] at hreports
    have hcount : h.adapter.recount s (h.seen s) (.onPacket s now) =
        if cfg.migrationThreshold < (h.adapter.workingRecord s).remotePacketCounter + 1 then 0
        else h.seen s + 1 := by
      simp [recount, hreports, hfinds, ho]
    obtain ⟨c, hframe⟩ := misroute_frame (h.adapter.workingRecord s) cfg.migrationThreshold
    have hsame : (misroute (h.adapter.workingRecord s) cfg.migrationThreshold).1.ownerBox =
        (h.adapter.workingRecord s).ownerBox := by rw [hframe]
    rw [e, hcount, carriedCount_same hsame]
    exact counts_misroute hc ho hpos hmax
  · rw [e]
    exact .change (fun hsame => hb.ne_unowned.1 (hsame.trans ho)) fun _ => rfl
  · rw [e]
    exact .change (fun hsame => hb.ne_unowned.1 (hsame.trans ho)) fun _ => rfl
  · have hother : ¬ FindsRemote h.adapter s := fun hp =>
      ho (hfinds.mp hp ▸ hb.peer_known)
    rw [e, hi.recount_other hb hmode hother]
    exact hc.carry rfl rfl

theorem MisrouteInv.step (call : AdapterCall) (hstale : ¬ StaleAdoption h.adapter call) :
    MisrouteInv cfg (h.step call) := by
  refine ⟨hi.toGrounded.step call, fun s => ?_⟩
  have hc := hi.counts s
  have hspec := step_spec hi.sound call
  by_cases hpacket : ∃ now, call = .onPacket s now
  · obtain ⟨now, rfl⟩ := hpacket
    by_cases hroom : h.adapter.Room s
    · exact hi.packet hb hmode hpos hmax hroom now
    · have hother : ¬ FindsRemote h.adapter s := fun hf =>
        hroom (room_of_remote hi.sound (hi.boxId hb) hf)
      have hstep : h.adapter.step (.onPacket s now) = h.adapter := onPacket_idle (Or.inr hroom) now
      rw [seen_step, hi.recount_other hb hmode hother]
      change Counts cfg ((h.adapter.step (.onPacket s now)).workingRecord s) _
      rw [hstep]
      exact hc.carry rfl rfl
  have hrecount : h.adapter.recount s (h.seen s) call = h.seen s := by
    unfold recount
    split
    next t now => exact if_pos fun e => hpacket ⟨now, by rw [e]⟩
    · rfl
  rw [seen_step, hrecount]
  change Counts cfg ((h.adapter.step call).workingRecord s) _
  obtain hw | ⟨c, he, hw⟩ | ⟨p, he, hw⟩ := hspec.working_cases s
  · rw [hw]
    exact hc.carry rfl rfl
  · obtain ⟨now, rfl, _⟩ | ⟨m, u, rfl, hdec, hroom, rfl, rfl⟩ := effect_core he
    · exact absurd ⟨now, rfl⟩ hpacket
    · rw [hw]
      refine counts_remote hc (decoded_validFor hdec (workingRecord_subscriberId hi.sound)) ?_
      intro howner hother hlt
      by_contra hne
      rw [(decodeUpdateV1_wellFormed hdec).owner] at howner
      refine hstale ⟨u, hdec, hroom, ?_, ?_, hlt, hne⟩
      · rw [hi.config, howner]
      · rw [FindsRemote, hi.config]
        exact hother
  · rw [hw]
    exact counts_peerDown hb hc p

end Step

/-- In a run whose messages never hand the peer a record with a left-over counter, a packet
reports the threshold exactly when it is the one after `T` misrouted packets; without a threshold
no packet reports it. -/
theorem threshold_without_stale_adoption (hb : BoxId cfg.localBoxId)
    (hmode : cfg.mode ≠ .modeDisabled) (calls : List AdapterCall) :
    (0 < cfg.migrationThreshold → cfg.migrationThreshold < 0xFFFFFFFFFFFFFFFF →
      Each MisrouteLog.step (fun h call => ¬ StaleAdoption h.adapter call)
        (MisrouteLog.start cfg) calls →
      Each MisrouteLog.step ThresholdLaw (MisrouteLog.start cfg) calls) ∧
    (cfg.migrationThreshold = 0 →
      Each MisrouteLog.step NeverReports (MisrouteLog.start cfg) calls) := by
  constructor
  · intro hpos hmax hcalls
    exact each_of_inv (fun _ call hi _ => hi.law hb hmode hpos hmax call)
      (fun _ call hi hstale => hi.step hb hmode hpos hmax call hstale) (MisrouteInv.start hb) hcalls
  · intro hzero
    exact each_of_inv (P := fun _ _ => True)
      (fun _ call (hg : Grounded cfg _) _ => hg.neverReports hb hmode hzero call)
      (fun _ call hg _ => hg.step call) (Grounded.create cfg) (.of_forall fun _ _ => trivial)

theorem threshold_without_stale_adoption_second :
    Each MisrouteLog.step ThresholdLaw (MisrouteLog.start ⟨.modeEnforce, 0, 1⟩)
      [.onRemoteMsg (frameBytes (mkUpdate 7 1 1 5 1)), .onPacket 7 6, .onPacket 7 7] :=
  (threshold_without_stale_adoption (Or.inl rfl) (by decide) _).1 (by decide) (by decide)
    ⟨fun ⟨_, _, _, _, _, _, hcounter⟩ => hcounter (congrArg _ (create_workingRecord _ _)),
      id, id, trivial⟩

/-- Box 1 owns subscriber 7, one packet is misrouted, box 1 gives it up and takes it again: the
next packet is the first of its period and triggers a migration. -/
theorem early_trigger_after_stale_adoption :
    ¬ ∀ cfg : OwnAdapterCfg, BoxId cfg.localBoxId → cfg.mode ≠ .modeDisabled →
      0 < cfg.migrationThreshold → cfg.migrationThreshold < 0xFFFFFFFFFFFFFFFF →
      ∀ calls, Each MisrouteLog.step ThresholdLaw (MisrouteLog.start cfg) calls := by
  intro h
  have hlaw := (h ⟨.modeEnforce, 0, 1⟩ (Or.inl rfl) (by decide) (by decide) (by decide)
    [.onRemoteMsg (frameBytes (mkUpdate 7 1 1 5 1)), .onPacket 7 6,
      .onRemoteMsg (frameBytes (mkUpdate 7 0xFF 2 7 1)),
      .onRemoteMsg (frameBytes (mkUpdate 7 1 3 8 1)), .onPacket 7 9]).2.2.2.2.1
  exact absurd (hlaw.mp (by decide)).2 (by decide)

end Subown
