import Subown.AdapterStep

/-! Representation invariant of the record table: the redundant fields of every used record
agree, in every state a run reaches. -/
namespace Subown

open OwnershipAdapter RunRules

/-- The fields of a record fit together for the adapter that holds it. -/
structure Represented (cfg : OwnAdapterCfg) (r : SubownRecord) : Prop where
  ownerBoxId : r.ownerBoxId = r.ownerBox.toUInt16
  known : KnownOwner r.ownerBox
  timestamp : r.timestamp = r.activationTs
  unowned : r.state = .stateUnowned ↔ r.ownerBox = unownedState
  settled : r.state ≠ .stateMigrating
  localOwner : r.state = .stateLocal → r.ownerBox = cfg.localBoxId
  epoch : 1 ≤ r.ownerEpoch
  counter : 0 < cfg.migrationThreshold → r.remotePacketCounter ≤ cfg.migrationThreshold

/-- Every used record of the table is well represented. -/
def RecordShape (a : OwnershipAdapter) : Prop :=
  ∀ i, (a.table i).used = true → Represented a.cfg (a.table i).record

/-- The packet counts a misroute and the 64-bit counter wraps. -/
def CounterWraps (a : OwnershipAdapter) : AdapterCall → Prop
  | .onPacket s _ => a.cfg.mode ≠ .modeDisabled ∧ a.Room s ∧
      (a.workingRecord s).ownerBox = peerOf a.cfg.localBoxId ∧
      (a.workingRecord s).remotePacketCounter + 1 = 0
  | _ => False

variable {a : OwnershipAdapter} {cfg : OwnAdapterCfg} {r : SubownRecord} {s now : UInt64}

/-! ### Records -/

theorem fresh_represented (cfg : OwnAdapterCfg) (s : UInt64) : Represented cfg (freshRecord s) where
  ownerBoxId := rfl
  known := Or.inr (Or.inr rfl)
  timestamp := rfl
  unowned := iff_of_true rfl rfl
  settled := by simp [freshRecord]
  localOwner := by simp [freshRecord]
  epoch := UInt32.le_refl 1
  counter h := UInt64.le_of_lt h

/-- A claim rewrites every field it is redundant with. -/
theorem claimed_represented (hb : BoxId cfg.localBoxId) (h : Represented cfg r) (now : UInt64) :
    Represented cfg (claimedRecord r cfg.localBoxId now) where
  ownerBoxId := rfl
  known := hb.known
  timestamp := rfl
  unowned := iff_of_false (by simp [claimedRecord]) hb.ne_unowned.1
  settled := by simp [claimedRecord]
  localOwner _ := rfl
  epoch := h.epoch
  counter hpos := UInt64.le_of_lt hpos

theorem misroute_represented (h : Represented cfg r) :
    Represented cfg (misroute r cfg.migrationThreshold).1 := by
  unfold misroute
  split_ifs with htrigger
  · exact { h with counter := fun hpos => UInt64.le_of_lt hpos }
  · exact { h with counter := fun hpos => UInt64.not_lt.mp fun hlt => htrigger ⟨hpos, hlt⟩ }

theorem packet_represented (hb : BoxId cfg.localBoxId) (h : Represented cfg r) (now : UInt64)
    (emitted : SubownStatus) : Represented cfg (corePacket cfg r now emitted).record := by
  obtain ⟨_, e⟩ | ⟨_, e⟩ | ⟨_, _, e⟩ | ⟨_, _, e⟩ | ⟨_, e⟩ := corePacket_cases hb r now emitted
  · rw [e]
    exact { h with }
  · rw [e]
    exact misroute_represented h
  · rw [e]
    exact claimed_represented hb h now
  · rw [e]
    exact claimed_represented hb h now
  · rw [e]
    exact h

/-- What wins carries an epoch that is no smaller. -/
theorem adopt_represented (h : Represented cfg r) {u : SubownUpdate} (hu : KnownOwner u.owner)
    (hepoch : r.ownerEpoch ≤ u.ownerEpoch) : Represented cfg (adopt r u) where
  ownerBoxId := rfl
  known := hu
  timestamp := rfl
  unowned := by
    simp only [adopt]
    split_ifs with hun <;> simp [hun]
  settled := by
    simp only [adopt]
    split_ifs <;> simp
  localOwner := by
    simp only [adopt]
    split_ifs <;> simp
  epoch := UInt32.le_trans h.epoch hepoch
  counter := h.counter

theorem remote_represented (h : Represented cfg r) {u : SubownUpdate} (hv : ValidFor r u)
    (hu : KnownOwner u.owner) : Represented cfg (applyRemoteUpdate r u).record := by
  rw [applyRemoteUpdate_record hv]
  by_cases hlt : r.key < u.key
  · rw [StrictBest.take_of_lt hlt]
    apply adopt_represented h hu
    obtain hepoch | ⟨hepoch, _⟩ := resolverKey_lt.mp hlt
    · exact UInt32.le_of_lt hepoch
    · exact UInt32.le_of_eq hepoch
  · rw [StrictBest.take_of_le (not_lt.mp hlt)]
    exact h

theorem peerDown_represented (h : Represented cfg r) (p : UInt8) :
    Represented cfg (peerDownRecord p r) := by
  unfold peerDownRecord
  split_ifs
  · exact {
      ownerBoxId := rfl
      known := Or.inr (Or.inr rfl)
      timestamp := h.timestamp
      unowned := iff_of_true rfl rfl
      settled := by simp [releaseRecord]
      localOwner := by simp [releaseRecord]
      epoch := h.epoch
      counter := fun hpos => UInt64.le_of_lt hpos }
  · exact h

/-! ### Runs -/

structure ShapeInv (cfg : OwnAdapterCfg) (a : OwnershipAdapter) : Prop extends Grounded cfg a where
  represented : ∀ s, Represented cfg (a.workingRecord s)

theorem ShapeInv.create (cfg : OwnAdapterCfg) : ShapeInv cfg (OwnershipAdapter.create cfg) where
  toGrounded := .create cfg
  represented s := by
    rw [create_workingRecord]
    exact fresh_represented cfg s

theorem ShapeInv.step (hb : BoxId cfg.localBoxId) (h : ShapeInv cfg a) (call : AdapterCall) :
    ShapeInv cfg (a.step call) := by
  have hcfg := h.config
  have hspec := step_spec h.sound call
  refine ⟨h.toGrounded.step call, ?_⟩
  refine hspec.forall_working (I := fun _ r => Represented cfg r) h.represented ?_ ?_
  · intro s c he
    obtain ⟨now, rfl, _, _, rfl⟩ | ⟨m, u, rfl, hdec, hroom, rfl, rfl⟩ := effect_core he
    · rw [hcfg]
      exact packet_represented hb (h.represented s) now _
    · exact remote_represented (h.represented _)
        (decoded_validFor hdec (workingRecord_subscriberId h.sound))
        (decodeUpdateV1_wellFormed hdec).known_owner
  · intro p _ s
    exact peerDown_represented (h.represented s) p

theorem ShapeInv.recordShape (h : ShapeInv cfg a) : RecordShape a := by
  intro i hi
  have hrep := h.represented (a.table i).record.subscriberId
  rw [workingRecord_of_some (recordOf_used h.sound hi)] at hrep
  rw [h.config]
  exact hrep

/-- A counter bounded by a threshold below the maximum has room for one more packet. -/
theorem ShapeInv.no_wrap (h : ShapeInv cfg a) (hpos : 0 < cfg.migrationThreshold)
    (hmax : cfg.migrationThreshold < 0xFFFFFFFFFFFFFFFF) (call : AdapterCall) :
    ¬ CounterWraps a call := by
  unfold CounterWraps
  split
  next s now =>
    rintro ⟨_, _, _, hzero⟩
    have hle := (h.represented s).counter hpos
    grind
  · exact id

/-- The representation invariant holds in every state reached, and below the maximal threshold
no packet wraps the counter. -/
theorem record_shape (hb : BoxId cfg.localBoxId) (calls : List AdapterCall) :
    Always OwnershipAdapter.step RecordShape (OwnershipAdapter.create cfg) calls ∧
      (0 < cfg.migrationThreshold → cfg.migrationThreshold < 0xFFFFFFFFFFFFFFFF →
        Each OwnershipAdapter.step (fun a call => ¬ CounterWraps a call)
          (OwnershipAdapter.create cfg) calls) := by
  constructor
  · exact always_of_inv (P := fun _ _ => True) (fun _ h => h.recordShape)
      (fun _ call h _ => h.step hb call) (ShapeInv.create cfg) (.of_forall fun _ _ => trivial)
  · intro hpos hmax
    exact each_of_inv (P := fun _ _ => True) (fun _ call h _ => h.no_wrap hpos hmax call)
      (fun _ call h _ => h.step hb call) (ShapeInv.create cfg) (.of_forall fun _ _ => trivial)

/-- Box 0 hears that box 1 owns subscriber 7 and gets a packet of it. -/
def misroutedCalls : List AdapterCall :=
  [.onPacket 8 5, .onRemoteMsg (frameBytes (mkUpdate 7 1 1 5 1)), .onPacket 7 6]

theorem record_shape_misroute :
    (((OwnershipAdapter.create ⟨.modeObserve, 0, 2⟩).run misroutedCalls).workingRecord
        7).remotePacketCounter = 1 ∧
      Always OwnershipAdapter.step RecordShape (OwnershipAdapter.create ⟨.modeObserve, 0, 2⟩)
        misroutedCalls ∧
      ((0 : UInt64) < 2 → (2 : UInt64) < 0xFFFFFFFFFFFFFFFF →
        Each OwnershipAdapter.step (fun a call => ¬ CounterWraps a call)
          (OwnershipAdapter.create ⟨.modeObserve, 0, 2⟩) misroutedCalls) :=
  ⟨by decide, record_shape (Or.inl rfl) misroutedCalls⟩

/-! ### The maximal threshold -/

theorem misroute_max (r : SubownRecord) :
    (misroute r 0xFFFFFFFFFFFFFFFF).1 =
      { r with remotePacketCounter := r.remotePacketCounter + 1 } := by
  have hnever : ¬ ((0xFFFFFFFFFFFFFFFF : UInt64) > 0 ∧
      r.remotePacketCounter + 1 > 0xFFFFFFFFFFFFFFFF) := by grind
  unfold misroute
  rw [if_neg hnever]

/-- Under the maximal threshold nothing ever triggers, and every packet of a subscriber the
peer owns counts. -/
theorem counter_run (hb : BoxId cfg.localBoxId) (hmode : cfg.mode ≠ .modeDisabled)
    (hmax : cfg.migrationThreshold = 0xFFFFFFFFFFFFFFFF) (n : ℕ) (ha : Grounded cfg a)
    (hr : a.recordOf s = some r) (howner : r.ownerBox = peerOf cfg.localBoxId) :
    (a.run (List.replicate n (.onPacket s now))).recordOf s =
      some { r with remotePacketCounter := r.remotePacketCounter + UInt64.ofNat n } := by
  induction n generalizing a r with
  | zero => simpa using hr
  | succ n ih =>
      have hstep : (a.step (.onPacket s now)).recordOf s =
          some { r with remotePacketCounter := r.remotePacketCounter + 1 } := by
        have hspec := step_spec ha.sound (.onPacket s now)
        rw [effect_onPacket (ha.mode hmode) (room_of_some ha.sound hr)] at hspec
        rw [hspec.core_same, workingRecord_of_some hr, CoreCall.apply, ha.config, corePacket,
          processPacketEvent_remote hb howner, hmax, misroute_max]
      change ((a.step _).run (List.replicate n _)).recordOf s = _
      rw [ih (ha.step _) hstep howner, Nat.add_comm n 1, UInt64.ofNat_add]
      simp [UInt64.add_assoc]

/-- A box 1 record at box 0 and 2^64 packets for it: the last one wraps the counter. -/
theorem counter_wraps_at_max :
    ¬ ∀ cfg : OwnAdapterCfg, BoxId cfg.localBoxId → ∀ calls : List AdapterCall,
      Always OwnershipAdapter.step RecordShape (OwnershipAdapter.create cfg) calls ∧
        (0 < cfg.migrationThreshold → Each OwnershipAdapter.step
          (fun a call => ¬ CounterWraps a call) (OwnershipAdapter.create cfg) calls) := by
  intro h
  let cfg : OwnAdapterCfg := ⟨.modeEnforce, 0, 0xFFFFFFFFFFFFFFFF⟩
  let claim := AdapterCall.onRemoteMsg (frameBytes (mkUpdate 7 1 1 5 1))
  let packet := AdapterCall.onPacket 7 6
  obtain ⟨n, hn⟩ : ∃ n : ℕ, UInt64.ofNat n + 1 = 0 := ⟨0xFFFFFFFFFFFFFFFF, by decide⟩
  have hrun := (h cfg (Or.inl rfl) (claim :: (List.replicate n packet ++ [packet]))).2 (by decide)
  have hlast := (each_append.mp hrun.2).2.1
  have hg : Grounded cfg ((OwnershipAdapter.create cfg).step claim) := (Grounded.create cfg).step _
  have hspec := step_spec (create_sound cfg) claim
  have heffect : (OwnershipAdapter.create cfg).effect claim =
      .core 7 (.remote (mkUpdate 7 1 1 5 1)) := by
    have hdec : decodeUpdateV1 (frameBytes (mkUpdate 7 1 1 5 1)) = some (mkUpdate 7 1 1 5 1) := by
      decide
    have hroom : (OwnershipAdapter.create cfg).Room 7 := by decide
    exact effect_remote hdec hroom
  rw [heffect] at hspec
  have hrecord := hspec.core_same
  rw [create_workingRecord] at hrecord
  have howner : (applyRemoteUpdate (freshRecord 7) (mkUpdate 7 1 1 5 1)).record.ownerBox =
      peerOf cfg.localBoxId := by decide
  have hcount : (((OwnershipAdapter.create cfg).step claim).run
      (List.replicate n packet)).recordOf 7 = _ :=
    counter_run (Or.inl rfl) (by decide) rfl n hg hrecord howner
  have hreached := hg.run (List.replicate n packet)
  refine hlast ⟨hreached.mode (by decide), room_of_some hreached.sound hcount, ?_, ?_⟩
  · rw [workingRecord_of_some hcount, hreached.config]
    exact howner
  · rw [workingRecord_of_some hcount]
    change 0 + UInt64.ofNat n + 1 = 0
    rw [UInt64.zero_add, hn]

end Subown
