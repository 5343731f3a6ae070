import Subown.SimArgs
import Subown.ZmqSockets

/-! The main loop of `box_sim.c`. A tick is one iteration as the environment sees it: the
time of a claim and the messages that have reached the SUB socket since the last one.
Printing and sleeping are left out. -/
namespace Subown

open CStrings RunRules

variable {σ : Type*}

/-- `should_claim_on_iter`. -/
def shouldClaimOnIter (cfg : SimCfg) (iter : UInt32) (claimedOnce : Bool) : Bool :=
  if cfg.claimAt.length > 0 then cfg.claimAt.contains iter
  else
    match cfg.claimMode with
    | .claimModePeriodic => iter % cfg.claimEvery = 0
    | .claimModeOnce => !claimedOnce && iter = cfg.claimEvery
    | .claimModeOff => false

/-- The variables of `main`; `pending` is the queue of the SUB socket. -/
structure SimMain (σ : Type*) extends SimState σ where
  i : UInt32
  pending : List (List UInt8)
  recvTotal : UInt64
  recvDroppedFault : UInt64
  applyRemoteTotal : UInt64
  keepLocalTotal : UInt64
  noopTotal : UInt64

structure SimTick where
  now : UInt64
  arrived : List (List UInt8)

namespace SimMain

/-- Before the first iteration; `result` is whatever the stack holds. -/
def start (cfg : SimCfg) (now : UInt64) (result : SubownResult) (adapter : σ) : SimMain σ where
  record := simRecord cfg.subscriberId now cfg.ownerEpoch
  result := result
  adapter := adapter
  claimedOnce := false
  claimsTotal := 0
  emitsTotal := 0
  i := 1
  pending := []
  recvTotal := 0
  recvDroppedFault := 0
  applyRemoteTotal := 0
  keepLocalTotal := 0
  noopTotal := 0

/-- What the loop does with a message that was received and decoded. -/
def receiveOne (cfg : SimCfg) (st : SimMain σ) (incoming : SubownUpdate) : SimMain σ :=
  let st := { st with recvTotal := st.recvTotal + 1 }
  if cfg.dropIncomingEvery > 0 ∧ st.recvTotal % cfg.dropIncomingEvery.toUInt64 = 0 then
    { st with recvDroppedFault := st.recvDroppedFault + 1 }
  else
    let applied := applyRemoteUpdate st.record incoming
    let st := { st with record := applied.record, result := applied.out }
    if applied.out.decision = .applyRemote then
      { st with applyRemoteTotal := st.applyRemoteTotal + 1 }
    else if applied.out.decision = .keepLocal then
      { st with keepLocalTotal := st.keepLocalTotal + 1 }
    else { st with noopTotal := st.noopTotal + 1 }

/-- The `do` loop on the messages the socket holds. A message that does not decode ends it and
leaves the rest to the next iteration. -/
def receiveLoop (cfg : SimCfg) : SimMain σ → List (List UInt8) → SimMain σ
  | st, [] => { st with pending := [] }
  | st, message :: rest =>
      match zmqRecvUpdate message with
      | none => { st with pending := rest }
      | some incoming => receiveLoop cfg (st.receiveOne cfg incoming) rest

/-- The claim of an iteration that makes one. -/
def claimStep (cfg : SimCfg) (zmqSend : Frame → σ → Int × σ) (now : UInt64) (st : SimMain σ) :
    SimMain σ :=
  if shouldClaimOnIter cfg st.i st.claimedOnce then
    { st with toSimState := claimIteration zmqSend cfg.boxId cfg.emitDupCount now st.toSimState }
  else st

def iteration (cfg : SimCfg) (zmqSend : Frame → σ → Int × σ) (st : SimMain σ) (tick : SimTick) :
    SimMain σ :=
  let st := receiveLoop cfg (st.claimStep cfg zmqSend tick.now) (st.pending ++ tick.arrived)
  { st with i := st.i + 1 }

/-- The condition of the `for` loop. -/
def Running (cfg : SimCfg) (st : SimMain σ) : Prop := st.i ≤ cfg.iterations

instance (cfg : SimCfg) (st : SimMain σ) : Decidable (st.Running cfg) :=
  inferInstanceAs (Decidable (st.i ≤ cfg.iterations))

end SimMain

/-- The loop with what went into it: the iterations so far, the messages that reached the
socket and those the loop took from it. -/
structure SimHistory (σ : Type*) where
  main : SimMain σ
  ran : ℕ
  arrived : List (List UInt8)
  consumed : List (List UInt8)

/-- The messages the loop takes: up to the first one that does not decode. -/
def consumedFrom : List (List UInt8) → List (List UInt8)
  | [] => []
  | message :: rest =>
      if zmqRecvUpdate message = none then [message] else message :: consumedFrom rest

namespace SimHistory

def start (cfg : SimCfg) (now : UInt64) (result : SubownResult) (adapter : σ) : SimHistory σ :=
  ⟨.start cfg now result adapter, 0, [], []⟩

def step (cfg : SimCfg) (zmqSend : Frame → σ → Int × σ) (h : SimHistory σ) (tick : SimTick) :
    SimHistory σ :=
  if h.main.Running cfg then
    ⟨h.main.iteration cfg zmqSend tick, h.ran + 1, h.arrived ++ tick.arrived,
      h.consumed ++ consumedFrom (h.main.pending ++ tick.arrived)⟩
  else h

end SimHistory

/-- What `--claim-mode` asks for without `--claim-at`. -/
def ClaimMode.Due (claimEvery iter : ℕ) : ClaimMode → Prop
  | .claimModePeriodic => claimEvery ∣ iter
  | .claimModeOnce => iter = claimEvery
  | .claimModeOff => False

instance (claimEvery iter : ℕ) : ∀ mode, Decidable (ClaimMode.Due claimEvery iter mode)
  | .claimModePeriodic => inferInstanceAs (Decidable (claimEvery ∣ iter))
  | .claimModeOnce => inferInstanceAs (Decidable (iter = claimEvery))
  | .claimModeOff => .isFalse id

/-- The iterations the options ask claims of. -/
def Scheduled (cfg : SimCfg) (iter : ℕ) : Prop :=
  iter ∈ cfg.claimAt.map UInt32.toNat ∨
    cfg.claimAt = [] ∧ cfg.claimMode.Due cfg.claimEvery.toNat iter

instance (cfg : SimCfg) (iter : ℕ) : Decidable (Scheduled cfg iter) :=
  inferInstanceAs (Decidable (_ ∨ _))

variable {cfg : SimCfg} {zmqSend : Frame → σ → Int × σ} {st : SimMain σ} {h : SimHistory σ}
  {tick : SimTick} {iter : ℕ}

/-! ### Messages -/

theorem consumedFrom_append_drop (messages : List (List UInt8)) :
    consumedFrom messages ++ messages.drop (consumedFrom messages).length = messages := by
  induction messages with
  | nil => rfl
  | cons message rest ih =>
      unfold consumedFrom
      split_ifs
      · rfl
      · exact congrArg (List.cons message) ih

/-- The loop leaves messages behind only after one that does not decode. -/
theorem consumedFrom_waiting {messages : List (List UInt8)}
    (h : messages.drop (consumedFrom messages).length ≠ []) :
    ∃ message, (consumedFrom messages).getLast? = some message ∧ decodeUpdateV1 message = none := by
  induction messages with
  | nil => exact absurd rfl h
  | cons message rest ih =>
      unfold consumedFrom at h ⊢
      split_ifs at h ⊢ with hdec
      · exact ⟨message, rfl, (zmqRecvUpdate_eq message).symm.trans hdec⟩
      · obtain ⟨last, hlast, hnone⟩ := ih h
        exact ⟨last, by rw [List.getLast?_cons, hlast]; rfl, hnone⟩

/-- The updates a list of messages holds. -/
def updatesOf (messages : List (List UInt8)) : List SubownUpdate :=
  messages.filterMap zmqRecvUpdate

theorem receiveLoop_eq (st : SimMain σ) (messages : List (List UInt8)) :
    st.receiveLoop cfg messages =
      { exec (SimMain.receiveOne cfg) st (updatesOf (consumedFrom messages)) with
        pending := messages.drop (consumedFrom messages).length } := by
  induction messages generalizing st with
  | nil => rfl
  | cons message rest ih =>
      cases hdec : zmqRecvUpdate message with
      | none => simp [SimMain.receiveLoop, consumedFrom, updatesOf, hdec]
      | some incoming =>
          simp only [SimMain.receiveLoop, consumedFrom, hdec, reduceCtorEq, if_false]
          rw [ih, updatesOf, updatesOf, List.filterMap_cons_some hdec]
          rfl

/-! ### Claims -/

theorem emitDuplicates_frame (zmqSend : Frame → σ → Int × σ) (n : ℕ) (st : SimState σ) :
    let s := emitDuplicates zmqSend n st
    s.record = st.record ∧ s.claimedOnce = st.claimedOnce ∧ s.claimsTotal = st.claimsTotal ∧
      s.emitsTotal = st.emitsTotal + UInt64.ofNat n := by
  induction n generalizing st with
  | zero => exact ⟨rfl, rfl, rfl, (UInt64.add_zero _).symm⟩
  | succ n ih =>
      obtain ⟨hrecord, honce, hclaims, hemits⟩ := ih
        { st with
          adapter := (zmqEmitUpdate zmqSend (duplicateUpdate st.record) st.adapter).2
          emitsTotal := st.emitsTotal + 1 }
      refine ⟨hrecord, honce, hclaims, hemits.trans ?_⟩
      dsimp only
      rw [UInt64.ofNat_add, UInt64.add_comm (UInt64.ofNat n), ← UInt64.add_assoc]
      rfl

/-- The record names the box itself as its owner. -/
def SubownRecord.HeldBy (r : SubownRecord) (boxId : UInt16) : Prop :=
  r.ownerBox = boxId.toUInt8 ∧ r.state = .stateLocal

instance (r : SubownRecord) (boxId : UInt16) : Decidable (r.HeldBy boxId) :=
  inferInstanceAs (Decidable (_ ∧ _))

/-- A claim leaves a record of the box itself. It counts only if it was no refresh and
was sent. -/
theorem claimIteration_cases (zmqSend : Frame → σ → Int × σ) (boxId : UInt16) (dup : UInt32)
    (now : UInt64) (st : SimState σ) :
    let s := claimIteration zmqSend boxId dup now st
    s.record.HeldBy boxId ∧
      ((s.claimsTotal = st.claimsTotal ∧ s.emitsTotal = st.emitsTotal ∧
          s.claimedOnce = st.claimedOnce) ∨
        (¬ st.record.HeldBy boxId ∧ s.claimsTotal = st.claimsTotal + 1 ∧
          s.emitsTotal = st.emitsTotal + UInt64.ofNat (dup.toNat + 1) ∧ s.claimedOnce = true)) := by
  unfold claimIteration
  by_cases hrefresh : st.record.HeldBy boxId
  · rw [claimLocal_refresh hrefresh.1 hrefresh.2]
    exact ⟨hrefresh, Or.inl ⟨rfl, rfl, rfl⟩⟩
  · rw [claimLocal_claim hrefresh]
    dsimp only
    by_cases hsent : (zmqEmitUpdate zmqSend
        (claimUpdate (claimedRecord st.record boxId.toUInt8 now)) st.adapter).1 = .ok
    · rw [if_pos hsent]
      obtain ⟨hrecord, honce, hclaims, hemits⟩ := emitDuplicates_frame zmqSend dup.toNat
        ⟨claimedRecord st.record boxId.toUInt8 now, ⟨.emitLocalUpdate, .localClaim⟩,
          (zmqEmitUpdate zmqSend (claimUpdate (claimedRecord st.record boxId.toUInt8 now))
            st.adapter).2, true, st.claimsTotal + 1, st.emitsTotal + 1⟩
      rw [if_pos ⟨rfl, rfl⟩, SubownRecord.HeldBy, hrecord]
      refine ⟨⟨rfl, rfl⟩, Or.inr ⟨hrefresh, hclaims, hemits.trans ?_, honce⟩⟩
      dsimp only
      rw [UInt64.ofNat_add, UInt64.add_comm (UInt64.ofNat dup.toNat), ← UInt64.add_assoc]
      rfl
    · rw [if_neg hsent]
      exact ⟨⟨rfl, rfl⟩, Or.inl ⟨rfl, rfl, rfl⟩⟩

/-! ### Counters -/

/-- The counters after `n` updates. Each claim after the first needs a remote update that took
the record away. -/
structure Tally (cfg : SimCfg) (n : ℕ) (st : SimMain σ) : Prop where
  received : st.recvTotal.toNat = n
  faults : st.recvDroppedFault.toNat = n / cfg.dropIncomingEvery.toNat
  outcomes : n = st.recvDroppedFault.toNat + st.applyRemoteTotal.toNat + st.keepLocalTotal.toNat +
    st.noopTotal.toNat
  lost : st.record.HeldBy cfg.boxId ∨ st.claimsTotal.toNat ≤ st.applyRemoteTotal.toNat
  superseded : st.claimsTotal.toNat ≤ st.applyRemoteTotal.toNat + 1

/-- A decision other than applying the update leaves the record alone. -/
theorem applyRemoteUpdate_keeps {r : SubownRecord} {u : SubownUpdate}
    (h : (applyRemoteUpdate r u).out.decision ≠ .applyRemote) :
    (applyRemoteUpdate r u).record = r := by
  by_cases hv : ValidFor r u
  · rcases applyRemoteUpdate_cases hv with ⟨_, e⟩ | ⟨_, e⟩ | ⟨_, _, e⟩ | ⟨_, _, e⟩ | ⟨_, _, e⟩
    · rw [e]
    · rw [e] at h
      exact absurd rfl h
    · rw [e]
    · rw [e] at h
      exact absurd rfl h
    · rw [e]
  · rw [applyRemoteUpdate_invalid hv]

theorem fault_iff {n : ℕ} {total : UInt64} (htotal : total.toNat = n) :
    (cfg.dropIncomingEvery > 0 ∧ total % cfg.dropIncomingEvery.toUInt64 = 0) ↔
      0 < cfg.dropIncomingEvery.toNat ∧ cfg.dropIncomingEvery.toNat ∣ n := by
  rw [gt_iff_lt, UInt32.lt_iff_toNat_lt, ← UInt64.toNat_inj, UInt64.toNat_mod, htotal,
    UInt32.toNat_toUInt64, Nat.dvd_iff_mod_eq_zero]
  rfl

theorem fault_step (cfg : SimCfg) {n : ℕ} {total : UInt64} (htotal : total.toNat = n + 1) :
    (n + 1) / cfg.dropIncomingEvery.toNat = n / cfg.dropIncomingEvery.toNat +
      if cfg.dropIncomingEvery > 0 ∧ total % cfg.dropIncomingEvery.toUInt64 = 0 then 1 else 0 := by
  rw [Nat.succ_div]
  congr 1
  refine if_congr ?_ rfl rfl
  rw [fault_iff htotal]
  refine ⟨fun hdvd => ⟨?_, hdvd⟩, And.right⟩
  exact Nat.pos_of_dvd_of_pos hdvd n.succ_pos

theorem Tally.receiveOne {n : ℕ} (hn : n < ulongMax) (h : Tally cfg n st)
    (incoming : SubownUpdate) : Tally cfg (n + 1) (st.receiveOne cfg incoming) := by
  obtain ⟨hreceived, hfaults, houtcomes, hlost, hsuperseded⟩ := h
  have htotal : (st.recvTotal + 1).toNat = n + 1 := by
    rw [toNat_succ (hreceived ▸ hn), hreceived]
  have hfault := fault_step cfg htotal
  unfold SimMain.receiveOne
  dsimp only
  split_ifs at hfault ⊢ with hdropped happlied hkept
  · have hcount : (st.recvDroppedFault + 1).toNat = st.recvDroppedFault.toNat + 1 :=
      toNat_succ (by omega)
    refine ⟨htotal, by rw [hfault, hcount, hfaults], ?_, hlost, hsuperseded⟩
    dsimp only
    omega
  · have hcount : (st.applyRemoteTotal + 1).toNat = st.applyRemoteTotal.toNat + 1 :=
      toNat_succ (by omega)
    refine ⟨htotal, by rw [hfault, hfaults, add_zero], ?_, Or.inr ?_, ?_⟩
    all_goals
      dsimp only
      omega
  · have hcount : (st.keepLocalTotal + 1).toNat = st.keepLocalTotal.toNat + 1 :=
      toNat_succ (by omega)
    refine ⟨htotal, by rw [hfault, hfaults, add_zero], ?_, ?_, hsuperseded⟩
    · dsimp only
      omega
    · dsimp only
      rwa [applyRemoteUpdate_keeps happlied]
  · have hcount : (st.noopTotal + 1).toNat = st.noopTotal.toNat + 1 := toNat_succ (by omega)
    refine ⟨htotal, by rw [hfault, hfaults, add_zero], ?_, ?_, hsuperseded⟩
    · dsimp only
      omega
    · dsimp only
      rwa [applyRemoteUpdate_keeps happlied]

theorem receiveOne_frame (cfg : SimCfg) (st : SimMain σ) (incoming : SubownUpdate) :
    let s := st.receiveOne cfg incoming
    s.claimsTotal = st.claimsTotal ∧ s.emitsTotal = st.emitsTotal ∧
      s.claimedOnce = st.claimedOnce ∧ s.i = st.i := by
  unfold SimMain.receiveOne
  dsimp only
  split_ifs <;> exact ⟨rfl, rfl, rfl, rfl⟩

/-- The claim counters after `ran` iterations. -/
structure ClaimTally (cfg : SimCfg) (ran : ℕ) (st : SimMain σ) : Prop where
  claims : st.claimsTotal.toNat ≤
    ((List.range ran).filter fun k => Scheduled cfg (k + 1)).length
  emits : st.emitsTotal.toNat = st.claimsTotal.toNat * (cfg.emitDupCount.toNat + 1)
  once : cfg.claimAt = [] → cfg.claimMode = .claimModeOnce → st.claimedOnce = true →
    cfg.claimEvery.toNat ≤ ran

/-- The flag `claimed_once` never decides: once it is set, its iteration is past. -/
theorem shouldClaimOnIter_iff {ran : ℕ} (hran : ran < 0xFFFFFFFF) (h : ClaimTally cfg ran st)
    (hi : st.i = UInt32.ofNat (ran + 1)) :
    shouldClaimOnIter cfg st.i st.claimedOnce = true ↔ Scheduled cfg (ran + 1) := by
  have hnat : st.i.toNat = ran + 1 := by
    rw [hi, UInt32.toNat_ofNat']
    exact Nat.mod_eq_of_lt (by omega)
  unfold shouldClaimOnIter Scheduled
  by_cases hlist : cfg.claimAt = []
  · rw [if_neg (by simp [hlist])]
    cases hmode : cfg.claimMode with
    | claimModePeriodic =>
        have hdvd : st.i % cfg.claimEvery = 0 ↔ cfg.claimEvery.toNat ∣ ran + 1 := by
          rw [← UInt32.toNat_inj, UInt32.toNat_mod, hnat, Nat.dvd_iff_mod_eq_zero]
          rfl
        simp [hlist, ClaimMode.Due, hdvd]
    | claimModeOnce =>
        have heq : st.i = cfg.claimEvery ↔ ran + 1 = cfg.claimEvery.toNat := by
          rw [← UInt32.toNat_inj, hnat]
        have honce : ran + 1 = cfg.claimEvery.toNat → st.claimedOnce = false := by
          intro hnow
          by_contra hset
          have := h.once hlist hmode (by simpa using hset)
          omega
        simpa [hlist, ClaimMode.Due, heq] using honce
    | claimModeOff => simp [hlist, ClaimMode.Due]
  · rw [if_pos (List.length_pos_iff.mpr hlist)]
    simp only [hlist, false_and, or_false, List.contains_eq_mem, List.mem_map, decide_eq_true_eq]
    constructor
    · intro hmem
      exact ⟨st.i, hmem, hnat⟩
    · rintro ⟨v, hv, heq⟩
      obtain rfl := UInt32.toNat_inj.mp (heq.trans hnat.symm)
      exact hv

theorem ClaimTally.claims_le {ran : ℕ} (h : ClaimTally cfg ran st) :
    st.claimsTotal.toNat ≤ ran :=
  h.claims.trans ((List.length_filter_le _ _).trans_eq List.length_range)

/-- The sums of the emit counter stay below `2 ^ 64`. -/
theorem emits_add {claims dup : ℕ} {emits : UInt64} (hclaims : claims < 0xFFFFFFFF)
    (hdup : dup < 0x100000000) (hemits : emits.toNat = claims * (dup + 1)) :
    (emits + UInt64.ofNat (dup + 1)).toNat = (claims + 1) * (dup + 1) := by
  have hbound : (claims + 1) * (dup + 1) ≤ 0xFFFFFFFF * 0x100000000 :=
    Nat.mul_le_mul hclaims hdup
  have hsum : claims * (dup + 1) + (dup + 1) = (claims + 1) * (dup + 1) :=
    (Nat.succ_mul _ _).symm
  rw [UInt64.toNat_add, UInt64.toNat_ofNat', hemits, Nat.add_mod_mod, hsum]
  exact Nat.mod_eq_of_lt (by omega)

theorem claimStep_claims {ran : ℕ} (hran : ran < 0xFFFFFFFF) (hi : st.i = UInt32.ofNat (ran + 1))
    (h : ClaimTally cfg ran st) (now : UInt64) :
    ClaimTally cfg (ran + 1) (st.claimStep cfg zmqSend now) := by
  have hdue := shouldClaimOnIter_iff hran h hi
  have hmore : ((List.range ran).filter fun k => Scheduled cfg (k + 1)).length ≤
      ((List.range (ran + 1)).filter fun k => Scheduled cfg (k + 1)).length := by
    rw [List.range_succ, List.filter_append, List.length_append]
    exact Nat.le_add_right _ _
  unfold SimMain.claimStep
  split_ifs with hclaims
  · have hscheduled := hdue.mp hclaims
    have hpast : cfg.claimAt = [] → cfg.claimMode = .claimModeOnce →
        cfg.claimEvery.toNat ≤ ran + 1 := by
      intro hlist hmode
      simp only [Scheduled, hlist, hmode, ClaimMode.Due, List.map_nil, List.not_mem_nil, false_or,
        true_and] at hscheduled
      exact hscheduled.ge
    have hone : ((List.range (ran + 1)).filter fun k => Scheduled cfg (k + 1)).length =
        ((List.range ran).filter fun k => Scheduled cfg (k + 1)).length + 1 := by
      rw [List.range_succ, List.filter_append, List.length_append]
      simp [hscheduled]
    obtain ⟨_, ⟨hclaimed, hemits, _⟩ | ⟨_, hclaimed, hemits, _⟩⟩ :=
      claimIteration_cases zmqSend cfg.boxId cfg.emitDupCount now st.toSimState
    · refine ⟨?_, ?_, fun hlist hmode _ => hpast hlist hmode⟩
      · dsimp only
        rw [hclaimed]
        exact h.claims.trans hmore
      · dsimp only
        rw [hclaimed, hemits]
        exact h.emits
    · have hcount : (st.claimsTotal + 1).toNat = st.claimsTotal.toNat + 1 :=
        toNat_succ (h.claims_le.trans_lt (hran.trans (by decide)))
      refine ⟨?_, ?_, fun hlist hmode _ => hpast hlist hmode⟩
      · dsimp only
        rw [hclaimed, hcount, hone]
        exact Nat.succ_le_succ h.claims
      · dsimp only
        rw [hclaimed, hcount, hemits]
        exact emits_add (h.claims_le.trans_lt hran) cfg.emitDupCount.toNat_lt h.emits
  · refine ⟨h.claims.trans hmore, h.emits, fun hlist hmode hset => ?_⟩
    exact (h.once hlist hmode hset).trans (Nat.le_succ _)

theorem claimStep_tally {n : ℕ} (hclaims : st.claimsTotal.toNat < ulongMax) (h : Tally cfg n st)
    (now : UInt64) : Tally cfg n (st.claimStep cfg zmqSend now) := by
  unfold SimMain.claimStep
  split_ifs
  · obtain ⟨hheld, ⟨hclaimed, _⟩ | ⟨hfree, hclaimed, _⟩⟩ :=
      claimIteration_cases zmqSend cfg.boxId cfg.emitDupCount now st.toSimState
    · refine ⟨h.received, h.faults, h.outcomes, Or.inl hheld, ?_⟩
      dsimp only
      rw [hclaimed]
      exact h.superseded
    · refine ⟨h.received, h.faults, h.outcomes, Or.inl hheld, ?_⟩
      dsimp only
      rw [hclaimed, toNat_succ hclaims]
      exact Nat.succ_le_succ (h.lost.resolve_left hfree)
  · exact h

/-! ### Iterations -/

/-- The messages an iteration takes from the socket. -/
def SimMain.takes (st : SimMain σ) (tick : SimTick) : List (List UInt8) :=
  consumedFrom (st.pending ++ tick.arrived)

theorem claimStep_frame (cfg : SimCfg) (zmqSend : Frame → σ → Int × σ) (now : UInt64)
    (st : SimMain σ) :
    (st.claimStep cfg zmqSend now).i = st.i ∧
      (st.claimStep cfg zmqSend now).pending = st.pending := by
  unfold SimMain.claimStep
  split_ifs <;> exact ⟨rfl, rfl⟩

theorem iteration_eq (cfg : SimCfg) (zmqSend : Frame → σ → Int × σ) (st : SimMain σ)
    (tick : SimTick) :
    st.iteration cfg zmqSend tick =
      { exec (SimMain.receiveOne cfg) (st.claimStep cfg zmqSend tick.now)
          (updatesOf (st.takes tick)) with
        i := st.i + 1
        pending := (st.pending ++ tick.arrived).drop (st.takes tick).length } := by
  have hi : (exec (SimMain.receiveOne cfg) (st.claimStep cfg zmqSend tick.now)
      (updatesOf (st.takes tick))).i = st.i := by
    have hkeep : ∀ (s : SimMain σ) u, s.i = st.i → True → (s.receiveOne cfg u).i = st.i :=
      fun s u hs _ => (receiveOne_frame cfg s u).2.2.2.trans hs
    exact exec_inv hkeep (claimStep_frame cfg zmqSend tick.now st).1
      (Each.of_forall fun _ _ => trivial)
  rw [SimMain.iteration, receiveLoop_eq]
  dsimp only
  rw [SimMain.takes] at hi
  rw [SimMain.takes, hi]

theorem iteration_claims {ran : ℕ} (hran : ran < 0xFFFFFFFF) (hi : st.i = UInt32.ofNat (ran + 1))
    (h : ClaimTally cfg ran st) : ClaimTally cfg (ran + 1) (st.iteration cfg zmqSend tick) := by
  have hkeep : ∀ (s : SimMain σ) u, ClaimTally cfg (ran + 1) s → True →
      ClaimTally cfg (ran + 1) (s.receiveOne cfg u) := by
    intro s u hs _
    obtain ⟨hclaims, hemits, honce, _⟩ := receiveOne_frame cfg s u
    refine ⟨hclaims ▸ hs.claims, ?_, honce ▸ hs.once⟩
    rw [hemits, hclaims]
    exact hs.emits
  have hclaims : ClaimTally cfg (ran + 1) (exec (SimMain.receiveOne cfg)
      (st.claimStep cfg zmqSend tick.now) (updatesOf (st.takes tick))) :=
    exec_inv hkeep (claimStep_claims hran hi h tick.now) (Each.of_forall fun _ _ => trivial)
  rw [iteration_eq]
  exact ⟨hclaims.claims, hclaims.emits, hclaims.once⟩

theorem iteration_tally {n : ℕ} (hclaims : st.claimsTotal.toNat < ulongMax) (h : Tally cfg n st)
    (hroom : n + (updatesOf (st.takes tick)).length ≤ ulongMax) :
    Tally cfg (n + (updatesOf (st.takes tick)).length) (st.iteration cfg zmqSend tick) := by
  have hcounts : Tally cfg (n + (updatesOf (st.takes tick)).length) (exec (SimMain.receiveOne cfg)
      (st.claimStep cfg zmqSend tick.now) (updatesOf (st.takes tick))) :=
    exec_of_budget (P := fun _ _ => True) (fun _ _ u hn h _ => h.receiveOne hn u)
      (claimStep_tally hclaims h tick.now) hroom (Each.of_forall fun _ _ => trivial)
  rw [iteration_eq]
  exact ⟨hcounts.received, hcounts.faults, hcounts.outcomes, hcounts.lost, hcounts.superseded⟩

/-! ### Runs -/

structure SimInv (cfg : SimCfg) (h : SimHistory σ) : Prop where
  counter : h.main.i = UInt32.ofNat (h.ran + 1)
  stream : h.consumed ++ h.main.pending = h.arrived
  waiting : h.main.pending ≠ [] →
    ∃ message, h.consumed.getLast? = some message ∧ decodeUpdateV1 message = none
  claims : h.ran ≤ 0xFFFFFFFF → ClaimTally cfg h.ran h.main
  counts : h.ran ≤ 0xFFFFFFFF → h.arrived.length ≤ ulongMax →
    Tally cfg (updatesOf h.consumed).length h.main

namespace SimInv

theorem start (cfg : SimCfg) (now : UInt64) (result : SubownResult) (adapter : σ) :
    SimInv cfg (SimHistory.start cfg now result adapter) where
  counter := rfl
  stream := rfl
  waiting hne := absurd rfl hne
  claims _ :=
    ⟨Nat.zero_le _, (Nat.zero_mul _).symm, fun _ _ hset => absurd hset Bool.false_ne_true⟩
  counts _ _ := ⟨rfl, (Nat.zero_div _).symm, rfl, Or.inr le_rfl, Nat.zero_le _⟩

theorem step (hi : SimInv cfg h) (zmqSend : Frame → σ → Int × σ) (tick : SimTick) :
    SimInv cfg (h.step cfg zmqSend tick) := by
  unfold SimHistory.step
  split_ifs with hrunning
  swap
  · exact hi
  have hstream : (h.consumed ++ h.main.takes tick) ++
      (h.main.pending ++ tick.arrived).drop (h.main.takes tick).length =
        h.arrived ++ tick.arrived := by
    rw [List.append_assoc, SimMain.takes, consumedFrom_append_drop, ← List.append_assoc, hi.stream]
  constructor
  · rw [iteration_eq]
    dsimp only
    rw [hi.counter, UInt32.ofNat_add (h.ran + 1)]
    rfl
  · rw [iteration_eq]
    exact hstream
  · intro hne
    rw [iteration_eq] at hne
    obtain ⟨message, hlast, hdec⟩ := consumedFrom_waiting hne
    refine ⟨message, ?_, hdec⟩
    rw [List.getLast?_append, hlast]
    rfl
  · intro hran
    have hlt : h.ran < 0xFFFFFFFF := hran
    exact iteration_claims hlt hi.counter (hi.claims hlt.le)
  · intro hran harrived
    dsimp only at hran harrived ⊢
    have hlength := congrArg List.length hstream
    have hupdates := List.length_filterMap_le zmqRecvUpdate (h.consumed ++ h.main.takes tick)
    simp only [List.length_append] at hlength hupdates harrived
    have hclaims : h.main.claimsTotal.toNat < ulongMax :=
      (hi.claims (by omega)).claims_le.trans_lt (hran.trans (by decide))
    have happend : updatesOf (h.consumed ++ consumedFrom (h.main.pending ++ tick.arrived)) =
        updatesOf h.consumed ++ updatesOf (h.main.takes tick) := List.filterMap_append
    rw [happend, List.length_append]
    refine iteration_tally hclaims (hi.counts (by omega) (by omega)) ?_
    rw [← List.length_append, ← happend]
    exact hupdates.trans (by omega)

end SimInv

/-- The counters of the final report. A record is claimed again only after the peer has taken
it, each claim is sent with all its duplicates and every N-th update is dropped. -/
structure SimBalanced (cfg : SimCfg) (h : SimHistory σ) : Prop where
  claims : h.main.claimsTotal.toNat ≤
    ((List.range h.ran).filter fun k => Scheduled cfg (k + 1)).length
  superseded : h.main.claimsTotal.toNat ≤ h.main.applyRemoteTotal.toNat + 1
  emits : h.main.emitsTotal.toNat = h.main.claimsTotal.toNat * (cfg.emitDupCount.toNat + 1)
  received : h.main.recvTotal.toNat = (h.consumed.filterMap decodeUpdateV1).length
  faults : h.main.recvDroppedFault.toNat =
    h.main.recvTotal.toNat / cfg.dropIncomingEvery.toNat
  outcomes : h.main.recvTotal.toNat = h.main.recvDroppedFault.toNat +
    h.main.applyRemoteTotal.toNat + h.main.keepLocalTotal.toNat + h.main.noopTotal.toNat

/-- Whatever arrives and whatever the PUB socket answers, the counters agree with the history
as long as neither the iterations nor the messages outnumber them. -/
theorem simulator_stats_balance (cfg : SimCfg) (zmqSend : Frame → σ → Int × σ) (now : UInt64)
    (result : SubownResult) (adapter : σ) (ticks : List SimTick) :
    Always (SimHistory.step cfg zmqSend)
      (fun h => h.ran ≤ 0xFFFFFFFF → h.arrived.length ≤ ulongMax → SimBalanced cfg h)
      (SimHistory.start cfg now result adapter) ticks := by
  refine always_of_inv (P := fun _ _ => True) (fun h hi hran harrived => ?_)
    (fun h tick hi _ => hi.step zmqSend tick) (SimInv.start cfg now result adapter)
    (Each.of_forall fun _ _ => trivial)
  have hclaim := hi.claims hran
  have htally := hi.counts hran harrived
  have hdecode : updatesOf h.consumed = h.consumed.filterMap decodeUpdateV1 :=
    congrArg (List.filterMap · h.consumed) (funext zmqRecvUpdate_eq)
  refine ⟨hclaim.claims, htally.superseded, hclaim.emits, ?_, ?_, ?_⟩
  · rw [htally.received, hdecode]
  · rw [htally.received]
    exact htally.faults
  · rw [htally.received]
    exact htally.outcomes

/-- Which iterations ask for a claim follows from the options alone: `claimed_once` and all
that was received change nothing. -/
theorem simulator_schedule (cfg : SimCfg) (zmqSend : Frame → σ → Int × σ) (now : UInt64)
    (result : SubownResult) (adapter : σ) (ticks : List SimTick) :
    Each (SimHistory.step cfg zmqSend)
      (fun h _ => h.ran < 0xFFFFFFFF → (shouldClaimOnIter cfg h.main.i h.main.claimedOnce = true ↔
        Scheduled cfg (h.ran + 1)))
      (SimHistory.start cfg now result adapter) ticks :=
  each_of_inv (P := fun _ _ => True)
    (fun _ _ hi _ hran => shouldClaimOnIter_iff hran (hi.claims hran.le) hi.counter)
    (fun _ tick hi _ => hi.step zmqSend tick) (SimInv.start cfg now result adapter)
    (Each.of_forall fun _ _ => trivial)

/-- The iterations after `n` ticks. -/
structure Ran (cfg : SimCfg) (n : ℕ) (h : SimHistory σ) : Prop where
  counter : h.main.i = UInt32.ofNat (h.ran + 1)
  ran : h.ran = if cfg.iterations = 0xFFFFFFFF then n else min n cfg.iterations.toNat

namespace Ran

variable {n : ℕ}

/-- The counter is 32 bits wide, so nothing exceeds the largest bound. -/
theorem running_iff (hi : Ran cfg n h) :
    h.main.Running cfg ↔ cfg.iterations = 0xFFFFFFFF ∨ n < cfg.iterations.toNat := by
  rw [SimMain.Running, UInt32.le_iff_toNat_le]
  by_cases hmax : cfg.iterations = 0xFFFFFFFF
  · rw [hmax]
    exact iff_of_true (Nat.le_of_lt_succ h.main.i.toNat_lt) (Or.inl rfl)
  · have hlt := cfg.iterations.toNat_lt
    have hne : cfg.iterations.toNat ≠ 0xFFFFFFFF := fun e => hmax (UInt32.toNat_inj.mp e)
    have hran := hi.ran
    rw [if_neg hmax] at hran
    rw [hi.counter, UInt32.toNat_ofNat', Nat.mod_eq_of_lt (by omega)]
    constructor
    · exact fun hle => Or.inr (by omega)
    · intro hrun
      have hlt := hrun.resolve_left hmax
      omega

theorem start (cfg : SimCfg) (now : UInt64) (result : SubownResult) (adapter : σ) :
    Ran cfg 0 (SimHistory.start cfg now result adapter) :=
  ⟨rfl, by rw [Nat.zero_min, ite_self]; rfl⟩

theorem step (hi : Ran cfg n h) (zmqSend : Frame → σ → Int × σ) (tick : SimTick) :
    Ran cfg (n + 1) (h.step cfg zmqSend tick) := by
  have hrunning := hi.running_iff
  have hran := hi.ran
  unfold SimHistory.step
  by_cases hrun : h.main.Running cfg
  · rw [if_pos hrun]
    refine ⟨?_, ?_⟩
    · rw [iteration_eq]
      dsimp only
      rw [hi.counter, UInt32.ofNat_add (h.ran + 1)]
      rfl
    · have hmore := hrunning.mp hrun
      dsimp only
      split_ifs at hran ⊢ with hmax
      · omega
      · have hlt := hmore.resolve_left hmax
        omega
  · rw [if_neg hrun]
    obtain ⟨hmax, hend⟩ := not_or.mp (hrunning.not.mp hrun)
    refine ⟨hi.counter, ?_⟩
    rw [if_neg hmax] at hran ⊢
    omega

end Ran

/-- The loop runs once for each of its iterations and then ends; given `2 ^ 32 - 1` of them it
never ends. -/
theorem simulator_iterations (cfg : SimCfg) (zmqSend : Frame → σ → Int × σ) (now : UInt64)
    (result : SubownResult) (adapter : σ) (ticks : List SimTick) :
    let h := exec (SimHistory.step cfg zmqSend) (SimHistory.start cfg now result adapter) ticks
    h.ran = (if cfg.iterations = 0xFFFFFFFF then ticks.length
      else min ticks.length cfg.iterations.toNat) ∧
    (h.main.Running cfg ↔ cfg.iterations = 0xFFFFFFFF ∨ ticks.length < cfg.iterations.toNat) := by
  intro h
  have hran : Ran cfg (0 + ticks.length) h :=
    exec_of_budget (P := fun _ _ => True) (fun _ _ tick _ hi _ => hi.step zmqSend tick)
      (Ran.start cfg now result adapter) le_rfl (Each.of_forall fun _ _ => trivial)
  rw [Nat.zero_add] at hran
  exact ⟨hran.ran, hran.running_iff⟩

end Subown
