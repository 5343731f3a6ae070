import Subown.ClusterInvariant
import Subown.SimLoop

/-! Two simulators of one subscriber, each with the other's PUB endpoint as its SUB endpoint.
The network loses, duplicates and reorders what the PUB sockets took. A simulator's record
starts with box 0 as the owner and nobody as the owner id; for the peer and for the claims to
come it is an unowned record, and so the two run as two boxes. -/
namespace Subown

open RunRules

/-- The frames handed to `zmq_send`, each with the answer. -/
abbrev PubLog := List (Frame × Int)

def pubSend (answer : PubLog → Int) : Frame → PubLog → Int × PubLog :=
  fun wire log => (answer log, log ++ [(wire, answer log)])

/-- The frames the PUB socket took. -/
def published (log : PubLog) : List Frame := (log.filter fun sent => sent.2 = 40).map Prod.fst

/-- The messages the receive loop applies: up to the first that does not decode, without the
injected drops. -/
def appliedFrom (cfg : SimCfg) : UInt64 → List (List UInt8) → List (List UInt8)
  | _, [] => []
  | recvTotal, message :: rest =>
      match zmqRecvUpdate message with
      | none => []
      | some _ =>
          if cfg.dropIncomingEvery > 0 ∧
              (recvTotal + 1) % cfg.dropIncomingEvery.toUInt64 = 0 then
            appliedFrom cfg (recvTotal + 1) rest
          else message :: appliedFrom cfg (recvTotal + 1) rest

/-- A simulator with the frames of its claims, sent or not, and the messages it applied. -/
structure SimNode where
  main : SimMain PubLog
  claimed : List Frame
  heard : List Frame

namespace SimNode

def start (cfg : SimCfg) (now : UInt64) (result : SubownResult) : SimNode :=
  ⟨.start cfg now result [], [], []⟩

/-- What the tick of a running simulator is to its record. -/
def inputs (cfg : SimCfg) (x : SimNode) (tick : SimTick) : List BoxInput :=
  (if shouldClaimOnIter cfg x.main.i x.main.claimedOnce = true then [.claim tick.now] else []) ++
    (appliedFrom cfg x.main.recvTotal (x.main.pending ++ tick.arrived)).map .deliver

/-- The claim of a tick: a refresh is none. -/
def claimedBy (cfg : SimCfg) (x : SimNode) (tick : SimTick) : List Frame :=
  if shouldClaimOnIter cfg x.main.i x.main.claimedOnce = true ∧
      ¬ x.main.record.HeldBy cfg.boxId then
    [frameBytes (claimUpdate (claimedRecord x.main.record cfg.boxId.toUInt8 tick.now))]
  else []

def step (cfg : SimCfg) (answer : PubLog → Int) (x : SimNode) (tick : SimTick) : SimNode :=
  if x.main.Running cfg then
    ⟨x.main.iteration cfg (pubSend answer) tick, x.claimed ++ x.claimedBy cfg tick,
      x.heard ++ appliedFrom cfg x.main.recvTotal (x.main.pending ++ tick.arrived)⟩
  else x

end SimNode

/-- The record as the other functions see it: what nobody owns has no owner. -/
def SubownRecord.seen (r : SubownRecord) : SubownRecord :=
  if r.state = .stateUnowned then
    { r with ownerBox := unownedState, ownerBoxId := unownedState.toUInt16 }
  else r

def SimNode.view (x : SimNode) : BoxState := ⟨x.main.record.seen, x.claimed, x.heard⟩

abbrev SimPair := Box → SimNode

namespace SimPair

variable (cfg : Box → SimCfg) (answer : Box → PubLog → Int)

def start (now : Box → UInt64) (result : Box → SubownResult) : SimPair := fun b =>
  .start (cfg b) (now b) (result b)

def step (p : SimPair) (input : Box × SimTick) : SimPair :=
  Function.update p input.1 ((p input.1).step (cfg input.1) (answer input.1) input.2)

def view (p : SimPair) : PairState := fun b => (p b).view

/-- Only frames the other PUB socket took arrive, and bytes that do not decode. -/
def Network (p : SimPair) (input : Box × SimTick) : Prop :=
  ∀ message ∈ input.2.arrived,
    message ∈ published (p input.1.other).main.adapter ∨ decodeUpdateV1 message = none

def inputs (p : SimPair) (input : Box × SimTick) : List (Box × BoxInput) :=
  if (p input.1).main.Running (cfg input.1) then
    ((p input.1).inputs (cfg input.1) input.2).map (Prod.mk input.1)
  else []

/-- Every claim of a simulator has been applied by the other. -/
def Quiescent (p : SimPair) : Prop := ∀ b, ∀ f ∈ (p b).claimed, f ∈ (p b.other).heard

end SimPair

/-! ### Records -/

/-- The record of simulator `b` after at most `n` claims of either. -/
structure SimRecord (sid : UInt64) (epoch : UInt32) (n : ℕ) (b : Box) (r : SubownRecord) :
    Prop where
  subscriber : r.subscriberId = sid
  epoch : r.ownerEpoch = epoch
  policy : r.policyMask = 0
  bound : r.generation.toNat ≤ n
  owner : (r.state = .stateUnowned ∧ r.generation = 0) ∨
    (r.state = .stateLocal ∧ r.ownerBox = b.id ∧ r.ownerBoxId = b.id.toUInt16) ∨
    (r.state = .stateRemote ∧ r.ownerBox = b.other.id ∧ r.ownerBoxId = b.other.id.toUInt16)

/-- One of them. -/
structure SimClaim (sid : UInt64) (epoch : UInt32) (n : ℕ) (b : Box) (u : SubownUpdate) :
    Prop where
  subscriber : u.subscriberId = sid
  epoch : u.ownerEpoch = epoch
  policy : u.policyMask = 0
  bound : u.generation.toNat ≤ n
  owner : u.owner = b.id
  generation : u.generation ≠ 0

variable {sid : UInt64} {epoch : UInt32} {n : ℕ} {b : Box} {r : SubownRecord} {u : SubownUpdate}
  {now : UInt64} {f : Frame}

theorem seen_owned (h : r.state ≠ .stateUnowned) : r.seen = r := if_neg h

/-- The record after a claim, whatever becomes of the update. -/
theorem claimLocal_record {σ : Type*} (r : SubownRecord) (boxId : UInt16) (now : UInt64)
    (emit : EmitUpdateFn σ) (ctx : σ) (out : SubownResult) :
    (claimLocal r boxId now (some emit) ctx out).record =
      if r.HeldBy boxId then { r with lastSeenTs := now }
      else claimedRecord r boxId.toUInt8 now := by
  by_cases h : r.HeldBy boxId
  · rw [claimLocal_refresh h.1 h.2, if_pos h]
  · rw [claimLocal_claim h, if_neg h]
    dsimp only
    split_ifs <;> rfl

theorem seen_heldBy {boxId : UInt16} : r.seen.HeldBy boxId ↔ r.HeldBy boxId := by
  by_cases hstate : r.state = .stateUnowned
  · rw [SubownRecord.seen, if_pos hstate]
    exact iff_of_false (fun h => nomatch hstate.symm.trans h.2)
      (fun h => nomatch hstate.symm.trans h.2)
  · rw [seen_owned hstate]

theorem claimedRecord_seen (r : SubownRecord) (o : UInt8) (now : UInt64) :
    claimedRecord r.seen o now = claimedRecord r o now := by
  unfold SubownRecord.seen
  split_ifs <;> rfl

/-- A claim does not look at an owner nobody is. -/
theorem seen_claim {σ τ : Type*} (r : SubownRecord) (boxId : UInt16) (now : UInt64)
    (emit : EmitUpdateFn σ) (emit' : EmitUpdateFn τ) (ctx : σ) (ctx' : τ)
    (out out' : SubownResult) :
    (claimLocal r.seen boxId now (some emit') ctx' out').record =
      (claimLocal r boxId now (some emit) ctx out).record.seen := by
  rw [claimLocal_record, claimLocal_record, claimedRecord_seen]
  by_cases hheld : r.HeldBy boxId
  · have hstate : r.state ≠ .stateUnowned := fun h => nomatch h.symm.trans hheld.2
    rw [if_pos hheld, if_pos (seen_heldBy.mpr hheld), seen_owned hstate]
    exact (seen_owned (r := { r with lastSeenTs := now }) hstate).symm
  · rw [if_neg hheld, if_neg (seen_heldBy.not.mpr hheld)]
    exact (seen_owned (r := claimedRecord r _ now) nofun).symm

/-- Neither does the resolver: no claim is of generation zero. -/
theorem seen_deliver (hr : r.state = .stateUnowned → r.generation = 0) (hu : u.generation ≠ 0)
    (howner : u.owner ≠ unownedState) (hv : ValidFor r u) :
    (applyRemoteUpdate r.seen u).record = (applyRemoteUpdate r u).record.seen := by
  by_cases hstate : r.state = .stateUnowned
  · have hseen : r.seen =
        { r with ownerBox := unownedState, ownerBoxId := unownedState.toUInt16 } :=
      if_pos hstate
    have hv' : ValidFor r.seen u := by
      rw [hseen]
      exact hv
    have hstamp : r.seen.stamp = r.stamp := by
      rw [hseen]
      rfl
    have hne : u.stamp ≠ r.stamp := by
      intro heq
      exact hu ((stampOf_inj.mp heq).2.trans (hr hstate))
    rcases lt_or_gt_of_ne hne with hlt | hgt
    · rw [applyRemoteUpdate_stale hv hlt, applyRemoteUpdate_stale hv' (hstamp ▸ hlt)]
    · rw [applyRemoteUpdate_newer hv hgt, applyRemoteUpdate_newer hv' (hstamp ▸ hgt)]
      have hadopt : adopt r.seen u = adopt r u := by
        rw [hseen]
        rfl
      have hremote : (adopt r u).state ≠ .stateUnowned := by
        simp [adopt, howner]
      dsimp only
      rw [hadopt, seen_owned hremote]
  · rw [seen_owned hstate, applyRemoteUpdate_record hv]
    by_cases hlt : r.key < u.key
    · have hremote : (adopt r u).state ≠ .stateUnowned := by simp [adopt, howner]
      rw [StrictBest.take_of_lt hlt, seen_owned hremote]
    · rw [StrictBest.take_of_le (not_lt.mp hlt), seen_owned hstate]

namespace SimRecord

theorem fresh (h : SimRecord sid epoch n b r) (hstate : r.state = .stateUnowned) :
    r.generation = 0 := by
  obtain ⟨_, hgen⟩ | ⟨hlocal, _⟩ | ⟨hremote, _⟩ := h.owner
  · exact hgen
  · exact nomatch hstate.symm.trans hlocal
  · exact nomatch hstate.symm.trans hremote

theorem mono (h : SimRecord sid epoch n b r) : SimRecord sid epoch (n + 1) b r :=
  ⟨h.subscriber, h.epoch, h.policy, h.bound.trans n.le_succ, h.owner⟩

theorem generation_ne (h : SimRecord sid epoch n b r) (hn : n < 0xFFFFFFFF) :
    r.generation ≠ 0xFFFFFFFF := by
  intro e
  have hle := h.bound
  rw [e] at hle
  exact absurd hn (not_lt.mpr hle)

theorem claim {σ : Type*} (h : SimRecord sid epoch n b r) (hn : n < 0xFFFFFFFF) (now : UInt64)
    (emit : EmitUpdateFn σ) (ctx : σ) (out : SubownResult) :
    SimRecord sid epoch (n + 1) b
      (claimLocal r b.id.toUInt16 now (some emit) ctx out).record := by
  rw [claimLocal_record, toUInt8_toUInt16]
  split_ifs
  · exact ⟨h.subscriber, h.epoch, h.policy, h.bound.trans n.le_succ, h.owner⟩
  · refine ⟨h.subscriber, h.epoch, h.policy, ?_, Or.inr (Or.inl ⟨rfl, rfl, rfl⟩)⟩
    rw [generation_succ (h.generation_ne hn)]
    exact Nat.succ_le_succ h.bound

theorem deliver (h : SimRecord sid epoch n b r) (hu : SimClaim sid epoch n b.other u)
    (hv : ValidFor r u) : SimRecord sid epoch n b (applyRemoteUpdate r u).record := by
  rw [applyRemoteUpdate_record hv]
  by_cases hlt : r.key < u.key
  · rw [StrictBest.take_of_lt hlt]
    refine ⟨h.subscriber, hu.epoch, hu.policy, hu.bound, Or.inr (Or.inr ⟨?_, hu.owner, ?_⟩)⟩
    · simp [adopt, hu.owner, box_ne_unowned]
    · exact congrArg UInt8.toUInt16 hu.owner
  · rw [StrictBest.take_of_le (not_lt.mp hlt)]
    exact h

/-- The update of a claim is as the record it leaves. -/
theorem claims (h : SimRecord sid epoch n b r) (hn : n < 0xFFFFFFFF) (now : UInt64) :
    SimClaim sid epoch (n + 1) b (claimUpdate (claimedRecord r b.id now)) := by
  have hsucc := generation_succ (h.generation_ne hn) b.id now
  refine ⟨h.subscriber, h.epoch, h.policy, ?_, claimUpdate_owner b.isBoxId.known r now, ?_⟩
  · exact hsucc.trans_le (Nat.succ_le_succ h.bound)
  · intro hzero
    change (claimedRecord r b.id now).generation = 0 at hzero
    rw [hzero] at hsucc
    cases hsucc

end SimRecord

theorem SimClaim.mono (h : SimClaim sid epoch n b u) : SimClaim sid epoch (n + 1) b u :=
  ⟨h.subscriber, h.epoch, h.policy, h.bound.trans n.le_succ, h.owner, h.generation⟩

/-! ### The receive loop -/

theorem receiveOne_record {σ : Type*} (cfg : SimCfg) (st : SimMain σ) (incoming : SubownUpdate) :
    (st.receiveOne cfg incoming).adapter = st.adapter ∧
      (st.receiveOne cfg incoming).recvTotal = st.recvTotal + 1 ∧
      (st.receiveOne cfg incoming).record =
        if cfg.dropIncomingEvery > 0 ∧
            (st.recvTotal + 1) % cfg.dropIncomingEvery.toUInt64 = 0 then st.record
        else (applyRemoteUpdate st.record incoming).record := by
  unfold SimMain.receiveOne
  dsimp only
  split_ifs <;> exact ⟨rfl, rfl, rfl⟩

/-- The message is a claim of simulator `b` or does not decode. -/
def ClaimOrNoise (sid : UInt64) (epoch : UInt32) (n : ℕ) (b : Box) (message : List UInt8) :
    Prop :=
  (∃ u, decodeUpdateV1 message = some u ∧ SimClaim sid epoch n b u) ∨
    decodeUpdateV1 message = none

/-- To the record the receive loop is a run of deliveries. -/
theorem receiveLoop_delivers (cfg : SimCfg) {σ : Type*} {st : SimMain σ}
    {messages : List (List UInt8)} (hr : SimRecord sid epoch n b st.record)
    (hmessages : ∀ m ∈ messages, ClaimOrNoise sid epoch n b.other m) (emitted taken : List Frame) :
    let s := st.receiveLoop cfg messages
    let applied := appliedFrom cfg st.recvTotal messages
    SimRecord sid epoch n b s.record ∧ s.adapter = st.adapter ∧
      exec (BoxState.step b) ⟨st.record.seen, emitted, taken⟩ (applied.map .deliver) =
        ⟨s.record.seen, emitted, taken ++ applied⟩ := by
  induction messages generalizing st taken with
  | nil => exact ⟨hr, rfl, by simp [appliedFrom, SimMain.receiveLoop]⟩
  | cons message rest ih =>
      have hrest := fun m hm => hmessages m (List.mem_cons_of_mem message hm)
      obtain ⟨u, hdec, hu⟩ | hnone := hmessages message List.mem_cons_self
      · have hrecv := (zmqRecvUpdate_eq message).trans hdec
        obtain ⟨hadapter, htotal, hrecord⟩ := receiveOne_record cfg st u
        have hv : ValidFor st.record u :=
          decoded_validFor hdec (hr.subscriber.trans hu.subscriber.symm)
        have howner : u.owner ≠ unownedState := by
          rw [hu.owner]
          exact box_ne_unowned _
        simp only [SimMain.receiveLoop, appliedFrom, hrecv]
        by_cases hdrop : cfg.dropIncomingEvery > 0 ∧
            (st.recvTotal + 1) % cfg.dropIncomingEvery.toUInt64 = 0
        · rw [if_pos hdrop] at hrecord ⊢
          rw [← htotal, ← hrecord, ← hadapter]
          exact ih (hrecord ▸ hr) hrest taken
        · rw [if_neg hdrop] at hrecord ⊢
          have hseen := seen_deliver hr.fresh hu.generation howner hv
          have hnext := hr.deliver hu hv
          rw [← hrecord] at hseen hnext
          obtain ⟨hrecord', hadapter', hexec⟩ := ih hnext hrest (taken ++ [message])
          rw [htotal] at hexec
          refine ⟨hrecord', hadapter'.trans hadapter, ?_⟩
          rw [List.map_cons, exec_cons, BoxState.step, hdec]
          dsimp only
          rw [hseen, hexec, List.append_assoc]
          rfl
      · have hrecv := (zmqRecvUpdate_eq message).trans hnone
        simp [SimMain.receiveLoop, appliedFrom, hrecv, hr]

/-! ### The claim of a tick -/

theorem claimIteration_record {σ : Type*} (zmqSend : Frame → σ → Int × σ) (boxId : UInt16)
    (dup : UInt32) (now : UInt64) (st : SimState σ) :
    (claimIteration zmqSend boxId dup now st).record =
      (claimLocal st.record boxId now (some (zmqEmitUpdate zmqSend)) st.adapter
        st.result).record := by
  unfold claimIteration
  dsimp only
  split_ifs
  · exact (emitDuplicates_frame zmqSend dup.toNat _).1
  · rfl

theorem zmqEmitUpdate_pubSend (answer : PubLog → Int) (u : SubownUpdate) (log : PubLog) :
    (zmqEmitUpdate (pubSend answer) u log).2 = log ++ [(frameBytes u, answer log)] := by
  unfold zmqEmitUpdate
  rw [encodeUpdateV1_frameSize]
  dsimp only
  split_ifs <;> rfl

theorem emitDuplicates_log (answer : PubLog → Int) (n : ℕ) (st : SimState PubLog)
    {sent : Frame × Int} (h : sent ∈ (emitDuplicates (pubSend answer) n st).adapter) :
    sent ∈ st.adapter ∨ n ≠ 0 ∧ sent.1 = frameBytes (duplicateUpdate st.record) := by
  induction n generalizing st with
  | zero => exact Or.inl h
  | succ n ih =>
      rcases ih _ h with hbefore | ⟨_, hdup⟩
      · rw [zmqEmitUpdate_pubSend] at hbefore
        rcases List.mem_append.mp hbefore with hbefore | hnew
        · exact Or.inl hbefore
        · rw [List.mem_singleton.mp hnew]
          exact Or.inr ⟨n.succ_ne_zero, rfl⟩
      · exact Or.inr ⟨n.succ_ne_zero, hdup⟩

/-- Box 0 sends its duplicates as it sent the claim; box 1 must not send any. -/
theorem claimIteration_log (answer : PubLog → Int) {dup : UInt32} (hdup : b = .box0 ∨ dup = 0)
    {st : SimState PubLog} (hpolicy : st.record.policyMask = 0) {sent : Frame × Int}
    (h : sent ∈ (claimIteration (pubSend answer) b.id.toUInt16 dup now st).adapter) :
    sent ∈ st.adapter ∨ ¬ st.record.HeldBy b.id.toUInt16 ∧
      sent.1 = frameBytes (claimUpdate (claimedRecord st.record b.id now)) := by
  unfold claimIteration at h
  by_cases hheld : st.record.HeldBy b.id.toUInt16
  · rw [claimLocal_refresh hheld.1 hheld.2] at h
    exact Or.inl h
  rw [claimLocal_claim hheld, toUInt8_toUInt16] at h
  have hlog := zmqEmitUpdate_pubSend answer (claimUpdate (claimedRecord st.record b.id now))
    st.adapter
  have hfirst : sent ∈ st.adapter ++
      [(frameBytes (claimUpdate (claimedRecord st.record b.id now)), answer st.adapter)] →
      sent ∈ st.adapter ∨ ¬ st.record.HeldBy b.id.toUInt16 ∧
        sent.1 = frameBytes (claimUpdate (claimedRecord st.record b.id now)) := by
    intro hmem
    rcases List.mem_append.mp hmem with hbefore | hnew
    · exact Or.inl hbefore
    · rw [List.mem_singleton.mp hnew]
      exact Or.inr ⟨hheld, rfl⟩
  dsimp only at h
  by_cases hsent : (zmqEmitUpdate (pubSend answer)
      (claimUpdate (claimedRecord st.record b.id now)) st.adapter).1 = .ok
  · rw [if_pos hsent, if_pos ⟨rfl, rfl⟩] at h
    rcases emitDuplicates_log answer dup.toNat _ h with hbefore | ⟨hsome, hframe⟩
    · rw [hlog] at hbefore
      exact hfirst hbefore
    · have hbox := hdup.resolve_right fun hzero => hsome (by rw [hzero]; rfl)
      refine Or.inr ⟨hheld, hframe.trans ?_⟩
      exact (duplicate_frame_iff st.record b now).mpr ⟨hbox, hpolicy⟩
  · rw [if_neg hsent] at h
    have hbefore : sent ∈ (zmqEmitUpdate (pubSend answer)
      (claimUpdate (claimedRecord st.record b.id now)) st.adapter).2 := h
    rw [hlog] at hbefore
    exact hfirst hbefore

/-- The first part of a tick, as an input of the box. -/
theorem claimStep_view {cfg : SimCfg} (hbox : cfg.boxId = b.id.toUInt16) (answer : PubLog → Int)
    {x : SimNode} (tick : SimTick) (hn : n < 0xFFFFFFFF)
    (hr : SimRecord sid epoch n b x.main.record) :
    let st := x.main.claimStep cfg (pubSend answer) tick.now
    SimRecord sid epoch (n + 1) b st.record ∧ st.recvTotal = x.main.recvTotal ∧
      exec (BoxState.step b) x.view
          (if shouldClaimOnIter cfg x.main.i x.main.claimedOnce = true then [.claim tick.now]
            else []) =
        ⟨st.record.seen, x.claimed ++ x.claimedBy cfg tick, x.heard⟩ := by
  unfold SimMain.claimStep
  by_cases hclaims : shouldClaimOnIter cfg x.main.i x.main.claimedOnce = true
  · rw [if_pos hclaims, if_pos hclaims, hbox]
    have hrecord := claimIteration_record (pubSend answer) b.id.toUInt16 cfg.emitDupCount tick.now
      x.main.toSimState
    refine ⟨?_, rfl, ?_⟩
    · dsimp only
      rw [hrecord]
      exact hr.claim hn tick.now _ _ _
    · have hseen := seen_claim x.main.record b.id.toUInt16 tick.now
        (zmqEmitUpdate (pubSend answer)) wireEmitter x.main.adapter x.claimed x.main.result
        unsetResult
      dsimp only
      rw [exec_singleton, BoxState.step, hrecord]
      dsimp only [SimNode.view]
      rw [hseen]
      congr 1
      by_cases hheld : x.main.record.HeldBy b.id.toUInt16
      · have hnone : x.claimedBy cfg tick = [] := if_neg fun h => h.2 (hbox ▸ hheld)
        have hheld' := seen_heldBy.mpr hheld
        rw [claimLocal_refresh hheld'.1 hheld'.2, hnone, List.append_nil]
      · have hnew : x.claimedBy cfg tick =
            [frameBytes (claimUpdate (claimedRecord x.main.record cfg.boxId.toUInt8 tick.now))] :=
          if_pos ⟨hclaims, hbox ▸ hheld⟩
        rw [claimLocal_claim (seen_heldBy.not.mpr hheld), hnew, claimedRecord_seen, hbox]
        dsimp only
        rw [wireEmitter_eq, if_pos rfl]
  · have hnone : x.claimedBy cfg tick = [] := if_neg fun h => hclaims h.1
    rw [if_neg hclaims, if_neg hclaims, hnone, List.append_nil]
    exact ⟨hr.mono, rfl, rfl⟩

/-! ### A tick -/

theorem mem_appliedFrom {cfg : SimCfg} {recvTotal : UInt64} {messages : List (List UInt8)}
    {m : List UInt8} (h : m ∈ appliedFrom cfg recvTotal messages) :
    m ∈ messages ∧ ∃ u, decodeUpdateV1 m = some u := by
  induction messages generalizing recvTotal with
  | nil => cases h
  | cons message rest ih =>
      rw [appliedFrom] at h
      cases hrecv : zmqRecvUpdate message with
      | none =>
          rw [hrecv] at h
          cases h
      | some u =>
          rw [hrecv] at h
          dsimp only at h
          split_ifs at h
          · exact (ih h).imp_left (List.mem_cons_of_mem _)
          · rcases List.mem_cons.mp h with rfl | h
            · exact ⟨List.mem_cons_self, u, (zmqRecvUpdate_eq m).symm.trans hrecv⟩
            · exact (ih h).imp_left (List.mem_cons_of_mem _)

theorem ClaimOrNoise.mono {m : List UInt8} (h : ClaimOrNoise sid epoch n b m) :
    ClaimOrNoise sid epoch (n + 1) b m :=
  h.imp_left fun ⟨u, hdec, hu⟩ => ⟨u, hdec, hu.mono⟩

section Tick

variable {cfg : SimCfg} {answer : PubLog → Int} {x : SimNode} {tick : SimTick}

/-- To its record, a tick is the inputs of the box it stands for. -/
theorem tick_view (answer : PubLog → Int) (hbox : cfg.boxId = b.id.toUInt16)
    (hn : n < 0xFFFFFFFF)
    (hr : SimRecord sid epoch n b x.main.record)
    (hmessages : ∀ m ∈ x.main.pending ++ tick.arrived, ClaimOrNoise sid epoch n b.other m)
    (hrunning : x.main.Running cfg) :
    let y := x.step cfg answer tick
    SimRecord sid epoch (n + 1) b y.main.record ∧
      y.view = exec (BoxState.step b) x.view (x.inputs cfg tick) ∧
      y.main.adapter = (x.main.claimStep cfg (pubSend answer) tick.now).adapter := by
  obtain ⟨hclaimed, htotal, hview⟩ := claimStep_view hbox answer tick hn hr
  obtain ⟨hrecord, hadapter, hexec⟩ := receiveLoop_delivers cfg hclaimed
    (fun m hm => (hmessages m hm).mono) (x.claimed ++ x.claimedBy cfg tick) x.heard
  rw [SimNode.step, if_pos hrunning]
  refine ⟨hrecord, ?_, hadapter⟩
  rw [SimNode.inputs, exec_append, hview, ← htotal, hexec]
  rfl

theorem tick_claimed (hrunning : x.main.Running cfg) :
    (x.step cfg answer tick).claimed = x.claimed ++ x.claimedBy cfg tick := by
  rw [SimNode.step, if_pos hrunning]

/-- A tick leaves nothing waiting that was not there. -/
theorem tick_waiting (hrunning : x.main.Running cfg) {m : List UInt8}
    (hm : m ∈ (x.step cfg answer tick).main.pending) : m ∈ x.main.pending ++ tick.arrived := by
  rw [SimNode.step, if_pos hrunning, iteration_eq] at hm
  exact List.mem_of_mem_drop hm

/-- What the PUB socket takes in a tick is the claim of the tick. -/
theorem tick_published (hbox : cfg.boxId = b.id.toUInt16)
    (hdup : b = .box0 ∨ cfg.emitDupCount = 0) (hpolicy : x.main.record.policyMask = 0)
    (hf : f ∈ published (x.main.claimStep cfg (pubSend answer) tick.now).adapter) :
    f ∈ published x.main.adapter ∨ f ∈ x.claimedBy cfg tick := by
  obtain ⟨sent, hsent, rfl⟩ := List.mem_map.mp hf
  obtain ⟨hsent, htaken⟩ := List.mem_filter.mp hsent
  unfold SimMain.claimStep at hsent
  by_cases hclaims : shouldClaimOnIter cfg x.main.i x.main.claimedOnce = true
  · rw [if_pos hclaims, hbox] at hsent
    rcases claimIteration_log answer hdup hpolicy hsent with hbefore | ⟨hfree, hframe⟩
    · exact Or.inl (List.mem_map.mpr ⟨sent, List.mem_filter.mpr ⟨hbefore, htaken⟩, rfl⟩)
    · refine Or.inr ?_
      rw [hframe, SimNode.claimedBy, if_pos ⟨hclaims, hbox ▸ hfree⟩, hbox, toUInt8_toUInt16]
      exact List.mem_singleton.mpr rfl
  · rw [if_neg hclaims] at hsent
    exact Or.inl (List.mem_map.mpr ⟨sent, List.mem_filter.mpr ⟨hsent, htaken⟩, rfl⟩)

theorem tick_claims (hbox : cfg.boxId = b.id.toUInt16) (hn : n < 0xFFFFFFFF)
    (hr : SimRecord sid epoch n b x.main.record) (hf : f ∈ x.claimedBy cfg tick) :
    ∃ u, decodeUpdateV1 f = some u ∧ SimClaim sid epoch (n + 1) b u := by
  unfold SimNode.claimedBy at hf
  rw [hbox, toUInt8_toUInt16] at hf
  split_ifs at hf
  · obtain rfl := List.mem_singleton.mp hf
    exact ⟨_, decodeUpdateV1_claim b.isBoxId.known _ _, hr.claims hn tick.now⟩
  · cases hf

/-- The inputs are ones the box may take. -/
theorem tick_inputs {frames : List Frame} (hn : n < 0xFFFFFFFF)
    (hr : SimRecord sid epoch n b x.main.record)
    (hmessages : ∀ m ∈ x.main.pending ++ tick.arrived,
      m ∈ frames ∨ decodeUpdateV1 m = none) :
    Each (BoxState.step b)
      (fun x input => x.CanClaim b input ∧ ∀ f, input = .deliver f → f ∈ frames)
      x.view (x.inputs cfg tick) := by
  refine each_append.mpr ⟨?_, Each.of_mem fun y input hinput => ?_⟩
  · split_ifs
    · refine ⟨⟨fun _ => ?_, nofun⟩, trivial⟩
      have hgen : x.view.record.generation = x.main.record.generation := by
        change x.main.record.seen.generation = _
        unfold SubownRecord.seen
        split_ifs <;> rfl
      rw [hgen]
      exact hr.generation_ne hn
    · trivial
  · obtain ⟨m, hm, rfl⟩ := List.mem_map.mp hinput
    obtain ⟨hmem, u, hdec⟩ := mem_appliedFrom hm
    refine ⟨trivial, fun f e => ?_⟩
    cases e
    rcases hmessages m hmem with hframe | hnone
    · exact hframe
    · cases hdec.symm.trans hnone

end Tick

/-! ### Both simulators -/

/-- Two simulators of one subscriber that start in one epoch. Box 1 injects no duplicates:
they would claim in the name of box 0. -/
structure SimPeers (cfg : Box → SimCfg) (sid : UInt64) (epoch : UInt32) : Prop where
  box : ∀ b, (cfg b).boxId = b.id.toUInt16
  subscriber : ∀ b, (cfg b).subscriberId = sid
  epoch : ∀ b, (cfg b).ownerEpoch = epoch
  duplicates : (cfg .box1).emitDupCount = 0

theorem SimPeers.no_duplicates {cfg : Box → SimCfg} (h : SimPeers cfg sid epoch) (b : Box) :
    b = .box0 ∨ (cfg b).emitDupCount = 0 := by
  cases b with
  | box0 => exact Or.inl rfl
  | box1 => exact Or.inr h.duplicates

structure SimReached (sid : UInt64) (epoch : UInt32) (n : ℕ) (p : SimPair) : Prop where
  record : ∀ b, SimRecord sid epoch n b (p b).main.record
  claimed : ∀ b, ∀ f ∈ (p b).claimed, ∃ u, decodeUpdateV1 f = some u ∧ SimClaim sid epoch n b u
  published : ∀ b, ∀ f ∈ published (p b).main.adapter, f ∈ (p b).claimed
  waiting : ∀ b, ∀ m ∈ (p b).main.pending, m ∈ (p b.other).claimed ∨ decodeUpdateV1 m = none
  pair : PairInv sid p.view

/-- A list of inputs of one box is a run of the pair. -/
theorem each_one_box {p : PairState} {inputs : List BoxInput}
    (h : Each (BoxState.step b)
      (fun x input => x.CanClaim b input ∧ ∀ f, input = .deliver f → f ∈ (p b.other).emitted)
      (p b) inputs) :
    Each PairState.step PairState.Allowed p (inputs.map (Prod.mk b)) := by
  induction inputs generalizing p with
  | nil => trivial
  | cons input inputs ih =>
      have hself : p.step (b, input) b = (p b).step b input := Function.update_self ..
      have hother : p.step (b, input) b.other = p b.other := Function.update_of_ne b.other_ne _ _
      refine ⟨h.1, ih ?_⟩
      rw [hself, hother]
      exact h.2

namespace SimPair

variable {cfg : Box → SimCfg} {answer : Box → PubLog → Int} {tick : SimTick}

theorem step_self (p : SimPair) : p.step cfg answer (b, tick) b =
    (p b).step (cfg b) (answer b) tick := Function.update_self ..

theorem step_other (p : SimPair) : p.step cfg answer (b, tick) b.other = p b.other :=
  Function.update_of_ne b.other_ne _ _

theorem step_stopped {p : SimPair} (h : ¬ (p b).main.Running (cfg b)) :
    p.step cfg answer (b, tick) = p := by
  rw [SimPair.step, SimNode.step, if_neg h, Function.update_eq_self]

theorem view_update (p : SimPair) (b : Box) (y : SimNode) :
    SimPair.view (Function.update p b y) = Function.update p.view b y.view := by
  funext d
  by_cases hd : d = b
  · subst hd
    rw [SimPair.view, Function.update_self, Function.update_self]
  · rw [SimPair.view, Function.update_of_ne hd, Function.update_of_ne hd]
    rfl

end SimPair

namespace SimReached

variable {cfg : Box → SimCfg} {answer : Box → PubLog → Int} {p : SimPair}
  {input : Box × SimTick} {tick : SimTick}

theorem start (hpeers : SimPeers cfg sid epoch) (now : Box → UInt64) (result : Box → SubownResult) :
    SimReached sid epoch 0 (SimPair.start cfg now result) where
  record b := ⟨hpeers.subscriber b, hpeers.epoch b, rfl, le_rfl, Or.inl ⟨rfl, rfl⟩⟩
  claimed b f hf := by cases hf
  published b f hf := by cases hf
  waiting b m hm := by cases hm
  pair := by
    have hpair := PairInv.start (p := (SimPair.start cfg now result).view)
      ⟨(hpeers.subscriber .box0).trans (hpeers.subscriber .box1).symm,
        fun _ => ⟨rfl, rfl, rfl, rfl⟩, fun _ => ⟨rfl, rfl⟩⟩
    have hsid : ((SimPair.start cfg now result).view .box0).record.subscriberId = sid :=
      hpeers.subscriber .box0
    rwa [hsid] at hpair

theorem mono (hi : SimReached sid epoch n p) : SimReached sid epoch (n + 1) p :=
  ⟨fun b => (hi.record b).mono,
    fun b f hf => (hi.claimed b f hf).imp fun _ hu => ⟨hu.1, hu.2.mono⟩,
    hi.published, hi.waiting, hi.pair⟩

/-- What waits at a simulator or reaches it is a frame of the other or does not decode. -/
theorem messages (hi : SimReached sid epoch n p) (hnet : p.Network (b, tick)) :
    ∀ m ∈ (p b).main.pending ++ tick.arrived,
      m ∈ (p b.other).claimed ∨ decodeUpdateV1 m = none := by
  intro m hm
  rcases List.mem_append.mp hm with hm | hm
  · exact hi.waiting b m hm
  · exact (hnet m hm).imp_left (hi.published b.other m)

section Tick

variable (hpeers : SimPeers cfg sid epoch) (hn : n < 0xFFFFFFFF) (hi : SimReached sid epoch n p)
  (hnet : p.Network (b, tick)) (hrunning : (p b).main.Running (cfg b))
include hpeers hn hi hnet hrunning

theorem own_view : let y := (p b).step (cfg b) (answer b) tick
    SimRecord sid epoch (n + 1) b y.main.record ∧
      y.view = exec (BoxState.step b) (p b).view ((p b).inputs (cfg b) tick) ∧
      y.main.adapter =
        ((p b).main.claimStep (cfg b) (pubSend (answer b)) tick.now).adapter :=
  tick_view (answer b) (hpeers.box b) hn (hi.record b)
    (fun m hm => (hi.messages hnet m hm).imp_left (hi.claimed b.other m)) hrunning

theorem record_step (d : Box) :
    SimRecord sid epoch (n + 1) d (p.step cfg answer (b, tick) d).main.record := by
  obtain rfl | rfl := b.eq_or_eq_other d
  · rw [SimPair.step_self]
    exact (hi.own_view hpeers hn hnet hrunning).1
  · rw [SimPair.step_other]
    exact (hi.record b.other).mono

omit hnet in
theorem claimed_step (d : Box) : ∀ f ∈ (p.step cfg answer (b, tick) d).claimed,
    ∃ u, decodeUpdateV1 f = some u ∧ SimClaim sid epoch (n + 1) d u := by
  intro f hf
  obtain rfl | rfl := b.eq_or_eq_other d
  · rw [SimPair.step_self, tick_claimed hrunning] at hf
    rcases List.mem_append.mp hf with hf | hf
    · exact hi.mono.claimed d f hf
    · exact tick_claims (hpeers.box d) hn (hi.record d) hf
  · rw [SimPair.step_other] at hf
    exact hi.mono.claimed b.other f hf

theorem published_step (d : Box) :
    ∀ f ∈ Subown.published (p.step cfg answer (b, tick) d).main.adapter,
      f ∈ (p.step cfg answer (b, tick) d).claimed := by
  intro f hf
  obtain rfl | rfl := b.eq_or_eq_other d
  · rw [SimPair.step_self, (hi.own_view hpeers hn hnet hrunning).2.2] at hf
    rw [SimPair.step_self, tick_claimed hrunning]
    rcases tick_published (hpeers.box d) (hpeers.no_duplicates d) (hi.record d).policy hf with
      hf | hf
    · exact List.mem_append_left _ (hi.published d f hf)
    · exact List.mem_append_right _ hf
  · rw [SimPair.step_other] at hf ⊢
    exact hi.published b.other f hf

omit hpeers hn in
theorem waiting_step (d : Box) : ∀ m ∈ (p.step cfg answer (b, tick) d).main.pending,
    m ∈ (p.step cfg answer (b, tick) d.other).claimed ∨ decodeUpdateV1 m = none := by
  intro m hm
  obtain rfl | rfl := b.eq_or_eq_other d
  · rw [SimPair.step_self] at hm
    rw [SimPair.step_other]
    exact hi.messages hnet m (tick_waiting hrunning hm)
  · rw [SimPair.step_other] at hm
    rw [Box.other_other, SimPair.step_self, tick_claimed hrunning]
    have hkept := hi.waiting b.other m hm
    rw [Box.other_other] at hkept
    exact hkept.imp_left (List.mem_append_left _)

/-- To the two boxes the tick is a run of one of them. -/
theorem pair_step : PairInv sid (p.step cfg answer (b, tick)).view := by
  have hrun : (p.step cfg answer (b, tick)).view =
      exec PairState.step p.view (((p b).inputs (cfg b) tick).map (Prod.mk b)) := by
    rw [exec_one_box, SimPair.step, SimPair.view_update]
    exact congrArg (Function.update p.view b) (hi.own_view hpeers hn hnet hrunning).2.1
  rw [hrun]
  exact exec_inv (fun _ input hi hallowed => hi.step input hallowed) hi.pair
    (each_one_box (tick_inputs hn (hi.record b) (hi.messages hnet)))

end Tick

theorem step (hpeers : SimPeers cfg sid epoch) (hn : n < 0xFFFFFFFF)
    (hi : SimReached sid epoch n p) (hnet : p.Network input) :
    SimReached sid epoch (n + 1) (p.step cfg answer input) := by
  obtain ⟨b, tick⟩ := input
  by_cases hrunning : (p b).main.Running (cfg b)
  · exact ⟨hi.record_step hpeers hn hnet hrunning, hi.claimed_step hpeers hn hrunning,
      hi.published_step hpeers hn hnet hrunning, hi.waiting_step hnet hrunning,
      hi.pair_step hpeers hn hnet hrunning⟩
  · rw [SimPair.step_stopped hrunning]
    exact hi.mono

theorem run (hpeers : SimPeers cfg sid epoch) (hi : SimReached sid epoch n p)
    {inputs : List (Box × SimTick)} (hlength : n + inputs.length ≤ 0xFFFFFFFF)
    (hnet : Each (SimPair.step cfg answer) SimPair.Network p inputs) :
    SimReached sid epoch (n + inputs.length) (exec (SimPair.step cfg answer) p inputs) :=
  exec_of_budget (fun _ _ _ hn hi hnet => hi.step hpeers hn hnet) hi hlength hnet

end SimReached

/-! ### Convergence -/

/-- Both simulators hold the claim `u` of simulator `d`, the best of all, and print one final
line; only `d` takes the subscriber for its own. -/
structure SimAgreed (p : SimPair) (d : Box) (u : SubownUpdate) : Prop where
  made : ∃ f ∈ (p d).claimed, decodeUpdateV1 f = some u
  best : ∀ b, ∀ f ∈ (p b).claimed, ∀ v, decodeUpdateV1 f = some v → v.key ≤ u.key
  held : ∀ b, (p b).main.record.ownership = u.ownership
  printed : ∀ b, (p b).main.record.ownerBoxId = d.id.toUInt16
  owner : (p d).main.record.state = .stateLocal
  peer : (p d.other).main.record.state = .stateRemote

namespace SimRecord

theorem owner_ne (h : SimRecord sid epoch n b r) (hstate : r.state ≠ .stateUnowned) :
    r.ownerBox ≠ unownedState ∧ r.ownerBoxId = r.ownerBox.toUInt16 := by
  obtain ⟨hun, _⟩ | ⟨_, howner, hid⟩ | ⟨_, howner, hid⟩ := h.owner
  · exact absurd hun hstate
  · rw [howner, hid]
    exact ⟨box_ne_unowned b, rfl⟩
  · rw [howner, hid]
    exact ⟨box_ne_unowned b.other, rfl⟩

theorem local_of_owner (h : SimRecord sid epoch n b r) (hstate : r.state ≠ .stateUnowned)
    (howner : r.ownerBox = b.id) : r.state = .stateLocal := by
  obtain ⟨hun, _⟩ | ⟨hlocal, _⟩ | ⟨_, hother, _⟩ := h.owner
  · exact absurd hun hstate
  · exact hlocal
  · exact absurd (howner.symm.trans hother) b.id_ne_other

theorem remote_of_owner (h : SimRecord sid epoch n b r) (hstate : r.state ≠ .stateUnowned)
    (howner : r.ownerBox = b.other.id) : r.state = .stateRemote := by
  obtain ⟨hun, _⟩ | ⟨_, hself, _⟩ | ⟨hremote, _⟩ := h.owner
  · exact absurd hun hstate
  · exact absurd (hself.symm.trans howner) b.id_ne_other
  · exact hremote

end SimRecord

namespace SimReached

variable {p : SimPair} (hi : SimReached sid epoch n p)
include hi

theorem claim_of_mem (hu : u ∈ (p.view b).claims) : SimClaim sid epoch n b u := by
  obtain ⟨f, hf, hdec⟩ := List.mem_filterMap.mp hu
  obtain ⟨v, hv, hclaim⟩ := hi.claimed b f hf
  obtain rfl := Option.some.inj (hdec.symm.trans hv)
  exact hclaim

/-- A simulator that knows a claim has an owner in its record. -/
theorem owned (hu : (p.view b).Knows u) : (p b).main.record.state ≠ .stateUnowned := by
  intro hstate
  have hclaim : u.ownerEpoch = epoch ∧ u.generation ≠ 0 := by
    rcases hu with hu | hu
    · have hclaim := hi.claim_of_mem hu
      exact ⟨hclaim.epoch, hclaim.generation⟩
    · have hclaim := hi.claim_of_mem (hi.pair.heard_claims hu)
      exact ⟨hclaim.epoch, hclaim.generation⟩
  have hle := stamp_le_of_key_le ((hi.pair.box b).covers u hu)
  have hstamp : (p.view b).record.stamp = stampOf epoch 0 := by
    change (p b).main.record.seen.stamp = _
    rw [SubownRecord.seen, if_pos hstate]
    exact stampOf_inj.mpr ⟨(hi.record b).epoch, (hi.record b).fresh hstate⟩
  rw [hstamp] at hle
  refine absurd hle (not_le.mpr (stampOf_lt.mpr (Or.inr ⟨hclaim.1.symm, ?_⟩)))
  exact UInt32.pos_iff_ne_zero.mpr hclaim.2

/-- Once both records are owned and everything was applied, they agree. -/
theorem agreed (hq : p.Quiescent) (howned : ∀ b, (p b).main.record.state ≠ .stateUnowned) :
    ∃ d u, SimAgreed p d u := by
  have hseen : ∀ b, (p.view b).record = (p b).main.record := fun b => seen_owned (howned b)
  have hall : p.view.AllDelivered := by
    intro b f hf
    have htaken := hq b.other f hf
    rwa [Box.other_other] at htaken
  obtain ⟨d, u, hu, hheld, hbest⟩ := hi.pair.settled_best hall fun b => by
    rw [hseen b]
    exact ((hi.record b).owner_ne (howned b)).1
  have howner : ∀ b, (p b).main.record.ownerBox = d.id := by
    intro b
    rw [← hseen b, ← hi.pair.sender_claims hu]
    exact congrArg Ownership.ownerBox (hheld b)
  obtain ⟨f, hf, hdec⟩ := List.mem_filterMap.mp hu
  refine ⟨d, u, ⟨f, hf, hdec⟩, ?_, fun b => ?_, fun b => ?_, ?_, ?_⟩
  · intro b f hf v hv
    exact hbest b v (List.mem_filterMap.mpr ⟨f, hf, hv⟩)
  · rw [← hseen b]
    exact hheld b
  · rw [((hi.record b).owner_ne (howned b)).2, howner b]
  · exact (hi.record d).local_of_owner (howned d) (howner d)
  · refine (hi.record d.other).remote_of_owner (howned d.other) ?_
    rw [Box.other_other]
    exact howner d.other

end SimReached

/-- Two simulators of one subscriber, whatever their schedules, injected drops and answers of
the PUB sockets and whatever the network loses, duplicates and reorders: when each has
applied all claims of the other, nobody has claimed or both end with the best claim. -/
theorem simulators_converge {cfg : Box → SimCfg} {answer : Box → PubLog → Int}
    (hpeers : SimPeers cfg sid epoch) (now : Box → UInt64) (result : Box → SubownResult)
    {inputs : List (Box × SimTick)} (hlength : inputs.length ≤ 0xFFFFFFFF)
    (hnet : Each (SimPair.step cfg answer) SimPair.Network (SimPair.start cfg now result) inputs)
    (hq : (exec (SimPair.step cfg answer) (SimPair.start cfg now result) inputs).Quiescent) :
    let p := exec (SimPair.step cfg answer) (SimPair.start cfg now result) inputs
    (∀ b, (p b).claimed = []) ∨ ∃ d u, SimAgreed p d u := by
  intro p
  have hi : SimReached sid epoch (0 + inputs.length) p :=
    (SimReached.start hpeers now result).run hpeers (by rwa [Nat.zero_add]) hnet
  by_cases hnone : ∀ b, (p b).claimed = []
  · exact Or.inl hnone
  obtain ⟨d, hd⟩ := not_forall.mp hnone
  obtain ⟨f, hf⟩ := List.exists_mem_of_ne_nil _ hd
  obtain ⟨u, hdec, _⟩ := hi.claimed d f hf
  refine Or.inr (hi.agreed hq fun b => hi.owned (u := u) ?_)
  obtain rfl | rfl := d.eq_or_eq_other b
  · exact Or.inl (List.mem_filterMap.mpr ⟨f, hf, hdec⟩)
  · exact Or.inr (List.mem_filterMap.mpr ⟨f, hq d f hf, hdec⟩)

/-- Both claim in their first iteration, as `--claim-at 1` asks. -/
def raceCfg (b : Box) : SimCfg :=
  { defaultCfg with boxId := b.id.toUInt16, claimAt := [1], iterations := 2 }

def raceTicks : List (Box × SimTick) :=
  [(.box0, ⟨5, []⟩), (.box1, ⟨6, []⟩),
    (.box1, ⟨7, [frameBytes (claimUpdate (claimedRecord (simRecord 1001 0 1) 0 5))]⟩),
    (.box0, ⟨8, [frameBytes (claimUpdate (claimedRecord (simRecord 1001 0 1) 1 6))]⟩)]

instance (p : SimPair) (input : Box × SimTick) : Decidable (p.Network input) :=
  inferInstanceAs (Decidable (∀ message ∈ input.2.arrived, _ ∨ _))

theorem simulators_converge_race :
    let p := exec (SimPair.step raceCfg fun _ _ => 40)
      (SimPair.start raceCfg (fun _ => 0) fun _ => unsetResult) raceTicks
    (∀ b, (p b).claimed = []) ∨ ∃ d u, SimAgreed p d u := by
  have hpeers : SimPeers raceCfg 1001 1 :=
    ⟨fun b => by cases b <;> rfl, fun _ => rfl, fun _ => rfl, rfl⟩
  exact simulators_converge hpeers _ _ (by decide) (by decide +kernel)
    (fun b => by cases b <;> decide +kernel)

/-- Box 1 claims alone and injects a duplicate: the peer takes box 0 for the owner. -/
example :
    let cfg : Box → SimCfg := fun b =>
      { raceCfg b with claimAt := if b = .box1 then [1] else [2], emitDupCount := 1 }
    let step := SimPair.step cfg fun _ _ => 40
    let p := step (SimPair.start cfg (fun _ => 0) fun _ => unsetResult) (.box1, ⟨6, []⟩)
    let q := step p (.box0, ⟨8, published (p .box1).main.adapter⟩)
    (p .box1).main.record.ownerBoxId = 1 ∧ (q .box0).main.record.ownerBoxId = 0 ∧
      (q .box0).main.record.state = .stateRemote := by
  decide +kernel

end Subown
