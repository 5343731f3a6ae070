import Subown.AdapterStep

/-! Failed calls and the state they leave. The resolver never touches a record it refuses; a
claim rewrites the record before it runs the emitter, and `on_packet` creates the slot before
the core looks at the box id. -/
namespace Subown

open OwnershipAdapter

section Core

variable {σ : Type*}

def RemoteIntact (r : SubownRecord) (u : SubownUpdate) : Prop :=
  (applyRemoteUpdate r u).status ≠ .ok → (applyRemoteUpdate r u).record = r

def ClaimIntact (r : SubownRecord) (localBoxId : UInt16) (now : UInt64)
    (emitter : Option (EmitUpdateFn σ)) (ctx : σ) (out : SubownResult) : Prop :=
  (claimLocal r localBoxId now emitter ctx out).status ≠ .ok →
    (claimLocal r localBoxId now emitter ctx out).record = r

def PacketEventIntact (r : SubownRecord) (localBoxId : UInt8) (now threshold : UInt64)
    (emitter : Option (EmitUpdateFn σ)) (ctx : σ) (out : SubownResult) : Prop :=
  (processPacketEvent r localBoxId now threshold emitter ctx out).status ≠ .ok →
    (processPacketEvent r localBoxId now threshold emitter ctx out).record = r

/-- There is an emitter, and it refuses the announcement of the claim. -/
def EmitFails (r : SubownRecord) (owner : UInt8) (now : UInt64)
    (emitter : Option (EmitUpdateFn σ)) (ctx : σ) : Prop :=
  ∃ emit, emitter = some emit ∧ (emit (claimUpdate (claimedRecord r owner now)) ctx).1 ≠ .ok

end Core

/-- Two adapters that differ at most in the error counters. -/
def SameButErrors (a' a : OwnershipAdapter) : Prop :=
  ∃ recvErr sendErr, a' = { a with metrics := { a.metrics with
    ownZmqRecvErrTotal := recvErr
    ownZmqSendErrTotal := sendErr } }

def PacketIntact (a : OwnershipAdapter) (s now : UInt64) : Prop :=
  (a.onPacket s now).rc = -1 → SameButErrors (a.onPacket s now).adapter a

/-- A packet fails after the table was written: the core refuses the box id of a new
subscriber, or the outbound queue has no room for the claim of an unowned record. -/
def FailsLate (a : OwnershipAdapter) (s : UInt64) : Prop :=
  a.cfg.mode ≠ .modeDisabled ∧ a.Room s ∧
    ((¬ BoxId a.cfg.localBoxId ∧ a.recordOf s = none) ∨
      (BoxId a.cfg.localBoxId ∧ (a.workingRecord s).ownerBox = unownedState ∧
        nextIdx a.outTail = a.outHead))

variable {σ : Type*} {a a' : OwnershipAdapter} {r : SubownRecord} {s now threshold : UInt64}
  {emitter : Option (EmitUpdateFn σ)} {ctx : σ} {out : SubownResult} {b : UInt8}

/-! ### The core -/

theorem claimedRecord_ne (r : SubownRecord) (b : UInt8) (now : UInt64) :
    claimedRecord r b now ≠ r := by
  intro e
  have hgen : r.generation + 1 = r.generation := congrArg SubownRecord.generation e
  grind

theorem remoteIntact (r : SubownRecord) (u : SubownUpdate) : RemoteIntact r u := by
  intro hfail
  by_cases hv : ValidFor r u
  · exact absurd (applyRemoteUpdate_status hv) hfail
  · rw [applyRemoteUpdate_invalid hv]

theorem claimIntact_iff {localBoxId : UInt16} :
    ClaimIntact r localBoxId now emitter ctx out ↔
      ¬ (¬ (r.ownerBox = localBoxId.toUInt8 ∧ r.state = .stateLocal) ∧
        EmitFails r localBoxId.toUInt8 now emitter ctx) := by
  unfold ClaimIntact EmitFails
  cases emitter with
  | none => simp [claimLocal]
  | some emit =>
      by_cases hrefresh : r.ownerBox = localBoxId.toUInt8 ∧ r.state = .stateLocal
      · simp [claimLocal_refresh hrefresh.1 hrefresh.2, hrefresh]
      · have hne := claimedRecord_ne r localBoxId.toUInt8 now
        rw [claimLocal_claim hrefresh]
        dsimp only
        split_ifs with hok <;> simp [hok, hrefresh, hne]

theorem packetEventIntact_iff :
    PacketEventIntact r b now threshold emitter ctx out ↔
      ¬ (BoxId b ∧ r.ownerBox = unownedState ∧ EmitFails r b now emitter ctx) := by
  unfold PacketEventIntact EmitFails
  by_cases hb : BoxId b
  swap
  · simp [processPacketEvent_rejected hb, hb]
  cases emitter with
  | none =>
      have hintact : (processPacketEvent r b now threshold none ctx out).status ≠ .ok →
          (processPacketEvent r b now threshold none ctx out).record = r := by
        simp only [processPacketEvent]
        split_ifs <;> simp
      refine iff_of_true hintact ?_
      rintro ⟨_, _, emit, e, _⟩
      cases e
  | some emit =>
      obtain ho | ho | ho | ho := hb.owner_cases r.ownerBox
      · simp [processPacketEvent_local hb ho, ho, hb.ne_unowned.1]
      · simp [processPacketEvent_remote hb ho, ho, hb.ne_unowned.2]
      · have hne := claimedRecord_ne r b now
        rw [processPacketEvent_unowned hb ho]
        dsimp only
        split_ifs with hok <;> simp [hok, hb, ho, hne]
      · have hun : r.ownerBox ≠ unownedState := fun e => ho (Or.inr (Or.inr e))
        simp [processPacketEvent_other hb ho, hun]

/-! ### Packets -/

theorem SameButErrors.recordOf (h : SameButErrors a' a) : a'.recordOf = a.recordOf := by
  obtain ⟨_, _, rfl⟩ := h
  exact recordOf_congr rfl

/-- A stored record is refused without a trace when the box id is invalid. -/
theorem onPacket_rejected (h : a.Sound) (hb : ¬ BoxId a.cfg.localBoxId)
    (hmode : a.cfg.mode ≠ .modeDisabled) (hr : a.recordOf s = some r) (now : UInt64) :
    (a.onPacket s now).adapter = a := by
  obtain ⟨i, hlookup, rfl⟩ := lookupSlot_stored h hr
  rw [onPacket_of_lookup hmode hlookup rfl, processPacketEvent_rejected hb]
  change a.writeRecord i (a.table i).record = a
  unfold writeRecord
  rw [Function.update_eq_self]

/-- What a packet wrote is what the map holds afterwards: an intact failure wrote nothing. -/
theorem SameButErrors.stored (h : a.Sound) (hmode : a.cfg.mode ≠ .modeDisabled) (hroom : a.Room s)
    (hsame : SameButErrors (a.onPacket s now).adapter a) : a.recordOf s =
      some (corePacket a.cfg (a.workingRecord s) now a.emitStatus).record := by
  rw [← hsame.recordOf, (onPacket_spec h hmode hroom now).records, Function.update_self]

section Reached

variable (h : a.Sound) (hmode : a.cfg.mode ≠ .modeDisabled) (hroom : a.Room s)
include h hmode hroom

theorem packetIntact_rejected (hb : ¬ BoxId a.cfg.localBoxId) :
    PacketIntact a s now ↔ a.recordOf s ≠ none := by
  have hrc : (a.onPacket s now).rc = -1 := by
    rw [(onPacket_spec h hmode hroom now).rc, corePacket_rejected hb]
    rfl
  cases hr : a.recordOf s with
  | none =>
      refine iff_of_false (fun hintact => ?_) (not_not.mpr rfl)
      have hstored := (hintact hrc).stored h hmode hroom
      rw [hr] at hstored
      cases hstored
  | some r =>
      refine iff_of_true (fun _ => ?_) (Option.some_ne_none r)
      rw [onPacket_rejected h hb hmode hr]
      exact ⟨_, _, rfl⟩

theorem packetIntact_valid (hb : BoxId a.cfg.localBoxId) : PacketIntact a s now ↔
    ¬ ((a.workingRecord s).ownerBox = unownedState ∧ nextIdx a.outTail = a.outHead) := by
  have hrc := (onPacket_spec h hmode hroom now).rc
  have hsuccess : (a.onPacket s now).rc = 0 → PacketIntact a s now := by
    intro h0 h1
    cases h0.symm.trans h1
  obtain ⟨ho, e⟩ | ⟨ho, e⟩ | ⟨ho, hok, e⟩ | ⟨ho, hfail, e⟩ | ⟨ho, e⟩ :=
    corePacket_cases hb (a.workingRecord s) now a.emitStatus
  · rw [e] at hrc
    exact iff_of_true (hsuccess hrc) fun hl => hb.ne_unowned.1 (ho.symm.trans hl.1)
  · rw [e] at hrc
    exact iff_of_true (hsuccess hrc) fun hl => hb.ne_unowned.2 (ho.symm.trans hl.1)
  · rw [e] at hrc
    exact iff_of_true (hsuccess hrc) fun hl => (emitStatus_ok_iff.mp hok) hl.2
  · rw [e] at hrc
    have hfull : nextIdx a.outTail = a.outHead :=
      not_not.mp fun hne => hfail (emitStatus_ok_iff.mpr hne)
    refine iff_of_false (fun hintact => ?_) (not_not.mpr ⟨ho, hfull⟩)
    have hstored := (hintact hrc).stored h hmode hroom
    rw [e] at hstored
    exact claimedRecord_ne _ _ _ (workingRecord_of_some hstored).symm
  · rw [e] at hrc
    exact iff_of_true (hsuccess hrc) fun hl => ho (Or.inr (Or.inr hl.1))

end Reached

theorem packetIntact_iff (h : a.Sound) (s now : UInt64) :
    PacketIntact a s now ↔ ¬ FailsLate a s := by
  obtain hidle | ⟨hmode, hroom⟩ := idle_or_reaches a s
  · have hintact : PacketIntact a s now := by
      intro _
      rw [onPacket_idle hidle]
      exact ⟨_, _, rfl⟩
    exact iff_of_true hintact fun hlate => hidle.elim hlate.1 (not_not.mpr hlate.2.1)
  by_cases hb : BoxId a.cfg.localBoxId
  · rw [packetIntact_valid h hmode hroom hb]
    simp [FailsLate, hmode, hroom, hb]
  · rw [packetIntact_rejected h hmode hroom hb]
    simp [FailsLate, hmode, hroom, hb]

/-- Which failed calls leave the ownership state intact: all of the resolver, those of a claim
and of the fast path whose emitter did not refuse, and the packets that do not fail late. -/
theorem failures_intact_iff (σ : Type*) :
    (∀ r u, RemoteIntact r u) ∧
    (∀ r localBoxId now (emitter : Option (EmitUpdateFn σ)) ctx out,
      ClaimIntact r localBoxId now emitter ctx out ↔
        ¬ (¬ (r.ownerBox = localBoxId.toUInt8 ∧ r.state = .stateLocal) ∧
          EmitFails r localBoxId.toUInt8 now emitter ctx)) ∧
    (∀ r b now threshold (emitter : Option (EmitUpdateFn σ)) ctx out,
      PacketEventIntact r b now threshold emitter ctx out ↔
        ¬ (BoxId b ∧ r.ownerBox = unownedState ∧ EmitFails r b now emitter ctx)) ∧
    (∀ cfg calls s now, PacketIntact ((OwnershipAdapter.create cfg).run calls) s now ↔
      ¬ FailsLate ((OwnershipAdapter.create cfg).run calls) s) :=
  ⟨remoteIntact, fun _ _ _ _ _ _ => claimIntact_iff, fun _ _ _ _ _ _ _ => packetEventIntact_iff,
    fun cfg calls s now => packetIntact_iff ((Grounded.create cfg).run calls).sound s now⟩

/-- A failing emitter leaves the record claimed, and a rejected box id leaves a new slot. -/
theorem failures_not_intact :
    (¬ ∀ r localBoxId now (emitter : Option (EmitUpdateFn Unit)) ctx out,
      ClaimIntact r localBoxId now emitter ctx out) ∧
    ¬ ∀ cfg calls s now, PacketIntact ((OwnershipAdapter.create cfg).run calls) s now := by
  constructor
  · intro h
    have hintact := h (mkRecord 402 1 9) 0 1000 (some fun _ ctx => (.errCallbackFailed, ctx)) ()
      ⟨.noop, .invalidMessage⟩ (by decide)
    exact absurd (congrArg SubownRecord.generation hintact) (by decide)
  · intro h
    obtain ⟨_, _, hsame⟩ := h ⟨.modeEnforce, 2, 3⟩ [] 7 5 (by decide)
    have hused : true = false := congrArg (fun a => (a.table 7).used) hsame
    cases hused

end Subown
