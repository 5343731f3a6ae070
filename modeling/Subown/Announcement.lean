import Subown.AdapterHistory

/-! Announcement of local ownership. A claim rewrites the record before it is queued for
the peer, so a claim that meets a full outbound queue leaves a local owner nobody was
told about. -/
namespace Subown

open OwnershipAdapter RunRules

/-- The frame names the record's subscriber, epoch, generation and owner. -/
def Carries (f : Frame) (r : SubownRecord) : Prop :=
  ∃ u, decodeUpdateV1 f = some u ∧ u.subscriberId = r.subscriberId ∧
    u.ownerEpoch = r.ownerEpoch ∧ u.generation = r.generation ∧ u.ownerBox = r.ownerBox

structure Announced (h : History) : Prop where
  /-- Every local record is owned by the local box and was queued for the peer. -/
  records : ∀ i, (h.adapter.table i).used = true →
    (h.adapter.table i).record.state = .stateLocal →
      (h.adapter.table i).record.ownerBox = h.adapter.cfg.localBoxId ∧
        ∃ f ∈ h.queued, Carries f (h.adapter.table i).record
  /-- A packet that hits a local record hits one that was queued. -/
  hits : ∀ s now, (h.adapter.onPacket s now).rc = 0 →
    (h.adapter.onPacket s now).out.action = .actProcessLocal →
    (h.adapter.onPacket s now).out.reason = SubownReason.localHit.code →
      ∀ r, (h.adapter.onPacket s now).adapter.recordOf s = some r → r.state = .stateLocal →
        ∃ f ∈ h.queued, Carries f r

/-- A packet claims while the outbound queue is full. -/
def BlockedClaim (a : OwnershipAdapter) : AdapterCall → Prop
  | .onPacket s _ => a.cfg.mode ≠ .modeDisabled ∧ a.Room s ∧
      (a.workingRecord s).ownerBox = unownedState ∧ nextIdx a.outTail = a.outHead
  | _ => False

variable {h : History} {cfg : OwnAdapterCfg} {r r' : SubownRecord} {s : UInt64} {f : Frame}
  {call : AdapterCall}

theorem Carries.congr (hf : Carries f r) (hsid : r'.subscriberId = r.subscriberId)
    (hkey : r'.key = r.key) : Carries f r' := by
  obtain ⟨u, hdec, hs, he, hg, ho⟩ := hf
  obtain ⟨he', hg', ho'⟩ := resolverKey_inj.mp hkey
  exact ⟨u, hdec, hs.trans hsid.symm, he.trans he'.symm, hg.trans hg'.symm, ho.trans ho'.symm⟩

/-! ### The invariant -/

/-- A local record is owned here and announced. -/
def LocalAnnounced (b : UInt8) (queued : List Frame) (r : SubownRecord) : Prop :=
  r.state = .stateLocal → r.ownerBox = b ∧ ∃ f ∈ queued, Carries f r

structure AnnouncedInv (cfg : OwnAdapterCfg) (h : History) : Prop
    extends Grounded cfg h.adapter where
  locals : ∀ s, LocalAnnounced cfg.localBoxId h.queued (h.adapter.workingRecord s)

theorem LocalAnnounced.mono {b : UInt8} {queued new : List Frame}
    (hr : LocalAnnounced b queued r) : LocalAnnounced b (queued ++ new) r := by
  intro hstate
  obtain ⟨howner, f, hf, hc⟩ := hr hstate
  exact ⟨howner, f, List.mem_append_left _ hf, hc⟩

theorem LocalAnnounced.congr {b : UInt8} {queued : List Frame} (hr : LocalAnnounced b queued r)
    (hsid : r'.subscriberId = r.subscriberId) (hkey : r'.key = r.key)
    (hstate : r'.state = r.state) : LocalAnnounced b queued r' := by
  intro hlocal
  obtain ⟨howner, f, hf, hc⟩ := hr (hstate.symm.trans hlocal)
  exact ⟨(resolverKey_inj.mp hkey).2.2.trans howner, f, hf, hc.congr hsid hkey⟩

theorem AnnouncedInv.start (cfg : OwnAdapterCfg) : AnnouncedInv cfg (History.start cfg) where
  toGrounded := .create cfg
  locals s hs := by
    have hfresh : (History.start cfg).adapter.workingRecord s = freshRecord s :=
      create_workingRecord cfg s
    rw [hfresh] at hs
    cases hs

/-- A packet keeps what is announced; a claim is announced by the frame it queues. -/
theorem packet_announced (hb : BoxId cfg.localBoxId) {queued : List Frame} (now : UInt64)
    {emitted : SubownStatus} (hblocked : r.ownerBox = unownedState → emitted = .ok)
    (hr : LocalAnnounced cfg.localBoxId queued r) :
    LocalAnnounced cfg.localBoxId
      (queued ++ (corePacket cfg r now emitted).userCtx.toList.map frameBytes)
      (corePacket cfg r now emitted).record := by
  obtain ⟨_, e⟩ | ⟨_, e⟩ | ⟨_, _, e⟩ | ⟨hun, hfail, _⟩ | ⟨_, e⟩ := corePacket_cases hb r now emitted
  · rw [e]
    exact hr.mono.congr rfl rfl rfl
  · obtain ⟨c, hc⟩ := misroute_frame r cfg.migrationThreshold
    rw [e, hc]
    exact hr.mono.congr rfl rfl rfl
  · rw [e]
    intro _
    refine ⟨rfl, _, List.mem_append_right _ (List.mem_singleton.mpr rfl), ?_⟩
    exact ⟨_, decodeUpdateV1_claim hb.known _ _, rfl, rfl, rfl, rfl⟩
  · exact absurd (hblocked hun) hfail
  · rw [e]
    exact hr.mono

/-- The resolver never makes a record local. -/
theorem remote_announced {b : UInt8} {queued : List Frame} {u : SubownUpdate} (hv : ValidFor r u)
    (hr : LocalAnnounced b queued r) :
    LocalAnnounced b queued (applyRemoteUpdate r u).record := by
  rw [applyRemoteUpdate_record hv]
  by_cases hlt : r.key < u.key
  · rw [StrictBest.take_of_lt hlt]
    intro hstate
    change (if u.owner = unownedState then _ else _) = _ at hstate
    split_ifs at hstate
  · rw [StrictBest.take_of_le (not_lt.mp hlt)]
    exact hr

theorem peerDown_announced {b p : UInt8} {queued : List Frame} (hr : LocalAnnounced b queued r) :
    LocalAnnounced b queued (peerDownRecord p r) := by
  unfold peerDownRecord
  split_ifs
  · intro hstate
    cases hstate
  · exact hr

theorem AnnouncedInv.step (hb : BoxId cfg.localBoxId) (hi : AnnouncedInv cfg h)
    (call : AdapterCall) (hblocked : ¬ BlockedClaim h.adapter call) :
    AnnouncedInv cfg (h.step call) := by
  have hspec := step_spec hi.sound call
  have hqueued := queuedBy_eq hi.sound call
  refine ⟨hi.toGrounded.step call, ?_⟩
  intro s
  change LocalAnnounced _ (h.queued ++ h.adapter.queuedBy call)
    ((h.adapter.step call).workingRecord s)
  obtain hw | ⟨c, he, hw⟩ | ⟨p, he, hw⟩ := hspec.working_cases s
  · rw [hw]
    exact (hi.locals s).mono
  · rw [hw]
    rw [he] at hqueued
    obtain ⟨now, rfl, hmode, hroom, rfl⟩ | ⟨m, u, rfl, hdec, _, hsid, rfl⟩ := effect_core he
    · rw [hqueued]
      dsimp only
      rw [CoreCall.apply, hi.config]
      apply packet_announced hb now _ (hi.locals s)
      intro hun
      exact emitStatus_ok_iff.mpr fun hfull => hblocked ⟨hmode, hroom, hun, hfull⟩
    · have hv := decoded_validFor hdec ((workingRecord_subscriberId hi.sound).trans hsid.symm)
      exact (remote_announced hv (hi.locals s)).mono
  · rw [hw]
    exact (peerDown_announced (hi.locals s)).mono

theorem AnnouncedInv.hits (hb : BoxId cfg.localBoxId) (hi : AnnouncedInv cfg h) (s now : UInt64)
    (hrc : (h.adapter.onPacket s now).rc = 0)
    (hreason : (h.adapter.onPacket s now).out.reason = SubownReason.localHit.code)
    (hr : (h.adapter.onPacket s now).adapter.recordOf s = some r) (hstate : r.state = .stateLocal) :
    ∃ f ∈ h.queued, Carries f r := by
  have hba := hi.boxId hb
  by_cases hmode : h.adapter.cfg.mode = .modeDisabled
  · unfold onPacket at hreason
    rw [if_pos hmode] at hreason
    change (0 : UInt8) = 10 at hreason
    exact absurd hreason (by decide)
  have hroom := room_of_rc hmode hrc
  have hspec := onPacket_spec hi.sound hmode hroom now
  have hrec := congrFun hspec.records s
  rw [Function.update_self, hr, Option.some.injEq] at hrec
  have hout := hspec.out
  have hrc' := hspec.rc
  obtain ⟨_, e⟩ | ⟨_, e⟩ | ⟨_, _, e⟩ | ⟨_, _, e⟩ | ⟨_, e⟩ :=
    corePacket_cases hba (h.adapter.workingRecord s) now h.adapter.emitStatus
  · rw [e] at hrec
    subst hrec
    obtain ⟨_, f, hf, hc⟩ := hi.locals s hstate
    exact ⟨f, hf, hc.congr rfl rfl⟩
  · rw [e] at hout
    have hcode := SubownReason.code_inj ((hout rfl).1.symm.trans hreason)
    unfold misroute at hcode
    split_ifs at hcode
  · rw [e] at hout
    cases SubownReason.code_inj ((hout rfl).1.symm.trans hreason)
  · rw [e, hrc] at hrc'
    cases hrc'
  · rw [e] at hout
    cases SubownReason.code_inj ((hout rfl).1.symm.trans hreason)

theorem AnnouncedInv.announced (hb : BoxId cfg.localBoxId) (hi : AnnouncedInv cfg h) :
    Announced h := by
  constructor
  · intro i hused hstate
    have hlocal := hi.locals (h.adapter.table i).record.subscriberId
    rw [workingRecord_of_some (recordOf_used hi.sound hused)] at hlocal
    rw [hi.config]
    exact hlocal hstate
  · intro s now hrc _ hreason r hr hstate
    exact hi.hits hb s now hrc hreason hr hstate

/-- Along a run without a claim on a full queue, every local record was announced. -/
theorem announced_without_blocked_claim (hb : BoxId cfg.localBoxId) (calls : List AdapterCall)
    (hcalls : Each History.step (fun h call => ¬ BlockedClaim h.adapter call)
      (History.start cfg) calls) :
    Always History.step Announced (History.start cfg) calls :=
  always_of_inv (fun _ hi => hi.announced hb) (fun _ call hi hp => hi.step hb call hp)
    (AnnouncedInv.start cfg) hcalls

theorem announced_without_blocked_claim_packets :
    Always History.step Announced (History.start ⟨.modeEnforce, 0, 3⟩)
      [.onPacket 7 5, .onPacket 7 6, .flushOutbound] :=
  announced_without_blocked_claim (Or.inl rfl) _
    ⟨fun hblocked => absurd hblocked.2.2.2 (by decide),
      fun hblocked => absurd hblocked.2.2.2 (by decide), id, trivial⟩

/-! ### A burst of new subscribers -/

/-- What a run of first packets of the subscribers in `done` leaves behind. -/
structure Burst (cfg : OwnAdapterCfg) (done : List UInt64) (h : History) : Prop
    extends Grounded cfg h.adapter where
  known : ∀ t r, h.adapter.recordOf t = some r → t ∈ done
  outHead : h.adapter.outHead.val = 0
  outTail : h.adapter.outTail.val = done.length
  queued : ∀ f ∈ h.queued, ∃ u, decodeUpdateV1 f = some u ∧ u.subscriberId ∈ done

theorem Burst.start (cfg : OwnAdapterCfg) : Burst cfg [] (History.start cfg) where
  toGrounded := .create cfg
  known t r hr := by cases (create_recordOf cfg t).symm.trans hr
  outHead := rfl
  outTail := rfl
  queued f hf := by cases hf

section Burst

variable {done : List UInt64} (hb : BoxId cfg.localBoxId) (hmode : cfg.mode ≠ .modeDisabled)
  (hi : Burst cfg done h) (hnew : s ∉ done)
include hi hnew

theorem Burst.working : h.adapter.workingRecord s = freshRecord s := by
  cases hr : h.adapter.recordOf s with
  | none =>
      rw [workingRecord, hr]
      rfl
  | some r => exact absurd (hi.known s r hr) hnew

omit hnew in
theorem Burst.room (hlen : done.length < ownRecordCap) : h.adapter.Room s := by
  have hcard : (insert s done.toFinset).card ≤ ownRecordCap := by
    have h1 := Finset.card_insert_le s done.toFinset
    have h2 := done.toFinset_card_le
    omega
  apply room_of_card hi.sound hcard _ (Finset.mem_insert_self _ _)
  intro t r hr
  exact Finset.mem_insert_of_mem (List.mem_toFinset.mpr (hi.known t r hr))

include hb hmode

/-- While the queue has room, the first packet of a new subscriber is claimed and queued. -/
theorem Burst.step (hlen : done.length < 511) (now : UInt64) :
    Burst cfg (done ++ [s]) (h.step (.onPacket s now)) := by
  have hba := hi.boxId hb
  have hma := hi.mode hmode
  have hroom : h.adapter.Room s := hi.room (hlen.trans (by decide))
  have hcap : ownOutboundCap = 512 := rfl
  have hnext : (nextIdx h.adapter.outTail).val = done.length + 1 := by
    have hv := CyclicIndex.next_val h.adapter.outTail
    rw [hi.outTail, if_neg (by omega)] at hv
    exact hv
  have hok : h.adapter.emitStatus = .ok := by
    apply emitStatus_ok_iff.mpr
    intro e
    have := congrArg Fin.val e
    rw [hnext, hi.outHead] at this
    omega
  have hspec := onPacket_spec hi.sound hma hroom now
  have hqueued : h.adapter.queuedBy (.onPacket s now) = _ := queuedBy_of_replica hspec.queue
  have hout : corePacket h.adapter.cfg (h.adapter.workingRecord s) now h.adapter.emitStatus =
      ⟨.ok, claimedRecord (freshRecord s) h.adapter.cfg.localBoxId now,
        some (claimUpdate (claimedRecord (freshRecord s) h.adapter.cfg.localBoxId now)),
        ⟨.emitLocalUpdate, .unownedClaim⟩⟩ := by
    rw [hi.working hnew, hok]
    exact (corePacket_unowned hba rfl now .ok).2 rfl
  rw [hout] at hspec hqueued
  obtain ⟨t, hreplica⟩ := hspec.queue
  constructor
  · exact hi.toGrounded.step (.onPacket s now)
  · intro u r hr
    change (h.adapter.onPacket s now).adapter.recordOf u = some r at hr
    rw [hspec.records] at hr
    by_cases hu : u = s
    · exact List.mem_append_right _ (List.mem_singleton.mpr hu)
    · rw [Function.update_of_ne hu] at hr
      exact List.mem_append_left _ (hi.known u r hr)
  · exact (congrArg (fun R => R.outHead.val) hreplica).trans hi.outHead
  · rw [List.length_append, List.length_singleton, ← hnext]
    exact congrArg (fun R => R.outTail.val) hreplica
  · intro f hf
    rcases List.mem_append.mp hf with hf | hf
    · obtain ⟨u, hdec, hu⟩ := hi.queued f hf
      exact ⟨u, hdec, List.mem_append_left _ hu⟩
    · rw [hqueued] at hf
      obtain rfl := List.mem_singleton.mp hf
      exact ⟨_, decodeUpdateV1_claim hba.known _ _,
        List.mem_append_right _ (List.mem_singleton.mpr rfl)⟩

/-- With 511 frames pending, the next new subscriber is claimed and not announced. -/
theorem Burst.blocked (hlen : done.length = 511) (now : UInt64) :
    ¬ Announced (h.step (.onPacket s now)) := by
  have hba := hi.boxId hb
  have hma := hi.mode hmode
  have hroom : h.adapter.Room s := hi.room (hlen.trans_lt (by decide))
  have hcap : ownOutboundCap = 512 := rfl
  have hfull : nextIdx h.adapter.outTail = h.adapter.outHead := by
    apply Fin.ext
    have hv := CyclicIndex.next_val h.adapter.outTail
    rw [hi.outTail, if_pos (by omega)] at hv
    exact hv.trans hi.outHead.symm
  have hfail : h.adapter.emitStatus ≠ .ok := by
    rw [emitStatus, if_pos hfull]
    decide
  have hqueued : h.adapter.queuedBy (.onPacket s now) = [] := by
    cases hq : h.adapter.queuedBy (.onPacket s now) with
    | nil => rfl
    | cons f fs =>
        have hf : f ∈ h.adapter.queuedBy (.onPacket s now) := by
          rw [hq]
          exact List.mem_cons_self
        obtain ⟨t, now', hf⟩ := queuedBy_announces hi.sound hba hf
        have heff := hf.effect
        rw [effect_onPacket hma hroom] at heff
        obtain ⟨_, hcall⟩ := Effect.core.inj heff
        exact absurd (CoreCall.packet.inj hcall).2 hfail
  have hspec := onPacket_spec hi.sound hma hroom now
  have hclaimed := step_claims hi.sound hba (effect_onPacket hma hroom now)
    (congrArg SubownRecord.ownerBox (hi.working hnew))
  obtain ⟨i, hused, hrec, hsid⟩ := (recordOf_eq_some hspec.sound).mp hclaimed
  intro hann
  obtain ⟨_, f, hf, u, hdec, husid, _⟩ :=
    hann.records i hused ((congrArg SubownRecord.state hrec).trans rfl)
  change f ∈ h.queued ++ h.adapter.queuedBy (.onPacket s now) at hf
  rw [hqueued, List.append_nil] at hf
  obtain ⟨v, hdec', hmem⟩ := hi.queued f hf
  obtain rfl := Option.some.inj (hdec'.symm.trans hdec)
  change v.subscriberId = ((h.adapter.onPacket s now).adapter.table i).record.subscriberId at husid
  rw [hrec, hsid] at husid
  exact hnew (husid ▸ hmem)

end Burst

theorem Burst.run (hb : BoxId cfg.localBoxId) (hmode : cfg.mode ≠ .modeDisabled) (ids : List UInt64)
    (now : UInt64) {done : List UInt64} (hi : Burst cfg done h) (hnodup : (done ++ ids).Nodup)
    (hlen : (done ++ ids).length ≤ 511) :
    Burst cfg (done ++ ids) (exec History.step h (ids.map (.onPacket · now))) := by
  induction ids generalizing done h with
  | nil => simpa using hi
  | cons s ids ih =>
      have hnew : s ∉ done := by
        intro hs
        exact (List.disjoint_of_nodup_append hnodup) hs List.mem_cons_self
      have hlen' : done.length < 511 := by
        simp only [List.length_append, List.length_cons] at hlen
        omega
      have hnext := hi.step hb hmode hnew hlen' now
      have happend : done ++ s :: ids = done ++ [s] ++ ids := by simp
      rw [happend] at hnodup hlen ⊢
      exact ih hnext hnodup hlen

/-- First packets of 512 subscribers without a flush: the last one is announced nowhere. -/
theorem burst_overflow (hb : BoxId cfg.localBoxId) (hmode : cfg.mode ≠ .modeDisabled)
    {ids : List UInt64} (hnodup : (ids ++ [s]).Nodup) (hlen : ids.length = 511) (now : UInt64) :
    ¬ Always History.step Announced (History.start cfg) ((ids ++ [s]).map (.onPacket · now)) := by
  intro h
  have hnew : s ∉ ids := fun hs =>
    (List.disjoint_of_nodup_append hnodup) hs (List.mem_singleton.mpr rfl)
  have hburst := (Burst.start cfg).run hb hmode ids now
    (by rw [List.nil_append]; exact List.Nodup.of_append_left hnodup)
    (by rw [List.nil_append]; exact hlen.le)
  apply hburst.blocked hb hmode hnew hlen now
  rw [List.map_append] at h
  have hlast := always_iff_split.mp h _ [] (List.append_nil _).symm
  rw [exec_append] at hlast
  exact hlast

/-- The smoke test's subscribers. -/
def smokeIds (n : ℕ) : List UInt64 := (List.range n).map fun i => (8000 + i).toUInt64

theorem smokeIds_nodup : (smokeIds 512).Nodup := by
  apply List.Nodup.map_on _ List.nodup_range
  intro i hi j hj e
  have hv := congrArg UInt64.toNat e
  simp only [List.mem_range] at hi hj
  simp only [Nat.toUInt64_eq, UInt64.toNat_ofNat'] at hv
  omega

theorem smokeIds_succ (n : ℕ) : smokeIds (n + 1) = smokeIds n ++ [(8000 + n).toUInt64] := by
  rw [smokeIds, List.range_succ, List.map_append]
  rfl

theorem unannounced_after_full_queue :
    ¬ Always History.step Announced (History.start ⟨.modeEnforce, 0, 3⟩)
      ((smokeIds 512).map (.onPacket · 1)) := by
  have hnodup := smokeIds_nodup
  rw [smokeIds_succ] at hnodup ⊢
  have hlen : (smokeIds 511).length = 511 := by rw [smokeIds, List.length_map, List.length_range]
  exact burst_overflow (Or.inl rfl) (by decide) hnodup hlen 1

end Subown
