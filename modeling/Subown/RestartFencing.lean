import Subown.AdapterHistory

/-! Two adapters, either of which may be destroyed and created afresh. A fresh table starts
every subscriber at epoch 1, so a new incarnation claims under the stamps of the old one and
only the box id decides between them. -/
namespace Subown

open OwnershipAdapter RunRules

/-- The frames a box queued, over all its incarnations, and the frames of the other box it
was given; both again since the last restart of either box. -/
structure FrameLog where
  queued : List Frame
  queuedSince : List Frame
  taken : List Frame
  takenSince : List Frame

namespace FrameLog

def queue (l : FrameLog) (frames : List Frame) : FrameLog :=
  { l with queued := l.queued ++ frames, queuedSince := l.queuedSince ++ frames }

def take (l : FrameLog) (frame : Frame) : FrameLog :=
  { l with taken := l.taken ++ [frame], takenSince := l.takenSince ++ [frame] }

def restart (l : FrameLog) : FrameLog := { l with queuedSince := [], takenSince := [] }

@[simp] theorem queue_nil (l : FrameLog) : l.queue [] = l := by simp [queue]

end FrameLog

structure PeerState where
  adapter : OwnershipAdapter
  log : FrameLog

abbrev Peers := Box → PeerState

inductive PeerInput where
  | packet (box : Box) (subscriberId now : UInt64)
  | deliver (box : Box) (frame : Frame)
  | flush (box : Box)
  | restart (box : Box)
  deriving DecidableEq

def PeerState.call (x : PeerState) (call : AdapterCall) : PeerState :=
  ⟨x.adapter.step call, x.log.queue (x.adapter.queuedBy call)⟩

def PeerState.give (x : PeerState) (frame : Frame) : PeerState :=
  ⟨x.adapter.step (.onRemoteMsg frame),
    (x.log.queue (x.adapter.queuedBy (.onRemoteMsg frame))).take frame⟩

namespace Peers

def start (threshold : Box → UInt64) : Peers := fun b =>
  ⟨create ⟨.modeEnforce, b.id, threshold b⟩, ⟨[], [], [], []⟩⟩

/-- A restart destroys an adapter and creates it afresh with the same configuration. -/
def step (p : Peers) : PeerInput → Peers
  | .packet b s now => Function.update p b ((p b).call (.onPacket s now))
  | .deliver b frame => Function.update p b ((p b).give frame)
  | .flush b => Function.update p b ((p b).call .flushOutbound)
  | .restart b => fun c =>
      ⟨if c = b then create (p c).adapter.cfg else (p c).adapter, (p c).log.restart⟩

/-- No packet fails, the tables have room, and only queued frames are delivered. -/
def Allowed (p : Peers) : PeerInput → Prop
  | .packet b s now => (p b).adapter.returnCode (.onPacket s now) = 0
  | .deliver b frame => frame ∈ (p b.other).log.queued ∧
      (p b).adapter.returnCode (.onRemoteMsg frame) = 0
  | _ => True

instance (p : Peers) : ∀ input, Decidable (p.Allowed input)
  | .packet _ _ _ => inferInstanceAs (Decidable (_ = _))
  | .deliver _ _ => inferInstanceAs (Decidable (_ ∧ _))
  | .flush _ => inferInstanceAs (Decidable True)
  | .restart _ => inferInstanceAs (Decidable True)

end Peers

/-- A frame queued by one box that has not reached the other, or not since the last restart
although it was queued since. -/
def Owed (sender receiver : FrameLog) (frame : Frame) : Prop :=
  (frame ∈ sender.queued ∧ frame ∉ receiver.taken) ∨
    (frame ∈ sender.queuedSince ∧ frame ∉ receiver.takenSince)

def OwedFor (sender receiver : FrameLog) (s : UInt64) : Prop :=
  ∃ frame update, decodeUpdateV1 frame = some update ∧ update.subscriberId = s ∧
    Owed sender receiver frame

/-- The table names the adapter's own box as the owner. -/
def OwnershipAdapter.OwnsLocally (a : OwnershipAdapter) (s : UInt64) : Prop :=
  ∃ i, (a.table i).used = true ∧ (a.table i).record.subscriberId = s ∧
    (a.table i).record.ownerBox = a.cfg.localBoxId

namespace Peers

/-- Every frame ever queued has arrived, and those queued since the last restart since then. -/
def Settled (p : Peers) : Prop :=
  ∀ b, (∀ f ∈ (p b).log.queued, f ∈ (p b.other).log.taken) ∧
    ∀ f ∈ (p b).log.queuedSince, f ∈ (p b.other).log.takenSince

def DualOwner (p : Peers) (s : UInt64) : Prop := ∀ b, (p b).adapter.OwnsLocally s

/-- Once all frames have arrived, no subscriber has two owners. -/
def SingleOwner (p : Peers) : Prop := p.Settled → ∀ s, ¬ p.DualOwner s

/-- Box 1 claims a subscriber that box 0 owns and that no frame of box 0 will tell it of. -/
def ClaimsOver (p : Peers) : PeerInput → Prop
  | .packet .box1 s _ =>
      ((p .box1).adapter.workingRecord s).ownerBox = unownedState ∧
        (p .box0).adapter.OwnsLocally s ∧ ¬ OwedFor (p .box0).log (p .box1).log s
  | _ => False

end Peers

variable {b c : Box} {a : OwnershipAdapter} {r : SubownRecord} {u : SubownUpdate}
  {s now : UInt64} {f : Frame} {x : PeerState} {p : Peers} {l m : FrameLog}

/-! ### Single calls -/

theorem ownsLocally_iff (h : a.Sound) (hb : BoxId a.cfg.localBoxId) :
    a.OwnsLocally s ↔ (a.workingRecord s).ownerBox = a.cfg.localBoxId := by
  constructor
  · rintro ⟨i, hused, rfl, howner⟩
    rw [workingRecord_of_some (recordOf_used h hused)]
    exact howner
  · intro howner
    cases hr : a.recordOf s with
    | none =>
        rw [workingRecord, hr] at howner
        exact absurd howner.symm hb.ne_unowned.1
    | some r =>
        rw [workingRecord_of_some hr] at howner
        obtain ⟨i, hused, rfl, hsid⟩ := (recordOf_eq_some h).mp hr
        exact ⟨i, hused, hsid, howner⟩

/-- What a packet that does not fail does: it claims an unowned record and queues the claim,
or it keeps the key and queues nothing. -/
theorem packet_cases (h : a.Sound) (hb : BoxId a.cfg.localBoxId)
    (hmode : a.cfg.mode ≠ .modeDisabled) (hrc : a.returnCode (.onPacket s now) = 0) :
    ∃ r, (a.step (.onPacket s now)).workingRecord = Function.update a.workingRecord s r ∧
      ((r.key = (a.workingRecord s).key ∧ a.queuedBy (.onPacket s now) = []) ∨
        ((a.workingRecord s).ownerBox = unownedState ∧
          r = claimedRecord (a.workingRecord s) a.cfg.localBoxId now ∧
          a.queuedBy (.onPacket s now) = [frameBytes (claimUpdate r)])) := by
  change (a.onPacket s now).rc = 0 at hrc
  have hroom := room_of_rc hmode hrc
  have heff := effect_onPacket hmode hroom now
  have hstep := step_spec h (.onPacket s now)
  rw [heff] at hstep
  have hqueued := queuedBy_eq h (.onPacket s now)
  rw [heff] at hqueued
  have hcode := (onPacket_spec h hmode hroom now).rc
  refine ⟨_, hstep.working_core, ?_⟩
  rw [hqueued]
  dsimp only [CoreCall.apply]
  obtain ⟨_, e⟩ | ⟨_, e⟩ | ⟨hun, _, e⟩ | ⟨_, _, e⟩ | ⟨_, e⟩ :=
    corePacket_cases hb (a.workingRecord s) now a.emitStatus
  · rw [e]
    exact Or.inl ⟨rfl, rfl⟩
  · obtain ⟨c, hc⟩ := misroute_frame (a.workingRecord s) a.cfg.migrationThreshold
    rw [e, hc]
    exact Or.inl ⟨rfl, rfl⟩
  · rw [e]
    exact Or.inr ⟨hun, rfl, rfl⟩
  · rw [e, hrc] at hcode
    cases hcode
  · rw [e]
    exact Or.inl ⟨rfl, rfl⟩

theorem remote_cases (h : a.Sound) (hdec : decodeUpdateV1 f = some u)
    (hrc : a.returnCode (.onRemoteMsg f) = 0) :
    (a.step (.onRemoteMsg f)).workingRecord = Function.update a.workingRecord u.subscriberId
        (applyRemoteUpdate (a.workingRecord u.subscriberId) u).record ∧
      a.queuedBy (.onRemoteMsg f) = [] := by
  obtain ⟨v, hv, hroom⟩ := (onRemoteMsg_accepts h).mp hrc
  obtain rfl := Option.some.inj (hdec.symm.trans hv)
  have heff := effect_remote hdec hroom
  have hstep := step_spec h (.onRemoteMsg f)
  have hqueued := queuedBy_eq h (.onRemoteMsg f)
  rw [heff] at hstep hqueued
  exact ⟨hstep.working_core, hqueued⟩

/-! ### Keys of first claims -/

def freshKey : ResolverKey := resolverKey 1 0 unownedState

/-- The key of every claim that starts from a fresh record. -/
def ownedKey (c : Box) : ResolverKey := resolverKey 1 1 c.id

/-- The only keys a record of the pair ever has. -/
def EarlyKey (k : ResolverKey) : Prop := k = freshKey ∨ ∃ c, k = ownedKey c

theorem ownedKey_inj (h : ownedKey b = ownedKey c) : b = c :=
  Box.id_inj (resolverKey_inj.mp h).2.2

theorem freshKey_ne (c : Box) : freshKey ≠ ownedKey c := by
  intro h
  exact absurd (resolverKey_inj.mp h).2.1 (by decide)

theorem EarlyKey.le {k : ResolverKey} (h : EarlyKey k) : k ≤ ownedKey .box0 := by
  obtain rfl | ⟨c, rfl⟩ := h
  · exact (resolverKey_lt_of_stamp _ _ (stampOf_lt.mpr (by decide))).le
  · cases c with
    | box0 => exact le_rfl
    | box1 => exact (resolverKey_lt.mpr (by decide)).le

theorem EarlyKey.unowned (h : EarlyKey r.key) (hun : r.ownerBox = unownedState) :
    r.key = freshKey := by
  obtain h | ⟨c, h⟩ := h
  · exact h
  · have howner : r.ownerBox = c.id := (resolverKey_inj.mp h).2.2
    exact absurd (howner.symm.trans hun) c.isBoxId.ne_unowned.1

theorem claimedRecord_early (h : r.key = freshKey) (b : Box) (now : UInt64) :
    (claimedRecord r b.id now).key = ownedKey b := by
  obtain ⟨he, hg, _⟩ := resolverKey_inj.mp h
  refine resolverKey_inj.mpr ⟨he, ?_, rfl⟩
  change r.generation + 1 = 1
  rw [hg]
  rfl

/-! ### The pair as keys and frames -/

/-- All the argument needs of a box. -/
structure KeyState where
  keys : UInt64 → ResolverKey
  log : FrameLog

/-- The moves of a box; a claim of box 1 does not pass over a settled owner 0. -/
inductive KeyMove (K : Box → KeyState) (b : Box) : KeyState → Prop
  | idle : KeyMove K b (K b)
  | claim (f : Frame) (u : SubownUpdate) (hdec : decodeUpdateV1 f = some u)
      (hfresh : (K b).keys u.subscriberId = freshKey)
      (hover : b = .box1 → (K .box0).keys u.subscriberId = ownedKey .box0 →
        OwedFor (K .box0).log (K .box1).log u.subscriberId) :
      KeyMove K b ⟨Function.update (K b).keys u.subscriberId (ownedKey b), (K b).log.queue [f]⟩
  | take (f : Frame) (u : SubownUpdate) (hdec : decodeUpdateV1 f = some u) :
      KeyMove K b ⟨Function.update (K b).keys u.subscriberId
        (max ((K b).keys u.subscriberId) (ownedKey b.other)), (K b).log.take f⟩

structure KeyInv (K : Box → KeyState) : Prop where
  early : ∀ b s, EarlyKey ((K b).keys s)
  /-- What box 1 took since the last restart made box 0 the owner there. -/
  told : ∀ f ∈ (K .box1).log.takenSince, ∀ u, decodeUpdateV1 f = some u →
    (K .box1).keys u.subscriberId = ownedKey .box0
  /-- While both boxes own a subscriber, box 0 still owes box 1 a frame. -/
  owing : ∀ s, (∀ b, (K b).keys s = ownedKey b) → OwedFor (K .box0).log (K .box1).log s

variable {K : Box → KeyState} {k : KeyState}

theorem Owed.queue (h : Owed l m f) (frames : List Frame) : Owed (l.queue frames) m f :=
  h.imp (fun ⟨hf, hn⟩ => ⟨List.mem_append_left _ hf, hn⟩)
    fun ⟨hf, hn⟩ => ⟨List.mem_append_left _ hf, hn⟩

theorem OwedFor.queue (h : OwedFor l m s) (frames : List Frame) : OwedFor (l.queue frames) m s := by
  obtain ⟨f, u, hdec, hsid, howed⟩ := h
  exact ⟨f, u, hdec, hsid, howed.queue frames⟩

/-- Taking a frame about one subscriber settles nothing about another. -/
theorem OwedFor.take (h : OwedFor l m s) (hdec : decodeUpdateV1 f = some u)
    (hne : u.subscriberId ≠ s) : OwedFor l (m.take f) s := by
  obtain ⟨g, v, hv, hsid, howed⟩ := h
  have hgf : g ≠ f := by
    rintro rfl
    obtain rfl := Option.some.inj (hdec.symm.trans hv)
    exact hne hsid
  have hkeep : ∀ fs : List Frame, g ∉ fs → g ∉ fs ++ [f] := by
    intro fs hg hmem
    rcases List.mem_append.mp hmem with hmem | hmem
    · exact hg hmem
    · exact hgf (List.mem_singleton.mp hmem)
  exact ⟨g, v, hv, hsid, howed.imp (fun ⟨hf, hn⟩ => ⟨hf, hkeep _ hn⟩)
    fun ⟨hf, hn⟩ => ⟨hf, hkeep _ hn⟩⟩

theorem KeyMove.early (hK : KeyInv K) (h : KeyMove K b k) (s : UInt64) : EarlyKey (k.keys s) := by
  have hupdate : ∀ t v, EarlyKey v → EarlyKey (Function.update (K b).keys t v s) := by
    intro t v hv
    by_cases hst : s = t
    · rw [hst, Function.update_self]
      exact hv
    · rw [Function.update_of_ne hst]
      exact hK.early b s
  cases h with
  | idle => exact hK.early b s
  | claim f u hdec hfresh hover => exact hupdate _ _ (Or.inr ⟨b, rfl⟩)
  | take f u hdec =>
      apply hupdate
      obtain hm | hm := max_choice ((K b).keys u.subscriberId) (ownedKey b.other)
      · rw [hm]
        exact hK.early b _
      · rw [hm]
        exact Or.inr ⟨_, rfl⟩

/-- Box 0 moves: a claim owes box 1 its frame, and a frame of box 1 never makes it an owner. -/
theorem KeyInv.move0 (hK : KeyInv K) (h : KeyMove K .box0 k) (s : UInt64)
    (h0 : k.keys s = ownedKey .box0) (h1 : (K .box1).keys s = ownedKey .box1) :
    OwedFor k.log (K .box1).log s := by
  have hboth : (K .box0).keys s = ownedKey .box0 → OwedFor (K .box0).log (K .box1).log s := by
    intro h0
    refine hK.owing s fun b => ?_
    cases b with
    | box0 => exact h0
    | box1 => exact h1
  cases h with
  | idle => exact hboth h0
  | claim f u hdec hfresh hover =>
      dsimp only at h0 ⊢
      by_cases hs : s = u.subscriberId
      · refine ⟨f, u, hdec, hs.symm, Or.inr ⟨?_, ?_⟩⟩
        · exact List.mem_append_right _ (List.mem_singleton.mpr rfl)
        · intro hf
          have htold := hK.told f hf u hdec
          rw [← hs, h1] at htold
          cases ownedKey_inj htold
      · rw [Function.update_of_ne hs] at h0
        exact (hboth h0).queue [f]
  | take f u hdec =>
      apply hboth
      dsimp only at h0
      by_cases hs : s = u.subscriberId
      · rw [← hs, Function.update_self] at h0
        obtain hm | hm := max_choice ((K .box0).keys s) (ownedKey .box1)
        · exact hm.symm.trans h0
        · cases ownedKey_inj (hm.symm.trans h0)
      · rwa [Function.update_of_ne hs] at h0

/-- Box 1 moves: a frame of box 0 ends its ownership. -/
theorem KeyInv.move1 (hK : KeyInv K) (h : KeyMove K .box1 k) (s : UInt64)
    (h0 : (K .box0).keys s = ownedKey .box0) (h1 : k.keys s = ownedKey .box1) :
    OwedFor (K .box0).log k.log s := by
  have hboth : (K .box1).keys s = ownedKey .box1 → OwedFor (K .box0).log (K .box1).log s := by
    intro h1
    refine hK.owing s fun b => ?_
    cases b with
    | box0 => exact h0
    | box1 => exact h1
  cases h with
  | idle => exact hboth h1
  | claim f u hdec hfresh hover =>
      dsimp only at h1 ⊢
      by_cases hs : s = u.subscriberId
      · subst hs
        exact hover rfl h0
      · rw [Function.update_of_ne hs] at h1
        exact hboth h1
  | take f u hdec =>
      dsimp only at h1 ⊢
      by_cases hs : s = u.subscriberId
      · rw [hs, Function.update_self, Box.other, max_eq_right (hK.early .box1 _).le] at h1
        cases ownedKey_inj h1
      · rw [Function.update_of_ne hs] at h1
        exact (hboth h1).take hdec (Ne.symm hs)

theorem KeyInv.told1 (hK : KeyInv K) (h : KeyMove K .box1 k) :
    ∀ f ∈ k.log.takenSince, ∀ u, decodeUpdateV1 f = some u →
      k.keys u.subscriberId = ownedKey .box0 := by
  cases h with
  | idle => exact hK.told
  | claim f u hdec hfresh hover =>
      intro g hg v hv
      dsimp only
      have htold := hK.told g hg v hv
      have hne : v.subscriberId ≠ u.subscriberId := by
        intro e
        rw [e, hfresh] at htold
        exact freshKey_ne _ htold
      rw [Function.update_of_ne hne]
      exact htold
  | take f u hdec =>
      intro g hg v hv
      dsimp only
      by_cases hs : v.subscriberId = u.subscriberId
      · rw [hs, Function.update_self]
        exact max_eq_right (hK.early .box1 _).le
      · rw [Function.update_of_ne hs]
        rcases List.mem_append.mp hg with hg | hg
        · exact hK.told g hg v hv
        · obtain rfl := List.mem_singleton.mp hg
          obtain rfl := Option.some.inj (hdec.symm.trans hv)
          exact absurd rfl hs

theorem KeyInv.move (hK : KeyInv K) (h : KeyMove K b k) : KeyInv (Function.update K b k) := by
  have hearly : ∀ c s, EarlyKey ((Function.update K b k c).keys s) := by
    intro c s
    obtain rfl | rfl := b.eq_or_eq_other c
    · rw [Function.update_self]
      exact h.early hK s
    · rw [Function.update_of_ne b.other_ne]
      exact hK.early b.other s
  refine ⟨hearly, ?_, ?_⟩
  · cases b with
    | box0 => exact hK.told
    | box1 => exact hK.told1 h
  · intro s hdual
    cases b with
    | box0 => exact hK.move0 h s (hdual .box0) (hdual .box1)
    | box1 => exact hK.move1 h s (hdual .box0) (hdual .box1)

/-- A restart leaves the restarted box without an owner. -/
theorem KeyInv.restart (hK : KeyInv K) (b : Box) :
    KeyInv fun c => ⟨if c = b then fun _ => freshKey else (K c).keys, (K c).log.restart⟩ := by
  refine ⟨?_, ?_, ?_⟩
  · intro c s
    dsimp only
    split_ifs
    · exact Or.inl rfl
    · exact hK.early c s
  · intro f hf
    cases hf
  · intro s hdual
    have hb := hdual b
    rw [if_pos rfl] at hb
    exact absurd hb (freshKey_ne b)

/-! ### The pair of adapters -/

def PeerState.abs (x : PeerState) : KeyState :=
  ⟨SubownRecord.key ∘ x.adapter.workingRecord, x.log⟩

structure PeerInv (b : Box) (x : PeerState) : Prop where
  sound : x.adapter.Sound
  box : x.adapter.cfg.localBoxId = b.id
  mode : x.adapter.cfg.mode ≠ .modeDisabled
  frames : ∀ f ∈ x.log.queued, ∃ u, decodeUpdateV1 f = some u ∧ u.key = ownedKey b

structure RestartInv (p : Peers) : Prop where
  peer : ∀ b, PeerInv b (p b)
  keys : KeyInv (PeerState.abs ∘ p)

namespace RestartInv

theorem start (threshold : Box → UInt64) : RestartInv (Peers.start threshold) := by
  have hfresh : ∀ b s, ((Peers.start threshold b).abs).keys s = freshKey := by
    intro b s
    exact congrArg SubownRecord.key (create_workingRecord _ s)
  refine ⟨fun b => ⟨create_sound _, rfl, nofun, nofun⟩, ?_, nofun, ?_⟩
  · intro b s
    exact Or.inl (hfresh b s)
  · intro s hdual
    exact absurd ((hfresh .box0 s).symm.trans (hdual .box0)) (freshKey_ne _)

end RestartInv

theorem PeerInv.boxId (hx : PeerInv b x) : BoxId x.adapter.cfg.localBoxId := by
  rw [hx.box]
  exact b.isBoxId

theorem PeerInv.owns_iff (hx : PeerInv b x) (hearly : EarlyKey (x.abs.keys s)) :
    x.adapter.OwnsLocally s ↔ x.abs.keys s = ownedKey b := by
  rw [ownsLocally_iff hx.sound hx.boxId, hx.box]
  constructor
  · intro howner
    obtain h | ⟨c, h⟩ := hearly
    · have hun : (x.adapter.workingRecord s).ownerBox = unownedState := (resolverKey_inj.mp h).2.2
      exact absurd (howner.symm.trans hun) b.isBoxId.ne_unowned.1
    · have hc : (x.adapter.workingRecord s).ownerBox = c.id := (resolverKey_inj.mp h).2.2
      obtain rfl := Box.id_inj (howner.symm.trans hc)
      exact h
  · intro h
    exact (resolverKey_inj.mp h).2.2

theorem PeerInv.call (hx : PeerInv b x) (call : AdapterCall)
    (hframes : ∀ f ∈ x.adapter.queuedBy call, ∃ u, decodeUpdateV1 f = some u ∧ u.key = ownedKey b) :
    PeerInv b (x.call call) := by
  have hcfg : (x.call call).adapter.cfg = x.adapter.cfg := step_cfg hx.sound call
  refine ⟨(step_spec hx.sound call).sound, ?_, ?_, ?_⟩
  · rw [hcfg]
    exact hx.box
  · rw [hcfg]
    exact hx.mode
  · intro f hf
    rcases List.mem_append.mp hf with hf | hf
    · exact hx.frames f hf
    · exact hframes f hf

theorem PeerInv.call_silent (hx : PeerInv b x) {call : AdapterCall}
    (hqueued : x.adapter.queuedBy call = []) : PeerInv b (x.call call) := by
  apply hx.call
  intro f hf
  rw [hqueued] at hf
  exact absurd hf List.not_mem_nil

theorem abs_call {call : AdapterCall} {frames : List Frame}
    (hwork : (x.adapter.step call).workingRecord = Function.update x.adapter.workingRecord s r)
    (hqueued : x.adapter.queuedBy call = frames) :
    (x.call call).abs = ⟨Function.update x.abs.keys s r.key, x.log.queue frames⟩ := by
  unfold PeerState.abs PeerState.call
  rw [hwork, hqueued, Function.comp_update]

namespace RestartInv

theorem owns_iff (hi : RestartInv p) (b : Box) (s : UInt64) :
    (p b).adapter.OwnsLocally s ↔ (p b).abs.keys s = ownedKey b :=
  (hi.peer b).owns_iff (hi.keys.early b s)

theorem packet (hi : RestartInv p) (hrc : (p b).adapter.returnCode (.onPacket s now) = 0)
    (hover : ¬ p.ClaimsOver (.packet b s now)) :
    PeerInv b ((p b).call (.onPacket s now)) ∧
      KeyMove (PeerState.abs ∘ p) b ((p b).call (.onPacket s now)).abs := by
  have hx := hi.peer b
  obtain ⟨r, hwork, ⟨hkey, hqueued⟩ | ⟨hun, hr, hqueued⟩⟩ :=
    packet_cases hx.sound hx.boxId hx.mode hrc
  · refine ⟨hx.call_silent hqueued, ?_⟩
    have hkept : Function.update (p b).abs.keys s r.key = (p b).abs.keys := by
      rw [hkey]
      exact Function.update_eq_self s _
    rw [abs_call hwork hqueued, hkept, FrameLog.queue_nil]
    exact .idle
  · have hfresh := (hi.keys.early b s).unowned hun
    rw [hx.box] at hr
    have hkey : r.key = ownedKey b := by
      rw [hr]
      exact claimedRecord_early hfresh b now
    have hdec : decodeUpdateV1 (frameBytes (claimUpdate r)) = some (claimUpdate r) := by
      rw [hr]
      exact decodeUpdateV1_claim b.isBoxId.known _ now
    have hclaim : (claimUpdate r).key = r.key := by
      rw [hr]
      exact claimUpdate_key b.isBoxId.known _ now
    have hsid : s = (claimUpdate r).subscriberId := by
      rw [hr]
      exact (workingRecord_subscriberId hx.sound).symm
    refine ⟨hx.call _ ?_, ?_⟩
    · rw [hqueued]
      intro f hf
      obtain rfl := List.mem_singleton.mp hf
      exact ⟨_, hdec, hclaim.trans hkey⟩
    · rw [abs_call hwork hqueued, hkey, hsid]
      refine .claim _ _ hdec (hsid ▸ hfresh) ?_
      rintro rfl h0
      rw [← hsid] at h0 ⊢
      by_contra hnot
      exact hover ⟨hun, (hi.owns_iff .box0 s).mpr h0, hnot⟩

theorem deliver (hi : RestartInv p) (hmem : f ∈ (p b.other).log.queued)
    (hrc : (p b).adapter.returnCode (.onRemoteMsg f) = 0) :
    PeerInv b ((p b).give f) ∧ KeyMove (PeerState.abs ∘ p) b ((p b).give f).abs := by
  have hx := hi.peer b
  obtain ⟨u, hdec, hkey⟩ := (hi.peer b.other).frames f hmem
  obtain ⟨hwork, hqueued⟩ := remote_cases hx.sound hdec hrc
  have hv := decoded_validFor hdec (workingRecord_subscriberId (s := u.subscriberId) hx.sound)
  rw [applyRemoteUpdate_record hv] at hwork
  have hcall := hx.call_silent hqueued
  refine ⟨⟨hcall.sound, hcall.box, hcall.mode, hcall.frames⟩, ?_⟩
  have habs := abs_call hwork hqueued
  rw [StrictBest.rank_take key_adopt, hkey, FrameLog.queue_nil] at habs
  have hgive : ((p b).give f).abs = { ((p b).call (.onRemoteMsg f)).abs with
      log := ((p b).call (.onRemoteMsg f)).log.take f } := rfl
  have hlog : ((p b).call (.onRemoteMsg f)).log = (p b).log := congrArg KeyState.log habs
  rw [hgive, habs, hlog]
  exact .take f u hdec

theorem flush (hi : RestartInv p) (b : Box) :
    PeerInv b ((p b).call .flushOutbound) ∧
      KeyMove (PeerState.abs ∘ p) b ((p b).call .flushOutbound).abs := by
  have hx := hi.peer b
  have hqueued : (p b).adapter.queuedBy .flushOutbound = [] :=
    queuedBy_eq hx.sound .flushOutbound
  have hspec := step_spec hx.sound .flushOutbound
  have hwork : ((p b).adapter.step .flushOutbound).workingRecord = (p b).adapter.workingRecord := by
    funext s
    rw [workingRecord, hspec.records]
    rfl
  refine ⟨hx.call_silent hqueued, ?_⟩
  have habs : ((p b).call .flushOutbound).abs = (p b).abs := by
    unfold PeerState.abs PeerState.call
    rw [hwork, hqueued]
    exact congrArg (KeyState.mk _) (FrameLog.queue_nil _)
  rw [habs]
  exact .idle

theorem update (hi : RestartInv p) {y : PeerState}
    (h : PeerInv b y ∧ KeyMove (PeerState.abs ∘ p) b y.abs) :
    RestartInv (Function.update p b y) := by
  constructor
  · intro c
    obtain rfl | rfl := b.eq_or_eq_other c
    · rw [Function.update_self]
      exact h.1
    · rw [Function.update_of_ne b.other_ne]
      exact hi.peer b.other
  · rw [Function.comp_update]
    exact hi.keys.move h.2

theorem restart (hi : RestartInv p) (b : Box) : RestartInv (p.step (.restart b)) := by
  constructor
  · intro c
    obtain rfl | rfl := b.eq_or_eq_other c
    · have hx := hi.peer c
      simp only [Peers.step, if_pos]
      exact ⟨create_sound _, hx.box, hx.mode, hx.frames⟩
    · have hx := hi.peer b.other
      simp only [Peers.step, if_neg b.other_ne]
      exact ⟨hx.sound, hx.box, hx.mode, hx.frames⟩
  · have habs : PeerState.abs ∘ p.step (.restart b) = fun c =>
        ⟨if c = b then fun _ => freshKey else (p c).abs.keys, (p c).abs.log.restart⟩ := by
      funext c
      obtain rfl | rfl := b.eq_or_eq_other c
      · simp only [Function.comp_apply, Peers.step, if_pos]
        refine congrArg (KeyState.mk · _) (funext fun s => ?_)
        exact congrArg SubownRecord.key (create_workingRecord _ s)
      · simp only [Function.comp_apply, Peers.step, if_neg b.other_ne]
        rfl
    rw [habs]
    exact hi.keys.restart b

theorem step (hi : RestartInv p) (input : PeerInput) (hallowed : p.Allowed input)
    (hover : ¬ p.ClaimsOver input) : RestartInv (p.step input) := by
  cases input with
  | packet b s now => exact hi.update (hi.packet hallowed hover)
  | deliver b frame => exact hi.update (hi.deliver hallowed.1 hallowed.2)
  | flush b => exact hi.update (hi.flush b)
  | restart b => exact hi.restart b

theorem single_owner (hi : RestartInv p) : p.SingleOwner := by
  intro hsettled s hdual
  obtain ⟨f, u, _, _, howed⟩ := hi.keys.owing s fun b => (hi.owns_iff b s).mp (hdual b)
  obtain ⟨hever, hsince⟩ := hsettled .box0
  exact howed.elim (fun h => h.2 (hever f h.1)) fun h => h.2 (hsince f h.1)

end RestartInv

/-- Ownership stays single in every run in which box 1 never claims over a settled owner 0. -/
theorem single_owner_without_claim_over (threshold : Box → UInt64) (inputs : List PeerInput)
    (hallowed : Each Peers.step Peers.Allowed (Peers.start threshold) inputs)
    (hover : Each Peers.step (fun p input => ¬ p.ClaimsOver input) (Peers.start threshold) inputs) :
    Always Peers.step Peers.SingleOwner (Peers.start threshold) inputs :=
  always_of_inv (fun _ hi => hi.single_owner) (fun _ input hi h => hi.step input h.1 h.2)
    (RestartInv.start threshold) (hallowed.and hover)

/-- The frame of a first claim of subscriber 7. -/
def firstClaim (b : Box) (now : UInt64) : Frame :=
  frameBytes (claimUpdate (claimedRecord (freshRecord 7) b.id now))

/-- Box 1 claims while the claim of box 0 is on its way, and box 0 restarts. -/
theorem single_owner_without_claim_over_race :
    Always Peers.step Peers.SingleOwner (Peers.start fun _ => 3)
      [.packet .box0 7 5, .packet .box1 7 6, .deliver .box1 (firstClaim .box0 5),
        .deliver .box0 (firstClaim .box1 6), .restart .box0] := by
  refine single_owner_without_claim_over _ _ (by decide +kernel) ?_
  refine ⟨id, fun hover => hover.2.2 ?_, id, id, id, trivial⟩
  exact ⟨firstClaim .box0 5, _, decodeUpdateV1_claim Box.box0.isBoxId.known _ _, rfl,
    Or.inl ⟨by decide +kernel, nofun⟩⟩

/-- Box 1 learns that box 0 owns subscriber 7, restarts and claims it: its claim loses the
tie at box 0, and box 0 has nothing left to tell. -/
def reclaimRun : List PeerInput :=
  [.packet .box0 7 5, .deliver .box1 (firstClaim .box0 5), .restart .box1, .packet .box1 7 6,
    .deliver .box0 (firstClaim .box1 6)]

theorem dual_owner_after_restart :
    Each Peers.step Peers.Allowed (Peers.start fun _ => 3) reclaimRun ∧
      ¬ Always Peers.step Peers.SingleOwner (Peers.start fun _ => 3) reclaimRun := by
  refine ⟨by decide +kernel, fun h => ?_⟩
  refine always_iff_split.mp h reclaimRun [] (List.append_nil _).symm ?_ 7 ?_
  · intro b
    cases b
    · exact ⟨by decide +kernel, by decide +kernel⟩
    · exact ⟨by decide +kernel, by decide +kernel⟩
  · intro b
    refine ⟨7, ?_⟩
    cases b <;> decide +kernel

end Subown
