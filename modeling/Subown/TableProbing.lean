import Subown.AdapterStep

/-! The probing discipline of the record table under its two users: `lookup_slot`, which alone
takes slots, and the core, which rewrites records through the pointers it was given. -/
namespace Subown

open OwnershipAdapter RunRules

/-- The used slots of the table. -/
def OwnershipAdapter.usedCount (a : OwnershipAdapter) : ℕ :=
  (Finset.univ.filter fun i => (a.table i).used = true).card

/-- What the table and its lookups do in one state. -/
structure ProbingLaw (a : OwnershipAdapter) : Prop where
  unique : ∀ i j, (a.table i).used = true → (a.table j).used = true →
    (a.table i).record.subscriberId = (a.table j).record.subscriberId → i = j
  noGap : ∀ i, (a.table i).used = true →
    let start := homeSlot (a.table i).record.subscriberId
    ∀ d ≤ CyclicIndex.dist start i, (a.table (CyclicIndex.shift start d)).used = true
  stored : ∀ s i create, (a.table i).used = true → (a.table i).record.subscriberId = s →
    lookupSlot a s create = (some i, a)
  created : ∀ s, ¬ a.Stores s → a.usedCount < 4096 →
    ∃ i, (a.table i).used = false ∧ lookupSlot a s true =
      (some i, { a with table := Function.update a.table i ⟨true, freshRecord s⟩ })
  null : ∀ s, ¬ a.Stores s → ((lookupSlot a s true).1 = none ↔ a.usedCount = 4096)
  full : ∀ s, ¬ a.Stores s → a.usedCount = 4096 → lookupSlot a s true = (none, a)
  notCreated : ∀ s, ¬ a.Stores s → lookupSlot a s false = (none, a)

/-- An emitter: it writes what it likes, the record table apart. -/
structure TableEmitter where
  emit : EmitUpdateFn OwnershipAdapter
  table : ∀ u a, (emit u a).2.table = a.table

/-- A core operation, with its arguments other than the record. -/
inductive CoreOp where
  | applyRemoteUpdate (incoming : SubownUpdate)
  | claimLocal (localBoxId : UInt16) (now : UInt64) (emitter : Option TableEmitter)
      (out : SubownResult)
  | processPacketEvent (localBoxId : UInt8) (now migrationThreshold : UInt64)
      (emitter : Option TableEmitter) (out : SubownResult)

/-- The operation on the record of slot `i`; the adapter is the context of the emitter. -/
def CoreOp.run (a : OwnershipAdapter) (i : Fin ownRecordCap) : CoreOp → OwnershipAdapter
  | .applyRemoteUpdate incoming =>
      a.writeRecord i (Subown.applyRemoteUpdate (a.table i).record incoming).record
  | .claimLocal localBoxId now emitter out =>
      let res := Subown.claimLocal (a.table i).record localBoxId now
        (emitter.map TableEmitter.emit) a out
      res.userCtx.writeRecord i res.record
  | .processPacketEvent localBoxId now migrationThreshold emitter out =>
      let res := Subown.processPacketEvent (a.table i).record localBoxId now migrationThreshold
        (emitter.map TableEmitter.emit) a out
      res.userCtx.writeRecord i res.record

/-- A lookup, or a core operation through the pointer the `pointer`-th lookup returned. -/
inductive TableCall where
  | lookup (subscriberId : UInt64) (create : Bool)
  | core (pointer : ℕ) (op : CoreOp)

/-- An adapter with the pointers its lookups returned, oldest first. -/
structure LookupLog where
  adapter : OwnershipAdapter
  returned : List (Option (Fin ownRecordCap))

namespace LookupLog

def start (cfg : OwnAdapterCfg) : LookupLog := ⟨OwnershipAdapter.create cfg, []⟩

/-- The core refuses a null pointer and does nothing. -/
def step (h : LookupLog) : TableCall → LookupLog
  | .lookup subscriberId create =>
      let found := lookupSlot h.adapter subscriberId create
      ⟨found.2, h.returned ++ [found.1]⟩
  | .core pointer op =>
      match h.returned.getD pointer none with
      | none => h
      | some i => { h with adapter := op.run h.adapter i }

end LookupLog

variable {a : OwnershipAdapter} {cfg : OwnAdapterCfg} {s now : UInt64} {i : Fin ownRecordCap}

/-! ### The calls of the adapter -/

/-- The adapter's own emitter writes the outbound queue or counts an error. -/
def adapterEmitter : TableEmitter where
  emit := adapterEmitLocal
  table u a := by
    rw [adapterEmitLocal_eq]
    dsimp only
    split_ifs <;> rfl

theorem lookupSlot_cfg (a : OwnershipAdapter) (s : UInt64) (create : Bool) :
    (lookupSlot a s create).2.cfg = a.cfg := by
  rw [lookupSlot_eq]
  cases LinearProbing.find a.keys s (homeSlot s) with
  | hit i => rfl
  | free i => cases create <;> rfl
  | full => rfl

theorem packetReply_table (i : Fin ownRecordCap) (s now : UInt64)
    (res : ClaimOutcome OwnershipAdapter) :
    (packetReply i s now res).adapter.table = (res.userCtx.writeRecord i res.record).table := by
  unfold packetReply
  split_ifs
  · rfl
  · exact congrArg Replica.table (actOn_frame ..).1

/-- A packet is a lookup and the fast path through the pointer it returned. -/
theorem onPacket_probes (hmode : a.cfg.mode ≠ .modeDisabled) (s now : UInt64) :
    (a.onPacket s now).adapter.table = (exec LookupLog.step ⟨a, []⟩ [.lookup s true,
      .core 0 (.processPacketEvent a.cfg.localBoxId now a.cfg.migrationThreshold
        (some adapterEmitter) unsetResult)]).adapter.table := by
  have hcfg := lookupSlot_cfg a s true
  cases hlookup : lookupSlot a s true with
  | mk slot a' =>
      rw [hlookup] at hcfg
      simp only [exec, LookupLog.step, hlookup]
      cases slot with
      | none =>
          unfold onPacket
          rw [if_neg hmode, hlookup]
          rfl
      | some i =>
          rw [onPacket_of_lookup hmode hlookup rfl, packetReply_table, hcfg]
          rfl

/-- A message that decodes is a lookup and the resolver through the pointer it returned. -/
theorem onRemoteMsg_probes {m : List UInt8} {u : SubownUpdate} (hdec : decodeUpdateV1 m = some u) :
    (a.onRemoteMsg m).2.table = (exec LookupLog.step ⟨a, []⟩ [.lookup u.subscriberId true,
      .core 0 (.applyRemoteUpdate u)]).adapter.table := by
  cases hlookup : lookupSlot a u.subscriberId true with
  | mk slot a' =>
      simp only [exec, LookupLog.step, onRemoteMsg, hdec, hlookup]
      cases slot with
      | none => rfl
      | some i =>
          dsimp only
          split_ifs <;> rfl

/-! ### Counting slots -/

theorem usedCount_eq_iff : a.usedCount = 4096 ↔ ∀ i, (a.table i).used = true := by
  have hcard : (Finset.univ : Finset (Fin ownRecordCap)).card = 4096 := Finset.card_fin 4096
  unfold usedCount
  rw [← hcard, Finset.card_filter_eq_iff]
  simp

theorem unused_of_usedCount (h : a.usedCount < 4096) : ∃ i, a.keys i = none := by
  by_contra hall
  rw [not_exists] at hall
  exact h.ne (usedCount_eq_iff.mpr fun i => used_iff.mpr (hall i))

/-! ### One state -/

theorem lookupSlot_absent (h : ¬ a.Stores s) : lookupSlot a s false = (none, a) := by
  rw [lookupSlot_eq]
  obtain ⟨i, hi, -, -⟩ | ⟨i, -, -, e⟩ | ⟨-, e⟩ :=
    LinearProbing.find_cases a.keys s (homeSlot s)
  · exact absurd (stores_iff.mpr ⟨i, hi⟩) h
  · rw [e]
    rfl
  · rw [e]

theorem lookupSlot_created (h : ¬ a.Stores s) (hroom : ∃ i, a.keys i = none) :
    ∃ i, a.keys i = none ∧ lookupSlot a s true = (some i, a.createSlot s i) := by
  have habsent : ∀ i, a.keys i ≠ some s := fun i hi => h (stores_iff.mpr ⟨i, hi⟩)
  obtain ⟨i, hfree⟩ : ∃ i, LinearProbing.find a.keys s (homeSlot s) = .free i :=
    LinearProbing.find_free_of_absent habsent hroom
  refine ⟨i, (LinearProbing.find_free hfree).1, ?_⟩
  rw [lookupSlot_eq, hfree]
  rfl

/-- A sound table obeys the law. -/
theorem probingLaw (h : a.Sound) : ProbingLaw a where
  unique i j hi hj hsid :=
    LinearProbing.Chained.unique h (keys_eq_some.mpr ⟨hi, hsid⟩) (keys_eq_some.mpr ⟨hj, rfl⟩)
  noGap i hi := by
    intro start d hd
    exact used_iff.mpr (LinearProbing.Chained.taken h (keys_eq_some.mpr ⟨hi, rfl⟩) hd)
  stored s i create hi hsid := by
    rw [lookupSlot_eq, LinearProbing.Chained.find_hit h (keys_eq_some.mpr ⟨hi, hsid⟩)]
  created s habsent hcount := by
    obtain ⟨i, hi, e⟩ := lookupSlot_created habsent (unused_of_usedCount hcount)
    refine ⟨i, ?_, e⟩
    exact Bool.eq_false_iff.mpr fun hused => used_iff.mp hused hi
  null s habsent := by
    have hroom : (lookupSlot a s true).1 = none ↔ ¬ a.Room s := not_not.symm
    rw [hroom, not_room_iff, usedCount_eq_iff]
    exact and_iff_right habsent
  full s habsent hcount :=
    lookupSlot_full (not_room_iff.mpr ⟨habsent, usedCount_eq_iff.mp hcount⟩)
  notCreated s habsent := lookupSlot_absent habsent

/-! ### Runs -/

theorem lookupSlot_sound (h : a.Sound) (s : UInt64) (create : Bool) :
    (lookupSlot a s create).2.Sound := by
  rw [lookupSlot_eq]
  cases hfind : LinearProbing.find a.keys s (homeSlot s) with
  | hit i => exact h
  | free i =>
      cases create with
      | false => exact h
      | true => exact (createSlot_map h hfind).1
  | full => exact h

theorem TableEmitter.frame (emitter : Option TableEmitter) (emit : EmitUpdateFn OwnershipAdapter)
    (h : emitter.map TableEmitter.emit = some emit) (u : SubownUpdate) (a : OwnershipAdapter) :
    (emit u a).2.table = a.table := by
  obtain ⟨e, -, rfl⟩ := Option.map_eq_some_iff.mp h
  exact e.table u a

/-- Through a pointer the core rewrites one record and keeps its subscriber. -/
theorem CoreOp.run_table (op : CoreOp) (a : OwnershipAdapter) (i : Fin ownRecordCap) :
    ∃ r, r.subscriberId = (a.table i).record.subscriberId ∧
      (op.run a i).table = (a.writeRecord i r).table := by
  cases op with
  | applyRemoteUpdate u => exact ⟨_, applyRemoteUpdate_subscriberId .., rfl⟩
  | claimLocal b now emitter out =>
      have hctx := claimLocal_userCtx (TableEmitter.frame emitter) (a.table i).record b now a out
      refine ⟨_, claimLocal_subscriberId (a.table i).record b now
        (emitter.map TableEmitter.emit) a out, ?_⟩
      simp only [run, writeRecord, hctx]
  | processPacketEvent b now threshold emitter out =>
      have hctx := processPacketEvent_userCtx (TableEmitter.frame emitter) (a.table i).record b now
        threshold a out
      refine ⟨_, processPacketEvent_subscriberId (a.table i).record b now threshold
        (emitter.map TableEmitter.emit) a out, ?_⟩
      simp only [run, writeRecord, hctx]

theorem CoreOp.run_sound (h : a.Sound) (op : CoreOp) (i : Fin ownRecordCap) :
    (op.run a i).Sound := by
  obtain ⟨r, hsid, htable⟩ := op.run_table a i
  refine sound_congr htable ?_
  unfold Sound
  rw [writeRecord_keys hsid]
  exact h

theorem LookupLog.step_sound {h : LookupLog} (hs : h.adapter.Sound) (call : TableCall) :
    (h.step call).adapter.Sound := by
  cases call with
  | lookup s create => exact lookupSlot_sound hs s create
  | core pointer op =>
      unfold LookupLog.step
      dsimp only
      split
      · exact hs
      · exact CoreOp.run_sound hs op _

/-- In every state that lookups and core operations on their results reach, the table is free
of gaps and duplicates, and a lookup finds, creates or refuses as the table tells. -/
theorem table_probing (cfg : OwnAdapterCfg) (calls : List TableCall) :
    Always LookupLog.step (fun h => ProbingLaw h.adapter) (LookupLog.start cfg) calls :=
  always_of_inv (P := fun _ _ => True) (fun _ hs => probingLaw hs)
    (fun _ call hs _ => LookupLog.step_sound hs call) (create_sound cfg)
    (.of_forall fun _ _ => trivial)

-- 7 and 4103 share their home slot; 8 is absent until it is created behind them.
example : (exec LookupLog.step (.start ⟨.modeEnforce, 0, 3⟩)
    [.lookup 7 true, .lookup 4103 true, .core 1 (.claimLocal 0 5 (some adapterEmitter) unsetResult),
      .lookup 4103 false, .lookup 8 false, .lookup 8 true]).returned =
    [some 7, some 8, some 8, none, some 9] := by decide

end Subown
