import Subown.BenchBooks

/-! The end of a benchmark case: the case is stopped, the workers have returned and the shards
leave when they find every produced event consumed. -/
namespace Subown

namespace Bench

open CStrings RingBuffer RunRules

variable {W S : ℕ} [NeZero S] {p q : Pipeline W S} {i j : Fin S} {reqRate : UInt32}

def Turn.ofShard (i : Fin S) : Turn W S → Bool
  | .shard j _ _ _ => j = i
  | _ => false

/-- The events that count as produced and not as consumed once the workers are gone. -/
def outstanding (p : Pipeline W S) : ℕ :=
  ∑ i, (p.shards i).pc.uncounted + ∑ i, (p.rings i).contents.length + p.refused.length

/-- Nobody produces any more, and what a shard has read for its comparison is not stale. -/
structure Settled (p : Pipeline W S) : Prop extends Balanced p where
  stopped : p.stop = true
  returned : ∀ w, (p.workers w).pc = .finished
  consumedRead : ∀ i value, (p.shards i).pc = .half .consumed value → value ≤ p.consumed
  producedRead : ∀ i value, (p.shards i).pc = .half .produced value → value = p.produced

theorem Settled.lag (h : Settled p) : p.produced.toNat = p.consumed.toNat + outstanding p := by
  have hworkers : ∑ w, (p.workers w).pc.uncounted = 0 :=
    Finset.sum_eq_zero fun w _ => by rw [h.returned w]; rfl
  have haccepted : ∑ i, (p.accepted i).length =
      ∑ i, (p.handled i).length + ∑ i, (p.rings i).contents.length := by
    rw [← Finset.sum_add_distrib]
    refine Finset.sum_congr rfl fun i _ => ?_
    rw [h.fifo i, List.length_append]
  have hproduced := h.produced
  have hconsumed := h.consumed
  unfold outstanding
  omega

/-! ### The moves of a shard -/

/-- What shard `i` can do once nobody produces any more. -/
inductive ShardMove (p : Pipeline W S) (i : Fin S) : Pipeline W S → Prop where
  | enter (hpc : (p.shards i).pc = .loop) : ShardMove p i (p.goShard i .compare)
  | read (hpc : (p.shards i).pc = .compare) (first : Operand) :
      ShardMove p i (p.goShard i (.half first (p.read first)))
  | stay {read : Operand} {value : UInt64} (hpc : (p.shards i).pc = .half read value)
      (hless : p.consumed < p.produced ∨ read = .consumed ∧ value < p.produced) :
      ShardMove p i (p.goShard i .pop)
  | leave {read : Operand} {value : UInt64} (hpc : (p.shards i).pc = .half read value)
      (hall : p.produced ≤ p.consumed) : ShardMove p i (p.goShard i .finished)
  | idle (hpc : (p.shards i).pc = .pop) (hempty : (p.rings i).contents = []) :
      ShardMove p i (p.goShard i .loop)
  | take (hpc : (p.shards i).pc = .pop) {e : Evt} {r : Ring}
      (hcontents : (p.rings i).contents = e :: r.contents) (record : SubownRecord) :
      ShardMove p i { p.setRing i r with
        shards := Function.update p.shards i ⟨.count, record⟩
        handled := Function.update p.handled i (p.handled i ++ [e]) }
  | count (hpc : (p.shards i).pc = .count) :
      ShardMove p i ({ p with consumed := p.consumed + 1 }.goShard i .loop)
  | rest (hpc : (p.shards i).pc = .finished) : ShardMove p i p

theorem Settled.shardMove (h : Settled p) (i : Fin S) (first : Operand) (now : UInt64)
    (unset : SubownUpdate) : ShardMove p i (p.shardStep i first now unset) := by
  unfold Pipeline.shardStep
  cases hpc : (p.shards i).pc with
  | loop =>
      rw [h.stopped]
      exact .enter hpc
  | compare => exact .read hpc first
  | half read value =>
      cases read with
      | consumed =>
          by_cases hless : value < p.produced
          · dsimp only
            rw [if_pos hless]
            exact .stay hpc (Or.inr ⟨rfl, hless⟩)
          · dsimp only
            rw [if_neg hless]
            exact .leave hpc (UInt64.le_trans (UInt64.not_lt.mp hless) (h.consumedRead i value hpc))
      | produced =>
          have hvalue := h.producedRead i value hpc
          by_cases hless : p.consumed < value
          · dsimp only
            rw [if_pos hless]
            exact .stay hpc (Or.inl (hvalue ▸ hless))
          · dsimp only
            rw [if_neg hless]
            exact .leave hpc (hvalue ▸ UInt64.not_lt.mp hless)
  | pop =>
      rcases ringPop_cases (p.rings i) with ⟨hnone, hempty⟩ | ⟨e, hsome, hcontents, -⟩
      · dsimp only
        rw [hnone]
        exact .idle hpc hempty
      · dsimp only
        rw [hsome]
        exact .take hpc hcontents _
  | count => exact .count hpc
  | finished => exact .rest hpc

omit [NeZero S] in
theorem goShard_pc (p : Pipeline W S) (i : Fin S) (pc : ShardAt) :
    ((p.goShard i pc).shards i).pc = pc := by
  unfold Pipeline.goShard
  dsimp only
  rw [Function.update_self]

namespace ShardMove

omit [NeZero S]

theorem frame (m : ShardMove p i q) : q.stop = p.stop ∧ q.workers = p.workers ∧
    q.produced = p.produced ∧ q.refused = p.refused := by
  cases m <;> exact ⟨rfl, rfl, rfl, rfl⟩

/-- The other shards and their rings are untouched. -/
theorem other (m : ShardMove p i q) (hj : j ≠ i) :
    q.shards j = p.shards j ∧ q.rings j = p.rings j := by
  cases m with
  | take hpc hcontents record =>
      exact ⟨Function.update_of_ne hj _ _, Function.update_of_ne hj _ _⟩
  | rest hpc => exact ⟨rfl, rfl⟩
  | _ => exact ⟨Function.update_of_ne hj _ _, rfl⟩

/-- A shard that has left does not come back. -/
theorem stays_finished (m : ShardMove p i q) (hj : (p.shards j).pc = .finished) :
    (q.shards j).pc = .finished ∧ q.rings j = p.rings j := by
  by_cases hij : j = i
  · subst hij
    cases m with
    | rest hpc => exact ⟨hj, rfl⟩
    | _ hpc => exact absurd (hj.symm.trans hpc) (by simp)
  · obtain ⟨hshard, hring⟩ := m.other hij
    rw [hshard]
    exact ⟨hj, hring⟩

/-- The moving shard is between its reads only after the first of them. -/
theorem own_read (m : ShardMove p i q) {read : Operand} {value : UInt64}
    (hpc : (q.shards i).pc = .half read value) : value = p.read read := by
  cases m with
  | read hbefore first =>
      rw [goShard_pc] at hpc
      obtain ⟨rfl, rfl⟩ := ShardAt.half.inj hpc
      rfl
  | take hbefore hcontents record =>
      dsimp only at hpc
      rw [Function.update_self] at hpc
      cases hpc
  | rest hbefore =>
      rw [hbefore] at hpc
      cases hpc
  | _ =>
      rw [goShard_pc] at hpc
      cases hpc

end ShardMove

/-! ### Settled states stay settled -/

namespace Settled

omit [NeZero S] in
theorem one_le_outstanding (hpc : (p.shards i).pc = .count) : 1 ≤ outstanding p := by
  have hone : (p.shards i).pc.uncounted ≤ ∑ j, (p.shards j).pc.uncounted :=
    Finset.single_le_sum_of_canonicallyOrdered (f := fun j => (p.shards j).pc.uncounted)
      (Finset.mem_univ i)
  rw [hpc] at hone
  exact Nat.le_add_right_of_le (Nat.le_add_right_of_le hone)

/-- The counter of the shards cannot wrap behind that of the workers. -/
theorem consumed_lt (h : Settled p) (hpc : (p.shards i).pc = .count) :
    p.consumed.toNat < ulongMax := by
  have hlag := h.lag
  have hone := one_le_outstanding hpc
  have hbound : p.produced.toNat < ulongMax + 1 := p.produced.toNat_lt
  omega

theorem consumed_le (h : Settled p) (m : ShardMove p i q) : p.consumed ≤ q.consumed := by
  cases m with
  | count hpc =>
      change p.consumed ≤ p.consumed + 1
      rw [UInt64.le_iff_toNat_le, toNat_succ (h.consumed_lt hpc)]
      exact Nat.le_succ _
  | _ => exact UInt64.le_refl _

theorem move (h : Settled p) (hb : Balanced q) (m : ShardMove p i q) : Settled q := by
  obtain ⟨hstop, hworkers, hproduced, -⟩ := m.frame
  refine ⟨hb, hstop.trans h.stopped, fun w => hworkers ▸ h.returned w, ?_, ?_⟩
  · intro j value hpc
    by_cases hj : j = i
    · subst hj
      rw [m.own_read hpc]
      exact h.consumed_le m
    · rw [(m.other hj).1] at hpc
      exact UInt64.le_trans (h.consumedRead j value hpc) (h.consumed_le m)
  · intro j value hpc
    rw [hproduced]
    by_cases hj : j = i
    · subst hj
      exact m.own_read hpc
    · rw [(m.other hj).1] at hpc
      exact h.producedRead j value hpc

/-- After the workers have returned every step is a move of a shard or none at all. -/
theorem step_cases (h : Settled p) (turn : Turn W S) :
    ((∀ i, turn.ofShard i = false) ∧ p.step reqRate turn = p) ∨
    ∃ i, (∀ j, turn.ofShard j = true ↔ i = j) ∧
      ShardMove p i (p.step reqRate turn) ∧ Settled (p.step reqRate turn) := by
  cases turn with
  | main =>
      refine Or.inl ⟨fun _ => rfl, ?_⟩
      change { p with stop := true } = p
      rw [← h.stopped]
  | worker w now =>
      refine Or.inl ⟨fun _ => rfl, ?_⟩
      change p.workerStep reqRate w now = p
      rw [Pipeline.workerStep, h.returned w]
  | shard i first now unset =>
      have hmove := h.shardMove i first now unset
      have hbalanced := h.toBalanced.shardStep (i := i) h.consumed_lt first now unset
      exact Or.inr ⟨i, fun _ => decide_eq_true_iff, hmove, h.move hbalanced hmove⟩

/-- A measure of one shard: its own moves lower it and those of the others leave it alone. -/
theorem measure_step (h : Settled p) {μ : Pipeline W S → ℕ}
    (hown : ∀ q, ShardMove p i q → μ q ≤ μ p - 1)
    (hother : ∀ {j q}, i ≠ j → ShardMove p j q → μ q = μ p) (turn : Turn W S) :
    μ (p.step reqRate turn) ≤ μ p ∧
      (turn.ofShard i = true → μ (p.step reqRate turn) ≤ μ p - 1) := by
  rcases h.step_cases turn with ⟨hnone, hsame⟩ | ⟨j, hturn, hmove, -⟩
  · rw [hsame]
    exact ⟨le_rfl, fun hmine => absurd hmine (by rw [hnone i]; exact Bool.false_ne_true)⟩
  · by_cases hij : i = j
    · subst hij
      have hlower := hown _ hmove
      exact ⟨hlower.trans (Nat.sub_le _ _), fun _ => hlower⟩
    · rw [hother hij hmove]
      exact ⟨le_rfl, fun hmine => absurd ((hturn i).mp hmine).symm hij⟩

end Settled

/-! ### Draining the rings -/

/-- Every event counts as consumed in the end: none was dropped, and none lies in the ring of a
shard that has left. -/
def Drainable (p : Pipeline W S) : Prop :=
  (∀ i, (p.rings i).dropped = 0) ∧
    ∀ i, (p.shards i).pc = .finished → (p.rings i).contents = []

/-- The turns up to the next access to the ring. -/
def ShardAt.toPop : ShardAt → ℕ
  | .count => 4
  | .loop => 3
  | .compare => 2
  | .half _ _ => 1
  | .pop | .finished => 0

/-- The turns a shard needs for the events in its ring; one that has none may go on as long as it
wants. -/
def ShardAt.work (pc : ShardAt) (events : ℕ) : ℕ :=
  if events = 0 ∧ pc.uncounted = 0 then 0 else 5 * events + pc.toPop

def work (i : Fin S) (p : Pipeline W S) : ℕ :=
  (p.shards i).pc.work (p.rings i).contents.length

namespace ShardAt

variable {pc : ShardAt} {events : ℕ}

theorem work_idle (h : pc.uncounted = 0) : pc.work 0 = 0 := if_pos ⟨rfl, h⟩

theorem work_succ : pc.work (events + 1) = 5 * (events + 1) + pc.toPop :=
  if_neg fun h => Nat.succ_ne_zero _ h.1

theorem work_count : ShardAt.count.work events = 5 * events + 4 :=
  if_neg fun h => one_ne_zero h.2

theorem work_eq_zero : pc.work events = 0 ↔ events = 0 ∧ pc.uncounted = 0 := by
  constructor
  · intro hzero
    cases events with
    | succ events =>
        rw [work_succ] at hzero
        omega
    | zero =>
        cases pc with
        | count => cases hzero
        | _ => exact ⟨rfl, rfl⟩
  · intro h
    exact if_pos h

end ShardAt

structure Clean (p : Pipeline W S) : Prop extends Settled p where
  refused : p.refused = []
  left : ∀ i, (p.shards i).pc = .finished → (p.rings i).contents = []

theorem refused_eq_nil (h : Balanced p) : p.refused = [] ↔ ∀ i, (p.rings i).dropped = 0 := by
  rw [← List.length_eq_zero_iff, ← h.dropped, Finset.sum_eq_zero_iff]
  constructor
  · intro hz i
    exact UInt64.toNat_inj.mp (hz i (Finset.mem_univ i))
  · intro hz i _
    rw [hz i]
    rfl

omit [NeZero S] in
theorem outstanding_eq_zero : outstanding p = 0 ↔
    (∀ i, (p.shards i).pc.uncounted = 0) ∧ (∀ i, (p.rings i).contents = []) ∧
      p.refused = [] := by
  unfold outstanding
  simp only [Nat.add_eq_zero_iff, Finset.sum_eq_zero_iff, Finset.mem_univ, true_implies,
    List.length_eq_zero_iff, and_assoc]

omit [NeZero S] in
theorem work_eq_zero :
    work i p = 0 ↔ (p.rings i).contents = [] ∧ (p.shards i).pc.uncounted = 0 := by
  rw [work, ShardAt.work_eq_zero, List.length_eq_zero_iff]

theorem Settled.all_consumed (h : Settled p) : p.produced ≤ p.consumed ↔ outstanding p = 0 := by
  have hlag := h.lag
  rw [UInt64.le_iff_toNat_le]
  omega

namespace Clean

theorem outstanding_eq_zero_iff (h : Clean p) : outstanding p = 0 ↔ ∀ i, work i p = 0 := by
  rw [outstanding_eq_zero]
  simp only [work_eq_zero, h.refused]
  exact ⟨fun hall i => ⟨hall.2.1 i, hall.1 i⟩, fun hall =>
    ⟨fun i => (hall i).2, fun i => (hall i).1, trivial⟩⟩

theorem move (h : Clean p) (hq : Settled q) (m : ShardMove p i q) : Clean q := by
  refine ⟨hq, m.frame.2.2.2.trans h.refused, fun j hj => ?_⟩
  by_cases hji : j = i
  · subst hji
    cases m with
    | leave hpc hall =>
        exact (outstanding_eq_zero.mp (h.all_consumed.mp hall)).2.1 j
    | take hpc hcontents record =>
        dsimp only at hj
        rw [Function.update_self] at hj
        cases hj
    | rest hpc => exact h.left j hj
    | _ =>
        rw [goShard_pc] at hj
        cases hj
  · obtain ⟨hshard, hring⟩ := m.other hji
    rw [hshard] at hj
    rw [hring]
    exact h.left j hj

theorem step (h : Clean p) (turn : Turn W S) : Clean (p.step reqRate turn) := by
  rcases h.toSettled.step_cases turn with ⟨-, hsame⟩ | ⟨i, -, hmove, hsettled⟩
  · rw [hsame]
    exact h
  · exact h.move hsettled hmove

/-- A move of the shard itself uses one turn of its work, unless there is none left. -/
theorem work_own (h : Clean p) (m : ShardMove p i q) : work i q ≤ work i p - 1 := by
  have hgo : ∀ {before after : ShardAt}, (p.shards i).pc = before → before.uncounted = 0 →
      after.uncounted = 0 →
      ((p.rings i).contents ≠ [] → before.toPop = after.toPop + 1) →
        work i (p.goShard i after) ≤ work i p - 1 := by
    intro before after hpc hbefore hafter hturns
    have hwork : work i (p.goShard i after) = after.work (p.rings i).contents.length := by
      rw [work, goShard_pc]
      rfl
    rw [hwork, work, hpc]
    cases hcontents : (p.rings i).contents with
    | nil =>
        rw [List.length_nil, ShardAt.work_idle hafter]
        exact Nat.zero_le _
    | cons e rest =>
        have hturn := hturns (by rw [hcontents]; exact List.cons_ne_nil e rest)
        rw [List.length_cons, ShardAt.work_succ, ShardAt.work_succ]
        omega
  cases m with
  | enter hpc => exact hgo hpc rfl rfl fun _ => rfl
  | read hpc first => exact hgo hpc rfl rfl fun _ => rfl
  | stay hpc hless => exact hgo hpc rfl rfl fun _ => rfl
  | leave hpc hall =>
      refine hgo hpc rfl rfl fun hne => absurd ?_ hne
      exact (outstanding_eq_zero.mp (h.all_consumed.mp hall)).2.1 i
  | idle hpc hempty => exact hgo hpc rfl rfl fun hne => absurd hempty hne
  | rest hpc =>
      rw [work_eq_zero.mpr ⟨h.left i hpc, by rw [hpc]; rfl⟩]
  | take hpc hcontents record =>
      rw [work, work, hpc, hcontents, List.length_cons, ShardAt.work_succ]
      dsimp only [Pipeline.setRing]
      rw [Function.update_self, Function.update_self, ShardAt.work_count]
      exact Nat.le_refl _
  | count hpc =>
      have hwork : work i ({ p with consumed := p.consumed + 1 }.goShard i .loop) =
          ShardAt.loop.work (p.rings i).contents.length := by
        rw [work, goShard_pc]
        rfl
      rw [hwork, work, hpc, ShardAt.work_count]
      cases (p.rings i).contents.length with
      | zero => exact Nat.zero_le _
      | succ events => exact Nat.le_refl _

theorem work_step (h : Clean p) (i : Fin S) (turn : Turn W S) :
    work i (p.step reqRate turn) ≤ work i p ∧
      (turn.ofShard i = true → work i (p.step reqRate turn) ≤ work i p - 1) :=
  h.toSettled.measure_step (fun _ => h.work_own) (fun hij m => by
    obtain ⟨hshard, hring⟩ := m.other hij
    rw [work, work, hshard, hring]) turn

end Clean

/-! ### Leaving -/

/-- The turns a shard needs to leave when everything is consumed. -/
def ShardAt.toLeave (produced : UInt64) : ShardAt → ℕ
  | .half .consumed value => if value < produced then 5 else 1
  | .pop => 4
  | .loop => 3
  | .compare => 2
  | .half .produced _ => 1
  | .count | .finished => 0

def leaving (i : Fin S) (p : Pipeline W S) : ℕ := (p.shards i).pc.toLeave p.produced

structure Drained (p : Pipeline W S) : Prop extends Clean p where
  nothing : outstanding p = 0

namespace Drained

theorem step (h : Drained p) (turn : Turn W S) : Drained (p.step reqRate turn) := by
  have hclean : Clean (p.step reqRate turn) := h.toClean.step turn
  refine ⟨hclean, hclean.outstanding_eq_zero_iff.mpr fun i => ?_⟩
  have hzero := h.toClean.outstanding_eq_zero_iff.mp h.nothing i
  have hstep : work i (p.step reqRate turn) ≤ work i p := (h.toClean.work_step i turn).1
  omega

theorem leaving_own (h : Drained p) (m : ShardMove p i q) : leaving i q ≤ leaving i p - 1 := by
  obtain ⟨hcounted, hempty, -⟩ := outstanding_eq_zero.mp h.nothing
  have hall : p.produced ≤ p.consumed := h.all_consumed.mpr h.nothing
  have hgo : ∀ {before after : ShardAt}, (p.shards i).pc = before →
      after.toLeave p.produced ≤ before.toLeave p.produced - 1 →
        leaving i (p.goShard i after) ≤ leaving i p - 1 := by
    intro before after hpc hturns
    rw [leaving, leaving, goShard_pc, hpc]
    exact hturns
  cases m with
  | enter hpc => exact hgo hpc (Nat.le_refl _)
  | read hpc first =>
      refine hgo hpc ?_
      cases first with
      | consumed => exact (if_neg (UInt64.not_lt.mpr hall)).le
      | produced => exact Nat.le_refl _
  | stay hpc hless =>
      refine hgo hpc ?_
      rcases hless with hless | ⟨rfl, hless⟩
      · exact absurd hless (UInt64.not_lt.mpr hall)
      · rw [ShardAt.toLeave, ShardAt.toLeave, if_pos hless]
  | leave hpc hall => exact hgo hpc (Nat.zero_le _)
  | idle hpc hnil => exact hgo hpc (Nat.le_refl _)
  | rest hpc =>
      rw [leaving, hpc]
      exact Nat.zero_le _
  | take hpc hcontents record =>
      rw [hempty i] at hcontents
      cases hcontents
  | count hpc =>
      have hnone := hcounted i
      rw [hpc] at hnone
      cases hnone

theorem leaving_step (h : Drained p) (i : Fin S) (turn : Turn W S) :
    leaving i (p.step reqRate turn) ≤ leaving i p ∧
      (turn.ofShard i = true → leaving i (p.step reqRate turn) ≤ leaving i p - 1) :=
  h.toSettled.measure_step (fun _ => h.leaving_own) (fun hij m => by
    rw [leaving, leaving, (m.other hij).1, m.frame.2.2.1]) turn

theorem finished (h : Drained p) (hzero : leaving i p = 0) : (p.shards i).pc = .finished := by
  have hcounted := (outstanding_eq_zero.mp h.nothing).1 i
  unfold leaving at hzero
  cases hpc : (p.shards i).pc with
  | finished => rfl
  | count =>
      rw [hpc] at hcounted
      cases hcounted
  | half read value =>
      rw [hpc] at hzero
      cases read with
      | produced => cases hzero
      | consumed =>
          rw [ShardAt.toLeave] at hzero
          split_ifs at hzero
  | _ =>
      rw [hpc] at hzero
      cases hzero

end Drained

omit [NeZero S] in
theorem leaving_le (i : Fin S) (p : Pipeline W S) : leaving i p ≤ 5 := by
  unfold leaving
  cases (p.shards i).pc with
  | half read value =>
      cases read with
      | produced => exact Nat.le_add_left 1 4
      | consumed =>
          rw [ShardAt.toLeave]
          split_ifs <;> decide
  | _ => simp [ShardAt.toLeave]

omit [NeZero S] in
theorem work_le (i : Fin S) (p : Pipeline W S) :
    work i p ≤ 5 * (p.rings i).contents.length + 4 := by
  have hturns : (p.shards i).pc.toPop ≤ 4 := by
    cases (p.shards i).pc <;> simp [ShardAt.toPop]
  unfold work ShardAt.work
  split_ifs <;> omega

/-- The case is stopped, the workers have returned and no shard is between its two reads. -/
structure Quiet (p : Pipeline W S) : Prop where
  stopped : p.stop = true
  returned : ∀ w, (p.workers w).pc = .finished
  between : ∀ i read value, (p.shards i).pc ≠ .half read value

theorem Balanced.settled (h : Balanced p) (hquiet : Quiet p) : Settled p :=
  ⟨h, hquiet.stopped, hquiet.returned, fun i _ hpc => absurd hpc (hquiet.between i _ _),
    fun i _ hpc => absurd hpc (hquiet.between i _ _)⟩

/-- Enough turns in any order: first the rings are emptied, then the shards leave. -/
theorem Clean.leave (h : Clean p) {first rest : List (Turn W S)}
    (hfirst : ∀ i, 5 * (p.rings i).contents.length + 4 ≤ first.countP (Turn.ofShard i))
    (hrest : ∀ i, 5 ≤ rest.countP (Turn.ofShard i)) :
    Drained (exec (Pipeline.step reqRate) p (first ++ rest)) ∧
      ∀ i, ((exec (Pipeline.step reqRate) p (first ++ rest)).shards i).pc = .finished := by
  have hclean : Clean (exec (Pipeline.step reqRate) p first) :=
    exec_inv (P := fun _ _ => True) (fun _ turn hp _ => hp.step turn) h
      (Each.of_forall fun _ _ => trivial)
  have hwork : ∀ i, work i (exec (Pipeline.step reqRate) p first) = 0 := by
    intro i
    have hcount : work i (exec (Pipeline.step reqRate) p first) ≤
        work i p - first.countP (Turn.ofShard i) :=
      exec_countdown (fun _ turn hp => Clean.step hp turn)
        (fun _ turn hp => (hp.work_step i turn).1) (fun _ turn hp => (hp.work_step i turn).2)
        h first
    have hle := work_le i p
    have hturns := hfirst i
    omega
  have hdrained : Drained (exec (Pipeline.step reqRate) p first) :=
    ⟨hclean, hclean.outstanding_eq_zero_iff.mpr hwork⟩
  rw [exec_append]
  have hend : Drained (exec (Pipeline.step reqRate) (exec (Pipeline.step reqRate) p first) rest) :=
    exec_inv (P := fun _ _ => True) (fun _ turn hp _ => hp.step turn) hdrained
      (Each.of_forall fun _ _ => trivial)
  refine ⟨hend, fun i => hend.finished ?_⟩
  have hcount : leaving i (exec (Pipeline.step reqRate)
      (exec (Pipeline.step reqRate) p first) rest) ≤
        leaving i (exec (Pipeline.step reqRate) p first) - rest.countP (Turn.ofShard i) :=
    exec_countdown (fun _ turn hp => Drained.step hp turn)
      (fun _ turn hp => (hp.leaving_step i turn).1) (fun _ turn hp => (hp.leaving_step i turn).2)
      hdrained rest
  have hle := leaving_le i (exec (Pipeline.step reqRate) p first)
  have hturns := hrest i
  omega

/-! ### Hanging -/

/-- Some event will never count as consumed. -/
structure Stranded (p : Pipeline W S) : Prop extends Settled p where
  stranded : ¬ Drainable p

namespace Stranded

theorem not_all_consumed (h : Stranded p) : ¬ p.produced ≤ p.consumed := by
  intro hall
  obtain ⟨-, hempty, hrefused⟩ := outstanding_eq_zero.mp (h.all_consumed.mp hall)
  exact h.stranded ⟨(refused_eq_nil h.toBalanced).mp hrefused, fun j _ => hempty j⟩

theorem move (h : Stranded p) (hq : Settled q) (m : ShardMove p j q) : Stranded q := by
  refine ⟨hq, fun hdrain => h.stranded ⟨?_, fun k hk => ?_⟩⟩
  · rw [← refused_eq_nil h.toBalanced, ← m.frame.2.2.2, refused_eq_nil hq.toBalanced]
    exact hdrain.1
  · obtain ⟨hfinished, hring⟩ := m.stays_finished hk
    rw [← hring]
    exact hdrain.2 k hfinished

/-- No shard finds everything consumed, so none leaves. -/
theorem keeps_waiting (h : Stranded p) (m : ShardMove p j q)
    (hi : (p.shards i).pc ≠ .finished) : (q.shards i).pc ≠ .finished := by
  by_cases hij : i = j
  · subst hij
    cases m with
    | leave hpc hall => exact absurd hall h.not_all_consumed
    | rest hpc => exact hi
    | take hpc hcontents record =>
        dsimp only
        rw [Function.update_self]
        exact ShardAt.noConfusion
    | _ =>
        rw [goShard_pc]
        exact ShardAt.noConfusion
  · rw [(m.other hij).1]
    exact hi

end Stranded

/-- `q` is stranded, and every shard that was there in `p` waits in it. -/
structure Behind (p q : Pipeline W S) : Prop extends Stranded q where
  waiting : ∀ i, (p.shards i).pc ≠ .finished → (q.shards i).pc ≠ .finished

theorem Behind.step (h : Behind p q) (turn : Turn W S) : Behind p (q.step reqRate turn) := by
  rcases h.toSettled.step_cases turn with ⟨-, hsame⟩ | ⟨j, -, hmove, hsettled⟩
  · rw [hsame]
    exact h
  · exact ⟨h.move hsettled hmove, fun i hi => h.keeps_waiting hmove (h.waiting i hi)⟩

theorem Stranded.behind (h : Stranded p) (more : List (Turn W S)) :
    Behind p (exec (Pipeline.step reqRate) p more) :=
  exec_inv (P := fun _ _ => True) (fun q turn (hq : Behind p q) _ => hq.step turn)
    ⟨h, fun _ hi => hi⟩ (Each.of_forall fun _ _ => trivial)

/-! ### The two endings -/

/-- A case that dropped nothing ends: under every schedule that lets each shard go on, all shards
leave, with every event handled once and counted. -/
theorem shards_leave (reqRate : UInt32) (nextEmit : Fin W → UInt64) {turns : List (Turn W S)}
    (hlen : turns.length ≤ ulongMax)
    (hquiet : Quiet (exec (Pipeline.step reqRate) (Pipeline.start nextEmit) turns))
    (hdrain : Drainable (exec (Pipeline.step reqRate) (Pipeline.start nextEmit) turns))
    {first rest : List (Turn W S)}
    (hfirst : ∀ i, 5 * ((exec (Pipeline.step reqRate) (Pipeline.start nextEmit)
      turns).rings i).contents.length + 4 ≤ first.countP (Turn.ofShard i))
    (hrest : ∀ i, 5 ≤ rest.countP (Turn.ofShard i)) :
    let p := exec (Pipeline.step reqRate) (Pipeline.start nextEmit) (turns ++ (first ++ rest))
    (∀ i, (p.shards i).pc = .finished ∧ p.handled i = p.accepted i) ∧ p.consumed = p.produced := by
  have hsettled := (Inv.run nextEmit hlen).balanced.settled hquiet
  have hclean : Clean (exec (Pipeline.step reqRate) (Pipeline.start nextEmit) turns) :=
    ⟨hsettled, (refused_eq_nil hsettled.toBalanced).mpr hdrain.1, hdrain.2⟩
  obtain ⟨hdrained, hfinished⟩ := hclean.leave hfirst hrest
  have hlag := hdrained.lag
  have hempty := (outstanding_eq_zero.mp hdrained.nothing).2.1
  rw [hdrained.nothing, Nat.add_zero] at hlag
  dsimp only
  rw [exec_append]
  refine ⟨fun i => ⟨hfinished i, ?_⟩, (UInt64.toNat_inj.mp hlag).symm⟩
  rw [hdrained.fifo i, hempty i, List.append_nil]

theorem shards_leave_one :
    let p : Pipeline 1 1 := exec (Pipeline.step 4000) (Pipeline.start fun _ => 0)
      (oneEvent ++ (List.replicate 9 (.shard 0 .produced 0 (mkUpdate 0 0 0 0 0)) ++
        List.replicate 5 (.shard 0 .consumed 0 (mkUpdate 0 0 0 0 0))))
    (∀ i, (p.shards i).pc = .finished ∧ p.handled i = p.accepted i) ∧ p.consumed = p.produced := by
  have hloop : ∀ i : Fin 1, ((exec (Pipeline.step 4000) (Pipeline.start fun _ => 0)
      oneEvent).shards i).pc = .loop := by decide
  refine shards_leave 4000 (fun _ => 0) (by decide) ⟨by decide, by decide, fun i _ _ hpc => ?_⟩
    ⟨by decide, fun i hpc => ?_⟩ (by decide) (by decide)
  · rw [hloop i] at hpc
    cases hpc
  · rw [hloop i] at hpc
    cases hpc

/-- A case that dropped an event, or left one in the ring of a shard that is gone, stays behind:
`consumed` never reaches `produced`, and the shards that have not left never do. -/
theorem shards_hang (reqRate : UInt32) (nextEmit : Fin W → UInt64) {turns : List (Turn W S)}
    (hlen : turns.length ≤ ulongMax)
    (hquiet : Quiet (exec (Pipeline.step reqRate) (Pipeline.start nextEmit) turns))
    (hdrain : ¬ Drainable (exec (Pipeline.step reqRate) (Pipeline.start nextEmit) turns))
    (more : List (Turn W S)) :
    let p := exec (Pipeline.step reqRate) (Pipeline.start nextEmit) (turns ++ more)
    p.consumed < p.produced ∧ ∀ i,
      ((exec (Pipeline.step reqRate) (Pipeline.start nextEmit) turns).shards i).pc ≠ .finished →
        (p.shards i).pc ≠ .finished := by
  have hstranded : Stranded (exec (Pipeline.step reqRate) (Pipeline.start nextEmit) turns) :=
    ⟨(Inv.run nextEmit hlen).balanced.settled hquiet, hdrain⟩
  have hend : Behind _ (exec (Pipeline.step reqRate) _ more) := hstranded.behind more
  dsimp only
  rw [exec_append]
  exact ⟨UInt64.not_le.mp hend.not_all_consumed, hend.waiting⟩

/-- Shard 1 finds everything consumed and leaves between the check of the flag and the push of a
worker. -/
def leftBehind : List (Turn 1 2) :=
  let leaves : Turn 1 2 := .shard (Fin.last 1) .consumed 0 (mkUpdate 0 0 0 0 0)
  [onlyWorker, .main, leaves, leaves, leaves, onlyWorker, onlyWorker, onlyWorker, onlyWorker]

theorem shards_hang_left_behind :
    let p : Pipeline 1 2 := exec (Pipeline.step 4000) (Pipeline.start fun _ => 0)
      (leftBehind ++ List.replicate 20 (.shard 0 .consumed 0 (mkUpdate 0 0 0 0 0)))
    (p.shards 0).pc ≠ .finished ∧ p.consumed < p.produced := by
  have hpcs : ∀ i : Fin 2, ((exec (Pipeline.step 4000) (Pipeline.start fun _ => 0)
      leftBehind).shards i).pc = if i = 0 then .loop else .finished := by decide
  have hquiet : Quiet (exec (Pipeline.step 4000) (Pipeline.start fun _ => 0) leftBehind) := by
    refine ⟨by decide, by decide, fun i _ _ hpc => ?_⟩
    rw [hpcs i] at hpc
    split_ifs at hpc
  have hleft : ¬ Drainable (exec (Pipeline.step 4000) (Pipeline.start fun _ => 0)
      leftBehind) := by
    intro hdrain
    have hempty := contents_eq_nil.mp (hdrain.2 1 (by decide))
    exact absurd hempty (by decide)
  obtain ⟨hbehind, hwaiting⟩ := shards_hang 4000 (fun _ => 0) (by decide) hquiet hleft
    (List.replicate 20 (.shard 0 .consumed 0 (mkUpdate 0 0 0 0 0)))
  exact ⟨hwaiting 0 (by decide), hbehind⟩

end Bench

end Subown
