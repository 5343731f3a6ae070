import Subown.BenchPipeline
import Subown.CStrings
import Subown.RunRules
import Mathlib.Algebra.BigOperators.Group.Finset.Basic
import Mathlib.Algebra.Order.BigOperators.Group.Finset
import Mathlib.Tactic.Abel

/-! The books of the benchmark pipeline over every interleaving of its threads: where each event
is, what the counters say about it, and what the shards' records say. -/
namespace Subown

namespace Bench

open CStrings RingBuffer RunRules

/-! ### Sums over threads -/

section Sums

variable {ι α M : Type*} [Fintype ι] [DecidableEq ι] [AddCommMonoid M]

/-- Replacing one summand. -/
theorem sum_update (f : α → M) (g : ι → α) (i : ι) (x : α) :
    f (g i) + ∑ j, f (Function.update g i x j) = f x + ∑ j, f (g j) := by
  have hrest : ∑ j ∈ Finset.univ.erase i, f (Function.update g i x j) =
      ∑ j ∈ Finset.univ.erase i, f (g j) := by
    refine Finset.sum_congr rfl fun j hj => ?_
    rw [Function.update_of_ne (Finset.ne_of_mem_erase hj)]
  rw [← Finset.add_sum_erase _ _ (Finset.mem_univ i), hrest, Function.update_self,
    ← Finset.add_sum_erase _ (fun j => f (g j)) (Finset.mem_univ i), add_left_comm]

theorem sum_update_same (f : α → M) (g : ι → α) (i : ι) {x : α} (h : f x = f (g i)) :
    ∑ j, f (Function.update g i x j) = ∑ j, f (g j) := by
  refine Finset.sum_congr rfl fun j _ => ?_
  by_cases hj : j = i
  · rw [hj, Function.update_self, h]
  · rw [Function.update_of_ne hj]

end Sums

/-! ### Every event in one place -/

variable {W S : ℕ} [NeZero S]

/-- The event a worker holds. -/
def WorkerAt.hand : WorkerAt → Multiset Evt
  | .push e => {e}
  | _ => 0

/-- The events a worker pushed and has not counted yet. -/
def WorkerAt.uncounted : WorkerAt → ℕ
  | .count => 1
  | _ => 0

/-- The events a shard handled and has not counted yet. -/
def ShardAt.uncounted : ShardAt → ℕ
  | .count => 1
  | _ => 0

/-- The books of the pipeline: every event that got a number is in the hand of a worker, in the
history of a ring or refused; a ring keeps the order; and the counters lag behind by the threads
that are about to count. -/
structure Balanced (p : Pipeline W S) : Prop where
  numbered : p.emitted.map Evt.seq =
    (List.range p.globalSeq.toNat).map fun k => UInt64.ofNat (k + 1)
  made : ∀ e ∈ p.emitted, ∃ wid now, e = newEvent wid e.seq now
  once : (p.emitted : Multiset Evt) =
    ∑ w, (p.workers w).pc.hand + ∑ i, (p.accepted i : Multiset Evt) + p.refused
  fifo : ∀ i, p.accepted i = p.handled i ++ (p.rings i).contents
  routed : ∀ i, ∀ e ∈ p.accepted i, route S e = i
  produced : p.produced.toNat + ∑ w, (p.workers w).pc.uncounted =
    ∑ i, (p.accepted i).length + p.refused.length
  consumed : p.consumed.toNat + ∑ i, (p.shards i).pc.uncounted = ∑ i, (p.handled i).length
  dropped : ∑ i, (p.rings i).dropped.toNat = p.refused.length

/-- After `n` turns no counter is above `n`. -/
structure Bounded (n : ℕ) (p : Pipeline W S) : Prop where
  globalSeq : p.globalSeq.toNat ≤ n
  produced : p.produced.toNat ≤ n
  consumed : p.consumed.toNat ≤ n
  refused : p.refused.length ≤ n

variable {p : Pipeline W S} {w : Fin W} {i : Fin S} {reqRate : UInt32}

theorem zeroRing_contents : zeroRing.contents = [] := contents_eq_nil.mpr rfl

namespace Balanced

theorem start (nextEmit : Fin W → UInt64) :
    Balanced (Pipeline.start nextEmit : Pipeline W S) where
  numbered := rfl
  made e he := by cases he
  once := by simp [Pipeline.start, WorkerAt.hand]
  fifo i := by
    rw [Pipeline.start, zeroRing_contents]
    rfl
  routed i e he := by cases he
  produced := by simp [Pipeline.start, WorkerAt.uncounted]
  consumed := by simp [Pipeline.start, ShardAt.uncounted]
  dropped := by simp [Pipeline.start, zeroRing]

/-- A worker moves on without an event. -/
theorem goWorker (h : Balanced p) {pc : WorkerAt} (hhand : pc.hand = (p.workers w).pc.hand)
    (hcount : pc.uncounted = (p.workers w).pc.uncounted) : Balanced (p.goWorker w pc) := by
  refine ⟨h.numbered, h.made, ?_, h.fifo, h.routed, ?_, h.consumed, h.dropped⟩
  · rw [Pipeline.goWorker, sum_update_same (fun x : Worker => x.pc.hand) _ _ hhand]
    exact h.once
  · rw [Pipeline.goWorker, sum_update_same (fun x : Worker => x.pc.uncounted) _ _ hcount]
    exact h.produced

theorem goShard (h : Balanced p) {pc : ShardAt}
    (hcount : pc.uncounted = (p.shards i).pc.uncounted) : Balanced (p.goShard i pc) := by
  refine ⟨h.numbered, h.made, h.once, h.fifo, h.routed, h.produced, ?_, h.dropped⟩
  rw [Pipeline.goShard, sum_update_same (fun x : Shard => x.pc.uncounted) _ _ hcount]
  exact h.consumed

/-- A worker takes the next number. -/
theorem emit (h : Balanced p) (hlt : p.globalSeq.toNat < ulongMax)
    (hpc : (p.workers w).pc = .ready) (now : UInt64) :
    Balanced ({ p with
      globalSeq := p.globalSeq + 1
      emitted := p.emitted ++ [newEvent w (p.globalSeq + 1) now] }.goWorker w
        (.push (newEvent w (p.globalSeq + 1) now))) := by
  have hseq : (p.globalSeq + 1).toNat = p.globalSeq.toNat + 1 := toNat_succ hlt
  refine ⟨?_, ?_, ?_, h.fifo, h.routed, ?_, h.consumed, h.dropped⟩
  · rw [Pipeline.goWorker, List.map_append, h.numbered, hseq, List.range_succ, List.map_append]
    rw [List.map_singleton, List.map_singleton, ← hseq, UInt64.ofNat_toNat]
    rfl
  · intro e he
    rcases List.mem_append.mp he with he | he
    · exact h.made e he
    · rw [List.mem_singleton.mp he]
      exact ⟨w, now, rfl⟩
  · have hhand := sum_update (fun x : Worker => x.pc.hand) p.workers w
      { p.workers w with pc := .push (newEvent w (p.globalSeq + 1) now) }
    rw [hpc] at hhand
    change 0 + _ = {newEvent w (p.globalSeq + 1) now} + _ at hhand
    rw [zero_add] at hhand
    rw [Pipeline.goWorker, ← Multiset.coe_add, h.once, hhand, Multiset.coe_singleton]
    abel
  · have hcount : (WorkerAt.push (newEvent w (p.globalSeq + 1) now)).uncounted =
        (p.workers w).pc.uncounted := by
      rw [hpc]
      rfl
    rw [Pipeline.goWorker, sum_update_same (fun x : Worker => x.pc.uncounted) _ _ hcount]
    exact h.produced

/-- The pushed event leaves the hand of its worker. -/
theorem pushed_sums {e : Evt} {workers : Fin W → Worker} (hpc : (workers w).pc = .push e) :
    ({e} : Multiset Evt) + ∑ v, (Function.update workers w
        { workers w with pc := .count } v).pc.hand = ∑ v, (workers v).pc.hand ∧
      ∑ v, (Function.update workers w { workers w with pc := .count } v).pc.uncounted =
        1 + ∑ v, (workers v).pc.uncounted := by
  have hhand := sum_update (fun x : Worker => x.pc.hand) workers w
    { workers w with pc := .count }
  have hcount := sum_update (fun x : Worker => x.pc.uncounted) workers w
    { workers w with pc := .count }
  rw [hpc] at hhand hcount
  exact ⟨hhand.trans (zero_add _), (zero_add _).symm.trans hcount⟩

/-- An event in a queue: the history and the ring of `i` grow, those of the others stay. -/
theorem fifo_push (h : Balanced p) {i : Fin S} {e : Evt} {r : Ring}
    (hcontents : r.contents = (p.rings i).contents ++ [e]) (j : Fin S) :
    Function.update p.accepted i (p.accepted i ++ [e]) j =
      p.handled j ++ (Function.update p.rings i r j).contents := by
  by_cases hj : j = i
  · subst hj
    rw [Function.update_self, Function.update_self, hcontents, h.fifo, List.append_assoc]
  · rw [Function.update_of_ne hj, Function.update_of_ne hj]
    exact h.fifo j

/-- A worker pushes its event and the ring takes it. -/
theorem pushAccepted (h : Balanced p) {e : Evt} (hpc : (p.workers w).pc = .push e) {r : Ring}
    (hcontents : r.contents = (p.rings (route S e)).contents ++ [e])
    (hdropped : r.dropped = (p.rings (route S e)).dropped) :
    Balanced ({ p.setRing (route S e) r with
      accepted := Function.update p.accepted (route S e)
        (p.accepted (route S e) ++ [e]) }.goWorker w .count) := by
  obtain ⟨hhand, hcount⟩ := pushed_sums hpc
  refine ⟨h.numbered, h.made, ?_, h.fifo_push hcontents, ?_, ?_, h.consumed, ?_⟩
  · have haccepted := sum_update (fun l : List Evt => (l : Multiset Evt)) p.accepted (route S e)
      (p.accepted (route S e) ++ [e])
    rw [← Multiset.coe_add, Multiset.coe_singleton, add_assoc, add_right_inj] at haccepted
    change (p.emitted : Multiset Evt) =
      ∑ v, (Function.update p.workers w { p.workers w with pc := .count } v).pc.hand +
        ∑ i, (Function.update p.accepted (route S e) (p.accepted (route S e) ++ [e]) i :
          Multiset Evt) + p.refused
    rw [h.once, haccepted, ← hhand]
    abel
  · intro j e' he'
    change e' ∈ Function.update p.accepted _ _ j at he'
    by_cases hj : j = route S e
    · subst hj
      rw [Function.update_self] at he'
      rcases List.mem_append.mp he' with he' | he'
      · exact h.routed _ e' he'
      · rw [List.mem_singleton.mp he']
    · rw [Function.update_of_ne hj] at he'
      exact h.routed j e' he'
  · have hlength := sum_update List.length p.accepted (route S e) (p.accepted (route S e) ++ [e])
    have hbefore := h.produced
    rw [List.length_append, List.length_singleton] at hlength
    change p.produced.toNat +
      ∑ v, (Function.update p.workers w { p.workers w with pc := .count } v).pc.uncounted =
        ∑ i, (Function.update p.accepted (route S e) (p.accepted (route S e) ++ [e]) i).length +
          p.refused.length
    omega
  · have hdrops := sum_update_same (fun r : Ring => r.dropped.toNat) p.rings (route S e)
      (congrArg UInt64.toNat hdropped)
    exact hdrops.trans h.dropped

/-- A worker pushes its event and the ring is full. -/
theorem pushRefused (h : Balanced p) (hlt : p.refused.length < ulongMax) {e : Evt}
    (hpc : (p.workers w).pc = .push e) (i : Fin S) :
    Balanced ({ p.setRing i { p.rings i with dropped := (p.rings i).dropped + 1 } with
      refused := p.refused ++ [e] }.goWorker w .count) := by
  obtain ⟨hhand, hcount⟩ := pushed_sums hpc
  refine ⟨h.numbered, h.made, ?_, ?_, h.routed, ?_, h.consumed, ?_⟩
  · change (p.emitted : Multiset Evt) =
      ∑ v, (Function.update p.workers w { p.workers w with pc := .count } v).pc.hand +
        ∑ i, (p.accepted i : Multiset Evt) + ((p.refused ++ [e] : List Evt) : Multiset Evt)
    rw [h.once, ← hhand, ← Multiset.coe_add, Multiset.coe_singleton]
    abel
  · intro j
    have hring : (Function.update p.rings i
        { p.rings i with dropped := (p.rings i).dropped + 1 } j).contents =
          (p.rings j).contents := by
      by_cases hj : j = i
      · subst hj
        rw [Function.update_self]
        rfl
      · rw [Function.update_of_ne hj]
    exact (h.fifo j).trans (congrArg (p.handled j ++ ·) hring.symm)
  · have hbefore := h.produced
    change p.produced.toNat +
      ∑ v, (Function.update p.workers w { p.workers w with pc := .count } v).pc.uncounted =
        ∑ i, (p.accepted i).length + (p.refused ++ [e]).length
    rw [List.length_append, List.length_singleton]
    omega
  · have hdrops := sum_update (fun r : Ring => r.dropped.toNat) p.rings i
      { p.rings i with dropped := (p.rings i).dropped + 1 }
    have hle : (p.rings i).dropped.toNat ≤ ∑ j, (p.rings j).dropped.toNat :=
      Finset.single_le_sum_of_canonicallyOrdered (f := fun j => (p.rings j).dropped.toNat)
        (Finset.mem_univ i)
    have hbefore := h.dropped
    rw [toNat_succ (by omega)] at hdrops
    change ∑ j, (Function.update p.rings i
      { p.rings i with dropped := (p.rings i).dropped + 1 } j).dropped.toNat =
        (p.refused ++ [e]).length
    rw [List.length_append, List.length_singleton]
    omega

theorem push (h : Balanced p) (hlt : p.refused.length < ulongMax) {e : Evt}
    (hpc : (p.workers w).pc = .push e) : Balanced ((p.pushed e).goWorker w .count) := by
  unfold Pipeline.pushed
  rcases ringPush_cases (p.rings (route S e)) e with
    ⟨hrc, hcontents, hdropped⟩ | ⟨hrc, hring⟩
  · dsimp only
    rw [if_pos hrc]
    exact h.pushAccepted hpc hcontents hdropped
  · dsimp only
    rw [if_neg hrc, hring]
    exact h.pushRefused hlt hpc (route S e)

/-- A worker counts the event it pushed. -/
theorem countProduced (h : Balanced p) (hlt : p.produced.toNat < ulongMax)
    (hpc : (p.workers w).pc = .count) (nextEmit : UInt64) : Balanced { p with
      produced := p.produced + 1
      workers := Function.update p.workers w ⟨.loop, nextEmit⟩ } := by
  have hsucc : (p.produced + 1).toNat = p.produced.toNat + 1 := toNat_succ hlt
  refine ⟨h.numbered, h.made, ?_, h.fifo, h.routed, ?_, h.consumed, h.dropped⟩
  · have hhand := sum_update_same (fun x : Worker => x.pc.hand) p.workers w
      (x := ⟨.loop, nextEmit⟩) (by rw [hpc]; rfl)
    exact h.once.trans (by rw [hhand])
  · have hcount := sum_update (fun x : Worker => x.pc.uncounted) p.workers w ⟨.loop, nextEmit⟩
    rw [hpc] at hcount
    change 1 + _ = 0 + _ at hcount
    have hbefore := h.produced
    change (p.produced + 1).toNat +
      ∑ v, (Function.update p.workers w ⟨.loop, nextEmit⟩ v).pc.uncounted =
        ∑ i, (p.accepted i).length + p.refused.length
    omega

/-- A shard handles the oldest event of its ring. -/
theorem pop (h : Balanced p) (hpc : (p.shards i).pc = .pop) {e : Evt} {r : Ring}
    (hcontents : (p.rings i).contents = e :: r.contents)
    (hdropped : r.dropped = (p.rings i).dropped) (record : SubownRecord) :
    Balanced { p.setRing i r with
      shards := Function.update p.shards i ⟨.count, record⟩
      handled := Function.update p.handled i (p.handled i ++ [e]) } := by
  refine ⟨h.numbered, h.made, h.once, ?_, h.routed, h.produced, ?_, ?_⟩
  · intro j
    change p.accepted j = Function.update p.handled i (p.handled i ++ [e]) j ++
      (Function.update p.rings i r j).contents
    rw [h.fifo j]
    by_cases hj : j = i
    · subst hj
      rw [Function.update_self, Function.update_self, hcontents, List.append_assoc]
      rfl
    · rw [Function.update_of_ne hj, Function.update_of_ne hj]
  · have hcount := sum_update (fun x : Shard => x.pc.uncounted) p.shards i ⟨.count, record⟩
    have hlength := sum_update List.length p.handled i (p.handled i ++ [e])
    rw [hpc] at hcount
    rw [List.length_append, List.length_singleton] at hlength
    change 0 + _ = 1 + _ at hcount
    have hbefore := h.consumed
    change p.consumed.toNat +
      ∑ j, (Function.update p.shards i ⟨.count, record⟩ j).pc.uncounted =
        ∑ j, (Function.update p.handled i (p.handled i ++ [e]) j).length
    omega
  · have hdrops := sum_update_same (fun r : Ring => r.dropped.toNat) p.rings i
      (congrArg UInt64.toNat hdropped)
    exact hdrops.trans h.dropped

/-- A shard counts the event it handled. -/
theorem countConsumed (h : Balanced p) (hlt : p.consumed.toNat < ulongMax)
    (hpc : (p.shards i).pc = .count) :
    Balanced ({ p with consumed := p.consumed + 1 }.goShard i .loop) := by
  have hsucc : (p.consumed + 1).toNat = p.consumed.toNat + 1 := toNat_succ hlt
  refine ⟨h.numbered, h.made, h.once, h.fifo, h.routed, h.produced, ?_, h.dropped⟩
  have hcount := sum_update (fun x : Shard => x.pc.uncounted) p.shards i
    { p.shards i with pc := .loop }
  rw [hpc] at hcount
  change 1 + _ = 0 + _ at hcount
  have hbefore := h.consumed
  change (p.consumed + 1).toNat +
    ∑ j, (Function.update p.shards i { p.shards i with pc := .loop } j).pc.uncounted =
      ∑ j, (p.handled j).length
  omega

theorem stop (h : Balanced p) : Balanced { p with stop := true } :=
  ⟨h.numbered, h.made, h.once, h.fifo, h.routed, h.produced, h.consumed, h.dropped⟩

theorem workerStep (h : Balanced p) (hseq : p.globalSeq.toNat < ulongMax)
    (hproduced : p.produced.toNat < ulongMax) (hrefused : p.refused.length < ulongMax)
    (w : Fin W) (now : UInt64) : Balanced (p.workerStep reqRate w now) := by
  unfold Pipeline.workerStep
  cases hpc : (p.workers w).pc with
  | loop =>
      have hcalm : ∀ b : Bool, (if b then WorkerAt.finished else .ready).hand = 0 ∧
          (if b then WorkerAt.finished else .ready).uncounted = 0 := by decide
      refine h.goWorker ?_ ?_
      · exact (hcalm p.stop).1.trans (by rw [hpc]; rfl)
      · exact (hcalm p.stop).2.trans (by rw [hpc]; rfl)
  | ready =>
      by_cases hnow : now ≥ (p.workers w).nextEmit
      · dsimp only
        rw [if_pos hnow]
        exact h.emit hseq hpc now
      · dsimp only
        rw [if_neg hnow]
        exact h.goWorker (by rw [hpc]; rfl) (by rw [hpc]; rfl)
  | push e => exact h.push hrefused hpc
  | count => exact h.countProduced hproduced hpc _
  | finished => exact h

theorem shardStep (h : Balanced p)
    (hconsumed : (p.shards i).pc = .count → p.consumed.toNat < ulongMax) (first : Operand)
    (now : UInt64) (unset : SubownUpdate) : Balanced (p.shardStep i first now unset) := by
  have hgo : ∀ {pc : ShardAt}, pc.uncounted = 0 → (p.shards i).pc.uncounted = 0 →
      Balanced (p.goShard i pc) := fun hpc hbefore => h.goShard (hpc.trans hbefore.symm)
  unfold Pipeline.shardStep
  cases hpc : (p.shards i).pc with
  | loop => exact hgo (by cases p.stop <;> rfl) (by rw [hpc]; rfl)
  | compare => exact hgo rfl (by rw [hpc]; rfl)
  | half read value =>
      cases read with
      | consumed =>
          refine hgo ?_ (by rw [hpc]; rfl)
          by_cases hless : value < p.produced
          · rw [if_pos hless]
            rfl
          · rw [if_neg hless]
            rfl
      | produced =>
          refine hgo ?_ (by rw [hpc]; rfl)
          by_cases hless : p.consumed < value
          · rw [if_pos hless]
            rfl
          · rw [if_neg hless]
            rfl
  | pop =>
      rcases ringPop_cases (p.rings i) with ⟨hnone, -⟩ | ⟨e, hsome, hcontents, hdropped⟩
      · dsimp only
        rw [hnone]
        exact hgo rfl (by rw [hpc]; rfl)
      · dsimp only
        rw [hsome]
        exact h.pop hpc hcontents hdropped _
  | count => exact h.countConsumed (hconsumed hpc) hpc
  | finished => exact h

end Balanced

namespace Bounded

variable {n : ℕ}

omit [NeZero S] in
theorem mono (h : Bounded n p) : Bounded (n + 1) p :=
  ⟨h.globalSeq.trans n.le_succ, h.produced.trans n.le_succ, h.consumed.trans n.le_succ,
    h.refused.trans n.le_succ⟩

/-- A counter that wraps is even smaller. -/
theorem toNat_succ_le {x : UInt64} (h : x.toNat ≤ n) : (x + 1).toNat ≤ n + 1 := by
  rw [UInt64.toNat_add]
  exact (Nat.mod_le _ _).trans (Nat.succ_le_succ h)

theorem pushed (h : Bounded n p) (e : Evt) : Bounded (n + 1) (p.pushed e) := by
  unfold Pipeline.pushed
  dsimp only
  split_ifs
  · exact ⟨h.mono.globalSeq, h.mono.produced, h.mono.consumed, h.mono.refused⟩
  · refine ⟨h.mono.globalSeq, h.mono.produced, h.mono.consumed, ?_⟩
    rw [List.length_append]
    exact Nat.succ_le_succ h.refused

theorem step (h : Bounded n p) (turn : Turn W S) : Bounded (n + 1) (p.step reqRate turn) := by
  have hnext := h.mono
  cases turn with
  | main => exact ⟨hnext.globalSeq, hnext.produced, hnext.consumed, hnext.refused⟩
  | worker w now =>
      change Bounded (n + 1) (p.workerStep reqRate w now)
      unfold Pipeline.workerStep
      cases (p.workers w).pc with
      | loop => exact ⟨hnext.globalSeq, hnext.produced, hnext.consumed, hnext.refused⟩
      | ready =>
          dsimp only
          split_ifs
          · exact ⟨toNat_succ_le h.globalSeq, hnext.produced, hnext.consumed, hnext.refused⟩
          · exact ⟨hnext.globalSeq, hnext.produced, hnext.consumed, hnext.refused⟩
      | push e =>
          have hpushed := h.pushed e
          exact ⟨hpushed.globalSeq, hpushed.produced, hpushed.consumed, hpushed.refused⟩
      | count => exact ⟨hnext.globalSeq, toNat_succ_le h.produced, hnext.consumed, hnext.refused⟩
      | finished => exact hnext
  | shard i first now unset =>
      change Bounded (n + 1) (p.shardStep i first now unset)
      unfold Pipeline.shardStep
      cases (p.shards i).pc with
      | count => exact ⟨hnext.globalSeq, hnext.produced, toNat_succ_le h.consumed, hnext.refused⟩
      | half read value =>
          cases read <;>
            exact ⟨hnext.globalSeq, hnext.produced, hnext.consumed, hnext.refused⟩
      | pop =>
          dsimp only
          cases (ringPop (p.rings i)).1 <;>
            exact ⟨hnext.globalSeq, hnext.produced, hnext.consumed, hnext.refused⟩
      | finished => exact hnext
      | _ => exact ⟨hnext.globalSeq, hnext.produced, hnext.consumed, hnext.refused⟩

end Bounded

theorem Balanced.step {n : ℕ} (h : Balanced p) (hb : Bounded n p) (hn : n < ulongMax)
    (turn : Turn W S) : Balanced (p.step reqRate turn) := by
  cases turn with
  | main => exact h.stop
  | worker w now =>
      exact h.workerStep (hb.globalSeq.trans_lt hn) (hb.produced.trans_lt hn)
        (hb.refused.trans_lt hn) w now
  | shard i first now unset => exact h.shardStep (fun _ => hb.consumed.trans_lt hn) first now unset

/-! ### The records of the shards -/

/-- What the record of a shard says after the events `l`: the generation counts them up to its
largest value and the owner stays at the event that took it there. -/
structure Served (l : List Evt) (r : SubownRecord) : Prop where
  epoch : r.ownerEpoch = 1
  generation : r.generation.toNat = min (1 + l.length) 0xFFFFFFFF
  subscriber : ∀ e ∈ l.getLast?, r.subscriberId = e.subscriberId
  owner : ∀ e ∈ (l.take 0xFFFFFFFE).getLast?,
    r.ownerBoxId = e.ownerBoxId ∧ r.state = .stateRemote

theorem newEvent_owner (wid : ℕ) (seq now : UInt64) :
    (newEvent wid seq now).ownerBoxId = 0 ∨ (newEvent wid seq now).ownerBoxId = 1 := by
  have hbit : (UInt32.ofNat wid &&& 1).toNat = (UInt32.ofNat wid).toNat % 2 := by
    rw [UInt32.toNat_and]
    exact Nat.and_one_is_mod _
  have hcases : UInt32.ofNat wid &&& 1 = 0 ∨ UInt32.ofNat wid &&& 1 = 1 := by
    rcases Nat.mod_two_eq_zero_or_one (UInt32.ofNat wid).toNat with h | h
    · exact Or.inl (UInt32.toNat_inj.mp (hbit.trans h))
    · exact Or.inr (UInt32.toNat_inj.mp (hbit.trans h))
  unfold newEvent
  rcases hcases with h | h
  · exact Or.inl (by rw [h]; rfl)
  · exact Or.inr (by rw [h]; rfl)

theorem normalizeOwner_box {ownerBoxId : UInt16} (h : ownerBoxId = 0 ∨ ownerBoxId = 1)
    (ownerBox : UInt8) : (normalizeOwner ownerBoxId ownerBox).toUInt16 = ownerBoxId ∧
      normalizeOwner ownerBoxId ownerBox ≠ unownedState := by
  rcases h with rfl | rfl
  · have hbox : normalizeOwner 0 ownerBox = 0 := rfl
    rw [hbox]
    exact ⟨rfl, by decide⟩
  · have hbox : normalizeOwner 1 ownerBox = 1 := rfl
    rw [hbox]
    exact ⟨rfl, by decide⟩

/-- Below the largest generation the resolver takes the event. -/
theorem handle_newer {r : SubownRecord} {e : Evt} (hlt : r.generation.toNat < 0xFFFFFFFF)
    (ho : e.ownerBoxId = 0 ∨ e.ownerBoxId = 1) (now : UInt64) (unset : SubownUpdate) :
    (handle r e now unset).ownerEpoch = r.ownerEpoch ∧
      (handle r e now unset).generation.toNat = r.generation.toNat + 1 ∧
      (handle r e now unset).subscriberId = e.subscriberId ∧
      (handle r e now unset).ownerBoxId = e.ownerBoxId ∧
      (handle r e now unset).state = .stateRemote := by
  have hsucc : (r.generation + 1).toNat = r.generation.toNat + 1 := by
    rw [UInt32.toNat_add]
    exact Nat.mod_eq_of_lt (Nat.succ_lt_succ hlt)
  obtain ⟨hbox, howned⟩ := normalizeOwner_box ho unset.ownerBox
  unfold handle
  dsimp only
  rw [applyRemoteUpdate_newer ⟨rfl, rfl⟩ (stampOf_lt.mpr (Or.inr ⟨rfl, ?_⟩))]
  · exact ⟨rfl, hsucc, rfl, hbox, if_neg howned⟩
  · rw [UInt32.lt_iff_toNat_lt, hsucc]
    exact Nat.lt_succ_self _

/-- From the largest generation on the number wraps and the resolver calls every event stale. -/
theorem handle_wrapped {r : SubownRecord} (hmax : r.generation.toNat = 0xFFFFFFFF) (e : Evt)
    (now : UInt64) (unset : SubownUpdate) :
    handle r e now unset = { r with subscriberId := e.subscriberId } := by
  have hgen : r.generation = 0xFFFFFFFF := UInt32.toNat_inj.mp hmax
  unfold handle
  dsimp only
  rw [applyRemoteUpdate_stale ⟨rfl, rfl⟩ (stampOf_lt.mpr (Or.inr ⟨rfl, ?_⟩))]
  change r.generation + 1 < r.generation
  rw [hgen]
  decide

namespace Served

variable {l : List Evt} {r : SubownRecord}

theorem start : Served [] firstRecord where
  epoch := rfl
  generation := rfl
  subscriber e he := by cases he
  owner e he := by
    rw [List.take_nil] at he
    cases he

theorem handle (h : Served l r) {e : Evt} (ho : e.ownerBoxId = 0 ∨ e.ownerBoxId = 1)
    (now : UInt64) (unset : SubownUpdate) : Served (l ++ [e]) (handle r e now unset) := by
  have hlength : (l ++ [e]).length = l.length + 1 := by
    rw [List.length_append, List.length_singleton]
  have hlast : ∀ e' ∈ (l ++ [e]).getLast?, e' = e := by
    intro e' he'
    rw [List.getLast?_concat] at he'
    exact (Option.some.inj he').symm
  have hgen := h.generation
  by_cases hlt : l.length < 0xFFFFFFFE
  · have hbelow : r.generation.toNat < 0xFFFFFFFF := by omega
    obtain ⟨hepoch, hnext, hsid, hbox, hstate⟩ := handle_newer hbelow ho now unset
    refine ⟨hepoch.trans h.epoch, by omega, fun e' he' => ?_, fun e' he' => ?_⟩
    · rw [hlast e' he', hsid]
    · rw [List.take_of_length_le (by omega)] at he'
      rw [hlast e' he']
      exact ⟨hbox, hstate⟩
  · rw [handle_wrapped (by omega)]
    refine ⟨h.epoch, by change r.generation.toNat = _; omega, fun e' he' => ?_, fun e' he' => ?_⟩
    · rw [hlast e' he']
    · rw [List.take_append_of_le_length (by omega)] at he'
      exact h.owner e' he'

end Served

/-- An event a ring took or is about to take was made by a worker. -/
theorem Balanced.owner (h : Balanced p) {e : Evt} (he : e ∈ p.accepted i) :
    e.ownerBoxId = 0 ∨ e.ownerBoxId = 1 := by
  have hemitted : e ∈ (p.emitted : Multiset Evt) := by
    rw [h.once]
    refine Multiset.mem_add.mpr (Or.inl (Multiset.mem_add.mpr (Or.inr ?_)))
    exact Multiset.mem_sum.mpr ⟨i, Finset.mem_univ i, he⟩
  obtain ⟨wid, now, hmade⟩ := h.made e hemitted
  rw [hmade]
  exact newEvent_owner wid e.seq now

/-- Every record says what its shard has handled. -/
def AllServed (p : Pipeline W S) : Prop := ∀ i, Served (p.handled i) (p.shards i).record

namespace AllServed

omit [NeZero S] in
theorem goShard (h : AllServed p) (i : Fin S) (pc : ShardAt) : AllServed (p.goShard i pc) := by
  intro j
  have hrecord : ((p.goShard i pc).shards j).record = (p.shards j).record := by
    unfold Pipeline.goShard
    dsimp only
    by_cases hj : j = i
    · subst hj
      rw [Function.update_self]
    · rw [Function.update_of_ne hj]
  rw [hrecord]
  exact h j

theorem shardStep (h : AllServed p) (hb : Balanced p) (first : Operand) (now : UInt64)
    (unset : SubownUpdate) : AllServed (p.shardStep i first now unset) := by
  unfold Pipeline.shardStep
  cases (p.shards i).pc with
  | loop => exact h.goShard i _
  | compare => exact h.goShard i _
  | half read value => cases read <;> exact h.goShard i _
  | pop =>
      rcases ringPop_cases (p.rings i) with ⟨hnone, -⟩ | ⟨e, hsome, hcontents, -⟩
      · dsimp only
        rw [hnone]
        exact h.goShard i _
      · dsimp only
        rw [hsome]
        have haccepted : e ∈ p.accepted i := by
          rw [hb.fifo i, hcontents]
          exact List.mem_append.mpr (Or.inr List.mem_cons_self)
        intro j
        by_cases hj : j = i
        · subst hj
          dsimp only
          rw [Function.update_self, Function.update_self]
          exact (h j).handle (hb.owner haccepted) now unset
        · dsimp only
          rw [Function.update_of_ne hj, Function.update_of_ne hj]
          exact h j
  | count =>
      have hcounted : AllServed { p with consumed := p.consumed + 1 } := h
      exact hcounted.goShard i .loop
  | finished => exact h

theorem workerStep (h : AllServed p) (w : Fin W) (now : UInt64) :
    AllServed (p.workerStep reqRate w now) := by
  unfold Pipeline.workerStep
  cases (p.workers w).pc with
  | ready =>
      dsimp only
      split_ifs <;> exact h
  | push e =>
      dsimp only [Pipeline.pushed]
      split_ifs <;> exact h
  | _ => exact h

theorem step (h : AllServed p) (hb : Balanced p) (turn : Turn W S) :
    AllServed (p.step reqRate turn) := by
  cases turn with
  | main => exact h
  | worker w now => exact h.workerStep w now
  | shard i first now unset => exact h.shardStep hb first now unset

end AllServed

/-! ### Runs -/

/-- The books after `n` turns. -/
structure Inv (n : ℕ) (p : Pipeline W S) : Prop where
  balanced : Balanced p
  bounded : Bounded n p
  served : AllServed p

namespace Inv

theorem step {n : ℕ} (h : Inv n p) (hn : n < ulongMax) (turn : Turn W S) :
    Inv (n + 1) (p.step reqRate turn) :=
  ⟨h.balanced.step h.bounded hn turn, h.bounded.step turn, h.served.step h.balanced turn⟩

theorem run (nextEmit : Fin W → UInt64) {turns : List (Turn W S)}
    (hlen : turns.length ≤ ulongMax) :
    Inv turns.length (exec (Pipeline.step reqRate) (Pipeline.start nextEmit) turns) := by
  have hstart : Inv 0 (Pipeline.start nextEmit : Pipeline W S) :=
    ⟨.start nextEmit, ⟨le_rfl, le_rfl, le_rfl, le_rfl⟩, fun _ => .start⟩
  have h : Inv (0 + turns.length)
      (exec (Pipeline.step reqRate) (Pipeline.start nextEmit) turns) :=
    exec_of_budget (P := fun _ _ => True) (fun _ _ turn hn h _ => h.step hn turn) hstart
      (by rwa [Nat.zero_add]) (Each.of_forall fun _ _ => trivial)
  rwa [Nat.zero_add] at h

end Inv

/-- A turn of the only worker. -/
def onlyWorker {S : ℕ} : Turn 1 S := .worker 0 0

/-- The worker sends one event and returns. -/
def oneEvent : List (Turn 1 1) :=
  [onlyWorker, onlyWorker, onlyWorker, onlyWorker, .main, onlyWorker]

/-- The only shard handles the event and counts it. -/
def oneHandled : List (Turn 1 1) :=
  oneEvent ++ List.replicate 5 (.shard 0 .consumed 2000000 (mkUpdate 0 0 0 0 0))

/-- The record of a shard counts the events it handled until its generation is exhausted. -/
theorem shard_records (reqRate : UInt32) (nextEmit : Fin W → UInt64) {turns : List (Turn W S)}
    (hlen : turns.length ≤ ulongMax) (i : Fin S) :
    Served ((exec (Pipeline.step reqRate) (Pipeline.start nextEmit) turns).handled i)
      ((exec (Pipeline.step reqRate) (Pipeline.start nextEmit) turns).shards i).record :=
  (Inv.run nextEmit hlen).served i

theorem shard_records_one :
    let p : Pipeline 1 1 := exec (Pipeline.step 4000) (Pipeline.start fun _ => 0) oneHandled
    (p.shards 0).record.generation = 2 ∧ Served (p.handled 0) (p.shards 0).record :=
  ⟨by decide, shard_records 4000 (fun _ => 0) (by decide) 0⟩

end Bench

end Subown
