import Subown.AdapterState
import Subown.CoreResolver
import Subown.RingBuffer

/-! The threads of `bench_pipeline_4k.c`: workers that produce events, rings that carry them
and shards that feed them to the resolver. A step is what a thread does between two accesses to
shared memory: a ring under its mutex, an atomic counter or the stop flag. The accesses happen in
one order that all threads agree on. -/
namespace Subown

namespace Bench

open RingBuffer

structure Evt where
  seq : UInt64
  subscriberId : UInt64
  ownerBoxId : UInt16
  enqueueNs : UInt64
  deriving DecidableEq, Repr

abbrev ringSize : ℕ := 65536

structure Ring where
  buf : Fin ringSize → Evt
  head : Fin ringSize
  tail : Fin ringSize
  dropped : UInt64

def zeroRing : Ring := ⟨fun _ => ⟨0, 0, 0, 0⟩, 0, 0, 0⟩

def ringPush (r : Ring) (e : Evt) : Int × Ring :=
  let next := nextIdx r.tail
  if next = r.head then (-1, { r with dropped := r.dropped + 1 })
  else (0, { r with buf := Function.update r.buf r.tail e, tail := next })

def ringPop (r : Ring) : Option Evt × Ring :=
  if r.head = r.tail then (none, r)
  else (some (r.buf r.head), { r with head := nextIdx r.head })

/-- Where a worker stands: before it reads the flag, before it takes a number, before it locks
the ring of its event, before it counts the event. -/
inductive WorkerAt where
  | loop
  | ready
  | push (e : Evt)
  | count
  | finished
  deriving DecidableEq

structure Worker where
  pc : WorkerAt
  nextEmit : UInt64
  deriving DecidableEq

/-- The operands of the comparison in the loop condition of a shard; C leaves open which one is
read first. -/
inductive Operand where
  | consumed | produced
  deriving DecidableEq

/-- Where a shard stands: before it reads the flag, before it reads the first and the second
operand, before it locks its ring, before it counts the event it handled. -/
inductive ShardAt where
  | loop
  | compare
  | half (read : Operand) (value : UInt64)
  | pop
  | count
  | finished
  deriving DecidableEq

structure Shard where
  pc : ShardAt
  record : SubownRecord
  deriving DecidableEq

/-- The shared state and the threads. The last four fields are their history, which no thread
reads: the events that got a number, those that each ring took, those that each shard handled
and those that found their ring full. -/
structure Pipeline (W S : ℕ) where
  stop : Bool
  globalSeq : UInt64
  produced : UInt64
  consumed : UInt64
  rings : Fin S → Ring
  workers : Fin W → Worker
  shards : Fin S → Shard
  emitted : List Evt
  accepted : Fin S → List Evt
  handled : Fin S → List Evt
  refused : List Evt

/-- A step of the main thread, which stops the case, or of another one, with the time it reads.
A shard's update has fields the source leaves unset. -/
inductive Turn (W S : ℕ) where
  | main
  | worker (w : Fin W) (now : UInt64)
  | shard (i : Fin S) (first : Operand) (now : UInt64) (unset : SubownUpdate)

variable {W S : ℕ} [NeZero S]

/-- `subscriber_id % shards`. -/
def route (S : ℕ) [NeZero S] (e : Evt) : Fin S := Fin.ofNat S e.subscriberId.toNat

def newEvent (wid : ℕ) (seq t : UInt64) : Evt where
  seq := seq
  subscriberId := 1000000 + seq % 100000
  ownerBoxId := (UInt32.ofNat wid &&& 1).toUInt16
  enqueueNs := t

def spacingNs (reqRate : UInt32) (W : ℕ) : UInt64 :=
  1000000000 * UInt64.ofNat W / reqRate.toUInt64

def firstRecord : SubownRecord :=
  { zeroRecord with generation := 1, ownerEpoch := 1, state := .stateLocal }

/-- What a shard does with an event between the ring and the counter. -/
def handle (record : SubownRecord) (e : Evt) (now : UInt64) (unset : SubownUpdate) :
    SubownRecord :=
  let record := { record with subscriberId := e.subscriberId }
  let update : SubownUpdate := { unset with
    msgVersion := msgVersion1
    subscriberId := e.subscriberId
    ownerBoxId := e.ownerBoxId
    generation := record.generation + 1
    timestamp := now / 1000000
    ownerEpoch := record.ownerEpoch }
  (applyRemoteUpdate record update).record

namespace Pipeline

/-- The state the threads find behind the start barrier. -/
def start (nextEmit : Fin W → UInt64) : Pipeline W S where
  stop := false
  globalSeq := 0
  produced := 0
  consumed := 0
  rings _ := zeroRing
  workers w := ⟨.loop, nextEmit w⟩
  shards _ := ⟨.loop, firstRecord⟩
  emitted := []
  accepted _ := []
  handled _ := []
  refused := []

def goWorker (p : Pipeline W S) (w : Fin W) (pc : WorkerAt) : Pipeline W S :=
  { p with workers := Function.update p.workers w { p.workers w with pc := pc } }

def goShard (p : Pipeline W S) (i : Fin S) (pc : ShardAt) : Pipeline W S :=
  { p with shards := Function.update p.shards i { p.shards i with pc := pc } }

def setRing (p : Pipeline W S) (i : Fin S) (r : Ring) : Pipeline W S :=
  { p with rings := Function.update p.rings i r }

def read (p : Pipeline W S) : Operand → UInt64
  | .consumed => p.consumed
  | .produced => p.produced

/-- The push of an event into its ring. -/
def pushed (p : Pipeline W S) (e : Evt) : Pipeline W S :=
  let i := route S e
  let r := ringPush (p.rings i) e
  let p := p.setRing i r.2
  if r.1 = 0 then { p with accepted := Function.update p.accepted i (p.accepted i ++ [e]) }
  else { p with refused := p.refused ++ [e] }

def workerStep (reqRate : UInt32) (p : Pipeline W S) (w : Fin W) (now : UInt64) : Pipeline W S :=
  match (p.workers w).pc with
  | .loop => p.goWorker w (if p.stop then .finished else .ready)
  | .ready =>
      if now ≥ (p.workers w).nextEmit then
        let seq := p.globalSeq + 1
        let e := newEvent w seq now
        { p with globalSeq := seq, emitted := p.emitted ++ [e] }.goWorker w (.push e)
      else p.goWorker w .loop
  | .push e => (p.pushed e).goWorker w .count
  | .count =>
      { p with
        produced := p.produced + 1
        workers := Function.update p.workers w
          ⟨.loop, (p.workers w).nextEmit + spacingNs reqRate W⟩ }
  | .finished => p

def shardStep (p : Pipeline W S) (i : Fin S) (first : Operand) (now : UInt64)
    (unset : SubownUpdate) : Pipeline W S :=
  match (p.shards i).pc with
  | .loop => p.goShard i (if p.stop then .compare else .pop)
  | .compare => p.goShard i (.half first (p.read first))
  | .half .consumed consumed =>
      p.goShard i (if consumed < p.produced then .pop else .finished)
  | .half .produced produced =>
      p.goShard i (if p.consumed < produced then .pop else .finished)
  | .pop =>
      match (ringPop (p.rings i)).1 with
      | none => p.goShard i .loop
      | some e =>
          { p.setRing i (ringPop (p.rings i)).2 with
            shards := Function.update p.shards i
              ⟨.count, handle (p.shards i).record e now unset⟩
            handled := Function.update p.handled i (p.handled i ++ [e]) }
  | .count => { p with consumed := p.consumed + 1 }.goShard i .loop
  | .finished => p

def step (reqRate : UInt32) (p : Pipeline W S) : Turn W S → Pipeline W S
  | .main => { p with stop := true }
  | .worker w now => p.workerStep reqRate w now
  | .shard i first now unset => p.shardStep i first now unset

end Pipeline

/-! ### Rings -/

namespace Ring

def contents (r : Ring) : List Evt := RingBuffer.contents r.buf r.head r.tail

end Ring

theorem ringPush_cases (r : Ring) (e : Evt) :
    ((ringPush r e).1 = 0 ∧ (ringPush r e).2.contents = r.contents ++ [e] ∧
      (ringPush r e).2.dropped = r.dropped) ∨
    ((ringPush r e).1 ≠ 0 ∧ (ringPush r e).2 = { r with dropped := r.dropped + 1 }) := by
  by_cases hfull : nextIdx r.tail = r.head
  · refine Or.inr ?_
    unfold ringPush
    dsimp only
    rw [if_pos hfull]
    exact ⟨Int.neg_ne_zero.mpr one_ne_zero, rfl⟩
  · refine Or.inl ?_
    unfold ringPush
    dsimp only
    rw [if_neg hfull]
    exact ⟨rfl, contents_push hfull e, rfl⟩

theorem ringPop_cases (r : Ring) :
    ((ringPop r).1 = none ∧ r.contents = []) ∨
    ∃ e, (ringPop r).1 = some e ∧ r.contents = e :: (ringPop r).2.contents ∧
      (ringPop r).2.dropped = r.dropped := by
  by_cases hempty : r.head = r.tail
  · refine Or.inl ⟨?_, contents_eq_nil.mpr hempty⟩
    rw [ringPop, if_pos hempty]
  · refine Or.inr ⟨r.buf r.head, ?_⟩
    unfold ringPop
    rw [if_neg hempty]
    exact ⟨rfl, contents_pop hempty, rfl⟩

end Bench

end Subown
