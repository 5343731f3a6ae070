import Subown.AdapterCalls

/-! The record table as a finite map from subscribers to records: what lookups find, and
what creating and overwriting a slot do to the map. -/
namespace Subown

namespace OwnershipAdapter

def keys (a : OwnershipAdapter) (i : Fin ownRecordCap) : Option UInt64 :=
  if (a.table i).used then some (a.table i).record.subscriberId else none

/-- The probing discipline of the table. -/
def Sound (a : OwnershipAdapter) : Prop := LinearProbing.Chained homeSlot a.keys

/-- Every subscriber stored in `b` is stored in `a`, at the same place. -/
def Keeps (a b : OwnershipAdapter) : Prop := ∀ i s, b.keys i = some s → a.keys i = some s

/-- The slot a lookup finds without creating one. -/
def slotOf (a : OwnershipAdapter) (s : UInt64) : Option (Fin ownRecordCap) :=
  (lookupSlot a s false).1

/-- A used slot holds the subscriber. -/
def Stores (a : OwnershipAdapter) (s : UInt64) : Prop :=
  ∃ i, (a.table i).used = true ∧ (a.table i).record.subscriberId = s

/-- The record found for a subscriber. -/
def recordOf (a : OwnershipAdapter) (s : UInt64) : Option SubownRecord :=
  (a.slotOf s).map fun i => (a.table i).record

/-- A creating lookup has a slot for the subscriber. -/
def Room (a : OwnershipAdapter) (s : UInt64) : Prop := (lookupSlot a s true).1 ≠ none

instance (a : OwnershipAdapter) (s : UInt64) : Decidable (a.Room s) :=
  inferInstanceAs (Decidable (_ ≠ none))

/-- The record a call about `s` works on: the one found, else a fresh one. -/
def workingRecord (a : OwnershipAdapter) (s : UInt64) : SubownRecord :=
  (a.recordOf s).getD (freshRecord s)

def withTable (a : OwnershipAdapter) (t : Fin ownRecordCap → OwnSlot) : OwnershipAdapter :=
  { a with table := t }

@[simp] theorem withTable_table (a : OwnershipAdapter) (t : Fin ownRecordCap → OwnSlot) :
    (a.withTable t).table = t := rfl

@[simp] theorem withTable_cfg (a : OwnershipAdapter) (t : Fin ownRecordCap → OwnSlot) :
    (a.withTable t).cfg = a.cfg := rfl

def createSlot (a : OwnershipAdapter) (s : UInt64) (i : Fin ownRecordCap) : OwnershipAdapter :=
  a.withTable (Function.update a.table i ⟨true, freshRecord s⟩)

end OwnershipAdapter

open OwnershipAdapter

variable {a a' : OwnershipAdapter} {s s' : UInt64} {i : Fin ownRecordCap} {r : SubownRecord}

theorem keys_eq_some :
    a.keys i = some s ↔ (a.table i).used = true ∧ (a.table i).record.subscriberId = s := by
  unfold OwnershipAdapter.keys
  split_ifs with h
  · rw [Option.some.injEq]
    exact ⟨fun e => ⟨h, e⟩, And.right⟩
  · exact ⟨nofun, fun e => absurd e.1 h⟩

theorem used_iff : (a.table i).used = true ↔ a.keys i ≠ none := by
  unfold OwnershipAdapter.keys
  split_ifs with h <;> simp [h]

/-! ### Lookups -/

theorem lookupFrom_eq (a : OwnershipAdapter) (s : UInt64) (create : Bool)
    (start : Fin ownRecordCap) (fuel i : ℕ) :
    lookupFrom a s create start fuel i =
      match LinearProbing.scan a.keys s start fuel i with
      | .hit j => (some j, a)
      | .free j => if create then (some j, a.createSlot s j) else (none, a)
      | .full => (none, a) := by
  induction fuel generalizing i with
  | zero => rfl
  | succ fuel ih =>
      by_cases hused : (a.table (CyclicIndex.shift start i)).used = true
      · by_cases hsid : (a.table (CyclicIndex.shift start i)).record.subscriberId = s
        · simp [lookupFrom, LinearProbing.scan, OwnershipAdapter.keys, hused, hsid]
        · simp [lookupFrom, LinearProbing.scan, OwnershipAdapter.keys, hused, hsid, ih]
      · cases create <;>
          simp [lookupFrom, LinearProbing.scan, OwnershipAdapter.keys, hused, createSlot, withTable]

theorem lookupSlot_eq (a : OwnershipAdapter) (s : UInt64) (create : Bool) :
    lookupSlot a s create =
      match LinearProbing.find a.keys s (homeSlot s) with
      | .hit j => (some j, a)
      | .free j => if create then (some j, a.createSlot s j) else (none, a)
      | .full => (none, a) := lookupFrom_eq a s create (homeSlot s) ownRecordCap 0

theorem slotOf_eq_some (h : a.Sound) :
    a.slotOf s = some i ↔ (a.table i).used = true ∧ (a.table i).record.subscriberId = s := by
  rw [← keys_eq_some, ← LinearProbing.Chained.find_hit_iff h]
  unfold slotOf
  rw [lookupSlot_eq]
  cases LinearProbing.find a.keys s (homeSlot s) with
  | hit j => simp
  | free j => simp
  | full => simp

theorem recordOf_eq_some (h : a.Sound) :
    a.recordOf s = some r ↔
      ∃ i, (a.table i).used = true ∧ (a.table i).record = r ∧ r.subscriberId = s := by
  unfold recordOf
  rw [Option.map_eq_some_iff]
  constructor
  · rintro ⟨i, hi, rfl⟩
    obtain ⟨hused, hsid⟩ := (slotOf_eq_some h).mp hi
    exact ⟨i, hused, rfl, hsid⟩
  · rintro ⟨i, hused, rfl, hsid⟩
    exact ⟨i, (slotOf_eq_some h).mpr ⟨hused, hsid⟩, rfl⟩

theorem recordOf_used (h : a.Sound) (hi : (a.table i).used = true) :
    a.recordOf (a.table i).record.subscriberId = some (a.table i).record :=
  (recordOf_eq_some h).mpr ⟨i, hi, rfl, rfl⟩

theorem recordOf_subscriberId (h : a.Sound) (hr : a.recordOf s = some r) :
    r.subscriberId = s := by
  obtain ⟨_, _, _, hsid⟩ := (recordOf_eq_some h).mp hr
  exact hsid

theorem workingRecord_of_some (hr : a.recordOf s = some r) : a.workingRecord s = r := by
  simp [workingRecord, hr]

theorem workingRecord_subscriberId (h : a.Sound) : (a.workingRecord s).subscriberId = s := by
  cases hr : a.recordOf s with
  | none => simp [workingRecord, hr, freshRecord]
  | some r =>
      rw [workingRecord_of_some hr]
      exact recordOf_subscriberId h hr

theorem room_iff : a.Room s ↔ LinearProbing.find a.keys s (homeSlot s) ≠ .full := by
  unfold Room
  rw [lookupSlot_eq]
  cases LinearProbing.find a.keys s (homeSlot s) <;> simp

theorem room_congr {c : OwnershipAdapter} (h : c.keys = a.keys) : c.Room s ↔ a.Room s := by
  rw [room_iff, room_iff, h]

theorem stores_iff : a.Stores s ↔ ∃ i, a.keys i = some s := exists_congr fun _ => keys_eq_some.symm

/-- A lookup has no slot exactly when the subscriber is absent and the table is full. -/
theorem not_room_iff : ¬ a.Room s ↔ ¬ a.Stores s ∧ ∀ i : Fin 4096, (a.table i).used = true := by
  rw [room_iff, not_not, LinearProbing.find_full_iff, stores_iff]
  constructor
  · intro hall
    exact ⟨fun ⟨i, hi⟩ => (hall i).2 hi, fun i => used_iff.mpr (hall i).1⟩
  · rintro ⟨habsent, hused⟩ i
    exact ⟨used_iff.mp (hused i), fun hi => habsent ⟨i, hi⟩⟩

theorem room_of_some (h : a.Sound) (hr : a.recordOf s = some r) : a.Room s := by
  rw [room_iff]
  obtain ⟨i, hi, -⟩ := Option.map_eq_some_iff.mp hr
  rw [LinearProbing.Chained.find_hit h (keys_eq_some.mpr ((slotOf_eq_some h).mp hi))]
  exact nofun

/-- A table with at most as many subscribers as slots never turns one away. -/
theorem room_of_card (h : a.Sound) {ids : Finset UInt64} (hcard : ids.card ≤ ownRecordCap)
    (hids : ∀ t r, a.recordOf t = some r → t ∈ ids) (hs : s ∈ ids) : a.Room s := by
  rw [room_iff]
  intro hfull
  refine absurd (LinearProbing.Chained.card_lt_of_full h hfull ?_ hs) (by omega)
  intro i t hi
  obtain ⟨hused, rfl⟩ := keys_eq_some.mp hi
  exact hids _ _ (recordOf_used h hused)

/-- A record has a slot of its own: there is room for those stored, and for anyone while
fewer are stored than there are slots. -/
theorem room_iff_held (h : a.Sound) {held : Finset UInt64}
    (hheld : ∀ t, a.recordOf t ≠ none ↔ t ∈ held) :
    a.Room s ↔ s ∈ held ∨ held.card < ownRecordCap := by
  constructor
  · rw [or_iff_not_imp_left]
    intro hroom hnew
    by_contra hfull
    refine absurd hroom (not_room_iff.mpr ⟨?_, fun i => used_iff.mpr fun hi => hfull ?_⟩)
    · rintro ⟨i, hused, rfl⟩
      refine hnew ((hheld _).mp ?_)
      rw [recordOf_used h hused]
      exact Option.some_ne_none _
    · refine LinearProbing.card_lt_of_free hi fun t ht => ?_
      obtain ⟨r, hr⟩ := Option.ne_none_iff_exists'.mp ((hheld t).mpr ht)
      obtain ⟨j, hused, rfl, hsid⟩ := (recordOf_eq_some h).mp hr
      exact ⟨j, keys_eq_some.mpr ⟨hused, hsid⟩⟩
  · rintro (hs | hlt)
    · obtain ⟨r, hr⟩ := Option.ne_none_iff_exists'.mp ((hheld s).mpr hs)
      exact room_of_some h hr
    · have hinsert := (Finset.card_insert_le s held).trans hlt
      refine room_of_card h hinsert (fun t r hr => ?_) (Finset.mem_insert_self s _)
      refine Finset.mem_insert_of_mem ((hheld t).mp ?_)
      rw [hr]
      exact Option.some_ne_none r

/-! ### Storing a record -/

theorem keys_congr (h : a'.table = a.table) : a'.keys = a.keys := by
  funext i
  simp only [OwnershipAdapter.keys, h]

theorem sound_congr (h : a'.table = a.table) (hs : a.Sound) : a'.Sound := by
  unfold Sound
  rw [keys_congr h]
  exact hs

theorem recordOf_congr (h : a'.table = a.table) : a'.recordOf = a.recordOf := by
  funext s
  simp only [recordOf, slotOf, lookupSlot_eq, keys_congr h, h]
  cases LinearProbing.find a.keys s (homeSlot s) <;> rfl

theorem keeps_of_keys (h : a'.keys = a.keys) : a'.Keeps a := by
  intro i s hi
  rw [h]
  exact hi

/-- A write that keeps the subscriber keeps every key. -/
theorem writeRecord_keys (hsid : r.subscriberId = (a.table i).record.subscriberId) :
    (a.writeRecord i r).keys = a.keys := by
  funext j
  by_cases hj : j = i
  · subst hj
    simp [writeRecord, OwnershipAdapter.keys, hsid]
  · simp [writeRecord, OwnershipAdapter.keys, Function.update_of_ne hj]

/-- Slot `i` filled with a record. -/
def OwnershipAdapter.fill (a : OwnershipAdapter) (i : Fin ownRecordCap) (r : SubownRecord) :
    OwnershipAdapter := a.withTable (Function.update a.table i ⟨true, r⟩)

theorem fill_keys (a : OwnershipAdapter) (i : Fin ownRecordCap) (r : SubownRecord) :
    (a.fill i r).keys = Function.update a.keys i (some r.subscriberId) := by
  funext j
  by_cases hj : j = i
  · subst hj
    simp [fill, OwnershipAdapter.keys]
  · simp [fill, OwnershipAdapter.keys, Function.update_of_ne hj]

/-- Filling a slot that holds nobody else changes one entry of the map. -/
theorem fill_recordOf (h : a.Sound) (hfill : (a.fill i r).Sound)
    (hslot : ∀ t, a.keys i = some t → t = r.subscriberId) :
    (a.fill i r).recordOf = Function.update a.recordOf r.subscriberId (some r) := by
  funext t
  by_cases ht : t = r.subscriberId
  · subst ht
    rw [Function.update_self, recordOf_eq_some hfill]
    exact ⟨i, by simp [fill], by simp [fill], rfl⟩
  rw [Function.update_of_ne ht]
  apply Option.ext
  intro r'
  rw [recordOf_eq_some hfill, recordOf_eq_some h]
  apply exists_congr
  intro j
  by_cases hj : j = i
  · subst hj
    constructor
    · rintro ⟨_, hr, hsid⟩
      rw [fill, withTable_table, Function.update_self] at hr
      exact absurd (hsid.symm.trans (congrArg SubownRecord.subscriberId hr.symm)) ht
    · rintro ⟨hused, rfl, hsid⟩
      exact absurd (hslot t (keys_eq_some.mpr ⟨hused, hsid⟩)) ht
  · simp [fill, Function.update_of_ne hj]

/-- Overwriting a used slot with a record of the same subscriber. -/
theorem writeRecord_map (h : a.Sound) (hi : (a.table i).used = true)
    (hsid : r.subscriberId = (a.table i).record.subscriberId) :
    (a.writeRecord i r).Sound ∧ (a.writeRecord i r).keys = a.keys ∧
      (a.writeRecord i r).recordOf = Function.update a.recordOf r.subscriberId (some r) := by
  have hwrite : a.writeRecord i r = a.fill i r := by
    unfold writeRecord fill withTable
    rw [← hi]
  have hi : a.keys i = some r.subscriberId := keys_eq_some.mpr ⟨hi, hsid.symm⟩
  have hkeys : (a.fill i r).keys = a.keys := by
    rw [← hwrite]
    exact writeRecord_keys hsid
  have hsound : (a.fill i r).Sound := by
    unfold Sound
    rw [hkeys]
    exact h
  rw [hwrite]
  exact ⟨hsound, hkeys, fill_recordOf h hsound fun t ht => Option.some.inj (ht.symm.trans hi)⟩

/-- Initialising the free slot a lookup ended at. -/
theorem createSlot_map (h : a.Sound)
    (hfree : LinearProbing.find a.keys s (homeSlot s) = .free i) :
    (a.createSlot s i).Sound ∧ (a.createSlot s i).Keeps a ∧
      (a.createSlot s i).recordOf = Function.update a.recordOf s (some (freshRecord s)) := by
  have hkeys : (a.createSlot s i).keys = Function.update a.keys i (some s) := fill_keys ..
  have hnone : a.keys i = none := (LinearProbing.find_free hfree).1
  have hsound : (a.createSlot s i).Sound := by
    unfold Sound
    rw [hkeys]
    exact LinearProbing.Chained.insert h hfree
  refine ⟨hsound, ?_, fill_recordOf h hsound fun t ht => absurd (hnone.symm.trans ht) nofun⟩
  intro j t hj
  have hne : j ≠ i := by
    rintro rfl
    exact absurd (hnone.symm.trans hj) nofun
  rw [hkeys, Function.update_of_ne hne]
  exact hj

/-- In the table `t` slot `i` holds the working record of `s`; the rest is as in `a`. -/
structure Located (a : OwnershipAdapter) (s : UInt64) (i : Fin ownRecordCap)
    (t : Fin ownRecordCap → OwnSlot) : Prop where
  sound : (a.withTable t).Sound
  keeps : (a.withTable t).Keeps a
  slot : t i = ⟨true, a.workingRecord s⟩
  records : (a.withTable t).recordOf = Function.update a.recordOf s (some (a.workingRecord s))

/-- A creating lookup that has room changes only the table. -/
theorem lookupSlot_room (h : a.Sound) (hroom : a.Room s) :
    ∃ i t, lookupSlot a s true = (some i, a.withTable t) ∧ Located a s i t := by
  rw [room_iff] at hroom
  cases hfind : LinearProbing.find a.keys s (homeSlot s) with
  | hit i =>
      obtain ⟨hused, hsid⟩ := keys_eq_some.mp ((LinearProbing.Chained.find_hit_iff h).mp hfind)
      have hr : a.recordOf s = some (a.table i).record := hsid ▸ recordOf_used h hused
      refine ⟨i, a.table, ?_, h, fun _ _ => id, ?_, ?_⟩
      · rw [lookupSlot_eq, hfind]
        rfl
      · rw [workingRecord_of_some hr, ← hused]
      · rw [workingRecord_of_some hr, ← hr, Function.update_eq_self]
        rfl
  | free i =>
      obtain ⟨hsound, hkeeps, hmap⟩ := createSlot_map h hfind
      have hr : a.workingRecord s = freshRecord s := by
        have hslot : a.slotOf s = none := by
          unfold slotOf
          rw [lookupSlot_eq, hfind]
          rfl
        simp [workingRecord, recordOf, hslot]
      refine ⟨i, (a.createSlot s i).table, ?_, hsound, hkeeps, ?_, ?_⟩
      · rw [lookupSlot_eq, hfind]
        rfl
      · rw [hr]
        exact Function.update_self ..
      · rw [hr]
        exact hmap
  | full => exact absurd hfind hroom

/-- Writing back through the slot that was found. -/
theorem Located.write {t : Fin ownRecordCap → OwnSlot} (hl : Located a s i t) (h : a.Sound)
    (htable : a'.table = t) (hsid : r.subscriberId = s) :
    (a'.writeRecord i r).Sound ∧ (a'.writeRecord i r).Keeps a ∧
      (a'.writeRecord i r).recordOf = Function.update a.recordOf s (some r) := by
  have hslot : a'.table i = ⟨true, a.workingRecord s⟩ := htable ▸ hl.slot
  have hctx : a'.table = (a.withTable t).table := htable
  obtain ⟨hs, hk, hm⟩ := writeRecord_map (i := i) (r := r) (sound_congr hctx hl.sound)
    (by rw [hslot]) (by rw [hslot, hsid, workingRecord_subscriberId h])
  refine ⟨hs, ?_, ?_⟩
  · intro j t' hj
    rw [hk, keys_congr hctx]
    exact hl.keeps j t' hj
  · rw [hm, recordOf_congr hctx, hl.records, hsid, Function.update_idem]

/-- The slot a creating lookup returns carries the subscriber it was asked for. -/
theorem lookupSlot_subscriberId (h : a.Sound) (hlookup : lookupSlot a s true = (some i, a')) :
    (a'.table i).record.subscriberId = s := by
  have hroom : a.Room s := by
    unfold Room
    rw [hlookup]
    exact Option.some_ne_none i
  obtain ⟨j, t, hfound, hl⟩ := lookupSlot_room h hroom
  obtain ⟨hi, rfl⟩ := Prod.mk.inj (hlookup.symm.trans hfound)
  obtain rfl := Option.some.inj hi
  rw [withTable_table, hl.slot]
  exact workingRecord_subscriberId h

theorem lookupSlot_stored (h : a.Sound) (hr : a.recordOf s = some r) :
    ∃ i, lookupSlot a s true = (some i, a) ∧ (a.table i).record = r := by
  obtain ⟨i, hused, rfl, hsid⟩ := (recordOf_eq_some h).mp hr
  refine ⟨i, ?_, rfl⟩
  rw [lookupSlot_eq, LinearProbing.Chained.find_hit h (keys_eq_some.mpr ⟨hused, hsid⟩)]

theorem lookupSlot_full (hroom : ¬ a.Room s) : lookupSlot a s true = (none, a) := by
  rw [room_iff, not_not] at hroom
  rw [lookupSlot_eq, hroom]

end Subown
