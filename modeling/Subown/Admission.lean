import Subown.MapRefinement
import Subown.FirstDistinct

/-! Who gets a record when more subscribers appear than the table has slots: the first
ones, for good. -/
namespace Subown

open OwnershipAdapter RunRules FirstDistinct

variable {a : OwnershipAdapter} {cfg : OwnAdapterCfg} {s : UInt64} {ids : List UInt64}

/-- After calls that named `ids` the first distinct ones are stored. -/
structure Admitted (cfg : OwnAdapterCfg) (ids : List UInt64) (a : OwnershipAdapter) : Prop
    extends Grounded cfg a where
  stored : ∀ s, a.recordOf s ≠ none ↔ s ∈ admitted ownRecordCap ids

theorem Admitted.room_iff (h : Admitted cfg ids a) :
    a.Room s ↔
      s ∈ admitted ownRecordCap ids ∨ (admitted ownRecordCap ids).length < ownRecordCap := by
  rw [← List.toFinset_card_of_nodup (held_admitted ownRecordCap ids).nodup, ← List.mem_toFinset]
  refine room_iff_held h.sound fun t => ?_
  rw [List.mem_toFinset]
  exact h.stored t

/-! ### One call -/

theorem core_appears {a' : OwnershipAdapter} {t : UInt64} {c : CoreCall}
    (h : StepSpec a a' (.core t c)) (hroom : a.Room t) :
    a'.recordOf s ≠ none ↔ a.recordOf s ≠ none ∨ s ∈ [t] ∧ a.Room s := by
  by_cases hst : s = t
  · subst hst
    simp [h.core_same, hroom]
  · simp [h.core_other hst, hst]

/-- A call stores the subscriber it names if the table has a slot for it. -/
theorem step_appears (h : a.Sound) (hmode : a.cfg.mode ≠ .modeDisabled) (call : AdapterCall)
    (s : UInt64) :
    (a.step call).recordOf s ≠ none ↔ a.recordOf s ≠ none ∨ s ∈ call.mentions ∧ a.Room s := by
  have hspec := step_spec h call
  have hquiet : ∀ {b : OwnershipAdapter} {ts : List UInt64}, b.recordOf = a.recordOf →
      (∀ t ∈ ts, ¬ a.Room t) →
      (b.recordOf s ≠ none ↔ a.recordOf s ≠ none ∨ s ∈ ts ∧ a.Room s) := by
    intro b ts hrec hts
    rw [hrec, or_iff_left]
    exact fun hs => hts s hs.1 hs.2
  cases call with
  | onPacket t now =>
      by_cases hroom : a.Room t
      · rw [effect_onPacket hmode hroom] at hspec
        exact core_appears hspec hroom
      · rw [effect_idle (Or.inr hroom)] at hspec
        exact hquiet hspec.records (by simpa [AdapterCall.mentions] using hroom)
  | onRemoteMsg m =>
      obtain hdec | ⟨u, hdec, hroom⟩ | ⟨u, hdec, hroom⟩ := message_cases a m
      · rw [effect_undecodable hdec] at hspec
        exact hquiet hspec.records (by simp [AdapterCall.mentions, hdec])
      · rw [effect_full hdec hroom] at hspec
        exact hquiet hspec.records (by simpa [AdapterCall.mentions, hdec] using hroom)
      · rw [effect_remote hdec hroom] at hspec
        simpa [AdapterCall.mentions, hdec] using core_appears hspec hroom
  | onPeerDown p =>
      rw [hspec.records]
      simp [effect, Effect.on, AdapterCall.mentions]
  | flushOutbound => exact hquiet hspec.records (List.forall_mem_nil _)
  | onAgingTick now => exact hquiet hspec.records (List.forall_mem_nil _)
  | pushEvent evt => exact hquiet hspec.records (List.forall_mem_nil _)
  | popEvent => exact hquiet hspec.records (List.forall_mem_nil _)
  | getMetrics => exact hquiet hspec.records (List.forall_mem_nil _)

/-- A subscriber without a slot is turned away: the call about it changes nothing. -/
theorem step_turned_away (hroom : ¬ a.Room s) {call : AdapterCall} (hs : s ∈ call.mentions) :
    a.step call = a := by
  cases call with
  | onPacket t now =>
      obtain rfl := List.mem_singleton.mp hs
      exact onPacket_idle (Or.inr hroom) now
  | onRemoteMsg m =>
      obtain ⟨u, hdec, rfl⟩ : ∃ u, decodeUpdateV1 m = some u ∧ u.subscriberId = s := by
        simpa [AdapterCall.mentions] using hs
      change (a.onRemoteMsg m).2 = a
      rw [onRemoteMsg_full hdec hroom]
  | flushOutbound => cases hs
  | onPeerDown p => cases hs
  | onAgingTick now => cases hs
  | pushEvent evt => cases hs
  | popEvent => cases hs
  | getMetrics => cases hs

/-! ### Runs -/

theorem Admitted.create (cfg : OwnAdapterCfg) : Admitted cfg [] (OwnershipAdapter.create cfg) where
  toGrounded := .create cfg
  stored s := by simp [create_recordOf, admitted]

theorem mentions_cases (call : AdapterCall) : call.mentions = [] ∨ ∃ t, call.mentions = [t] := by
  cases call with
  | onPacket t now => exact Or.inr ⟨t, rfl⟩
  | onRemoteMsg m =>
      cases hdec : decodeUpdateV1 m with
      | none => exact Or.inl (by simp [AdapterCall.mentions, hdec])
      | some u => exact Or.inr ⟨u.subscriberId, by simp [AdapterCall.mentions, hdec]⟩
  | flushOutbound => exact Or.inl rfl
  | onPeerDown p => exact Or.inl rfl
  | onAgingTick now => exact Or.inl rfl
  | pushEvent evt => exact Or.inl rfl
  | popEvent => exact Or.inl rfl
  | getMetrics => exact Or.inl rfl

theorem Admitted.step (h : Admitted cfg ids a) (hmode : cfg.mode ≠ .modeDisabled)
    (call : AdapterCall) : Admitted cfg (ids ++ call.mentions) (a.step call) := by
  refine ⟨h.toGrounded.step call, fun s => ?_⟩
  rw [step_appears h.sound (h.mode hmode) call s, h.room_iff, h.stored]
  obtain hnone | ⟨t, ht⟩ := mentions_cases call
  · simp [hnone]
  · rw [ht, admitted_snoc, mem_arrive_iff, List.mem_singleton,
      (held_admitted ownRecordCap ids).bound.lt_iff_ne]
    tauto

theorem Admitted.run (h : Admitted cfg ids a) (hmode : cfg.mode ≠ .modeDisabled)
    (calls : List AdapterCall) :
    Admitted cfg (ids ++ calls.flatMap AdapterCall.mentions) (a.run calls) := by
  induction calls generalizing ids a with
  | nil => simpa using h
  | cons call calls ih =>
      have hrest := ih (h.step hmode call)
      rwa [List.append_assoc] at hrest

/-- Of the subscribers that packets and messages name, exactly the first 4096 get a record,
for good. A later one is turned away from then on, and its calls change nothing. -/
theorem table_admits_first (hmode : cfg.mode ≠ .modeDisabled) (calls : List AdapterCall)
    (s : UInt64) :
    let ids := calls.flatMap AdapterCall.mentions
    let a := (create cfg).run calls
    (a.recordOf s ≠ none ↔ s ∈ ids ∧ (ids.takeWhile (· ≠ s)).toFinset.card < 4096) ∧
    (a.Room s ↔ a.recordOf s ≠ none ∨ ids.toFinset.card < 4096) ∧
    (¬ a.Room s → ∀ call, s ∈ call.mentions → a.step call = a) := by
  have h := (Admitted.create cfg).run hmode calls
  refine ⟨(h.stored s).trans mem_admitted_iff, ?_, fun hroom call hs => ?_⟩
  · rw [h.room_iff, ← h.stored, length_lt_iff]
    rfl
  · exact step_turned_away hroom hs

/-- Two subscribers that share a home slot both get a record. -/
theorem table_admits_first_collision :
    ((create ⟨.modeObserve, 0, 3⟩).run [.onPacket 7 5, .onPacket 4103 6]).recordOf 4103 ≠ none :=
  (table_admits_first (by decide) [.onPacket 7 5, .onPacket 4103 6] 4103).1.mpr (by decide)

end Subown
