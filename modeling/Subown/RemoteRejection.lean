import Subown.AdapterStep

/-! Rejected remote input: which messages `on_remote_msg` refuses in a reachable state, and that
a refused message leaves everything but the receive-error counter as it was. -/
namespace Subown

open OwnershipAdapter

/-- The outcomes of a message in one state. -/
structure RejectionLaw (a : OwnershipAdapter) (m : List UInt8) : Prop where
  rejects : (a.onRemoteMsg m).1 = -1 ↔ decodeUpdateV1 m = none ∨
    ∃ u, decodeUpdateV1 m = some u ∧ ¬ a.Stores u.subscriberId ∧
      ∀ i : Fin 4096, (a.table i).used = true
  undecodable : decodeUpdateV1 m = none → (a.onRemoteMsg m).2 = a.countRecvErr
  full : (a.onRemoteMsg m).1 = -1 → decodeUpdateV1 m ≠ none → (a.onRemoteMsg m).2 = a
  validated : ∀ u i a', decodeUpdateV1 m = some u →
    lookupSlot a u.subscriberId true = (some i, a') →
      (applyRemoteUpdate (a'.table i).record u).status = .ok

variable {a a' : OwnershipAdapter} {s : UInt64} {i : Fin ownRecordCap} {m : List UInt8}
  {u : SubownUpdate}

theorem onRemoteMsg_rejects (h : a.Sound) (hdec : decodeUpdateV1 m = some u) :
    (a.onRemoteMsg m).1 = -1 ↔ ¬ a.Room u.subscriberId := by
  by_cases hroom : a.Room u.subscriberId
  · simp [(onRemoteMsg_spec h hdec hroom).rc, hroom]
  · simp [onRemoteMsg_full hdec hroom, hroom]

theorem rejectionLaw (h : a.Sound) (m : List UInt8) : RejectionLaw a m where
  rejects := by
    cases hdec : decodeUpdateV1 m with
    | none => simp [onRemoteMsg_undecodable hdec]
    | some u =>
        rw [onRemoteMsg_rejects h hdec, not_room_iff]
        simp
  undecodable hdec := by rw [onRemoteMsg_undecodable hdec]
  full hrc hdec := by
    obtain ⟨u, hu⟩ := Option.ne_none_iff_exists'.mp hdec
    rw [onRemoteMsg_full hu ((onRemoteMsg_rejects h hu).mp hrc)]
  validated u i a' hdec hlookup :=
    applyRemoteUpdate_status (decoded_validFor hdec (lookupSlot_subscriberId h hlookup))

/-- In every reachable state a message is refused for the two reasons only, and atomically. -/
theorem remote_rejection (cfg : OwnAdapterCfg) (calls : List AdapterCall) (m : List UInt8) :
    RejectionLaw ((OwnershipAdapter.create cfg).run calls) m :=
  rejectionLaw ((Grounded.create cfg).run calls).sound m

end Subown
