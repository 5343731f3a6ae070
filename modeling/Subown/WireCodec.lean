import Subown.CoreResolver
import Subown.BigEndian

/-! The v1 wire format of `subown_zmq_adapter.c`. A frame is the list of the bytes written
at consecutive offsets; `none` stands for `SUBOWN_ERR_INVALID_ARGUMENT`, the only failure
of either direction. -/
namespace Subown

abbrev wireMagic : UInt32 := 0x534f574e
abbrev wireVersionV1 : UInt16 := 1
abbrev wireV1FrameSize : ℕ := 40

abbrev Frame := List UInt8

def wrU16Be (v : UInt16) : List UInt8 :=
  [((v >>> 8) &&& 0xff).toUInt8, (v &&& 0xff).toUInt8]

def wrU32Be (v : UInt32) : List UInt8 :=
  [((v >>> 24) &&& 0xff).toUInt8, ((v >>> 16) &&& 0xff).toUInt8,
    ((v >>> 8) &&& 0xff).toUInt8, (v &&& 0xff).toUInt8]

def wrU64Be (v : UInt64) : List UInt8 :=
  [((v >>> 56) &&& 0xff).toUInt8, ((v >>> 48) &&& 0xff).toUInt8,
    ((v >>> 40) &&& 0xff).toUInt8, ((v >>> 32) &&& 0xff).toUInt8,
    ((v >>> 24) &&& 0xff).toUInt8, ((v >>> 16) &&& 0xff).toUInt8,
    ((v >>> 8) &&& 0xff).toUInt8, (v &&& 0xff).toUInt8]

/-- The byte at an offset; the decoder only reads inside a frame of full length. -/
def byteAt (p : List UInt8) (i : ℕ) : UInt8 := p.getD i 0

def rdU16Be (p : List UInt8) : UInt16 :=
  ((byteAt p 0).toUInt16 <<< 8) ||| (byteAt p 1).toUInt16

def rdU32Be (p : List UInt8) : UInt32 :=
  ((byteAt p 0).toUInt32 <<< 24) ||| ((byteAt p 1).toUInt32 <<< 16) |||
    ((byteAt p 2).toUInt32 <<< 8) ||| (byteAt p 3).toUInt32

def rdU64Be (p : List UInt8) : UInt64 :=
  ((byteAt p 0).toUInt64 <<< 56) ||| ((byteAt p 1).toUInt64 <<< 48) |||
    ((byteAt p 2).toUInt64 <<< 40) ||| ((byteAt p 3).toUInt64 <<< 32) |||
    ((byteAt p 4).toUInt64 <<< 24) ||| ((byteAt p 5).toUInt64 <<< 16) |||
    ((byteAt p 6).toUInt64 <<< 8) ||| (byteAt p 7).toUInt64

/-- The owner byte the encoder picks. -/
def wireOwner (u : SubownUpdate) : UInt8 :=
  if ¬ KnownOwner u.ownerBox then u.ownerBoxId.toUInt8 else u.ownerBox

/-- The forty bytes the encoder writes, at offsets 0, 4, 6, 8, 16, 20, 24, 32 and 36. -/
def frameBytes (u : SubownUpdate) : Frame :=
  wrU32Be wireMagic ++ (wrU16Be wireVersionV1 ++ (wrU16Be wireV1FrameSize.toUInt16 ++
    (wrU64Be u.subscriberId ++ (wrU32Be u.generation ++ ([wireOwner u, 0, 0, 0] ++
    (wrU64Be (if u.activationTs ≠ 0 then u.activationTs else u.timestamp) ++
    (wrU32Be u.policyMask ++ (wrU32Be u.ownerEpoch ++ []))))))))

def encodeUpdateV1 (u : SubownUpdate) (outCap : ℕ) : Option Frame :=
  if outCap < wireV1FrameSize then none else some (frameBytes u)

def decodeUpdateV1 (buf : List UInt8) : Option SubownUpdate :=
  if buf.length ≠ wireV1FrameSize then none
  else
    let magic := rdU32Be (buf.drop 0)
    let version := rdU16Be (buf.drop 4)
    let frameLen := rdU16Be (buf.drop 6)
    if magic ≠ wireMagic then none
    else if version ≠ wireVersionV1 then none
    else if frameLen ≠ wireV1FrameSize.toUInt16 then none
    else
      let owner := byteAt buf 20
      if ¬ KnownOwner owner then none
      else
        some {
          msgVersion := msgVersion1
          subscriberId := rdU64Be (buf.drop 8)
          generation := rdU32Be (buf.drop 16)
          ownerBox := owner
          reserved := (0, 0, 0)
          ownerBoxId := owner.toUInt16
          activationTs := rdU64Be (buf.drop 24)
          timestamp := rdU64Be (buf.drop 24)
          policyMask := rdU32Be (buf.drop 32)
          ownerEpoch := rdU32Be (buf.drop 36) }

/-! ### Fields -/

theorem wrU16Be_eq (v : UInt16) : wrU16Be v = BigEndian.bytes 2 v.toNat := by
  simp only [BigEndian.bytes, BigEndian.ofNat_byte]
  rfl

theorem wrU32Be_eq (v : UInt32) : wrU32Be v = BigEndian.bytes 4 v.toNat := by
  simp only [BigEndian.bytes, BigEndian.ofNat_byte]
  rfl

theorem wrU64Be_eq (v : UInt64) : wrU64Be v = BigEndian.bytes 8 v.toNat := by
  simp only [BigEndian.bytes, BigEndian.ofNat_byte]
  rfl

theorem rdU16Be_toNat (p : List UInt8) :
    (rdU16Be p).toNat = BigEndian.value [byteAt p 0, byteAt p 1] := by
  have h0 := BigEndian.shiftLeft_mod (byteAt p 0) (show 8 + 8 ≤ 16 by decide)
  have hlow : (byteAt p 1).toNat = (byteAt p 1).toNat <<< 0 := rfl
  simp only [rdU16Be, UInt16.toNat_or, UInt16.toNat_shiftLeft, UInt8.toNat_toUInt16]
  change (byteAt p 0).toNat <<< 8 % 2 ^ 16 ||| (byteAt p 1).toNat = _
  rw [h0, hlow, BigEndian.shift_or_shift _ 0]
  simp only [BigEndian.value, List.length_cons, List.length_nil, Nat.shiftLeft_zero]
  ring

theorem rdU32Be_toNat (p : List UInt8) :
    (rdU32Be p).toNat =
      BigEndian.value [byteAt p 0, byteAt p 1, byteAt p 2, byteAt p 3] := by
  have h0 := BigEndian.shiftLeft_mod (byteAt p 0) (show 24 + 8 ≤ 32 by decide)
  have h1 := BigEndian.shiftLeft_mod (byteAt p 1) (show 16 + 8 ≤ 32 by decide)
  have h2 := BigEndian.shiftLeft_mod (byteAt p 2) (show 8 + 8 ≤ 32 by decide)
  have hlow : (byteAt p 3).toNat = (byteAt p 3).toNat <<< 0 := rfl
  simp only [rdU32Be, UInt32.toNat_or, UInt32.toNat_shiftLeft, UInt8.toNat_toUInt32]
  change (byteAt p 0).toNat <<< 24 % 2 ^ 32 ||| (byteAt p 1).toNat <<< 16 % 2 ^ 32 |||
    (byteAt p 2).toNat <<< 8 % 2 ^ 32 ||| (byteAt p 3).toNat = _
  rw [h0, h1, h2, hlow, BigEndian.shift_or_shift _ 16, BigEndian.shift_or_shift _ 8,
    BigEndian.shift_or_shift _ 0]
  simp only [BigEndian.value, List.length_cons, List.length_nil, Nat.shiftLeft_zero]
  ring

theorem rdU64Be_toNat (p : List UInt8) :
    (rdU64Be p).toNat = BigEndian.value [byteAt p 0, byteAt p 1, byteAt p 2, byteAt p 3,
      byteAt p 4, byteAt p 5, byteAt p 6, byteAt p 7] := by
  have h0 := BigEndian.shiftLeft_mod (byteAt p 0) (show 56 + 8 ≤ 64 by decide)
  have h1 := BigEndian.shiftLeft_mod (byteAt p 1) (show 48 + 8 ≤ 64 by decide)
  have h2 := BigEndian.shiftLeft_mod (byteAt p 2) (show 40 + 8 ≤ 64 by decide)
  have h3 := BigEndian.shiftLeft_mod (byteAt p 3) (show 32 + 8 ≤ 64 by decide)
  have h4 := BigEndian.shiftLeft_mod (byteAt p 4) (show 24 + 8 ≤ 64 by decide)
  have h5 := BigEndian.shiftLeft_mod (byteAt p 5) (show 16 + 8 ≤ 64 by decide)
  have h6 := BigEndian.shiftLeft_mod (byteAt p 6) (show 8 + 8 ≤ 64 by decide)
  have hlow : (byteAt p 7).toNat = (byteAt p 7).toNat <<< 0 := rfl
  simp only [rdU64Be, UInt64.toNat_or, UInt64.toNat_shiftLeft, UInt8.toNat_toUInt64]
  change (byteAt p 0).toNat <<< 56 % 2 ^ 64 ||| (byteAt p 1).toNat <<< 48 % 2 ^ 64 |||
    (byteAt p 2).toNat <<< 40 % 2 ^ 64 ||| (byteAt p 3).toNat <<< 32 % 2 ^ 64 |||
    (byteAt p 4).toNat <<< 24 % 2 ^ 64 ||| (byteAt p 5).toNat <<< 16 % 2 ^ 64 |||
    (byteAt p 6).toNat <<< 8 % 2 ^ 64 ||| (byteAt p 7).toNat = _
  rw [h0, h1, h2, h3, h4, h5, h6, hlow, BigEndian.shift_or_shift _ 48,
    BigEndian.shift_or_shift _ 40, BigEndian.shift_or_shift _ 32, BigEndian.shift_or_shift _ 24,
    BigEndian.shift_or_shift _ 16, BigEndian.shift_or_shift _ 8, BigEndian.shift_or_shift _ 0]
  simp only [BigEndian.value, List.length_cons, List.length_nil, Nat.shiftLeft_zero]
  ring

@[simp] theorem rdU16Be_wrU16Be (v : UInt16) (rest : List UInt8) :
    rdU16Be (wrU16Be v ++ rest) = v := by
  apply UInt16.toNat_inj.mp
  rw [rdU16Be_toNat]
  change BigEndian.value (wrU16Be v) = v.toNat
  rw [wrU16Be_eq, BigEndian.value_bytes]
  exact Nat.mod_eq_of_lt v.toNat_lt

@[simp] theorem rdU32Be_wrU32Be (v : UInt32) (rest : List UInt8) :
    rdU32Be (wrU32Be v ++ rest) = v := by
  apply UInt32.toNat_inj.mp
  rw [rdU32Be_toNat]
  change BigEndian.value (wrU32Be v) = v.toNat
  rw [wrU32Be_eq, BigEndian.value_bytes]
  exact Nat.mod_eq_of_lt v.toNat_lt

@[simp] theorem rdU64Be_wrU64Be (v : UInt64) (rest : List UInt8) :
    rdU64Be (wrU64Be v ++ rest) = v := by
  apply UInt64.toNat_inj.mp
  rw [rdU64Be_toNat]
  change BigEndian.value (wrU64Be v) = v.toNat
  rw [wrU64Be_eq, BigEndian.value_bytes]
  exact Nat.mod_eq_of_lt v.toNat_lt

/-! ### Decoding what was encoded -/

/-- The update a receiver decodes from the frame of `u`. -/
def carried (u : SubownUpdate) : SubownUpdate where
  msgVersion := msgVersion1
  subscriberId := u.subscriberId
  generation := u.generation
  ownerBox := wireOwner u
  reserved := (0, 0, 0)
  ownerBoxId := (wireOwner u).toUInt16
  activationTs := u.ts
  timestamp := u.ts
  policyMask := u.policyMask
  ownerEpoch := u.ownerEpoch

theorem encodeUpdateV1_eq_some {u : SubownUpdate} {cap : ℕ} {f : Frame} :
    encodeUpdateV1 u cap = some f ↔ wireV1FrameSize ≤ cap ∧ frameBytes u = f := by
  unfold encodeUpdateV1
  by_cases h : cap < wireV1FrameSize
  · rw [if_pos h]
    constructor
    · intro e
      cases e
    · intro e
      omega
  · rw [if_neg h, Option.some.injEq]
    exact ⟨fun e => ⟨Nat.le_of_not_lt h, e⟩, And.right⟩

@[simp] theorem encodeUpdateV1_frameSize (u : SubownUpdate) :
    encodeUpdateV1 u wireV1FrameSize = some (frameBytes u) :=
  encodeUpdateV1_eq_some.mpr ⟨le_rfl, rfl⟩

theorem length_frameBytes (u : SubownUpdate) : (frameBytes u).length = wireV1FrameSize := rfl

/-- The decoder accepts a frame of the encoder exactly when the owner byte is known. -/
theorem decodeUpdateV1_frameBytes (u : SubownUpdate) :
    decodeUpdateV1 (frameBytes u) =
      if KnownOwner (wireOwner u) then some (carried u) else none := by
  have hmagic : rdU32Be ((frameBytes u).drop 0) = wireMagic := rdU32Be_wrU32Be _ _
  have hversion : rdU16Be ((frameBytes u).drop 4) = wireVersionV1 := rdU16Be_wrU16Be _ _
  have hlen : rdU16Be ((frameBytes u).drop 6) = wireV1FrameSize.toUInt16 := rdU16Be_wrU16Be _ _
  have hsid : rdU64Be ((frameBytes u).drop 8) = u.subscriberId := rdU64Be_wrU64Be _ _
  have hgen : rdU32Be ((frameBytes u).drop 16) = u.generation := rdU32Be_wrU32Be _ _
  have howner : byteAt (frameBytes u) 20 = wireOwner u := rfl
  have hts : rdU64Be ((frameBytes u).drop 24) = u.ts := rdU64Be_wrU64Be _ _
  have hpolicy : rdU32Be ((frameBytes u).drop 32) = u.policyMask := rdU32Be_wrU32Be _ _
  have hepoch : rdU32Be ((frameBytes u).drop 36) = u.ownerEpoch := rdU32Be_wrU32Be _ _
  unfold decodeUpdateV1
  simp only [length_frameBytes, hmagic, hversion, hlen, howner, hsid, hgen, hts, hpolicy, hepoch,
    ne_eq, not_true_eq_false, if_false, ite_not]
  rfl

/-- What the decoder establishes about an update it accepts. -/
structure WellFormed (u : SubownUpdate) : Prop where
  version : u.msgVersion = msgVersion1
  known : KnownOwner u.ownerBox
  ownerBoxId : u.ownerBoxId = u.ownerBox.toUInt16
  timestamp : u.timestamp = u.activationTs

theorem decodeUpdateV1_wellFormed {m : List UInt8} {u : SubownUpdate}
    (h : decodeUpdateV1 m = some u) : WellFormed u := by
  unfold decodeUpdateV1 at h
  dsimp only at h
  split_ifs at h with _ _ _ _ hknown
  cases h
  exact ⟨rfl, hknown, rfl, rfl⟩

theorem normalizeOwner_self {o : UInt8} (h : KnownOwner o) : normalizeOwner o.toUInt16 o = o := by
  rcases h with rfl | rfl | rfl <;> rfl

theorem normalizeTs_self (t : UInt64) : normalizeTs t t = t := ite_self _

theorem WellFormed.owner {u : SubownUpdate} (h : WellFormed u) : u.owner = u.ownerBox := by
  unfold SubownUpdate.owner
  rw [h.ownerBoxId, normalizeOwner_self h.known]

theorem WellFormed.ts {u : SubownUpdate} (h : WellFormed u) : u.ts = u.activationTs := by
  unfold SubownUpdate.ts
  rw [h.timestamp, normalizeTs_self]

theorem WellFormed.known_owner {u : SubownUpdate} (h : WellFormed u) : KnownOwner u.owner := by
  rw [h.owner]
  exact h.known

end Subown
