import Subown.WireCodec

/-! Exactness of the v1 wire format: which byte strings the decoder accepts, and that
encoding and decoding are inverse to each other up to the reserved bytes. -/
namespace Subown

/-- The byte strings that are v1 frames. -/
structure FrameV1 (buf : List UInt8) : Prop where
  length : buf.length = 40
  magic : (buf.drop 0).take 4 = [0x53, 0x4f, 0x57, 0x4e]
  version : (buf.drop 4).take 2 = [0x00, 0x01]
  frameLen : (buf.drop 6).take 2 = [0x00, 0x28]
  owner : byteAt buf 20 = 0x00 ∨ byteAt buf 20 = 0x01 ∨ byteAt buf 20 = 0xFF

/-- The frame with its reserved bytes set to zero. -/
def clearReserved (buf : List UInt8) : List UInt8 := ((buf.set 21 0).set 22 0).set 23 0

/-- The updates that fit the format without loss. -/
structure Canonical (u : SubownUpdate) : Prop extends WellFormed u where
  reserved : u.reserved = (0, 0, 0)

/-! ### Fields at an offset -/

theorem map_byteAt (p : List UInt8) {n : ℕ} (h : n ≤ p.length) :
    (List.range n).map (byteAt p) = p.take n := by
  apply List.ext_getElem
  · simp [h]
  · intro i hi hi'
    have hp : i < p.length := by
      rw [List.length_take] at hi'
      omega
    simp [byteAt, hp]

theorem wrU16Be_rdU16Be {p : List UInt8} (h : 2 ≤ p.length) : wrU16Be (rdU16Be p) = p.take 2 := by
  rw [wrU16Be_eq, rdU16Be_toNat, ← map_byteAt p h]
  exact BigEndian.bytes_value ((List.range 2).map (byteAt p))

theorem wrU32Be_rdU32Be {p : List UInt8} (h : 4 ≤ p.length) : wrU32Be (rdU32Be p) = p.take 4 := by
  rw [wrU32Be_eq, rdU32Be_toNat, ← map_byteAt p h]
  exact BigEndian.bytes_value ((List.range 4).map (byteAt p))

theorem wrU64Be_rdU64Be {p : List UInt8} (h : 8 ≤ p.length) : wrU64Be (rdU64Be p) = p.take 8 := by
  rw [wrU64Be_eq, rdU64Be_toNat, ← map_byteAt p h]
  exact BigEndian.bytes_value ((List.range 8).map (byteAt p))

theorem rdU16Be_eq_iff {p : List UInt8} {v : UInt16} (h : 2 ≤ p.length) :
    rdU16Be p = v ↔ p.take 2 = wrU16Be v := by
  constructor
  · intro e
    rw [← e, wrU16Be_rdU16Be h]
  · intro e
    rw [← List.take_append_drop 2 p, e, rdU16Be_wrU16Be]

theorem rdU32Be_eq_iff {p : List UInt8} {v : UInt32} (h : 4 ≤ p.length) :
    rdU32Be p = v ↔ p.take 4 = wrU32Be v := by
  constructor
  · intro e
    rw [← e, wrU32Be_rdU32Be h]
  · intro e
    rw [← List.take_append_drop 4 p, e, rdU32Be_wrU32Be]

/-! ### What the decoder accepts -/

/-- The decoder's guards, read as bytes. -/
theorem decodeUpdateV1_isSome (buf : List UInt8) :
    (decodeUpdateV1 buf).isSome = true ↔ FrameV1 buf := by
  by_cases hlen : buf.length = 40
  swap
  · rw [decodeUpdateV1, if_pos hlen]
    exact ⟨nofun, fun h => absurd h.length hlen⟩
  have hmagic : rdU32Be (buf.drop 0) = wireMagic ↔
      (buf.drop 0).take 4 = [0x53, 0x4f, 0x57, 0x4e] := rdU32Be_eq_iff (by simp [hlen])
  have hversion : rdU16Be (buf.drop 4) = wireVersionV1 ↔ (buf.drop 4).take 2 = [0x00, 0x01] :=
    rdU16Be_eq_iff (by simp [hlen])
  have hframe : rdU16Be (buf.drop 6) = wireV1FrameSize.toUInt16 ↔
      (buf.drop 6).take 2 = [0x00, 0x28] := rdU16Be_eq_iff (by simp [hlen])
  have hguards : (decodeUpdateV1 buf).isSome = true ↔ rdU32Be (buf.drop 0) = wireMagic ∧
      rdU16Be (buf.drop 4) = wireVersionV1 ∧ rdU16Be (buf.drop 6) = wireV1FrameSize.toUInt16 ∧
      KnownOwner (byteAt buf 20) := by
    unfold decodeUpdateV1
    rw [if_neg (not_not.mpr hlen)]
    dsimp only
    split_ifs <;> simp_all
  rw [hguards, hmagic, hversion, hframe]
  exact ⟨fun ⟨hm, hv, hf, ho⟩ => ⟨hlen, hm, hv, hf, ho⟩,
    fun h => ⟨h.magic, h.version, h.frameLen, h.owner⟩⟩

/-! ### Encoding what was decoded -/

theorem take_drop_append (buf : List UInt8) (i n : ℕ) :
    (buf.drop i).take n ++ buf.drop (i + n) = buf.drop i := by
  rw [← List.drop_drop, List.take_append_drop]

theorem clearReserved_eq {buf : List UInt8} (hlen : buf.length = 40) :
    clearReserved buf = buf.take 20 ++ ([byteAt buf 20, 0, 0, 0] ++ buf.drop 24) := by
  obtain ⟨pre, o, x, y, z, post, hpre, rfl⟩ : ∃ pre o x y z post, pre.length = 20 ∧
      buf = pre ++ (o :: x :: y :: z :: post) :=
    ⟨buf.take 20, buf[20], buf[21], buf[22], buf[23], buf.drop 24, by simp [hlen], by simp⟩
  simp [clearReserved, byteAt, List.drop_append, hpre]

/-- The encoder writes back the bytes the decoder read. -/
theorem frameBytes_decoded {buf : List UInt8} {u : SubownUpdate}
    (h : decodeUpdateV1 buf = some u) : frameBytes u = clearReserved buf := by
  have hframe := (decodeUpdateV1_isSome buf).mp (Option.isSome_of_mem h)
  have hlen := hframe.length
  have hmagic : wrU32Be wireMagic = buf.take 4 := hframe.magic.symm
  have hversion : wrU16Be wireVersionV1 = (buf.drop 4).take 2 := hframe.version.symm
  have hframeLen : wrU16Be wireV1FrameSize.toUInt16 = (buf.drop 6).take 2 := hframe.frameLen.symm
  have hwf := decodeUpdateV1_wellFormed h
  have howner : wireOwner u = u.ownerBox := if_neg (not_not.mpr hwf.known)
  have hts : (if u.activationTs ≠ 0 then u.activationTs else u.timestamp) = u.activationTs := by
    rw [hwf.timestamp, ite_self]
  rw [clearReserved_eq hlen, frameBytes, howner, hts, hmagic, hversion, hframeLen]
  unfold decodeUpdateV1 at h
  dsimp only at h
  split_ifs at h
  cases h
  dsimp only
  rw [wrU64Be_rdU64Be (by simp [hlen]), wrU32Be_rdU32Be (by simp [hlen]),
    wrU64Be_rdU64Be (by simp [hlen]), wrU32Be_rdU32Be (by simp [hlen]),
    wrU32Be_rdU32Be (by simp [hlen])]
  -- The pieces before the owner byte join to the first twenty bytes, those after it to the rest.
  have h6 : buf.take 4 ++ (buf.drop 4).take 2 = buf.take 6 := List.take_add.symm
  have h8 : buf.take 6 ++ (buf.drop 6).take 2 = buf.take 8 := List.take_add.symm
  have h16 : buf.take 8 ++ (buf.drop 8).take 8 = buf.take 16 := List.take_add.symm
  have h20 : buf.take 16 ++ (buf.drop 16).take 4 = buf.take 20 := List.take_add.symm
  have h36 : (buf.drop 36).take 4 ++ [] = buf.drop 36 := by
    rw [List.append_nil]
    exact List.take_of_length_le (by simp [hlen])
  have h32 : (buf.drop 32).take 4 ++ buf.drop 36 = buf.drop 32 := take_drop_append buf 32 4
  have h24 : (buf.drop 24).take 8 ++ buf.drop 32 = buf.drop 24 := take_drop_append buf 24 8
  rw [h36, h32, h24, ← List.append_assoc, h6, ← List.append_assoc, h8, ← List.append_assoc, h16,
    ← List.append_assoc, h20]

/-! ### Decoding what was encoded -/

theorem Canonical.carried {u : SubownUpdate} (h : Canonical u) : carried u = u := by
  have howner : wireOwner u = u.ownerBox := if_neg (not_not.mpr h.known)
  have hts := h.toWellFormed.ts
  obtain ⟨⟨hversion, _, hid, htimestamp⟩, hreserved⟩ := h
  obtain ⟨version, sid, gen, box, reserved, ats, policy, id, ts, epoch⟩ := u
  simp only [Subown.carried, howner, hts]
  simp_all

/-- The v1 wire format is exact: acceptance is being a frame, re-encoding an accepted frame
clears its reserved bytes and nothing else, and canonical updates survive the round trip. -/
theorem wire_format_exact :
    (∀ buf, (decodeUpdateV1 buf).isSome = true ↔ FrameV1 buf) ∧
    (∀ buf u cap, decodeUpdateV1 buf = some u → 40 ≤ cap →
      encodeUpdateV1 u cap = some (clearReserved buf)) ∧
    (∀ u cap, Canonical u → 40 ≤ cap →
      ∃ frame, encodeUpdateV1 u cap = some frame ∧ frame.length = 40 ∧
        decodeUpdateV1 frame = some u) := by
  refine ⟨decodeUpdateV1_isSome, ?_, ?_⟩
  · intro buf u cap hdec hcap
    exact encodeUpdateV1_eq_some.mpr ⟨hcap, frameBytes_decoded hdec⟩
  · intro u cap hu hcap
    have hknown : KnownOwner (wireOwner u) := by
      rw [wireOwner, if_neg (not_not.mpr hu.known)]
      exact hu.known
    refine ⟨frameBytes u, encodeUpdateV1_eq_some.mpr ⟨hcap, rfl⟩, length_frameBytes u, ?_⟩
    rw [decodeUpdateV1_frameBytes, if_pos hknown, hu.carried]

end Subown
