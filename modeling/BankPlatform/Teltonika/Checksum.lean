import BankPlatform.Library.ShiftRegister
import BankPlatform.Teltonika.RoundTrip

/-!
# What the checksum catches

The checksum of the data field is what is left in a shift register of 16 bits. It changes when bits
within a span of 16 are flipped, and when an odd number of bits is flipped; the parser then does not
look at the data field.

## Main results

* `crc16ibm_eq` — the checksum as a shift register.
* `crc_catches` — short bursts and odd errors are caught.
-/

namespace BankPlatform.Teltonika

open Library

/-- The bits of a byte, least significant first. -/
def byteBits (byte : UInt8) : List Bool := (List.range 8).map byte.toNat.testBit

/-- The bits of a data field, as the checksum takes them in. -/
def dataBits (data : Bytes) : List Bool := data.flatMap byteBits

/-- The bits in which two data fields of one length differ. -/
def flippedBits (data data' : Bytes) : List Bool := List.zipWith xor (dataBits data) (dataBits data')

/-- What the checksum feeds back: the bits 15, 13 and 0. -/
def crcPoly : BitVec 16 := 0xa001

/-- The upper half of the checksum is always empty. -/
theorem crcBit_setWidth (s : BitVec 16) :
    crcBit (s.setWidth 32) = (ShiftRegister.shift crcPoly s).setWidth 32 := by
  have hshift : s.setWidth 32 >>> 1 = (s >>> 1).setWidth 32 := by
    apply BitVec.eq_of_getLsbD_eq
    intro i hi
    simp only [BitVec.getLsbD_ushiftRight, BitVec.getLsbD_setWidth]
    by_cases hlast : 1 + i < 32
    · simp [hlast, hi]
    · have hnone : s.getLsbD (1 + i) = false := BitVec.getLsbD_of_ge _ _ (by omega)
      simp [hnone]
  have hlow : s.setWidth 32 &&& 1 ≠ 0 ↔ s.getLsbD 0 = true := by
    rw [show (1 : BitVec 32) = 1#32 from rfl, BitVec.and_one_eq_setWidth_ofBool_getLsbD,
      BitVec.getLsbD_setWidth]
    cases s.getLsbD 0 <;> decide
  unfold crcBit ShiftRegister.shift
  by_cases h : s.getLsbD 0 = true
  · rw [if_pos h, if_pos (hlow.mpr h), BitVec.setWidth_xor, hshift]
    rfl
  · rw [if_neg h, if_neg (mt hlow.mp h), hshift]

theorem crcByte_setWidth (s : BitVec 16) (byte : UInt8) :
    crcByte (s.setWidth 32) byte =
      ((byteBits byte).foldl (ShiftRegister.feed crcPoly) s).setWidth 32 := by
  have hiterate : ∀ (n : ℕ) (s : BitVec 16), crcBit^[n] (s.setWidth 32) =
      ((ShiftRegister.shift crcPoly)^[n] s).setWidth 32 := by
    intro n
    induction n with
    | zero => exact fun s => rfl
    | succ n ih =>
      intro s
      rw [Function.iterate_succ_apply, Function.iterate_succ_apply, crcBit_setWidth, ih]
  have hword : BitVec.ofNat 32 byte.toNat =
      (ShiftRegister.word (byteBits byte) : BitVec 16).setWidth 32 := by
    apply BitVec.eq_of_getLsbD_eq
    intro i hi
    rw [BitVec.getLsbD_setWidth, ShiftRegister.getLsbD_word, BitVec.getLsbD_ofNat, byteBits]
    by_cases hplace : i < 8
    · have hwide : i < 16 := by omega
      simp [hi, hplace, hwide]
    · have hsmall : byte.toNat < 2 ^ i :=
        byte.toNat_lt.trans_le (Nat.pow_le_pow_right (by omega) (by omega : 8 ≤ i))
      simp [hplace, Nat.testBit_lt_two_pow hsmall]
  rw [crcByte, hword, ← BitVec.setWidth_xor, hiterate,
    ShiftRegister.foldl_feed_eq_iterate crcPoly (by simp [byteBits])]
  simp [byteBits]

/-- The checksum is what a shift register of 16 bits leaves. -/
theorem crc16ibm_eq (data : Bytes) :
    crc16ibm data = (ShiftRegister.run crcPoly (dataBits data)).toNat := by
  have hfold : ∀ s : BitVec 16, data.foldl crcByte (s.setWidth 32) =
      ((dataBits data).foldl (ShiftRegister.feed crcPoly) s).setWidth 32 := by
    induction data with
    | nil => exact fun s => rfl
    | cons byte data ih =>
      intro s
      rw [List.foldl_cons, crcByte_setWidth, ih, dataBits, dataBits, List.flatMap_cons,
        List.foldl_append]
  have hzero : (0 : BitVec 32) = (0#16).setWidth 32 := rfl
  have hmask : ∀ s : BitVec 16, s.setWidth 32 &&& 0xffff = s.setWidth 32 := by
    intro s
    have hones : (0xffff : BitVec 32) = (BitVec.allOnes 16).setWidth 32 := rfl
    rw [hones, ← BitVec.setWidth_and, BitVec.and_allOnes]
  rw [crc16ibm, hzero, hfold, hmask, BitVec.toNat_setWidth_of_le (by decide)]
  rfl

theorem length_dataBits (data : Bytes) : (dataBits data).length = 8 * data.length := by
  induction data with
  | nil => rfl
  | cons byte data ih =>
    rw [dataBits, List.flatMap_cons, List.length_append, ← dataBits, ih]
    simp [byteBits]
    omega

theorem byteBits_injective : Function.Injective byteBits := by
  intro byte byte' h
  apply UInt8.toNat_inj.mp
  apply Nat.eq_of_testBit_eq
  intro i
  by_cases hplace : i < 8
  · have hbit := congrArg (fun bits => bits[i]?) h
    simpa [byteBits, hplace] using hbit
  · have hwide : 2 ^ 8 ≤ 2 ^ i := Nat.pow_le_pow_right (by omega) (by omega)
    rw [Nat.testBit_lt_two_pow (byte.toNat_lt.trans_le hwide),
      Nat.testBit_lt_two_pow (byte'.toNat_lt.trans_le hwide)]

theorem dataBits_injective : Function.Injective dataBits := by
  intro data data' h
  induction data generalizing data' with
  | nil =>
    have hlength := congrArg List.length h
    rw [length_dataBits, length_dataBits] at hlength
    exact (List.length_eq_zero_iff.mp (by simpa using hlength.symm)).symm
  | cons byte data ih =>
    cases data' with
    | nil =>
      have hlength := congrArg List.length h
      rw [length_dataBits, length_dataBits] at hlength
      cases hlength
    | cons byte' data' =>
      rw [dataBits, dataBits, List.flatMap_cons, List.flatMap_cons] at h
      obtain ⟨hbyte, hdata⟩ := List.append_inj h (by simp [byteBits])
      rw [byteBits_injective hbyte, ih hdata]

/-- An error of at most 16 bits in a row, or in an odd number of bits, changes the checksum; with the
header and the checksum of before, the parser reports it and does not look at the data field. -/
theorem crc_catches (data data' : Bytes) (hlength : data.length = data'.length)
    (herror : (data ≠ data' ∧ ∃ i, ∀ j, (flippedBits data data')[j]? = some true →
        i ≤ j ∧ j < i + 16) ∨ Odd ((flippedBits data data').count true)) :
    crc16ibm data ≠ crc16ibm data' ∧
      (data.length < 2 ^ 32 →
        parseAvlPacket (BigEndian.encode 4 0 ++ BigEndian.encode 4 data.length ++ data' ++
            BigEndian.encode 4 (crc16ibm data)) =
          .ok (.crcFailed (crc16ibm data) (crc16ibm data'))) := by
  have hbits : (dataBits data).length = (dataBits data').length := by
    rw [length_dataBits, length_dataBits, hlength]
  have hleft : ShiftRegister.run crcPoly (dataBits data) ≠
      ShiftRegister.run crcPoly (dataBits data') := by
    rcases herror with ⟨hne, i, hburst⟩ | hodd
    · exact ShiftRegister.run_ne_of_burst (by decide) hbits (dataBits_injective.ne hne) hburst
    · exact ShiftRegister.run_ne_of_odd (by decide) (by decide) hbits hodd
  have hcrc : crc16ibm data ≠ crc16ibm data' := by
    rw [crc16ibm_eq, crc16ibm_eq]
    exact fun h => hleft (BitVec.eq_of_toNat_eq h)
  refine ⟨hcrc, fun hsize => ?_⟩
  rw [hlength] at hsize ⊢
  rw [parseAvlPacket_frame hsize ((crc16ibm_lt data).trans (by decide)), if_pos hcrc]

/-- One byte of three is lost. -/
theorem crc_catches_lostByte :
    crc16ibm [8, 255, 0] ≠ crc16ibm [8, 0, 0] ∧
      parseAvlPacket (BigEndian.encode 4 0 ++ BigEndian.encode 4 3 ++ [8, 0, 0] ++
          BigEndian.encode 4 (crc16ibm [8, 255, 0])) =
        .ok (.crcFailed (crc16ibm [8, 255, 0]) (crc16ibm [8, 0, 0])) := by
  have hburst : ∀ j, (flippedBits [8, 255, 0] [8, 0, 0])[j]? = some true → 8 ≤ j ∧ j < 8 + 16 := by
    intro j hj
    have hlt : j < 24 := (List.getElem?_eq_some_iff.mp hj).1
    revert hj
    revert j
    decide
  obtain ⟨hcrc, hparse⟩ := crc_catches [8, 255, 0] [8, 0, 0] rfl
    (.inl ⟨by decide, 8, hburst⟩)
  exact ⟨hcrc, hparse (by decide)⟩

end BankPlatform.Teltonika
