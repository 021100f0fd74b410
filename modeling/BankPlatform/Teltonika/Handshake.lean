import BankPlatform.Teltonika.Encode
import BankPlatform.Teltonika.Framer
import Mathlib.Data.FinEnum

/-!
# What the handshake accepts

The handshake frame is a digit count of two bytes and 15 ASCII digits, as `encodeImeiFrame` of
`packages/teltonika/src/testing.ts` builds it. `tryParseImeiFrame` checks the digits in the decoded
string, and decoding drops the high bit of every byte.

## Main results

* `tryParseImeiFrame_digits` — the parser on a complete frame.
* `handshake_exact_iff` — it accepts other frames exactly if dropping high bits leaves digits.
-/

namespace BankPlatform.Teltonika

open Library

/-! ## `encodeImeiFrame` -/

/-- The UTF-16 code units of a string; a character outside the basic plane takes two. -/
def codeUnits (value : String) : List ℕ :=
  value.toList.flatMap fun c =>
    if c.toNat < 0x10000 then [c.toNat]
    else [0xd800 + (c.toNat - 0x10000) / 0x400, 0xdc00 + (c.toNat - 0x10000) % 0x400]

/-- `Buffer.from(value, 'ascii')`, which keeps the low byte of every code unit. -/
def fromAscii (value : String) : Bytes := (codeUnits value).map UInt8.ofNat

/-- Builds the opening handshake frame. -/
def encodeImeiFrame (imei : String) : Except RangeError Bytes := do
  let length ← writeUInt 2 (codeUnits imei).length
  return length ++ fromAscii imei

/-! ## The frames that should be accepted -/

def AsciiDigit (b : UInt8) : Prop := 0x30 ≤ b.toNat ∧ b.toNat ≤ 0x39

instance (b : UInt8) : Decidable (AsciiDigit b) := inferInstanceAs (Decidable (_ ∧ _))

/-- The characters with the bytes as codes. -/
def spelled (digits : Bytes) : String := String.ofList (digits.map fun b => Char.ofNat b.toNat)

/-- The buffer begins with the handshake frame of an IMEI. -/
def BeginsWithImei (buf : Bytes) (imei : String) : Prop :=
  ∃ digits rest, buf = 0x00 :: 0x0f :: (digits ++ rest) ∧ digits.length = 15 ∧
    (∀ b ∈ digits, AsciiDigit b) ∧ imei = spelled digits

/-- What has arrived may still become a handshake frame. -/
def Incomplete (buf : Bytes) : Prop :=
  buf.length < 2 ∨ ([0x00, 0x0f] <+: buf ∧ buf.length < 17)

/-- The parser does on a buffer what the frame format says. -/
structure HandshakeExact (buf : Bytes) : Prop where
  accepts : ∀ imei bytesConsumed, tryParseImeiFrame buf = .ok imei bytesConsumed ↔
    bytesConsumed = 17 ∧ BeginsWithImei buf imei
  encoded : ∀ imei, BeginsWithImei buf imei ↔
    isValidImei imei = true ∧ encodeImeiFrame imei = .ok (buf.take 17)
  waits : tryParseImeiFrame buf = .needMore ↔ Incomplete buf
  rejects : (∃ reason, tryParseImeiFrame buf = .invalid reason) ↔
    (∀ imei, ¬ BeginsWithImei buf imei) ∧ ¬ Incomplete buf

/-- A complete frame in which all digits are right but for high bits, of which some are set. -/
def HighBitDigits (buf : Bytes) : Prop :=
  ∃ digits rest, buf = 0x00 :: 0x0f :: (digits ++ rest) ∧ digits.length = 15 ∧
    (∀ b ∈ digits, AsciiDigit (b &&& 0x7f)) ∧ ∃ b ∈ digits, 0x80 ≤ b

/-! ## The parser -/

theorem readUInt16BE_cons (b b' : UInt8) (rest : Bytes) :
    readUInt16BE (b :: b' :: rest) 0 = b.toNat * 256 + b'.toNat := by
  simp [readUInt16BE, BigEndian.decode]

theorem readUInt16BE_eq_digits {b b' : UInt8} {rest : Bytes} :
    readUInt16BE (b :: b' :: rest) 0 = IMEI_DIGITS ↔ b = 0x00 ∧ b' = 0x0f := by
  rw [readUInt16BE_cons, IMEI_DIGITS, ← UInt8.toNat_inj, ← UInt8.toNat_inj]
  have hlow := b'.toNat_lt
  simp only [UInt8.toNat_ofNat]
  omega

theorem toNat_ofNat {n : ℕ} (h : n < 128) : (Char.ofNat n).toNat = n := by
  revert n
  decide

theorem isDigit_iff (c : Char) : c.isDigit = true ↔ 48 ≤ c.toNat ∧ c.toNat ≤ 57 := by
  simp [Char.isDigit, UInt32.le_iff_toNat_le]

theorem toNat_and_high (b : UInt8) : (b &&& 0x7f).toNat = b.toNat % 128 := by
  rw [UInt8.toNat_and]
  exact Nat.and_two_pow_sub_one_eq_mod b.toNat 7

theorem isValidImei_toAscii (digits : Bytes) : isValidImei (toAscii digits) = true ↔
    digits.length = 15 ∧ ∀ b ∈ digits, AsciiDigit (b &&& 0x7f) := by
  have hdigit : ∀ b : UInt8,
      (Char.ofNat (b.toNat % 128)).isDigit = true ↔ AsciiDigit (b &&& 0x7f) := by
    intro b
    rw [AsciiDigit, toNat_and_high, isDigit_iff, toNat_ofNat (Nat.mod_lt _ (by omega))]
  simp [isValidImei, toAscii, IMEI_DIGITS, hdigit]

theorem tryParseImeiFrame_of_lt {buf : Bytes} (h : buf.length < 2) :
    tryParseImeiFrame buf = .needMore :=
  if_pos h

theorem tryParseImeiFrame_of_ne {b b' : UInt8} (h : ¬ (b = 0x00 ∧ b' = 0x0f)) (rest : Bytes) :
    ∃ reason, tryParseImeiFrame (b :: b' :: rest) = .invalid reason := by
  have hlength : ¬ (b :: b' :: rest).length < LENGTH_PREFIX_BYTES := by
    simp [LENGTH_PREFIX_BYTES]
  unfold tryParseImeiFrame
  rw [if_neg hlength]
  dsimp only
  rw [if_pos (mt readUInt16BE_eq_digits.mp h)]
  exact ⟨_, rfl⟩

theorem tryParseImeiFrame_mark (rest : Bytes) :
    tryParseImeiFrame (0x00 :: 0x0f :: rest) =
      if rest.length < 15 then .needMore
      else if isValidImei (toAscii (rest.take 15)) then .ok (toAscii (rest.take 15)) 17
      else .invalid "IMEI is not 15 ASCII digits" := by
  have hlength : ¬ (0x00 :: 0x0f :: rest : Bytes).length < LENGTH_PREFIX_BYTES := by
    simp [LENGTH_PREFIX_BYTES]
  have hread : readUInt16BE (0x00 :: 0x0f :: rest) 0 = IMEI_DIGITS :=
    readUInt16BE_eq_digits.mpr ⟨rfl, rfl⟩
  have hframe : (0x00 :: 0x0f :: rest : Bytes).length < LENGTH_PREFIX_BYTES + IMEI_DIGITS ↔
      rest.length < 15 := by
    simp only [List.length_cons, LENGTH_PREFIX_BYTES, IMEI_DIGITS]
    omega
  unfold tryParseImeiFrame
  rw [if_neg hlength, hread]
  dsimp only
  rw [if_neg (not_not_intro rfl)]
  simp only [hframe]
  rfl

/-- The parser on a complete frame: the high bits do not matter. -/
theorem tryParseImeiFrame_digits {digits : Bytes} (hlength : digits.length = 15) (rest : Bytes) :
    tryParseImeiFrame (0x00 :: 0x0f :: (digits ++ rest)) =
      if ∀ b ∈ digits, AsciiDigit (b &&& 0x7f) then .ok (toAscii digits) 17
      else .invalid "IMEI is not 15 ASCII digits" := by
  have htake : (digits ++ rest).take 15 = digits := by
    rw [← hlength, List.take_left]
  have hlong : ¬ (digits ++ rest).length < 15 := by
    rw [List.length_append]
    omega
  rw [tryParseImeiFrame_mark, if_neg hlong, htake]
  simp only [isValidImei_toAscii, hlength, true_and]

/-! ## The frame of an IMEI -/

theorem AsciiDigit.and_high {b : UInt8} (h : AsciiDigit b) : b &&& 0x7f = b := by
  obtain ⟨-, hhigh⟩ := h
  apply UInt8.toNat_inj.mp
  rw [toNat_and_high]
  omega

theorem toAscii_eq_spelled {digits : Bytes} (h : ∀ b ∈ digits, AsciiDigit b) :
    toAscii digits = spelled digits := by
  rw [toAscii, spelled]
  congr 1
  refine List.map_congr_left fun b hb => ?_
  obtain ⟨-, hhigh⟩ := h b hb
  rw [Nat.mod_eq_of_lt (by omega)]

theorem isValidImei_spelled {digits : Bytes} (hlength : digits.length = 15)
    (h : ∀ b ∈ digits, AsciiDigit b) : isValidImei (spelled digits) = true := by
  rw [← toAscii_eq_spelled h, isValidImei_toAscii]
  refine ⟨hlength, fun b hb => ?_⟩
  rw [(h b hb).and_high]
  exact h b hb

/-- Digits are encoded as they are spelled. -/
theorem fromAscii_spelled {digits : Bytes} (h : ∀ b ∈ digits, AsciiDigit b) :
    codeUnits (spelled digits) = digits.map UInt8.toNat ∧ fromAscii (spelled digits) = digits := by
  have hunits : codeUnits (spelled digits) = digits.map UInt8.toNat := by
    rw [codeUnits, spelled, String.toList_ofList, List.flatMap_map, List.map_eq_flatMap]
    refine List.flatMap_congr fun b hb => ?_
    obtain ⟨-, hhigh⟩ := h b hb
    rw [toNat_ofNat (by omega), if_pos (by omega)]
  refine ⟨hunits, ?_⟩
  rw [fromAscii, hunits, List.map_map]
  exact (List.map_congr_left fun b _ => UInt8.ofNat_toNat).trans (List.map_id digits)

theorem encodeImeiFrame_spelled {digits : Bytes} (hlength : digits.length = 15)
    (h : ∀ b ∈ digits, AsciiDigit b) :
    encodeImeiFrame (spelled digits) = .ok (0x00 :: 0x0f :: digits) := by
  obtain ⟨hunits, hbytes⟩ := fromAscii_spelled h
  rw [encodeImeiFrame, hunits, hbytes, List.length_map, hlength]
  rfl

/-- What passes as an IMEI is spelled with ASCII digits. -/
theorem exists_spelled {imei : String} (h : isValidImei imei = true) :
    ∃ digits : Bytes, digits.length = 15 ∧ (∀ b ∈ digits, AsciiDigit b) ∧ imei = spelled digits := by
  simp only [isValidImei, Bool.and_eq_true, List.all_eq_true] at h
  obtain ⟨hlength, hdigits⟩ := h
  have hcode : ∀ c ∈ imei.toList, (UInt8.ofNat c.toNat).toNat = c.toNat := by
    intro c hc
    obtain ⟨-, hhigh⟩ := (isDigit_iff c).mp (hdigits c hc)
    exact UInt8.toNat_ofNat_of_lt (hhigh.trans_lt (by decide))
  refine ⟨imei.toList.map fun c => UInt8.ofNat c.toNat, ?_, ?_, ?_⟩
  · exact (List.length_map _).trans (of_decide_eq_true hlength)
  · intro b hb
    obtain ⟨c, hc, rfl⟩ := List.mem_map.mp hb
    rw [AsciiDigit, hcode c hc]
    exact (isDigit_iff c).mp (hdigits c hc)
  · apply String.toList_inj.mp
    rw [spelled, String.toList_ofList, List.map_map]
    refine ((List.map_congr_left fun c hc => ?_).trans (List.map_id _)).symm
    rw [Function.comp_apply, hcode c hc, Char.ofNat_toNat, id]

theorem beginsWithImei_iff {buf : Bytes} {imei : String} : BeginsWithImei buf imei ↔
    isValidImei imei = true ∧ encodeImeiFrame imei = .ok (buf.take 17) := by
  constructor
  · rintro ⟨digits, rest, rfl, hlength, hdigits, rfl⟩
    refine ⟨isValidImei_spelled hlength hdigits, ?_⟩
    rw [encodeImeiFrame_spelled hlength hdigits, List.take_succ_cons, List.take_succ_cons,
      ← hlength, List.take_left]
  · rintro ⟨hvalid, hencode⟩
    obtain ⟨digits, hlength, hdigits, rfl⟩ := exists_spelled hvalid
    rw [encodeImeiFrame_spelled hlength hdigits] at hencode
    refine ⟨digits, buf.drop 17, ?_, hlength, hdigits, rfl⟩
    calc buf = buf.take 17 ++ buf.drop 17 := (List.take_append_drop _ _).symm
      _ = 0x00 :: 0x0f :: (digits ++ buf.drop 17) := by rw [← Except.ok.inj hencode]; rfl

/-! ## When the parser is right -/

/-- A buffer is a part of a handshake frame, a complete one with any digits, or something else. -/
theorem handshake_cases (buf : Bytes) : Incomplete buf ∨
    (∃ digits rest, buf = 0x00 :: 0x0f :: (digits ++ rest) ∧ digits.length = 15) ∨
    ∃ b b' rest, buf = b :: b' :: rest ∧ ¬ (b = 0x00 ∧ b' = 0x0f) := by
  match buf with
  | [] => exact .inl (.inl (by decide))
  | [_] => exact .inl (.inl (by simp))
  | b :: b' :: rest =>
    by_cases hprefix : b = 0x00 ∧ b' = 0x0f
    · obtain ⟨rfl, rfl⟩ := hprefix
      by_cases hlength : rest.length < 15
      · exact .inl (.inr ⟨⟨rest, rfl⟩, Nat.add_lt_add_right hlength 2⟩)
      · refine .inr (.inl ⟨rest.take 15, rest.drop 15, by rw [List.take_append_drop], ?_⟩)
        rw [List.length_take]
        omega
    · exact .inr (.inr ⟨b, b', rest, rfl, hprefix⟩)

theorem not_incomplete {digits : Bytes} (hlength : digits.length = 15) (rest : Bytes) :
    ¬ Incomplete (0x00 :: 0x0f :: (digits ++ rest)) := by
  rintro (hshort | ⟨-, hshort⟩)
  all_goals
    simp only [List.length_cons, List.length_append] at hshort
    omega

theorem tryParseImeiFrame_incomplete {buf : Bytes} (h : Incomplete buf) :
    tryParseImeiFrame buf = .needMore := by
  rcases h with hshort | ⟨⟨rest, rfl⟩, hshort⟩
  · exact tryParseImeiFrame_of_lt hshort
  · simp only [List.length_append, List.length_cons, List.length_nil] at hshort
    exact (tryParseImeiFrame_mark rest).trans (if_pos (by omega))

/-- The parser waits as long as nothing is decided. -/
theorem tryParseImeiFrame_eq_needMore {buf : Bytes} :
    tryParseImeiFrame buf = .needMore ↔ Incomplete buf := by
  refine ⟨fun h => ?_, tryParseImeiFrame_incomplete⟩
  rcases handshake_cases buf with hincomplete | ⟨digits, rest, rfl, hlength⟩ | ⟨b, b', rest, rfl, hne⟩
  · exact hincomplete
  · rw [tryParseImeiFrame_digits hlength] at h
    split at h <;> cases h
  · obtain ⟨reason, hinvalid⟩ := tryParseImeiFrame_of_ne hne rest
    rw [hinvalid] at h
    cases h

theorem beginsWithImei_digits {digits : Bytes} (hlength : digits.length = 15) {rest : Bytes}
    {imei : String} : BeginsWithImei (0x00 :: 0x0f :: (digits ++ rest)) imei ↔
      (∀ b ∈ digits, AsciiDigit b) ∧ imei = spelled digits := by
  constructor
  · rintro ⟨digits', rest', heq, hlength', hdigits, rfl⟩
    obtain ⟨rfl, -⟩ := List.append_inj (List.cons.inj (List.cons.inj heq).2).2
      (hlength.trans hlength'.symm)
    exact ⟨hdigits, rfl⟩
  · rintro ⟨hdigits, rfl⟩
    exact ⟨digits, rest, rfl, hlength, hdigits, rfl⟩

theorem not_beginsWithImei {buf : Bytes} (h : Incomplete buf) (imei : String) :
    ¬ BeginsWithImei buf imei := by
  rintro ⟨digits, rest, rfl, hlength, -, -⟩
  exact not_incomplete hlength rest h

theorem highBitDigits_digits {digits : Bytes} (hlength : digits.length = 15) {rest : Bytes} :
    HighBitDigits (0x00 :: 0x0f :: (digits ++ rest)) ↔
      (∀ b ∈ digits, AsciiDigit (b &&& 0x7f)) ∧ ¬ ∀ b ∈ digits, AsciiDigit b := by
  constructor
  · rintro ⟨digits', rest', heq, hlength', hlow, b, hb, hhigh⟩
    obtain ⟨rfl, -⟩ := List.append_inj (List.cons.inj (List.cons.inj heq).2).2
      (hlength.trans hlength'.symm)
    refine ⟨hlow, fun hdigits => ?_⟩
    have hdigit := (hdigits b hb).2
    have hbound : 128 ≤ b.toNat := UInt8.le_iff_toNat_le.mp hhigh
    omega
  · rintro ⟨hlow, hdigits⟩
    push Not at hdigits
    obtain ⟨b, hb, hother⟩ := hdigits
    refine ⟨digits, rest, rfl, hlength, hlow, b, hb, ?_⟩
    by_contra hhigh
    have hbound : b.toNat < 128 := by
      simpa [UInt8.le_iff_toNat_le] using hhigh
    have hsame : b &&& 0x7f = b := by
      apply UInt8.toNat_inj.mp
      rw [toNat_and_high, Nat.mod_eq_of_lt hbound]
    exact hother (hsame ▸ hlow b hb)

theorem exact_of_incomplete {buf : Bytes} (h : Incomplete buf) : HandshakeExact buf where
  accepts imei bytesConsumed := by simp [tryParseImeiFrame_incomplete h, not_beginsWithImei h]
  encoded imei := beginsWithImei_iff
  waits := tryParseImeiFrame_eq_needMore
  rejects := by simp [tryParseImeiFrame_incomplete h, h]

theorem exact_of_ne {b b' : UInt8} (h : ¬ (b = 0x00 ∧ b' = 0x0f)) (rest : Bytes) :
    HandshakeExact (b :: b' :: rest) := by
  obtain ⟨reason, hinvalid⟩ := tryParseImeiFrame_of_ne h rest
  have hbegins : ∀ imei, ¬ BeginsWithImei (b :: b' :: rest) imei := by
    rintro imei ⟨digits, rest', heq, -⟩
    grind
  have hincomplete : ¬ Incomplete (b :: b' :: rest) := by
    rintro (hshort | ⟨⟨rest', heq⟩, -⟩)
    · simp only [List.length_cons] at hshort
      omega
    · grind
  constructor
  · simp [hinvalid, hbegins]
  · exact fun imei => beginsWithImei_iff
  · exact tryParseImeiFrame_eq_needMore
  · simp [hinvalid, hbegins, hincomplete]

/-- On a complete frame the parser is right if it needs no high bits to reject it. -/
theorem exact_digits_iff {digits : Bytes} (hlength : digits.length = 15) (rest : Bytes) :
    HandshakeExact (0x00 :: 0x0f :: (digits ++ rest)) ↔
      ((∀ b ∈ digits, AsciiDigit (b &&& 0x7f)) → ∀ b ∈ digits, AsciiDigit b) := by
  have hparse := tryParseImeiFrame_digits hlength rest
  constructor
  · intro hexact hlow
    rw [if_pos hlow] at hparse
    obtain ⟨-, hbegins⟩ := (hexact.accepts _ _).mp hparse
    exact ((beginsWithImei_digits hlength).mp hbegins).1
  · intro hstrict
    have hincomplete := not_incomplete hlength rest
    by_cases hdigits : ∀ b ∈ digits, AsciiDigit b
    · have hlow : ∀ b ∈ digits, AsciiDigit (b &&& 0x7f) := by
        intro b hb
        rw [(hdigits b hb).and_high]
        exact hdigits b hb
      rw [if_pos hlow, toAscii_eq_spelled hdigits] at hparse
      have hbegins : ∀ imei, BeginsWithImei (0x00 :: 0x0f :: (digits ++ rest)) imei ↔
          spelled digits = imei := by
        intro imei
        rw [beginsWithImei_digits hlength]
        exact ⟨fun h => h.2.symm, fun h => ⟨hdigits, h.symm⟩⟩
      constructor
      · intro imei bytesConsumed
        rw [hparse, ImeiFrameResult.ok.injEq, hbegins, and_comm, eq_comm (a := 17)]
      · exact fun imei => beginsWithImei_iff
      · exact tryParseImeiFrame_eq_needMore
      · simp [hparse, hbegins]
    · have hbegins : ∀ imei, ¬ BeginsWithImei (0x00 :: 0x0f :: (digits ++ rest)) imei :=
        fun imei h => hdigits ((beginsWithImei_digits hlength).mp h).1
      rw [if_neg (mt hstrict hdigits)] at hparse
      constructor
      · simp [hparse, hbegins]
      · exact fun imei => beginsWithImei_iff
      · exact tryParseImeiFrame_eq_needMore
      · simp [hparse, hbegins, hincomplete]

/-- The parser accepts exactly the handshake frames, unless high bits are all that is wrong. -/
theorem handshake_exact_iff (buf : Bytes) : HandshakeExact buf ↔ ¬ HighBitDigits buf := by
  rcases handshake_cases buf with hincomplete | ⟨digits, rest, rfl, hlength⟩ | ⟨b, b', rest, rfl, hne⟩
  · refine iff_of_true (exact_of_incomplete hincomplete) ?_
    rintro ⟨digits, rest, rfl, hlength, -⟩
    exact not_incomplete hlength rest hincomplete
  · rw [exact_digits_iff hlength, highBitDigits_digits hlength, not_and, not_not]
  · refine iff_of_true (exact_of_ne hne rest) ?_
    rintro ⟨digits, rest', heq, -⟩
    grind

/-- A handshake frame with the high bit set in the first digit. -/
def highBitFrame : Bytes :=
  [0x00, 0x0f, 0xb3, 0x35, 0x36, 0x33, 0x30, 0x37, 0x30, 0x34, 0x32, 0x34, 0x34, 0x31, 0x30, 0x31,
    0x33]

/-- It is accepted as the handshake of a device. -/
theorem high_bit_accepted :
    tryParseImeiFrame highBitFrame = .ok "356307042441013" 17 ∧ ¬ HandshakeExact highBitFrame := by
  have hparse : tryParseImeiFrame highBitFrame = .ok "356307042441013" 17 := by decide
  refine ⟨hparse, fun hexact => ?_⟩
  obtain ⟨-, hbegins⟩ := (hexact.accepts _ _).mp hparse
  have hframe : highBitFrame = 0x00 :: 0x0f :: (highBitFrame.drop 2 ++ []) := by decide
  rw [hframe, beginsWithImei_digits (by decide)] at hbegins
  exact absurd (hbegins.1 0xb3 (by decide)) (by decide)

end BankPlatform.Teltonika
