import BankPlatform.Library.BigEndian
import BankPlatform.Library.Reader

/-!
# The bounds-checked cursor

`Cursor` of `packages/teltonika/src/cursor.ts`: a sequential reader over one buffer. Every read
names its field, so that a truncated frame is reported with the field that was cut off.
-/

namespace BankPlatform.Teltonika

open Library

/-- `TeltonikaParseError`. -/
structure TeltonikaParseError where
  message : String
  deriving DecidableEq, Repr

/-- A buffer and how far it has been read. -/
structure Cursor where
  buf : Bytes
  offset : ℕ
  offset_le : offset ≤ buf.length

/-- A computation that reads from a cursor and may throw. -/
abbrev Read := Reader Cursor TeltonikaParseError

namespace Cursor

/-- `new Cursor(buf)`. -/
def ofBuffer (buf : Bytes) : Cursor := ⟨buf, 0, Nat.zero_le _⟩

def remaining (c : Cursor) : ℕ := c.buf.length - c.offset

/-- Reserves `bytes` and returns the offset they start at. -/
def take (bytes : ℕ) (field : String) : Read ℕ := fun c =>
  if h : c.remaining < bytes then
    .error ⟨"truncated frame: " ++ field ++ " needs " ++ toString bytes ++ " byte(s) at offset " ++
      toString c.offset ++ ", only " ++ toString c.remaining ++ " left"⟩
  else
    .ok (c.offset,
      { c with
        offset := c.offset + bytes
        offset_le := by
          have := c.offset_le
          unfold remaining at h
          omega })

/-- Copies out `length` bytes. -/
def bytes (length : ℕ) (field : String) : Read Bytes := do
  let start ← take length field
  return ((← get).buf.drop start).take length

/-- An unsigned number of some width. -/
def unsigned (width : ℕ) (field : String) : Read ℕ :=
  return BigEndian.decode (← bytes width field)

/-- A two's complement integer of some width. -/
def signed (width : ℕ) (field : String) : Read ℤ :=
  return BigEndian.decodeSigned (← bytes width field)

def u8 : String → Read ℕ := unsigned 1

def u16 : String → Read ℕ := unsigned 2

def u32 : String → Read ℕ := unsigned 4

def u64 : String → Read ℕ := unsigned 8

def i16 : String → Read ℤ := signed 2

def i32 : String → Read ℤ := signed 4

/-! ## Reading what was written -/

/-- The cursor that stands between two parts of its buffer. -/
def between (before after : Bytes) : Cursor := ⟨before ++ after, before.length, by simp⟩

theorem between_nil (after : Bytes) : between [] after = ofBuffer after := rfl

/-- On a cursor, a reader turns some bytes into a value and moves behind them. -/
abbrev Reads {α : Type} (p : Read α) (xs : Bytes) (a : α) : Prop := Reader.Reads between p xs a

theorem run_take_between (before xs after : Bytes) (field : String) :
    (take xs.length field).run (between before (xs ++ after)) =
      .ok (before.length, between (before ++ xs) after) := by
  have hremaining : ¬ (between before (xs ++ after)).remaining < xs.length := by
    simp [remaining, between]
  refine (dif_neg hremaining).trans ?_
  simp [between]

theorem reads_bytes (xs : Bytes) (field : String) : Reads (bytes xs.length field) xs xs := by
  intro before after
  rw [bytes, StateT.run_bind, run_take_between]
  refine congrArg (fun taken => Except.ok (taken, between (before ++ xs) after)) ?_
  simp [between]

/-- A field that is decoded from a fixed number of bytes. -/
theorem reads_decoded {α : Type} {xs : Bytes} {width : ℕ} (hwidth : xs.length = width)
    (decode : Bytes → α) (field : String) :
    Reads (return decode (← bytes width field)) xs (decode xs) := by
  subst hwidth
  exact (reads_bytes xs field).map decode

theorem reads_unsigned {width n : ℕ} (h : n < 256 ^ width) (field : String) :
    Reads (unsigned width field) (BigEndian.encode width n) n := by
  have := reads_decoded (BigEndian.length_encode width n) BigEndian.decode field
  rwa [BigEndian.decode_encode h] at this

theorem reads_signed {width : ℕ} {z : ℤ} (hlo : -(256 ^ width) ≤ 2 * z)
    (hhi : 2 * z < 256 ^ width) (field : String) :
    Reads (signed width field) (BigEndian.encodeSigned width z) z := by
  have := reads_decoded (BigEndian.length_encodeSigned width z) BigEndian.decodeSigned field
  rwa [BigEndian.decodeSigned_encodeSigned hlo hhi] at this

end Cursor

end BankPlatform.Teltonika
