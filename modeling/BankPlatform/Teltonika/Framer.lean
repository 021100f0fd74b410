import BankPlatform.Library.Reassembly
import BankPlatform.Teltonika.Avl

/-!
# The framer

`tryParseImeiFrame` of `packages/teltonika/src/imei.ts` and `TeltonikaFramer` of
`packages/teltonika/src/framer.ts`. TCP gives no message boundaries, so the framer buffers bytes
until a whole frame is present: first the IMEI handshake, then AVL packets.

## Main definitions

* `tryParseImeiFrame` — the handshake, as far as it has arrived.
* `TeltonikaFramer.next`, `TeltonikaFramer.push` — the next event, and all events of a chunk.
* `TeltonikaFramer.feed` — the events of a connection, chunk by chunk.

## Main results

* `framer_lawful` — the framer decides nothing that more bytes could change.
* `settled_push` — the loop of `push` runs to its end.
* `feed_chunks` — the events and the final state do not depend on the chunks.
-/

namespace BankPlatform.Teltonika

open Library

/-! ## The handshake -/

/-- Teltonika devices always announce a 15-digit IMEI. -/
def IMEI_DIGITS : ℕ := 15

def LENGTH_PREFIX_BYTES : ℕ := 2

inductive ImeiFrameResult where
  | ok (imei : String) (bytesConsumed : ℕ)
  | needMore
  | invalid (reason : String)
  deriving DecidableEq, Repr

/-- `buf.toString('ascii')`, which drops the high bit of every byte. -/
def toAscii (buf : Bytes) : String :=
  String.ofList (buf.map fun b => Char.ofNat (b.toNat % 128))

def isValidImei (value : String) : Bool :=
  value.length = IMEI_DIGITS && value.toList.all Char.isDigit

/-- `buf.readUInt16BE(start)` inside the buffer. -/
def readUInt16BE (buf : Bytes) (start : ℕ) : ℕ := BigEndian.decode ((buf.drop start).take 2)

/-- Reads the opening handshake frame: a digit count followed by the IMEI as ASCII. -/
def tryParseImeiFrame (buf : Bytes) : ImeiFrameResult :=
  if buf.length < LENGTH_PREFIX_BYTES then .needMore
  else
    let declaredLength := readUInt16BE buf 0
    if declaredLength ≠ IMEI_DIGITS then
      .invalid ("handshake declared " ++ toString declaredLength ++ " IMEI digits, expected " ++
        toString IMEI_DIGITS)
    else
      let frameLength := LENGTH_PREFIX_BYTES + declaredLength
      if buf.length < frameLength then .needMore
      else
        let imei := toAscii ((buf.drop LENGTH_PREFIX_BYTES).take declaredLength)
        if isValidImei imei then .ok imei frameLength
        else .invalid "IMEI is not 15 ASCII digits"

/-! ## `TeltonikaFramer` -/

/-- The number `maxFrameBytes`, as the framer uses it: frame lengths are compared with it, and it
is printed. Any JavaScript number is such a limit, also one that is no length. -/
structure FrameLimit where
  exceededBy : ℕ → Bool
  text : String

def FrameLimit.ofNat (n : ℕ) : FrameLimit := ⟨fun frameLength => n < frameLength, toString n⟩

def DEFAULT_MAX_FRAME_BYTES : FrameLimit := .ofNat (1024 * 1024)

inductive FramerErrorReason where
  | invalidImei
  | badPreamble
  | frameTooLarge
  | parseError
  deriving DecidableEq, Repr

inductive FramerEvent where
  | imei (imei : String)
  | packet (packet : AvlPacket)
  | error (reason : FramerErrorReason) (detail : String)

def FramerEvent.isError : FramerEvent → Bool
  | .error _ _ => true
  | _ => false

inductive FramerState where
  | awaitingImei
  | streaming
  | failed
  deriving DecidableEq, Repr

structure TeltonikaFramer where
  maxFrameBytes : FrameLimit
  buffer : Bytes
  state : FramerState

namespace TeltonikaFramer

/-- `new TeltonikaFramer({ maxFrameBytes })`. -/
def new (maxFrameBytes : Option FrameLimit) : TeltonikaFramer :=
  ⟨maxFrameBytes.getD DEFAULT_MAX_FRAME_BYTES, [], .awaitingImei⟩

def consume (f : TeltonikaFramer) (bytes : ℕ) : TeltonikaFramer :=
  { f with buffer := f.buffer.drop bytes }

def nextHandshake (f : TeltonikaFramer) : Option (FramerEvent × TeltonikaFramer) :=
  match tryParseImeiFrame f.buffer with
  | .needMore => none
  | .invalid reason => some (.error .invalidImei reason, f)
  | .ok imei bytesConsumed =>
    some (.imei imei, { f.consume bytesConsumed with state := .streaming })

def nextPacket (f : TeltonikaFramer) : Option (FramerEvent × TeltonikaFramer) :=
  if f.buffer.length < FRAME_HEADER_BYTES then none
  else
    let preamble := readUInt32BE f.buffer 0
    if preamble ≠ 0 then
      -- the stream is out of sync, and the framer gives up
      some (.error .badPreamble ("preamble 0x" ++ toString16 preamble ++ " is not zero"), f)
    else
      let dataLength := readUInt32BE f.buffer 4
      let frameLength := FRAME_HEADER_BYTES + dataLength + FRAME_CRC_BYTES
      if f.maxFrameBytes.exceededBy frameLength then
        some (.error .frameTooLarge ("frame of " ++ toString frameLength ++ " bytes exceeds the " ++
          f.maxFrameBytes.text ++ " byte limit"), f)
      else if f.buffer.length < frameLength then none
      else
        match parseAvlPacket (f.buffer.take frameLength) with
        | .ok packet => some (.packet packet, f.consume frameLength)
        | .error err => some (.error .parseError err.message, f.consume frameLength)

/-- The next event and the framer after it, or `none` while more bytes are needed. -/
def next (f : TeltonikaFramer) : Option (FramerEvent × TeltonikaFramer) :=
  if f.state = .awaitingImei then f.nextHandshake else f.nextPacket

/-- The loop of `push`. Every event but an error consumes bytes, so that a round for each byte of
the buffer and one more are enough. -/
def drain : ℕ → TeltonikaFramer → List FramerEvent × TeltonikaFramer
  | 0, f => ([], f)
  | rounds + 1, f =>
    match f.next with
    | none => ([], f)
    | some (event, f') =>
      if event.isError then ([event], { f' with state := .failed, buffer := [] })
      else (event :: (drain rounds f').1, (drain rounds f').2)

/-- Feeds a chunk of received bytes and returns every event it completed. -/
def push (f : TeltonikaFramer) (chunk : Bytes) : List FramerEvent × TeltonikaFramer :=
  if f.state = .failed then ([], f)
  else
    let f := { f with buffer := f.buffer ++ chunk }
    drain (f.buffer.length + 1) f

/-- The events of several chunks, and the framer after the last of them. -/
def feed (f : TeltonikaFramer) : List Bytes → List FramerEvent × TeltonikaFramer
  | [] => ([], f)
  | chunk :: rest =>
    ((f.push chunk).1 ++ ((f.push chunk).2.feed rest).1, ((f.push chunk).2.feed rest).2)

end TeltonikaFramer

/-! ## Reassembly -/

/-- The framer as a reassembler of bytes. -/
def framer : Reassembler TeltonikaFramer UInt8 FramerEvent where
  accept f chunk := { f with buffer := f.buffer ++ chunk }
  next := TeltonikaFramer.next
  fatal := FramerEvent.isError
  spend f := { f with state := .failed, buffer := [] }
  spent f := f.state = .failed
  size f := f.buffer.length

theorem drain_eq (rounds : ℕ) (f : TeltonikaFramer) : f.drain rounds = framer.drain rounds f := by
  induction rounds generalizing f with
  | zero => rfl
  | succ rounds ih =>
    have hnext : framer.next f = f.next := rfl
    rw [TeltonikaFramer.drain, Reassembler.drain, hnext]
    cases f.next with
    | none => rfl
    | some r =>
      simp only [ih]
      rfl

theorem push_eq (f : TeltonikaFramer) (chunk : Bytes) : f.push chunk = framer.push f chunk := by
  simp [TeltonikaFramer.push, Reassembler.push, drain_eq, framer]

theorem feed_eq (f : TeltonikaFramer) (chunks : List Bytes) :
    f.feed chunks = framer.feed f chunks := by
  induction chunks generalizing f with
  | nil => rfl
  | cons chunk rest ih => simp [TeltonikaFramer.feed, Reassembler.feed, push_eq, ih]

/-- A part of a buffer does not change when bytes arrive behind it. -/
theorem window_append {buf : Bytes} {start width : ℕ} (h : start + width ≤ buf.length)
    (more : Bytes) : ((buf ++ more).drop start).take width = (buf.drop start).take width := by
  rw [List.drop_append_of_le_length (by omega), List.take_append_of_le_length]
  rw [List.length_drop]
  omega

theorem readUInt16BE_append {buf : Bytes} {start : ℕ} (h : start + 2 ≤ buf.length)
    (more : Bytes) : readUInt16BE (buf ++ more) start = readUInt16BE buf start := by
  rw [readUInt16BE, window_append h, readUInt16BE]

theorem readUInt32BE_append {buf : Bytes} {start : ℕ} (h : start + 4 ≤ buf.length)
    (more : Bytes) : readUInt32BE (buf ++ more) start = readUInt32BE buf start := by
  rw [readUInt32BE, window_append h, readUInt32BE]

/-- A decided handshake stays decided. -/
theorem tryParseImeiFrame_append {buf : Bytes} (h : tryParseImeiFrame buf ≠ .needMore)
    (more : Bytes) : tryParseImeiFrame (buf ++ more) = tryParseImeiFrame buf := by
  unfold tryParseImeiFrame at h ⊢
  by_cases hinitial : buf.length < LENGTH_PREFIX_BYTES
  · exact absurd (if_pos hinitial) h
  have hlength : 2 ≤ buf.length := not_lt.mp hinitial
  have hread : readUInt16BE (buf ++ more) 0 = readUInt16BE buf 0 :=
    readUInt16BE_append (by omega) more
  have hinitial' : ¬ (buf ++ more).length < LENGTH_PREFIX_BYTES := by
    rw [List.length_append]
    omega
  rw [if_neg hinitial] at h ⊢
  rw [if_neg hinitial', hread]
  dsimp only at h ⊢
  split
  · rfl
  · next hdigits =>
    rw [if_neg hdigits] at h
    have hframe : ¬ buf.length < LENGTH_PREFIX_BYTES + readUInt16BE buf 0 :=
      fun hlt => h (if_pos hlt)
    have hframe' : ¬ (buf ++ more).length < LENGTH_PREFIX_BYTES + readUInt16BE buf 0 := by
      rw [List.length_append]
      omega
    rw [if_neg hframe, if_neg hframe', window_append (by omega)]

/-- An accepted handshake is a frame of 17 bytes in the buffer. -/
theorem tryParseImeiFrame_ok {buf : Bytes} {imei : String} {bytesConsumed : ℕ}
    (h : tryParseImeiFrame buf = .ok imei bytesConsumed) :
    bytesConsumed = 17 ∧ 17 ≤ buf.length ∧ isValidImei imei = true := by
  unfold tryParseImeiFrame at h
  split at h
  · cases h
  · dsimp only at h
    split at h
    · cases h
    · next hdigits =>
      rw [not_not.mp hdigits] at h
      split at h
      · cases h
      · split at h
        · next hframe hvalid =>
          cases h
          exact ⟨rfl, not_lt.mp hframe, hvalid⟩
        · cases h

namespace TeltonikaFramer

variable {f f' : TeltonikaFramer} {event : FramerEvent}

theorem nextHandshake_append (h : f.nextHandshake = some (event, f')) (more : Bytes) :
    nextHandshake { f with buffer := f.buffer ++ more } =
      some (event, { f' with buffer := f'.buffer ++ more }) := by
  unfold nextHandshake at h ⊢
  have hdecided : tryParseImeiFrame f.buffer ≠ .needMore := by
    intro hneed
    simp [hneed] at h
  rw [tryParseImeiFrame_append hdecided]
  cases hparse : tryParseImeiFrame f.buffer with
  | needMore => exact absurd hparse hdecided
  | invalid reason =>
    rw [hparse] at h
    cases h
    rfl
  | ok imei bytesConsumed =>
    rw [hparse] at h
    cases h
    obtain ⟨rfl, hlength, -⟩ := tryParseImeiFrame_ok hparse
    simp [consume, List.drop_append_of_le_length hlength]

theorem nextPacket_append (h : f.nextPacket = some (event, f')) (more : Bytes) :
    nextPacket { f with buffer := f.buffer ++ more } =
      some (event, { f' with buffer := f'.buffer ++ more }) := by
  unfold nextPacket at h ⊢
  by_cases hheader : f.buffer.length < FRAME_HEADER_BYTES
  · simp [hheader] at h
  have hheader' : ¬ (f.buffer ++ more).length < FRAME_HEADER_BYTES := by
    rw [List.length_append]
    omega
  have hlength : 8 ≤ f.buffer.length := not_lt.mp hheader
  rw [if_neg hheader] at h
  rw [if_neg hheader', readUInt32BE_append (by omega), readUInt32BE_append (by omega)]
  dsimp only at h ⊢
  split
  · next hpreamble =>
    rw [if_pos hpreamble] at h
    cases h
    rfl
  · next hpreamble =>
    rw [if_neg hpreamble] at h
    split
    · next hlarge =>
      rw [if_pos hlarge] at h
      cases h
      rfl
    · next hlarge =>
      rw [if_neg hlarge] at h
      set frameLength := FRAME_HEADER_BYTES + readUInt32BE f.buffer 4 + FRAME_CRC_BYTES
      by_cases hframe : f.buffer.length < frameLength
      · simp [hframe] at h
      have hframe' : ¬ (f.buffer ++ more).length < frameLength := by
        rw [List.length_append]
        omega
      rw [if_neg hframe] at h
      rw [if_neg hframe', List.take_append_of_le_length (not_lt.mp hframe)]
      have hconsume : consume { f with buffer := f.buffer ++ more } frameLength =
          { f.consume frameLength with buffer := (f.consume frameLength).buffer ++ more } := by
        simp [consume, List.drop_append_of_le_length (not_lt.mp hframe)]
      cases hparse : parseAvlPacket (f.buffer.take frameLength) with
      | ok packet =>
        rw [hparse] at h
        cases h
        rw [hconsume]
      | error err =>
        rw [hparse] at h
        cases h
        rw [hconsume]

/-- More bytes change nothing about an event that is due without them. -/
theorem next_append (h : f.next = some (event, f')) (more : Bytes) :
    next { f with buffer := f.buffer ++ more } =
      some (event, { f' with buffer := f'.buffer ++ more }) := by
  unfold next at h ⊢
  dsimp only
  split
  · next hstate =>
    rw [if_pos hstate] at h
    exact nextHandshake_append h more
  · next hstate =>
    rw [if_neg hstate] at h
    exact nextPacket_append h more

/-- What a framer that waits for the handshake does. -/
theorem nextHandshake_cases (h : f.nextHandshake = some (event, f')) :
    (∃ detail, event = .error .invalidImei detail ∧ f' = f) ∨
      ∃ imei, event = .imei imei ∧ isValidImei imei = true ∧ 17 ≤ f.buffer.length ∧
        f' = { f.consume 17 with state := .streaming } := by
  unfold nextHandshake at h
  split at h
  · cases h
  · cases h
    exact .inl ⟨_, rfl, rfl⟩
  · next imei bytesConsumed hparse =>
    cases h
    obtain ⟨rfl, hlength, hvalid⟩ := tryParseImeiFrame_ok hparse
    exact .inr ⟨imei, rfl, hvalid, hlength, rfl⟩

/-- What a framer in the stream does: it fails, or it takes one frame. -/
theorem nextPacket_cases (h : f.nextPacket = some (event, f')) :
    (∃ reason detail, event = .error reason detail ∧ f'.maxFrameBytes = f.maxFrameBytes) ∨
      ∃ packet frameLength, event = .packet packet ∧ 12 ≤ frameLength ∧
        frameLength ≤ f.buffer.length ∧ parseAvlPacket (f.buffer.take frameLength) = .ok packet ∧
        f' = f.consume frameLength := by
  unfold nextPacket at h
  dsimp only at h
  split at h
  · cases h
  split at h
  · cases h
    exact .inl ⟨_, _, rfl, rfl⟩
  split at h
  · cases h
    exact .inl ⟨_, _, rfl, rfl⟩
  split at h
  · cases h
  next hframe =>
  split at h
  · next packet hparse =>
    cases h
    refine .inr ⟨packet, _, rfl, ?_, not_lt.mp hframe, hparse, rfl⟩
    simp only [FRAME_HEADER_BYTES, FRAME_CRC_BYTES]
    omega
  · cases h
    exact .inl ⟨_, _, rfl, rfl⟩

/-- Every event that is no error uses up a frame of at least 12 bytes, and the framer goes on. -/
theorem next_consumes (h : f.next = some (event, f')) (hevent : event.isError = false) :
    ∃ n, 12 ≤ n ∧ n ≤ f.buffer.length ∧ f'.buffer = f.buffer.drop n ∧
      (f'.state = .failed ↔ f.state = .failed) := by
  unfold next at h
  split at h
  next hstate =>
    obtain ⟨detail, rfl, -⟩ | ⟨imei, rfl, -, hlength, rfl⟩ := nextHandshake_cases h
    · cases hevent
    · exact ⟨17, by omega, hlength, rfl, by simp [hstate]⟩
  next hstate =>
    obtain ⟨reason, detail, rfl, -⟩ | ⟨packet, frameLength, rfl, hframe, hlength, -, rfl⟩ :=
      nextPacket_cases h
    · cases hevent
    · exact ⟨frameLength, hframe, hlength, rfl, Iff.rfl⟩

theorem next_progress (h : f.next = some (event, f')) (hevent : event.isError = false) :
    f'.buffer.length < f.buffer.length ∧ (f'.state = .failed ↔ f.state = .failed) := by
  obtain ⟨n, hn, hlength, hbuffer, hstate⟩ := next_consumes h hevent
  rw [hbuffer, List.length_drop]
  exact ⟨by omega, hstate⟩

end TeltonikaFramer

/-- The framer decides nothing that more bytes could change. -/
theorem framer_lawful : framer.Lawful where
  accept_nil f := by simp [framer]
  accept_append f xs ys := by simp [framer]
  spent_accept f xs := rfl
  next_accept f event f' xs h := TeltonikaFramer.next_append h xs
  size_next f event f' h hevent := (TeltonikaFramer.next_progress h hevent).1
  spent_next f event f' h hevent := by
    have := (TeltonikaFramer.next_progress h hevent).2
    simpa [framer] using this
  spent_spend f := by simp [framer]
  spend_accept f xs := rfl

/-- A framer that has received nothing waits for bytes. -/
theorem new_settled (maxFrameBytes : Option FrameLimit) :
    framer.Settled (TeltonikaFramer.new maxFrameBytes) :=
  .inr rfl

/-- The loop of `push` ends because the framer needs more bytes or has failed, never because its
rounds are used up. -/
theorem settled_push (f : TeltonikaFramer) (chunk : Bytes) :
    (f.push chunk).2.state = .failed ∨ (f.push chunk).2.next = none := by
  rw [push_eq]
  have hsettled := framer_lawful.settled_push f chunk
  simpa [Reassembler.Settled, framer] using hsettled

/-- However a stream is cut into chunks, the framer emits the same events and ends in the same
state with the same bytes left over. -/
theorem feed_chunks (maxFrameBytes : Option FrameLimit) (chunks chunks' : List Bytes)
    (h : chunks.flatten = chunks'.flatten) :
    (TeltonikaFramer.new maxFrameBytes).feed chunks =
      (TeltonikaFramer.new maxFrameBytes).feed chunks' := by
  have hsettled := new_settled maxFrameBytes
  rw [feed_eq, feed_eq, framer_lawful.feed_eq_push hsettled, framer_lawful.feed_eq_push hsettled, h]

/-- A handshake in two pieces, and byte by byte with an empty chunk. -/
theorem feed_chunks_handshake :
    ((TeltonikaFramer.new none).feed
      [[0, 15, 51, 53, 54, 51, 48, 55], [48, 52, 50, 52, 52, 49, 48, 49, 51, 0]]).2.buffer = [0] ∧
    (TeltonikaFramer.new none).feed
      [[0, 15, 51, 53, 54, 51, 48, 55], [48, 52, 50, 52, 52, 49, 48, 49, 51, 0]] =
    (TeltonikaFramer.new none).feed
      [[0], [], [15], [51], [53], [54], [51], [48], [55], [48], [52], [50], [52], [52], [49], [48],
        [49], [51], [0]] :=
  ⟨by decide, feed_chunks none _ _ (by decide)⟩

end BankPlatform.Teltonika
