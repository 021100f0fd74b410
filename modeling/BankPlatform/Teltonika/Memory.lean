import BankPlatform.Library.NumberValue
import BankPlatform.Teltonika.Handshake
import BankPlatform.Teltonika.Stream

/-!
# The memory of the framer

What the framer keeps between two chunks: less than a handshake frame at first, later less than the
limit of a frame, and nothing once it has failed. The decision to wait for more bytes is taken under
the check of the size, so a large length field does not make the buffer grow.

## Main results

* `next_consumes` — every event that is no error uses up a frame.
* `framer_bounded` — the bounds after any chunks.
-/

namespace BankPlatform.Teltonika

open Library

/-- The limit of a number with its text. -/
def FrameLimit.ofNumber (maxFrameBytes : NumberValue) (text : String) : FrameLimit where
  exceededBy frameLength := maxFrameBytes.less (.ofNat frameLength)
  text := text

/-- `new TeltonikaFramer({ maxFrameBytes })` with a number that may be left out. -/
def framerWith (maxFrameBytes : Option NumberValue) (text : String) : TeltonikaFramer :=
  .new (maxFrameBytes.map fun m => .ofNumber m text)

/-- The number that the framer uses. -/
def effectiveLimit (maxFrameBytes : Option NumberValue) : NumberValue :=
  maxFrameBytes.getD (.ofNat (1024 * 1024))

/-- `length < Math.max(8, maxFrameBytes)`. -/
def ShorterThanLimit (length : ℕ) (maxFrameBytes : NumberValue) : Prop :=
  NumberValue.less (.ofNat length) (.larger (.ofNat 8) maxFrameBytes) = true

theorem exceededBy_framerWith (maxFrameBytes : Option NumberValue) (text : String)
    (frameLength : ℕ) : (framerWith maxFrameBytes text).maxFrameBytes.exceededBy frameLength =
      (effectiveLimit maxFrameBytes).less (.ofNat frameLength) := by
  cases maxFrameBytes with
  | none => exact NumberValue.less_ofNat.symm
  | some m => rfl

namespace TeltonikaFramer

variable {f f' : TeltonikaFramer} {event : FramerEvent}

theorem next_limit (h : f.next = some (event, f')) : f'.maxFrameBytes = f.maxFrameBytes := by
  unfold next at h
  split at h
  · obtain ⟨detail, -, rfl⟩ | ⟨imei, -, -, -, rfl⟩ := nextHandshake_cases h
    · rfl
    · rfl
  · obtain ⟨reason, detail, -, hlimit⟩ | ⟨packet, frameLength, -, -, -, -, rfl⟩ :=
      nextPacket_cases h
    · exact hlimit
    · rfl

/-- A framer that waits for the handshake has less than a frame. -/
theorem length_of_nextHandshake_none (h : f.nextHandshake = none) : f.buffer.length < 17 := by
  unfold nextHandshake at h
  split at h
  · next hparse =>
    rcases tryParseImeiFrame_eq_needMore.mp hparse with hshort | ⟨-, hshort⟩ <;> omega
  · cases h
  · cases h

/-- A framer that waits in the stream has less than a frame of a permitted size. -/
theorem length_of_nextPacket_none (h : f.nextPacket = none) : f.buffer.length < 8 ∨
    ∃ frameLength, f.buffer.length < frameLength ∧
      f.maxFrameBytes.exceededBy frameLength = false := by
  unfold nextPacket at h
  dsimp only at h
  split at h
  · next hheader => exact .inl hheader
  split at h
  · cases h
  split at h
  · cases h
  next hpermitted =>
  split at h
  · next hframe => exact .inr ⟨_, hframe, Bool.eq_false_of_not_eq_true hpermitted⟩
  · split at h <;> cases h

end TeltonikaFramer

/-- What holds of a framer whatever it has received. -/
structure Kept (limit : FrameLimit) (f : TeltonikaFramer) : Prop where
  limit : f.maxFrameBytes = limit
  failed : f.state = .failed → f.buffer = []

theorem preserves_kept (limit : FrameLimit) : framer.Preserves (Kept limit) where
  emit f event f' hkept hnext hevent := by
    obtain ⟨n, -, -, hbuffer, hstate⟩ := TeltonikaFramer.next_consumes hnext hevent
    refine ⟨(TeltonikaFramer.next_limit hnext).trans hkept.limit, fun hfailed => ?_⟩
    rw [hbuffer, hkept.failed (hstate.mp hfailed), List.drop_nil]
  spend f event f' hkept hnext _ :=
    ⟨(TeltonikaFramer.next_limit hnext).trans hkept.limit, fun _ => rfl⟩

theorem kept_feed (maxFrameBytes : Option FrameLimit) (chunks : List Bytes) :
    Kept (maxFrameBytes.getD DEFAULT_MAX_FRAME_BYTES)
      ((TeltonikaFramer.new maxFrameBytes).feed chunks).2 := by
  rw [feed_eq]
  have hnew : Kept (maxFrameBytes.getD DEFAULT_MAX_FRAME_BYTES)
      (TeltonikaFramer.new maxFrameBytes) := ⟨rfl, fun _ => rfl⟩
  refine Reassembler.feed_invariant (preserves_kept _) (fun f chunk hkept hspent => ?_) hnew chunks
  refine ⟨hkept.limit, fun hfailed => ?_⟩
  have hstate : f.state = .failed := hfailed
  simp [framer, hstate] at hspent

theorem settled_feed (maxFrameBytes : Option FrameLimit) (chunks : List Bytes) :
    ((TeltonikaFramer.new maxFrameBytes).feed chunks).2.state = .failed ∨
      ((TeltonikaFramer.new maxFrameBytes).feed chunks).2.next = none := by
  rw [feed_eq, framer_lawful.feed_eq_push (new_settled maxFrameBytes), ← push_eq]
  exact settled_push _ _

/-- The bounds on the memory of a framer and on its events after `received` bytes. -/
structure MemoryBounded (maxFrameBytes : NumberValue) (received : ℕ) (events : List FramerEvent)
    (f : TeltonikaFramer) : Prop where
  terminated : f.state = .failed ∨ f.next = none
  awaiting : f.state = .awaitingImei → f.buffer.length < 17
  streaming : f.state = .streaming → maxFrameBytes ≠ none →
    ShorterThanLimit f.buffer.length maxFrameBytes
  failed : f.state = .failed → f.buffer = []
  consumed : 12 * (events.countP fun event => !event.isError) + f.buffer.length ≤ received
  conversation : Conversation events

theorem length_of_streaming {f : TeltonikaFramer} {maxFrameBytes : Option NumberValue}
    {text : String} (hlimit : f.maxFrameBytes = (framerWith maxFrameBytes text).maxFrameBytes)
    (hnext : f.nextPacket = none) (hnumber : effectiveLimit maxFrameBytes ≠ none) :
    ShorterThanLimit f.buffer.length (effectiveLimit maxFrameBytes) := by
  rcases TeltonikaFramer.length_of_nextPacket_none hnext with hheader | ⟨n, hframe, hpermitted⟩
  · exact NumberValue.less_larger_left hnumber
      (NumberValue.less_ofNat.trans (decide_eq_true hheader))
  · rw [hlimit, exceededBy_framerWith] at hpermitted
    exact NumberValue.less_larger_right (Option.some_ne_none _) hnumber
      (NumberValue.less_ofNat.trans (decide_eq_true hframe)) hpermitted

theorem consumed_feed (maxFrameBytes : Option FrameLimit) (chunks : List Bytes) :
    12 * (((TeltonikaFramer.new maxFrameBytes).feed chunks).1.countP fun event => !event.isError) +
      ((TeltonikaFramer.new maxFrameBytes).feed chunks).2.buffer.length ≤
        chunks.flatten.length := by
  have hcost : ∀ f event f', framer.next f = some (event, f') → framer.fatal event = false →
      framer.size f' + 12 ≤ framer.size f := by
    intro f event f' hnext hevent
    obtain ⟨n, hn, hlength, hbuffer, -⟩ := TeltonikaFramer.next_consumes hnext hevent
    change f'.buffer.length + 12 ≤ f.buffer.length
    rw [hbuffer, List.length_drop]
    omega
  rw [feed_eq, framer_lawful.feed_eq_push (new_settled maxFrameBytes)]
  exact Reassembler.length_drain_le hcost (fun _ => rfl) _ _

/-- After any chunks the bounds hold, as far as the limit is not `NaN`; and every event that is no
error takes at least 12 bytes from the buffer. -/
theorem framer_bounded (maxFrameBytes : Option NumberValue) (text : String)
    (chunks : List Bytes) :
    MemoryBounded (effectiveLimit maxFrameBytes) chunks.flatten.length
        ((framerWith maxFrameBytes text).feed chunks).1
        ((framerWith maxFrameBytes text).feed chunks).2 ∧
      ∀ (f f' : TeltonikaFramer) (event : FramerEvent), f.next = some (event, f') →
        event.isError = false →
        ∃ n, 12 ≤ n ∧ n ≤ f.buffer.length ∧ f'.buffer = f.buffer.drop n := by
  have hkept := kept_feed (maxFrameBytes.map fun m => .ofNumber m text) chunks
  have hsettled := settled_feed (maxFrameBytes.map fun m => .ofNumber m text) chunks
  refine ⟨⟨hsettled, fun hstate => ?_, fun hstate hnumber => ?_, hkept.failed,
    consumed_feed _ chunks, ?_⟩, fun f f' event hnext hevent => ?_⟩
  · have hnext := hsettled.resolve_left (by rw [← framerWith, hstate]; decide)
    rw [← framerWith, TeltonikaFramer.next, hstate, if_pos rfl] at hnext
    exact TeltonikaFramer.length_of_nextHandshake_none hnext
  · have hnext := hsettled.resolve_left (by rw [← framerWith, hstate]; decide)
    refine length_of_streaming hkept.limit ?_ hnumber
    rw [← framerWith, TeltonikaFramer.next, hstate, if_neg (by decide)] at hnext
    exact hnext
  · rw [framerWith, feed_eq, framer_lawful.feed_eq_push (new_settled _), ← push_eq]
    exact conversation_push _ _
  · obtain ⟨n, hn, hlength, hbuffer, -⟩ := TeltonikaFramer.next_consumes hnext hevent
    exact ⟨n, hn, hlength, hbuffer⟩

/-- The handshake of a device and a part of a header. -/
def handshakeStream : Bytes :=
  [0, 15, 51, 53, 54, 51, 48, 55, 48, 52, 50, 52, 52, 49, 48, 49, 51, 0, 0, 0, 0]

theorem framer_bounded_handshake :
    ((framerWith (some (NumberValue.ofNat 512)) "512").feed [handshakeStream]).2.state =
        .streaming ∧
      ShorterThanLimit
        ((framerWith (some (NumberValue.ofNat 512)) "512").feed [handshakeStream]).2.buffer.length
        (NumberValue.ofNat 512) := by
  have hstate : ((framerWith (some (NumberValue.ofNat 512)) "512").feed
      [handshakeStream]).2.state = .streaming := by decide
  obtain ⟨hbounded, -⟩ := framer_bounded (some (NumberValue.ofNat 512)) "512" [handshakeStream]
  exact ⟨hstate, hbounded.streaming hstate (Option.some_ne_none _)⟩

/-- The handshake, and the header of a frame of 4 GiB with the first of its bytes. -/
def hugeFrameStream : Bytes :=
  handshakeStream ++ [255, 255, 255, 255] ++ List.replicate 12 0

/-- With `NaN` as the limit no frame is too large, and the buffer keeps all that arrives. -/
theorem nan_limit_keeps :
    ((framerWith (some none) "NaN").feed [hugeFrameStream]).2.state = .streaming ∧
      ((framerWith (some none) "NaN").feed [hugeFrameStream]).2.buffer.length = 20 ∧
      ¬ ShorterThanLimit
        ((framerWith (some none) "NaN").feed [hugeFrameStream]).2.buffer.length none := by
  exact ⟨by decide, by decide, Bool.false_ne_true⟩

end BankPlatform.Teltonika
