import BankPlatform.Telemetry.Ingest

/-!
# How packets end

What becomes of every packet that a device sends, whatever else its stream holds. The one way out
is a record with a time stamp beyond the range of `Date`: `buildTelemetryEvents` is called outside
the `try` of `handlePacket`, so `handleChunk` rejects, and the process ends.

## Main definitions

* `Answered` — the handling of every packet has ended in one of three ways, or is under way.
* `sends` — the devices send their streams, cut into chunks somehow.

## Main results

* `answers_iff` — the packets of all devices are answered exactly if no time stamp is too large.
-/

namespace BankPlatform.Telemetry

open Library Teltonika

/-! ## Endings -/

/-- The packets that are being handled or come after. -/
def DataHandler.underWay : DataHandler → List AvlPacket
  | .idle => []
  | .handling events => packetsOf events
  | .publishing packet events => packet :: packetsOf events

inductive Ending where
  | refused
  | stored
  | dropped

/-- How the handling of the packet at a position ends. -/
def EndsIn (l : Connection) (position : ℕ) (packet : AvlPacket) : Ending → Prop
  | .refused => packet.crcRight = false ∧ l.recordAcks[position]? = some 0
  | .stored => packet.crcRight = true ∧ l.recordAcks[position]? = some packet.records.length ∧
      ∃ call ∈ l.calls, call.settlement = .resolved ∧ Carries packet call.payload
  | .dropped => l.recordAcks[position]? = none ∧ (l.destroyed || l.ended) = true

/-- Every packet that is not under way any more has ended in exactly one way. -/
def Answered (l : Connection) : Prop :=
  ∀ position packet, (packetsOf l.produced)[position]? = some packet →
    position + l.handler.underWay.length < (packetsOf l.produced).length →
      ∃! ending, EndsIn l position packet ending

variable {running : Bool} {l l' : Connection} {r : PacketReceiver}

theorem endsIn_unique {position : ℕ} {packet : AvlPacket} {ending ending' : Ending}
    (h : EndsIn l position packet ending) (h' : EndsIn l position packet ending') :
    ending = ending' := by
  have hright (h : packet.crcRight = false) (h' : packet.crcRight = true) : False := by
    rw [h] at h'
    cases h'
  have hacked {count : ℕ} (h : l.recordAcks[position]? = none)
      (h' : l.recordAcks[position]? = some count) : False := by
    rw [h] at h'
    cases h'
  cases ending with
  | refused =>
    cases ending' with
    | refused => rfl
    | stored => exact (hright h.1 h'.1).elim
    | dropped => exact (hacked h'.1 h.2).elim
  | stored =>
    cases ending' with
    | refused => exact (hright h'.1 h.1).elim
    | stored => rfl
    | dropped => exact (hacked h'.1 h.2.1).elim
  | dropped =>
    cases ending' with
    | refused => exact (hacked h.1 h'.2).elim
    | stored => exact (hacked h.1 h'.2.1).elim
    | dropped => rfl

/-- Among the calls for some packets is one for each packet with a right checksum. -/
theorem exists_stored {packets : List AvlPacket} {calls : List (Call (List TelemetryEvent))}
    (h : List.Forall₂ protocol.Stored (packets.filter protocol.stores) calls) {packet : AvlPacket}
    (hmem : packet ∈ packets) (hright : packet.crcRight = true) :
    ∃ call ∈ calls, call.settlement = .resolved ∧ Carries packet call.payload := by
  have hfilter : packet ∈ packets.filter protocol.stores := List.mem_filter.mpr ⟨hmem, hright⟩
  generalize packets.filter protocol.stores = jobs at h hfilter
  induction h with
  | nil => cases hfilter
  | @cons job call _ _ hstored _ ih =>
    rcases List.mem_cons.mp hfilter with rfl | hfilter
    · exact ⟨call, List.mem_cons_self, hstored.2, hstored.1⟩
    · obtain ⟨call', hcall', hends⟩ := ih hfilter
      exact ⟨call', List.mem_cons_of_mem _ hcall', hends⟩

/-- While the process runs and the socket is open, every packet that is not under way is
acknowledged. -/
theorem Serves.acked_of_open (h : Serves true l r) (hopen : (l.destroyed || l.ended) = false) :
    (packetsOf l.produced).length ≤ r.acked.length + l.handler.underWay.length := by
  obtain ⟨hdestroyed, hended⟩ := Bool.or_eq_false_iff.mp hopen
  obtain ⟨done, hdone, _, hrest⟩ := h.taken
  obtain ⟨answered, settled, hprogress⟩ := h.steps.progress
  have hacked : r.acked = answered := hprogress.line (by rw [h.line, hopen]; rfl)
  have hphase := h.phase
  have hbeyond := hprogress.beyond
  rw [hrest rfl hdestroyed, packetsOf_append, hdone, hacked]
  cases hhandler : l.handler with
  | idle =>
    rw [hhandler] at hphase
    rw [hphase hdestroyed] at hbeyond
    simp [hbeyond.1, DataHandler.rest, DataHandler.underWay]
  | handling events =>
    rw [hhandler] at hphase
    rw [hphase hdestroyed] at hbeyond
    simp [hbeyond.1, DataHandler.rest, DataHandler.underWay]
  | publishing packet events =>
    rw [hhandler] at hphase
    rw [hphase] at hbeyond
    obtain ⟨call, htaken, _⟩ := hbeyond
    simp only [htaken, DataHandler.rest, DataHandler.underWay, List.length_append, List.length_cons,
      List.length_nil]
    omega

/-- While the process runs, every packet is answered or under way. -/
theorem Serves.answered (h : Serves true l r) : Answered l := by
  intro position packet hpacket hhandled
  suffices hends : ∃ ending, EndsIn l position packet ending by
    obtain ⟨ending, hending⟩ := hends
    exact ⟨ending, hending, fun _ hother => endsIn_unique hother hending⟩
  by_cases hposition : position < r.acked.length
  · -- the packet is acknowledged
    obtain ⟨later, stored, others, htaken, hcalls, hstored, _⟩ := StopAndWait.durable h.steps
    obtain ⟨done, hdone, hinitial, _⟩ := h.taken
    have hproduced : r.acked <+: packetsOf l.produced :=
      (htaken ▸ List.prefix_append r.acked later).trans
        (hdone ▸ hinitial.filterMap FramerEvent.packet?)
    have hget : r.acked[position]? = some packet := by
      rw [← hpacket, List.prefix_iff_getElem?.mp hproduced position hposition,
        List.getElem?_eq_getElem hposition]
    have hack : l.recordAcks[position]? = some (ackCount packet) := by
      rw [h.acked, List.getElem?_map, hget, Option.map_some]
    cases hright : packet.crcRight with
    | false =>
      refine ⟨.refused, hright, ?_⟩
      rw [hack]
      cases packet with
      | crcOk codec records => cases hright
      | crcFailed declaredCrc computedCrc => rfl
    | true =>
      obtain ⟨call, hcall, hresolved, hcarries⟩ :=
        exists_stored hstored (List.mem_of_getElem? hget) hright
      refine ⟨.stored, hright, ?_, call, ?_, hresolved, hcarries⟩
      · rw [hack, ackCount_eq]
      · rw [← h.calls, hcalls]
        exact List.mem_append_left _ hcall
  · refine ⟨.dropped, ?_, ?_⟩
    · rw [h.acked, List.getElem?_map, List.getElem?_eq_none (not_lt.mp hposition), Option.map_none]
    · by_contra hopen
      have := h.acked_of_open (by simpa using hopen)
      omega

/-! ## Streams -/

/-- Every date of a packet is within the range of `Date`. -/
def Datable (packet : AvlPacket) : Prop :=
  ∀ record ∈ packet.records, record.timestampMs ≤ JsDate.maxTime

/-- Nothing but data adds to what has been received. -/
theorem received_handlePacket {packet : AvlPacket} {rest : List FramerEvent} {now : JsDate}
    (h : l.handlePacket packet rest now = .ok l') : l'.received = l.received := by
  unfold Connection.handlePacket at h
  split at h
  · cases h
    rfl
  · split at h
    · cases hack : buildRecordAck 0 with
      | error err =>
        rw [hack] at h
        cases h
      | ok ack =>
        rw [hack] at h
        cases h
        rfl
    · next codec records =>
      cases hbuild : buildTelemetryEvents (l.imei.getD "") codec records now with
      | error err =>
        rw [hbuild] at h
        cases h
      | ok events =>
        rw [hbuild] at h
        cases h
        rfl

theorem received_published {packet : AvlPacket} {rest : List FramerEvent} {settlement : Settlement}
    (h : l.published packet rest settlement = some (.ok l')) : l'.received = l.received := by
  cases settlement with
  | pending => cases h
  | resolved =>
    have hack := Option.some.inj h
    cases hbuilt : buildRecordAck packet.records.length with
    | error err =>
      rw [hbuilt] at hack
      cases hack
    | ok ack =>
      rw [hbuilt] at hack
      cases hack
      rfl
  | rejected =>
    cases h
    rfl

theorem received_proceed {now : JsDate} (h : l.proceed now = some (.ok l')) :
    l'.received = l.received := by
  unfold Connection.proceed at h
  split at h
  · cases h
  · cases h
    rfl
  · next event rest _ =>
    split at h
    · cases h
      rfl
    · have hevent := Option.some.inj h
      cases event with
      | imei imei =>
        cases hevent
        rfl
      | packet packet => exact received_handlePacket hevent
      | error reason detail =>
        cases hevent
        simp only [Connection.goOn, Connection.destroy]
        split <;> rfl
  · obtain ⟨call, _, hpublished⟩ := Option.bind_eq_some_iff.mp h
    exact received_published hpublished

section Runs

variable {Pid : Type} {c : Config Pid Bool Connection} {i : Pid}

/-- The devices send no more than their streams. -/
def sends (streams : Pid → Bytes) : Interleaving.Guard Pid Bool Connection IngestLabel :=
  fun c i label => ∀ chunk, label = .data chunk → (c.locals i).received ++ chunk <+: streams i

theorem received_step {streams : Pid → Bytes} {label : IngestLabel} {running' : Bool}
    (hsends : sends streams c i label) (hreceived : (c.locals i).received <+: streams i)
    (hstep : ingestStep c.shared (c.locals i) label = some (running', l')) :
    l'.received <+: streams i := by
  have hsame (h : l'.received = (c.locals i).received) : l'.received <+: streams i := by
    rw [h]
    exact hreceived
  unfold ingestStep at hstep
  split at hstep
  · cases hstep
  · cases label with
    | data chunk =>
      obtain ⟨d, hd, heq⟩ := Option.map_eq_some_iff.mp hstep
      cases heq
      unfold Connection.data at hd
      split at hd
      · cases hd
      · cases hd
        exact hsends chunk rfl
    | proceed now =>
      obtain ⟨result, hresult, heq⟩ := Option.map_eq_some_iff.mp hstep
      cases result with
      | ok d =>
        cases heq
        exact hsame (received_proceed hresult)
      | error err =>
        cases heq
        exact hsame rfl
    | settle settlement =>
      obtain ⟨d, hd, heq⟩ := Option.map_eq_some_iff.mp hstep
      cases heq
      unfold Connection.settle at hd
      split at hd
      · cases hd
        exact hsame rfl
      · cases hd
    | destroy =>
      cases hstep
      exact hsame rfl
    | hangUp =>
      cases hstep
      exact hsame rfl

/-- The handler has come to these events, with the handshake done. -/
structure Streaming (c : Config Pid Bool Connection) (i : Pid) (events : List FramerEvent) :
    Prop where
  shared : c.shared = true
  handler : (c.locals i).handler = .handling events
  destroyed : (c.locals i).destroyed = false
  imei : (c.locals i).imei.getD "" ≠ ""

theorem Streaming.proceed {packet : AvlPacket} {rest : List FramerEvent}
    (h : Streaming c i (.packet packet :: rest)) :
    ingestStep c.shared (c.locals i) (.proceed 0) =
      some (match (c.locals i).handlePacket packet rest (some 0) with
        | .ok l' => (true, l')
        | .error _ => (false, (c.locals i).finish)) := by
  rw [ingestStep, h.shared, if_neg (by decide)]
  simp only [Connection.proceed, h.handler, h.destroyed, Bool.false_eq_true, if_false]
  rfl

variable [DecidableEq Pid]

/-- The process runs while no packet has a date that is too large. -/
theorem runs_of_datable {streams : Pid → Bytes}
    (hdatable : ∀ i, ∀ packet ∈ packetsOf (framed (streams i)), Datable packet)
    (h : (ingest Pid).Run (sends streams) (listening Pid) c) :
    c.shared = true ∧ ∀ i, (c.locals i).received <+: streams i := by
  refine h.invariant (fun c => ∀ i, ∃ r, Serves c.shared (c.locals i) r)
    (fun c => c.shared = true ∧ ∀ i, (c.locals i).received <+: streams i) ?_ ?_ ?_
  · intro c hrun i
    obtain ⟨r, _, hserves⟩ := serves_run hrun.any i serves_accepted
    exact ⟨r, hserves⟩
  · exact ⟨rfl, fun i => List.nil_prefix⟩
  · rintro c i label c' hserves ⟨hshared, hreceived⟩ hsends hmove
    obtain ⟨running', l', hstep, rfl⟩ := Interleaving.move_eq_some.mp hmove
    refine ⟨?_, fun j => ?_⟩
    · obtain ⟨_, ⟨hrunning, _⟩ | ⟨_, _, now, err, hthrows⟩⟩ := ingestStep_eq_some hstep
      · exact hrunning
      · -- the packet that `handleChunk` rejects at was framed
        obtain ⟨r, hr⟩ := hserves i
        rw [hshared] at hr
        obtain ⟨_, hopen, codec, records, rest, hhandler, hlate⟩ := serves_proceed hr hthrows
        obtain ⟨done, _, _, hrest⟩ := hr.taken
        have hproduced := hrest rfl hopen
        rw [hhandler, hr.produced] at hproduced
        have hmem : .crcOk codec records ∈ packetsOf (framed (c.locals i).received) := by
          rw [hproduced, packetsOf_append]
          exact List.mem_append_right _ List.mem_cons_self
        have hinitial := (framed_initial (hreceived i)).filterMap FramerEvent.packet?
        exact absurd (hdatable i _ (hinitial.subset hmem)) hlate
    · by_cases hj : j = i
      · subst hj
        simpa using received_step hsends (hreceived j) hstep
      · simpa [Function.update_of_ne hj] using hreceived j

/-! ## The way out -/

/-- One more step of a connection. -/
theorem run_step (streams : Pid → Bytes) {label : IngestLabel} {running' : Bool}
    (hsends : sends streams c i label)
    (hstep : ingestStep c.shared (c.locals i) label = some (running', l')) :
    ∃ c', (ingest Pid).Run (sends streams) c c' ∧ c'.shared = running' ∧ c'.locals i = l' :=
  ⟨⟨running', Function.update c.locals i l'⟩,
    .step .refl hsends
      (Interleaving.move_eq_some.mpr ⟨running', l', hstep, rfl⟩),
    rfl, Function.update_self _ _ _⟩

/-- A packet whose dates are all within range can be answered. -/
theorem Streaming.answer (streams : Pid → Bytes) {packet : AvlPacket} {rest : List FramerEvent}
    (h : Streaming c i (.packet packet :: rest)) (hlength : packet.records.length < 2 ^ 8)
    (hdatable : Datable packet) :
    ∃ c', (ingest Pid).Run (sends streams) c c' ∧ Streaming c' i rest := by
  cases packet with
  | crcFailed declaredCrc computedCrc =>
    have hstep : ingestStep c.shared (c.locals i) (.proceed 0) =
        some (true, ((c.locals i).write (BigEndian.encode 4 0)).goOn rest) := by
      rw [h.proceed, Connection.handlePacket, if_neg h.imei]
      rfl
    obtain ⟨c', hrun, hshared, hlocal⟩ := run_step streams (by simp [sends]) hstep
    exact ⟨c', hrun, hshared, by rw [hlocal]; rfl, by rw [hlocal]; exact h.destroyed,
      by rw [hlocal]; exact h.imei⟩
  | crcOk codec records =>
    -- published, resolved, acknowledged
    have hbuild := (buildTelemetryEvents_eq_ok ((c.locals i).imei.getD "") codec 0 records).1 hdatable
    generalize (records.zipIdx.map fun r => builtEvent _ codec 0 r.1 r.2) = events at hbuild
    have hpublish : ingestStep c.shared (c.locals i) (.proceed 0) = some (true, { c.locals i with
        calls := (c.locals i).calls ++ [⟨events, .pending⟩]
        handler := .publishing (.crcOk codec records) rest }) := by
      rw [h.proceed, Connection.handlePacket, if_neg h.imei]
      simp only [hbuild]
      rfl
    obtain ⟨c₁, hrun₁, hshared₁, hlocal₁⟩ := run_step streams (by simp [sends]) hpublish
    have hsettle : ingestStep c₁.shared (c₁.locals i) (.settle .resolved) =
        some (true, { c₁.locals i with
          calls := (c.locals i).calls ++ [⟨events, .resolved⟩] }) := by
      rw [ingestStep, hshared₁, if_neg (by decide)]
      simp [Connection.settle, hlocal₁]
    obtain ⟨c₂, hrun₂, hshared₂, hlocal₂⟩ := run_step streams (by simp [sends]) hsettle
    have hack : ingestStep c₂.shared (c₂.locals i) (.proceed 0) =
        some (true, ((c₂.locals i).write (BigEndian.encode 4 records.length)).goOn rest) := by
      have hok : buildRecordAck (AvlPacket.crcOk codec records).records.length =
          .ok (BigEndian.encode 4 records.length) := buildRecordAck_eq_ok (hlength.trans (by decide))
      have hhandler : (c₂.locals i).handler = .publishing (.crcOk codec records) rest := by
        rw [hlocal₂, hlocal₁]
      have hlast : (c₂.locals i).calls.getLast? = some ⟨events, .resolved⟩ := by
        rw [hlocal₂, List.getLast?_concat]
      rw [ingestStep, hshared₂, if_neg (by decide)]
      simp only [Connection.proceed, hhandler, hlast, Option.bind_some, Connection.published, hok]
      rfl
    obtain ⟨c₃, hrun₃, hshared₃, hlocal₃⟩ := run_step streams (by simp [sends]) hack
    refine ⟨c₃, (hrun₁.trans hrun₂).trans hrun₃, hshared₃, ?_, ?_, ?_⟩
    · rw [hlocal₃]
      rfl
    · rw [hlocal₃, hlocal₂, hlocal₁]
      exact h.destroyed
    · rw [hlocal₃, hlocal₂, hlocal₁]
      exact h.imei

/-- At a packet with a date that is too large the process ends. -/
theorem Streaming.throw (streams : Pid → Bytes) {packet : AvlPacket} {rest : List FramerEvent}
    (h : Streaming c i (.packet packet :: rest)) (hlate : ¬ Datable packet) :
    ∃ c', (ingest Pid).Run (sends streams) c c' ∧ c'.shared = false := by
  cases packet with
  | crcFailed declaredCrc computedCrc =>
    exact absurd (fun record hrecord => by cases hrecord) hlate
  | crcOk codec records =>
    obtain ⟨err, herr⟩ :=
      (buildTelemetryEvents_eq_ok ((c.locals i).imei.getD "") codec 0 records).2 hlate
    have hstep : ingestStep c.shared (c.locals i) (.proceed 0) =
        some (false, (c.locals i).finish) := by
      rw [h.proceed, Connection.handlePacket, if_neg h.imei]
      simp only [herr]
      rfl
    obtain ⟨c', hrun, hshared, _⟩ := run_step streams (by simp [sends]) hstep
    exact ⟨c', hrun, hshared⟩

theorem throws_of_reports (streams : Pid → Bytes) {events : List FramerEvent}
    (hreports : Reports events) (hlate : ∃ packet ∈ packetsOf events, ¬ Datable packet)
    {c : Config Pid Bool Connection} (h : Streaming c i events) :
    ∃ c', (ingest Pid).Run (sends streams) c c' ∧ c'.shared = false := by
  induction hreports generalizing c with
  | nil => simp at hlate
  | error reason detail => simp at hlate
  | @packet packet rest hlength _ ih =>
    by_cases hdatable : Datable packet
    · obtain ⟨c₁, hrun, hstreaming⟩ := h.answer streams hlength hdatable
      obtain ⟨late, hmem, hlate⟩ := hlate
      rcases List.mem_cons.mp hmem with rfl | hmem
      · exact absurd hdatable hlate
      · obtain ⟨c₂, hrun', hended⟩ := ih ⟨late, hmem, hlate⟩ hstreaming
        exact ⟨c₂, hrun.trans hrun', hended⟩
    · exact h.throw streams hdatable

/-- A device that sends a date that is too large can end the process. -/
theorem throws_of_late (streams : Pid → Bytes)
    (hlate : ∃ packet ∈ packetsOf (framed (streams i)), ¬ Datable packet) :
    ∃ c, (ingest Pid).Run (sends streams) (listening Pid) c ∧ c.shared = false := by
  -- the whole stream arrives as one chunk
  have hdata : ingestStep true .accepted (.data (streams i)) = some (true, { Connection.accepted with
      paused := true
      framer := framerAfter (streams i)
      handler := .handling (framed (streams i))
      received := streams i
      produced := framed (streams i) }) := rfl
  have hsends : sends streams (listening Pid) i (.data (streams i)) := by
    intro chunk hchunk
    cases hchunk
    exact List.prefix_rfl
  obtain ⟨c₁, hrun₁, hshared₁, hlocal₁⟩ := run_step streams hsends hdata
  have hconversation := conversation_framed (streams i)
  generalize framed (streams i) = events at hconversation hlate hlocal₁
  cases hconversation with
  | nil => simp at hlate
  | error reason detail => simp at hlate
  | @imei imei events hvalid hreports =>
    have himei : ingestStep c₁.shared (c₁.locals i) (.proceed 0) = some (true,
        ({ c₁.locals i with imei := some imei }.write (buildImeiAck true)).goOn events) := by
      rw [hshared₁, hlocal₁]
      rfl
    obtain ⟨c₂, hrun₂, hshared₂, hlocal₂⟩ := run_step streams (by simp [sends]) himei
    have hstreaming : Streaming c₂ i events := by
      refine ⟨hshared₂, by rw [hlocal₂]; rfl, by rw [hlocal₂, hlocal₁]; rfl, ?_⟩
      rw [hlocal₂]
      rintro (rfl : imei = "")
      simp [isValidImei, IMEI_DIGITS] at hvalid
    obtain ⟨c₃, hrun₃, hended⟩ := throws_of_reports streams hreports hlate hstreaming
    exact ⟨c₃, (hrun₁.trans hrun₂).trans hrun₃, hended⟩

/-- The packets of all devices are answered, and the process goes on, exactly if every date of a
packet with a right checksum is within the range of `Date`. -/
theorem answers_iff (streams : Pid → Bytes) :
    (∀ c, (ingest Pid).Run (sends streams) (listening Pid) c →
      c.shared = true ∧ ∀ i, Answered (c.locals i)) ↔
    ∀ i, ∀ packet ∈ packetsOf (framed (streams i)), Datable packet := by
  constructor
  · intro h i packet hpacket
    by_contra hlate
    obtain ⟨c, hrun, hended⟩ := throws_of_late streams ⟨packet, hpacket, hlate⟩
    have hshared := (h c hrun).1
    rw [hended] at hshared
    cases hshared
  · intro h c hrun
    have hshared := (runs_of_datable h hrun).1
    refine ⟨hshared, fun i => ?_⟩
    obtain ⟨r, _, hserves⟩ := serves_run hrun.any i serves_accepted
    rw [hshared] at hserves
    exact hserves.answered

/-- A handshake and a packet with the largest time stamp of 64 bits. -/
def lateStream : Bytes :=
  [0, 15, 51, 53, 54, 51, 48, 55, 48, 52, 50, 52, 52, 49, 48, 49, 51] ++
    [0, 0, 0, 0, 0, 0, 0, 33, 8, 1, 255, 255, 255, 255, 255, 255, 255, 255] ++
    List.replicate 22 0 ++ [1, 0, 0, 155, 149]

/-- One packet ends the process for all devices. -/
theorem late_packet_throws : ¬ ∀ (streams : Unit → Bytes) (c : Config Unit Bool Connection),
    (ingest Unit).Run (sends streams) (listening Unit) c →
      c.shared = true ∧ ∀ i, Answered (c.locals i) := by
  intro h
  have hlate : ∃ packet ∈ packetsOf (framed lateStream), ¬ Datable packet := by
    unfold Datable
    decide +kernel
  obtain ⟨c, hrun, hended⟩ := throws_of_late (i := ()) (fun _ => lateStream) hlate
  have hshared := (h _ c hrun).1
  rw [hended] at hshared
  cases hshared

end Runs

end BankPlatform.Telemetry
