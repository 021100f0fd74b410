import BankPlatform.Telemetry.Answers
import BankPlatform.Telemetry.Device

/-!
# Nothing is lost on the uplink

A device with its connections is an outbox: what it deletes is in the broker, and the broker never
has a record before the records of earlier times.

## Main definitions

* `Reports` — the records that a batch of events reports.
* `Channel.Keeps` — what a connection keeps.
* `Linked` — a configuration and the outbox that it implements.

## Main results

* `Channel.Keeps.acked` — the device reads the answer to its last packet, and what is acknowledged
  is stored.
* `linked_move` — every step of the system is a step of the outbox, or none.
* `deleted_published` — nothing is lost, and nothing is stored out of order.
-/

namespace BankPlatform.Telemetry

open Library Teltonika

/-- A batch has the events of these records, one each and in their order. -/
def Reports (imei : String) (records : List EncodableRecord) (events : List TelemetryEvent) : Prop :=
  ∃ codec receivedAt, (∀ record ∈ records, record.Fits codec.extended) ∧
    buildTelemetryEvents imei codec (records.map decodedRecord) (some receivedAt) = .ok events

/-- The packets of a connection that arrive undamaged, with the position of their first record. -/
def Channel.good (l : Channel) : List (ℕ × Transmission) :=
  l.transmissions.filter fun t => t.2.packet.crcRight

/-- What a connection keeps, while the device records and deletes and the log grows. -/
structure Channel.Keeps (imei : String) (recorded : List EncodableRecord) (deleted : ℕ)
    (log : List (Shipment (List TelemetryEvent))) (l : Channel) : Prop where
  opened : l.sent = [] ∧ l.transmissions = [] ∨ ∃ handshake, encodeImeiFrame imei = .ok handshake ∧
    l.sent = sentBytes handshake (l.transmissions.map Prod.snd)
  sound : ∀ t ∈ l.transmissions, t.2.Sound DEFAULT_MAX_FRAME_BYTES
  stretch : ∀ t ∈ l.transmissions, t.1 ≤ deleted ∧ t.2.records <+: recorded.drop t.1
  received : l.connection.received <+: l.sent
  serves : ∃ r, Serves l.running l.connection r
  answers : Answers imei l.running l.connection
  stored : ∀ n ∈ l.stored, ∃ t, l.good[n]? = some t ∧
    ∃ x ∈ log, x.start = t.1 ∧ x.count = t.2.records.length
  resolved : ∀ n call, l.connection.calls[n]? = some call → call.settlement = .resolved →
    n ∈ l.stored

/-- What the device knows of its connection. -/
def Device.Follows {Pid : Type} (d : Device Pid) (l : Channel) : Prop :=
  l.sent ≠ [] ∧ match d.exchange with
    | .greeting => d.read = 0 ∧ l.transmissions = []
    | .ready => d.read = 1 + 4 * l.transmissions.length
    | .reporting => ∃ earlier t, l.transmissions = earlier ++ [(d.deleted, t)] ∧
      d.read = 1 + 4 * earlier.length

/-- The words behind the first ones of a sequence of words of one length. -/
theorem drop_flatten_map {α : Type} {word : α → Bytes} {width : ℕ}
    (hword : ∀ a, (word a).length = width) (as : List α) (k : ℕ) :
    (as.map word).flatten.drop (width * k) = ((as.drop k).map word).flatten := by
  induction k generalizing as with
  | zero => rfl
  | succ k ih =>
    cases as with
    | nil => simp
    | cons a as =>
      rw [List.map_cons, List.flatten_cons, List.drop_succ_cons, ← ih, Nat.mul_succ, Nat.add_comm,
        ← List.drop_drop, List.drop_left' (hword a)]

namespace Channel.Keeps

variable {imei : String} {recorded : List EncodableRecord} {deleted : ℕ}
  {log : List (Shipment (List TelemetryEvent))} {l : Channel}

theorem closed : Channel.closed.Keeps imei recorded deleted log where
  opened := .inl ⟨rfl, rfl⟩
  sound t ht := by cases ht
  stretch t ht := by cases ht
  received := List.nil_prefix
  serves := ⟨_, serves_accepted⟩
  answers := answers_accepted
  stored n hn := by cases hn
  resolved n call hcall := by cases hcall

theorem mono (h : l.Keeps imei recorded deleted log) {recorded' : List EncodableRecord}
    {deleted' : ℕ} {log' : List (Shipment (List TelemetryEvent))} (hrecorded : recorded <+: recorded')
    (hdeleted : deleted ≤ deleted') (hlog : log ⊆ log') :
    l.Keeps imei recorded' deleted' log' :=
  { h with
    stretch := fun t ht => ⟨(h.stretch t ht).1.trans hdeleted,
      (h.stretch t ht).2.trans (hrecorded.drop t.1)⟩
    stored := fun n hn => by
      obtain ⟨t, ht, x, hx, hstart⟩ := h.stored n hn
      exact ⟨t, ht, x, hlog hx, hstart⟩ }

/-- The framer finds the handshake and the packets of the connection, as far as they have
arrived. -/
theorem produced (h : l.Keeps imei recorded deleted log) (himei : isValidImei imei = true) :
    l.connection.produced <+:
      .imei imei :: l.transmissions.map fun t => .packet t.2.packet := by
  obtain ⟨r, hserves⟩ := h.serves
  rw [hserves.produced]
  refine (framed_initial h.received).trans ?_
  obtain ⟨hsent, -⟩ | ⟨handshake, hencode, hsent⟩ := h.opened
  · rw [hsent, framed_nil]
    exact List.nil_prefix
  · have hsound : ∀ t ∈ l.transmissions.map Prod.snd, t.Sound DEFAULT_MAX_FRAME_BYTES := by
      simpa using fun t start ht => h.sound (start, t) ht
    rw [hsent, framed_sentBytes himei hencode hsound, List.map_map]
    exact List.prefix_rfl

theorem greets (h : l.Keeps imei recorded deleted log) (himei : isValidImei imei = true) :
    Greets imei l.connection.produced := by
  intro event hevent
  rcases List.mem_cons.mp ((h.produced himei).subset hevent) with heq | hmem
  · exact .inl heq
  · obtain ⟨t, -, rfl⟩ := List.mem_map.mp hmem
    exact .inr ⟨_, rfl⟩

/-- The packets that are taken are the first ones sent. -/
theorem taken (h : l.Keeps imei recorded deleted log) (himei : isValidImei imei = true)
    {r : PacketReceiver} (hserves : Serves l.running l.connection r) :
    r.taken <+: l.transmissions.map fun t => t.2.packet := by
  obtain ⟨done, hdone, hinitial, -⟩ := hserves.taken
  have hpackets := (hinitial.trans (h.produced himei)).filterMap FramerEvent.packet?
  have hsent : (FramerEvent.imei imei :: l.transmissions.map fun t =>
      .packet t.2.packet).filterMap FramerEvent.packet? =
      l.transmissions.map fun t => t.2.packet := by
    have hpacket : (FramerEvent.packet? ∘ fun t : ℕ × Transmission => .packet t.2.packet) =
        some ∘ fun t => t.2.packet := rfl
    rw [List.filterMap_cons_none rfl, List.filterMap_map, hpacket, List.filterMap_eq_map]
  rw [hsent] at hpackets
  rwa [← hdone]

/-- The calls of `publish` are for the undamaged packets, in the order in which they were sent. -/
theorem calls (h : l.Keeps imei recorded deleted log) (himei : isValidImei imei = true) {n : ℕ}
    {call : Call (List TelemetryEvent)} (hcall : l.connection.calls[n]? = some call) :
    ∃ t, l.good[n]? = some t ∧ t ∈ l.transmissions ∧ Carries t.2.packet call.payload := by
  obtain ⟨r, hserves⟩ := h.serves
  have hcarried := (StopAndWait.durable hserves.steps).carried
  rw [hserves.calls] at hcarried
  obtain ⟨hn, rfl⟩ := List.getElem?_eq_some_iff.mp hcall
  have hlt : n < (r.taken.filter protocol.stores).length := hcarried.length_eq ▸ hn
  have hcarries := hcarried.get hlt hn
  have hgood : r.taken.filter protocol.stores <+: l.good.map fun t => t.2.packet := by
    have hfilter := (h.taken himei hserves).filter protocol.stores
    rwa [List.filter_map] at hfilter
  have hget := List.prefix_iff_getElem?.mp hgood n hlt
  rw [List.getElem?_map] at hget
  obtain ⟨t, ht, hpacket⟩ := Option.map_eq_some_iff.mp hget
  refine ⟨t, ht, (List.mem_filter.mp (List.mem_of_getElem? ht)).1, ?_⟩
  rw [hpacket]
  exact hcarries

/-- The batch of a call reports the records of its packet. -/
theorem reports (h : l.Keeps imei recorded deleted log) {t : ℕ × Transmission}
    (ht : t ∈ l.transmissions) {call : Call (List TelemetryEvent)} (hcall : call ∈ l.connection.calls)
    (hcarries : Carries t.2.packet call.payload) : Reports imei t.2.records call.payload := by
  obtain ⟨hlength, imei', codec, records, receivedAt, hpacket, hbuild⟩ := hcarries
  have hsent : t.2.packet = .crcOk t.2.codec (t.2.records.map decodedRecord) := by
    unfold Transmission.packet at hpacket ⊢
    split
    · next hcrc =>
      rw [if_pos hcrc] at hpacket
      cases hpacket
    · rfl
  rw [hsent] at hpacket hlength
  cases hpacket
  refine ⟨t.2.codec, receivedAt, (h.sound t ht).records, ?_⟩
  cases hevents : call.payload with
  | nil =>
    rw [hevents] at hlength
    have hnone : t.2.records = [] := by
      simpa [ackCount] using hlength.symm
    simp only [hnone]
    rfl
  | cons event events =>
    obtain ⟨r, hserves⟩ := h.serves
    have hmem : event ∈ call.payload := by
      rw [hevents]
      exact List.mem_cons_self
    have hdevice := hserves.device call hcall event hmem
    rw [(carries_of_build hbuild).2 event hmem] at hdevice
    have hsame : l.connection.imei = some imei := by
      refine h.answers.imei.resolve_left fun hnone => ?_
      rw [hnone] at hdevice
      cases hdevice
    rw [hsame] at hdevice
    rw [← hevents, Option.some.inj hdevice]
    exact hbuild

/-- The reply to the handshake is that the device is accepted. -/
theorem greeted (h : l.Keeps imei recorded deleted log) {accepted : UInt8}
    (hreply : (l.unread 0).head? = some accepted) : accepted = 0x01 := by
  rw [Channel.unread, List.drop_zero] at hreply
  obtain hnone | ⟨acks, hwritten, -⟩ := h.answers.written
  · rw [hnone] at hreply
    cases hreply
  · rw [hwritten] at hreply
    exact (Option.some.inj hreply).symm

/-- The bytes that wait for the device behind `k` acknowledgements begin with the next one. -/
theorem unread_ack (h : l.Keeps imei recorded deleted log) {k : ℕ}
    (hreply : 4 ≤ (l.unread (1 + 4 * k)).length) :
    l.connection.recordAcks[k]? = some (BigEndian.decode ((l.unread (1 + 4 * k)).take 4)) := by
  obtain hnone | ⟨acks, hwritten, hlt⟩ := h.answers.written
  · simp [Channel.unread, hnone] at hreply
  · have hunread : l.unread (1 + 4 * k) = ((acks.drop k).map (BigEndian.encode 4)).flatten := by
      rw [Channel.unread, hwritten, List.flatten_cons, ← List.drop_drop]
      exact drop_flatten_map (BigEndian.length_encode 4) acks k
    have hacks : l.connection.recordAcks = acks := by
      have hfour : (acks.map (BigEndian.encode 4)).filter (fun bytes => bytes.length = 4) =
          acks.map (BigEndian.encode 4) := by
        rw [List.filter_eq_self]
        intro bytes hbytes
        obtain ⟨ack, -, rfl⟩ := List.mem_map.mp hbytes
        exact decide_eq_true (BigEndian.length_encode 4 ack)
      rw [Connection.recordAcks, hwritten, List.filter_cons_of_neg (by decide), hfour, List.map_map]
      refine (List.map_congr_left fun ack hack => ?_).trans (List.map_id _)
      rw [Function.comp_apply, BigEndian.decode_encode (hlt ack hack), id]
    rw [hunread] at hreply ⊢
    rw [hacks]
    cases hrest : acks.drop k with
    | nil => simp [hrest] at hreply
    | cons ack rest =>
      have hget : acks[k]? = some ack := by
        rw [← List.head?_drop, hrest]
        rfl
      have hmem : ack ∈ acks := List.mem_of_getElem? hget
      rw [List.map_cons, List.flatten_cons, List.take_left' (BigEndian.length_encode 4 ack),
        BigEndian.decode_encode (hlt ack hmem), hget]

/-- The device reads the answer to its last packet, and what is acknowledged is stored. -/
theorem acked (h : l.Keeps imei recorded deleted log) (himei : isValidImei imei = true)
    {earlier : List (ℕ × Transmission)} {start : ℕ} {t : Transmission}
    (hts : l.transmissions = earlier ++ [(start, t)])
    (hreply : 4 ≤ (l.unread (1 + 4 * earlier.length)).length) :
    BigEndian.decode ((l.unread (1 + 4 * earlier.length)).take 4) = 0 ∨
      BigEndian.decode ((l.unread (1 + 4 * earlier.length)).take 4) = t.records.length ∧
        ∃ x ∈ log, x.start = start ∧ x.count = t.records.length := by
  have hack := h.unread_ack hreply
  generalize BigEndian.decode _ = ack at hack ⊢
  obtain ⟨r, hserves⟩ := h.serves
  have hdurable := StopAndWait.durable hserves.steps
  have htaken := h.taken himei hserves
  obtain ⟨later, -, -, hsplit, -⟩ := id hdurable
  rw [hserves.acked, List.getElem?_map] at hack
  obtain ⟨packet, hpacket, rfl⟩ := Option.map_eq_some_iff.mp hack
  -- as many packets are acknowledged as were sent
  obtain ⟨hlt, -⟩ := List.getElem?_eq_some_iff.mp hpacket
  have hinitial : r.acked <+: l.transmissions.map fun t => t.2.packet :=
    (hsplit ▸ List.prefix_append r.acked later).trans htaken
  have hall : r.acked = l.transmissions.map fun t => t.2.packet := by
    refine hinitial.eq_of_length_le ?_
    rw [hts, List.length_map, List.length_append, List.length_singleton]
    omega
  rw [hall, hts, List.map_append, List.getElem?_append_right (by simp), List.length_map,
    Nat.sub_self] at hpacket
  obtain rfl : t.packet = packet := Option.some.inj hpacket
  cases hcrc : t.packet.crcRight with
  | false =>
    refine .inl ?_
    cases hp : t.packet with
    | crcFailed declaredCrc computedCrc => rfl
    | crcOk codec records =>
      rw [hp] at hcrc
      cases hcrc
  | true =>
    refine .inr ⟨?_, ?_⟩
    · rw [ackCount_eq]
      unfold Transmission.packet at hcrc ⊢
      split
      · next hne =>
        rw [if_pos hne] at hcrc
        cases hcrc
      · exact List.length_map _
    · -- the call for the packet is the last of the resolved ones
      have hgood : l.good = (earlier.filter fun t => t.2.packet.crcRight) ++ [(start, t)] := by
        simp [Channel.good, hts, hcrc]
      have hacked : (r.acked.filter protocol.stores).length = l.good.length := by
        rw [hall, List.filter_map, List.length_map]
        rfl
      have hlast : (earlier.filter fun t => t.2.packet.crcRight).length <
          (r.acked.filter protocol.stores).length := by
        rw [hacked, hgood, List.length_append, List.length_singleton]
        exact Nat.lt_succ_self _
      obtain ⟨call, hcall, hresolved⟩ := hdurable.resolved hlast
      rw [hserves.calls] at hcall
      obtain ⟨t', ht', x, hx, hstart, hcount⟩ := h.stored _ (h.resolved _ call hcall hresolved)
      rw [hgood, List.getElem?_append_right le_rfl, Nat.sub_self] at ht'
      obtain rfl := Option.some.inj ht'
      exact ⟨x, hx, hstart, hcount⟩

/-- A step of the server's end. -/
theorem serve (h : l.Keeps imei recorded deleted log) (himei : isValidImei imei = true)
    {label : IngestLabel} {l' : Channel} (hserve : l.serve label = some l') :
    l'.Keeps imei recorded deleted log ∧ l'.sent = l.sent ∧
      l'.transmissions = l.transmissions := by
  unfold Channel.serve at hserve
  split at hserve
  · next hpermits =>
    obtain ⟨⟨running', d⟩, hstep, rfl⟩ := Option.map_eq_some_iff.mp hserve
    obtain ⟨r, hserves⟩ := h.serves
    obtain ⟨r', -, hserves'⟩ := serves_step hserves hstep
    refine ⟨{ h with
      received := ?_
      serves := ⟨r', hserves'⟩
      answers := answers_step h.answers hserves (h.greets himei) hstep
      resolved := ?_ }, rfl, rfl⟩
    · have hsends : sends (fun _ : Unit => l.sent) ⟨l.running, fun _ => l.connection⟩ () label := by
        rintro chunk rfl
        exact hpermits
      exact @received_step d Unit ⟨l.running, fun _ => l.connection⟩ () (fun _ => l.sent) label running'
        hsends h.received hstep
    · intro n call hcall hresolved
      rcases resolved_step hstep hcall hresolved with hbefore | ⟨rfl, rfl⟩
      · exact h.resolved n call hbefore hresolved
      · exact hpermits
  · cases hserve

/-- The handshake is sent on a socket that has not been used. -/
theorem connect (h : l.Keeps imei recorded deleted log) (hunused : l.sent = []) {handshake : Bytes}
    (hencode : encodeImeiFrame imei = .ok handshake) :
    ({ l with sent := handshake } : Channel).Keeps imei recorded deleted log ∧
      l.transmissions = [] := by
  have hnone : l.transmissions = [] := by
    obtain ⟨-, hnone⟩ | ⟨handshake', hencode', hsent⟩ := h.opened
    · exact hnone
    · obtain rfl := Except.ok.inj (hencode.symm.trans hencode')
      rw [hunused] at hsent
      have hbytes := (List.append_eq_nil_iff.mp hsent.symm).2
      rw [List.flatMap_eq_nil_iff] at hbytes
      by_contra hsome
      obtain ⟨t, ht⟩ := List.exists_mem_of_ne_nil _ hsome
      have hlength := t.2.length_bytes
      rw [hbytes t.2 (List.mem_map_of_mem ht)] at hlength
      simp only [List.length_nil, FRAME_HEADER_BYTES] at hlength
      omega
  refine ⟨{ h with
    opened := .inr ⟨handshake, hencode, by simp [hnone, sentBytes]⟩
    received := ?_ }, hnone⟩
  have hreceived := h.received
  rw [hunused, List.prefix_nil] at hreceived
  rw [hreceived]
  exact List.nil_prefix

/-- A packet is sent on the connection. -/
theorem report (h : l.Keeps imei recorded deleted log) (hopened : l.sent ≠ []) {t : Transmission}
    (hsound : t.Sound DEFAULT_MAX_FRAME_BYTES) (hrecords : t.records <+: recorded.drop deleted) :
    ({ l with
      sent := l.sent ++ t.bytes
      transmissions := l.transmissions ++ [(deleted, t)] } : Channel).Keeps
        imei recorded deleted log := by
  refine { h with
    opened := ?_
    sound := ?_
    stretch := ?_
    received := h.received.trans (List.prefix_append _ _)
    stored := ?_ }
  · obtain ⟨hnone, -⟩ | ⟨handshake, hencode, hsent⟩ := h.opened
    · exact absurd hnone hopened
    · refine .inr ⟨handshake, hencode, ?_⟩
      simp only [hsent, sentBytes, List.map_append, List.flatMap_append, List.append_assoc]
      simp
  · simp only [List.mem_append, List.mem_singleton]
    rintro t' (ht' | rfl)
    · exact h.sound t' ht'
    · exact hsound
  · simp only [List.mem_append, List.mem_singleton]
    rintro t' (ht' | rfl)
    · exact h.stretch t' ht'
    · exact ⟨le_rfl, hrecords⟩
  · intro n hn
    obtain ⟨t', ht', hx⟩ := h.stored n hn
    refine ⟨t', ?_, hx⟩
    obtain ⟨hlt, -⟩ := List.getElem?_eq_some_iff.mp ht'
    rw [Channel.good] at ht' hlt ⊢
    rwa [List.filter_append, List.getElem?_append_left hlt]

/-- The broker stores the batch of a call. -/
theorem store (h : l.Keeps imei recorded deleted log) {call : ℕ} {t : ℕ × Transmission}
    (ht : l.good[call]? = some t) {x : Shipment (List TelemetryEvent)} (hstart : x.start = t.1)
    (hcount : x.count = t.2.records.length) :
    ({ l with stored := call :: l.stored } : Channel).Keeps imei recorded deleted (log ++ [x]) := by
  refine { h.mono List.prefix_rfl le_rfl (List.subset_append_left log [x]) with
    stored := fun n hn => ?_
    resolved := fun n c hc hresolved => List.mem_cons_of_mem _ (h.resolved n c hc hresolved) }
  rcases List.mem_cons.mp hn with rfl | hn
  · exact ⟨t, ht, x, List.mem_append_right _ List.mem_cons_self, hstart, hcount⟩
  · obtain ⟨t', ht', y, hy, hlength⟩ := h.stored n hn
    exact ⟨t', ht', y, List.mem_append_left _ hy, hlength⟩

end Channel.Keeps

/-! ## Every step -/

variable {Pid : Type} {imei : String}

/-- A configuration, and the log of the outbox that it implements. -/
structure Linked (imei : String) (c : Config Pid (Uplink Pid) Channel)
    (log : List (Shipment (List TelemetryEvent))) : Prop where
  steps : Outbox.Steps (Reports imei) Outbox.empty
    ⟨c.shared.device.recorded, c.shared.device.deleted, log⟩
  broker : log.map Shipment.batch = c.shared.log
  channels : ∀ i, (c.locals i).Keeps imei c.shared.device.recorded c.shared.device.deleted log
  follows : ∀ i, c.shared.device.socket = some i → c.shared.device.Follows (c.locals i)

theorem linked_unused : Linked imei (unused Pid) [] where
  steps := .refl
  broker := rfl
  channels i := .closed
  follows i h := by cases h

variable [DecidableEq Pid] {c c' : Config Pid (Uplink Pid) Channel}
  {log : List (Shipment (List TelemetryEvent))}

/-- A step of one connection. -/
theorem Linked.update (h : Linked imei c log) {i : Pid} {s' : Uplink Pid} {l' : Channel}
    {log' : List (Shipment (List TelemetryEvent))}
    (hsteps : Outbox.Steps (Reports imei)
      ⟨c.shared.device.recorded, c.shared.device.deleted, log⟩
      ⟨s'.device.recorded, s'.device.deleted, log'⟩)
    (hbroker : log'.map Shipment.batch = s'.log)
    (hrecorded : c.shared.device.recorded <+: s'.device.recorded)
    (hdeleted : c.shared.device.deleted ≤ s'.device.deleted) (hmore : log ⊆ log')
    (hown : l'.Keeps imei s'.device.recorded s'.device.deleted log')
    (hfollows : ∀ j, s'.device.socket = some j →
      s'.device.Follows (Function.update c.locals i l' j)) :
    Linked imei ⟨s', Function.update c.locals i l'⟩ log' where
  steps := h.steps.trans hsteps
  broker := hbroker
  channels j := by
    by_cases hj : j = i
    · subst hj
      simpa using hown
    · simpa [Function.update_of_ne hj] using (h.channels j).mono hrecorded hdeleted hmore
  follows := hfollows

theorem Linked.record (h : Linked imei c log) (i : Pid) (record : EncodableRecord) :
    Linked imei ⟨{ c.shared with device := { c.shared.device with
      recorded := c.shared.device.recorded ++ [record] } },
      Function.update c.locals i (c.locals i)⟩ log := by
  refine h.update (.single (.record record)) h.broker (List.prefix_append _ _) le_rfl
    (List.Subset.refl _) ?_ fun j hj => ?_
  · exact (h.channels i).mono (List.prefix_append _ _) le_rfl (List.Subset.refl _)
  · rw [Function.update_eq_self]
    exact h.follows j hj

theorem Linked.disconnect (h : Linked imei c log) (i : Pid) :
    Linked imei ⟨{ c.shared with device := { c.shared.device with socket := none } },
      Function.update c.locals i (c.locals i)⟩ log :=
  h.update .refl h.broker List.prefix_rfl le_rfl (List.Subset.refl _) (h.channels i)
    fun j hj => by cases hj

theorem Linked.connect (h : Linked imei c log) (himei : isValidImei imei = true) {i : Pid}
    {d : Device Pid} {l' : Channel}
    (hconnect : c.shared.device.connect imei i (c.locals i) = some (d, l')) :
    Linked imei ⟨{ c.shared with device := d }, Function.update c.locals i l'⟩ log := by
  unfold Device.connect at hconnect
  split at hconnect
  · next hunused =>
    cases hencode : encodeImeiFrame imei with
    | error err =>
      rw [hencode] at hconnect
      cases hconnect
    | ok handshake =>
      rw [hencode] at hconnect
      cases hconnect
      obtain ⟨hkeeps, hnone⟩ := (h.channels i).connect hunused hencode
      refine h.update .refl h.broker List.prefix_rfl le_rfl (List.Subset.refl _) hkeeps fun j hj => ?_
      obtain rfl := Option.some.inj hj
      rw [Function.update_self]
      have hnil : ∀ t ∈ ([] : List Transmission), t.Sound DEFAULT_MAX_FRAME_BYTES := by simp
      obtain ⟨handshake', hencode', hsome, -⟩ := push_stream none himei hnil
      obtain rfl := Except.ok.inj (hencode.symm.trans hencode')
      exact ⟨hsome, rfl, hnone⟩
  · cases hconnect

theorem Linked.report (h : Linked imei c log) {i : Pid} {codec : CodecId} {count : ℕ}
    {dataField : Bytes} {crc : ℕ} {d : Device Pid} {l' : Channel}
    (hsound : (c.shared.device.transmission codec count dataField crc).Sound
      DEFAULT_MAX_FRAME_BYTES)
    (hreport : c.shared.device.report i (c.locals i)
      (c.shared.device.transmission codec count dataField crc) = some (d, l')) :
    Linked imei ⟨{ c.shared with device := d }, Function.update c.locals i l'⟩ log := by
  unfold Device.report at hreport
  split at hreport
  · next hready =>
    obtain ⟨frame, -, hframe⟩ := Option.bind_eq_some_iff.mp hreport
    split at hframe
    · cases hframe
      have hfollows := h.follows i hready.1
      rw [Device.Follows, hready.2] at hfollows
      refine h.update .refl h.broker List.prefix_rfl le_rfl (List.Subset.refl _)
        ((h.channels i).report hfollows.1 hsound (List.take_prefix _ _)) fun j hj => ?_
      obtain rfl : i = j := Option.some.inj (hready.1.symm.trans hj)
      rw [Function.update_self]
      exact ⟨List.append_ne_nil_of_left_ne_nil hfollows.1 _, _, _, rfl, hfollows.2⟩
    · cases hframe
  · cases hreport

/-- The device takes a reply, and deletes what is stored. -/
theorem Linked.reply (h : Linked imei c log) (himei : isValidImei imei = true) {i : Pid}
    {d : Device Pid} (hreply : c.shared.device.reply i (c.locals i) = some d) :
    Linked imei ⟨{ c.shared with device := d }, Function.update c.locals i (c.locals i)⟩ log := by
  unfold Device.reply at hreply
  split at hreply
  · next hsocket =>
    have hfollows := h.follows i hsocket
    have hkeeps := h.channels i
    cases hexchange : c.shared.device.exchange with
    | ready =>
      rw [hexchange] at hreply
      cases hreply
    | greeting =>
      simp only [hexchange] at hreply
      obtain ⟨accepted, haccepted, hd⟩ := Option.map_eq_some_iff.mp hreply
      rw [Device.Follows, hexchange] at hfollows
      obtain ⟨hsent, hread, hnone⟩ := hfollows
      rw [hread] at haccepted
      rw [hkeeps.greeted haccepted, if_pos rfl] at hd
      subst hd
      refine h.update .refl h.broker List.prefix_rfl le_rfl (List.Subset.refl _) hkeeps fun j hj => ?_
      obtain rfl : i = j := Option.some.inj (hsocket.symm.trans hj)
      rw [Function.update_self]
      exact ⟨hsent, by simp [hread, hnone]⟩
    | reporting =>
      simp only [hexchange] at hreply
      split at hreply
      · next hbytes =>
        cases hreply
        rw [Device.Follows, hexchange] at hfollows
        obtain ⟨hsent, earlier, t, hts, hread⟩ := hfollows
        rw [hread] at hbytes
        have hacked := hkeeps.acked himei hts hbytes
        rw [hread]
        set acked := BigEndian.decode (((c.locals i).unread (1 + 4 * earlier.length)).take 4)
        refine h.update (.single (.delete acked fun p hp hlt => ?_)) h.broker List.prefix_rfl
          (Nat.le_add_right _ _) (List.Subset.refl _)
          (hkeeps.mono List.prefix_rfl (Nat.le_add_right _ _) (List.Subset.refl _)) fun j hj => ?_
        · change c.shared.device.deleted ≤ p at hp
          change p < c.shared.device.deleted + acked at hlt
          obtain hzero | ⟨hcount, x, hx, hstart, hlength⟩ := hacked
          · omega
          · exact ⟨x, hx, by omega, by omega⟩
        · obtain rfl : i = j := Option.some.inj (hsocket.symm.trans hj)
          rw [Function.update_self]
          refine ⟨hsent, ?_⟩
          simp only [hts, List.length_append, List.length_singleton]
          omega
      · cases hreply
  · cases hreply

/-- What the device knows is about what it has sent. -/
theorem Linked.follows_update (h : Linked imei c log) {i : Pid} (l' : Channel)
    (hsent : l'.sent = (c.locals i).sent)
    (htransmissions : l'.transmissions = (c.locals i).transmissions) {j : Pid}
    (hj : c.shared.device.socket = some j) :
    c.shared.device.Follows (Function.update c.locals i l' j) := by
  have hfollows := h.follows j hj
  by_cases hji : j = i
  · subst hji
    rw [Function.update_self]
    unfold Device.Follows at hfollows ⊢
    rwa [hsent, htransmissions]
  · rwa [Function.update_of_ne hji]

theorem Linked.ingest (h : Linked imei c log) (himei : isValidImei imei = true) {i : Pid}
    {label : IngestLabel} {l' : Channel} (hserve : (c.locals i).serve label = some l') :
    Linked imei ⟨c.shared, Function.update c.locals i l'⟩ log := by
  obtain ⟨hkeeps, hsent, htransmissions⟩ := (h.channels i).serve himei hserve
  exact h.update .refl h.broker List.prefix_rfl le_rfl (List.Subset.refl _) hkeeps
    fun j hj => h.follows_update l' hsent htransmissions hj

/-- A batch that is stored reports records from the oldest one kept, or from an earlier one. -/
theorem Linked.store (h : Linked imei c log) (himei : isValidImei imei = true) {i : Pid} {n : ℕ}
    {call : Call (List TelemetryEvent)} (hcall : (c.locals i).connection.calls[n]? = some call) :
    ∃ log', Linked imei ⟨{ c.shared with log := c.shared.log ++ [call.payload] },
      Function.update c.locals i { c.locals i with stored := n :: (c.locals i).stored }⟩ log' := by
  have hkeeps := h.channels i
  obtain ⟨t, hgood, ht, hcarries⟩ := hkeeps.calls himei hcall
  obtain ⟨hstart, hrecords⟩ := hkeeps.stretch t ht
  have hreports := hkeeps.reports ht (List.mem_of_getElem? hcall) hcarries
  have hdeleted := (Outbox.delivered h.steps).deleted_le
  have hlength : t.1 + t.2.records.length ≤ c.shared.device.recorded.length := by
    have := hrecords.length_le
    rw [List.length_drop] at this
    change c.shared.device.deleted ≤ c.shared.device.recorded.length at hdeleted
    omega
  refine ⟨log ++ [⟨t.1, t.2.records.length, call.payload⟩], h.update
    (.single (.store ⟨t.1, t.2.records.length, call.payload⟩ hstart hlength ?_)) ?_ List.prefix_rfl
    le_rfl (List.subset_append_left _ _) (hkeeps.store hgood rfl rfl)
    fun j hj => h.follows_update { c.locals i with stored := n :: (c.locals i).stored } rfl rfl hj⟩
  · rw [Outbox.stretch, ← List.prefix_iff_eq_take.mp hrecords]
    exact hreports
  · rw [List.map_append, h.broker]
    rfl

/-- Every step of the system is a step of the outbox, or none. -/
theorem linked_move (himei : isValidImei imei = true) (h : Linked imei c log) {i : Pid}
    {a : UplinkLabel} (hok : noticesDamage c i a) (hmove : (uplink Pid imei).move c i a = some c') :
    ∃ log', Linked imei c' log' := by
  obtain ⟨s', l', hstep, rfl⟩ := Interleaving.move_eq_some.mp hmove
  cases a with
  | record record =>
    cases hstep
    exact ⟨log, h.record i record⟩
  | connect =>
    obtain ⟨⟨d, l⟩, hconnect, heq⟩ := Option.map_eq_some_iff.mp hstep
    cases heq
    exact ⟨log, h.connect himei hconnect⟩
  | report codec count dataField crc =>
    obtain ⟨⟨d, l⟩, hreport, heq⟩ := Option.map_eq_some_iff.mp hstep
    cases heq
    exact ⟨log, h.report hok hreport⟩
  | reply =>
    obtain ⟨d, hreply, heq⟩ := Option.map_eq_some_iff.mp hstep
    cases heq
    exact ⟨log, h.reply himei hreply⟩
  | disconnect =>
    cases hstep
    exact ⟨log, h.disconnect i⟩
  | ingest label =>
    obtain ⟨l, hserve, heq⟩ := Option.map_eq_some_iff.mp hstep
    cases heq
    exact ⟨log, h.ingest himei hserve⟩
  | store n =>
    obtain ⟨call, hcall, heq⟩ := Option.map_eq_some_iff.mp hstep
    cases heq
    exact h.store himei hcall

/-! ## Every run -/

theorem linked_run (himei : isValidImei imei = true)
    (h : (uplink Pid imei).Run noticesDamage (unused Pid) c) : ∃ log, Linked imei c log :=
  h.invariant (fun _ => True) (fun c => ∃ log, Linked imei c log) (fun _ _ => trivial)
    ⟨[], linked_unused⟩ fun _ _ _ _ _ ⟨_, hlinked⟩ hok hmove => linked_move himei hlinked hok hmove

/-- The uplink is an outbox. Whatever connections break, packets are damaged, processes end and
batches arrive late or twice, every record that the device has deleted is in a batch of the broker;
every batch has the events of a stretch of the device's records, in their order; and at every time
the records that the broker has had are the first ones. -/
theorem deleted_published (himei : isValidImei imei = true)
    (h : (uplink Pid imei).Run noticesDamage (unused Pid) c) :
    ∃ log : List (Shipment (List TelemetryEvent)), log.map Shipment.batch = c.shared.log ∧
      (∀ x ∈ log, x.start + x.count ≤ c.shared.device.recorded.length ∧
        Reports imei ((c.shared.device.recorded.drop x.start).take x.count) x.batch) ∧
      (∀ p < c.shared.device.deleted, ∃ x ∈ log, x.Covers p) ∧
      ∀ before, before <+: log → ∀ p q, p ≤ q → (∃ x ∈ before, x.Covers q) →
        ∃ x ∈ before, x.Covers p := by
  obtain ⟨log, hlinked⟩ := linked_run himei h
  have hdelivered := Outbox.delivered hlinked.steps
  exact ⟨log, hlinked.broker, hdelivered.carried, hdelivered.kept,
    fun before hbefore p q hpq hq => hdelivered.initial hbefore hpq hq⟩

/-- A record is sent, and sent again because the packet is damaged. -/
def resentRun : List UplinkLabel :=
  let lost := bareTransmission (List.replicate 33 0)
  let intact := bareTransmission (dataFieldBytes .codec8 [bareRecord])
  [.record bareRecord, .connect, .ingest (.data ([0, 15] ++ fromAscii "356307042441013")),
    .ingest (.proceed 0), .ingest (.proceed 0), .reply,
    .report .codec8 1 lost.dataField lost.crc, .ingest (.data lost.bytes), .ingest (.proceed 0),
    .ingest (.proceed 0), .reply,
    .report .codec8 1 intact.dataField intact.crc, .ingest (.data intact.bytes),
    .ingest (.proceed 0), .store 0, .ingest (.settle .resolved), .ingest (.proceed 0), .reply]

/-- The record is stored, and then deleted. -/
theorem deleted_published_resent :
    ∃ c, (uplink Unit "356307042441013").Run noticesDamage (unused Unit) c ∧
      c.shared.device.deleted = 1 ∧ ∃ log : List (Shipment (List TelemetryEvent)),
        log.map Shipment.batch = c.shared.log ∧
        (∀ x ∈ log, x.start + x.count ≤ c.shared.device.recorded.length ∧
          Reports "356307042441013" ((c.shared.device.recorded.drop x.start).take x.count)
            x.batch) ∧
        (∀ p < c.shared.device.deleted, ∃ x ∈ log, x.Covers p) ∧
        ∀ before, before <+: log → ∀ p q, p ≤ q → (∃ x ∈ before, x.Covers q) →
          ∃ x ∈ before, x.Covers p := by
  have hmoves : ((uplink Unit "356307042441013").moves noticesDamage (unused Unit)
      (resentRun.map ((), ·))).map
      (fun c => c.shared.device.deleted) = some 1 := by
    decide +kernel
  obtain ⟨c, hc, hdeleted⟩ := Option.map_eq_some_iff.mp hmoves
  have hrun := Interleaving.Run.of_moves .refl hc
  exact ⟨c, hrun, hdeleted, deleted_published (by decide) hrun⟩

end BankPlatform.Telemetry
