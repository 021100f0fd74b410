import BankPlatform.Telemetry.AlertBatch

/-!
# Runs of the alerting handler

Over any number of batches, cut in whatever way, the alerts about a device depend on its fresh
readings only: each condition is reported when it starts holding and again when the cooldown has
passed.

## Main definitions

* `EdgeTriggered` — what the alert tables say after some readings of a device.

## Main results

* `alerts_edgeTriggered` — they say so after every reading of every run.
* `alerts_unchanged_iff` — when readings that say nothing about a condition change its alerts.
-/

namespace BankPlatform.Telemetry

open Library Teltonika

variable {Id : Type} [DecidableEq Id] {D : Type} [LT D] [DecidableLT D] [LE D] [DecidableLE D]
  {g : Geodesy D} {config : AlertingConfig} {rules : AlertRuleConfig}

/-- A batch with the clock at its time. -/
abbrev Batch := Clock × List TelemetryEvent

/-- The readings of some batches that are looked at. -/
def freshOf (config : AlertingConfig) (batches : List Batch) : List Reading :=
  batches.flatMap fun b => freshReadings config b.1 b.2

/-- The readings of one device. -/
def readingsOf (imei : String) (rs : List Reading) : List Reading := rs.filter fun r => r.imei = imei

/-- What the alert tables say about a condition of a device after its readings `rs`. A missing row
says that the condition never held. -/
structure EdgeTriggered (g : Geodesy D) (config : AlertingConfig) (rules : AlertRuleConfig)
    (w : World Id) (imei : String) (t : VehicleAlertType) (rs : List Reading) : Prop where
  reported : (trigger g config rules t).RisesOrCools rs ((trigger g config rules t).reported rs)
  alerts : alertsOf w imei t = (EdgeTrigger.selected ((trigger g config rules t).reported rs)
    rs).filterMap (alertContent g rules t)
  missing : alertState? w imei t = none ↔ ∀ r ∈ rs, (trigger g config rules t).holds r = false
  state : ∀ s, alertState? w imei t = some s →
    s.active = rs.getLast?.any (trigger g config rules t).holds ∧
      s.lastFiredAt = (alertsOf w imei t).getLast?.map Prod.fst

/-- Readings with a condition, and the alerts about them. -/
theorem map_alertContent {t : VehicleAlertType} {rs : List Reading}
    (h : ∀ r ∈ rs, (trigger g config rules t).holds r = true) :
    (rs.filterMap (alertContent g rules t)).map Prod.fst = rs.map Reading.recordedAt := by
  induction rs with
  | nil => rfl
  | cons r rs ih =>
    obtain ⟨hr, hrs⟩ := List.forall_mem_cons.mp h
    obtain ⟨candidate, hcandidate⟩ := Option.isSome_iff_exists.mp hr
    have hcontent : alertContent g rules t r = some (r.recordedAt, candidate.details) := by
      rw [alertContent, hcandidate, Option.map_some]
    rw [List.filterMap_cons_some hcontent, List.map_cons, List.map_cons, ih hrs]

theorem times_fired (t : VehicleAlertType) (s : EdgeState) (rs : List Reading) :
    (((trigger g config rules t).fired s rs).filterMap (alertContent g rules t)).map Prod.fst =
      ((trigger g config rules t).fired s rs).map Reading.recordedAt :=
  map_alertContent fun _ hr => EdgeTrigger.holds_of_mem_fired _ hr

/-- What the alert tables say about a condition of a device from the beginning on: the state is
behind the readings `seen`, and of the readings `told` those that fire were reported. -/
structure Tracks (g : Geodesy D) (config : AlertingConfig) (rules : AlertRuleConfig)
    (w : World Id) (imei : String) (t : VehicleAlertType) (seen told : List Reading) : Prop where
  state : edgeState (alertState? w imei t) = (trigger g config rules t).after .initial seen
  row : (alertState? w imei t).isSome = true ↔
    ∃ r ∈ seen, (trigger g config rules t).holds r = true
  alerts : alertsOf w imei t =
    ((trigger g config rules t).fired .initial told).filterMap (alertContent g rules t)

theorem Tracks.edgeTriggered {w : World Id} {imei : String} {t : VehicleAlertType}
    {rs : List Reading} (h : Tracks g config rules w imei t rs rs) :
    EdgeTriggered g config rules w imei t rs := by
  have hstate := h.state
  refine ⟨EdgeTrigger.risesOrCools_reported _ _, ?_, ?_, fun s hs => ⟨?_, ?_⟩⟩
  · rw [h.alerts, ← EdgeTrigger.fired_eq_selected]
  · rw [← Option.not_isSome_iff_eq_none, h.row]
    simp
  · rw [hs] at hstate
    have hactive := congrArg EdgeState.active hstate
    rw [EdgeTrigger.active_after] at hactive
    change s.active = _ at hactive
    rw [hactive]
    cases rs.getLast? <;> rfl
  · rw [hs] at hstate
    have hlast := congrArg EdgeState.lastFired hstate
    rw [EdgeTrigger.lastFired_after] at hlast
    change s.lastFiredAt = _ at hlast
    rw [hlast, h.alerts, ← List.getLast?_map, ← List.getLast?_map, times_fired]
    exact Option.or_none

theorem tracks_nil {w : World Id} (halerts : w.db.vehicleAlerts = [])
    (hstates : w.db.vehicleAlertStates = Table.empty) (imei : String) (t : VehicleAlertType) :
    Tracks g config rules w imei t [] [] := by
  have hnone : alertState? w imei t = none := by
    cases hv : vehicleOf w imei with
    | none => simp [alertState?, hv]
    | some v => rw [alertState?_eq hv, hstates, Table.find?_empty]
  refine ⟨by rw [hnone]; rfl, by simp [hnone], ?_⟩
  rw [alertsOf, halerts, List.filter_nil, List.map_nil]
  rfl

/-- The tables moved on. -/
theorem Tracks.handled {w w' : World Id} {imei : String} {t : VehicleAlertType} {rs : List Reading}
    {seen told : String → VehicleAlertType → List Reading}
    (h : Tracks g config rules w imei t rs rs) (h' : Handled g config rules w w' seen told) :
    Tracks g config rules w' imei t (rs ++ seen imei t) (rs ++ told imei t) where
  state := by rw [h'.state, h.state, EdgeTrigger.after_append]
  row := by
    rw [h'.row, h.row]
    simp only [List.mem_append, or_and_right, exists_or]
  alerts := by
    rw [h'.alerts, h.alerts, h.state, EdgeTrigger.fired_append, List.filterMap_append]

/-- From empty alert tables the trigger starts in its initial state. -/
theorem edgeTriggered_of_handled {w w' : World Id} (halerts : w.db.vehicleAlerts = [])
    (hstates : w.db.vehicleAlertStates = Table.empty) {rs : List Reading}
    (h : Handled g config rules w w' (byDevice rs) (byDevice rs)) (imei : String)
    (t : VehicleAlertType) : EdgeTriggered g config rules w' imei t (readingsOf imei rs) :=
  ((tracks_nil halerts hstates imei t).handled h).edgeTriggered

variable [FreshIds Id]

variable (g config) in
/-- Batches one after the other, without a failure. -/
theorem does_batches {w : World Id} (hw : Ready w) (batches : List Batch)
    (hevents : ∀ b ∈ batches, ∀ event ∈ b.2, imeiDigits event.imei = true) :
    ∃ w', Session.Does (batches.forM fun b => alertingHandler g config b.1 b.2) w () w' ∧
      Ready w' ∧ Moves w w' ∧ Handled g config (rulesOf config w.db) w w'
        (byDevice (freshOf config batches)) (byDevice (freshOf config batches)) := by
  refine Session.Does.forM_prefix (J := fun done w' => Ready w' ∧ Moves w w' ∧
    Handled g config (rulesOf config w.db) w w' (byDevice (freshOf config done))
      (byDevice (freshOf config done))) batches ?_ ⟨hw, .refl w, .refl w⟩
  rintro done b rest rfl u ⟨hready, hmoves, hhandled⟩
  obtain ⟨u', hdoes, hready', hmoves', hhandled'⟩ := does_alertingHandler g config hready b.1
    (hevents b (by simp))
  have hrules : rulesOf config u.db = rulesOf config w.db := by
    rw [rulesOf, selectActive, hmoves.geofences]
    rfl
  refine ⟨u', hdoes, hready', hmoves.trans hmoves', ?_⟩
  have hfresh : freshOf config (done ++ [b]) =
      freshOf config done ++ freshReadings config b.1 b.2 := by
    simp [freshOf]
  rw [hfresh, byDevice_append]
  exact hhandled.trans (hrules ▸ hhandled')

/-- Batches one after the other, the last one as far as behind its first `n` fresh readings. -/
def runUpTo (g : Geodesy D) (config : AlertingConfig) (batches : List Batch) (last : Batch) (n : ℕ) :
    Handler Id Unit := do
  batches.forM fun b => alertingHandler g config b.1 b.2
  alertingUpTo g config n last.1 last.2

/-- From empty alert tables, without a failure and with fixed zones: after every reading of every
run, the alerts about a device are those of its readings so far, whatever the batches are and
whatever the other devices send. -/
theorem alerts_edgeTriggered (g : Geodesy D) (config : AlertingConfig) {w : World Id} (hw : Ready w)
    (halerts : w.db.vehicleAlerts = []) (hstates : w.db.vehicleAlertStates = Table.empty)
    (batches : List Batch) (last : Batch) (n : ℕ)
    (hevents : ∀ b ∈ batches ++ [last], ∀ event ∈ b.2, imeiDigits event.imei = true) :
    ∃ w', Session.Does (runUpTo g config batches last n) w () w' ∧
      ∀ imei t, EdgeTriggered g config (rulesOf config w.db) w' imei t
        (readingsOf imei (freshOf config batches ++ (freshReadings config last.1 last.2).take n)) := by
  obtain ⟨u, hdoes, hready, hmoves, hhandled⟩ := does_batches g config hw batches
    fun b hb => hevents b (List.mem_append_left _ hb)
  obtain ⟨w', hdoes', _, _, hhandled'⟩ := does_alertingUpTo g config hready n last.1
    (hevents last (by simp))
  have hrules : rulesOf config u.db = rulesOf config w.db := by
    rw [rulesOf, selectActive, hmoves.geofences]
    rfl
  refine ⟨w', hdoes.bind hdoes', fun imei t => ?_⟩
  refine edgeTriggered_of_handled halerts hstates ?_ imei t
  rw [byDevice_append]
  exact hhandled.trans (hrules ▸ hhandled')

/-- Distances where there are no zones. -/
def noZones : Geodesy ℚ := ⟨fun _ _ => 0, fun z => z, round⟩

/-- A live report of one device, at 2024-01-01 and some minutes and seconds past midnight. -/
def report (time : String) (fuel : List FuelReading) : TelemetryEvent where
  schemaVersion := TELEMETRY_SCHEMA_VERSION
  dedupKey := "356307042441013:" ++ time
  imei := "356307042441013"
  codec := .codec8
  recordedAt := "2024-01-01T00:" ++ time ++ ".000Z"
  receivedAt := "2024-01-01T00:" ++ time ++ ".000Z"
  priority := 0
  eventIoId := 0
  gps := none
  ignition := none
  movement := none
  fuel
  externalVoltageMv := none
  batteryVoltageMv := none
  odometerM := none
  rawIo := Table.empty
  rawIoVariable := Table.empty

/-- A tank at ten per cent. -/
def lowTank : List FuelReading := [⟨.canPct, some 10, none⟩]

/-- The clock five minutes past midnight. -/
def fiveMinutesPast : Clock := ⟨1704067500000, 1704067500000, 1704067500000⟩

/-- A process that has just started, over an empty database. -/
def emptyWorld : World ℕ := .start .empty

theorem ready_emptyWorld : Ready emptyWorld := by
  refine .start ⟨fun a ha => ?_, fun s hs => ?_⟩
  · cases ha
  · cases hs

/-- Two low readings one minute apart. -/
def twoReports : Batch := (fiveMinutesPast, [report "01:00" lowTank, report "02:00" lowTank])

theorem alerts_edgeTriggered_report :
    ∃ w', Session.Does (runUpTo noZones .defaults [] twoReports 2) emptyWorld () w' ∧
      ∀ imei t, EdgeTriggered noZones .defaults (rulesOf .defaults emptyWorld.db) w' imei t
        (readingsOf imei (freshOf .defaults [] ++
          (freshReadings .defaults twoReports.1 twoReports.2).take 2)) :=
  alerts_edgeTriggered noZones .defaults ready_emptyWorld rfl rfl [] twoReports 2 (by decide)

/-! ## Readings that say nothing -/

/-- The reading of an event with a valid time. -/
def readingOf (event : TelemetryEvent) : Reading := ⟨event, (JsDate.parse event.recordedAt).getD 0⟩

/-- Live events: they are fresh by the clock of their batch. -/
def Fresh (config : AlertingConfig) (b : Batch) : Prop :=
  ∀ event ∈ b.2, (freshReading? config b.1.received event).isSome = true

instance (b : Batch) : Decidable (Fresh config b) :=
  inferInstanceAs (Decidable (∀ event ∈ b.2, _))

theorem freshReading?_eq {now : ℤ} {event : TelemetryEvent}
    (h : (freshReading? config now event).isSome = true) :
    freshReading? config now event = some (readingOf event) := by
  unfold freshReading? at h ⊢
  cases hparse : JsDate.parse event.recordedAt with
  | none => simp [hparse] at h
  | some time =>
    rw [hparse] at h
    dsimp only at h ⊢
    split at h
    · next hfresh => rw [if_pos hfresh, readingOf, hparse, Option.getD_some]
    · cases h

theorem freshReadings_of_fresh {b : Batch} (h : Fresh config b) :
    freshReadings config b.1 b.2 = b.2.map readingOf := by
  rw [freshReadings, ← List.filterMap_eq_map]
  exact List.filterMap_congr fun event hevent => freshReading?_eq (h event hevent)

theorem freshOf_of_fresh {batches : List Batch} (h : ∀ b ∈ batches, Fresh config b) :
    freshOf config batches = (batches.flatMap Prod.snd).map readingOf := by
  rw [freshOf, List.map_flatMap]
  exact List.flatMap_congr fun b hb => freshReadings_of_fresh (h b hb)

variable (g config) in
/-- Live batches about one device. -/
theorem does_liveBatches {w : World Id} (hw : Ready w) {imei : String}
    (himei : imeiDigits imei = true) {batches : List Batch} (hfresh : ∀ b ∈ batches, Fresh config b)
    (hdevice : ∀ event ∈ batches.flatMap Prod.snd, event.imei = imei) :
    ∃ w', Session.Does (batches.forM fun b => alertingHandler g config b.1 b.2) w () w' ∧
      ∀ t, alertsOf w' imei t = alertsOf w imei t ++
        ((trigger g config (rulesOf config w.db) t).fired (edgeState (alertState? w imei t))
          ((batches.flatMap Prod.snd).map readingOf)).filterMap
            (alertContent g (rulesOf config w.db) t) := by
  have hevents : ∀ b ∈ batches, ∀ event ∈ b.2, imeiDigits event.imei = true := by
    intro b hb event hevent
    rw [hdevice event (List.mem_flatMap.mpr ⟨b, hb, hevent⟩), himei]
  obtain ⟨w', hdoes, _, _, hhandled⟩ := does_batches g config hw batches hevents
  refine ⟨w', hdoes, fun t => ?_⟩
  have hall : byDevice (freshOf config batches) imei t =
      (batches.flatMap Prod.snd).map readingOf := by
    rw [freshOf_of_fresh hfresh, byDevice, List.filter_eq_self]
    intro r hr
    obtain ⟨event, hevent, rfl⟩ := List.mem_map.mp hr
    exact decide_eq_true (hdevice event hevent)
  rw [hhandled.alerts, hall]

/-- A history of events in which some are marked as inserted, as readings. -/
def readingItems (items : List (TelemetryEvent × Bool)) : List (Reading × Bool) :=
  items.map fun i => (readingOf i.1, i.2)

/-- Events of one device in two runs, with and without some that say nothing about a condition: both
runs write the same alerts about it exactly if every insertion is harmless. -/
theorem alerts_unchanged_iff (g : Geodesy D) (config : AlertingConfig) {w : World Id} (hw : Ready w)
    (t : VehicleAlertType) {imei : String} (himei : imeiDigits imei = true)
    (items : List (TelemetryEvent × Bool)) (hdevice : ∀ i ∈ items, i.1.imei = imei)
    (hsilent : ∀ i ∈ items, i.2 = true → Silent t i.1) (original inserted : List Batch)
    (hfresh : ∀ b ∈ original ++ inserted, Fresh config b)
    (horiginal : original.flatMap Prod.snd = EdgeTrigger.kept items)
    (hinserted : inserted.flatMap Prod.snd = items.map Prod.fst) :
    ∃ w₁ w₂, Session.Does (original.forM fun b => alertingHandler g config b.1 b.2) w () w₁ ∧
      Session.Does (inserted.forM fun b => alertingHandler g config b.1 b.2) w () w₂ ∧
      ((alertsOf w₂ imei t).Perm (alertsOf w₁ imei t) ↔
        (trigger g config (rulesOf config w.db) t).Harmless (edgeState (alertState? w imei t))
          (readingItems items)) := by
  have hkept : EdgeTrigger.kept (readingItems items) = (EdgeTrigger.kept items).map readingOf := by
    simp [EdgeTrigger.kept, readingItems, List.filter_map, Function.comp_def]
  have hall : (readingItems items).map Prod.fst = (items.map Prod.fst).map readingOf := by
    simp [readingItems]
  have hquiet : ∀ i ∈ readingItems items, i.2 = true →
      (trigger g config (rulesOf config w.db) t).holds i.1 = false := by
    intro i hi htrue
    obtain ⟨item, hitem, rfl⟩ := List.mem_map.mp hi
    exact candidateFor_of_silent (hsilent item hitem htrue)
  obtain ⟨w₁, hdoes₁, halerts₁⟩ := does_liveBatches g config hw himei
    (fun b hb => hfresh b (List.mem_append_left _ hb)) fun event hevent => by
      rw [horiginal] at hevent
      obtain ⟨item, hitem, rfl⟩ := List.mem_map.mp hevent
      exact hdevice item (List.mem_of_mem_filter hitem)
  obtain ⟨w₂, hdoes₂, halerts₂⟩ := does_liveBatches g config hw himei
    (fun b hb => hfresh b (List.mem_append_right _ hb)) fun event hevent => by
      rw [hinserted] at hevent
      obtain ⟨item, hitem, rfl⟩ := List.mem_map.mp hevent
      exact hdevice item hitem
  refine ⟨w₁, w₂, hdoes₁, hdoes₂, ?_⟩
  rw [halerts₁, halerts₂, horiginal, hinserted, ← hkept, ← hall, List.perm_append_left_iff]
  constructor
  · intro hperm
    have htimes := hperm.map Prod.fst
    rw [times_fired, times_fired] at htimes
    exact (EdgeTrigger.perm_fired_kept config.cooldownMs_pos hquiet).mp htimes
  · intro hharmless
    rw [EdgeTrigger.fired_kept hquiet hharmless]

/-- The two low readings with a report without fuel levels between them. -/
def interleaved : Batch :=
  (fiveMinutesPast, [report "01:00" lowTank, report "01:30" [], report "02:00" lowTank])

theorem alerts_unchanged_report :
    ∃ w₁ w₂, Session.Does ([twoReports].forM fun b =>
        alertingHandler noZones .defaults b.1 b.2) emptyWorld () w₁ ∧
      Session.Does ([interleaved].forM fun b =>
        alertingHandler noZones .defaults b.1 b.2) emptyWorld () w₂ ∧
      ((alertsOf w₂ "356307042441013" .lowFuel).Perm (alertsOf w₁ "356307042441013" .lowFuel) ↔
        (trigger noZones .defaults (rulesOf .defaults emptyWorld.db) .lowFuel).Harmless
          (edgeState (alertState? emptyWorld "356307042441013" .lowFuel))
          (readingItems [(report "01:00" lowTank, false), (report "01:30" [], true),
            (report "02:00" lowTank, false)])) := by
  refine alerts_unchanged_iff noZones .defaults ready_emptyWorld .lowFuel (by decide) _ ?_ ?_ _ _
    (by decide) rfl rfl
  · decide
  · intro i hi hinserted
    simp only [List.mem_cons, List.not_mem_nil, or_false] at hi
    rcases hi with rfl | rfl | rfl
    · cases hinserted
    · intro reading hreading
      cases hreading
    · cases hinserted

/-- A report that says nothing about fuel makes a tank that is still low be reported again. -/
theorem silent_report_rearms : Silent .lowFuel (report "01:30" []) ∧ Fresh .defaults interleaved ∧
    ∃ w₁ w₂, Session.Does ([twoReports].forM fun b =>
        alertingHandler noZones .defaults b.1 b.2) emptyWorld () w₁ ∧
      Session.Does ([interleaved].forM fun b =>
        alertingHandler noZones .defaults b.1 b.2) emptyWorld () w₂ ∧
      alertsOf w₁ "356307042441013" .lowFuel = [(1704067260000, .lowFuel 10 15 .canPct)] ∧
      alertsOf w₂ "356307042441013" .lowFuel =
        [(1704067260000, .lowFuel 10 15 .canPct), (1704067320000, .lowFuel 10 15 .canPct)] := by
  obtain ⟨w₁, hdoes₁, halerts₁⟩ := does_liveBatches noZones .defaults ready_emptyWorld
    (by decide : imeiDigits "356307042441013" = true)
    (by decide : ∀ b ∈ [twoReports], Fresh .defaults b) (by decide)
  obtain ⟨w₂, hdoes₂, halerts₂⟩ := does_liveBatches noZones .defaults ready_emptyWorld
    (by decide : imeiDigits "356307042441013" = true)
    (by decide : ∀ b ∈ [interleaved], Fresh .defaults b) (by decide)
  refine ⟨fun reading hreading => ?_, by decide, w₁, w₂, hdoes₁, hdoes₂, ?_, ?_⟩
  · cases hreading
  · rw [halerts₁]
    decide
  · rw [halerts₂]
    decide

end BankPlatform.Telemetry
