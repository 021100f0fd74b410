import BankPlatform.Telemetry.AlertRuns

/-!
# Redelivered batches

Kafka delivers a batch again when its handler failed, and may do so when it succeeded. The alert
tables have no natural key, so what a second pass writes is decided by the rows of the conditions.

## Main definitions

* `Swallowed` — a failure behind which an alert is remembered but not there, and stays away.

## Main results

* `retry_covers_iff` — when the retry of a batch makes up for a failure.
* `redelivery_adds_nothing_iff` — when a second pass writes no alert.
-/

namespace BankPlatform.Telemetry

open Library Teltonika

variable {Id : Type} [DecidableEq Id] {D : Type} [LT D] [DecidableLT D] [LE D] [DecidableLE D]
  {g : Geodesy D} {config : AlertingConfig} {rules : AlertRuleConfig}

/-! ## A failure and a retry -/

/-- The failure strikes at a reading that fires, when its condition is recorded and the alert is
not; and every reading of the device before it in the batch satisfies the condition, too. -/
def Swallowed (g : Geodesy D) (config : AlertingConfig) (rules : AlertRuleConfig) (w : World Id)
    (readings : List Reading) (label : Statement) (landed : Bool) : Prop :=
  ∃ before r after t, readings = before ++ r :: after ∧
    (∀ r' ∈ before, r'.imei = r.imei → (trigger g config rules t).holds r' = true) ∧
    Swallows before.length t
      ((trigger g config rules t).fires ((trigger g config rules t).after
        (edgeState (alertState? w r.imei t)) (readingsOf r.imei before)) r) label landed

/-- The statement that fails says which reading is concerned. -/
theorem Swallows.about {position : ℕ} {t : VehicleAlertType} {fires : Bool} {label : Statement}
    {landed : Bool} (h : Swallows position t fires label landed) :
    label.about = some (position, t) := by
  rcases h with ⟨rfl, _⟩ | ⟨rfl, _, _⟩
  · rfl
  · rfl

theorem swallowed_iff {w : World Id} {readings before after : List Reading} {r : Reading}
    {t : VehicleAlertType} {label : Statement} {landed fires : Bool}
    (hsplit : readings = before ++ r :: after) (habout : label.about = some (before.length, t))
    (hfires : fires = (trigger g config rules t).fires ((trigger g config rules t).after
      (edgeState (alertState? w r.imei t)) (readingsOf r.imei before)) r) :
    Swallowed g config rules w readings label landed ↔
      (∀ r' ∈ readingsOf r.imei before, (trigger g config rules t).holds r' = true) ∧
        Swallows before.length t fires label landed := by
  have hall : ∀ (before : List Reading) (imei : String) (t : VehicleAlertType),
      (∀ r' ∈ before, r'.imei = imei → (trigger g config rules t).holds r' = true) ↔
        ∀ r' ∈ readingsOf imei before, (trigger g config rules t).holds r' = true := by
    intro before imei t
    simp [readingsOf]
  subst hfires
  constructor
  · rintro ⟨before', r', after', t', hsplit', hholds, hswallows⟩
    have hsame := hswallows.about.symm.trans habout
    simp only [Option.some.injEq, Prod.mk.injEq] at hsame
    obtain ⟨hlength, rfl⟩ := hsame
    obtain ⟨rfl, hrest⟩ := List.append_inj (hsplit'.symm.trans hsplit) hlength
    obtain ⟨rfl, _⟩ := List.cons.inj hrest
    exact ⟨(hall _ _ _).mp hholds, hswallows⟩
  · rintro ⟨hholds, hswallows⟩
    exact ⟨before, r, after, t, hsplit, (hall _ _ _).mpr hholds, hswallows⟩

theorem subperm_map {α β : Type} {l l' : List α} (h : l.Subperm l') (f : α → β) :
    (l.map f).Subperm (l'.map f) := by
  obtain ⟨m, hperm, hsub⟩ := h
  exact ⟨m.map f, hperm.map f, hsub.map f⟩

/-- One condition, over the readings `rs` of a device: a first pass that came as far as `s` (or
`s'`, as far as the alerts go) behind `before`, and a second pass. -/
theorem retry_of_stopped {t : VehicleAlertType} {state : EdgeState} {before : List Reading}
    (after : List Reading) {r : Reading} {swallows : Prop} {s s' : List Reading}
    (h : Stopped r ((trigger g config rules t).fires
      ((trigger g config rules t).after state before) r = true) swallows s s') :
    (((trigger g config rules t).fired state (before ++ r :: after)).map Reading.recordedAt).Subperm
        (((trigger g config rules t).fired state (before ++ s') ++
          (trigger g config rules t).fired ((trigger g config rules t).after state (before ++ s))
            (before ++ r :: after)).map Reading.recordedAt) ↔
      ¬ ((∀ r' ∈ before, (trigger g config rules t).holds r' = true) ∧ swallows) := by
  cases h with
  | idle hs =>
    refine iff_of_true ?_ fun h => hs h.2
    rw [List.append_nil]
    exact subperm_map (EdgeTrigger.retry_covers config.cooldownMs_pos _ _) _
  | done hs =>
    refine iff_of_true ?_ fun h => hs h.2
    rw [List.append_cons before r after]
    exact subperm_map (EdgeTrigger.retry_covers config.cooldownMs_pos _ _) _
  | gap hfires hs =>
    rw [List.append_nil]
    constructor
    · rintro hcovers ⟨hall, _⟩
      have hloses := EdgeTrigger.retry_loses config.cooldownMs_pos after hall hfires
      have hlength := hcovers.length_le
      rw [List.length_map, List.length_map, hloses.length_eq, List.length_cons] at hlength
      omega
    · intro hnot
      have hbreak : ∃ r' ∈ before, (trigger g config rules t).holds r' = false := by
        by_contra hnone
        exact hnot ⟨by simpa using hnone, hs⟩
      exact subperm_map (EdgeTrigger.retry_covers_of_break _ hbreak) _

/-- The times of the alerts behind a retry: those from before, those of the first pass, and those of
the second. -/
theorem times_retry {w w' w'' : World Id} {seen told again : String → VehicleAlertType → List Reading}
    (h : Handled g config rules w w' seen told) (h' : Handled g config rules w' w'' again again)
    (imei : String) (t : VehicleAlertType) :
    (alertsOf w'' imei t).map Prod.fst = (alertsOf w imei t).map Prod.fst ++
      ((trigger g config rules t).fired (edgeState (alertState? w imei t)) (told imei t) ++
        (trigger g config rules t).fired ((trigger g config rules t).after
          (edgeState (alertState? w imei t)) (seen imei t)) (again imei t)).map
            Reading.recordedAt := by
  rw [h'.alerts, h.alerts, h.state, List.map_append, List.map_append, times_fired, times_fired,
    List.map_append, List.append_assoc]

variable (g config rules) in
/-- A world with the same tables, between batches. -/
theorem handled_of_db {w w' : World Id} (h : w'.db = w.db) :
    Handled g config rules w w' (fun _ _ => []) (fun _ _ => []) := by
  have hof : ∀ imei, vehicleOf w' imei = vehicleOf w imei := fun imei => by
    rw [vehicleOf, h, ← vehicleOf]
  have hstate : ∀ imei t, alertState? w' imei t = alertState? w imei t := fun imei t => by
    simp only [alertState?, hof, selectAlertState, h]
  have halerts : ∀ imei t, alertsOf w' imei t = alertsOf w imei t := fun imei t => by
    simp only [alertsOf, hof, h]
  refine ⟨fun imei t => ?_, fun imei t => ?_, fun imei t => ?_, ?_⟩
  · rw [hstate, EdgeTrigger.after_nil]
  · rw [hstate]
    simp
  · rw [halerts]
    simp [EdgeTrigger.fired]
  · rw [h]

variable [FreshIds Id]

variable (g config) in
/-- A batch of live events, without a failure. -/
theorem does_liveBatch {w : World Id} (hw : Ready w) {clock : Clock} {events : List TelemetryEvent}
    (hfresh : Fresh config (clock, events))
    (hevents : ∀ event ∈ events, imeiDigits event.imei = true) :
    ∃ w', Session.Does (alertingHandler g config clock events) w () w' ∧ Ready w' ∧ Moves w w' ∧
      Handled g config (rulesOf config w.db) w w' (byDevice (events.map readingOf))
        (byDevice (events.map readingOf)) := by
  have h := does_alertingHandler g config hw clock hevents
  rwa [show freshReadings config clock events = events.map readingOf from
    freshReadings_of_fresh hfresh] at h

/-- Of another device or type the failure left a part of the readings unseen, if any. -/
theorem Interrupted.exists_rest {before after readings : List Reading} {r : Reading}
    {t : VehicleAlertType} {fires swallows : Prop}
    {seen told : String → VehicleAlertType → List Reading}
    (h : Interrupted before r t fires swallows seen told) (hsplit : readings = before ++ r :: after)
    {imei : String} {t' : VehicleAlertType} (hne : ¬ (imei = r.imei ∧ t' = t)) :
    ∃ rest, byDevice readings imei t' = seen imei t' ++ rest := by
  rcases (h.other imei t' hne).2 with hseen | hseen
  · exact ⟨byDevice (r :: after) imei t', by rw [hseen, hsplit, byDevice_append]⟩
  · refine ⟨byDevice after imei t', ?_⟩
    rw [hseen, hsplit, List.append_cons, byDevice_append]

/-- A batch of live events fails at some statement and is delivered again, to the same process or to
one that has started since. Every alert that a pass without a failure writes is there in the end,
exactly if the failure did not swallow one. -/
theorem retry_covers_iff (g : Geodesy D) (config : AlertingConfig) {w w₁ w₁' : World Id}
    (hw : Ready w) (clock clock₁ clock₂ : Clock) (events : List TelemetryEvent)
    (hevents : ∀ event ∈ events, imeiDigits event.imei = true)
    (hfresh : ∀ c ∈ [clock, clock₁, clock₂], Fresh config (c, events))
    {label : Statement} {landed : Bool}
    (hfails : Session.Fails (alertingHandler g config clock₁ events) w label landed w₁)
    (hretry : w₁' = w₁ ∨ w₁' = .start w₁.db) :
    ∃ w₀ w₂, Session.Does (alertingHandler g config clock events) w () w₀ ∧
      Session.Does (alertingHandler g config clock₂ events) w₁' () w₂ ∧
      ((∀ imei t, ((alertsOf w₀ imei t).map Prod.fst).Subperm
          ((alertsOf w₂ imei t).map Prod.fst)) ↔
        ¬ Swallowed g config (rulesOf config w.db) w (events.map readingOf) label landed) := by
  obtain ⟨hw₁, hmoves, hcases⟩ := fails_alertingHandler hw hevents hfails
  have hdb : w₁'.db = w₁.db := by
    rcases hretry with rfl | rfl
    · rfl
    · rfl
  have hw₁' : Ready w₁' := by
    rcases hretry with rfl | rfl
    · exact hw₁
    · exact .start hw₁.references
  obtain ⟨w₀, hdoes₀, _, _, hhandled₀⟩ := does_liveBatch g config hw (hfresh clock (by simp)) hevents
  obtain ⟨w₂, hdoes₂, _, _, hhandled₂⟩ :=
    does_liveBatch g config hw₁' (hfresh clock₂ (by simp)) hevents
  have hrules : rulesOf config w₁'.db = rulesOf config w.db := by
    rw [rulesOf, selectActive, hdb, hmoves.geofences]
    rfl
  rw [hrules] at hhandled₂
  have hsecond := (handled_of_db g config (rulesOf config w.db) hdb).trans hhandled₂
  have hfirst : ∀ imei t, (alertsOf w₀ imei t).map Prod.fst = (alertsOf w imei t).map Prod.fst ++
      ((trigger g config (rulesOf config w.db) t).fired (edgeState (alertState? w imei t))
        (byDevice (events.map readingOf) imei t)).map Reading.recordedAt := by
    intro imei t
    rw [hhandled₀.alerts, List.map_append, times_fired]
  rw [show freshReadings config clock₁ events = events.map readingOf from
    freshReadings_of_fresh (hfresh clock₁ (by simp))] at hcases
  refine ⟨w₀, w₂, hdoes₀, hdoes₂, ?_⟩
  rcases hcases with ⟨habout, hhandled⟩ | ⟨before, r, after, t, hsplit, habout, fires, hfires, seen,
    told, hhandled, hinterrupted⟩
  · refine iff_of_true (fun imei t => ?_) ?_
    · rw [hfirst, times_retry hhandled hsecond]
      exact .refl _
    · rintro ⟨_, _, _, _, _, _, hswallows⟩
      cases habout.symm.trans hswallows.about
  · rw [swallowed_iff hsplit habout hfires]
    obtain ⟨s, s', hseen, htold, hstopped⟩ := hinterrupted.here
    have hhere : byDevice (events.map readingOf) r.imei t =
        byDevice before r.imei t ++ r :: byDevice after r.imei t := by
      simp [hsplit, byDevice]
    rw [hfires] at hstopped
    have hcondition := retry_of_stopped (byDevice after r.imei t) hstopped
    rw [← hhere, ← hseen, ← htold, ← hfires] at hcondition
    constructor
    · intro hcovers
      have hcovers := hcovers r.imei t
      rw [hfirst, times_retry hhandled hsecond, List.subperm_append_left] at hcovers
      exact hcondition.mp hcovers
    · intro hnot imei t'
      rw [hfirst, times_retry hhandled hsecond, List.subperm_append_left]
      by_cases heq : imei = r.imei ∧ t' = t
      · obtain ⟨rfl, rfl⟩ := heq
        exact hcondition.mpr hnot
      · obtain ⟨rest, hrest⟩ := hinterrupted.exists_rest hsplit heq
        rw [(hinterrupted.other imei t' heq).1, hrest]
        exact subperm_map (EdgeTrigger.retry_covers config.cooldownMs_pos _ _) _

/-- One low reading. -/
def oneReport : List TelemetryEvent := [report "01:00" lowTank]

/-- A failure of the statement that looks the condition up. -/
theorem retry_covers_report : ∃ w₁ : World ℕ,
    Session.Fails (alertingHandler noZones .defaults fiveMinutesPast oneReport) emptyWorld
      (.selectAlertState 0 .lowFuel) false w₁ ∧
    ∃ w₀ w₂, Session.Does (alertingHandler noZones .defaults fiveMinutesPast oneReport) emptyWorld ()
        w₀ ∧
      Session.Does (alertingHandler noZones .defaults fiveMinutesPast oneReport) w₁ () w₂ ∧
      ((∀ imei t, ((alertsOf w₀ imei t).map Prod.fst).Subperm
          ((alertsOf w₂ imei t).map Prod.fst)) ↔
        ¬ Swallowed noZones .defaults (rulesOf .defaults emptyWorld.db) emptyWorld
          (oneReport.map readingOf) (.selectAlertState 0 .lowFuel) false) := by
  have hfails : ∃ w₁ : World ℕ,
      Session.Fails (alertingHandler noZones .defaults fiveMinutesPast oneReport) emptyWorld
        (.selectAlertState 0 .lowFuel) false w₁ := ⟨_, 3, rfl⟩
  obtain ⟨w₁, hfails⟩ := hfails
  exact ⟨w₁, hfails, retry_covers_iff noZones .defaults ready_emptyWorld fiveMinutesPast
    fiveMinutesPast fiveMinutesPast oneReport (by decide) (by decide) hfails (.inl rfl)⟩

/-- The insert of the alert fails: the retry finds the condition active and does not report it. -/
theorem failed_insert_swallows : ∃ w₁ w₀ w₂ : World ℕ,
    Session.Fails (alertingHandler noZones .defaults fiveMinutesPast oneReport) emptyWorld
      (.insertAlert 0 .lowFuel) false w₁ ∧
    Session.Does (alertingHandler noZones .defaults fiveMinutesPast oneReport) emptyWorld () w₀ ∧
    Session.Does (alertingHandler noZones .defaults fiveMinutesPast oneReport) w₁ () w₂ ∧
    alertsOf w₀ "356307042441013" .lowFuel = [(1704067260000, .lowFuel 10 15 .canPct)] ∧
    w₂.db.vehicleAlerts = [] :=
  ⟨_, _, _, ⟨5, rfl⟩, rfl, rfl, by decide, rfl⟩

/-! ## A second pass -/

theorem forall_byDevice {events : List TelemetryEvent} {imei : String} {t : VehicleAlertType}
    {p : Reading → Prop} : (∀ r ∈ byDevice (events.map readingOf) imei t, p r) ↔
      ∀ event ∈ events, event.imei = imei → p (readingOf event) := by
  simp only [byDevice, List.mem_filter, decide_eq_true_eq, and_imp, List.forall_mem_map]
  rfl

/-- A batch of live events is handled twice: the second pass writes no alert exactly if each
condition, for each device, holds in all of its readings in the batch or in none. -/
theorem redelivery_adds_nothing_iff (g : Geodesy D) (config : AlertingConfig) {w : World Id}
    (hw : Ready w) (clock clock' : Clock) (events : List TelemetryEvent)
    (hevents : ∀ event ∈ events, imeiDigits event.imei = true)
    (hfresh : Fresh config (clock, events)) (hfresh' : Fresh config (clock', events)) :
    ∃ w₁ w₂, Session.Does (alertingHandler g config clock events) w () w₁ ∧
      Session.Does (alertingHandler g config clock' events) w₁ () w₂ ∧
      (w₂.db.vehicleAlerts = w₁.db.vehicleAlerts ↔ ∀ imei t,
        (∀ event ∈ events, event.imei = imei →
          (candidateFor g (rulesOf config w.db) t event).isSome = true) ∨
        ∀ event ∈ events, event.imei = imei →
          (candidateFor g (rulesOf config w.db) t event).isSome = false) := by
  obtain ⟨w₁, hdoes₁, hw₁, hmoves₁, hhandled₁⟩ := does_liveBatch g config hw hfresh hevents
  obtain ⟨w₂, hdoes₂, hw₂, hmoves₂, hhandled₂⟩ := does_liveBatch g config hw₁ hfresh' hevents
  have hrules : rulesOf config w₁.db = rulesOf config w.db := by
    rw [rulesOf, selectActive, hmoves₁.geofences]
    rfl
  rw [hrules] at hhandled₂
  refine ⟨w₁, w₂, hdoes₁, hdoes₂, ?_⟩
  rw [hmoves₂.alerts_eq_iff hw₁.references hw₂.references hhandled₂.grows]
  refine forall_congr' fun imei => forall_congr' fun t => ?_
  have hagain := EdgeTrigger.fired_again (e := trigger g config (rulesOf config w.db) t)
    (s := edgeState (alertState? w imei t)) config.cooldownMs_pos
    (byDevice (events.map readingOf) imei t)
  have hnone : alertsOf w₂ imei t = alertsOf w₁ imei t ↔
      (trigger g config (rulesOf config w.db) t).fired (edgeState (alertState? w₁ imei t))
        (byDevice (events.map readingOf) imei t) = [] := by
    rw [hhandled₂.alerts, List.append_right_eq_self, ← List.map_eq_nil_iff (f := Prod.fst),
      times_fired, List.map_eq_nil_iff]
  rw [hnone, hhandled₁.state, hagain, forall_byDevice, forall_byDevice]
  rfl

/-- A low tank and a full one. -/
def mixedReports : List TelemetryEvent :=
  [report "01:00" lowTank, report "02:00" [⟨.canPct, some 80, none⟩]]

theorem redelivery_adds_nothing_report :
    ∃ w₁ w₂, Session.Does (alertingHandler noZones .defaults fiveMinutesPast twoReports.2) emptyWorld
        () w₁ ∧
      Session.Does (alertingHandler noZones .defaults fiveMinutesPast twoReports.2) w₁ () w₂ ∧
      (w₂.db.vehicleAlerts = w₁.db.vehicleAlerts ↔ ∀ imei t,
        (∀ event ∈ twoReports.2, event.imei = imei →
          (candidateFor noZones (rulesOf .defaults emptyWorld.db) t event).isSome = true) ∨
        ∀ event ∈ twoReports.2, event.imei = imei →
          (candidateFor noZones (rulesOf .defaults emptyWorld.db) t event).isSome = false) :=
  redelivery_adds_nothing_iff noZones .defaults ready_emptyWorld fiveMinutesPast fiveMinutesPast
    twoReports.2 (by decide) (by decide) (by decide)

/-- The tank was low and then full: a second pass reports the low reading again. -/
theorem redelivered_batch_repeats : Fresh .defaults (fiveMinutesPast, mixedReports) ∧
    ∃ w₁ w₂ : World ℕ,
      Session.Does (alertingHandler noZones .defaults fiveMinutesPast mixedReports) emptyWorld () w₁ ∧
      Session.Does (alertingHandler noZones .defaults fiveMinutesPast mixedReports) w₁ () w₂ ∧
      w₁.db.vehicleAlerts.length = 1 ∧ w₂.db.vehicleAlerts.length = 2 :=
  ⟨by decide, _, _, rfl, rfl, rfl, rfl⟩

end BankPlatform.Telemetry
