import BankPlatform.Telemetry.Event
import BankPlatform.Telemetry.Store
import Mathlib.Data.List.MinMax

/-!
# The alert rules

`apps/telemetry-consumers/src/alerting/rules.ts`: which alert conditions a reading satisfies. The
great-circle distance is floating-point arithmetic and left open, as is the order of its values; the
rules only compare distances.

## Main definitions

* `Geodesy` — distances.
* `evaluateRules` — the conditions that a reading satisfies, with what each matched on.
* `candidateFor` — the one of a type.

## Main results

* `candidateFor_isSome` — a condition holds exactly if the rules yield its type.
* `candidateFor_lowFuel`, `candidateFor_speeding`, `candidateFor_geofenceExit` — what that means.
* `candidateFor_of_silent` — a reading that says nothing about a condition does not satisfy it.
-/

namespace BankPlatform.Telemetry

open Library Teltonika

structure Coordinates where
  latitude : ℚ
  longitude : ℚ
  deriving DecidableEq, Repr

/-- Distances, with the ones that are a whole number of metres. -/
structure Geodesy (D : Type) where
  haversineMeters : Coordinates → Coordinates → D
  metres : ℤ → D
  /-- `Math.round`. -/
  round : D → ℤ

structure AlertRuleConfig where
  lowFuelPct : ℤ
  speedLimitKph : ℤ
  geofences : List Geofence

structure AlertCandidate where
  alertType : VehicleAlertType
  details : AlertDetails
  deriving DecidableEq, Repr

/-! ## Fuel -/

/-- One round of the search for the worst reading. Of equal ones the first stays. -/
def worse (worst : Option (FuelSource × ℚ)) (reading : FuelReading) : Option (FuelSource × ℚ) :=
  match reading.pct with
  | none => worst
  | some pct =>
    match worst with
    | none => some (reading.source, pct)
    | some w => if pct < w.2 then some (reading.source, pct) else worst

/-- The lowest percentage, with its sensor. -/
def lowest (fuel : List FuelReading) : Option (FuelSource × ℚ) :=
  (fuel.filter fun reading => reading.pct ≠ none).foldl worse none

def lowFuel (fuel : List FuelReading) (config : AlertRuleConfig) : List AlertCandidate :=
  match lowest fuel with
  | none => []
  | some (source, pct) =>
    if pct < config.lowFuelPct then
      [⟨.lowFuel, .lowFuel pct config.lowFuelPct source⟩]
    else []

/-- The percentages of a report, with their sensors. -/
def percentages (fuel : List FuelReading) : List (FuelSource × ℚ) :=
  fuel.filterMap fun reading => reading.pct.map fun pct => (reading.source, pct)

theorem mem_percentages {fuel : List FuelReading} {source : FuelSource} {pct : ℚ} :
    (source, pct) ∈ percentages fuel ↔
      ∃ reading ∈ fuel, reading.source = source ∧ reading.pct = some pct := by
  rw [percentages, List.mem_filterMap]
  constructor
  · rintro ⟨reading, hmem, hread⟩
    obtain ⟨pct', hpct, heq⟩ := Option.map_eq_some_iff.mp hread
    cases heq
    exact ⟨reading, hmem, rfl, hpct⟩
  · rintro ⟨reading, hmem, rfl, hpct⟩
    exact ⟨reading, hmem, by rw [hpct, Option.map_some]⟩

/-- The search finds the first of the smallest percentages. -/
theorem lowest_eq_argmin (fuel : List FuelReading) :
    lowest fuel = (percentages fuel).argmin Prod.snd := by
  have hfold : ∀ worst : Option (FuelSource × ℚ),
      (fuel.filter fun reading => reading.pct ≠ none).foldl worse worst =
        (percentages fuel).foldl (List.argAux fun b c => b.2 < c.2) worst := by
    induction fuel with
    | nil => exact fun worst => rfl
    | cons reading fuel ih =>
      intro worst
      cases hpct : reading.pct with
      | none => simpa [percentages, hpct] using ih worst
      | some pct =>
        have hstep : worse worst reading =
            List.argAux (fun b c => b.2 < c.2) worst (reading.source, pct) := by
          cases worst <;> simp [worse, hpct, List.argAux]
        have hrest := ih (worse worst reading)
        rw [hstep] at hrest
        simpa [percentages, hpct, hstep] using hrest
  exact hfold none

/-- The lowest percentage is below a bound exactly if one of them is. -/
theorem lowest_lt_iff {fuel : List FuelReading} {q : ℚ} :
    (∃ w, lowest fuel = some w ∧ w.2 < q) ↔
      ∃ reading ∈ fuel, ∃ pct ∈ reading.pct, pct < q := by
  rw [lowest_eq_argmin]
  constructor
  · rintro ⟨⟨source, pct⟩, hw, hlt⟩
    obtain ⟨reading, hmem, -, hpct⟩ := mem_percentages.mp (List.argmin_mem (Option.mem_def.mpr hw))
    exact ⟨reading, hmem, pct, hpct, hlt⟩
  · rintro ⟨reading, hmem, pct, hpct, hlt⟩
    have hread := mem_percentages.mpr ⟨reading, hmem, rfl, hpct⟩
    have hsome : (percentages fuel).argmin Prod.snd ≠ none :=
      mt List.argmin_eq_none.mp (List.ne_nil_of_mem hread)
    obtain ⟨w, hw⟩ := Option.ne_none_iff_exists'.mp hsome
    exact ⟨w, hw, (List.le_of_mem_argmin hread hw).trans_lt hlt⟩

/-! ## Position -/

section

variable {D : Type} [LT D] [DecidableLT D] [LE D] [DecidableLE D] (g : Geodesy D)

def speeding (gps : NormalizedGps) (config : AlertRuleConfig) : List AlertCandidate :=
  if gps.speedKph > config.speedLimitKph then
    [⟨.speeding, .speeding gps.speedKph config.speedLimitKph⟩]
  else []

def distanceTo (gps : NormalizedGps) (geofence : Geofence) : D :=
  g.haversineMeters ⟨gps.latitude, gps.longitude⟩
    ⟨geofence.centerLatitude, geofence.centerLongitude⟩

/-- The first of the nearest zones. -/
def nearest (first : Geofence × D) (distances : List (Geofence × D)) : Geofence × D :=
  distances.foldl (fun best current => if current.2 < best.2 then current else best) first

/-- A vehicle is expected inside at least one of its zones. -/
def geofenceExit (gps : NormalizedGps) (config : AlertRuleConfig) : List AlertCandidate :=
  match config.geofences.map fun geofence => (geofence, distanceTo g gps geofence) with
  | [] => []
  | first :: distances =>
    if (first :: distances).any fun d => d.2 ≤ g.metres d.1.radiusM then []
    else
      let best := nearest first distances
      [⟨.geofenceExit,
        .geofenceExit best.1.id best.1.name (g.round best.2) best.1.radiusM⟩]

/-! ## All rules -/

def evaluateRules (event : TelemetryEvent) (config : AlertRuleConfig) : List AlertCandidate :=
  lowFuel event.fuel config ++
    match event.gps with
    | none => []
    | some gps => speeding gps config ++ geofenceExit g gps config

def byType (candidates : List AlertCandidate) : JsMap VehicleAlertType AlertCandidate :=
  candidates.foldl (fun m candidate => JsMap.set m candidate.alertType candidate) Table.empty

/-- `byType.get(alertType)`. -/
def candidateFor (config : AlertRuleConfig) (alertType : VehicleAlertType)
    (event : TelemetryEvent) : Option AlertCandidate :=
  ((byType (evaluateRules g event config)).find? alertType).map Prod.snd

theorem candidateFor_eq_some {config : AlertRuleConfig} {alertType : VehicleAlertType}
    {event : TelemetryEvent} {candidate : AlertCandidate}
    (h : candidateFor g config alertType event = some candidate) :
    candidate ∈ evaluateRules g event config ∧ candidate.alertType = alertType := by
  obtain ⟨entry, hentry, rfl⟩ := Option.map_eq_some_iff.mp h
  rcases JsMap.find?_foldl_set hentry with hempty | ⟨c, hc, htype, hvalue⟩
  · cases hempty
  · obtain rfl : c = entry.2 := hvalue
    exact ⟨hc, htype⟩

/-- A condition holds exactly if the rules yield its type. -/
theorem candidateFor_isSome {config : AlertRuleConfig} {alertType : VehicleAlertType}
    {event : TelemetryEvent} :
    (candidateFor g config alertType event).isSome = true ↔
      ∃ c ∈ evaluateRules g event config, c.alertType = alertType := by
  constructor
  · intro h
    obtain ⟨c, hc⟩ := Option.isSome_iff_exists.mp h
    obtain ⟨hmem, htype⟩ := candidateFor_eq_some g hc
    exact ⟨c, hmem, htype⟩
  · intro h
    rw [candidateFor, Option.isSome_map]
    exact JsMap.isSome_foldl_set (.inr h)

/-! ## What the rules say -/

variable {g} {config : AlertRuleConfig} {event : TelemetryEvent}

theorem lowFuel_type {fuel : List FuelReading} {c : AlertCandidate} (h : c ∈ lowFuel fuel config) :
    c.alertType = .lowFuel := by
  unfold lowFuel at h
  split at h
  · cases h
  · split at h
    · rw [List.mem_singleton.mp h]
    · cases h

theorem speeding_type {gps : NormalizedGps} {c : AlertCandidate} (h : c ∈ speeding gps config) :
    c.alertType = .speeding := by
  unfold speeding at h
  split at h
  · rw [List.mem_singleton.mp h]
  · cases h

theorem geofenceExit_type {gps : NormalizedGps} {c : AlertCandidate}
    (h : c ∈ geofenceExit g gps config) : c.alertType = .geofenceExit := by
  unfold geofenceExit at h
  split at h
  · cases h
  · split at h
    · cases h
    · rw [List.mem_singleton.mp h]

/-- The candidates come from the three rules. -/
theorem mem_evaluateRules {c : AlertCandidate} : c ∈ evaluateRules g event config ↔
    c ∈ lowFuel event.fuel config ∨
      ∃ gps ∈ event.gps, c ∈ speeding gps config ∨ c ∈ geofenceExit g gps config := by
  unfold evaluateRules
  cases event.gps <;> simp

/-- Fuel is low if some sensor reports less than the threshold. -/
theorem candidateFor_lowFuel : (candidateFor g config .lowFuel event).isSome = true ↔
    ∃ reading ∈ event.fuel, ∃ pct ∈ reading.pct, pct < config.lowFuelPct := by
  rw [candidateFor_isSome, ← lowest_lt_iff]
  constructor
  · rintro ⟨c, hc, htype⟩
    rcases mem_evaluateRules.mp hc with hlow | ⟨gps, _, hspeeding | hexit⟩
    · unfold lowFuel at hlow
      split at hlow
      · cases hlow
      · next source pct hlowest =>
        split at hlow
        · next hlt => exact ⟨(source, pct), hlowest, hlt⟩
        · cases hlow
    · rw [speeding_type hspeeding] at htype
      cases htype
    · rw [geofenceExit_type hexit] at htype
      cases htype
  · rintro ⟨⟨source, pct⟩, hlowest, hlt⟩
    refine ⟨⟨.lowFuel, .lowFuel pct config.lowFuelPct source⟩, mem_evaluateRules.mpr (.inl ?_), rfl⟩
    rw [lowFuel, hlowest]
    simp [hlt]

theorem candidateFor_speeding : (candidateFor g config .speeding event).isSome = true ↔
    ∃ gps ∈ event.gps, config.speedLimitKph < gps.speedKph := by
  rw [candidateFor_isSome]
  constructor
  · rintro ⟨c, hc, htype⟩
    rcases mem_evaluateRules.mp hc with hlow | ⟨gps, hgps, hspeeding | hexit⟩
    · rw [lowFuel_type hlow] at htype
      cases htype
    · unfold speeding at hspeeding
      split at hspeeding
      · next hlt => exact ⟨gps, hgps, hlt⟩
      · cases hspeeding
    · rw [geofenceExit_type hexit] at htype
      cases htype
  · rintro ⟨gps, hgps, hlt⟩
    refine ⟨⟨.speeding, .speeding gps.speedKph config.speedLimitKph⟩,
      mem_evaluateRules.mpr (.inr ⟨gps, hgps, .inl ?_⟩), rfl⟩
    simp [speeding, hlt]

/-- A vehicle has left if there are zones and it is inside none of them. -/
theorem candidateFor_geofenceExit : (candidateFor g config .geofenceExit event).isSome = true ↔
    ∃ gps ∈ event.gps, config.geofences ≠ [] ∧
      ∀ geofence ∈ config.geofences, ¬ distanceTo g gps geofence ≤ g.metres geofence.radiusM := by
  have hexit : ∀ gps, (∃ c, c ∈ geofenceExit g gps config) ↔ config.geofences ≠ [] ∧
      ∀ geofence ∈ config.geofences,
        ¬ distanceTo g gps geofence ≤ g.metres geofence.radiusM := by
    intro gps
    unfold geofenceExit
    cases config.geofences with
    | nil => simp
    | cons first rest =>
      rw [List.map_cons]
      dsimp only
      split
      · next hinside =>
        obtain ⟨d, hd, hle⟩ := List.any_eq_true.mp hinside
        have hd' : d ∈ (first :: rest).map fun geofence => (geofence, distanceTo g gps geofence) := hd
        obtain ⟨geofence, hmem, rfl⟩ := List.mem_map.mp hd'
        constructor
        · rintro ⟨c, hc⟩
          cases hc
        · intro houtside
          exact (houtside.2 geofence hmem (of_decide_eq_true hle)).elim
      · next houtside => simpa using houtside
  rw [candidateFor_isSome]
  constructor
  · rintro ⟨c, hc, htype⟩
    rcases mem_evaluateRules.mp hc with hlow | ⟨gps, hgps, hspeeding | hleft⟩
    · rw [lowFuel_type hlow] at htype
      cases htype
    · rw [speeding_type hspeeding] at htype
      cases htype
    · exact ⟨gps, hgps, (hexit gps).mp ⟨c, hleft⟩⟩
  · rintro ⟨gps, hgps, houtside⟩
    obtain ⟨c, hc⟩ := (hexit gps).mpr houtside
    exact ⟨c, mem_evaluateRules.mpr (.inr ⟨gps, hgps, .inr hc⟩), geofenceExit_type hc⟩

/-- A reading that says nothing about a condition: no sensor with a percentage, or no position. -/
def Silent (alertType : VehicleAlertType) (event : TelemetryEvent) : Prop :=
  match alertType with
  | .lowFuel => ∀ reading ∈ event.fuel, reading.pct = none
  | .geofenceExit => event.gps = none
  | .speeding => event.gps = none

theorem candidateFor_of_silent {alertType : VehicleAlertType} (h : Silent alertType event) :
    (candidateFor g config alertType event).isSome = false := by
  rw [← Bool.not_eq_true]
  intro hsome
  cases alertType with
  | lowFuel =>
    obtain ⟨reading, hmem, pct, hpct, _⟩ := candidateFor_lowFuel.mp hsome
    rw [h reading hmem] at hpct
    cases hpct
  | geofenceExit =>
    obtain ⟨gps, hgps, _⟩ := candidateFor_geofenceExit.mp hsome
    rw [Option.mem_def, h] at hgps
    cases hgps
  | speeding =>
    obtain ⟨gps, hgps, _⟩ := candidateFor_speeding.mp hsome
    rw [Option.mem_def, h] at hgps
    cases hgps

end

end BankPlatform.Telemetry
