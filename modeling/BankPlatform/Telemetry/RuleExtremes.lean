import BankPlatform.Telemetry.Rules
import Mathlib.Data.List.MinMax

/-!
# The extremes that the alert rules report

The fuel rule reports the smallest percentage and the zone rule a nearest zone; of equal ones the
first is named, so that the order of the readings and of the zones decides about names only.

## Main results

* `evaluateRules_extremes` — which candidates there are, and what they report.
-/

namespace BankPlatform.Telemetry

open Library Teltonika

/-! ## The smallest value of a list -/

section Smallest

variable {α β : Type*} [LinearOrder β] {f : α → β}

/-- The order of a list decides which smallest element comes first, not the smallest value. -/
theorem map_argmin_perm {l l' : List α} (h : l.Perm l') :
    (l.argmin f).map f = (l'.argmin f).map f := by
  cases ha : l.argmin f with
  | none =>
    obtain rfl := List.argmin_eq_none.mp ha
    rw [List.nil_perm.mp h, List.argmin_nil]
  | some a =>
    cases hb : l'.argmin f with
    | none =>
      obtain rfl := List.argmin_eq_none.mp hb
      rw [List.perm_nil.mp h, List.argmin_nil] at ha
      cases ha
    | some b =>
      have hle : f a ≤ f b := List.le_of_mem_argmin (h.mem_iff.mpr (List.argmin_mem hb)) ha
      have hge : f b ≤ f a := List.le_of_mem_argmin (h.mem_iff.mp (List.argmin_mem ha)) hb
      rw [Option.map_some, Option.map_some, le_antisymm hle hge]

end Smallest

variable {D : Type} [LinearOrder D] (g : Geodesy D)

/-- The search among the zones finds the first of the nearest. -/
theorem nearest_eq_argmin (first : Geofence × D) (distances : List (Geofence × D)) :
    (first :: distances).argmin Prod.snd = some (nearest first distances) := by
  have hfold : ∀ best : Geofence × D,
      distances.foldl (List.argAux fun b c => b.2 < c.2) (some best) =
        some (distances.foldl (fun best current => if current.2 < best.2 then current else best)
          best) := by
    induction distances with
    | nil => exact fun best => rfl
    | cons current distances ih =>
      intro best
      rw [List.foldl_cons, List.foldl_cons, ← ih]
      congr 1
      simp only [List.argAux]
      split <;> rfl
  exact hfold first

/-! ## What is reported -/

/-- `details.levelPct`. -/
def AlertDetails.levelPct? : AlertDetails → Option ℚ
  | .lowFuel levelPct _ _ => some levelPct
  | _ => none

/-- `details.distanceM`. -/
def AlertDetails.distanceM? : AlertDetails → Option ℤ
  | .geofenceExit _ _ distanceM _ => some distanceM
  | _ => none

/-- What a candidate says apart from names. -/
def AlertCandidate.observed (c : AlertCandidate) : VehicleAlertType × Option ℚ × Option ℤ :=
  (c.alertType, c.details.levelPct?, c.details.distanceM?)

/-- The zones with their distances. -/
def zoneDistances (gps : NormalizedGps) (geofences : List Geofence) : List (Geofence × D) :=
  geofences.map fun geofence => (geofence, distanceTo g gps geofence)

variable {g} {config : AlertRuleConfig} {event : TelemetryEvent} {gps : NormalizedGps}

omit [LinearOrder D] in
theorem mem_zoneDistances {geofences : List Geofence} {d : Geofence × D} :
    d ∈ zoneDistances g gps geofences ↔ d.1 ∈ geofences ∧ d.2 = distanceTo g gps d.1 := by
  rw [zoneDistances, List.mem_map]
  constructor
  · rintro ⟨geofence, hmem, rfl⟩
    exact ⟨hmem, rfl⟩
  · rintro ⟨hmem, hdistance⟩
    exact ⟨d.1, hmem, Prod.ext rfl hdistance.symm⟩

theorem geofenceExit_eq : geofenceExit g gps config =
    match (zoneDistances g gps config.geofences).argmin Prod.snd with
    | none => []
    | some best =>
      if (zoneDistances g gps config.geofences).any fun d => d.2 ≤ g.metres d.1.radiusM then []
      else
        [⟨.geofenceExit,
          .geofenceExit best.1.id best.1.name (g.round best.2) best.1.radiusM⟩] := by
  unfold geofenceExit
  rw [← zoneDistances]
  cases zoneDistances g gps config.geofences with
  | nil => rfl
  | cons first distances => rw [nearest_eq_argmin]

theorem mem_lowFuel {fuel : List FuelReading} {c : AlertCandidate} (h : c ∈ lowFuel fuel config) :
    ∃ reading ∈ fuel, ∃ pct ∈ reading.pct,
      c.details = .lowFuel pct config.lowFuelPct reading.source ∧
      ∀ other ∈ fuel, ∀ otherPct ∈ other.pct, pct ≤ otherPct := by
  rw [lowFuel, lowest_eq_argmin] at h
  split at h
  · cases h
  next source pct hlowest =>
  split at h
  · obtain ⟨reading, hmem, rfl, hpct⟩ := mem_percentages.mp (List.argmin_mem hlowest)
    rw [List.mem_singleton.mp h]
    refine ⟨reading, hmem, pct, hpct, rfl, fun other hother otherPct hotherPct => ?_⟩
    have hread := mem_percentages.mpr ⟨other, hother, rfl, hotherPct⟩
    exact List.le_of_mem_argmin hread hlowest
  · cases h

theorem mem_geofenceExit {c : AlertCandidate} (h : c ∈ geofenceExit g gps config) :
    ∃ geofence ∈ config.geofences,
      c.details = .geofenceExit geofence.id geofence.name (g.round (distanceTo g gps geofence))
        geofence.radiusM ∧
      ∀ other ∈ config.geofences, distanceTo g gps geofence ≤ distanceTo g gps other := by
  rw [geofenceExit_eq] at h
  split at h
  · cases h
  next best hbest =>
  split at h
  · cases h
  · obtain ⟨hmem, hdistance⟩ := mem_zoneDistances.mp (List.argmin_mem hbest)
    rw [List.mem_singleton.mp h]
    refine ⟨best.1, hmem, by rw [hdistance], fun other hother => ?_⟩
    have hzone : (other, distanceTo g gps other) ∈ zoneDistances g gps config.geofences :=
      mem_zoneDistances.mpr ⟨hother, rfl⟩
    rw [← hdistance]
    exact List.le_of_mem_argmin hzone hbest

/-- Readings in another order give the same apart from names. -/
theorem observed_lowFuel_perm {fuel fuel' : List FuelReading} (h : fuel.Perm fuel')
    (config config' : AlertRuleConfig) (hthreshold : config.lowFuelPct = config'.lowFuelPct) :
    (lowFuel fuel config).map AlertCandidate.observed =
      (lowFuel fuel' config').map AlertCandidate.observed := by
  have hobserved : ∀ (fuel : List FuelReading) (config : AlertRuleConfig),
      (lowFuel fuel config).map AlertCandidate.observed =
        (((percentages fuel).argmin Prod.snd).map Prod.snd).elim [] fun pct =>
          if pct < config.lowFuelPct then [(.lowFuel, some pct, none)] else [] := by
    intro fuel config
    rw [lowFuel, lowest_eq_argmin]
    cases (percentages fuel).argmin Prod.snd with
    | none => rfl
    | some w =>
      dsimp only [Option.map_some, Option.elim_some]
      split <;> rfl
  have hpercentages : (percentages fuel).Perm (percentages fuel') := h.filterMap _
  rw [hobserved, hobserved, map_argmin_perm hpercentages, hthreshold]

/-- So do zones in another order. -/
theorem observed_geofenceExit_perm (gps : NormalizedGps) (config config' : AlertRuleConfig)
    (h : config.geofences.Perm config'.geofences) :
    (geofenceExit g gps config).map AlertCandidate.observed =
      (geofenceExit g gps config').map AlertCandidate.observed := by
  have hobserved : ∀ config : AlertRuleConfig,
      (geofenceExit g gps config).map AlertCandidate.observed =
        (((zoneDistances g gps config.geofences).argmin Prod.snd).map Prod.snd).elim []
          fun distance =>
            if (zoneDistances g gps config.geofences).any fun d => d.2 ≤ g.metres d.1.radiusM
            then [] else [(.geofenceExit, none, some (g.round distance))] := by
    intro config
    rw [geofenceExit_eq]
    cases (zoneDistances g gps config.geofences).argmin Prod.snd with
    | none => rfl
    | some best =>
      dsimp only [Option.map_some, Option.elim_some]
      split <;> rfl
  have hzones : (zoneDistances g gps config.geofences).Perm
      (zoneDistances g gps config'.geofences) := h.map _
  rw [hobserved, hobserved, map_argmin_perm hzones, hzones.any_eq]

/-- The rules yield at most one candidate of each type. -/
theorem types_sublist : ((evaluateRules g event config).map AlertCandidate.alertType).Sublist
    [.lowFuel, .speeding, .geofenceExit] := by
  have hlow : ((lowFuel event.fuel config).map AlertCandidate.alertType).Sublist [.lowFuel] := by
    unfold lowFuel
    split
    · exact List.nil_sublist _
    · split
      · exact List.Sublist.refl _
      · exact List.nil_sublist _
  have hspeeding : ∀ gps,
      ((speeding gps config).map AlertCandidate.alertType).Sublist [.speeding] := by
    intro gps
    unfold speeding
    split
    · exact List.Sublist.refl _
    · exact List.nil_sublist _
  have hexit : ∀ gps,
      ((geofenceExit g gps config).map AlertCandidate.alertType).Sublist [.geofenceExit] := by
    intro gps
    unfold geofenceExit
    split
    · exact List.nil_sublist _
    · split
      · exact List.nil_sublist _
      · exact List.Sublist.refl _
  unfold evaluateRules
  rw [List.map_append]
  change List.Sublist (α := VehicleAlertType) _ ([.lowFuel] ++ ([.speeding] ++ [.geofenceExit]))
  apply hlow.append
  cases event.gps with
  | none => exact List.nil_sublist _
  | some gps =>
    rw [List.map_append]
    exact (hspeeding gps).append (hexit gps)

/-- What the candidates of an event are: one for each condition that holds, with the extreme. -/
structure ReportsExtremes (g : Geodesy D) (event : TelemetryEvent) (config : AlertRuleConfig)
    (candidates : List AlertCandidate) : Prop where
  once : (candidates.map AlertCandidate.alertType).Nodup
  lowFuel : (∃ c ∈ candidates, c.alertType = .lowFuel) ↔
    ∃ reading ∈ event.fuel, ∃ pct ∈ reading.pct, pct < config.lowFuelPct
  lowest : ∀ c ∈ candidates, c.alertType = .lowFuel →
    ∃ reading ∈ event.fuel, ∃ pct ∈ reading.pct,
      c.details = .lowFuel pct config.lowFuelPct reading.source ∧
      ∀ other ∈ event.fuel, ∀ otherPct ∈ other.pct, pct ≤ otherPct
  speeding : (∃ c ∈ candidates, c.alertType = .speeding) ↔
    ∃ gps ∈ event.gps, config.speedLimitKph < gps.speedKph
  geofenceExit : (∃ c ∈ candidates, c.alertType = .geofenceExit) ↔
    ∃ gps ∈ event.gps, config.geofences ≠ [] ∧
      ∀ geofence ∈ config.geofences, g.metres geofence.radiusM <
        g.haversineMeters ⟨gps.latitude, gps.longitude⟩
          ⟨geofence.centerLatitude, geofence.centerLongitude⟩
  nearest : ∀ c ∈ candidates, c.alertType = .geofenceExit →
    ∃ gps ∈ event.gps, ∃ geofence ∈ config.geofences, ∃ distance,
      distance = g.haversineMeters ⟨gps.latitude, gps.longitude⟩
        ⟨geofence.centerLatitude, geofence.centerLongitude⟩ ∧
      c.details = .geofenceExit geofence.id geofence.name (g.round distance) geofence.radiusM ∧
      ∀ other ∈ config.geofences, distance ≤ g.haversineMeters ⟨gps.latitude, gps.longitude⟩
        ⟨other.centerLatitude, other.centerLongitude⟩

theorem reportsExtremes_evaluateRules (g : Geodesy D) (event : TelemetryEvent)
    (config : AlertRuleConfig) :
    ReportsExtremes g event config (evaluateRules g event config) where
  once := types_sublist.nodup (by decide)
  lowFuel := (candidateFor_isSome g).symm.trans candidateFor_lowFuel
  lowest c hc htype := by
    rcases mem_evaluateRules.mp hc with hlow | ⟨gps, _, hspeeding | hexit⟩
    · exact mem_lowFuel hlow
    · rw [speeding_type hspeeding] at htype
      cases htype
    · rw [geofenceExit_type hexit] at htype
      cases htype
  speeding := (candidateFor_isSome g).symm.trans candidateFor_speeding
  geofenceExit := by
    simp only [← not_le]
    exact (candidateFor_isSome g).symm.trans candidateFor_geofenceExit
  nearest c hc htype := by
    rcases mem_evaluateRules.mp hc with hlow | ⟨gps, hgps, hspeeding | hexit⟩
    · rw [lowFuel_type hlow] at htype
      cases htype
    · rw [speeding_type hspeeding] at htype
      cases htype
    · obtain ⟨geofence, hmem, hdetails, hleast⟩ := mem_geofenceExit hexit
      exact ⟨gps, hgps, geofence, hmem, _, rfl, hdetails, hleast⟩

/-- The rules report the extremes, and the order of readings and zones does not change which
conditions hold, the percentage or the distance. -/
theorem evaluateRules_extremes (g : Geodesy D) (event : TelemetryEvent)
    (config : AlertRuleConfig) :
    ReportsExtremes g event config (evaluateRules g event config) ∧
      ∀ (fuel : List FuelReading) (geofences : List Geofence), fuel.Perm event.fuel →
        geofences.Perm config.geofences →
        (evaluateRules g { event with fuel := fuel }
            { config with geofences := geofences }).map AlertCandidate.observed =
          (evaluateRules g event config).map AlertCandidate.observed := by
  refine ⟨reportsExtremes_evaluateRules g event config, fun fuel geofences hfuel hzones => ?_⟩
  have hlow := observed_lowFuel_perm hfuel { config with geofences := geofences } config rfl
  unfold evaluateRules
  rw [List.map_append, List.map_append, hlow]
  congr 1
  cases event.gps with
  | none => rfl
  | some gps =>
    have hexit := observed_geofenceExit_perm (g := g) gps { config with geofences := geofences }
      config hzones
    dsimp only
    rw [List.map_append, List.map_append, hexit]
    rfl

end BankPlatform.Telemetry
