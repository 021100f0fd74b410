import BankPlatform.Library.Turns
import BankPlatform.Telemetry.AlertRuns
import BankPlatform.Telemetry.Registration

/-!
# Replicas of the alerting consumer

The live topic is cut into partitions, and the messages of a device are all in one of them. The
alerting consumers of several processes share out the partitions; each partition is worked on by one
of them at a time, and may pass to another between two batches. What they know of the alerts is in
tables that they share.

## Main definitions

* `alerting` — the handlers of all processes over one database.
* `Spares` — what the tables say about the devices of a partition is left alone.
* `replicas` — what the consumers keep, and what belongs to a partition.

## Main results

* `guards_alertingHandler` — a batch is handled, whatever happens to the other partitions meanwhile.
* `alerts_across_replicas` — the alerts are those of one consumer that reads everything in order.
-/

namespace BankPlatform.Telemetry

open Library

variable {Id K Process : Type}

/-- A batch of a partition. -/
abbrev PartitionBatch (K : Type) := K × Batch

section

variable [DecidableEq Id]

/-- Vehicles, zones and alerts stay, and rows are about vehicles. -/
structure Preserves (db db' : TelemetryDb Id) : Prop where
  vehicles : VehiclesStay db db'
  alerts : db.vehicleAlerts <+: db'.vehicleAlerts
  geofences : db'.geofences = db.geofences
  references : AlertReferences db → AlertReferences db'

/-- What the tables say about the devices of a partition is what it was. -/
def Spares (partitionOf : String → K) (k : K) (db db' : TelemetryDb Id) : Prop :=
  ∀ imei, partitionOf imei = k → ∀ t,
    alertState? (.start db') imei t = alertState? (.start db) imei t ∧
      alertsOf (.start db') imei t = alertsOf (.start db) imei t

/-- Caches and tables agree, and the zones are those of the rules. -/
structure Settled (config : AlertingConfig) (rules : AlertRuleConfig) (w : World Id) : Prop where
  ready : Ready w
  rules : rulesOf config w.db = rules

/-- From `w` to `w'` the devices of the partitions in `ks` are spared. -/
structure Shares (config : AlertingConfig) (rules : AlertRuleConfig) (partitionOf : String → K)
    (ks : K → Prop) (w w' : World Id) : Prop where
  preserves : Preserves w.db w'.db
  spares : Settled config rules w → Settled config rules w' ∧
    ∀ k, ks k → Spares partitionOf k w.db w'.db

theorem Preserves.refl (db : TelemetryDb Id) : Preserves db db :=
  ⟨fun _ _ => id, List.prefix_refl _, rfl, id⟩

theorem Preserves.trans (db db' db'' : TelemetryDb Id) (h : Preserves db db')
    (h' : Preserves db' db'') : Preserves db db'' where
  vehicles imei v hv := h'.vehicles imei v (h.vehicles imei v hv)
  alerts := h.alerts.trans h'.alerts
  geofences := h'.geofences.trans h.geofences
  references := h'.references ∘ h.references

theorem Preserves.rulesOf_eq {db db' : TelemetryDb Id} (h : Preserves db db')
    (config : AlertingConfig) : rulesOf config db' = rulesOf config db := by
  rw [rulesOf, selectActive, h.geofences, ← selectActive, ← rulesOf]

/-- The alerts about a device stay, and others come behind them. -/
theorem Preserves.alertsOf {db db' : TelemetryDb Id} (h : Preserves db db')
    (href : AlertReferences db) (imei : String) (t : VehicleAlertType) :
    Telemetry.alertsOf (.start db) imei t <+: Telemetry.alertsOf (.start db') imei t := by
  have hmoves : Moves (World.start db) (.start db') := ⟨h.vehicles, h.geofences⟩
  obtain ⟨more, hmore⟩ := h.alerts
  have hsame := hmoves.filter_alerts href imei t
  unfold Telemetry.alertsOf
  change _ <+: (List.filter _ db'.vehicleAlerts).map _
  rw [← hmore, List.filter_append, List.map_append, ← hsame]
  exact List.prefix_append _ _

variable {config : AlertingConfig} {rules : AlertRuleConfig} {partitionOf : String → K}
  {ks : K → Prop}

theorem Spares.refl (k : K) (db : TelemetryDb Id) : Spares partitionOf k db db :=
  fun _ _ _ => ⟨rfl, rfl⟩

theorem Spares.trans (k : K) (db db' db'' : TelemetryDb Id) (h : Spares partitionOf k db db')
    (h' : Spares partitionOf k db' db'') : Spares partitionOf k db db'' := by
  intro imei himei t
  obtain ⟨hstate, halerts⟩ := h imei himei t
  obtain ⟨hstate', halerts'⟩ := h' imei himei t
  exact ⟨hstate'.trans hstate, halerts'.trans halerts⟩

theorem Shares.refl (w : World Id) : Shares config rules partitionOf ks w w :=
  ⟨.refl _, fun h => ⟨h, fun k _ => .refl k _⟩⟩

theorem Shares.mono {ks' : K → Prop} {w w' : World Id} (h : Shares config rules partitionOf ks w w')
    (himp : ∀ k, ks' k → ks k) : Shares config rules partitionOf ks' w w' :=
  ⟨h.preserves, fun hw => ⟨(h.spares hw).1, fun k hk => (h.spares hw).2 k (himp k hk)⟩⟩

theorem Shares.vehicleOf {w w' : World Id} (h : Shares config rules partitionOf ks w w')
    {imei : String} {v : Id} (hv : vehicleOf w imei = some v) :
    Telemetry.vehicleOf w' imei = some v := by
  obtain ⟨row, hrow, rfl⟩ := Option.map_eq_some_iff.mp hv
  rw [Telemetry.vehicleOf, h.preserves.vehicles imei row hrow, Option.map_some]

theorem Shares.keepsVehicles {w w' : World Id} (hw : Settled config rules w)
    (h : Shares config rules partitionOf ks w w') : KeepsVehicles w w' :=
  ⟨fun _ => (h.spares hw).1.ready.registry, h.preserves.vehicles⟩

/-! ## What the steps of a call leave alone -/

/-- The registry leaves all alerts alone. -/
theorem Registers.shares {w w' : World Id} (h : Registers w w')
    (hagrees : RegistryAgrees w → RegistryAgrees w') : Shares config rules partitionOf ks w w' := by
  have hmoves : Moves w w' := ⟨h.vehicles, h.geofences⟩
  have hpreserves : Preserves w.db w'.db := by
    refine ⟨h.vehicles, h.vehicleAlerts ▸ List.prefix_refl _, h.geofences,
      fun href => ⟨fun a ha => ?_, fun s hs => ?_⟩⟩
    · exact hmoves.reference (href.alerts a (h.vehicleAlerts ▸ ha))
    · exact hmoves.reference (href.states s (h.vehicleAlertStates ▸ hs))
  refine ⟨hpreserves, fun hw => ⟨⟨⟨hagrees hw.ready.registry, fun cache hcache => ?_,
    hpreserves.references hw.ready.references⟩, ?_⟩, fun k _ imei _ t => ?_⟩⟩
  · rw [selectActive, h.geofences]
    exact hw.ready.geofences cache (h.geofenceCache ▸ hcache)
  · rw [hpreserves.rulesOf_eq, hw.rules]
  · exact ⟨hmoves.alertState? hw.ready.references h.vehicleAlertStates imei t,
      hmoves.alertsOf hw.ready.references h.vehicleAlerts imei t⟩

theorem Keeps.shares {w w' : World Id} (h : Keeps w w')
    (halerts : w.db.vehicleAlerts <+: w'.db.vehicleAlerts)
    (hspares : ∀ k, ks k → Spares partitionOf k w.db w'.db) :
    Shares config rules partitionOf ks w w' := by
  have hpreserves : Preserves w.db w'.db := 
    ⟨h.moves.vehicles, halerts, h.geofences, h.references⟩
  refine ⟨hpreserves, fun hw => ⟨⟨h.ready hw.ready, ?_⟩, hspares⟩⟩
  rw [hpreserves.rulesOf_eq, hw.rules]

/-- The row of a condition is about a device of one partition. -/
theorem StepsRow.shares {w : World Id} {imei : String} {v : Id} {t : VehicleAlertType} {r : Reading}
    {e : EdgeTrigger Reading} {states : Table (VehicleAlertState Id)}
    (h : StepsRow e w.db.vehicleAlertStates states (v, t) r) (hv : vehicleOf w imei = some v) :
    Shares config rules partitionOf (· ≠ partitionOf imei) w (w.withStates states) := by
  refine (keeps_withStates (vehicleReference_of_vehicleOf hv) h).shares (List.prefix_refl _) ?_
  rintro _ hk imei' rfl t'
  exact ⟨h.alertState?_of_ne hv fun heq => hk (congrArg partitionOf heq.1), rfl⟩

theorem alertsOf_withAlerts {w : World Id} {imei : String} {row : VehicleAlert Id}
    (hv : vehicleOf w imei = some row.vehicleId) (imei' : String) (t : VehicleAlertType) :
    alertsOf (w.withAlerts (w.db.vehicleAlerts ++ [row])) imei' t = alertsOf w imei' t ++
      if imei' = imei ∧ t = row.alertType then [(row.recordedAt, row.details)] else [] := by
  rw [alertsOf, withAlerts_alerts, List.filter_append, List.map_append, vehicleOf_withAlerts,
    ← alertsOf]
  congr 1
  split
  · next heq =>
    obtain ⟨rfl, rfl⟩ := heq
    simp [hv]
  · next hne =>
    have hother : ¬ (vehicleOf w imei' = some row.vehicleId ∧ row.alertType = t) :=
      fun heq => hne ⟨vehicleOf_inj heq.1 hv, heq.2.symm⟩
    simpa using hother

/-- An alert is about a device of one partition. -/
theorem shares_withAlerts {w : World Id} {imei : String} {row : VehicleAlert Id}
    (hv : vehicleOf w imei = some row.vehicleId) :
    Shares config rules partitionOf (· ≠ partitionOf imei) w
      (w.withAlerts (w.db.vehicleAlerts ++ [row])) := by
  refine (keeps_withAlerts (vehicleReference_of_vehicleOf hv)).shares (List.prefix_append _ _) ?_
  rintro _ hk imei' rfl t
  refine ⟨rfl, ?_⟩
  have halerts := alertsOf_withAlerts hv imei' t
  rwa [if_neg fun heq => hk (congrArg partitionOf heq.1), List.append_nil] at halerts

end

/-! ## What a call knows -/

section

variable [DecidableEq Id] {D : Type} [LT D] [DecidableLT D] [LE D] [DecidableLE D]
  {g : Geodesy D} {config : AlertingConfig} {rules : AlertRuleConfig} {partitionOf : String → K}
  {k : K} {seen told : String → VehicleAlertType → List Reading}

theorem Tracks.congr {w w' : World Id} {imei : String} {t : VehicleAlertType}
    {rs rs' : List Reading} (h : Tracks g config rules w imei t rs rs')
    (hstate : alertState? w' imei t = alertState? w imei t)
    (halerts : alertsOf w' imei t = alertsOf w imei t) :
    Tracks g config rules w' imei t rs rs' where
  state := by rw [hstate, h.state]
  row := by rw [hstate, h.row]
  alerts := by rw [halerts, h.alerts]

/-- First some readings, then more. -/
def andThen (rs more : String → VehicleAlertType → List Reading) :
    String → VehicleAlertType → List Reading :=
  fun imei t => rs imei t ++ more imei t

theorem andThen_nil {more : String → VehicleAlertType → List Reading}
    (hmore : ∀ imei t, more imei t = []) : andThen seen more = seen := by
  funext imei t
  rw [andThen, hmore, List.append_nil]

theorem andThen_byDevice_nil : andThen seen (byDevice []) = seen := andThen_nil fun _ _ => rfl

theorem andThen_assoc (rs rs' rs'' : String → VehicleAlertType → List Reading) :
    andThen (andThen rs rs') rs'' = andThen rs (andThen rs' rs'') := by
  funext imei t
  exact List.append_assoc ..

/-- The tables are about these readings of the devices of a partition. -/
structure Knows (g : Geodesy D) (config : AlertingConfig) (rules : AlertRuleConfig)
    (partitionOf : String → K) (k : K) (seen told : String → VehicleAlertType → List Reading)
    (w : World Id) : Prop where
  settled : Settled config rules w
  tracks : ∀ imei, partitionOf imei = k → ∀ t,
    Tracks g config rules w imei t (seen imei t) (told imei t)

/-- Whatever the others do that spare the partition. -/
theorem Knows.shares {w w' : World Id} (h : Knows g config rules partitionOf k seen told w)
    (hw : Shares config rules partitionOf (· = k) w w') :
    Knows g config rules partitionOf k seen told w' := by
  obtain ⟨hsettled, hspares⟩ := hw.spares h.settled
  refine ⟨hsettled, fun imei himei t => ?_⟩
  obtain ⟨hstate, halerts⟩ := hspares k rfl imei himei t
  exact (h.tracks imei himei t).congr hstate halerts

/-- The row of a condition takes its step. -/
theorem Knows.steps {w : World Id} (h : Knows g config rules partitionOf k seen seen w)
    {imei : String} {v : Id} (hv : vehicleOf w imei = some v) {t : VehicleAlertType} {r : Reading}
    {states : Table (VehicleAlertState Id)}
    (hstep : StepsRow (trigger g config rules t) w.db.vehicleAlertStates states (v, t) r) :
    Knows g config rules partitionOf k (andThen seen (only imei t [r])) seen
      (w.withStates states) := by
  have hshares : Shares config rules partitionOf (· ≠ partitionOf imei) w (w.withStates states) :=
    hstep.shares hv
  refine ⟨(hshares.spares h.settled).1, fun imei' himei' t' => ?_⟩
  have htracks := (h.tracks imei' himei' t').handled (handled_withStates hv hstep)
  rwa [List.append_nil] at htracks

/-- A reading that fires is reported. -/
theorem Knows.reports {w : World Id} {imei : String} {t : VehicleAlertType} {r : Reading}
    (h : Knows g config rules partitionOf k (andThen seen (only imei t [r])) seen w)
    (hfires : (trigger g config rules t).fires
      ((trigger g config rules t).after .initial (seen imei t)) r = true)
    {row : VehicleAlert Id} (hv : vehicleOf w imei = some row.vehicleId) (ht : row.alertType = t)
    (hcontent : alertContent g rules t r = some (row.recordedAt, row.details)) :
    Knows g config rules partitionOf k (andThen seen (only imei t [r]))
      (andThen seen (only imei t [r]))
      (w.withAlerts (w.db.vehicleAlerts ++ [row])) := by
  have hshares : Shares config rules partitionOf (· ≠ partitionOf imei) w
      (w.withAlerts (w.db.vehicleAlerts ++ [row])) := shares_withAlerts hv
  refine ⟨(hshares.spares h.settled).1, fun imei' himei' t' => ?_⟩
  have htracks := h.tracks imei' himei' t'
  refine ⟨htracks.state, htracks.row, ?_⟩
  rw [alertsOf_withAlerts hv, htracks.alerts, andThen, EdgeTrigger.fired_append,
    List.filterMap_append, ht]
  congr 1
  unfold only
  split
  · next heq =>
    obtain ⟨rfl, rfl⟩ := heq
    simp [EdgeTrigger.fired, hfires, hcontent]
  · rfl

/-- About a reading that does not fire there is nothing to write. -/
theorem Knows.skips {w : World Id} {imei : String} {t : VehicleAlertType} {r : Reading}
    (h : Knows g config rules partitionOf k (andThen seen (only imei t [r])) seen w)
    (hfires : (trigger g config rules t).fires
      ((trigger g config rules t).after .initial (seen imei t)) r = false) :
    Knows g config rules partitionOf k (andThen seen (only imei t [r]))
      (andThen seen (only imei t [r])) w := by
  refine ⟨h.settled, fun imei' himei' t' => ?_⟩
  have htracks := h.tracks imei' himei' t'
  refine ⟨htracks.state, htracks.row, ?_⟩
  rw [htracks.alerts, andThen, EdgeTrigger.fired_append]
  unfold only
  split
  · next heq =>
    obtain ⟨rfl, rfl⟩ := heq
    simp [EdgeTrigger.fired, hfires]
  · simp [EdgeTrigger.fired]

/-! ## A batch -/

omit [DecidableEq Id] in
/-- A write that is accepted whatever the others did. -/
theorem guards_write {rely guar : World Id → World Id → Prop} {post : Unit → World Id → Prop}
    {label : Statement} {f : TelemetryDb Id → Except DbError (TelemetryDb Id)} {w : World Id}
    (h : ∀ u, rely w u → ∃ db, f u.db = .ok db ∧ guar u { u with db } ∧ post () { u with db }) :
    Session.Guards rely guar post (write label f) w := by
  refine Session.guards_execute fun u hu => ?_
  obtain ⟨db, hdb, hguar, hpost⟩ := h u hu
  exact ⟨{ u with db }, by rw [hdb]; rfl, hguar, hpost⟩

/-- What is known while a round for a reading goes on. -/
structure Rounds (g : Geodesy D) (config : AlertingConfig) (rules : AlertRuleConfig)
    (partitionOf : String → K) (imei : String) (v : Id)
    (seen told : String → VehicleAlertType → List Reading) (w : World Id) : Prop where
  vehicle : vehicleOf w imei = some v
  knows : Knows g config rules partitionOf (partitionOf imei) seen told w

theorem Rounds.shares {imei : String} {v : Id} {w w' : World Id}
    (h : Rounds g config rules partitionOf imei v seen told w)
    (hw : Shares config rules partitionOf (· = partitionOf imei) w w') :
    Rounds g config rules partitionOf imei v seen told w' :=
  ⟨hw.vehicleOf h.vehicle, h.knows.shares hw⟩

/-- The row that was read is still there. -/
theorem Rounds.existing {imei : String} {v : Id} {w w' : World Id}
    (h : Rounds g config rules partitionOf imei v seen told w)
    (hw : Shares config rules partitionOf (· = partitionOf imei) w w') (t : VehicleAlertType) :
    selectAlertState v t w = w'.db.vehicleAlertStates.find? (v, t) := by
  have hspares := ((hw.spares h.knows.settled).2 _ rfl imei rfl t).1
  have hsame : alertState? w' imei t = alertState? w imei t := hspares
  rw [alertState?_eq h.vehicle, alertState?_eq (hw.vehicleOf h.vehicle)] at hsame
  exact hsame.symm

theorem Rounds.state {imei : String} {v : Id} {w : World Id}
    (h : Rounds g config rules partitionOf imei v seen told w) (t : VehicleAlertType) :
    edgeState (selectAlertState v t w) =
      (trigger g config rules t).after .initial (seen imei t) := by
  rw [← (h.knows.tracks imei rfl t).state, alertState?_eq h.vehicle]
  rfl

/-- The row takes its step, and the answer is whether the trigger fires. -/
theorem guards_shouldFire {v : Id} (position : ℕ) (t : VehicleAlertType) (r : Reading)
    {w : World Id} (h : Rounds g config rules partitionOf r.imei v seen seen w) :
    Session.Guards (Shares config rules partitionOf (· = partitionOf r.imei))
      (Shares config rules partitionOf (· ≠ partitionOf r.imei))
      (fun fires w' => Rounds g config rules partitionOf r.imei v
          (andThen seen (only r.imei t [r])) seen w' ∧
        fires = (trigger g config rules t).fires
          ((trigger g config rules t).after .initial (seen r.imei t)) r)
      (shouldFire config position v t ((trigger g config rules t).holds r) r.recordedAt) w := by
  unfold shouldFire
  have hselect : Session.Guards (Shares config rules partitionOf (· = partitionOf r.imei))
      (Shares config rules partitionOf (· ≠ partitionOf r.imei))
      (fun existing u => Rounds g config rules partitionOf r.imei v seen seen u ∧
        existing = selectAlertState v t u)
      (Session.query (.selectAlertState position t) (selectAlertState v t) : Handler Id _) w :=
    Session.guards_query fun u hu => ⟨.refl u, h.shares hu, rfl⟩
  refine hselect.bind fun existing u hpost => ?_
  obtain ⟨hu, hexisting⟩ := hpost
  subst hexisting
  rw [← hu.state t]
  -- Behind a write of the row, whatever the others did since it was read.
  have hstepped {u' : World Id}
      (hu' : Shares config rules partitionOf (· = partitionOf r.imei) u u')
      {states : Table (VehicleAlertState Id)}
      (hstep : StepsRow (trigger g config rules t) u'.db.vehicleAlertStates states (v, t) r) :
      Shares config rules partitionOf (· ≠ partitionOf r.imei) u' (u'.withStates states) ∧
        Rounds g config rules partitionOf r.imei v
          (andThen seen (only r.imei t [r])) seen
          (u'.withStates states) :=
    ⟨hstep.shares (hu'.vehicleOf hu.vehicle), hu'.vehicleOf hu.vehicle,
      (hu.knows.shares hu').steps (hu'.vehicleOf hu.vehicle) hstep⟩
  cases hholds : (trigger g config rules t).holds r with
  | false =>
    have hfires (s : EdgeState) : (trigger g config rules t).fires s r = false := by
      simp [EdgeTrigger.fires, hholds]
    rw [if_neg Bool.false_ne_true, clearCondition, hfires]
    cases hidle : (selectAlertState v t u).any VehicleAlertState.active with
    | false =>
      rw [if_neg (by simp)]
      have hstep : StepsRow (trigger g config rules t) u.db.vehicleAlertStates
          u.db.vehicleAlertStates (v, t) r := stepsRow_idle hholds hidle
      exact Session.guards_pure ⟨(hstepped (.refl u) hstep).2, rfl⟩
    | true =>
      rw [if_pos rfl]
      refine (guards_write fun u' hu' => ?_).bind fun _ _ hpost => Session.guards_pure ⟨hpost, rfl⟩
      obtain ⟨hguar, hpost⟩ := hstepped hu' (stepsRow_clear hholds u'.db.vehicleAlertStates (v, t))
      exact ⟨_, rfl, hguar, hpost⟩
  | true =>
    rw [if_pos rfl, holdCondition, fires_edgeState hholds]
    refine (guards_write fun u' hu' => ?_).bind fun _ _ hpost => Session.guards_pure ⟨hpost, rfl⟩
    rw [hu.existing hu' t]
    obtain ⟨hguar, hpost⟩ := hstepped hu' (stepsRow_upsert hholds u'.db.vehicleAlertStates v rfl)
    have href := vehicleReference_of_vehicleOf (hu'.vehicleOf hu.vehicle)
    exact ⟨_, if_pos href, hguar, hpost⟩

/-- A round for one type of alert. -/
theorem guards_processType {v : Id} (position : ℕ) (t : VehicleAlertType) (r : Reading)
    {w : World Id} (h : Rounds g config rules partitionOf r.imei v seen seen w) :
    Session.Guards (Shares config rules partitionOf (· = partitionOf r.imei))
      (Shares config rules partitionOf (· ≠ partitionOf r.imei))
      (fun _ => Rounds g config rules partitionOf r.imei v (andThen seen (only r.imei t [r]))
        (andThen seen (only r.imei t [r])))
      (processType g config rules position v r t) w := by
  refine (guards_shouldFire position t r h).bind fun fires u hpost => ?_
  obtain ⟨hu, hfires⟩ := hpost
  cases fires with
  | false =>
    rw [if_neg Bool.false_ne_true]
    exact Session.guards_pure ⟨hu.vehicle, hu.knows.skips hfires.symm⟩
  | true =>
    obtain ⟨candidate, hcandidate, htype⟩ := exists_candidate hfires.symm
    have hcontent : alertContent g rules t r = some (r.recordedAt, candidate.details) := by
      rw [alertContent, hcandidate, Option.map_some]
    rw [if_pos rfl, hcandidate, raise]
    refine guards_write fun u' hu' => ?_
    have hrow : vehicleOf u' r.imei = some (newAlert v r.recordedAt candidate).vehicleId :=
      hu'.vehicleOf hu.vehicle
    exact ⟨_, if_pos (vehicleReference_of_vehicleOf hrow), shares_withAlerts hrow, hrow,
      (hu.knows.shares hu').reports hfires.symm hrow htype hcontent⟩

/-- A round for each type of alert. -/
theorem guards_processTypes {v : Id} (position : ℕ) (r : Reading) {w : World Id}
    (h : Rounds g config rules partitionOf r.imei v seen seen w) :
    Session.Guards (Shares config rules partitionOf (· = partitionOf r.imei))
      (Shares config rules partitionOf (· ≠ partitionOf r.imei))
      (fun _ => Rounds g config rules partitionOf r.imei v (andThen seen (byDevice [r]))
        (andThen seen (byDevice [r])))
      (ALERT_TYPES.forM (processType g config rules position v r)) w := by
  rw [← ofTypes_all]
  refine Session.Guards.forM (J := fun done => Rounds g config rules partitionOf r.imei v
    (andThen seen (ofTypes r done)) (andThen seen (ofTypes r done))) _
    (fun done t rest hsplit u hu => ?_) ?_
  · have hfresh : t ∉ done := by
      have hnodup := alertTypes_nodup
      rw [hsplit, List.nodup_middle] at hnodup
      exact fun hmem => hnodup.notMem (List.mem_append_left _ hmem)
    have hround := guards_processType position t r hu
    rw [andThen_assoc] at hround
    rwa [ofTypes_append hfresh]
  · rwa [andThen_nil fun imei t => by simp [ofTypes]]

theorem Shares.resolves {ks : K → Prop} {imeis : List String} {ids : JsMap String Id}
    {w w' : World Id} (h : Shares config rules partitionOf ks w w')
    (hids : Resolves imeis ids w) : Resolves imeis ids w' := by
  intro imei himei
  obtain ⟨id, hid, hv⟩ := hids imei himei
  exact ⟨id, hid, h.preserves.vehicles _ _ hv⟩

/-- The loop over some readings of the partition. -/
theorem guards_processReadings {ids : JsMap String Id} (items : List (Reading × ℕ))
    (hitems : ∀ i ∈ items, partitionOf i.1.imei = k) {w : World Id}
    (hids : Resolves (items.map fun i => i.1.imei) ids w)
    (h : Knows g config rules partitionOf k seen seen w) :
    Session.Guards (Shares config rules partitionOf (· = k))
      (Shares config rules partitionOf (· ≠ k))
      (fun _ => Knows g config rules partitionOf k
        (andThen seen (byDevice (items.map Prod.fst)))
        (andThen seen (byDevice (items.map Prod.fst))))
      (items.forM (processReading g config rules ids)) w := by
  suffices hloop : Session.Guards (Shares config rules partitionOf (· = k))
      (Shares config rules partitionOf (· ≠ k))
      (fun _ u => Knows g config rules partitionOf k
        (andThen seen (byDevice (items.map Prod.fst)))
        (andThen seen (byDevice (items.map Prod.fst))) u ∧
          Resolves (items.map fun i => i.1.imei) ids u)
      (items.forM (processReading g config rules ids)) w from hloop.mono fun _ _ hu => hu.1
  have hstart : Knows g config rules partitionOf k (andThen seen (byDevice []))
      (andThen seen (byDevice [])) w := by rwa [andThen_byDevice_nil]
  refine Session.Guards.forM (J := fun done u => Knows g config rules partitionOf k
    (andThen seen (byDevice (done.map Prod.fst))) (andThen seen (byDevice (done.map Prod.fst))) u ∧
      Resolves (items.map fun i => i.1.imei) ids u) items ?_ ⟨hstart, hids⟩
  intro done item rest hsplit u hdone
  obtain ⟨hu, hids'⟩ := hdone
  have hmem : item ∈ items := by rw [hsplit]; simp
  obtain ⟨v, hfound, hrow⟩ := hids' item.1.imei (List.mem_map_of_mem hmem)
  have hv : vehicleOf u item.1.imei = some v := by rw [vehicleOf, hrow, Option.map_some]
  obtain rfl := hitems item hmem
  rw [processReading, hfound]
  have hrounds := (guards_processTypes item.2 item.1 ⟨hv, hu⟩).frame
    (fun _ _ h hw => hw.resolves h) (fun _ _ h hw => hw.resolves h) hids'
  refine hrounds.mono fun _ u' hround => ⟨?_, hround.2⟩
  obtain ⟨hu', hids''⟩ := hround
  have hknows := hu'.knows
  rw [andThen_assoc] at hknows
  rw [List.map_append, byDevice_append]
  exact hknows

/-! ## Before the loop -/

/-- The cache of the zones is part of no table. -/
theorem shares_cached {ks : K → Prop} {w : World Id} (clock : Clock) {zones : List Geofence}
    (hzones : zones = selectActive w.db) : Shares config rules partitionOf ks w
      { w with geofenceCache := some (zones, clock.loadedCache) } := by
  refine ⟨.refl _, fun hw => ⟨⟨⟨hw.ready.registry, fun cache hcache => ?_, hw.ready.references⟩,
    hw.rules⟩, fun k _ => .refl k _⟩⟩
  obtain rfl := Option.some.inj hcache
  exact hzones

theorem Settled.shares {ks : K → Prop} {w w' : World Id} (h : Settled config rules w)
    (hw : Shares config rules partitionOf ks w w') : Settled config rules w' :=
  (hw.spares h).1

/-- The zones are those of the rules, whoever loads them meanwhile. -/
theorem guards_activeGeofences (clock : Clock) {w : World Id} (h : Settled config rules w) :
    Session.Guards (Shares config rules partitionOf (· = k))
      (Shares config rules partitionOf fun _ => True)
      (fun zones u => Settled config rules u ∧
        ⟨config.lowFuelPct, config.speedLimitKph, zones⟩ = rules)
      (activeGeofences config clock) w := by
  have hload {u : World Id} (hu : Settled config rules u) :
      Session.Guards (Shares config rules partitionOf (· = k))
        (Shares config rules partitionOf fun _ => True)
        (fun zones u => Settled config rules u ∧
          ⟨config.lowFuelPct, config.speedLimitKph, zones⟩ = rules)
        (loadGeofences clock) u := by
    have hselect : Session.Guards (Shares config rules partitionOf (· = k))
        (Shares config rules partitionOf fun _ => True)
        (fun zones u => Settled config rules u ∧ zones = selectActive u.db)
        (Session.query .selectGeofences fun w => selectActive w.db : Handler Id _) u :=
      Session.guards_query fun t ht => ⟨.refl t, hu.shares ht, rfl⟩
    refine hselect.bind fun zones t hpost => ?_
    obtain ⟨ht, hzones⟩ := hpost
    refine (Session.guards_modify fun x hx => ?_).bind fun _ _ hpost => Session.guards_pure hpost
    have hsame : zones = selectActive x.db := by
      rw [hzones, selectActive, ← hx.preserves.geofences, ← selectActive]
    have hcached : Shares config rules partitionOf (fun _ => True) x
        { x with geofenceCache := some (zones, clock.loadedCache) } := shares_cached clock hsame
    refine ⟨hcached, (ht.shares hx).shares hcached, ?_⟩
    rw [hsame, ← (ht.shares hx).rules]
    rfl
  have hget : Session.Guards (Shares config rules partitionOf (· = k))
      (Shares config rules partitionOf fun _ => True)
      (fun seen u => Settled config rules u ∧ seen = u) (Session.get : Handler Id (World Id)) w :=
    Session.guards_get fun t ht => ⟨.refl t, h.shares ht, rfl⟩
  refine hget.bind fun seen u hseen => ?_
  obtain ⟨hu, rfl⟩ := hseen
  cases hcache : seen.geofenceCache with
  | none => exact hload hu
  | some cache =>
    by_cases hage : clock.checkedCache - cache.2 < config.geofenceRefreshMs
    · dsimp only
      rw [if_pos hage]
      refine Session.guards_pure ⟨hu, ?_⟩
      rw [hu.ready.geofences cache hcache, ← hu.rules]
      rfl
    · dsimp only
      rw [if_neg hage]
      exact hload hu

variable [FreshIds Id]

/-- The vehicles of the batch are registered, whoever registers them meanwhile. -/
theorem guards_prepare (clock : Clock) {fresh : List Reading}
    (himeis : ∀ r ∈ fresh, imeiDigits r.imei = true) {w : World Id}
    (h : Knows g config rules partitionOf k seen seen w) :
    Session.Guards (Shares config rules partitionOf (· = k))
      (Shares config rules partitionOf (· ≠ k))
      (fun p u => p.1 = rules ∧ Resolves (fresh.map Reading.imei) p.2 u ∧
        Knows g config rules partitionOf k seen seen u)
      (prepare config clock fresh) w := by
  have hall {w w' : World Id} (hw : Shares config rules partitionOf (fun _ => True) w w') :
      Shares config rules partitionOf (· = k) w w' := hw.mono fun _ _ => trivial
  have hprepare : Session.Guards (Shares config rules partitionOf (· = k))
      (Shares config rules partitionOf fun _ => True)
      (fun p u => p.1 = rules ∧ Resolves (fresh.map Reading.imei) p.2 u)
      (prepare config clock fresh) w := by
    refine (guards_activeGeofences clock h.settled).bind fun zones u hpost => ?_
    obtain ⟨hu, hzones⟩ := hpost
    have hregistry : Session.Guards KeepsVehicles
        (fun w w' => Registers w w' ∧ (RegistryAgrees w → RegistryAgrees w'))
        (Resolution (fresh.map Reading.imei)) (resolveAll (fresh.map Reading.imei)) u :=
      guards_resolveAll (fun _ _ => id) (fun _ _ => .intro) (fun _ _ hw => ⟨hw.2, hw.1.vehicles⟩)
        (by simpa using himeis) hu.ready.registry
    have hresolve : Session.Guards (Shares config rules partitionOf (· = k))
        (Shares config rules partitionOf fun _ => True) (Resolution (fresh.map Reading.imei))
        (resolveAll (fresh.map Reading.imei)) u := by
      refine hregistry.weaken (P := Settled config rules) (fun _ _ hs hw => hw.keepsVehicles hs)
        (fun _ _ hw => hw.1.shares hw.2) (fun _ x y hs hw hw' => ?_) hu
      have hregistered : Shares config rules partitionOf (fun _ => True) x y := hw'.1.shares hw'.2
      exact (hs.shares hw).shares hregistered
    exact hresolve.bind fun ids t ht => Session.guards_pure ⟨hzones, ht.resolves⟩
  have hknows := hprepare.frame (fun _ _ => Knows.shares) (fun _ _ hu hw => hu.shares (hall hw)) h
  refine (hknows.mono fun p u hu => ?_).weaken (P := fun _ => True) (fun _ _ _ => id)
    (fun _ _ hw => hw.mono fun _ _ => trivial) (fun _ _ _ _ _ _ => trivial) trivial
  exact ⟨hu.1.1, hu.1.2, hu.2⟩

/-- A batch of the partition, whatever happens to the others. -/
theorem guards_alertingHandler (clock : Clock) {events : List TelemetryEvent}
    (hevents : ∀ event ∈ events, imeiDigits event.imei = true ∧ partitionOf event.imei = k)
    {w : World Id} (h : Knows g config rules partitionOf k seen seen w) :
    Session.Guards (Shares config rules partitionOf (· = k))
      (Shares config rules partitionOf (· ≠ k))
      (fun _ => Knows g config rules partitionOf k
        (andThen seen (byDevice (freshReadings config clock events)))
        (andThen seen (byDevice (freshReadings config clock events))))
      (alertingHandler g config clock events) w := by
  unfold alertingHandler
  dsimp only
  split
  · next hempty =>
    rw [List.isEmpty_iff.mp hempty]
    exact Session.guards_pure (by rwa [andThen_byDevice_nil])
  · refine (guards_prepare clock (imei_of_mem_fresh config fun event hevent =>
      (hevents event hevent).1) h).bind fun p u hprepared => ?_
    obtain ⟨hrules, hids, hu⟩ := hprepared
    rw [hrules]
    have hloop := guards_processReadings (freshReadings config clock events).zipIdx
      (fun i hi => (hevents _ (event_of_mem_fresh (List.fst_mem_of_mem_zipIdx hi))).2)
      (resolves_zipIdx hids fun _ hi => hi) hu
    rwa [List.zipIdx_map_fst] at hloop

/-! ## The consumers -/

variable (g config) in
/-- The alerting consumers of all processes. -/
def alerting :
    Hosting (World Id) (TelemetryDb Id) (Memory Id) Statement DbError (PartitionBatch K) Unit where
  view := worldEquiv
  start := .start
  program d := alertingHandler g config d.2.1 d.2.2

variable (g config rules partitionOf) in
/-- Of each partition the tables show the readings of its batches. -/
def replicas :
    (alerting g config : Hosting (World Id) _ _ _ _ (PartitionBatch K) _).Ownership Prod.fst where
  keeps := Preserves
  keeps_refl := .refl
  keeps_trans := .trans
  spares := Spares partitionOf
  spares_refl := .refl
  spares_trans := .trans
  inv := Settled config rules
  inv_keeps db db' m h hdb := by
    refine ⟨⟨fun e he => hdb.vehicles _ _ (h.ready.registry e he), fun cache hcache => ?_,
      hdb.references h.ready.references⟩, ?_⟩
    · have hzones := h.ready.geofences cache hcache
      rw [hzones, selectActive, selectActive]
      exact congrArg (fun zones => (zones.filter Prod.snd).map Prod.fst) hdb.geofences.symm
    · exact (hdb.rulesOf_eq config).trans h.rules
  inv_start db m h := ⟨.start h.ready.references, h.rules⟩
  accepts d := ∀ event ∈ d.2.2, imeiDigits event.imei = true ∧ partitionOf event.imei = d.1
  shows k ds db := ∀ imei, partitionOf imei = k → ∀ t,
    Tracks g config rules (.start db) imei t (byDevice (freshOf config (ds.map Prod.snd)) imei t)
      (byDevice (freshOf config (ds.map Prod.snd)) imei t)
  shows_spares k ds db db' h _ hspares imei himei t :=
    (h imei himei t).congr (hspares imei himei t).1 (hspares imei himei t).2
  guards d hd ds w hw hshows := by
    have hknows : Knows g config rules partitionOf d.1 (byDevice (freshOf config (ds.map Prod.snd)))
        (byDevice (freshOf config (ds.map Prod.snd))) w :=
      ⟨hw, fun imei himei t => (hshows imei himei t).congr rfl rfl⟩
    refine ((guards_alertingHandler d.2.1 hd hknows).mono fun _ u hu => ⟨hu.settled, ?_⟩).weaken
      (P := fun _ => True) (fun _ _ _ hw => ⟨hw.1, hw.2⟩)
      (fun _ _ hw => ⟨hw.preserves, hw.spares⟩) (fun _ _ _ _ _ _ => trivial) trivial
    intro imei himei t
    have hfresh : freshOf config ((ds ++ [d]).map Prod.snd) =
        freshOf config (ds.map Prod.snd) ++ freshReadings config d.2.1 d.2.2 := by
      simp [freshOf]
    rw [hfresh, byDevice_append]
    exact (hu.tracks imei himei t).congr rfl rfl

/-- Any number of consumers and partitions. -/
abbrev ReplicaConfig (K Process Id : Type) :=
  Config K (Hosts Process (TelemetryDb Id) (Memory Id) (PartitionBatch K) Unit)
    (Option (Turn Process (World Id) Statement DbError (PartitionBatch K) Unit))

/-- The alerts about the readings `rs` of a device. -/
def alertsFor (g : Geodesy D) (config : AlertingConfig) (rules : AlertRuleConfig)
    (t : VehicleAlertType) (rs : List Reading) : List (ℤ × AlertDetails) :=
  (EdgeTrigger.selected ((trigger g config rules t).reported rs) rs).filterMap
    (alertContent g rules t)

/-- Before the first batch: there are no alerts yet. -/
structure Unalerted (c : ReplicaConfig K Process Id) : Prop where
  ready : ∀ m, Ready (worldEquiv (c.shared.store, c.shared.memory m))
  alerts : c.shared.store.vehicleAlerts = []
  states : c.shared.store.vehicleAlertStates = Table.empty
  answers : c.shared.answers = []
  idle : ∀ k, c.locals k = none

variable {c₀ c : ReplicaConfig K Process Id}

theorem Unalerted.started (h : Unalerted c₀) :
    (replicas g config (rulesOf config c₀.shared.store) partitionOf).Started c₀ where
  consistent m := ⟨h.ready m, rfl⟩
  answers := h.answers
  idle := h.idle
  shows _ imei _ t := tracks_nil h.alerts h.states imei t

variable [DecidableEq K] [DecidableEq Process]

/-- However the batches of the partitions are shared out to the consumers, whatever the order of
their statements, and whenever processes start anew between batches: while no batch of its partition
is in hand, the alerts about a device are those of its readings so far in their order; while one is,
they are the first of those with the readings of the batch; and every batch in hand can be brought
to its end. -/
theorem alerts_across_replicas (h₀ : Unalerted c₀)
    (h : (alerting g config).turns.Run
      (replicas g config (rulesOf config c₀.shared.store) partitionOf).admits c₀ c) :
    (∀ imei, c.locals (partitionOf imei) = none → ∀ t,
      EdgeTriggered g config (rulesOf config c₀.shared.store) (.start c.shared.store) imei t
        (readingsOf imei (freshOf config
          ((c.shared.handled Prod.fst (partitionOf imei)).map Prod.snd)))) ∧
      ∀ k turn, c.locals k = some turn →
        (∀ imei, partitionOf imei = k → ∀ t, alertsOf (.start c.shared.store) imei t <+:
          alertsFor g config (rulesOf config c₀.shared.store) t (readingsOf imei (freshOf config
            ((c.shared.handled Prod.fst k ++ [turn.query]).map Prod.snd)))) ∧
        ∃ c', (alerting g config).turns.Run
          (replicas g config (rulesOf config c₀.shared.store) partitionOf).admits c c' ∧
            c'.locals k = none ∧ c'.shared.answers = c.shared.answers ++ [(turn.query, ())] := by
  have hidle {c : ReplicaConfig K Process Id} (h : (alerting g config).turns.Run
        (replicas g config (rulesOf config c₀.shared.store) partitionOf).admits c₀ c)
      (imei : String) (hnone : c.locals (partitionOf imei) = none) (t : VehicleAlertType) :
      EdgeTriggered g config (rulesOf config c₀.shared.store) (.start c.shared.store) imei t
        (readingsOf imei (freshOf config
          ((c.shared.handled Prod.fst (partitionOf imei)).map Prod.snd))) := by
    have hshows := (Hosting.Ownership.sound h₀.started h).2 (partitionOf imei)
    rw [hnone] at hshows
    exact (hshows imei rfl t).edgeTriggered
  refine ⟨hidle h, fun k turn hturn => ?_⟩
  obtain ⟨hconsistent, hasserts⟩ := Hosting.Ownership.sound h₀.started h
  obtain ⟨c', a, hrun, hlocals, hanswers⟩ :=
    Hosting.Ownership.run_finishes h₀.started turn.rest h hturn
  have hnone : c'.locals k = none := by rw [hlocals, Function.update_self]
  refine ⟨?_, c', hrun, hnone, hanswers⟩
  rintro imei rfl t
  have hkey := hasserts (partitionOf imei)
  rw [hturn] at hkey
  have hhandled : c'.shared.handled Prod.fst (partitionOf imei) =
      c.shared.handled Prod.fst (partitionOf imei) ++ [turn.query] := by
    rw [Hosts.handled, hanswers, List.map_append, List.filter_append, ← Hosts.handled]
    simp [hkey.1]
  rw [← hhandled, alertsFor, ← (hidle (h.trans hrun) imei hnone t).alerts]
  refine (Hosting.Ownership.kept h₀.started h hrun).alertsOf ?_ imei t
  exact (hconsistent turn.process).ready.references

end

/-! ## Two consumers -/

/-- The device of `report` has a partition for itself. -/
def samplePartition (imei : String) : Bool := imei = "356307042441013"

/-- Two processes that have just started, and two partitions. -/
def unread : ReplicaConfig Bool Bool ℕ := ⟨⟨.empty, fun _ => .start, []⟩, fun _ => none⟩

theorem unalerted_unread : Unalerted unread :=
  ⟨fun _ => ready_emptyWorld, rfl, rfl, rfl, fun _ => rfl⟩

/-- Another device is low on fuel too. -/
def otherReport : Batch :=
  (fiveMinutesPast, [{ report "01:00" lowTank with imei := "356307042441014" }])

/-- The tank is filled, and low again. -/
def refilled : Batch :=
  (fiveMinutesPast, [report "03:00" [⟨.canPct, some 80, none⟩], report "04:00" lowTank])

/-- The replicas of `unread`. -/
abbrev sampleReplicas : (alerting noZones .defaults :
    Hosting (World ℕ) _ _ _ _ (PartitionBatch Bool) _).Ownership Prod.fst :=
  replicas noZones .defaults (rulesOf .defaults unread.shared.store) samplePartition

theorem admits_call (c : ReplicaConfig Bool Bool ℕ) (m k : Bool) {b : Batch}
    (hb : ∀ event ∈ b.2, imeiDigits event.imei = true ∧ samplePartition event.imei = k) :
    sampleReplicas.admits c k (.call m (k, b)) := ⟨rfl, hb⟩

open Hosting.Ownership (run_turnStep run_finishes) in
/-- Both processes have a batch in hand at the same time; then the first device passes to the other
process. -/
theorem run_relay : ∃ c, (alerting noZones .defaults).turns.Run sampleReplicas.admits unread c ∧
    c.locals true = none ∧
    c.shared.answers =
      [((true, twoReports), ()), ((false, otherReport), ()), ((true, refilled), ())] := by
  have hcalled :=
    (run_turnStep (admits_call unread false true (b := twoReports) (by decide)) rfl).trans
    (run_turnStep (k := false) (admits_call _ true false (b := otherReport) (by decide)) rfl)
  have hstarted := (hcalled.trans
    (run_turnStep (A := sampleReplicas) (k := true) (a := .proceed) trivial rfl)).trans
    (run_turnStep (A := sampleReplicas) (k := false) (a := .proceed) trivial rfl)
  obtain ⟨c, a, hfirst, hlocals, hanswers⟩ := run_finishes (k := true) unalerted_unread.started _
    hstarted rfl
  obtain ⟨c', a', hsecond, hlocals', hanswers'⟩ := run_finishes (k := false)
    unalerted_unread.started _ (hstarted.trans hfirst) (by rw [hlocals]; rfl)
  have hpassed := ((hstarted.trans hfirst).trans hsecond).trans
    (run_turnStep (k := true) (admits_call c' true true (b := refilled) (by decide))
      (by rw [hlocals', hlocals]; rfl))
  obtain ⟨c'', a'', hthird, hlocals'', hanswers''⟩ := run_finishes (k := true)
    unalerted_unread.started _ hpassed rfl
  refine ⟨c'', hpassed.trans hthird, by rw [hlocals'', Function.update_self], ?_⟩
  rw [hanswers'', hanswers', hanswers]
  rfl

/-- The second consumer knows what the first one reported. -/
theorem alerts_across_replicas_relay : ∃ c,
    (alerting noZones .defaults).turns.Run sampleReplicas.admits unread c ∧
      alertsOf (.start c.shared.store) "356307042441013" .lowFuel =
        [(1704067260000, .lowFuel 10 15 .canPct), (1704067440000, .lowFuel 10 15 .canPct)] := by
  obtain ⟨c, hrun, hidle, hanswers⟩ := run_relay
  obtain ⟨hshows, -⟩ := alerts_across_replicas unalerted_unread hrun
  have halerts := (hshows "356307042441013" hidle .lowFuel).alerts
  have hhandled : c.shared.handled Prod.fst (samplePartition "356307042441013") =
      [(true, twoReports), (true, refilled)] := by
    rw [Hosts.handled, hanswers]
    rfl
  rw [hhandled] at halerts
  exact ⟨c, hrun, halerts.trans (by decide)⟩

end BankPlatform.Telemetry
