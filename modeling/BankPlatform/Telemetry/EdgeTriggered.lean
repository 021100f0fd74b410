import BankPlatform.Library.EdgeTrigger
import BankPlatform.Telemetry.Alerting

/-!
# The alerting handler as an edge trigger

For every device and type of alert the handler acts as an edge trigger with a cooldown over the
fresh readings of the device; the row of the condition is the state of the trigger.

## Main definitions

* `alertState?`, `alertsOf` — what the tables say about a device.
* `Handled` — the tables moved on over some readings.

## Main results

* `does_processReadings` — without a failure the loop works through the readings.
* `fails_processReadings` — what it leaves behind when a statement fails.
-/

namespace BankPlatform.Telemetry

open Library

variable {Id : Type}

/-! ## What the tables say about a device -/

/-- The alert tables replaced. -/
def World.withStates (w : World Id) (states : Table (VehicleAlertState Id)) : World Id :=
  { w with db := { w.db with vehicleAlertStates := states } }

def World.withAlerts (w : World Id) (alerts : List (VehicleAlert Id)) : World Id :=
  { w with db := { w.db with vehicleAlerts := alerts } }

@[simp] theorem withStates_states (w : World Id) (states : Table (VehicleAlertState Id)) :
    (w.withStates states).db.vehicleAlertStates = states := rfl

@[simp] theorem withAlerts_alerts (w : World Id) (alerts : List (VehicleAlert Id)) :
    (w.withAlerts alerts).db.vehicleAlerts = alerts := rfl

@[simp] theorem vehicleOf_withStates (w : World Id) (states : Table (VehicleAlertState Id))
    (imei : String) : vehicleOf (w.withStates states) imei = vehicleOf w imei := rfl

@[simp] theorem vehicleOf_withAlerts (w : World Id) (alerts : List (VehicleAlert Id))
    (imei : String) : vehicleOf (w.withAlerts alerts) imei = vehicleOf w imei := rfl

section

variable [DecidableEq Id]

theorem vehicleReference_of_vehicleOf {w : World Id} {imei : String} {v : Id}
    (h : vehicleOf w imei = some v) : (vehicleReference w.db v).1 = true := by
  obtain ⟨row, hrow, rfl⟩ := Option.map_eq_some_iff.mp h
  exact List.any_eq_true.mpr ⟨row, Table.mem_of_find? hrow, by simp⟩

/-- The row about a condition of a device. -/
def alertState? (w : World Id) (imei : String) (alertType : VehicleAlertType) :
    Option (VehicleAlertState Id) :=
  (vehicleOf w imei).bind fun v => selectAlertState v alertType w

theorem alertState?_eq {w : World Id} {imei : String} {v : Id} (hv : vehicleOf w imei = some v)
    (t : VehicleAlertType) : alertState? w imei t = w.db.vehicleAlertStates.find? (v, t) := by
  rw [alertState?, hv]
  rfl

/-- The alerts of a type about a device, in the order in which they were written. -/
def alertsOf (w : World Id) (imei : String) (alertType : VehicleAlertType) :
    List (ℤ × AlertDetails) :=
  (w.db.vehicleAlerts.filter fun a =>
    vehicleOf w imei = some a.vehicleId && a.alertType = alertType).map fun a =>
      (a.recordedAt, a.details)

end

/-! ## The edge trigger -/

/-- A missing row says that the condition never held. -/
def edgeState (row : Option (VehicleAlertState Id)) : EdgeState :=
  match row with
  | none => .initial
  | some s => ⟨s.active, s.lastFiredAt⟩

section

variable {D : Type} [LT D] [DecidableLT D] [LE D] [DecidableLE D]

def trigger (g : Geodesy D) (config : AlertingConfig) (rules : AlertRuleConfig)
    (alertType : VehicleAlertType) : EdgeTrigger Reading where
  holds r := (candidateFor g rules alertType r.event).isSome
  time := Reading.recordedAt
  cooldown := config.cooldownMs

/-- For a reading with the condition the trigger fires exactly if the handler does. -/
theorem fires_edgeState {g : Geodesy D} {config : AlertingConfig} {rules : AlertRuleConfig}
    {t : VehicleAlertType} {r : Reading} (hholds : (trigger g config rules t).holds r = true)
    (row : Option (VehicleAlertState Id)) :
    (trigger g config rules t).fires (edgeState row) r = fire config r.recordedAt row := by
  rw [EdgeTrigger.fires, hholds, Bool.true_and]
  cases row with
  | none => rfl
  | some s => rfl

/-- What an alert about a reading says. -/
def alertContent (g : Geodesy D) (rules : AlertRuleConfig) (alertType : VehicleAlertType)
    (r : Reading) : Option (ℤ × AlertDetails) :=
  (candidateFor g rules alertType r.event).map fun candidate => (r.recordedAt, candidate.details)

variable [DecidableEq Id]

/-- From `w` to `w'`, for each device and type, the state moved on over the readings `seen`, and
alerts were written for those of the readings `told` that fire. -/
structure Handled (g : Geodesy D) (config : AlertingConfig) (rules : AlertRuleConfig)
    (w w' : World Id) (seen told : String → VehicleAlertType → List Reading) : Prop where
  state : ∀ imei t, edgeState (alertState? w' imei t) =
    (trigger g config rules t).after (edgeState (alertState? w imei t)) (seen imei t)
  row : ∀ imei t, (alertState? w' imei t).isSome = true ↔ (alertState? w imei t).isSome = true ∨
    ∃ r ∈ seen imei t, (trigger g config rules t).holds r = true
  alerts : ∀ imei t, alertsOf w' imei t = alertsOf w imei t ++
    ((trigger g config rules t).fired (edgeState (alertState? w imei t)) (told imei t)).filterMap
      (alertContent g rules t)
  grows : w.db.vehicleAlerts <+: w'.db.vehicleAlerts

variable {g : Geodesy D} {config : AlertingConfig} {rules : AlertRuleConfig}

theorem Handled.refl (w : World Id) :
    Handled g config rules w w (fun _ _ => []) (fun _ _ => []) where
  state _ _ := rfl
  row _ _ := by simp
  alerts _ _ := by simp [EdgeTrigger.fired]
  grows := List.prefix_refl _

theorem Handled.trans {w w' w'' : World Id}
    {seen seen' told' : String → VehicleAlertType → List Reading}
    (h : Handled g config rules w w' seen seen) (h' : Handled g config rules w' w'' seen' told') :
    Handled g config rules w w'' (fun imei t => seen imei t ++ seen' imei t)
      (fun imei t => seen imei t ++ told' imei t) where
  state imei t := by rw [h'.state, h.state, EdgeTrigger.after_append]
  row imei t := by
    rw [h'.row, h.row, or_assoc]
    simp only [List.mem_append, or_and_right, exists_or]
  alerts imei t := by
    rw [h'.alerts, h.alerts, h.state, EdgeTrigger.fired_append, List.filterMap_append,
      List.append_assoc]
  grows := h.grows.trans h'.grows

/-! ## One round -/

/-- In the table of states the row of one key took a step. -/
structure StepsRow (e : EdgeTrigger Reading) (states states' : Table (VehicleAlertState Id))
    (k : Id × VehicleAlertType) (r : Reading) : Prop where
  other : ∀ k', k ≠ k' → states'.find? k' = states.find? k'
  state : edgeState (states'.find? k) = e.step (edgeState (states.find? k)) r
  row : (states'.find? k).isSome = true ↔ (states.find? k).isSome = true ∨ e.holds r = true

/-- Without the condition: the row, if there is one, becomes inactive. -/
theorem stepsRow_clear {e : EdgeTrigger Reading} {r : Reading} (hholds : e.holds r = false)
    (states : Table (VehicleAlertState Id)) (k : Id × VehicleAlertType) :
    StepsRow e states (states.update k (.clear r.recordedAt)) k r where
  other k' hk := by rw [Table.find?_update (key_clear _), if_neg hk]
  state := by
    rw [Table.find?_update (key_clear _), if_pos rfl]
    cases states.find? k <;>
      simp [edgeState, EdgeTrigger.step, EdgeTrigger.fires, hholds, EdgeState.initial,
        VehicleAlertState.clear]
  row := by
    rw [Table.find?_update (key_clear _), if_pos rfl]
    simp [hholds]

/-- Without the condition and without an active row nothing needs to be done. -/
theorem stepsRow_idle {e : EdgeTrigger Reading} {r : Reading} (hholds : e.holds r = false)
    {states : Table (VehicleAlertState Id)} {k : Id × VehicleAlertType}
    (hidle : (states.find? k).any VehicleAlertState.active = false) :
    StepsRow e states states k r where
  other _ _ := rfl
  state := by
    cases hrow : states.find? k with
    | none => simp [edgeState, EdgeTrigger.step, EdgeTrigger.fires, hholds, EdgeState.initial]
    | some s =>
      rw [hrow, Option.any_some] at hidle
      simp [edgeState, EdgeTrigger.step, EdgeTrigger.fires, hholds, hidle]
  row := by simp [hholds]

/-- With the condition: the row is added, or becomes active. -/
theorem stepsRow_upsert {t : VehicleAlertType} {r : Reading}
    (hholds : (trigger g config rules t).holds r = true) (states : Table (VehicleAlertState Id))
    (v : Id) {fires : Bool} (hfires : fires = fire config r.recordedAt (states.find? (v, t))) :
    StepsRow (trigger g config rules t) states
      (states.upsert (heldRow fires v t r.recordedAt (states.find? (v, t)))
        (.hold fires r.recordedAt)) (v, t) r where
  other k' hk := by
    rw [Table.find?_upsert (key_hold _ _), key_heldRow, if_neg hk]
  state := by
    rw [Table.find?_upsert (key_hold _ _), key_heldRow, if_pos rfl, EdgeTrigger.step, hholds,
      fires_edgeState hholds, ← hfires]
    cases hrow : states.find? (v, t) with
    | none =>
      rw [hrow] at hfires
      obtain rfl : fires = true := hfires
      rfl
    | some s =>
      simp [edgeState, trigger, VehicleAlertState.hold]
  row := by
    rw [Table.find?_upsert (key_hold _ _), key_heldRow, if_pos rfl]
    simp [hholds]

variable (g config rules) in
/-- The row of the condition takes its step, and the answer is whether the trigger fires. -/
theorem does_shouldFire {w : World Id} {v : Id} (position : ℕ) (t : VehicleAlertType) (r : Reading)
    (hv : (vehicleReference w.db v).1 = true) :
    ∃ states, Session.Does
        (shouldFire config position v t ((trigger g config rules t).holds r) r.recordedAt) w
        ((trigger g config rules t).fires (edgeState (selectAlertState v t w)) r)
        (w.withStates states) ∧
      StepsRow (trigger g config rules t) w.db.vehicleAlertStates states (v, t) r := by
  unfold shouldFire
  cases hholds : (trigger g config rules t).holds r with
  | false =>
    have hfires : (trigger g config rules t).fires (edgeState (selectAlertState v t w)) r = false := by
      simp [EdgeTrigger.fires, hholds]
    rw [hfires]
    cases hidle : (selectAlertState v t w).any VehicleAlertState.active with
    | false =>
      refine ⟨_, (Session.does_query _ _ _).bind ?_, stepsRow_idle hholds hidle⟩
      rw [if_neg Bool.false_ne_true, clearCondition, if_neg (by simp [hidle])]
      exact Session.does_pure.mpr ⟨rfl, rfl⟩
    | true =>
      refine ⟨_, (Session.does_query _ _ _).bind ?_, stepsRow_clear hholds _ _⟩
      rw [if_neg Bool.false_ne_true, clearCondition, if_pos hidle]
      have hwrite : Session.Does (write (.clearAlertState position t)
          (clearAlertState v t r.recordedAt)) w () (w.withStates
            (w.db.vehicleAlertStates.update (v, t) (.clear r.recordedAt))) :=
        does_write.mpr ⟨_, rfl, rfl⟩
      exact hwrite.bind (Session.does_pure.mpr ⟨rfl, rfl⟩)
  | true =>
    rw [fires_edgeState hholds]
    refine ⟨_, (Session.does_query _ _ _).bind ?_, stepsRow_upsert hholds _ v rfl⟩
    rw [if_pos rfl, holdCondition]
    exact (does_write.mpr ⟨_, if_pos hv, rfl⟩).bind (Session.does_pure.mpr ⟨rfl, rfl⟩)

/-- The statements of a round, by the reading and the type that it is about. -/
def Statement.about : Statement → Option (ℕ × VehicleAlertType)
  | .selectAlertState position t => some (position, t)
  | .clearAlertState position t => some (position, t)
  | .upsertAlertState position t => some (position, t)
  | .insertAlert position t => some (position, t)
  | _ => none

/-- A failure behind which the row of a condition says that a reading was reported, without the
alert being there. -/
def Swallows (position : ℕ) (t : VehicleAlertType) (fires : Bool) (label : Statement)
    (landed : Bool) : Prop :=
  label = .insertAlert position t ∧ landed = false ∨
    label = .upsertAlertState position t ∧ landed = true ∧ fires = true

/-- When a statement of `shouldFire` fails, the row has taken its step or has not. -/
theorem fails_shouldFire {w w' : World Id} {v : Id} {position : ℕ} {t : VehicleAlertType}
    {r : Reading} {label : Statement} {landed : Bool} (hv : (vehicleReference w.db v).1 = true)
    (h : Session.Fails
      (shouldFire config position v t ((trigger g config rules t).holds r) r.recordedAt)
      w label landed w') :
    label.about = some (position, t) ∧
      (w' = w ∧ (∀ fires, ¬ Swallows position t fires label landed) ∨
        ∃ states, w' = w.withStates states ∧
          StepsRow (trigger g config rules t) w.db.vehicleAlertStates states (v, t) r ∧
          ∀ fires, fires = (trigger g config rules t).fires (edgeState (selectAlertState v t w)) r →
            (Swallows position t fires label landed ↔ fires = true)) := by
  unfold shouldFire at h
  rcases Session.fails_bind.mp h with hselect | ⟨existing, u, hselect, h⟩
  · obtain ⟨rfl, rfl⟩ := Session.fails_query.mp hselect
    exact ⟨rfl, .inl ⟨rfl, by simp [Swallows]⟩⟩
  obtain ⟨rfl, rfl⟩ := Session.Does.unique (Session.does_query _ _ _) hselect
  cases hholds : (trigger g config rules t).holds r with
  | false =>
    rw [hholds, if_neg Bool.false_ne_true, clearCondition] at h
    split at h
    · rcases Session.fails_bind.mp h with hwrite | ⟨_, _, _, hpure⟩
      · obtain ⟨rfl, ⟨rfl, db, hdb, rfl⟩ | ⟨rfl, _⟩⟩ := fails_write hwrite
        · obtain rfl := Except.ok.inj hdb
          refine ⟨rfl, .inr ⟨_, rfl, stepsRow_clear hholds _ _, fun fires hfires => ?_⟩⟩
          simp [Swallows, hfires, EdgeTrigger.fires, hholds]
        · exact ⟨rfl, .inl ⟨rfl, by simp [Swallows]⟩⟩
      · exact (Session.not_fails_pure hpure).elim
    · exact (Session.not_fails_pure h).elim
  | true =>
    rw [hholds, if_pos rfl, holdCondition] at h
    rcases Session.fails_bind.mp h with hwrite | ⟨_, _, _, hpure⟩
    · obtain ⟨rfl, ⟨rfl, db, hdb, rfl⟩ | ⟨rfl, hrefused⟩⟩ := fails_write hwrite
      · obtain rfl := Except.ok.inj ((if_pos hv).symm.trans hdb)
        refine ⟨rfl, .inr ⟨_, rfl, stepsRow_upsert hholds _ v rfl, fun fires hfires => ?_⟩⟩
        simp [Swallows]
      · refine ⟨rfl, .inl ⟨rfl, fun fires hswallows => ?_⟩⟩
        have hlanded : landed = true := by
          rcases hswallows with ⟨hinsert, _⟩ | ⟨_, hlanded, _⟩
          · cases hinsert
          · exact hlanded
        obtain ⟨err, herr⟩ := hrefused hlanded
        cases (if_pos hv).symm.trans herr
    · exact (Session.not_fails_pure hpure).elim

/-- Every row of the alert tables belongs to a vehicle: their foreign keys. -/
structure AlertReferences (db : TelemetryDb Id) : Prop where
  alerts : ∀ a ∈ db.vehicleAlerts, (vehicleReference db a.vehicleId).1 = true
  states : ∀ s ∈ db.vehicleAlertStates.rows, (vehicleReference db s.vehicleId).1 = true

/-- What a round leaves alone. -/
structure Keeps (w w' : World Id) : Prop where
  vehicles : w'.db.vehicles = w.db.vehicles
  registry : w'.registry = w.registry
  geofences : w'.db.geofences = w.db.geofences
  geofenceCache : w'.geofenceCache = w.geofenceCache
  references : AlertReferences w.db → AlertReferences w'.db

theorem Keeps.refl (w : World Id) : Keeps w w := ⟨rfl, rfl, rfl, rfl, id⟩

theorem Keeps.trans {w w' w'' : World Id} (h : Keeps w w') (h' : Keeps w' w'') : Keeps w w'' :=
  ⟨h'.vehicles.trans h.vehicles, h'.registry.trans h.registry, h'.geofences.trans h.geofences,
    h'.geofenceCache.trans h.geofenceCache, h'.references ∘ h.references⟩

theorem Keeps.vehicleOf {w w' : World Id} (h : Keeps w w') (imei : String) :
    vehicleOf w' imei = vehicleOf w imei := by
  rw [Telemetry.vehicleOf, h.vehicles, ← Telemetry.vehicleOf]

theorem keeps_withStates {w : World Id} {states : Table (VehicleAlertState Id)} {v : Id}
    {t : VehicleAlertType} {r : Reading} {e : EdgeTrigger Reading}
    (hv : (vehicleReference w.db v).1 = true)
    (h : StepsRow e w.db.vehicleAlertStates states (v, t) r) : Keeps w (w.withStates states) where
  vehicles := rfl
  registry := rfl
  geofences := rfl
  geofenceCache := rfl
  references href := by
    refine ⟨href.alerts, fun s hs => ?_⟩
    by_cases hkey : (v, t) = Keyed.key s
    · obtain rfl : v = s.vehicleId := congrArg Prod.fst hkey
      exact hv
    · have hfound : states.find? (Keyed.key s) = some s := Table.find?_key hs
      rw [h.other _ hkey] at hfound
      exact href.states s (Table.mem_of_find? hfound)

theorem keeps_withAlerts {w : World Id} {row : VehicleAlert Id}
    (hv : (vehicleReference w.db row.vehicleId).1 = true) :
    Keeps w (w.withAlerts (w.db.vehicleAlerts ++ [row])) where
  vehicles := rfl
  registry := rfl
  geofences := rfl
  geofenceCache := rfl
  references href := by
    refine ⟨fun a ha => ?_, href.states⟩
    rcases List.mem_append.mp ha with ha | ha
    · exact href.alerts a ha
    · obtain rfl := List.mem_singleton.mp ha
      exact hv

/-- Readings of one device for one type of alert. -/
def only (imei : String) (t : VehicleAlertType) (rs : List Reading) :
    String → VehicleAlertType → List Reading :=
  fun imei' t' => if imei' = imei ∧ t' = t then rs else []

/-- The rows of the other conditions are what they were. -/
theorem StepsRow.alertState?_of_ne {w : World Id} {imei : String} {v : Id} {t : VehicleAlertType}
    {r : Reading} {e : EdgeTrigger Reading} {states : Table (VehicleAlertState Id)}
    (h : StepsRow e w.db.vehicleAlertStates states (v, t) r) (hv : vehicleOf w imei = some v)
    {imei' : String} {t' : VehicleAlertType} (hne : ¬ (imei' = imei ∧ t' = t)) :
    alertState? (w.withStates states) imei' t' = alertState? w imei' t' := by
  cases hv' : vehicleOf w imei' with
  | none => simp [alertState?, hv']
  | some v' =>
    have hkey : (v, t) ≠ (v', t') := by
      intro hkey
      cases hkey
      exact hne ⟨vehicleOf_inj hv' hv, rfl⟩
    rw [alertState?_eq hv', alertState?_eq (w := w.withStates states) hv']
    exact h.other _ hkey

/-- The row of a condition took its step. -/
theorem handled_withStates {w : World Id} {imei : String} {v : Id} {t : VehicleAlertType}
    {r : Reading} {states : Table (VehicleAlertState Id)} (hv : vehicleOf w imei = some v)
    (h : StepsRow (trigger g config rules t) w.db.vehicleAlertStates states (v, t) r) :
    Handled g config rules w (w.withStates states) (only imei t [r]) (fun _ _ => []) := by
  have hsame : ∀ imei' t', ¬ (imei' = imei ∧ t' = t) →
      alertState? (w.withStates states) imei' t' = alertState? w imei' t' := fun _ _ =>
    h.alertState?_of_ne hv
  have hold := alertState?_eq hv t
  have hnew : alertState? (w.withStates states) imei t = states.find? (v, t) :=
    alertState?_eq (w := w.withStates states) hv t
  refine ⟨fun imei' t' => ?_, fun imei' t' => ?_, fun imei' t' => ?_, List.prefix_refl _⟩
  · unfold only
    split
    · next heq =>
      obtain ⟨rfl, rfl⟩ := heq
      rw [hnew, hold, h.state]
      rfl
    · next hne => rw [hsame _ _ hne, EdgeTrigger.after_nil]
  · unfold only
    split
    · next heq =>
      obtain ⟨rfl, rfl⟩ := heq
      rw [hnew, hold, h.row]
      simp
    · next hne =>
      rw [hsame _ _ hne]
      simp
  · exact (List.append_nil _).symm

/-- The alert of a reading that fires was written. -/
theorem Handled.told {w w' : World Id} {imei : String} {t : VehicleAlertType} {r : Reading}
    {seen : String → VehicleAlertType → List Reading} {row : VehicleAlert Id}
    (h : Handled g config rules w w' seen (fun _ _ => []))
    (hfires : (trigger g config rules t).fires (edgeState (alertState? w imei t)) r = true)
    (hv : vehicleOf w' imei = some row.vehicleId) (ht : row.alertType = t)
    (hcontent : alertContent g rules t r = some (row.recordedAt, row.details)) :
    Handled g config rules w (w'.withAlerts (w'.db.vehicleAlerts ++ [row])) seen
      (only imei t [r]) where
  state := h.state
  row := h.row
  alerts imei' t' := by
    have halerts := h.alerts imei' t'
    rw [EdgeTrigger.fired, List.filterMap_nil, List.append_nil] at halerts
    rw [alertsOf, withAlerts_alerts, List.filter_append, List.map_append, vehicleOf_withAlerts,
      ← alertsOf, halerts]
    congr 1
    unfold only
    split
    · next heq =>
      obtain ⟨rfl, rfl⟩ := heq
      simp [hv, ht, EdgeTrigger.fired, hfires, hcontent]
    · next hne =>
      have hother : ¬ (vehicleOf w' imei' = some row.vehicleId ∧ t = t') :=
        fun heq => hne ⟨vehicleOf_inj heq.1 hv, heq.2.symm⟩
      simp [ht, EdgeTrigger.fired, hother]
  grows := h.grows.trans (List.prefix_append _ _)

/-- About a reading that does not fire there is nothing to write. -/
theorem Handled.untold {w w' : World Id} {imei : String} {t : VehicleAlertType} {r : Reading}
    {seen : String → VehicleAlertType → List Reading}
    (h : Handled g config rules w w' seen (fun _ _ => []))
    (hfires : (trigger g config rules t).fires (edgeState (alertState? w imei t)) r = false) :
    Handled g config rules w w' seen (only imei t [r]) where
  state := h.state
  row := h.row
  alerts imei' t' := by
    rw [h.alerts]
    unfold only
    split
    · next heq =>
      obtain ⟨rfl, rfl⟩ := heq
      simp [EdgeTrigger.fired, hfires]
    · rfl
  grows := h.grows

/-- The candidate of a reading that fires. -/
theorem exists_candidate {s : EdgeState} {t : VehicleAlertType} {r : Reading}
    (h : (trigger g config rules t).fires s r = true) :
    ∃ candidate, candidateFor g rules t r.event = some candidate ∧ candidate.alertType = t := by
  rw [EdgeTrigger.fires, Bool.and_eq_true] at h
  obtain ⟨candidate, hcandidate⟩ := Option.isSome_iff_exists.mp h.1
  exact ⟨candidate, hcandidate, (candidateFor_eq_some g hcandidate).2⟩

variable (g config rules) in
/-- A round without a failure. -/
theorem does_processType {w : World Id} {imei : String} {v : Id} (position : ℕ)
    (t : VehicleAlertType) (r : Reading) (hv : vehicleOf w imei = some v) :
    ∃ w', Session.Does (processType g config rules position v r t) w () w' ∧ Keeps w w' ∧
      Handled g config rules w w' (only imei t [r]) (only imei t [r]) := by
  have href := vehicleReference_of_vehicleOf hv
  obtain ⟨states, hdoes, hstep⟩ := does_shouldFire g config rules
    position t r href
  have hkeeps := keeps_withStates href hstep
  have hhandled := handled_withStates hv hstep
  rw [selectAlertState, ← alertState?_eq hv] at hdoes
  cases hfires : (trigger g config rules t).fires (edgeState (alertState? w imei t)) r with
  | false =>
    refine ⟨_, hdoes.bind ?_, hkeeps, hhandled.untold hfires⟩
    rw [hfires, if_neg Bool.false_ne_true]
    exact Session.does_pure.mpr ⟨rfl, rfl⟩
  | true =>
    obtain ⟨candidate, hcandidate, htype⟩ := exists_candidate hfires
    have hcontent : alertContent g rules t r = some (r.recordedAt, candidate.details) := by
      rw [alertContent, hcandidate, Option.map_some]
    have hrow : (vehicleReference (w.withStates states).db
        (newAlert v r.recordedAt candidate).vehicleId).1 = true := href
    refine ⟨_, hdoes.bind ?_, hkeeps.trans (keeps_withAlerts hrow),
      hhandled.told hfires hv htype hcontent⟩
    rw [hfires, if_pos rfl, hcandidate, raise]
    exact does_write.mpr ⟨_, if_pos hrow, rfl⟩

theorem only_nil (imei : String) (t : VehicleAlertType) : only imei t [] = fun _ _ => [] := by
  funext imei' t'
  exact ite_self _

/-- How far a round came that failed: it did nothing or everything, or it only moved the state on
over a reading that fires. -/
inductive Stopped (r : Reading) (fires swallows : Prop) : List Reading → List Reading → Prop where
  | idle (h : ¬ swallows) : Stopped r fires swallows [] []
  | done (h : ¬ swallows) : Stopped r fires swallows [r] [r]
  | gap (hfires : fires) (h : swallows) : Stopped r fires swallows [r] []

/-- A round with a failure. -/
theorem fails_processType {w w' : World Id} {imei : String} {v : Id} {position : ℕ}
    {t : VehicleAlertType} {r : Reading} {label : Statement} {landed : Bool}
    (hv : vehicleOf w imei = some v)
    (h : Session.Fails (processType g config rules position v r t) w label landed w') :
    label.about = some (position, t) ∧ Keeps w w' ∧
      ∃ seen told, Handled g config rules w w' (only imei t seen) (only imei t told) ∧
        Stopped r ((trigger g config rules t).fires (edgeState (alertState? w imei t)) r = true)
          (Swallows position t
            ((trigger g config rules t).fires (edgeState (alertState? w imei t)) r) label landed)
          seen told := by
  have href := vehicleReference_of_vehicleOf hv
  rcases Session.fails_bind.mp h with hstate | ⟨fired, u, hdone, h⟩
  · obtain ⟨habout, ⟨rfl, hswallows⟩ | ⟨states, rfl, hstep, hswallows⟩⟩ :=
      fails_shouldFire href hstate
    · refine ⟨habout, .refl _, [], [], ?_, .idle (hswallows _)⟩
      rw [only_nil]
      exact .refl _
    · have hhandled := handled_withStates hv hstep
      have hiff := hswallows _ rfl
      rw [selectAlertState, ← alertState?_eq hv] at hiff
      refine ⟨habout, keeps_withStates href hstep, [r], ?_⟩
      cases hfires : (trigger g config rules t).fires (edgeState (alertState? w imei t)) r with
      | false =>
        rw [hfires] at hiff
        exact ⟨[r], hhandled.untold hfires, .done fun hs => Bool.false_ne_true (hiff.mp hs)⟩
      | true =>
        rw [hfires] at hiff
        exact ⟨[], by rwa [only_nil], .gap rfl (hiff.mpr rfl)⟩
  · obtain ⟨states, hdoes, hstep⟩ := does_shouldFire g config rules
      position t r href
    obtain ⟨rfl, rfl⟩ := hdoes.unique hdone
    rw [selectAlertState, ← alertState?_eq hv] at h
    have hhandled := handled_withStates hv hstep
    cases hfires : (trigger g config rules t).fires (edgeState (alertState? w imei t)) r with
    | false =>
      rw [hfires, if_neg Bool.false_ne_true] at h
      exact (Session.not_fails_pure h).elim
    | true =>
      obtain ⟨candidate, hcandidate, htype⟩ := exists_candidate hfires
      have hcontent : alertContent g rules t r = some (r.recordedAt, candidate.details) := by
        rw [alertContent, hcandidate, Option.map_some]
      have hrow : (vehicleReference (w.withStates states).db
          (newAlert v r.recordedAt candidate).vehicleId).1 = true := href
      rw [hfires, if_pos rfl, hcandidate, raise] at h
      obtain ⟨rfl, ⟨rfl, db, hdb, rfl⟩ | ⟨rfl, hrefused⟩⟩ := fails_write h
      · obtain rfl := Except.ok.inj ((if_pos hrow).symm.trans hdb)
        refine ⟨rfl, (keeps_withStates href hstep).trans (keeps_withAlerts hrow), [r], [r],
          hhandled.told hfires hv htype hcontent, .done ?_⟩
        simp [Swallows]
      · have hunlanded : landed = false := by
          cases landed with
          | false => rfl
          | true =>
            obtain ⟨err, herr⟩ := hrefused rfl
            cases (if_pos hrow).symm.trans herr
        refine ⟨rfl, keeps_withStates href hstep, [r], [], ?_,
          .gap rfl (.inl ⟨rfl, hunlanded⟩)⟩
        rwa [only_nil]

/-! ## The loops -/

/-- A reading for some types of alert. -/
def ofTypes (r : Reading) (ts : List VehicleAlertType) : String → VehicleAlertType → List Reading :=
  fun imei t => if imei = r.imei ∧ t ∈ ts then [r] else []

/-- The readings of a device, for every type of alert. -/
def byDevice (rs : List Reading) : String → VehicleAlertType → List Reading :=
  fun imei _ => rs.filter fun r => r.imei = imei

theorem byDevice_append (rs rs' : List Reading) :
    byDevice (rs ++ rs') = fun imei t => byDevice rs imei t ++ byDevice rs' imei t := by
  funext imei t
  exact List.filter_append ..

theorem ofTypes_append {r : Reading} {done : List VehicleAlertType} {t : VehicleAlertType}
    (h : t ∉ done) : ofTypes r (done ++ [t]) =
      fun imei t' => ofTypes r done imei t' ++ only r.imei t [r] imei t' := by
  funext imei t'
  unfold ofTypes only
  by_cases himei : imei = r.imei
  · by_cases htype : t' = t
    · subst htype
      simp [himei, h]
    · simp [himei, htype]
  · simp [himei]

/-- Every type has its round. -/
theorem ofTypes_all (r : Reading) : ofTypes r ALERT_TYPES = byDevice [r] := by
  funext imei t
  have hmem : t ∈ ALERT_TYPES := by
    cases t <;> simp [ALERT_TYPES]
  unfold ofTypes byDevice
  by_cases himei : imei = r.imei
  · simp [himei, hmem]
  · simp [himei, Ne.symm himei]

theorem alertTypes_nodup : ALERT_TYPES.Nodup := by
  simp [ALERT_TYPES]

variable (g config rules) in
/-- Rounds for some types, without a failure. -/
theorem does_processTypes {w : World Id} {v : Id} (position : ℕ) (r : Reading)
    (hv : vehicleOf w r.imei = some v) {ts : List VehicleAlertType} (hts : ts.Nodup) :
    ∃ w', Session.Does (ts.forM (processType g config rules position v r)) w () w' ∧ Keeps w w' ∧
      Handled g config rules w w' (ofTypes r ts) (ofTypes r ts) := by
  refine Session.Does.forM_prefix (J := fun done w' => Keeps w w' ∧
    Handled g config rules w w' (ofTypes r done) (ofTypes r done)) ts ?_ ⟨.refl w, ?_⟩
  · rintro done t rest rfl u ⟨hkeeps, hhandled⟩
    have hfresh : t ∉ done := by
      have := (List.nodup_middle.mp hts).notMem
      simp only [List.mem_append, not_or] at this
      exact this.1
    obtain ⟨u', hdoes, hkeeps', hhandled'⟩ := does_processType g config rules
      position t r ((hkeeps.vehicleOf _).trans hv)
    refine ⟨u', hdoes, hkeeps.trans hkeeps', ?_⟩
    rw [ofTypes_append hfresh]
    exact hhandled.trans hhandled'
  · have hnil : ofTypes r [] = fun _ _ => [] := by
      funext imei t
      simp [ofTypes]
    rw [hnil]
    exact .refl w

variable (g config rules) in
/-- A reading, without a failure. -/
theorem does_processReading {w : World Id} {ids : JsMap String Id} (item : Reading × ℕ)
    (hids : Resolves [item.1.imei] ids w) :
    ∃ w', Session.Does (processReading g config rules ids item) w () w' ∧ Keeps w w' ∧
      Handled g config rules w w' (byDevice [item.1]) (byDevice [item.1]) := by
  obtain ⟨v, hfound, hrow⟩ := hids _ List.mem_cons_self
  have hv : vehicleOf w item.1.imei = some v := by rw [vehicleOf, hrow, Option.map_some]
  obtain ⟨w', hdoes, hspec⟩ := does_processTypes g config rules
    item.2 item.1 hv alertTypes_nodup
  rw [ofTypes_all] at hspec
  refine ⟨w', ?_, hspec⟩
  rw [processReading, hfound]
  exact hdoes

theorem Keeps.resolves {w w' : World Id} (h : Keeps w w') {imeis : List String}
    {ids : JsMap String Id} (hids : Resolves imeis ids w) : Resolves imeis ids w' := by
  intro imei himei
  rw [h.vehicles]
  exact hids imei himei

variable (g config rules) in
/-- The loop over some readings, without a failure. -/
theorem does_processReadings {w : World Id} {ids : JsMap String Id} (items : List (Reading × ℕ))
    (hids : Resolves (items.map fun i => i.1.imei) ids w) :
    ∃ w', Session.Does (items.forM (processReading g config rules ids)) w () w' ∧ Keeps w w' ∧
      Handled g config rules w w' (byDevice (items.map Prod.fst))
        (byDevice (items.map Prod.fst)) := by
  refine Session.Does.forM_prefix (J := fun done w' => Keeps w w' ∧
    Handled g config rules w w' (byDevice (done.map Prod.fst)) (byDevice (done.map Prod.fst)))
    items ?_ ⟨.refl w, .refl w⟩
  rintro done item rest rfl u ⟨hkeeps, hhandled⟩
  have hitem : Resolves [item.1.imei] ids u := by
    intro imei himei
    rw [List.mem_singleton.mp himei]
    exact hkeeps.resolves hids _ (by simp)
  obtain ⟨u', hdoes, hkeeps', hhandled'⟩ := does_processReading g config rules
    item hitem
  refine ⟨u', hdoes, hkeeps.trans hkeeps', ?_⟩
  rw [List.map_append, byDevice_append]
  exact hhandled.trans hhandled'

/-- What a failure at reading `r` for type `t`, behind the readings `before`, leaves for the other
conditions: they are behind `before` or behind `r`. -/
structure Interrupted (before : List Reading) (r : Reading) (t : VehicleAlertType)
    (fires swallows : Prop) (seen told : String → VehicleAlertType → List Reading) : Prop where
  other : ∀ imei t', ¬ (imei = r.imei ∧ t' = t) → told imei t' = seen imei t' ∧
    (seen imei t' = byDevice before imei t' ∨ seen imei t' = byDevice (before ++ [r]) imei t')
  here : ∃ s s', seen r.imei t = byDevice before r.imei t ++ s ∧
    told r.imei t = byDevice before r.imei t ++ s' ∧ Stopped r fires swallows s s'

/-- The loop over some readings, with a failure. -/
theorem fails_processReadings {w w' : World Id} {ids : JsMap String Id}
    {items : List (Reading × ℕ)} (hids : Resolves (items.map fun i => i.1.imei) ids w)
    {label : Statement} {landed : Bool}
    (h : Session.Fails (items.forM (processReading g config rules ids)) w label landed w') :
    ∃ before r position after t, items = before ++ (r, position) :: after ∧
      label.about = some (position, t) ∧ Keeps w w' ∧
      ∃ fires, fires = (trigger g config rules t).fires
          ((trigger g config rules t).after (edgeState (alertState? w r.imei t))
            (byDevice (before.map Prod.fst) r.imei t)) r ∧
        ∃ seen told, Handled g config rules w w' seen told ∧
          Interrupted (before.map Prod.fst) r t (fires = true)
            (Swallows position t fires label landed) seen told := by
  obtain ⟨before, ⟨r, position⟩, after, u, rfl, hbefore, hfails⟩ := Session.fails_forM h
  have hids' : Resolves (before.map fun i => i.1.imei) ids w := by
    intro imei himei
    refine hids imei ?_
    rw [List.map_append]
    exact List.mem_append_left _ himei
  obtain ⟨u', hdoes, hkeeps, hhandled⟩ := does_processReadings g config rules
    before hids'
  obtain ⟨-, rfl⟩ := hdoes.unique hbefore
  obtain ⟨v, hfound, hrow⟩ := hids r.imei (by simp)
  have hv : vehicleOf u r.imei = some v := by
    rw [hkeeps.vehicleOf, vehicleOf, hrow, Option.map_some]
  rw [processReading, hfound] at hfails
  obtain ⟨ts, t, rest, u', hts, hdone, hround⟩ := Session.fails_forM hfails
  have hnodup : (ts ++ t :: rest).Nodup := hts ▸ alertTypes_nodup
  have hfresh : t ∉ ts := by
    have := (List.nodup_middle.mp hnodup).notMem
    simp only [List.mem_append, not_or] at this
    exact this.1
  obtain ⟨u'', hdoes', hkeeps', hhandled'⟩ := does_processTypes g config rules
    position r hv hnodup.of_append_left
  obtain ⟨-, rfl⟩ := hdoes'.unique hdone
  obtain ⟨habout, hkeeps'', s, s', hhandled'', hstopped⟩ :=
    fails_processType ((hkeeps'.vehicleOf _).trans hv) hround
  have hstate : edgeState (alertState? u' r.imei t) = (trigger g config rules t).after
      (edgeState (alertState? w r.imei t)) (byDevice (before.map Prod.fst) r.imei t) := by
    rw [hhandled'.state, hhandled.state]
    simp [ofTypes, hfresh]
  refine ⟨before, r, position, after, t, rfl, habout, (hkeeps.trans hkeeps').trans hkeeps'', _,
    rfl, _, _, (hhandled.trans hhandled').trans hhandled'', ⟨fun imei t' hne => ?_, s, s', ?_⟩⟩
  · have hs : ∀ rs, only r.imei t rs imei t' = [] := fun rs => if_neg hne
    rw [hs, hs, List.append_nil, byDevice_append]
    refine ⟨rfl, ?_⟩
    unfold ofTypes
    split
    · next hmem =>
      right
      simp [byDevice, hmem.1]
    · exact .inl (List.append_nil _)
  · have hs : ∀ rs, only r.imei t rs r.imei t = rs := fun rs => if_pos ⟨rfl, rfl⟩
    have htypes : ofTypes r ts r.imei t = [] := by simp [ofTypes, hfresh]
    rw [hs, hs, htypes, List.append_nil, ← hstate]
    exact ⟨rfl, rfl, hstopped⟩

end

end BankPlatform.Telemetry
