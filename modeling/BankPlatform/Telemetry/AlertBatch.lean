import BankPlatform.Telemetry.EdgeTriggered

/-!
# A batch of the alerting handler

Around its loop the handler loads the zones and registers vehicles; neither changes what the tables
say about the alerts of a device. Worlds between batches are `Ready`: the caches agree with the
tables.

## Main results

* `does_alertingHandler` — a batch without a failure.
* `fails_alertingHandler` — a batch in which a statement fails.
-/

namespace BankPlatform.Telemetry

open Library

variable {Id : Type}

/-! ## Between batches -/

/-- The cache holds the active zones. -/
def GeofencesAgree (w : World Id) : Prop :=
  ∀ cache ∈ w.geofenceCache, cache.1 = selectActive w.db

/-- Vehicles were registered at most, and the zones are what they were. -/
structure Moves (w w' : World Id) : Prop where
  vehicles : ∀ imei v, w.db.vehicles.find? imei = some v → w'.db.vehicles.find? imei = some v
  geofences : w'.db.geofences = w.db.geofences

theorem Moves.refl (w : World Id) : Moves w w := ⟨fun _ _ h => h, rfl⟩

theorem Moves.trans {w w' w'' : World Id} (h : Moves w w') (h' : Moves w' w'') : Moves w w'' :=
  ⟨fun imei v hv => h'.vehicles imei v (h.vehicles imei v hv), h'.geofences.trans h.geofences⟩

theorem Moves.vehicleOf {w w' : World Id} (h : Moves w w') {imei : String} {v : Id}
    (hv : vehicleOf w imei = some v) : Telemetry.vehicleOf w' imei = some v := by
  obtain ⟨row, hrow, rfl⟩ := Option.map_eq_some_iff.mp hv
  rw [Telemetry.vehicleOf, h.vehicles _ _ hrow, Option.map_some]

theorem resolves_zipIdx {w : World Id} {ids : JsMap String Id} {fresh : List Reading}
    (h : Resolves (fresh.map Reading.imei) ids w) {items : List (Reading × ℕ)}
    (hitems : ∀ i ∈ items, i ∈ fresh.zipIdx) : Resolves (items.map fun i => i.1.imei) ids w := by
  intro imei himei
  obtain ⟨item, hitem, rfl⟩ := List.mem_map.mp himei
  exact h _ (List.mem_map_of_mem (List.fst_mem_of_mem_zipIdx (hitems item hitem)))

section

variable [DecidableEq Id]

/-- Between batches: the caches agree with the tables, and the alert tables are about vehicles. -/
structure Ready (w : World Id) : Prop where
  registry : RegistryAgrees w
  geofences : GeofencesAgree w
  references : AlertReferences w.db

theorem Ready.start {db : TelemetryDb Id} (h : AlertReferences db) : Ready (World.start db) := by
  refine ⟨.start db, fun cache hcache => ?_, h⟩
  cases hcache

theorem Keeps.moves {w w' : World Id} (h : Keeps w w') : Moves w w' :=
  ⟨fun _ _ hv => by rwa [h.vehicles], h.geofences⟩

theorem Keeps.ready {w w' : World Id} (h : Keeps w w') (hw : Ready w) : Ready w' where
  registry e he := by
    rw [h.vehicles]
    exact hw.registry e (h.registry ▸ he)
  geofences cache hcache := by
    rw [selectActive, h.geofences]
    exact hw.geofences cache (h.geofenceCache ▸ hcache)
  references := h.references hw.references

theorem Moves.reference {w w' : World Id} (h : Moves w w') {v : Id}
    (hv : (vehicleReference w.db v).1 = true) : (vehicleReference w'.db v).1 = true := by
  obtain ⟨row, hrow, hid⟩ := List.any_eq_true.mp hv
  exact List.any_eq_true.mpr
    ⟨row, Table.mem_of_find? (h.vehicles _ _ (Table.find?_key hrow)), hid⟩

/-- A vehicle that is new has nothing in the alert tables. -/
theorem Moves.vehicleOf_of_reference {w w' : World Id} (h : Moves w w') {imei : String} {v : Id}
    (hv : (vehicleReference w.db v).1 = true) (hv' : Telemetry.vehicleOf w' imei = some v) :
    Telemetry.vehicleOf w imei = some v := by
  obtain ⟨row, hrow, hid⟩ := List.any_eq_true.mp hv
  obtain rfl : row.id = v := of_decide_eq_true hid
  have hold : Telemetry.vehicleOf w row.imei = some row.id := by
    rw [Telemetry.vehicleOf, show w.db.vehicles.find? row.imei = some row from Table.find?_key hrow]
    rfl
  rw [vehicleOf_inj hv' (h.vehicleOf hold), hold]

theorem Moves.alertState? {w w' : World Id} (h : Moves w w') (href : AlertReferences w.db)
    (hstates : w'.db.vehicleAlertStates = w.db.vehicleAlertStates) (imei : String)
    (t : VehicleAlertType) : alertState? w' imei t = Telemetry.alertState? w imei t := by
  cases hv : Telemetry.vehicleOf w imei with
  | some v => rw [alertState?_eq hv, alertState?_eq (h.vehicleOf hv), hstates]
  | none =>
    have hnone : Telemetry.alertState? w imei t = none := by
      rw [Telemetry.alertState?, hv, Option.bind_none]
    rw [hnone]
    by_contra hsome
    obtain ⟨s, hs⟩ := Option.ne_none_iff_exists'.mp hsome
    obtain ⟨v, hv', hfound⟩ := Option.bind_eq_some_iff.mp hs
    rw [selectAlertState, hstates] at hfound
    have hkey : s.vehicleId = v := congrArg Prod.fst (Table.key_of_find? hfound)
    have hknown := h.vehicleOf_of_reference (href.states s (Table.mem_of_find? hfound)) (hkey ▸ hv')
    rw [hv] at hknown
    cases hknown

/-- The alerts that were there are about the devices that they were about. -/
theorem Moves.filter_alerts {w w' : World Id} (h : Moves w w') (href : AlertReferences w.db)
    (imei : String) (t : VehicleAlertType) :
    (w.db.vehicleAlerts.filter fun a =>
        Telemetry.vehicleOf w' imei = some a.vehicleId && a.alertType = t) =
      w.db.vehicleAlerts.filter fun a =>
        Telemetry.vehicleOf w imei = some a.vehicleId && a.alertType = t := by
  refine List.filter_congr fun a ha => ?_
  congr 1
  refine decide_eq_decide.mpr ⟨fun hv => ?_, h.vehicleOf⟩
  exact h.vehicleOf_of_reference (href.alerts a ha) hv

theorem Moves.alertsOf {w w' : World Id} (h : Moves w w') (href : AlertReferences w.db)
    (halerts : w'.db.vehicleAlerts = w.db.vehicleAlerts) (imei : String) (t : VehicleAlertType) :
    alertsOf w' imei t = Telemetry.alertsOf w imei t := by
  rw [Telemetry.alertsOf, Telemetry.alertsOf, halerts, h.filter_alerts href]

/-- No alert was written exactly if none was written about any device. -/
theorem Moves.alerts_eq_iff {w w' : World Id} (h : Moves w w') (href : AlertReferences w.db)
    (href' : AlertReferences w'.db) (hgrows : w.db.vehicleAlerts <+: w'.db.vehicleAlerts) :
    w'.db.vehicleAlerts = w.db.vehicleAlerts ↔
      ∀ imei t, Telemetry.alertsOf w' imei t = Telemetry.alertsOf w imei t := by
  refine ⟨fun halerts => h.alertsOf href halerts, fun hsame => ?_⟩
  obtain ⟨more, hmore⟩ := hgrows
  have hnone : ∀ imei t, (more.filter fun a =>
      Telemetry.vehicleOf w' imei = some a.vehicleId && a.alertType = t) = [] := by
    intro imei t
    have hboth := hsame imei t
    rw [Telemetry.alertsOf, Telemetry.alertsOf, ← hmore, List.filter_append,
      h.filter_alerts href, List.map_append, List.append_right_eq_self, List.map_eq_nil_iff] at hboth
    exact hboth
  have hempty : more = [] := by
    rw [List.eq_nil_iff_forall_not_mem]
    intro a ha
    have hrow := href'.alerts a (hmore ▸ List.mem_append_right _ ha)
    obtain ⟨row, hrow, hid⟩ := List.any_eq_true.mp hrow
    have hv : Telemetry.vehicleOf w' row.imei = some a.vehicleId := by
      rw [Telemetry.vehicleOf,
        show w'.db.vehicles.find? row.imei = some row from Table.find?_key hrow, Option.map_some,
        of_decide_eq_true hid]
    have hfilter := List.filter_eq_nil_iff.mp (hnone row.imei a.alertType) a ha
    simp [hv] at hfilter
  rw [← hmore, hempty, List.append_nil]

variable {D : Type} [LT D] [DecidableLT D] [LE D] [DecidableLE D] {g : Geodesy D}
  {config : AlertingConfig} {rules : AlertRuleConfig}

variable (g config rules) in
/-- Registering vehicles changes nothing about the alerts of any device. -/
theorem handled_of_moves {w w' : World Id} (h : Moves w w') (href : AlertReferences w.db)
    (halerts : w'.db.vehicleAlerts = w.db.vehicleAlerts)
    (hstates : w'.db.vehicleAlertStates = w.db.vehicleAlertStates) :
    AlertReferences w'.db ∧
      Handled g config rules w w' (fun _ _ => []) (fun _ _ => []) := by
  refine ⟨⟨fun a ha => ?_, fun s hs => ?_⟩, fun imei t => ?_, fun imei t => ?_, fun imei t => ?_, ?_⟩
  · exact h.reference (href.alerts a (halerts ▸ ha))
  · exact h.reference (href.states s (hstates ▸ hs))
  · rw [h.alertState? href hstates, EdgeTrigger.after_nil]
  · rw [h.alertState? href hstates]
    simp
  · rw [h.alertsOf href halerts]
    simp [EdgeTrigger.fired]
  · rw [halerts]

/-! ## The zones -/

def rulesOf (config : AlertingConfig) (db : TelemetryDb Id) : AlertRuleConfig :=
  ⟨config.lowFuelPct, config.speedLimitKph, selectActive db⟩

variable (config) in
omit [DecidableEq Id] in
/-- The zones are the active ones, and at most the cache changes. -/
theorem does_activeGeofences {w : World Id} (h : GeofencesAgree w) (clock : Clock) :
    ∃ geofenceCache, Session.Does (activeGeofences config clock) w (selectActive w.db)
        { w with geofenceCache } ∧ ∀ cache ∈ geofenceCache, cache.1 = selectActive w.db := by
  have hload : Session.Does (loadGeofences clock) w (selectActive w.db)
      { w with geofenceCache := some (selectActive w.db, clock.loadedCache) } :=
    (Session.does_query _ _ _).bind ((Session.does_modify _ _).bind (Session.does_pure.mpr ⟨rfl, rfl⟩))
  have hloaded : ∀ cache ∈ some (selectActive w.db, clock.loadedCache),
      cache.1 = selectActive w.db := by
    intro cache hcache
    rw [← Option.some.inj hcache]
  cases hcache : w.geofenceCache with
  | none =>
    refine ⟨_, (Session.does_get w).bind ?_, hloaded⟩
    rw [hcache]
    exact hload
  | some cache =>
    have hactive : cache.1 = selectActive w.db := h cache hcache
    by_cases hage : clock.checkedCache - cache.2 < config.geofenceRefreshMs
    · have hreturn : Session.Does (activeGeofences config clock) w (selectActive w.db) w := by
        refine (Session.does_get w).bind ?_
        rw [hcache]
        dsimp only
        rw [if_pos hage]
        exact Session.does_pure.mpr ⟨hactive.symm, rfl⟩
      exact ⟨w.geofenceCache, hreturn, h⟩
    · refine ⟨_, (Session.does_get w).bind ?_, hloaded⟩
      rw [hcache]
      dsimp only
      rw [if_neg hage]
      exact hload

omit [DecidableEq Id] in
/-- Nothing is changed by the statement that may fail. -/
theorem fails_activeGeofences {w w' : World Id} {clock : Clock} {label : Statement} {landed : Bool}
    (h : Session.Fails (activeGeofences config clock) w label landed w') :
    w' = w ∧ label = .selectGeofences := by
  have hload : Session.Fails (loadGeofences clock) w label landed w' →
      w' = w ∧ label = .selectGeofences := by
    intro h
    rcases Session.fails_bind.mp h with h | ⟨_, _, _, h⟩
    · obtain ⟨rfl, rfl⟩ := Session.fails_query.mp h
      exact ⟨rfl, rfl⟩
    · rcases Session.fails_bind.mp h with h | ⟨_, _, _, h⟩
      · exact (Session.not_fails_modify h).elim
      · exact (Session.not_fails_pure h).elim
  rcases Session.fails_bind.mp h with hget | ⟨_, _, hget, hrest⟩
  · exact (Session.not_fails_get hget).elim
  · obtain ⟨rfl, rfl⟩ := Session.Does.unique (Session.does_get w) hget
    split at hrest
    · exact hload hrest
    · split at hrest
      · exact (Session.not_fails_pure hrest).elim
      · exact hload hrest

/-- What the loop starts from. -/
structure Prepared (g : Geodesy D) (config : AlertingConfig) (rules : AlertRuleConfig)
    (w w' : World Id) : Prop where
  ready : Ready w'
  moves : Moves w w'
  handled : Handled g config rules w w' (fun _ _ => []) (fun _ _ => [])

theorem Prepared.refl {w : World Id} (hw : Ready w) : Prepared g config rules w w :=
  ⟨hw, .refl w, .refl w⟩

/-- The zones are known and vehicles were registered. -/
theorem prepared_of_registers {w w' : World Id} {geofenceCache : Option (List Geofence × ℤ)}
    (hw : Ready w) (hcache : ∀ cache ∈ geofenceCache, cache.1 = selectActive w.db)
    (hagrees : RegistryAgrees w') (h : Registers { w with geofenceCache } w') :
    Prepared g config rules w w' := by
  have hmoves : Moves w w' := ⟨h.vehicles, h.geofences⟩
  obtain ⟨href, hhandled⟩ := handled_of_moves g config rules hmoves
    hw.references h.vehicleAlerts h.vehicleAlertStates
  refine ⟨⟨hagrees, fun cache hmem => ?_, href⟩, hmoves, hhandled⟩
  rw [h.geofenceCache] at hmem
  rw [selectActive, h.geofences]
  exact hcache cache hmem

variable [FreshIds Id]

variable (g config rules) in
theorem does_prepare {w : World Id} (hw : Ready w) {fresh : List Reading}
    (himeis : ∀ r ∈ fresh, imeiDigits r.imei = true) (clock : Clock) :
    ∃ ids w', Session.Does (prepare config clock fresh) w (rulesOf config w.db, ids) w' ∧
      Resolves (fresh.map Reading.imei) ids w' ∧ Prepared g config rules w w' := by
  obtain ⟨geofenceCache, hzones, hcache⟩ := does_activeGeofences config hw.geofences clock
  have hagrees : RegistryAgrees { w with geofenceCache } := hw.registry
  have himeis' : ∀ imei ∈ fresh.map Reading.imei, imeiDigits imei = true := by
    simpa using himeis
  obtain ⟨ids, w', hresolve, hresolved⟩ := does_resolveAll himeis' hagrees
  refine ⟨ids, w', hzones.bind (hresolve.bind (Session.does_pure.mpr ⟨rfl, rfl⟩)),
    hresolved.resolves, prepared_of_registers hw hcache hresolved.agrees hresolved.registers⟩

variable (g rules) in
theorem fails_prepare {w w' : World Id} (hw : Ready w) {fresh : List Reading}
    (himeis : ∀ r ∈ fresh, imeiDigits r.imei = true) {clock : Clock} {label : Statement}
    {landed : Bool} (h : Session.Fails (prepare config clock fresh) w label landed w') :
    label.about = none ∧ Prepared g config rules w w' := by
  rcases Session.fails_bind.mp h with h | ⟨zones, u, hzones, h⟩
  · obtain ⟨rfl, rfl⟩ := fails_activeGeofences h
    exact ⟨rfl, .refl hw⟩
  obtain ⟨geofenceCache, hzones', hcache⟩ := does_activeGeofences config hw.geofences clock
  obtain ⟨rfl, rfl⟩ := hzones'.unique hzones
  rcases Session.fails_bind.mp h with h | ⟨_, _, _, h⟩
  · have hagrees : RegistryAgrees { w with geofenceCache } := hw.registry
    obtain ⟨hagrees', hregisters, hlabel⟩ := fails_resolveAll (by simpa using himeis) hagrees h
    refine ⟨?_, prepared_of_registers hw hcache hagrees' hregisters⟩
    cases label <;> simp_all [Statement.ofRegistry, Statement.about]
  · exact (Session.not_fails_pure h).elim

/-! ## The handler -/

theorem event_of_mem_fresh {clock : Clock} {events : List TelemetryEvent} {r : Reading}
    (hr : r ∈ freshReadings config clock events) : r.event ∈ events := by
  obtain ⟨event, hevent, hfresh⟩ := List.mem_filterMap.mp hr
  unfold freshReading? at hfresh
  split at hfresh
  · cases hfresh
  · split at hfresh
    · obtain rfl := Option.some.inj hfresh
      exact hevent
    · cases hfresh

variable (config) in
theorem imei_of_mem_fresh {clock : Clock} {events : List TelemetryEvent}
    (hevents : ∀ event ∈ events, imeiDigits event.imei = true) :
    ∀ r ∈ freshReadings config clock events, imeiDigits r.imei = true :=
  fun _ hr => hevents _ (event_of_mem_fresh hr)

variable (g config) in
/-- A batch as far as behind some reading, without a failure. -/
theorem does_alertingUpTo {w : World Id} (hw : Ready w) (n : ℕ) (clock : Clock)
    {events : List TelemetryEvent} (hevents : ∀ event ∈ events, imeiDigits event.imei = true) :
    ∃ w', Session.Does (alertingUpTo g config n clock events) w () w' ∧ Ready w' ∧ Moves w w' ∧
      Handled g config (rulesOf config w.db) w w'
        (byDevice ((freshReadings config clock events).take n))
        (byDevice ((freshReadings config clock events).take n)) := by
  cases hempty : (freshReadings config clock events).isEmpty with
  | true =>
    refine ⟨w, ?_, hw, .refl w, ?_⟩
    · rw [alertingUpTo, if_pos hempty]
      exact Session.does_pure.mpr ⟨rfl, rfl⟩
    · rw [List.isEmpty_iff.mp hempty, List.take_nil]
      exact .refl w
  | false =>
    obtain ⟨ids, u, hprepare, hids, hprepared⟩ := does_prepare g config
      (rulesOf config w.db) hw (imei_of_mem_fresh config hevents) clock
    have hitems := resolves_zipIdx hids fun i hi => List.mem_of_mem_take (i := n) hi
    obtain ⟨w', hloop, hkeeps, hhandled⟩ := does_processReadings g config
      (rulesOf config w.db) _ hitems
    refine ⟨w', ?_, hkeeps.ready hprepared.ready, hprepared.moves.trans hkeeps.moves, ?_⟩
    · rw [alertingUpTo, if_neg (by simp [hempty])]
      exact hprepare.bind hloop
    · rw [List.map_take, List.zipIdx_map_fst] at hhandled
      exact hprepared.handled.trans hhandled

theorem alertingHandler_eq_upTo (clock : Clock) (events : List TelemetryEvent) :
    (alertingHandler g config clock events : Handler Id Unit) =
      alertingUpTo g config (freshReadings config clock events).length clock events := by
  unfold alertingHandler alertingUpTo
  simp only [List.take_of_length_le (Nat.le_of_eq List.length_zipIdx)]

variable (g config) in
/-- A batch without a failure. -/
theorem does_alertingHandler {w : World Id} (hw : Ready w) (clock : Clock)
    {events : List TelemetryEvent} (hevents : ∀ event ∈ events, imeiDigits event.imei = true) :
    ∃ w', Session.Does (alertingHandler g config clock events) w () w' ∧ Ready w' ∧ Moves w w' ∧
      Handled g config (rulesOf config w.db) w w'
        (byDevice (freshReadings config clock events))
        (byDevice (freshReadings config clock events)) := by
  have h := does_alertingUpTo g config hw (freshReadings config clock events).length clock hevents
  rwa [← alertingHandler_eq_upTo, List.take_length] at h

/-- A batch in which a statement fails: before the loop, or at a reading of the batch. -/
theorem fails_alertingHandler {w w' : World Id} (hw : Ready w) {clock : Clock}
    {events : List TelemetryEvent} (hevents : ∀ event ∈ events, imeiDigits event.imei = true)
    {label : Statement} {landed : Bool}
    (h : Session.Fails (alertingHandler g config clock events) w label landed w') :
    Ready w' ∧ Moves w w' ∧
      (label.about = none ∧
          Handled g config (rulesOf config w.db) w w' (fun _ _ => []) (fun _ _ => []) ∨
        ∃ before r after t, freshReadings config clock events = before ++ r :: after ∧
          label.about = some (before.length, t) ∧
          ∃ fires, fires = (trigger g config (rulesOf config w.db) t).fires
              ((trigger g config (rulesOf config w.db) t).after (edgeState (alertState? w r.imei t))
                (byDevice before r.imei t)) r ∧
            ∃ seen told, Handled g config (rulesOf config w.db) w w' seen told ∧
              Interrupted before r t (fires = true)
                (Swallows before.length t fires label landed) seen told) := by
  unfold alertingHandler at h
  dsimp only at h
  split at h
  · exact (Session.not_fails_pure h).elim
  obtain ⟨ids, u, hprepare, hids, hprepared⟩ := does_prepare g config
    (rulesOf config w.db) hw (imei_of_mem_fresh config hevents) clock
  rcases Session.fails_bind.mp h with h | ⟨_, _, hdone, h⟩
  · obtain ⟨hlabel, hprepared⟩ := fails_prepare g (rulesOf config w.db) hw
      (imei_of_mem_fresh config hevents) h
    exact ⟨hprepared.ready, hprepared.moves, .inl ⟨hlabel, hprepared.handled⟩⟩
  · obtain ⟨rfl, rfl⟩ := hprepare.unique hdone
    have hitems := resolves_zipIdx hids fun i hi => hi
    obtain ⟨before, r, position, after, t, hsplit, habout, hkeeps, fires, hfires, seen, told,
      hhandled, hinterrupted⟩ := fails_processReadings hitems h
    have hfresh : freshReadings config clock events =
        before.map Prod.fst ++ r :: after.map Prod.fst := by
      rw [← List.zipIdx_map_fst 0 (freshReadings config clock events), hsplit]
      simp
    have hposition : position = (before.map Prod.fst).length := by
      have hget : (freshReadings config clock events).zipIdx[before.length]? = some (r, position) := by
        rw [hsplit]
        simp
      rw [List.getElem?_zipIdx] at hget
      obtain ⟨_, _, hpair⟩ := Option.map_eq_some_iff.mp hget
      have hindex := congrArg Prod.snd hpair
      simp at hindex
      rw [List.length_map]
      omega
    rw [hprepared.handled.state] at hfires
    subst hposition
    exact ⟨hkeeps.ready hprepared.ready, hprepared.moves.trans hkeeps.moves, .inr
      ⟨_, r, _, t, hfresh, habout, fires, hfires, seen, told, hprepared.handled.trans hhandled,
        hinterrupted⟩⟩

end

end BankPlatform.Telemetry
