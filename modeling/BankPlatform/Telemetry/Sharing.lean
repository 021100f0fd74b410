import BankPlatform.Library.Interference
import BankPlatform.Telemetry.Writers

/-!
# Writers among other consumers

The consumers of a process share its vehicle registry, and all processes share the database. While a
writer awaits the answer to a statement, the others go on.

## Main definitions

* `Meanwhile` — what a handler relies on: vehicles and rows are added, none is changed.
* `TableWriter` — what the writers of positions and fuel levels have in common.
* `TableWriter.Acts` — what a call does in one step.

## Main results

* `guards_resolveAll` — the registry resolves vehicles whatever the others do.
* `TableWriter.guards_handler` — a writer stores all rows of its batch in one step, or none.
-/

namespace BankPlatform.Telemetry

open Library

variable {Id : Type}

/-- The vehicle of a device. -/
def TelemetryDb.vehicleOf? (db : TelemetryDb Id) (imei : String) : Option Id :=
  (db.vehicles.find? imei).map Vehicle.id

/-- What the registry relies on: vehicles are added, none is changed, and its cache is its own. -/
structure KeepsVehicles (w w' : World Id) : Prop where
  agrees : RegistryAgrees w → RegistryAgrees w'
  vehicles : ∀ imei v, w.db.vehicles.find? imei = some v → w'.db.vehicles.find? imei = some v

theorem KeepsVehicles.resolves {imeis : List String} {ids : JsMap String Id} {w w' : World Id}
    (h : KeepsVehicles w w') (hw : Resolves imeis ids w) : Resolves imeis ids w' := by
  intro imei himei
  obtain ⟨id, hid, hv⟩ := hw imei himei
  exact ⟨id, hid, h.vehicles _ _ hv⟩

/-- What holds when exactly these IMEIs have been resolved, whatever the others do. -/
structure Resolution (imeis : List String) (ids : JsMap String Id) (w : World Id) : Prop where
  agrees : RegistryAgrees w
  resolves : Resolves imeis ids w
  asked : ∀ e ∈ ids.rows, e.1 ∈ imeis

theorem Resolution.empty {w : World Id} (h : RegistryAgrees w) : Resolution [] Table.empty w :=
  ⟨h, fun _ himei => (List.not_mem_nil himei).elim, fun _ he => (List.not_mem_nil he).elim⟩

/-- One more IMEI is resolved. -/
theorem Resolution.set {imeis : List String} {ids : JsMap String Id} {w w' : World Id}
    (h : Resolution imeis ids w) (hresolves : Resolves imeis ids w') (hagrees : RegistryAgrees w')
    {imei : String} {id : Id} (hv : w'.db.vehicles.find? imei = some ⟨id, imei⟩) :
    Resolution (imeis ++ [imei]) (JsMap.set ids imei id) w' where
  agrees := hagrees
  resolves := hresolves.set hv
  asked e he := by
    rcases JsMap.mem_rows_set.mp he with rfl | ⟨_, he⟩
    · exact List.mem_append_right _ (List.mem_singleton.mpr rfl)
    · exact List.mem_append_left _ (h.asked e he)

section

variable [DecidableEq Id]

/-- What others may do: they register vehicles and store rows, and change none. -/
structure Meanwhile (w w' : World Id) : Prop where
  agrees : RegistryAgrees w → RegistryAgrees w'
  vehicles : ∀ imei v, w.db.vehicles.find? imei = some v → w'.db.vehicles.find? imei = some v
  vehicleLocations : ∀ key r, w.db.vehicleLocations.find? key = some r →
    w'.db.vehicleLocations.find? key = some r
  vehicleFuelReadings : ∀ key r, w.db.vehicleFuelReadings.find? key = some r →
    w'.db.vehicleFuelReadings.find? key = some r

/-- Vehicles may have been registered, and the registry used; the rows are as before. -/
structure Quiet (w w' : World Id) : Prop where
  agrees : RegistryAgrees w → RegistryAgrees w'
  vehicles : ∀ imei v, w.db.vehicles.find? imei = some v → w'.db.vehicles.find? imei = some v
  vehicleLocations : w'.db.vehicleLocations = w.db.vehicleLocations
  vehicleFuelReadings : w'.db.vehicleFuelReadings = w.db.vehicleFuelReadings

theorem Meanwhile.refl (w : World Id) : Meanwhile w w :=
  ⟨id, fun _ _ => id, fun _ _ => id, fun _ _ => id⟩

theorem Meanwhile.trans (w w' w'' : World Id) (h : Meanwhile w w') (h' : Meanwhile w' w'') :
    Meanwhile w w'' where
  agrees := h'.agrees ∘ h.agrees
  vehicles imei v hv := h'.vehicles imei v (h.vehicles imei v hv)
  vehicleLocations key r hr := h'.vehicleLocations key r (h.vehicleLocations key r hr)
  vehicleFuelReadings key r hr := h'.vehicleFuelReadings key r (h.vehicleFuelReadings key r hr)

theorem Meanwhile.keepsVehicles {w w' : World Id} (h : Meanwhile w w') : KeepsVehicles w w' :=
  ⟨h.agrees, h.vehicles⟩

theorem Quiet.meanwhile {w w' : World Id} (h : Quiet w w') : Meanwhile w w' where
  agrees := h.agrees
  vehicles := h.vehicles
  vehicleLocations key r hr := by rwa [h.vehicleLocations]
  vehicleFuelReadings key r hr := by rwa [h.vehicleFuelReadings]

omit [DecidableEq Id] in
theorem Quiet.refl (w : World Id) : Quiet w w := ⟨id, fun _ _ => id, rfl, rfl⟩

omit [DecidableEq Id] in
theorem Registers.quiet {w w' : World Id} (h : Registers w w')
    (hagrees : RegistryAgrees w → RegistryAgrees w') : Quiet w w' :=
  ⟨hagrees, h.vehicles, h.vehicleLocations, h.vehicleFuelReadings⟩

omit [DecidableEq Id] in
/-- The vehicle of a device is cached, possibly again. -/
theorem RegistryAgrees.cache {w : World Id} (h : RegistryAgrees w) {imei : String} {id : Id}
    (hv : w.db.vehicles.find? imei = some ⟨id, imei⟩) :
    RegistryAgrees { w with registry := JsMap.set w.registry imei id } := by
  intro e he
  have hfind := Table.find?_key he
  change (JsMap.set w.registry imei id).find? e.1 = some e at hfind
  rw [JsMap.find?_set] at hfind
  split at hfind
  · next heq =>
    obtain rfl := Option.some.inj hfind
    exact hv
  · exact h e (Table.mem_of_find? hfind)

theorem Meanwhile.vehicleOf? {w w' : World Id} (h : Meanwhile w w') {imei : String} {id : Id}
    (hid : w.db.vehicleOf? imei = some id) : w'.db.vehicleOf? imei = some id := by
  obtain ⟨v, hv, rfl⟩ := Option.map_eq_some_iff.mp hid
  rw [TelemetryDb.vehicleOf?, h.vehicles imei v hv, Option.map_some]

theorem Meanwhile.resolves {imeis : List String} {ids : JsMap String Id} {w w' : World Id}
    (h : Meanwhile w w') (hw : Resolves imeis ids w) : Resolves imeis ids w' :=
  h.keepsVehicles.resolves hw

end

/-! ## The registry -/

section

variable [FreshIds Id] {rely guar : World Id → World Id → Prop}

theorem guards_register (hrely : ∀ w w', rely w w' → KeepsVehicles w w')
    (hregisters : ∀ w w', Registers w w' → (RegistryAgrees w → RegistryAgrees w') → guar w w')
    {imei : String}
    (himei : imeiDigits imei = true) {w : World Id} (h : RegistryAgrees w) :
    Session.Guards rely guar
      (fun id t => RegistryAgrees t ∧ t.db.vehicles.find? imei = some ⟨id, imei⟩)
      (register imei) w := by
  have hinsert : Session.Guards rely guar
      (fun _ t => RegistryAgrees t ∧ ∃ v, t.db.vehicles.find? imei = some v)
      (write (.insertVehicle imei) (insertVehicle imei)) w := by
    refine Session.guards_execute fun t ht => ?_
    obtain ⟨db, v, hdb, hv, hinserted⟩ := insertVehicle_spec himei t
    have hkeeps (hagrees : RegistryAgrees t) : RegistryAgrees { t with db } :=
      hagrees.registers hinserted rfl
    have hagrees := (hrely _ _ ht).agrees h
    exact ⟨{ t with db }, by rw [hdb]; rfl, hregisters _ _ hinserted hkeeps, hkeeps hagrees, v, hv⟩
  refine hinsert.bind fun _ t ⟨hagrees, v, hv⟩ => ?_
  have hquery : Session.Guards rely guar
      (fun row t => RegistryAgrees t ∧ row = some v ∧ t.db.vehicles.find? imei = some v)
      (Session.query (.selectVehicle imei) fun w => w.db.vehicles.find? imei : Handler Id _) t := by
    refine Session.guards_query fun u hu => ?_
    have hvehicle := (hrely _ _ hu).vehicles _ _ hv
    exact ⟨hregisters _ _ (.refl u) id, (hrely _ _ hu).agrees hagrees, hvehicle, hvehicle⟩
  refine hquery.bind fun row u ⟨hagrees', hrow, hv'⟩ => ?_
  subst hrow
  obtain rfl : v.imei = imei := Table.key_of_find? hv'
  have hcache : Session.Guards rely guar
      (fun _ t => RegistryAgrees t ∧ t.db.vehicles.find? v.imei = some ⟨v.id, v.imei⟩)
      (Session.modify fun w => { w with registry := JsMap.set w.registry v.imei v.id } :
        Handler Id Unit) u := by
    refine Session.guards_modify fun t ht => ?_
    have hvehicle := (hrely _ _ ht).vehicles _ _ hv'
    have hcached := ((hrely _ _ ht).agrees hagrees').cache hvehicle
    exact ⟨hregisters _ _ (.cached t _) fun _ => hcached, hcached, hvehicle⟩
  exact hcache.bind fun _ t ht => Session.guards_pure ht

theorem guards_resolve (hrely : ∀ w w', rely w w' → KeepsVehicles w w')
    (hregisters : ∀ w w', Registers w w' → (RegistryAgrees w → RegistryAgrees w') → guar w w')
    {imei : String}
    (himei : imeiDigits imei = true) {w : World Id} (h : RegistryAgrees w) :
    Session.Guards rely guar
      (fun id t => RegistryAgrees t ∧ t.db.vehicles.find? imei = some ⟨id, imei⟩)
      (resolve imei) w := by
  have hget : Session.Guards rely guar (fun a t => RegistryAgrees t ∧ a = t)
      (Session.get : Handler Id (World Id)) w :=
    Session.guards_get fun t ht => ⟨hregisters _ _ (.refl t) id, (hrely _ _ ht).agrees h, rfl⟩
  refine hget.bind fun a t ⟨hagrees, ha⟩ => ?_
  subst ha
  cases hcached : a.registry.find? imei with
  | some e =>
    obtain rfl : e.1 = imei := Table.key_of_find? hcached
    exact Session.guards_pure ⟨hagrees, hagrees e (Table.mem_of_find? hcached)⟩
  | none => exact guards_register hrely hregisters himei hagrees

/-- Every IMEI gets its vehicle, and there are no other entries. -/
theorem guards_resolveAll (hrely : ∀ w w', rely w w' → KeepsVehicles w w')
    (hregisters : ∀ w w', Registers w w' → (RegistryAgrees w → RegistryAgrees w') → guar w w')
    (hguar : ∀ w w', guar w w' → KeepsVehicles w w') {imeis : List String}
    (himeis : ∀ imei ∈ imeis, imeiDigits imei = true) {w : World Id} (h : RegistryAgrees w) :
    Session.Guards rely guar (Resolution imeis) (resolveAll imeis) w := by
  have hloop : Session.Guards rely guar (Resolution imeis.eraseDups) (resolveAll imeis) w := by
    refine Session.Guards.foldlM (J := Resolution) imeis.eraseDups
      (fun done imei himei ids t hdone => ?_) (.empty h)
    have hresolve := (guards_resolve hrely hregisters (himeis imei (List.mem_eraseDups.mp himei))
      hdone.agrees).frame (fun _ _ hids ht => (hrely _ _ ht).resolves hids)
      (fun _ _ hids ht => (hguar _ _ ht).resolves hids) hdone.resolves
    exact hresolve.bind fun id u ⟨⟨hagrees, hv⟩, hids⟩ =>
      Session.guards_pure (hdone.set hids hagrees hv)
  refine hloop.mono fun ids t ⟨hagrees, hids, hasked⟩ => ⟨hagrees, fun imei himei => ?_, ?_⟩
  · exact hids imei (List.mem_eraseDups.mpr himei)
  · exact fun e he => List.mem_eraseDups.mp (hasked e he)

end

/-! ## The writers -/

section

variable [DecidableEq Id]

/-- A writer: the rows of an event once its vehicle is known, and the table they go to. -/
structure TableWriter (Id R : Type) {K : Type} [DecidableEq Id] [Keyed R K] [DecidableEq K] where
  wanted : TelemetryEvent → Bool
  rowsFor : Id → TelemetryEvent → List R
  columns : R → Checks
  vehicleId : R → Id
  label : Statement
  table : TelemetryDb Id → Table R
  put : TelemetryDb Id → Table R → TelemetryDb Id
  wanted_of_mem : ∀ {id event r}, r ∈ rowsFor id event → wanted event = true
  vehicleId_of_mem : ∀ {id event r}, r ∈ rowsFor id event → vehicleId r = id
  table_put : ∀ db t, table (put db t) = t
  vehicles_put : ∀ db t, (put db t).vehicles = db.vehicles
  meanwhile_put : ∀ (w : World Id) t,
    (∀ key r, (table w.db).find? key = some r → t.find? key = some r) →
      Meanwhile w { w with db := put w.db t }
  table_meanwhile : ∀ {w w' : World Id}, Meanwhile w w' →
    ∀ key r, (table w.db).find? key = some r → (table w'.db).find? key = some r
  table_quiet : ∀ {w w' : World Id}, Quiet w w' → table w'.db = table w.db

namespace TableWriter

variable {R K : Type} [Keyed R K] [DecidableEq K] (W : TableWriter Id R)

/-- The rows of an event whose IMEI may have been resolved. -/
def rowsOf (vehicleIds : JsMap String Id) (event : TelemetryEvent) : List R :=
  match vehicleIds.find? event.imei with
  | none => []
  | some e => W.rowsFor e.2 event

def insert (rows : List R) (db : TelemetryDb Id) : Except DbError (TelemetryDb Id) :=
  (insertRows (fun r => W.columns r ++ [vehicleReference db (W.vehicleId r)]) rows
    (W.table db)).map (W.put db)

def handler [FreshIds Id] : List TelemetryEvent → Handler Id Unit :=
  writeRows W.wanted W.rowsOf W.label W.insert

/-- The rows of a batch, for the vehicles that are registered. -/
def rows (events : List TelemetryEvent) (db : TelemetryDb Id) : List R :=
  events.flatMap fun event =>
    match db.vehicleOf? event.imei with
    | none => []
    | some id => W.rowsFor id event

/-- What is demanded of an event: the columns of its rows are in order. -/
def Fits (event : TelemetryEvent) : Prop := ∀ id, ∀ r ∈ W.rowsFor id event, InOrder (W.columns r)

/-- All rows of a batch are there. -/
def Stored (events : List TelemetryEvent) (db : TelemetryDb Id) : Prop :=
  ∀ event ∈ events, W.wanted event = true → ∃ id, db.vehicleOf? event.imei = some id ∧
    ∀ r ∈ W.rowsFor id event, ((W.table db).find? (Keyed.key r)).isSome = true

/-- Every row is one of an event that meets `P`. -/
def Derived (P : TelemetryEvent → Prop) (db : TelemetryDb Id) : Prop :=
  ∀ r ∈ (W.table db).rows, ∃ event, P event ∧ ∃ id, db.vehicleOf? event.imei = some id ∧
    r ∈ W.rowsFor id event

/-- The database with all rows of a batch. -/
def stored (events : List TelemetryEvent) (db : TelemetryDb Id) : TelemetryDb Id :=
  W.put db ((W.rows events db).foldl insertIfFree (W.table db))

/-- From one database to the next the rows of a whole batch are stored. -/
def StoresBatch (events : List TelemetryEvent) (db db' : TelemetryDb Id) : Prop :=
  W.table db' = (W.rows events db).foldl insertIfFree (W.table db) ∧ W.Stored events db'

/-- What a call does in one step: nothing to the rows, or it stores those of its whole batch. -/
def Acts (events : List TelemetryEvent) (w w' : World Id) : Prop :=
  Quiet w w' ∨ w' = { w with db := W.stored events w.db } ∧ W.Stored events w'.db

variable {W} {events : List TelemetryEvent}

theorem mem_rows {db : TelemetryDb Id} {r : R} :
    r ∈ W.rows events db ↔ ∃ event ∈ events, ∃ id, db.vehicleOf? event.imei = some id ∧
      r ∈ W.rowsFor id event := by
  rw [rows, List.mem_flatMap]
  refine exists_congr fun event => and_congr_right fun _ => ?_
  cases db.vehicleOf? event.imei with
  | none => simp
  | some id => simp

/-- The rows that a call derives are those of its whole batch. -/
theorem rows_resolved {ids : JsMap String Id} {w : World Id}
    (h : Resolves ((events.filter W.wanted).map TelemetryEvent.imei) ids w) :
    (events.filter W.wanted).flatMap (W.rowsOf ids) = W.rows events w.db := by
  unfold rows
  induction events with
  | nil => rfl
  | cons event events ih =>
    by_cases hwanted : W.wanted event = true
    · rw [List.filter_cons_of_pos hwanted] at h ⊢
      obtain ⟨id, hid, hvehicle⟩ := h event.imei (by simp)
      have hvehicle' : w.db.vehicleOf? event.imei = some id := by
        rw [TelemetryDb.vehicleOf?, hvehicle, Option.map_some]
      rw [List.flatMap_cons, List.flatMap_cons, hvehicle', rowsOf, hid,
        ih fun imei himei => h imei (by simp at himei ⊢; exact .inr himei)]
    · rw [List.filter_cons_of_neg hwanted] at h ⊢
      rw [List.flatMap_cons, ih h]
      have hnone : ∀ id, W.rowsFor id event = [] := by
        intro id
        refine List.eq_nil_iff_forall_not_mem.mpr fun r hr => hwanted (W.wanted_of_mem hr)
      cases w.db.vehicleOf? event.imei with
      | none => rfl
      | some id =>
        dsimp only
        rw [hnone, List.nil_append]

/-- The rows that are there stay. -/
theorem find?_stored {db : TelemetryDb Id} {key : K} {r : R}
    (h : (W.table db).find? key = some r) :
    (W.table (W.stored events db)).find? key = some r := by
  rw [stored, W.table_put, find?_insertAll, firstWins, h, Option.some_or]

theorem Acts.meanwhile {w w' : World Id} (h : W.Acts events w w') : Meanwhile w w' := by
  rcases h with h | ⟨rfl, _⟩
  · exact h.meanwhile
  · refine W.meanwhile_put w _ fun key r hr => ?_
    have hstored : (W.table (W.stored events w.db)).find? key = some r := find?_stored hr
    rwa [stored, W.table_put] at hstored

theorem Acts.storesBatch {w w' : World Id} (h : W.Acts events w w') :
    W.table w'.db = W.table w.db ∨ W.StoresBatch events w.db w'.db := by
  rcases h with hquiet | ⟨rfl, hstored⟩
  · exact .inl (W.table_quiet hquiet)
  · exact .inr ⟨W.table_put _ _, hstored⟩

theorem vehicleOf?_stored {db : TelemetryDb Id} (imei : String) :
    (W.stored events db).vehicleOf? imei = db.vehicleOf? imei := by
  rw [TelemetryDb.vehicleOf?, stored, W.vehicles_put, TelemetryDb.vehicleOf?]

/-- The rows of a batch are accepted together. -/
theorem insert_rows (hfits : ∀ event ∈ events, W.Fits event) (db : TelemetryDb Id) :
    ∃ db', W.insert (W.rows events db) db = .ok db' := by
  have hreferences : ∀ r ∈ W.rows events db,
      (vehicleReference db (W.vehicleId r)).1 = true := by
    intro r hr
    obtain ⟨event, hevent, id, hid, hmem⟩ := mem_rows.mp hr
    obtain ⟨⟨_, imei⟩, hv, rfl⟩ := Option.map_eq_some_iff.mp hid
    obtain rfl : imei = event.imei := Table.key_of_find? hv
    rw [W.vehicleId_of_mem hmem]
    exact vehicleReference_resolved hv
  refine (insertRows_of_references hreferences).mpr fun r hr => ?_
  obtain ⟨event, hevent, id, _, hmem⟩ := mem_rows.mp hr
  exact hfits event hevent id r hmem

theorem eq_stored_of_insert {db db' : TelemetryDb Id}
    (h : W.insert (W.rows events db) db = .ok db') : db' = W.stored events db := by
  unfold insert at h
  cases hrows : insertRows (fun r => W.columns r ++ [vehicleReference db (W.vehicleId r)])
      (W.rows events db) (W.table db) with
  | ok t =>
    rw [hrows] at h
    cases h
    rw [stored, eq_insertAll_of_insertRows hrows]
  | error err =>
    rw [hrows] at h
    cases h

/-- Once the vehicles are registered, all rows of the batch are there behind the insert. -/
theorem stored_stored {db : TelemetryDb Id}
    (h : ∀ event ∈ events, W.wanted event = true → ∃ id, db.vehicleOf? event.imei = some id) :
    W.Stored events (W.stored events db) := by
  intro event hevent hwanted
  obtain ⟨id, hid⟩ := h event hevent hwanted
  refine ⟨id, by rw [vehicleOf?_stored, hid], fun r hr => ?_⟩
  rw [stored, W.table_put, find?_insertAll, isSome_firstWins]
  exact .inr ⟨r, mem_rows.mpr ⟨event, hevent, id, hid, hr⟩, rfl⟩

theorem Stored.meanwhile {w w' : World Id} (h : W.Stored events w.db) (hw : Meanwhile w w') :
    W.Stored events w'.db := by
  intro event hevent hwanted
  obtain ⟨id, hid, hrows⟩ := h event hevent hwanted
  refine ⟨id, hw.vehicleOf? hid, fun r hr => ?_⟩
  obtain ⟨x, hx⟩ := Option.isSome_iff_exists.mp (hrows r hr)
  exact Option.isSome_of_mem (W.table_meanwhile hw _ x hx)

theorem Derived.of_table {P : TelemetryEvent → Prop} {w w' : World Id} (h : W.Derived P w.db)
    (hw : Meanwhile w w') (htable : W.table w'.db = W.table w.db) : W.Derived P w'.db := by
  intro r hr
  rw [htable] at hr
  obtain ⟨event, hevent, id, hid, hmem⟩ := h r hr
  exact ⟨event, hevent, id, hw.vehicleOf? hid, hmem⟩

/-- What is stored with a batch is derived as well. -/
theorem Derived.insertAll {P : TelemetryEvent → Prop} {w w' : World Id} (h : W.Derived P w.db)
    (hP : ∀ event ∈ events, P event) (hw : Meanwhile w w')
    (htable : W.table w'.db = (W.rows events w.db).foldl insertIfFree (W.table w.db)) :
    W.Derived P w'.db := by
  intro r hr
  rw [htable] at hr
  rcases mem_insertAll hr with hold | hnew
  · obtain ⟨event, hevent, id, hid, hmem⟩ := h r hold
    exact ⟨event, hevent, id, hw.vehicleOf? hid, hmem⟩
  · obtain ⟨event, hevent, id, hid, hmem⟩ := mem_rows.mp hnew
    exact ⟨event, hP event hevent, id, hw.vehicleOf? hid, hmem⟩

/-- Where every event is in some batch that is stored, the keys are those of the events. -/
theorem Derived.keys {P : TelemetryEvent → Prop} {db : TelemetryDb Id} (h : W.Derived P db)
    (hstored : ∀ event, P event → ∃ batch, event ∈ batch ∧ W.Stored batch db) (key : K) :
    (∃ r ∈ (W.table db).rows, Keyed.key r = key) ↔ ∃ event, P event ∧
      ∃ id, db.vehicleOf? event.imei = some id ∧ ∃ r ∈ W.rowsFor id event, Keyed.key r = key := by
  constructor
  · rintro ⟨r, hr, hkey⟩
    obtain ⟨event, hevent, id, hid, hmem⟩ := h r hr
    exact ⟨event, hevent, id, hid, r, hmem, hkey⟩
  · rintro ⟨event, hevent, id, hid, r, hr, hkey⟩
    obtain ⟨batch, hbatch, hrows⟩ := hstored event hevent
    obtain ⟨id', hid', hkeys⟩ := hrows event hbatch (W.wanted_of_mem hr)
    obtain rfl : id' = id := Option.some.inj (hid'.symm.trans hid)
    obtain ⟨x, hx⟩ := Option.isSome_iff_exists.mp (hkeys r hr)
    exact ⟨x, Table.mem_of_find? hx, (Table.key_of_find? hx).trans hkey⟩

/-- A call stores all rows of its batch before it returns, whatever the others do meanwhile, and
does so in one step. It throws only where the database may refuse a row. -/
theorem guards_handler [FreshIds Id] (himeis : ∀ event ∈ events, imeiDigits event.imei = true)
    {refusable : Prop} (hfits : refusable ∨ ∀ event ∈ events, W.Fits event) {w : World Id}
    (hw : RegistryAgrees w) :
    Session.Guards Meanwhile (W.Acts events)
      (Session.Ends (fun _ t => W.Stored events t.db) fun _ _ => refusable)
      (W.handler events).attempt w := by
  unfold handler writeRows
  dsimp only
  by_cases hnone : (events.filter W.wanted).isEmpty
  · rw [if_pos hnone]
    refine Session.guards_pure fun event hevent hwanted => ?_
    have hmem : event ∈ events.filter W.wanted := List.mem_filter.mpr ⟨hevent, hwanted⟩
    rw [List.isEmpty_iff.mp hnone] at hmem
    cases hmem
  · rw [if_neg hnone]
    have hresolves := guards_resolveAll (fun _ _ => Meanwhile.keepsVehicles)
      (fun _ _ h hagrees => .inl (h.quiet hagrees))
      (fun w w' (h : W.Acts events w w') => h.meanwhile.keepsVehicles)
      (imeiDigits_wanted himeis W.wanted) hw
    refine hresolves.attempt.attempt_bind (fun ids t hresolution => ?_)
      fun _ _ (h : False) => h.elim
    obtain ⟨hagrees, hids, _⟩ := hresolution
    have hregistered : ∀ u, Meanwhile t u → ∀ event ∈ events, W.wanted event = true →
        ∃ id, u.db.vehicleOf? event.imei = some id := by
      intro u hu event hevent hwanted
      obtain ⟨id, _, hid⟩ := hu.resolves hids event.imei
        (List.mem_map_of_mem (List.mem_filter.mpr ⟨hevent, hwanted⟩))
      exact ⟨id, by rw [TelemetryDb.vehicleOf?, hid, Option.map_some]⟩
    rw [rows_resolved hids]
    by_cases hempty : (W.rows events t.db).isEmpty
    · rw [if_pos hempty]
      refine Session.guards_pure fun event hevent hwanted => ?_
      obtain ⟨id, hid⟩ := hregistered t (.refl t) event hevent hwanted
      refine ⟨id, hid, fun r hr => ?_⟩
      have hmem := mem_rows.mpr ⟨event, hevent, id, hid, hr⟩
      rw [List.isEmpty_iff.mp hempty] at hmem
      cases hmem
    · rw [if_neg hempty]
      -- The rows were derived before the others went on, and are still those of the batch.
      have hsame (u : World Id) (hu : Meanwhile t u) : W.rows events t.db = W.rows events u.db :=
        (rows_resolved hids).symm.trans (rows_resolved (hu.resolves hids))
      refine Session.guards_attempt_execute (fun u hu u' hu' => ?_) fun u hu err herr => ?_
      · rw [hsame u hu] at hu'
        cases hdb : W.insert (W.rows events u.db) u.db with
        | error err =>
          rw [hdb] at hu'
          cases hu'
        | ok db =>
          rw [hdb] at hu'
          cases hu'
          obtain rfl := eq_stored_of_insert hdb
          have hstored := stored_stored (hregistered u hu)
          exact ⟨.inr ⟨rfl, hstored⟩, hstored⟩
      · refine ⟨.inl (.refl u), hfits.resolve_right fun hfits => ?_⟩
        obtain ⟨db, hdb⟩ := insert_rows hfits u.db
        rw [hsame u hu, hdb] at herr
        cases herr

end TableWriter

/-- `locations.ts`. -/
def locationsWriter : TableWriter Id (VehicleLocation Id) where
  wanted event := event.gps.isSome
  rowsFor id event := (event.gps.map (locationRow id event)).toList
  columns := VehicleLocation.columns
  vehicleId := VehicleLocation.vehicleId
  label := .insertLocations
  table := TelemetryDb.vehicleLocations
  put db vehicleLocations := { db with vehicleLocations }
  wanted_of_mem {_ event _} h := by
    rw [Option.mem_toList, Option.map_eq_some_iff] at h
    obtain ⟨gps, hgps, _⟩ := h
    exact Option.isSome_of_mem hgps
  vehicleId_of_mem h := by
    rw [Option.mem_toList, Option.map_eq_some_iff] at h
    obtain ⟨gps, _, rfl⟩ := h
    rfl
  table_put _ _ := rfl
  vehicles_put _ _ := rfl
  meanwhile_put _ _ h := ⟨id, fun _ _ => id, h, fun _ _ => id⟩
  table_meanwhile h := h.vehicleLocations
  table_quiet h := h.vehicleLocations

/-- `fuel.ts`. -/
def fuelWriter : TableWriter Id (VehicleFuelReading Id) where
  wanted event := 0 < event.fuel.length
  rowsFor id event := event.fuel.map (fuelRow id event)
  columns := VehicleFuelReading.columns
  vehicleId := VehicleFuelReading.vehicleId
  label := .insertFuelReadings
  table := TelemetryDb.vehicleFuelReadings
  put db vehicleFuelReadings := { db with vehicleFuelReadings }
  wanted_of_mem {_ event _} h := by
    obtain ⟨reading, hreading, _⟩ := List.mem_map.mp h
    exact decide_eq_true (List.length_pos_of_mem hreading)
  vehicleId_of_mem h := by
    obtain ⟨reading, _, rfl⟩ := List.mem_map.mp h
    rfl
  table_put _ _ := rfl
  vehicles_put _ _ := rfl
  meanwhile_put _ _ h := ⟨id, fun _ _ => id, fun _ _ => id, h⟩
  table_meanwhile h := h.vehicleFuelReadings
  table_quiet h := h.vehicleFuelReadings

theorem locationsHandler_eq [FreshIds Id] :
    (locationsHandler : List TelemetryEvent → Handler Id Unit) = locationsWriter.handler := rfl

theorem fuelHandler_eq [FreshIds Id] :
    (fuelHandler : List TelemetryEvent → Handler Id Unit) = fuelWriter.handler := rfl

end

end BankPlatform.Telemetry
