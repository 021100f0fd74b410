import BankPlatform.Telemetry.EngineRuns

/-!
# One row for each change

A device reports each change of an input, and its records come on two topics: the recent ones on the
live topic, the others on the backfill topic. The engine writer notices changes on the live topic by
itself as well.

## Main definitions

* `deliver` — the calls of the handler for batches of both topics.
* `SplitHistory` — the records of a device about an input, each on one of the topics.
* `OneRowPerChange` — the stored transitions alternate and are true.

## Main results

* `BothRead.stored_iff` — what is stored behind the calls.
* `one_row_per_change_iff` — when each change has one row.
-/

namespace BankPlatform.Telemetry

open Library Teltonika

/-! ## Histories -/

/-- The events of the batches of one topic. -/
def eventsOf (freshness : Freshness) (calls : List (List TelemetryEvent × Freshness)) :
    List TelemetryEvent := ((calls.filter (·.2 = freshness)).map Prod.fst).flatten

theorem eventsOf_append (freshness : Freshness)
    (calls calls' : List (List TelemetryEvent × Freshness)) :
    eventsOf freshness (calls ++ calls') =
      eventsOf freshness calls ++ eventsOf freshness calls' := by
  simp [eventsOf]

theorem eventsOf_singleton (freshness : Freshness) (call : List TelemetryEvent × Freshness) :
    eventsOf freshness [call] = if call.2 = freshness then call.1 else [] := by
  by_cases h : call.2 = freshness <;> simp [eventsOf, h]

/-- One date is before another one; an invalid date is not comparable. -/
def before : JsDate → JsDate → Prop
  | some s, some t => s < t
  | _, _ => False

theorem not_before_self (t : JsDate) : ¬ before t t := by
  cases t with
  | none => exact not_false
  | some t => exact lt_irrefl t

theorem before_asymm {s t : JsDate} (h : before s t) : ¬ before t s := by
  cases s with
  | none => exact h.elim
  | some s =>
    cases t with
    | none => exact h.elim
    | some t => exact lt_asymm h

/-- The history of an input of a device, each record on one of the topics: the time stamps increase,
a record has the id of the input exactly when its value differs from the record before, and each
topic brings its records in this order. -/
structure SplitHistory (i : EngineInput) (imei : String)
    (calls : List (List TelemetryEvent × Freshness)) (history : List (InputReading × Freshness)) :
    Prop where
  increasing : history.Pairwise fun r r' => before r.1.recordedAt r'.1.recordedAt
  reports : engineDetector.Reports none (history.map Prod.fst)
  delivered : ∀ freshness, i.readings imei (eventsOf freshness calls) =
    (history.filter (·.2 = freshness)).map Prod.fst

variable {Id : Type} [DecidableEq Id]

/-- The stored transitions of an input, ordered by their time: no two neighbours are of one type, and
each shows what the input was then. -/
def OneRowPerChange (w : World Id) (imei : String) (i : EngineInput) (history : List InputReading) :
    Prop :=
  ∃ rows : List (JsDate × Bool), rows.Pairwise (fun x y => before x.1 y.1) ∧
    (∀ x, x ∈ rows ↔ (stored w imei i x).isSome = true) ∧
    rows.IsChain (fun x y => x.2 ≠ y.2) ∧ ∀ x ∈ rows, ∃ r ∈ history, r.key = x

/-! ## The calls -/

/-- The batches are handled one after the other. -/
def deliver (newest : NewestFirst Id) [FreshIds Id]
    (calls : List (List TelemetryEvent × Freshness)) : Handler Id Unit :=
  calls.forM fun call => engineHandler newest call.1 call.2

/-- Behind some calls of a process that started over an empty table: it knows the last live reading,
and stored are the transitions of the live topic and the reported ones of the backfill topic. -/
structure BothRead (newest : NewestFirst Id) (calls : List (List TelemetryEvent × Freshness))
    (w : World Id) : Prop where
  ready : EngineReady w
  known : ∀ imei i, known newest w imei i =
    engineDetector.after none (i.readings imei (eventsOf .live calls))
  stored_iff : ∀ imei i x, (stored w imei i x).isSome = true ↔
    ∃ r, (r ∈ engineDetector.shown none (i.readings imei (eventsOf .live calls)) ∨
      r ∈ (i.readings imei (eventsOf .backfill calls)).filter InputReading.reported) ∧ r.key = x

theorem BothRead.start (newest : NewestFirst Id) {db : TelemetryDb Id}
    (hempty : db.vehicleEngineEvents.rows = []) : BothRead newest [] (World.start db) where
  ready := by
    refine .start fun r hr => ?_
    rw [hempty] at hr
    cases hr
  known imei i := by
    have hunknown : ∀ v, i.known (stateOf newest (World.start db) v) = none := by
      intro v
      refine known_of_unreferenced newest (fun r hr => ?_) rfl i
      rw [show (World.start db).db.vehicleEngineEvents.rows = [] from hempty] at hr
      cases hr
    simp [Telemetry.known, hunknown, eventsOf, EngineInput.readings]
  stored_iff imei i x := by
    have hnone : ∀ k, db.vehicleEngineEvents.find? k = none := by
      intro k
      rw [← Option.not_isSome_iff_eq_none, Option.isSome_iff_exists]
      rintro ⟨r, hr⟩
      have hmem := Table.mem_of_find? hr
      rw [hempty] at hmem
      cases hmem
    have hstart : (World.start db).db = db := rfl
    simp [stored, hstart, hnone, eventsOf, EngineInput.readings]

variable [FreshIds Id]

omit [FreshIds Id] in
theorem BothRead.call {newest : NewestFirst Id} {calls : List (List TelemetryEvent × Freshness)}
    {call : List TelemetryEvent × Freshness} {w w' : World Id} (h : BothRead newest calls w)
    (hready : EngineReady w') (hwatches : Watches newest (call.2 = .live) call.1 call.1 w w') :
    BothRead newest (calls ++ [call]) w' where
  ready := hready
  known imei i := by
    rw [hwatches.known, h.known, eventsOf_append, eventsOf_singleton, EngineInput.readings_append]
    by_cases hlive : call.2 = .live <;> simp [hlive, knownAfter, EngineInput.readings]
  stored_iff imei i x := by
    rw [hwatches.stored, isSome_firstWins, h.stored_iff, h.known]
    simp only [eventsOf_append, eventsOf_singleton, EngineInput.readings_append,
      ChangeDetector.shown_append, List.filter_append, List.mem_append, ← exists_or, ← or_and_right]
    refine exists_congr fun r => and_congr_left fun _ => ?_
    cases hfreshness : call.2 with
    | live => simp [told, EngineInput.readings, or_right_comm]
    | backfill => simp [told, EngineInput.readings, or_assoc]

theorem bothRead_of_does {newest : NewestFirst Id} {db : TelemetryDb Id}
    (hempty : db.vehicleEngineEvents.rows = []) {calls : List (List TelemetryEvent × Freshness)}
    (hevents : ∀ call ∈ calls, ∀ event ∈ call.1, Decodable event) {w' : World Id}
    (hdoes : Session.Does (deliver newest calls) (World.start db) () w') :
    BothRead newest calls w' := by
  refine Session.Does.forM_invariant (J := fun done w' => BothRead newest done w') calls ?_
    (.start newest hempty) hdoes
  rintro done call rest rfl w w'' h hcall
  obtain ⟨hready, hwatches⟩ := watches_of_does (hevents call (by simp)) h.ready hcall
  exact h.call hready hwatches

theorem does_deliver (newest : NewestFirst Id) {w : World Id} (hw : EngineReady w)
    {calls : List (List TelemetryEvent × Freshness)}
    (hevents : ∀ call ∈ calls, ∀ event ∈ call.1, Decodable event)
    (hdates : ∀ call ∈ calls, ∀ event ∈ call.1, Dated event) :
    ∃ w', Session.Does (deliver newest calls) w () w' ∧ EngineReady w' := by
  refine Session.Does.forM_prefix (J := fun _ w' => EngineReady w') calls ?_ hw
  rintro done call rest rfl w hready
  exact does_engineHandler newest (hevents call (by simp)) (hdates call (by simp)) call.2 hready

/-! ## One row for each change -/

/-- What the writer tells of a split history. -/
def toldOf (history : List (InputReading × Freshness)) : List InputReading :=
  engineDetector.split (· = Freshness.live) none history

omit [FreshIds Id] in
theorem BothRead.isSome_stored {newest : NewestFirst Id}
    {calls : List (List TelemetryEvent × Freshness)} {w : World Id} (h : BothRead newest calls w)
    {i : EngineInput} {imei : String} {history : List (InputReading × Freshness)}
    (hhistory : SplitHistory i imei calls history) (x : JsDate × Bool) :
    (stored w imei i x).isSome = true ↔ x ∈ (toldOf history).map InputReading.key := by
  have hother : ∀ f : Freshness, (!decide (f = .live)) = decide (f = .backfill) := by
    intro f
    cases f <;> rfl
  rw [h.stored_iff, hhistory.delivered, hhistory.delivered, List.mem_map]
  refine exists_congr fun r => and_congr_left fun _ => ?_
  rw [toldOf, ChangeDetector.mem_split]
  simp only [hother]
  rfl

/-- Between two live records that follow each other on the topic: the value is the same, or the
second one has the id of the input. -/
def LiveChangesReported (readings : List InputReading) : Prop :=
  readings.IsChain fun r r' => r.value = r'.value ∨ r'.reported = true

theorem liveChangesReported_iff {readings : List InputReading} :
    LiveChangesReported readings ↔
      ∀ r ∈ engineDetector.shown none readings, r.reported = true :=
  (ChangeDetector.forall_shown_reported (d := engineDetector) readings).symm

/-- What is told of a split history, in the order of the time stamps. -/
theorem SplitHistory.toldOf_increasing {i : EngineInput} {imei : String}
    {calls : List (List TelemetryEvent × Freshness)} {history : List (InputReading × Freshness)}
    (h : SplitHistory i imei calls history) :
    ((toldOf history).map InputReading.key).Pairwise fun x y => before x.1 y.1 := by
  rw [List.pairwise_map]
  have hall : (history.map Prod.fst).Pairwise fun r r' => before r.recordedAt r'.recordedAt := by
    rw [List.pairwise_map]
    exact h.increasing
  exact hall.sublist (ChangeDetector.split_sublist none history)

/-- Two lists of transitions, each in the order of their time, with the same transitions. -/
theorem eq_of_increasing {rows rows' : List (JsDate × Bool)}
    (h : rows.Pairwise fun x y => before x.1 y.1) (h' : rows'.Pairwise fun x y => before x.1 y.1)
    (hmem : ∀ x, x ∈ rows ↔ x ∈ rows') : rows = rows' := by
  have hnodup : ∀ {l : List (JsDate × Bool)}, l.Pairwise (fun x y => before x.1 y.1) → l.Nodup := by
    intro l hl
    refine hl.imp fun hbefore => ?_
    rintro rfl
    exact not_before_self _ hbefore
  refine List.Perm.eq_of_pairwise (fun x y _ _ hxy hyx => (before_asymm hxy hyx).elim) h h' ?_
  exact (List.perm_ext_iff_of_nodup (hnodup h) (hnodup h')).mpr hmem

omit [FreshIds Id] in
theorem BothRead.oneRowPerChange_iff {newest : NewestFirst Id}
    {calls : List (List TelemetryEvent × Freshness)} {w : World Id} (h : BothRead newest calls w)
    {i : EngineInput} {imei : String} {history : List (InputReading × Freshness)}
    (hhistory : SplitHistory i imei calls history) :
    OneRowPerChange w imei i (history.map Prod.fst) ↔
      LiveChangesReported (i.readings imei (eventsOf .live calls)) := by
  have hstart : ChangeDetector.Tracks (V := Bool) none none none :=
    ⟨.inl rfl, fun v hv => by cases hv⟩
  have hchain : ((toldOf history).map InputReading.value).IsChain (· ≠ ·) ↔
      ∀ r ∈ engineDetector.shown none ((history.filter (·.2 = .live)).map Prod.fst),
        r.reported = true := ChangeDetector.isChain_split hstart hhistory.reports
  rw [List.isChain_map] at hchain
  rw [liveChangesReported_iff, hhistory.delivered]
  refine Iff.trans ?_ hchain
  constructor
  · rintro ⟨rows, hincreasing, hrows, halternate, _⟩
    have hsame : rows = (toldOf history).map InputReading.key :=
      eq_of_increasing hincreasing hhistory.toldOf_increasing
        fun x => (hrows x).trans (h.isSome_stored hhistory x)
    rw [hsame, List.isChain_map] at halternate
    exact halternate
  · intro halternate
    refine ⟨(toldOf history).map InputReading.key, hhistory.toldOf_increasing,
      fun x => (h.isSome_stored hhistory x).symm, ?_, fun x hx => ?_⟩
    · rw [List.isChain_map]
      exact halternate
    · obtain ⟨r, hr, rfl⟩ := List.mem_map.mp hx
      exact ⟨r, (ChangeDetector.split_sublist none history).subset hr, rfl⟩

/-- Both topics bring a history of an input, over an empty table: when each change has one row. The
calls succeed if the columns take the time stamps. -/
theorem one_row_per_change_iff (newest : NewestFirst Id) {db : TelemetryDb Id}
    (hempty : db.vehicleEngineEvents.rows = [])
    (calls : List (List TelemetryEvent × Freshness))
    (hevents : ∀ call ∈ calls, ∀ event ∈ call.1, Decodable event) :
    (∀ w', Session.Does (deliver newest calls) (World.start db) () w' →
      ∀ (i : EngineInput) imei history, SplitHistory i imei calls history →
        (OneRowPerChange w' imei i (history.map Prod.fst) ↔
          LiveChangesReported (i.readings imei (eventsOf .live calls)))) ∧
    ((∀ call ∈ calls, ∀ event ∈ call.1, Dated event) →
      ∃ w', Session.Does (deliver newest calls) (World.start db) () w') := by
  constructor
  · exact fun w' hdoes i imei history hhistory =>
      (bothRead_of_does hempty hevents hdoes).oneRowPerChange_iff hhistory
  · intro hdates
    obtain ⟨w', hdoes, -⟩ :=
      does_deliver newest (BothRead.start newest hempty).ready hevents hdates
    exact ⟨w', hdoes⟩

/-- The ignition is off, then on as a record of the backfill topic reports, and then still on. -/
def onInBackfill : List (List TelemetryEvent × Freshness) :=
  [([contact "01:00" false], .live),
    ([{ contact "02:00" true with eventIoId := 239 }], .backfill),
    ([contact "03:00" true], .live)]

theorem decodable_onInBackfill :
    ∀ call ∈ onInBackfill, ∀ event ∈ call.1, Decodable event := by
  have hreported : Decodable { contact "02:00" true with eventIoId := 239 } :=
    { (decodable_contact true (by decide) : Decodable (contact "02:00" true)) with
      eventIoId := ⟨(by decide : 239 ≤ JsNumber.maxSafeInteger), Int.natCast_nonneg 239⟩ }
  simp only [onInBackfill, List.forall_mem_cons, List.not_mem_nil, false_imp_iff, implies_true,
    and_true]
  exact ⟨decodable_contact false (by decide), hreported, decodable_contact true (by decide)⟩

theorem dated_onInBackfill : ∀ call ∈ onInBackfill, ∀ event ∈ call.1, Dated event := by decide

/-- Its history. -/
def onInBackfillHistory : List (InputReading × Freshness) :=
  [(⟨some 1704067260000, some 1704067260000, false, false⟩, .live),
    (⟨some 1704067320000, some 1704067320000, true, true⟩, .backfill),
    (⟨some 1704067380000, some 1704067380000, true, false⟩, .live)]

theorem splitHistory_onInBackfill :
    SplitHistory .ignition "356307042441013" onInBackfill onInBackfillHistory where
  increasing := by simp [onInBackfillHistory, before]
  reports := by simp [onInBackfillHistory, ChangeDetector.Reports, engineDetector]
  delivered freshness := by cases freshness <;> decide

theorem one_row_per_change_onInBackfill :
    ∃ w', Session.Does (deliver .stored onInBackfill) emptyWorld () w' ∧
      (OneRowPerChange w' "356307042441013" .ignition (onInBackfillHistory.map Prod.fst) ↔
        LiveChangesReported
          (EngineInput.ignition.readings "356307042441013" (eventsOf .live onInBackfill))) := by
  obtain ⟨hiff, hcalls⟩ := one_row_per_change_iff .stored
    (rfl : (TelemetryDb.empty : TelemetryDb ℕ).vehicleEngineEvents.rows = []) onInBackfill
    decodable_onInBackfill
  obtain ⟨w', hdoes⟩ := hcalls dated_onInBackfill
  exact ⟨w', hdoes, hiff w' hdoes _ _ _ splitHistory_onInBackfill⟩

/-- Both topics show that the ignition was switched on once, and two rows say so. -/
theorem change_told_twice : ¬ ∀ (newest : NewestFirst ℕ) (db : TelemetryDb ℕ),
    db.vehicleEngineEvents.rows = [] → ∀ calls : List (List TelemetryEvent × Freshness),
      (∀ call ∈ calls, ∀ event ∈ call.1, Decodable event) → ∀ w',
        Session.Does (deliver newest calls) (World.start db) () w' →
          ∀ (i : EngineInput) imei history, SplitHistory i imei calls history →
            OneRowPerChange w' imei i (history.map Prod.fst) := by
  intro hclaim
  have hempty : (TelemetryDb.empty : TelemetryDb ℕ).vehicleEngineEvents.rows = [] := rfl
  obtain ⟨w', hdoes, -⟩ := does_deliver .stored (BothRead.start .stored hempty).ready
    decodable_onInBackfill dated_onInBackfill
  have h := bothRead_of_does hempty decodable_onInBackfill hdoes
  have hone := hclaim .stored .empty rfl onInBackfill decodable_onInBackfill w' hdoes .ignition
    "356307042441013" onInBackfillHistory splitHistory_onInBackfill
  have hreported := (h.oneRowPerChange_iff splitHistory_onInBackfill).mp hone
  rw [splitHistory_onInBackfill.delivered] at hreported
  simp [LiveChangesReported, onInBackfillHistory] at hreported

end BankPlatform.Telemetry
