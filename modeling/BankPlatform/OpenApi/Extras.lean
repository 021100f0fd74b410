import BankPlatform.OpenApi.Sections

/-!
# Merging extra documents

Merging an extra keeps what is in the merged document and adds the extra's components and path
items under their final names, with their references renamed alike. So the references of the merged
document resolve if those of the documents do, each in its own.

## Main results

* `mergeExtra_spec` — what merging an extra does.
* `merge_spec` — what is in the merged document.
-/

namespace BankPlatform.OpenApi

open Library

/-- A document that has all that another has. -/
structure Extends (doc doc' : OpenApiDocument) : Prop where
  pathItem : ∀ path item, doc.pathItem? path = some item → doc'.pathItem? path = some item
  component : ∀ s name j, doc.component? s name = some j → doc'.component? s name = some j
  others : doc'.others = doc.others
  componentsOthers : doc'.componentsOthers = doc.componentsOthers

theorem Extends.refl (doc : OpenApiDocument) : Extends doc doc :=
  ⟨fun _ _ => id, fun _ _ _ => id, rfl, rfl⟩

theorem Extends.trans {doc doc' doc'' : OpenApiDocument} (h : Extends doc doc')
    (h' : Extends doc' doc'') : Extends doc doc'' where
  pathItem path item hitem := h'.pathItem path item (h.pathItem path item hitem)
  component s name j hj := h'.component s name j (h.component s name j hj)
  others := h'.others.trans h.others
  componentsOthers := h'.componentsOthers.trans h.componentsOthers

theorem Extends.isSome {doc doc' : OpenApiDocument} (h : Extends doc doc') {s : ComponentSection}
    {name : String} (hsome : (doc.component? s name).isSome) :
    (doc'.component? s name).isSome := by
  obtain ⟨j, hj⟩ := Option.isSome_iff_exists.mp hsome
  rw [h.component s name j hj]
  rfl

/-! ## One extra -/

/-- What is in the document after an extra was merged. -/
structure ExtraMerged (merged extra next : OpenApiDocument) (renames : SectionRenames) : Prop where
  old : Extends merged next
  sections : ∀ s, ∃ section', SectionMerged merged extra renames s section' ∧
    ∀ name, next.component? s name = (JsMap.get? section' name).map Entry.json
  newPath : ∀ path item, merged.pathItem? path = none → path ∉ JsRecord.inherited →
    extra.pathItem? path = some item →
    next.pathItem? path = some (Json.renameRefs renames.rename item)
  onlyPath : ∀ path item, next.pathItem? path = some item → merged.pathItem? path = some item ∨
    ∃ item', extra.pathItem? path = some item' ∧ item = Json.renameRefs renames.rename item'

theorem nodup_rows (doc : OpenApiDocument) :
    (doc.pathRows.map Prod.fst).Nodup := by
  rw [OpenApiDocument.pathRows]
  cases doc.paths with
  | none => exact List.nodup_nil
  | some m => exact m.nodup

theorem get?_paths (doc : OpenApiDocument) (path : String) :
    (doc.paths.getD Table.empty).get? path = doc.pathItem? path := by
  cases h : doc.paths with
  | none =>
    rw [OpenApiDocument.pathItem?, h]
    rfl
  | some m => rw [OpenApiDocument.pathItem?, h, Option.getD_some, Option.bind_some]

/-- Merging an extra ends, and does what it is to do. -/
theorem mergeExtra_spec {merged extra : OpenApiDocument} (hm : merged.Plain)
    (hmclosed : merged.Closed) (he : extra.Plain) (heclosed : extra.Closed) :
    ∃ next renames, mergeExtra merged extra = some next ∧
      ExtraMerged merged extra next renames ∧ ∀ s, ChosenAt merged extra s (renames s) := by
  obtain ⟨m, renames, hfold, hpassed, hchosen⟩ :=
    mergeSections_spec hm hmclosed he heclosed (List.append_nil componentSections).symm
  refine ⟨_, renames, by rw [mergeExtra, hfold]; rfl, ?_,
    fun s => hchosen s s.mem_componentSections⟩
  have hsection : ∀ s, SectionMerged merged extra renames s (m.targetSection s) := fun s =>
    hpassed.passed s s.mem_componentSections
  have hcomponent : ∀ s name, ((m.target s).map (JsMap.mapValues Entry.json)).bind
      (fun t => t.get? name) = ((m.targetSection s).get? name).map Entry.json := by
    intro s name
    rw [Merging.targetSection]
    cases m.target s with
    | none => rfl
    | some t => exact JsMap.get?_mapValues _ _ _
  have hnew : ∀ path item, extra.pathItem? path = some item →
      (path, Json.renameRefs renames.rename item) ∈ m.extraDoc.pathRows := by
    intro path item hitem
    rw [OpenApiDocument.mem_pathRows_iff, hpassed.rewritten.pathItem, hitem, Option.map_some]
  refine ⟨⟨fun path item hitem => ?_, fun s name j hj => ?_, rfl, rfl⟩, fun s => ?_, ?_, ?_⟩
  · exact JsRecord.get?_assignAllNew_of_some (by rw [get?_paths, hitem])
  · exact (hcomponent s name).trans (by rw [(hsection s).old name j hj]; rfl)
  · exact ⟨m.targetSection s, hsection s, hcomponent s⟩
  · intro path item hnone hpath hitem
    refine JsRecord.get?_assignAllNew (nodup_rows m.extraDoc) (hnew path item hitem) ?_
    rw [JsRecord.has, get?_paths, hnone]
    simpa using hpath
  · intro path item hitem
    cases hold : merged.pathItem? path with
    | some item' =>
      have hkeeps : (JsRecord.assignAllNew Prod.fst Prod.snd (merged.paths.getD Table.empty)
          m.extraDoc.pathRows).get? path = some item' :=
        JsRecord.get?_assignAllNew_of_some ((get?_paths merged path).trans hold)
      exact .inl (hkeeps.symm.trans hitem)
    | none =>
      obtain ⟨⟨path', x⟩, hmem, rfl, rfl⟩ :=
        JsRecord.get?_assignAllNew_new hitem ((get?_paths merged path).trans hold)
      have hx := OpenApiDocument.mem_pathRows_iff.mp hmem
      rw [hpassed.rewritten.pathItem] at hx
      obtain ⟨item', hitem', rfl⟩ := Option.map_eq_some_iff.mp hx
      exact .inr ⟨item', hitem', rfl⟩

namespace ExtraMerged

variable {merged extra next : OpenApiDocument} {renames : SectionRenames}

/-- A component that is not left out is there under its final name. -/
theorem copied (h : ExtraMerged merged extra next renames) {s : ComponentSection} {name : String}
    {j : Json} (hj : extra.component? s name = some j) (hk : ¬ Kept merged extra s name) :
    next.component? s (renames.final s name) = some (Json.renameRefs renames.rename j) := by
  obtain ⟨section', hmerged, hnext⟩ := h.sections s
  rw [hnext, hmerged.copied name j hj hk, Option.map_some]

/-- A component that is left out keeps its name, which another has. -/
theorem final_of_kept (h : ExtraMerged merged extra next renames) {s : ComponentSection}
    {name : String} (hk : Kept merged extra s name) : renames.final s name = name := by
  obtain ⟨section', hmerged, -⟩ := h.sections s
  exact SectionRenames.final_of_none ((hmerged.kept name).mp hk).2.2

theorem only (h : ExtraMerged merged extra next renames) {s : ComponentSection} {name : String}
    {j : Json} (hj : next.component? s name = some j) : merged.component? s name = some j ∨
      ∃ name' j', extra.component? s name' = some j' ∧ name = renames.final s name' ∧
        j = Json.renameRefs renames.rename j' := by
  obtain ⟨section', hmerged, hnext⟩ := h.sections s
  rw [hnext] at hj
  obtain ⟨e, he, rfl⟩ := Option.map_eq_some_iff.mp hj
  rcases hmerged.only name e he with ⟨j, hold, rfl⟩ | ⟨name', j', hj', -, hname, rfl⟩
  · exact .inl hold
  · exact .inr ⟨name', j', hj', hname, rfl⟩

/-- Every component of the extra has its final name in the merged document. -/
theorem isSome_final (h : ExtraMerged merged extra next renames) {s : ComponentSection}
    {name : String} (hsome : (extra.component? s name).isSome) :
    (next.component? s (renames.final s name)).isSome := by
  obtain ⟨j, hj⟩ := Option.isSome_iff_exists.mp hsome
  by_cases hk : Kept merged extra s name
  · rw [h.final_of_kept hk]
    obtain ⟨ht, -⟩ := hk
    exact h.old.isSome (by rw [ht]; rfl)
  · rw [h.copied hj hk]
    rfl

/-- A renamed reference to a component is one to a component under its final name. -/
theorem exists_of_rename_eq {r name : String} {s : ComponentSection}
    (hr : renames.rename r = s.ref name) :
    ∃ name', r = s.ref name' ∧ name = renames.final s name' := by
  cases htarget : target? r with
  | none =>
    rw [SectionRenames.rename, renameTo, htarget] at hr
    rw [target?_eq_some_iff.mpr hr] at htarget
    cases htarget
  | some target =>
    obtain ⟨s', name'⟩ := target
    obtain rfl := target?_eq_some_iff.mp htarget
    rw [SectionRenames.rename_ref] at hr
    obtain ⟨rfl, rfl⟩ := ComponentSection.ref_inj.mp hr
    exact ⟨name', rfl, rfl⟩

/-- The references of a part of the extra resolve after they were renamed. -/
theorem isSome_of_renamed (h : ExtraMerged merged extra next renames) (he : extra.Closed)
    {j : Json} (hplain : j.Plain) (hrefs : ∀ r, j.HasRef r → extra.HasRef r)
    {s : ComponentSection} {name : String}
    (hr : (Json.renameRefs renames.rename j).HasRef (s.ref name)) :
    (next.component? s name).isSome := by
  obtain ⟨r, hbefore, heq⟩ := (Json.hasRef_renameRefs_iff hplain).mp hr
  obtain ⟨name', rfl, rfl⟩ := exists_of_rename_eq heq
  exact h.isSome_final (he s name' (hrefs _ hbefore))

theorem closed (h : ExtraMerged merged extra next renames) (hm : merged.Closed)
    (he : extra.Closed) (heplain : extra.Plain) : next.Closed := by
  intro s name hr
  generalize hnext : s.ref name = r at hr
  cases hr with
  | @path path item r hitem hr =>
    subst hnext
    rcases h.onlyPath path item hitem with hold | ⟨item', hitem', rfl⟩
    · exact h.old.isSome (hm s name (.path hold hr))
    · exact h.isSome_of_renamed he (heplain.pathItem path item' hitem')
        (fun r hr => .path hitem' hr) hr
  | @component s' name' j r hj hr =>
    subst hnext
    rcases h.only hj with hold | ⟨name'', j', hj', rfl, rfl⟩
    · exact h.old.isSome (hm s name (.component hold hr))
    · exact h.isSome_of_renamed he (heplain.component s' name'' j' hj')
        (fun r hr => .component hj' hr) hr
  | otherComponent hr =>
    subst hnext
    rw [h.old.componentsOthers] at hr
    exact h.old.isSome (hm s name (.otherComponent hr))
  | other hr =>
    subst hnext
    rw [h.old.others] at hr
    exact h.old.isSome (hm s name (.other hr))

theorem plain (h : ExtraMerged merged extra next renames) (hm : merged.Plain) (he : extra.Plain) :
    next.Plain where
  pathItem path item hitem := by
    rcases h.onlyPath path item hitem with hold | ⟨item', hitem', rfl⟩
    · exact hm.pathItem path item hold
    · exact (he.pathItem path item' hitem').renameRefs _
  component s name j hj := by
    rcases h.only hj with hold | ⟨name', j', hj', rfl, rfl⟩
    · exact hm.component s name j hold
    · exact (he.component s name' j' hj').renameRefs _
  name s name j hj := by
    rcases h.only hj with hold | ⟨name', j', hj', rfl, rfl⟩
    · exact hm.name s name j hold
    · obtain ⟨section', hmerged, -⟩ := h.sections s
      cases hc : (renames s).get? name' with
      | none =>
        rw [SectionRenames.final_of_none hc]
        exact he.name s name' j' hj'
      | some c =>
        rw [SectionRenames.final_of_some hc]
        rintro rfl
        exact (hmerged.fresh name' _ hc).2.2.2 (by decide)

end ExtraMerged

/-! ## All extras -/

/-- What is in the document after some extras were merged. -/
structure ExtrasMerged (merged : OpenApiDocument) (extras : List OpenApiDocument)
    (final : OpenApiDocument) : Prop where
  plain : final.Plain
  closed : final.Closed
  old : Extends merged final
  onlyPath : ∀ path, (∀ doc ∈ merged :: extras, doc.pathItem? path = none) →
    final.pathItem? path = none

/-- Merging extras one after the other ends. -/
theorem mergeExtras_spec {merged : OpenApiDocument} (hm : merged.Plain) (hmclosed : merged.Closed)
    {extras : List OpenApiDocument} (he : ∀ extra ∈ extras, extra.Plain ∧ extra.Closed) :
    ∃ final, extras.foldlM mergeExtra merged = some final ∧ ExtrasMerged merged extras final := by
  induction extras generalizing merged with
  | nil => exact ⟨merged, rfl, hm, hmclosed, .refl merged, fun path h => h merged (by simp)⟩
  | cons extra extras ih =>
    obtain ⟨heplain, heclosed⟩ := he extra List.mem_cons_self
    obtain ⟨next, renames, hmerge, hnext, -⟩ := mergeExtra_spec hm hmclosed heplain heclosed
    obtain ⟨final, hfold, hfinal⟩ := ih (hnext.plain hm heplain)
      (hnext.closed hmclosed heclosed heplain) fun e hmem => he e (List.mem_cons_of_mem _ hmem)
    refine ⟨final, ?_, hfinal.plain, hfinal.closed, hnext.old.trans hfinal.old, fun path h => ?_⟩
    · rw [List.foldlM_cons, hmerge]
      exact hfold
    · refine hfinal.onlyPath path (List.forall_mem_cons.mpr ⟨?_, fun e hmem => h e (by simp [hmem])⟩)
      rw [Option.eq_none_iff_forall_ne_some]
      intro item hitem
      rcases hnext.onlyPath path item hitem with hold | ⟨item', hitem', -⟩
      · rw [h merged (by simp)] at hold
        cases hold
      · rw [h extra (by simp)] at hitem'
        cases hitem'

section Defaults

variable (doc : OpenApiDocument)

theorem extends_withDefaults : Extends doc doc.withDefaults ∧ Extends doc.withDefaults doc := by
  have hpath : ∀ path, doc.withDefaults.pathItem? path = doc.pathItem? path := by
    intro path
    exact get?_paths doc path
  have hcomponents : ∀ s name, doc.withDefaults.component? s name = doc.component? s name := by
    intro s name
    simp only [OpenApiDocument.component?, OpenApiDocument.section?, OpenApiDocument.withDefaults]
    cases doc.components <;> rfl
  have hothers : doc.withDefaults.componentsOthers = doc.componentsOthers := by
    simp only [OpenApiDocument.componentsOthers, OpenApiDocument.withDefaults]
    cases doc.components <;> rfl
  exact ⟨⟨fun path item h => (hpath path).trans h, fun s name j h => (hcomponents s name).trans h,
    rfl, hothers⟩, ⟨fun path item h => (hpath path).symm.trans h,
      fun s name j h => (hcomponents s name).symm.trans h, rfl, hothers.symm⟩⟩

end Defaults

theorem Extends.plain {doc doc' : OpenApiDocument} (h : Extends doc' doc) (hplain : doc.Plain) :
    doc'.Plain where
  pathItem path item hitem := hplain.pathItem path item (h.pathItem path item hitem)
  component s name j hj := hplain.component s name j (h.component s name j hj)
  name s name j hj := hplain.name s name j (h.component s name j hj)

/-- Documents with the same parts have the same references. -/
theorem Extends.hasRef {doc doc' : OpenApiDocument} (h : Extends doc' doc) {r : String}
    (hr : doc'.HasRef r) : doc.HasRef r := by
  cases hr with
  | path hitem hr => exact .path (h.pathItem _ _ hitem) hr
  | component hj hr => exact .component (h.component _ _ _ hj) hr
  | otherComponent hr => exact .otherComponent (h.componentsOthers ▸ hr)
  | other hr => exact .other (h.others ▸ hr)

/-- Merging documents ends. -/
theorem mergeOpenApiDocuments_spec {base : OpenApiDocument} (hb : base.Plain)
    (hbclosed : base.Closed) {extras : List OpenApiDocument}
    (he : ∀ extra ∈ extras, extra.Plain ∧ extra.Closed) :
    ∃ merged, mergeOpenApiDocuments base extras = some merged ∧
      ExtrasMerged base extras merged := by
  obtain ⟨hto, hof⟩ := extends_withDefaults base
  have hclosed : base.withDefaults.Closed := fun s name hr =>
    hto.isSome (hbclosed s name (hof.hasRef hr))
  obtain ⟨merged, hfold, h⟩ := mergeExtras_spec (hof.plain hb) hclosed he
  refine ⟨merged, hfold, h.plain, h.closed, hto.trans h.old, fun path hnone => ?_⟩
  refine h.onlyPath path (List.forall_mem_cons.mpr ⟨?_, fun e hmem => hnone e (by simp [hmem])⟩)
  exact (get?_paths base path).trans (hnone base (by simp))

/-- The merge up to an extra, that extra, and the rest. -/
theorem mergeOpenApiDocuments_split {base : OpenApiDocument} (hb : base.Plain)
    (hbclosed : base.Closed) {before after : List OpenApiDocument} {extra : OpenApiDocument}
    (he : ∀ e ∈ before ++ extra :: after, e.Plain ∧ e.Closed) :
    ∃ sofar next merged renames,
      mergeOpenApiDocuments base before = some sofar ∧
      mergeOpenApiDocuments base (before ++ extra :: after) = some merged ∧
      ExtrasMerged base before sofar ∧ ExtraMerged sofar extra next renames ∧
      (∀ s, ChosenAt sofar extra s (renames s)) ∧ Extends next merged := by
  obtain ⟨sofar, hbefore, hsofar⟩ := mergeOpenApiDocuments_spec hb hbclosed
    fun e hmem => he e (List.mem_append_left _ hmem)
  obtain ⟨heplain, heclosed⟩ := he extra (by simp)
  obtain ⟨next, renames, hmerge, hnext, hchosen⟩ :=
    mergeExtra_spec hsofar.plain hsofar.closed heplain heclosed
  obtain ⟨merged, hafter, hmerged⟩ := mergeExtras_spec (hnext.plain hsofar.plain heplain)
    (hnext.closed hsofar.closed heclosed heplain) fun e hmem =>
      he e (List.mem_append_right _ (List.mem_cons_of_mem _ hmem))
  refine ⟨sofar, next, merged, renames, hbefore, ?_, hsofar, hnext, hchosen, hmerged.old⟩
  rw [mergeOpenApiDocuments] at hbefore
  rw [mergeOpenApiDocuments, List.foldlM_append, hbefore]
  simp only [Option.bind_eq_bind, Option.bind_some, List.foldlM_cons, hmerge]
  exact hafter

/-! ## The merged document -/

/-- What merging a section of an extra does, in the state `m` before it: the search for names ends,
at names that are free and distinct, and every component of the extra is equal to the one kept under
its name, or there under its final name with its references renamed. -/
structure SectionOutcome (m : Merging) (extra merged : OpenApiDocument) (renames : SectionRenames)
    (s : ComponentSection) : Prop where
  search : ∀ extraSection, m.extraDoc.section? s = some extraSection →
    renamesFor (m.targetSection s) extraSection = some (renames s)
  distinct : ∀ name name' c, (renames s).get? name = some c → (renames s).get? name' = some c →
    name = name'
  fresh : ∀ name c, (renames s).get? name = some c →
    (m.targetSection s).get? c = none ∧ m.extraDoc.component? s c = none
  present : ∀ name j, extra.component? s name = some j →
    (∃ t j', (m.targetSection s).get? name = some ⟨t, false⟩ ∧
      m.extraDoc.component? s name = some j' ∧ t.Same j' ∧ (renames s).get? name = none ∧
      merged.component? s name = some t) ∨
    merged.component? s (renames.final s name) = some (Json.renameRefs renames.rename j)

theorem ExtraMerged.sectionOutcome {sofar extra next merged : OpenApiDocument}
    {renames before : SectionRenames} {done rest : List ComponentSection} {s : ComponentSection}
    {m : Merging} (h : ExtraMerged sofar extra next renames) (hext : Extends next merged)
    (hsplit : componentSections = done ++ s :: rest) (hpassed : Passed sofar extra before done m)
    (hsofar : sofar.Plain) (hclosed : sofar.Closed) (he : extra.Plain) (heclosed : extra.Closed)
    (hchosen : ∀ es, m.extraDoc.section? s = some es →
      renamesFor (m.targetSection s) es = some (renames s)) :
    SectionOutcome m extra merged renames s := by
  obtain ⟨section', hmerged, -⟩ := h.sections s
  have hdone := mem_done_iff hsplit
  have hs : s ∉ done := fun hmem => by
    have hlt := (hdone s).mp hmem
    omega
  have htarget := hpassed.pending s hs
  have hcomponent := hpassed.rewritten.component s
  refine ⟨hchosen, hmerged.injective, fun name c hc => ?_, fun name j hj => ?_⟩
  · obtain ⟨-, hfree, hextra, -⟩ := hmerged.fresh name c hc
    rw [htarget, hfree, hcomponent, hextra]
    exact ⟨rfl, rfl⟩
  · by_cases hk : Kept sofar extra s name
    · obtain ⟨t, ht, hequal⟩ := (hpassed.kept_iff hsofar hclosed he heclosed hdone hj).mp hk
      have hsame := same_of_deepEqual (hsofar.component s name t ht)
        ((he.component s name j hj).renameRefs _) hequal
      refine .inl ⟨t, _, ?_, ?_, hsame, ((hmerged.kept name).mp hk).2.2, ?_⟩
      · rw [htarget, ht, Option.map_some]
      · rw [hcomponent, hj, Option.map_some]
      · exact hext.component s name t (h.old.component s name t ht)
    · exact .inr (hext.component _ _ _ (h.copied hj hk))

/-- Merging ends, for every document and list of extras in each of which the references to
components resolve. What the base has is unchanged, nothing of an extra's components is dropped or
overwritten, and the references of the merged document resolve. -/
theorem merge_spec {base : OpenApiDocument} {extras : List OpenApiDocument}
    (hbase : base.Plain ∧ base.Closed) (hextras : ∀ extra ∈ extras, extra.Plain ∧ extra.Closed) :
    ∃ merged, mergeOpenApiDocuments base extras = some merged ∧ Extends base merged ∧
      (∀ before extra after, extras = before ++ extra :: after →
        ∃ sofar renames, mergeOpenApiDocuments base before = some sofar ∧
          ∀ done s rest, componentSections = done ++ s :: rest →
            ∃ m, done.foldlM mergeComponentSection (.start sofar extra) = some m ∧
              SectionOutcome m extra merged renames s) ∧
      merged.Closed := by
  obtain ⟨merged, hmerge, hmerged⟩ := mergeOpenApiDocuments_spec hbase.1 hbase.2 hextras
  refine ⟨merged, hmerge, hmerged.old, ?_, hmerged.closed⟩
  rintro before extra after rfl
  obtain ⟨sofar, next, merged', renames, hsofar, hmerge', hbefore, hnext, hchosen, hext⟩ :=
    mergeOpenApiDocuments_split hbase.1 hbase.2 hextras
  obtain rfl := Option.some.inj (hmerge'.symm.trans hmerge)
  obtain ⟨heplain, heclosed⟩ := hextras extra (by simp)
  refine ⟨sofar, renames, hsofar, fun done s rest hsplit => ?_⟩
  obtain ⟨m, renamesBefore, hfold, hpassed, hrenames⟩ := hchosen s done rest hsplit
  exact ⟨m, hfold, hnext.sectionOutcome hext hsplit hpassed hbefore.plain hbefore.closed heplain
    heclosed hrenames⟩

/-! ### A shop and its warehouse -/

def refTo (s : ComponentSection) (name : String) : Json := .obj [("$ref", .str (s.ref name))]

/-- Orders of items, where an item is of some type. -/
def orderDocument (itemType : String) (paths : JsRecord Json) : OpenApiDocument where
  paths := some paths
  components := some
    { sections := fun
        | .schemas => some
            ⟨[("Order", .obj [("items", refTo .schemas "Item")]),
              ("Item", .obj [("type", .str itemType)])], by simp [Keyed.key]⟩
        | _ => none
      others := [] }
  others := []

def shop : OpenApiDocument := orderDocument "string" Table.empty

def warehouse : OpenApiDocument :=
  orderDocument "number" ⟨[("/orders", refTo .schemas "Order")], by simp⟩

theorem shop_plain_closed : shop.Plain ∧ shop.Closed :=
  ⟨OpenApiDocument.plain_of_plain? (by decide), OpenApiDocument.closed_of_closed? (by decide)⟩

theorem warehouse_plain_closed : warehouse.Plain ∧ warehouse.Closed :=
  ⟨OpenApiDocument.plain_of_plain? (by decide), OpenApiDocument.closed_of_closed? (by decide)⟩

theorem merge_spec_shop : ∃ merged, mergeOpenApiDocuments shop [warehouse] = some merged ∧
    Extends shop merged ∧
    (∃ renames, ∀ done s rest, componentSections = done ++ s :: rest →
      ∃ m, done.foldlM mergeComponentSection (.start shop warehouse) = some m ∧
        SectionOutcome m warehouse merged renames s) ∧
    merged.Closed := by
  obtain ⟨merged, hmerge, hextends, houtcome, hclosed⟩ := merge_spec shop_plain_closed
    (List.forall_mem_singleton.mpr warehouse_plain_closed)
  obtain ⟨sofar, renames, hsofar, hsections⟩ := houtcome [] warehouse [] rfl
  obtain rfl : shop = sofar := Option.some.inj hsofar
  exact ⟨merged, hmerge, hextends, ⟨renames, hsections⟩, hclosed⟩

end BankPlatform.OpenApi
