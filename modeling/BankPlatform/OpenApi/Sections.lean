import BankPlatform.OpenApi.Merge

/-!
# Merging the sections of an extra document

While the sections of an extra are merged one after the other, the extra is the original with its
references renamed by what was done so far, and so are the components that were copied.

Whether a component is kept out because an equal one is there does not depend on the renames. Had
one of its references been renamed, it would not be equal to a component of a document in which all
references resolve.

## Main definitions

* `Kept` — a component of the extra that is left out.
* `Passed` — the state after some sections.

## Main results

* `Passed.mergeSections` — it holds after the sections that were merged.
-/

namespace BankPlatform.OpenApi

open Library

/-- The place of a section in the order of merging. -/
def ComponentSection.rank : ComponentSection → ℕ
  | schemas => 0
  | responses => 1
  | parameters => 2
  | securitySchemes => 3

/-- A component of the extra is left out for an equal one, and so are those of earlier sections that
it refers to. -/
inductive Kept (merged extra : OpenApiDocument) : ComponentSection → String → Prop where
  | intro {s : ComponentSection} {name : String} {t j : Json} :
      merged.component? s name = some t → extra.component? s name = some j →
      deepEqual t j = true →
      (∀ (s' : ComponentSection) (name' : String), s'.rank < s.rank → j.HasRef (s'.ref name') →
        Kept merged extra s' name') →
      Kept merged extra s name

/-! ## Names and references after renames -/

abbrev SectionRenames := ComponentSection → JsMap String String

def SectionRenames.final (renames : SectionRenames) (s : ComponentSection) (name : String) :
    String := ((renames s).get? name).getD name

/-- The references of the extra after the renames. -/
def SectionRenames.rename (renames : SectionRenames) (r : String) : String :=
  renameTo renames.final r

theorem SectionRenames.final_of_none {renames : SectionRenames} {s : ComponentSection}
    {name : String} (h : (renames s).get? name = none) : renames.final s name = name := by
  rw [final, h, Option.getD_none]

theorem SectionRenames.final_of_some {renames : SectionRenames} {s : ComponentSection}
    {name c : String} (h : (renames s).get? name = some c) : renames.final s name = c := by
  rw [final, h, Option.getD_some]

@[simp] theorem SectionRenames.rename_ref (renames : SectionRenames) (s : ComponentSection)
    (name : String) : renames.rename (s.ref name) = s.ref (renames.final s name) :=
  renameTo_ref _ _ _

/-- A reference is left as it is if its component is not renamed. -/
theorem SectionRenames.rename_eq_self {renames : SectionRenames} {r : String}
    (h : ∀ (s : ComponentSection) (name : String), r = s.ref name →
      (renames s).get? name = none) : renames.rename r = r := by
  cases htarget : target? r with
  | none => rw [rename, renameTo, htarget]
  | some target =>
    obtain ⟨s, name⟩ := target
    have hr := target?_eq_some_iff.mp htarget
    have hfinal := final_of_none (h s name hr)
    rw [hr, rename_ref, hfinal]

/-- The renames of one more section, after those so far. -/
theorem renameRef_rename {renames : SectionRenames} {s : ComponentSection}
    (hs : renames s = Table.empty) {rs : JsMap String String}
    (hrs : ∀ name c, rs.get? name = some c → c ≠ "") :
    renameRef s rs ∘ renames.rename = SectionRenames.rename (Function.update renames s rs) := by
  have hname : ∀ (s' : ComponentSection) (name : String),
      s.name? (s'.ref name) = if s' = s then some name else none := by
    intro s' name
    split
    · next heq => exact ComponentSection.name?_eq_some_iff.mpr (by rw [heq])
    · next hne =>
      refine Option.eq_none_iff_forall_ne_some.mpr fun name' h => hne ?_
      exact (ComponentSection.ref_inj.mp (ComponentSection.name?_eq_some_iff.mp h)).1
  funext r
  rw [Function.comp_apply]
  cases htarget : target? r with
  | none =>
    have hnone : s.name? r = none := by
      refine Option.eq_none_iff_forall_ne_some.mpr fun name h => ?_
      rw [ComponentSection.name?_eq_some_iff.mp h, target?_ref] at htarget
      cases htarget
    rw [SectionRenames.rename, SectionRenames.rename, renameTo, renameTo, htarget, renameRef, hnone]
  | some target =>
    obtain ⟨s', name⟩ := target
    obtain rfl := target?_eq_some_iff.mp htarget
    rw [SectionRenames.rename_ref, SectionRenames.rename_ref, renameRef, hname]
    by_cases heq : s' = s
    · subst heq
      have hold : renames.final s' name = name :=
        SectionRenames.final_of_none (by rw [hs]; rfl)
      rw [if_pos rfl, hold, SectionRenames.final, Function.update_self]
      cases hget : rs.get? name with
      | none => simp [hget]
      | some c => simp [hget, hrs name c hget]
    · rw [if_neg heq, SectionRenames.final, SectionRenames.final, Function.update_of_ne heq]

/-! ## The state after some sections -/

section State

variable (merged extra : OpenApiDocument) (renames : SectionRenames)

/-- The extra is the original with its references renamed. -/
structure Rewritten (extraDoc : OpenApiDocument) : Prop where
  pathItem : ∀ path, extraDoc.pathItem? path =
    (extra.pathItem? path).map (Json.renameRefs renames.rename)
  component : ∀ s name, extraDoc.component? s name =
    (extra.component? s name).map (Json.renameRefs renames.rename)

/-- What merging a section did to it. -/
structure SectionMerged (s : ComponentSection) (section' : JsRecord Entry) : Prop where
  fresh : ∀ name c, (renames s).get? name = some c → (extra.component? s name).isSome ∧
    merged.component? s c = none ∧ extra.component? s c = none ∧ c ∉ JsRecord.inherited
  injective : ∀ name name' c, (renames s).get? name = some c → (renames s).get? name' = some c →
    name = name'
  kept : ∀ name, Kept merged extra s name ↔ (merged.component? s name).isSome ∧
    (extra.component? s name).isSome ∧ (renames s).get? name = none
  old : ∀ name j, merged.component? s name = some j → section'.get? name = some ⟨j, false⟩
  copied : ∀ name j, extra.component? s name = some j → ¬ Kept merged extra s name →
    (section'.get? (renames.final s name)) = some ⟨Json.renameRefs renames.rename j, true⟩
  only : ∀ name e, section'.get? name = some e →
    (∃ j, merged.component? s name = some j ∧ e = ⟨j, false⟩) ∨
    ∃ name' j, extra.component? s name' = some j ∧ ¬ Kept merged extra s name' ∧
      name = renames.final s name' ∧ e = ⟨Json.renameRefs renames.rename j, true⟩

/-- The sections `done` are merged, the others have what they had. -/
structure Between (done : List ComponentSection) (m : Merging) : Prop where
  rewritten : Rewritten extra renames m.extraDoc
  passed : ∀ s ∈ done, SectionMerged merged extra renames s (m.targetSection s)
  pending : ∀ s ∉ done, ∀ name, (m.targetSection s).get? name =
    (merged.component? s name).map fun j => ⟨j, false⟩

/-- The state after the sections `done`. -/
structure Passed (done : List ComponentSection) (m : Merging) : Prop extends
    Between merged extra renames done m where
  noRenames : ∀ s ∉ done, renames s = Table.empty

end State

variable {merged extra : OpenApiDocument} {renames : SectionRenames}

theorem Passed.start (h : extra.Plain) :
    Passed merged extra (fun _ => Table.empty) [] (.start merged extra) where
  rewritten := by
    have hid : SectionRenames.rename (fun _ => Table.empty) = id :=
      funext fun r => SectionRenames.rename_eq_self fun _ _ _ => rfl
    have hplain : ∀ j : Json, j.Plain →
        Json.renameRefs (SectionRenames.rename fun _ => Table.empty) j = j := fun j hj =>
      Json.renameRefs_id hj fun r _ => congrFun hid r
    constructor
    · intro path
      cases hitem : extra.pathItem? path with
      | none => exact hitem
      | some j =>
        rw [Option.map_some, hplain j (h.pathItem path j hitem)]
        exact hitem
    · intro s name
      cases hj : extra.component? s name with
      | none => exact hj
      | some j =>
        rw [Option.map_some, hplain j (h.component s name j hj)]
        exact hj
  passed := by simp
  noRenames := fun _ _ => rfl
  pending := by
    intro s _ name
    simp only [Merging.targetSection, Merging.start, OpenApiDocument.component?]
    cases merged.section? s with
    | none => rfl
    | some t => exact JsMap.get?_mapValues (fun j => Entry.mk j false) t name

/-! ### Rewriting references -/

theorem get?_targetSection_rewriteRefs (m : Merging) (s s' : ComponentSection)
    (rs : JsMap String String) (name : String) :
    ((m.rewriteRefs s rs).targetSection s').get? name =
      ((m.targetSection s').get? name).map (Entry.mapRefs (renameRef s rs)) := by
  simp only [Merging.targetSection, Merging.rewriteRefs]
  cases m.target s' with
  | none => rfl
  | some t => exact JsMap.get?_mapValues _ _ _

theorem section?_mapRefs (g : String → String) (doc : OpenApiDocument) (s : ComponentSection) :
    (doc.mapRefs g).section? s = (doc.section? s).map (JsMap.mapValues (Json.renameRefs g)) := by
  simp only [OpenApiDocument.section?, OpenApiDocument.mapRefs]
  cases doc.components with
  | none => rfl
  | some components => rfl

theorem component?_mapRefs (g : String → String) (doc : OpenApiDocument) (s : ComponentSection)
    (name : String) :
    (doc.mapRefs g).component? s name = (doc.component? s name).map (Json.renameRefs g) := by
  rw [OpenApiDocument.component?, OpenApiDocument.component?, section?_mapRefs]
  cases doc.section? s with
  | none => rfl
  | some t => exact JsMap.get?_mapValues _ _ _

theorem pathItem?_mapRefs (g : String → String) (doc : OpenApiDocument) (path : String) :
    (doc.mapRefs g).pathItem? path = (doc.pathItem? path).map (Json.renameRefs g) := by
  simp only [OpenApiDocument.pathItem?, OpenApiDocument.mapRefs]
  cases doc.paths with
  | none => rfl
  | some t => exact JsMap.get?_mapValues _ _ _

/-- A component that was renamed before is renamed again. -/
theorem renameRefs_update {s : ComponentSection} (hs : renames s = Table.empty)
    {rs : JsMap String String} (hrs : ∀ name c, rs.get? name = some c → c ≠ "") {j : Json}
    (hj : j.Plain) : Json.renameRefs (renameRef s rs) (Json.renameRefs renames.rename j) =
      Json.renameRefs (SectionRenames.rename (Function.update renames s rs)) j := by
  rw [Json.renameRefs_renameRefs _ _ hj, renameRef_rename hs hrs]

theorem Rewritten.rewriteRefs {extraDoc : OpenApiDocument} (h : Rewritten extra renames extraDoc)
    (hplain : extra.Plain) {s : ComponentSection} (hs : renames s = Table.empty)
    {rs : JsMap String String} (hrs : ∀ name c, rs.get? name = some c → c ≠ "") :
    Rewritten extra (Function.update renames s rs) (extraDoc.mapRefs (renameRef s rs)) where
  pathItem path := by
    rw [pathItem?_mapRefs, h.pathItem, Option.map_map]
    cases hj : extra.pathItem? path with
    | none => rfl
    | some j => exact congrArg some (renameRefs_update hs hrs (hplain.pathItem path j hj))
  component s' name := by
    rw [component?_mapRefs, h.component, Option.map_map]
    cases hj : extra.component? s' name with
    | none => rfl
    | some j => exact congrArg some (renameRefs_update hs hrs (hplain.component s' name j hj))

/-- A section that was merged stays so while another's references are rewritten. -/
theorem SectionMerged.rewriteRefs {s s' : ComponentSection} {section' section'' : JsRecord Entry}
    (h : SectionMerged merged extra renames s' section') (hplain : extra.Plain) (hne : s' ≠ s)
    (hs : renames s = Table.empty) {rs : JsMap String String}
    (hrs : ∀ name c, rs.get? name = some c → c ≠ "")
    (hget : ∀ name, section''.get? name =
      (section'.get? name).map (Entry.mapRefs (renameRef s rs))) :
    SectionMerged merged extra (Function.update renames s rs) s' section'' := by
  have hself : Function.update renames s rs s' = renames s' := Function.update_of_ne hne _ _
  have hfinal : SectionRenames.final (Function.update renames s rs) s' = renames.final s' := by
    funext name
    rw [SectionRenames.final, SectionRenames.final, hself]
  have hentry : ∀ name j, extra.component? s' name = some j →
      Entry.mapRefs (renameRef s rs) ⟨Json.renameRefs renames.rename j, true⟩ =
        ⟨Json.renameRefs (SectionRenames.rename (Function.update renames s rs)) j, true⟩ := by
    intro name j hj
    rw [← renameRefs_update hs hrs (hplain.component s' name j hj)]
    rfl
  constructor
  · rw [hself]
    exact h.fresh
  · rw [hself]
    exact h.injective
  · rw [hself]
    exact h.kept
  · intro name j hj
    rw [hget, h.old name j hj]
    rfl
  · intro name j hj hkept
    rw [hfinal, hget, h.copied name j hj hkept, Option.map_some, hentry name j hj]
  · intro name e he
    rw [hget] at he
    obtain ⟨e', he', rfl⟩ := Option.map_eq_some_iff.mp he
    rcases h.only name e' he' with ⟨j, hj, rfl⟩ | ⟨name', j, hj, hkept, hname, rfl⟩
    · exact .inl ⟨j, hj, rfl⟩
    · exact .inr ⟨name', j, hj, hkept, hfinal ▸ hname, hentry name' j hj⟩

/-! ### Merging a section -/

/-- A component that is kept out is equal, as rewritten so far, to the one that has its name. -/
theorem Passed.kept_iff {done : List ComponentSection} {m : Merging}
    (h : Passed merged extra renames done m) (hm : merged.Plain) (hmclosed : merged.Closed)
    (he : extra.Plain) (heclosed : extra.Closed) {s : ComponentSection}
    (hdone : ∀ s', s' ∈ done ↔ s'.rank < s.rank) {name : String} {j : Json}
    (hj : extra.component? s name = some j) :
    Kept merged extra s name ↔ ∃ t, merged.component? s name = some t ∧
      deepEqual t (Json.renameRefs renames.rename j) = true := by
  have hplain := he.component s name j hj
  have hid : (∀ (s' : ComponentSection) (name' : String), j.HasRef (s'.ref name') →
      (renames s').get? name' = none) → Json.renameRefs renames.rename j = j := by
    intro hnone
    refine Json.renameRefs_id hplain fun r hr => SectionRenames.rename_eq_self ?_
    rintro s' name' rfl
    exact hnone s' name' hr
  constructor
  · rintro ⟨ht, hj', hequal, hrefs⟩
    obtain rfl := Option.some.inj (hj'.symm.trans hj)
    refine ⟨_, ht, (hid fun s' name' hr => ?_).symm ▸ hequal⟩
    by_cases hs' : s' ∈ done
    · exact (((h.passed s' hs').kept name').mp (hrefs s' name' ((hdone s').mp hs') hr)).2.2
    · rw [h.noRenames s' hs']
      rfl
  · rintro ⟨t, ht, hequal⟩
    have htplain := hm.component s name t ht
    have hsame := same_of_deepEqual htplain (hplain.renameRefs _) hequal
    -- a new name is not in use, and the equal component has no reference to it
    have hnone : ∀ (s' : ComponentSection) (name' : String), j.HasRef (s'.ref name') →
        (renames s').get? name' = none := by
      intro s' name' hr
      by_cases hs' : s' ∈ done
      · cases hc : (renames s').get? name' with
        | none => rfl
        | some c =>
          have hfree := ((h.passed s' hs').fresh name' c hc).2.1
          have hnew : (Json.renameRefs renames.rename j).HasRef (s'.ref c) :=
            (Json.hasRef_renameRefs_iff hplain).mpr
              ⟨_, hr, by rw [SectionRenames.rename_ref, SectionRenames.final_of_some hc]⟩
          have hused := hmclosed s' c (.component ht (hnew.same (hplain.renameRefs _) htplain
            hsame.symm))
          rw [hfree] at hused
          cases hused
      · rw [h.noRenames s' hs']
        rfl
    rw [hid hnone] at hequal hsame
    refine ⟨ht, hj, hequal, fun s' name' hrank hr => ?_⟩
    refine ((h.passed s' ((hdone s').mpr hrank)).kept name').mpr ⟨?_, ?_, hnone s' name' hr⟩
    · exact hmclosed s' name' (.component ht (hr.same hplain htplain hsame.symm))
    · exact heclosed s' name' (.component hj hr)

theorem conflicts_eq_true_iff {t : JsRecord Entry} {name : String} (hname : name ≠ "__proto__")
    {j : Json} : conflicts t name j = true ↔ JsRecord.has t name = true ∧
      ∀ e, t.get? name = some e → deepEqual e.json j = false := by
  rw [conflicts, Bool.and_eq_true]
  cases t.get? name with
  | none => simp [prop?, hname]
  | some e => simp [prop?]

/-- What is known of a section when its renames were chosen: they are those of the conflicts. -/
structure RenamesChosen (merged extra : OpenApiDocument) (renames : SectionRenames)
    (s : ComponentSection) (t : JsRecord Entry) (es : ComponentMap) (rs : JsMap String String) :
    Prop where
  chosen : Renames t es rs
  plain : extra.Plain
  target : ∀ name, t.get? name = (merged.component? s name).map fun j => ⟨j, false⟩
  source : ∀ name, es.get? name =
    (extra.component? s name).map (Json.renameRefs renames.rename)
  kept : ∀ name j, extra.component? s name = some j → (Kept merged extra s name ↔
    ∃ t, merged.component? s name = some t ∧ deepEqual t (Json.renameRefs renames.rename j) = true)

namespace RenamesChosen

variable {s : ComponentSection} {t : JsRecord Entry} {es : ComponentMap}
  {rs : JsMap String String}

/-- A component is renamed to a name that nobody has. -/
theorem free (h : RenamesChosen merged extra renames s t es rs) {name c : String}
    (hc : rs.get? name = some c) : (extra.component? s name).isSome ∧
      merged.component? s c = none ∧ extra.component? s c = none ∧ c ∉ JsRecord.inherited := by
  obtain ⟨j, hj, -⟩ := (h.chosen.renamed name).mp ⟨c, hc⟩
  obtain ⟨ht, hs⟩ := taken_eq_false_iff.mp (h.chosen.fresh name c hc)
  rw [JsRecord.has, Bool.or_eq_false_iff, h.target] at ht
  rw [JsRecord.has, Bool.or_eq_false_iff, h.source] at hs
  rw [h.source] at hj
  refine ⟨?_, by simpa using ht.1, by simpa using hs.1, by simpa using ht.2⟩
  cases hcomponent : extra.component? s name with
  | none =>
    rw [hcomponent] at hj
    cases hj
  | some j => rfl

/-- A component that is not renamed is kept out, or its name is free. -/
theorem kept_of_none (h : RenamesChosen merged extra renames s t es rs) {name : String} {j : Json}
    (hj : extra.component? s name = some j) (hnone : rs.get? name = none)
    (hhas : JsRecord.has t name = true) : Kept merged extra s name := by
  have hno : ¬ conflicts t name (Json.renameRefs renames.rename j) = true := by
    intro hyes
    obtain ⟨c, hc⟩ := (h.chosen.renamed name).mpr ⟨_, by rw [h.source, hj, Option.map_some], hyes⟩
    rw [hc] at hnone
    cases hnone
  rw [conflicts_eq_true_iff (h.plain.name s name j hj)] at hno
  rw [h.kept name j hj]
  cases hcomponent : merged.component? s name with
  | none => exact (hno ⟨hhas, fun e he => by rw [h.target, hcomponent] at he; cases he⟩).elim
  | some x =>
    by_contra hequal
    refine hno ⟨hhas, fun e he => ?_⟩
    rw [h.target, hcomponent] at he
    obtain rfl := Option.some.inj he
    exact eq_false_of_ne_true fun heq => hequal ⟨x, rfl, heq⟩

/-- A component that is kept out is not renamed. -/
theorem none_of_kept (h : RenamesChosen merged extra renames s t es rs) {name : String}
    (hk : Kept merged extra s name) : rs.get? name = none := by
  obtain ⟨ht, hj, -, -⟩ := id hk
  obtain ⟨x, hx, hequal⟩ := (h.kept name _ hj).mp hk
  cases hc : rs.get? name with
  | none => rfl
  | some c =>
    obtain ⟨j', hj', hyes⟩ := (h.chosen.renamed name).mp ⟨c, hc⟩
    rw [h.source, hj] at hj'
    obtain rfl := Option.some.inj hj'
    have hdiffer := ((conflicts_eq_true_iff (h.plain.name s name _ hj)).mp hyes).2 ⟨x, false⟩
      (by rw [h.target, hx, Option.map_some])
    rw [hequal] at hdiffer
    cases hdiffer

/-- The components of the extra have different names in the end. -/
theorem final_inj (h : RenamesChosen merged extra renames s t es rs) {renames' : SectionRenames}
    (hself : renames' s = rs) {name name' : String} (hj : (extra.component? s name).isSome)
    (hj' : (extra.component? s name').isSome)
    (heq : renames'.final s name = renames'.final s name') : name = name' := by
  subst hself
  cases hc : (renames' s).get? name with
  | none =>
    rw [SectionRenames.final_of_none hc] at heq
    cases hc' : (renames' s).get? name' with
    | none => rwa [SectionRenames.final_of_none hc'] at heq
    | some c' =>
      rw [SectionRenames.final_of_some hc'] at heq
      rw [heq, (h.free hc').2.2.1] at hj
      cases hj
  | some c =>
    rw [SectionRenames.final_of_some hc] at heq
    cases hc' : (renames' s).get? name' with
    | none =>
      rw [SectionRenames.final_of_none hc'] at heq
      rw [← heq, (h.free hc).2.2.1] at hj'
      cases hj'
    | some c' =>
      rw [SectionRenames.final_of_some hc'] at heq
      exact h.chosen.injective (heq ▸ hc) hc'

end RenamesChosen

/-- Where renames are those of the conflicts, assigning the components that have a free name merges
the section. -/
theorem RenamesChosen.sectionMerged {renames' : SectionRenames} {s : ComponentSection}
    {t t' : JsRecord Entry} {es es' : ComponentMap} {rs : JsMap String String}
    (h : RenamesChosen merged extra renames s t es rs) (hself : renames' s = rs)
    (hm' : ∀ name, t'.get? name = (merged.component? s name).map fun j => ⟨j, false⟩)
    (hes' : ∀ name, es'.get? name =
      (extra.component? s name).map (Json.renameRefs renames'.rename)) :
    SectionMerged merged extra renames' s
      (JsRecord.assignAllNew (fun e => (rs.get? e.1).getD e.1) (fun e => ⟨e.2, true⟩)
        t' es'.rows) := by
  have hhas : ∀ name, JsRecord.has t' name = JsRecord.has t name := fun name => by
    rw [JsRecord.has, hm', ← h.target, ← JsRecord.has]
  have hrow : ∀ name x, (name, x) ∈ es'.rows ↔ ∃ j, extra.component? s name = some j ∧
      Json.renameRefs renames'.rename j = x := by
    intro name x
    rw [← JsMap.get?_eq_some_iff, hes', Option.map_eq_some_iff]
  have hnodup : (es'.rows.map fun e => (rs.get? e.1).getD e.1).Nodup := by
    refine (List.Nodup.of_map _ es'.nodup).map_on ?_
    rintro ⟨name, x⟩ hx ⟨name', x'⟩ hx' heq
    obtain ⟨j, hj, rfl⟩ := (hrow name x).mp hx
    obtain ⟨j', hj', rfl⟩ := (hrow name' x').mp hx'
    subst hself
    obtain rfl := h.final_inj rfl (by rw [hj]; rfl) (by rw [hj']; rfl) heq
    rw [Option.some.inj (hj.symm.trans hj')]
  subst hself
  refine ⟨fun name c => h.free, fun name name' c => h.chosen.injective,
    fun name => ⟨fun hk => ?_, ?_⟩, ?_, ?_, ?_⟩
  · have hnone := h.none_of_kept hk
    obtain ⟨ht, hj, -, -⟩ := hk
    exact ⟨by rw [ht]; rfl, by rw [hj]; rfl, hnone⟩
  · rintro ⟨ht, hj, hnone⟩
    obtain ⟨x, hx⟩ := Option.isSome_iff_exists.mp ht
    obtain ⟨j, hj⟩ := Option.isSome_iff_exists.mp hj
    exact h.kept_of_none hj hnone
      (JsRecord.has_iff.mpr (.inl ⟨_, by rw [h.target, hx, Option.map_some]⟩))
  · intro name j hj
    exact JsRecord.get?_assignAllNew_of_some (by rw [hm', hj, Option.map_some])
  · intro name j hj hk
    have hnew : JsRecord.has t' (renames'.final s name) = false := by
      cases hc : (renames' s).get? name with
      | none =>
        rw [SectionRenames.final_of_none hc, hhas]
        exact eq_false_of_ne_true fun hused => hk (h.kept_of_none hj hc hused)
      | some c =>
        obtain ⟨-, hmerged, -, hinherited⟩ := h.free hc
        rw [SectionRenames.final_of_some hc, JsRecord.has, hm', hmerged]
        simpa using hinherited
    exact JsRecord.get?_assignAllNew hnodup ((hrow name _).mpr ⟨j, hj, rfl⟩) hnew
  · intro name e he'
    cases hcomponent : merged.component? s name with
    | some j =>
      have hold : t'.get? name = some ⟨j, false⟩ := by rw [hm', hcomponent, Option.map_some]
      rw [JsRecord.get?_assignAllNew_of_some hold] at he'
      exact .inl ⟨j, rfl, (Option.some.inj he').symm⟩
    | none =>
      have hnone : t'.get? name = none := by rw [hm', hcomponent, Option.map_none]
      obtain ⟨⟨name', x⟩, hmem, rfl, rfl⟩ := JsRecord.get?_assignAllNew_new he' hnone
      obtain ⟨j, hj, rfl⟩ := (hrow name' x).mp hmem
      refine .inr ⟨name', j, hj, fun hk => ?_, rfl, rfl⟩
      dsimp only at hcomponent
      rw [h.none_of_kept hk, Option.getD_none] at hcomponent
      obtain ⟨ht, -⟩ := hk
      rw [hcomponent] at ht
      cases ht

/-- References are rewritten if any are to be. -/
theorem Passed.rewriteRefs {done : List ComponentSection} {m : Merging}
    (h : Passed merged extra renames done m) (he : extra.Plain) {s : ComponentSection}
    (hs : s ∉ done) {rs : JsMap String String} (hrs : ∀ name c, rs.get? name = some c → c ≠ "") :
    Between merged extra (Function.update renames s rs) done
      (if 0 < rs.rows.length then m.rewriteRefs s rs else m) := by
  have hempty := h.noRenames s hs
  split
  · refine ⟨h.rewritten.rewriteRefs he hempty hrs, fun s' hs' => ?_, fun s' hs' name => ?_⟩
    · have hne : s' ≠ s := fun heq => hs (heq ▸ hs')
      exact (h.passed s' hs').rewriteRefs he hne hempty hrs
        (get?_targetSection_rewriteRefs m s s' rs)
    · rw [get?_targetSection_rewriteRefs, h.pending s' hs', Option.map_map]
      rfl
  · next hnone =>
    have hrows : rs = renames s := by
      rw [hempty]
      exact JsMap.ext (List.length_eq_zero_iff.mp (by omega))
    rw [hrows, Function.update_eq_self]
    exact h.toBetween

/-- A document with its references renamed has the sections it had. -/
theorem Rewritten.get?_section {extraDoc : OpenApiDocument} (h : Rewritten extra renames extraDoc)
    {s : ComponentSection} {es : ComponentMap} (hes : extraDoc.section? s = some es)
    (name : String) :
    es.get? name = (extra.component? s name).map (Json.renameRefs renames.rename) := by
  rw [← h.component, OpenApiDocument.component?, hes, Option.bind_some]

theorem targetSection_copySection (m : Merging) (s s' : ComponentSection) (es : ComponentMap)
    (rs : JsMap String String) : (m.copySection s es rs).targetSection s' =
      if s' = s then JsRecord.assignAllNew (fun e => (rs.get? e.1).getD e.1)
        (fun e => ⟨e.2, true⟩) (m.targetSection s) es.rows
      else m.targetSection s' := by
  by_cases heq : s' = s
  · subst heq
    simp [Merging.targetSection, Merging.copySection]
  · simp [Merging.targetSection, Merging.copySection, heq]

/-- The extra has no component in this section. -/
theorem SectionMerged.of_none {s : ComponentSection} {t : JsRecord Entry}
    (hnone : ∀ name, extra.component? s name = none) (hempty : renames s = Table.empty)
    (htarget : ∀ name, t.get? name = (merged.component? s name).map fun j => ⟨j, false⟩) :
    SectionMerged merged extra renames s t := by
  have hnoKept : ∀ name, ¬ Kept merged extra s name := by
    rintro name ⟨-, hj, -⟩
    rw [hnone name] at hj
    cases hj
  have hnoRenames : ∀ name, (renames s).get? name = none := by
    intro name
    rw [hempty]
    rfl
  refine ⟨?_, ?_, ?_, ?_, ?_, ?_⟩
  · intro name c hc
    rw [hnoRenames name] at hc
    cases hc
  · intro name name' c hc
    rw [hnoRenames name] at hc
    cases hc
  · intro name
    simp [hnoKept name, hnone name]
  · intro name j hj
    rw [htarget, hj, Option.map_some]
  · intro name j hj
    rw [hnone name] at hj
    cases hj
  · intro name e hget
    rw [htarget] at hget
    obtain ⟨j, hj, rfl⟩ := Option.map_eq_some_iff.mp hget
    exact .inl ⟨j, hj, rfl⟩

/-- One section more is merged. -/
theorem Passed.mergeSection {done : List ComponentSection} {m : Merging}
    (h : Passed merged extra renames done m) (hm : merged.Plain) (hmclosed : merged.Closed)
    (he : extra.Plain) (heclosed : extra.Closed) {s : ComponentSection} (hs : s ∉ done)
    (hdone : ∀ s', s' ∈ done ↔ s'.rank < s.rank) :
    ∃ m' rs, mergeComponentSection m s = some m' ∧
      Passed merged extra (Function.update renames s rs) (done ++ [s]) m' ∧
      ∀ es, m.extraDoc.section? s = some es → renamesFor (m.targetSection s) es = some rs := by
  cases hes : m.extraDoc.section? s with
  | none =>
    have hnone : ∀ name, extra.component? s name = none := by
      intro name
      have hcomponent := h.rewritten.component s name
      rw [OpenApiDocument.component?, hes, Option.bind_none] at hcomponent
      simpa using hcomponent.symm
    have hmerged : SectionMerged merged extra renames s (m.targetSection s) :=
      .of_none hnone (h.noRenames s hs) (h.pending s hs)
    refine ⟨m, renames s, by rw [mergeComponentSection, hes], ?_, by rintro es ⟨⟩⟩
    rw [Function.update_eq_self]
    refine ⟨⟨h.rewritten, fun s' hs' => ?_, fun s' hs' => ?_⟩, fun s' hs' => ?_⟩
    · rcases List.mem_append.mp hs' with hs' | hs'
      · exact h.passed s' hs'
      · obtain rfl := List.mem_singleton.mp hs'
        exact hmerged
    · exact h.pending s' fun hmem => hs' (List.mem_append_left _ hmem)
    · exact h.noRenames s' fun hmem => hs' (List.mem_append_left _ hmem)
  | some es =>
    obtain ⟨rs, hrs, hspec⟩ := renamesFor_spec (m.targetSection s) es
    have hnonempty : ∀ name c, rs.get? name = some c → c ≠ "" := fun _ _ => hspec.ne_empty
    have hbetween := h.rewriteRefs he hs hnonempty
    generalize hm₁ : (if 0 < rs.rows.length then m.rewriteRefs s rs else m) = m₁ at hbetween
    obtain ⟨es', hes'⟩ : ∃ es', m₁.extraDoc.section? s = some es' := by
      rw [← hm₁]
      split
      · exact ⟨_, by rw [Merging.rewriteRefs, section?_mapRefs, hes, Option.map_some]⟩
      · exact ⟨es, hes⟩
    have hmerged : SectionMerged merged extra (Function.update renames s rs) s
        (JsRecord.assignAllNew (fun e => (rs.get? e.1).getD e.1) (fun e => ⟨e.2, true⟩)
          (m₁.targetSection s) es'.rows) :=
      RenamesChosen.sectionMerged
        ⟨hspec, he, h.pending s hs, h.rewritten.get?_section hes,
          fun name j hj => h.kept_iff hm hmclosed he heclosed hdone hj⟩
        (Function.update_self s rs renames) (hbetween.pending s hs)
        (hbetween.rewritten.get?_section hes')
    refine ⟨m₁.copySection s es' rs, rs, ?_, ⟨⟨hbetween.rewritten, fun s' hs' => ?_,
      fun s' hs' => ?_⟩, fun s' hs' => ?_⟩, ?_⟩
    · simp [mergeComponentSection, hes, hrs, hm₁, hes']
    · rw [targetSection_copySection]
      rcases List.mem_append.mp hs' with hs' | hs'
      · have hne : s' ≠ s := fun heq => hs (heq ▸ hs')
        rw [if_neg hne]
        exact hbetween.passed s' hs'
      · obtain rfl := List.mem_singleton.mp hs'
        rw [if_pos rfl]
        exact hmerged
    · obtain ⟨hs', hne⟩ : s' ∉ done ∧ s' ≠ s := by simpa using hs'
      rw [targetSection_copySection, if_neg hne]
      exact hbetween.pending s' hs'
    · obtain ⟨hs', hne⟩ : s' ∉ done ∧ s' ≠ s := by simpa using hs'
      rw [Function.update_of_ne hne]
      exact h.noRenames s' hs'
    · rintro es'' ⟨⟩
      exact hrs

/-! ### Merging all sections -/

theorem mem_done_iff {done rest : List ComponentSection} {s : ComponentSection}
    (h : componentSections = done ++ s :: rest) (s' : ComponentSection) :
    s' ∈ done ↔ s'.rank < s.rank := by
  have hsorted : componentSections.Pairwise fun a b => a.rank < b.rank := by decide
  rw [h, List.pairwise_append, List.pairwise_cons] at hsorted
  obtain ⟨-, ⟨hrest, -⟩, hdone⟩ := hsorted
  constructor
  · exact fun hs' => hdone s' hs' s List.mem_cons_self
  · intro hlt
    have hmem := s'.mem_componentSections
    rw [h, List.mem_append, List.mem_cons] at hmem
    rcases hmem with hs' | rfl | hs'
    · exact hs'
    · omega
    · have hgt := hrest s' hs'
      omega

theorem notMem_rest {done rest : List ComponentSection} {s : ComponentSection}
    (h : componentSections = done ++ s :: rest) : s ∉ rest := by
  have hnodup : componentSections.Nodup := by decide
  rw [h] at hnodup
  exact (List.nodup_cons.mp (List.nodup_append.mp hnodup).2.1).1

/-- The renames of a section are those that the code finds in the state before it. -/
def ChosenAt (merged extra : OpenApiDocument) (s : ComponentSection) (rs : JsMap String String) :
    Prop :=
  ∀ done rest, componentSections = done ++ s :: rest →
    ∃ m before, done.foldlM mergeComponentSection (.start merged extra) = some m ∧
      Passed merged extra before done m ∧
      ∀ es, m.extraDoc.section? s = some es → renamesFor (m.targetSection s) es = some rs

/-- Merging sections one after the other ends, and leaves the state described. -/
theorem mergeSections_spec (hm : merged.Plain) (hmclosed : merged.Closed) (he : extra.Plain)
    (heclosed : extra.Closed) {done rest : List ComponentSection}
    (hsplit : componentSections = done ++ rest) :
    ∃ m renames, done.foldlM mergeComponentSection (.start merged extra) = some m ∧
      Passed merged extra renames done m ∧
      ∀ s ∈ done, ChosenAt merged extra s (renames s) := by
  induction done using List.reverseRecOn generalizing rest with
  | nil => exact ⟨_, _, rfl, .start he, by simp⟩
  | append_singleton done s ih =>
    rw [List.append_assoc] at hsplit
    obtain ⟨m, renames, hfold, hpassed, hchosen⟩ := ih hsplit
    have hdone := mem_done_iff hsplit
    have hs : s ∉ done := fun hmem => by
      have hlt := (hdone s).mp hmem
      omega
    obtain ⟨m', rs, hmerge, hpassed', hrs⟩ :=
      hpassed.mergeSection hm hmclosed he heclosed hs hdone
    refine ⟨m', Function.update renames s rs, ?_, hpassed', fun s' hs' => ?_⟩
    · rw [List.foldlM_append, hfold]
      simpa using hmerge
    · rcases List.mem_append.mp hs' with hs' | hs'
      · have hne : s' ≠ s := fun heq => hs (heq ▸ hs')
        rw [Function.update_of_ne hne]
        exact hchosen s' hs'
      · obtain rfl := List.mem_singleton.mp hs'
        rw [Function.update_self]
        intro done' rest' hsplit'
        -- a section occurs once, so the sections before it are the same
        have hsame : done' = done := by
          have hsplit'' := hsplit.symm.trans hsplit'
          rw [List.singleton_append] at hsplit''
          exact (eq_of_append_cons_eq (notMem_rest hsplit) (notMem_rest hsplit') hsplit'').1.symm
        subst hsame
        exact ⟨m, renames, hfold, hpassed, hrs⟩

end BankPlatform.OpenApi
