import BankPlatform.OpenApi.Extras

/-!
# What a merged document means

A component of an extra that reads like the one in use under its name is left out. It refers by name
to others, which may mean something else in the merged document than in the extra. So a path item
that is copied keeps its meaning exactly when the components it reaches that were left out mean the
same in both.

## Main results

* `merge_meaning_iff` — when a copied path item keeps its meaning.
-/

namespace BankPlatform.OpenApi

open Library

/-- The references to components of the extra that are copied. -/
def IsCopied (sofar extra : OpenApiDocument) (r : String) : Prop :=
  ∃ s name, r = ComponentSection.ref s name ∧ (extra.component? s name).isSome ∧
    ¬ Kept sofar extra s name

/-- A component that is left out, reached from a path item through components that are copied. -/
structure ReachesKept (sofar extra : OpenApiDocument) (item : Json) (s : ComponentSection)
    (name : String) : Prop where
  reached : Json.Reaches extra.resolve (IsCopied sofar extra) item (s.ref name)
  kept : Kept sofar extra s name

variable {sofar extra next merged : OpenApiDocument} {renames : SectionRenames}

/-- Components are copied with their references renamed. -/
theorem ExtraMerged.renaming (h : ExtraMerged sofar extra next renames) (he : extra.Plain)
    (hext : Extends next merged) :
    Json.Renaming extra.resolve merged.resolve (IsCopied sofar extra) renames.rename where
  plain r j hj := by
    obtain ⟨s, name, rfl, hcomponent⟩ := OpenApiDocument.resolve_eq_some_iff.mp hj
    exact he.component s name j hcomponent
  copies := by
    rintro _ ⟨s, name, rfl, hsome, hk⟩
    obtain ⟨j, hj⟩ := Option.isSome_iff_exists.mp hsome
    refine ⟨j, by rw [OpenApiDocument.resolve_ref, hj], ?_⟩
    rw [SectionRenames.rename_ref, OpenApiDocument.resolve_ref]
    exact hext.component _ _ _ (h.copied hj hk)

/-- The merged document means by what it had what it meant before. -/
theorem value_of_sofar (hplain : sofar.Plain) (hclosed : sofar.Closed)
    (hext : Extends sofar merged) {s : ComponentSection} {name : String}
    (hsome : (sofar.component? s name).isSome) (k : ℕ) :
    Json.value merged.resolve k (s.ref name) = Json.value sofar.resolve k (s.ref name) := by
  refine Json.value_of_extends ?_ ?_ ?_ k (.inl ?_)
  · intro r j hj
    obtain ⟨s, name, rfl, hcomponent⟩ := OpenApiDocument.resolve_eq_some_iff.mp hj
    exact hplain.component s name j hcomponent
  · intro r j hj r' hr'
    obtain ⟨s, name, rfl, hcomponent⟩ := OpenApiDocument.resolve_eq_some_iff.mp hj
    cases htarget : target? r' with
    | none =>
      right
      rw [OpenApiDocument.resolve, htarget]
    | some target =>
      obtain ⟨s', name'⟩ := target
      obtain rfl := target?_eq_some_iff.mp htarget
      left
      rw [OpenApiDocument.resolve_ref]
      exact hclosed s' name' (.component hcomponent hr')
  · intro r j hj
    obtain ⟨s, name, rfl, hcomponent⟩ := OpenApiDocument.resolve_eq_some_iff.mp hj
    rw [OpenApiDocument.resolve_ref]
    exact hext.component s name j hcomponent
  · rwa [OpenApiDocument.resolve_ref]

/-- What is reached from a path item is a component of the extra, or no component at all. -/
theorem isSome_of_reaches {path : String} {item : Json} (hitem : extra.pathItem? path = some item)
    (he : extra.Closed) {s : ComponentSection} {name : String}
    (h : Json.Reaches extra.resolve (IsCopied sofar extra) item (s.ref name)) :
    (extra.component? s name).isSome := by
  generalize hr : s.ref name = r at h
  cases h with
  | direct hr' =>
    subst hr
    exact he s name (.path hitem hr')
  | through _ _ htarget hr' =>
    subst hr
    obtain ⟨s', name', rfl, hj⟩ := OpenApiDocument.resolve_eq_some_iff.mp htarget
    exact he s name (.component hj hr')

/-- A path item of an extra that is copied means in the merged document what it means in the extra,
at all depths, if and only if every component that it reaches through copied ones and that is left
out means in the documents merged before what it means in the extra. -/
theorem merge_meaning_iff {base : OpenApiDocument} {before after : List OpenApiDocument}
    {path : String} {item : Json} (hbase : base.Plain ∧ base.Closed)
    (hextras : ∀ e ∈ before ++ extra :: after, e.Plain ∧ e.Closed)
    (hitem : extra.pathItem? path = some item) (hpath : path ∉ JsRecord.inherited)
    (hnew : ∀ e ∈ base :: before, e.pathItem? path = none) :
    ∃ sofar merged copied, mergeOpenApiDocuments base before = some sofar ∧
      mergeOpenApiDocuments base (before ++ extra :: after) = some merged ∧
      merged.pathItem? path = some copied ∧
      ((∀ k, (Json.expand merged.resolve k copied).Same (Json.expand extra.resolve k item)) ↔
        ∀ s name, ReachesKept sofar extra item s name → ∀ k,
          (Json.value sofar.resolve k (s.ref name)).Same
            (Json.value extra.resolve k (s.ref name))) := by
  obtain ⟨sofar, next, merged, renames, hmerge, hmerged, hsofar, hnext, -, hext⟩ :=
    mergeOpenApiDocuments_split hbase.1 hbase.2 hextras
  obtain ⟨heplain, heclosed⟩ := hextras extra (by simp)
  have habsent := hsofar.onlyPath path hnew
  have hcopied : merged.pathItem? path = some (Json.renameRefs renames.rename item) :=
    hext.pathItem _ _ (hnext.newPath path item habsent hpath hitem)
  refine ⟨sofar, merged, _, hmerge, hmerged, hcopied, ?_⟩
  have hkeptValue : ∀ s name, Kept sofar extra s name → ∀ k,
      Json.value merged.resolve k (renames.rename (s.ref name)) =
        Json.value sofar.resolve k (s.ref name) := by
    intro s name hk k
    rw [SectionRenames.rename_ref, hnext.final_of_kept hk]
    obtain ⟨ht, -⟩ := hk
    exact value_of_sofar hsofar.plain hsofar.closed (hnext.old.trans hext) (by rw [ht]; rfl) k
  rw [(hnext.renaming heplain hext).same_expand_iff (heplain.pathItem path item hitem)]
  constructor
  · intro h s name hreaches k
    rw [← hkeptValue s name hreaches.kept k]
    refine h _ hreaches.reached ?_ k
    rintro ⟨s', name', href, -, hk⟩
    obtain ⟨rfl, rfl⟩ := ComponentSection.ref_inj.mp href
    exact hk hreaches.kept
  · intro h r hreaches hcopied k
    cases htarget : target? r with
    | some target =>
      obtain ⟨s, name⟩ := target
      obtain rfl := target?_eq_some_iff.mp htarget
      have hk : Kept sofar extra s name := by
        by_contra hk
        exact hcopied ⟨s, name, rfl, isSome_of_reaches hitem heclosed hreaches, hk⟩
      rw [hkeptValue s name hk k]
      exact h s name ⟨hreaches, hk⟩ k
    | none =>
      -- not a reference to a component: both documents leave it as it is
      have hself : renames.rename r = r := by rw [SectionRenames.rename, renameTo, htarget]
      cases k with
      | zero => exact .refl _
      | succ k =>
        rw [hself, Json.value, Json.value, OpenApiDocument.resolve, OpenApiDocument.resolve,
          htarget]
        exact .refl _

theorem merge_meaning_shop :
    ∃ sofar merged copied, mergeOpenApiDocuments shop [] = some sofar ∧
      mergeOpenApiDocuments shop [warehouse] = some merged ∧
      merged.pathItem? "/orders" = some copied ∧
      ((∀ k, (Json.expand merged.resolve k copied).Same
          (Json.expand warehouse.resolve k (refTo .schemas "Order"))) ↔
        ∀ s name, ReachesKept sofar warehouse (refTo .schemas "Order") s name → ∀ k,
          (Json.value sofar.resolve k (s.ref name)).Same
            (Json.value warehouse.resolve k (s.ref name))) :=
  merge_meaning_iff shop_plain_closed (List.forall_mem_singleton.mpr warehouse_plain_closed) rfl
    (by decide) (List.forall_mem_singleton.mpr rfl)

/-- The orders of the warehouse read like those of the shop and are left out, so that in the merged
document the warehouse's path has orders of the shop's items. -/
theorem orders_change_meaning :
    shop.plain? = true ∧ shop.closed? = true ∧ warehouse.plain? = true ∧
      warehouse.closed? = true ∧
    ∃ merged copied, mergeOpenApiDocuments shop [warehouse] = some merged ∧
      warehouse.pathItem? "/orders" = some (refTo .schemas "Order") ∧
      merged.pathItem? "/orders" = some copied ∧
      ¬ (Json.expand merged.resolve 2 copied).Same
        (Json.expand warehouse.resolve 2 (refTo .schemas "Order")) := by
  refine ⟨by decide, by decide, by decide, by decide, _, _, rfl, rfl, rfl, fun h => ?_⟩
  have htype := h [.key "$ref", .key "items", .key "$ref", .key "type"]
  change some (Json.str "string") = some (.str "number") at htype
  simp at htype

end BankPlatform.OpenApi
