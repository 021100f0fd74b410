import BankPlatform.Library.JsRecord
import BankPlatform.Library.JsonRef

/-!
# OpenAPI documents

A document has path items and, in four sections, named components. A reference names a component by
its section and name. Components and path items are objects, never bare texts, so a property of a
section or of the paths is no reference itself.

## Main definitions

* `OpenApiDocument` — the document, with the properties nothing here reads kept as they are.
* `OpenApiDocument.HasRef`, `OpenApiDocument.resolve` — its references, and what they point to.
* `OpenApiDocument.Plain`, `OpenApiDocument.Closed` — trees that assignments build, in which the
  references to components resolve.
* `deepEqual` — the comparison of components.
-/

namespace BankPlatform.OpenApi

open Library

/-! ## References to components -/

inductive ComponentSection where
  | schemas
  | responses
  | parameters
  | securitySchemes
  deriving DecidableEq

def componentSections : List ComponentSection :=
  [.schemas, .responses, .parameters, .securitySchemes]

namespace ComponentSection

def key : ComponentSection → String
  | schemas => "schemas"
  | responses => "responses"
  | parameters => "parameters"
  | securitySchemes => "securitySchemes"

/-- What the references into a section start with. -/
def path (s : ComponentSection) : String := "#/components/" ++ s.key ++ "/"

def ref (s : ComponentSection) (name : String) : String := s.path ++ name

/-- The name of the component that a reference into the section points to. -/
def name? (s : ComponentSection) (r : String) : Option String :=
  (r.toList.dropPrefix? s.path.toList).map String.ofList

theorem mem_componentSections (s : ComponentSection) : s ∈ componentSections := by
  cases s <;> decide

theorem name?_eq_some_iff {s : ComponentSection} {r name : String} :
    s.name? r = some name ↔ r = s.ref name := by
  rw [name?, Option.map_eq_some_iff]
  constructor
  · rintro ⟨cs, hdrop, rfl⟩
    obtain ⟨front, hr, hfront⟩ := List.dropPrefix?_eq_some_iff.mp hdrop
    obtain rfl := eq_of_beq hfront
    rw [ref, ← String.toList_inj, hr, String.toList_append, String.toList_ofList]
  · rintro rfl
    refine ⟨name.toList, List.dropPrefix?_eq_some_iff.mpr ⟨_, ?_, beq_self_eq_true _⟩, ?_⟩
    · rw [ref, String.toList_append]
    · exact String.ofList_toList

/-- No section's path continues another's. -/
theorem eq_of_path_isPrefix {s s' : ComponentSection} (h : s.path.toList <+: s'.path.toList) :
    s = s' := by
  revert h
  cases s <;> cases s' <;> decide

theorem ref_inj {s s' : ComponentSection} {name name' : String} :
    s.ref name = s'.ref name' ↔ s = s' ∧ name = name' := by
  constructor
  · intro h
    have hlists : s.path.toList ++ name.toList = s'.path.toList ++ name'.toList := by
      rw [← String.toList_append, ← String.toList_append]
      exact congrArg String.toList h
    have hs : s = s' := by
      have hfront : s.path.toList <+: s'.path.toList ++ name'.toList := ⟨_, hlists⟩
      rcases List.prefix_or_prefix_of_prefix hfront (List.prefix_append _ _) with hle | hle
      · exact eq_of_path_isPrefix hle
      · exact (eq_of_path_isPrefix hle).symm
    subst hs
    exact ⟨rfl, String.toList_inj.mp (List.append_cancel_left hlists)⟩
  · rintro ⟨rfl, rfl⟩
    rfl

end ComponentSection

/-- The component that a reference names. -/
def target? (r : String) : Option (ComponentSection × String) :=
  componentSections.findSome? fun s => (s.name? r).map fun name => (s, name)

theorem target?_eq_some_iff {r : String} {s : ComponentSection} {name : String} :
    target? r = some (s, name) ↔ r = s.ref name := by
  have hnames : ∀ s', (s'.name? r).map (fun name => (s', name)) = some (s, name) ↔
      s' = s ∧ r = s.ref name := by
    intro s'
    rw [Option.map_eq_some_iff]
    constructor
    · rintro ⟨name', hname, heq⟩
      cases heq
      exact ⟨rfl, ComponentSection.name?_eq_some_iff.mp hname⟩
    · rintro ⟨rfl, hr⟩
      exact ⟨name, ComponentSection.name?_eq_some_iff.mpr hr, rfl⟩
  constructor
  · intro h
    obtain ⟨s', -, hs'⟩ := List.exists_of_findSome?_eq_some h
    exact ((hnames s').mp hs').2
  · intro hr
    have hsome : (target? r).isSome := by
      rw [target?, List.findSome?_isSome_iff]
      exact ⟨s, s.mem_componentSections, by rw [(hnames s).mpr ⟨rfl, hr⟩]; rfl⟩
    obtain ⟨⟨s', name'⟩, htarget⟩ := Option.isSome_iff_exists.mp hsome
    obtain ⟨x, -, hx⟩ := List.exists_of_findSome?_eq_some htarget
    obtain ⟨name'', hname'', heq⟩ := Option.map_eq_some_iff.mp hx
    cases heq
    have hr' := ComponentSection.name?_eq_some_iff.mp hname''
    obtain ⟨rfl, rfl⟩ := ComponentSection.ref_inj.mp (hr.symm.trans hr')
    exact htarget

@[simp] theorem target?_ref (s : ComponentSection) (name : String) :
    target? (s.ref name) = some (s, name) := target?_eq_some_iff.mpr rfl

/-- The references with their components renamed. -/
def renameTo (final : ComponentSection → String → String) (r : String) : String :=
  match target? r with
  | some (s, name) => s.ref (final s name)
  | none => r

@[simp] theorem renameTo_ref (final : ComponentSection → String → String) (s : ComponentSection)
    (name : String) : renameTo final (s.ref name) = s.ref (final s name) := by
  rw [renameTo, target?_ref]

/-! ## Documents -/

abbrev ComponentMap := JsRecord Json

structure Components where
  sections : ComponentSection → Option ComponentMap
  others : List (String × Json)

structure OpenApiDocument where
  paths : Option (JsRecord Json)
  components : Option Components
  others : List (String × Json)

namespace OpenApiDocument

variable (doc : OpenApiDocument)

def section? (s : ComponentSection) : Option ComponentMap :=
  doc.components.bind fun components => components.sections s

def component? (s : ComponentSection) (name : String) : Option Json :=
  (doc.section? s).bind fun m => m.get? name

def pathRows : List (String × Json) := (doc.paths.map Table.rows).getD []

def componentRows (s : ComponentSection) : List (String × Json) :=
  ((doc.section? s).map Table.rows).getD []

def pathItem? (path : String) : Option Json := doc.paths.bind fun m => m.get? path

def componentsOthers : List (String × Json) :=
  (doc.components.map Components.others).getD []

/-- The component that a reference points to. -/
def resolve (r : String) : Option Json :=
  match target? r with
  | some (s, name) => doc.component? s name
  | none => none

/-- A reference anywhere in the document. -/
inductive HasRef : String → Prop where
  | path {path : String} {item : Json} {r : String} : doc.pathItem? path = some item →
      item.HasRef r → HasRef r
  | component {s : ComponentSection} {name : String} {j : Json} {r : String} :
      doc.component? s name = some j → j.HasRef r → HasRef r
  | otherComponent {r : String} : (Json.obj doc.componentsOthers).HasRef r → HasRef r
  | other {r : String} : (Json.obj doc.others).HasRef r → HasRef r

/-- Path items and components are trees that assignments build. -/
structure Plain : Prop where
  pathItem : ∀ path item, doc.pathItem? path = some item → item.Plain
  component : ∀ s name j, doc.component? s name = some j → j.Plain
  name : ∀ s name j, doc.component? s name = some j → name ≠ "__proto__"

/-- References to components resolve. -/
def Closed : Prop :=
  ∀ (s : ComponentSection) (name : String), doc.HasRef (s.ref name) → (doc.component? s name).isSome

@[simp] theorem resolve_ref (s : ComponentSection) (name : String) :
    doc.resolve (s.ref name) = doc.component? s name := by
  rw [resolve, target?_ref]

variable {doc}

theorem resolve_eq_some_iff {r : String} {j : Json} :
    doc.resolve r = some j ↔
      ∃ (s : ComponentSection) (name : String), r = s.ref name ∧ doc.component? s name = some j := by
  constructor
  · intro h
    unfold resolve at h
    split at h
    · next s name htarget => exact ⟨s, name, target?_eq_some_iff.mp htarget, h⟩
    · cases h
  · rintro ⟨s, name, rfl, h⟩
    rw [resolve_ref, h]

end OpenApiDocument

/-! ### Checking a document -/

namespace OpenApiDocument

variable (doc : OpenApiDocument)

/-- The references of the document. -/
def refs : List String :=
  doc.pathRows.flatMap (fun e => e.2.refs) ++
    componentSections.flatMap (fun s => (doc.componentRows s).flatMap fun e => e.2.refs) ++
    (Json.obj doc.componentsOthers).refs ++ (Json.obj doc.others).refs

def closed? : Bool := doc.refs.all fun r =>
  match target? r with
  | some (s, name) => (doc.component? s name).isSome
  | none => true

def plain? : Bool :=
  doc.pathRows.all (fun e => e.2.plain?) &&
    componentSections.all fun s => (doc.componentRows s).all fun e =>
      e.2.plain? && e.1 != "__proto__"

variable {doc}

theorem mem_pathRows_iff {path : String} {item : Json} :
    (path, item) ∈ doc.pathRows ↔ doc.pathItem? path = some item := by
  rw [pathRows, pathItem?]
  cases doc.paths with
  | none => simp
  | some m => simp [JsMap.get?_eq_some_iff]

theorem mem_componentRows_iff {s : ComponentSection} {name : String} {j : Json} :
    (name, j) ∈ doc.componentRows s ↔ doc.component? s name = some j := by
  rw [componentRows, component?]
  cases doc.section? s with
  | none => simp
  | some m => simp [JsMap.get?_eq_some_iff]

theorem HasRef.mem_refs {r : String} (h : doc.HasRef r) : r ∈ doc.refs := by
  rw [refs, List.mem_append, List.mem_append, List.mem_append]
  cases h with
  | path hitem hr =>
    refine .inl (.inl (.inl (List.mem_flatMap.mpr ⟨_, mem_pathRows_iff.mpr hitem, ?_⟩)))
    exact (Json.mem_refs_iff _).mpr hr
  | @component s name j r hj hr =>
    refine .inl (.inl (.inr (List.mem_flatMap.mpr ⟨s, s.mem_componentSections, ?_⟩)))
    exact List.mem_flatMap.mpr ⟨_, mem_componentRows_iff.mpr hj, (Json.mem_refs_iff _).mpr hr⟩
  | otherComponent hr => exact .inl (.inr ((Json.mem_refs_iff _).mpr hr))
  | other hr => exact .inr ((Json.mem_refs_iff _).mpr hr)

theorem closed_of_closed? (h : doc.closed? = true) : doc.Closed := by
  intro s name hr
  have hall := List.all_eq_true.mp h _ hr.mem_refs
  rwa [target?_ref] at hall

theorem plain_of_plain? (h : doc.plain? = true) : doc.Plain := by
  rw [plain?, Bool.and_eq_true, List.all_eq_true, List.all_eq_true] at h
  obtain ⟨hpaths, hsections⟩ := h
  have hcomponent : ∀ s name j, doc.component? s name = some j →
      j.plain? = true ∧ name ≠ "__proto__" := by
    intro s name j hj
    have hrow := List.all_eq_true.mp (hsections s s.mem_componentSections) _
      (mem_componentRows_iff.mpr hj)
    simpa using hrow
  refine ⟨fun path item hitem => ?_, fun s name j hj => ?_, fun s name j hj => ?_⟩
  · exact Json.plain_of_plain? item (hpaths _ (mem_pathRows_iff.mpr hitem))
  · exact Json.plain_of_plain? j (hcomponent s name j hj).1
  · exact (hcomponent s name j hj).2

end OpenApiDocument

/-! ## Comparing components -/

/-- `record[name]`, as far as it is JSON, when the record's own property is known: an inherited
method is not JSON, and the prototype itself has no properties to enumerate. -/
def prop? (own : Option Json) (name : String) : Option Json :=
  match own with
  | some j => some j
  | none => if name = "__proto__" then some (.obj []) else none

mutual

def deepEqual : Json → Json → Bool
  | .null, .null => true
  | .bool b, .bool b' => b == b'
  | .num q, .num q' => q == q'
  | .str s, .str s' => s == s'
  | .arr items, .arr items' => items.length == items'.length && deepEqualItems items items'
  | .obj entries, .obj entries' =>
    entries.length == entries'.length && deepEqualEntries entries entries'
  | _, _ => false

def deepEqualItems : List Json → List Json → Bool
  | j :: items, j' :: items' => deepEqual j j' && deepEqualItems items items'
  | [], _ => true
  | _ :: _, [] => false

def deepEqualEntries : List (String × Json) → List (String × Json) → Bool
  | [], _ => true
  | (name, j) :: entries, entries' =>
    (match prop? (entries'.lookup name) name with
      | some j' => deepEqual j j'
      | none => false) && deepEqualEntries entries entries'

end

theorem deepEqualItems_getElem {items items' : List Json} (h : deepEqualItems items items' = true)
    {i : ℕ} (hi : i < items.length) (hi' : i < items'.length) :
    deepEqual items[i] items'[i] = true := by
  induction items generalizing items' i with
  | nil => simp at hi
  | cons j items ih =>
    cases items' with
    | nil => simp at hi'
    | cons j' items' =>
      rw [deepEqualItems, Bool.and_eq_true] at h
      cases i with
      | zero => exact h.1
      | succ i => exact ih h.2 (by simpa using hi) (by simpa using hi')

theorem deepEqualEntries_mem {entries entries' : List (String × Json)}
    (h : deepEqualEntries entries entries' = true) {name : String} {j : Json}
    (hmem : (name, j) ∈ entries) :
    ∃ j', prop? (entries'.lookup name) name = some j' ∧ deepEqual j j' = true := by
  induction entries with
  | nil => cases hmem
  | cons e entries ih =>
    obtain ⟨name', x⟩ := e
    rw [deepEqualEntries, Bool.and_eq_true] at h
    rcases List.mem_cons.mp hmem with heq | hmem
    · cases heq
      cases hprop : prop? (entries'.lookup name) name with
      | none => simp [hprop] at h
      | some j' => exact ⟨j', rfl, by simpa [hprop] using h.1⟩
    · exact ih h.2 hmem

/-- Every property is the other's own, as none is inherited. -/
theorem deepEqualEntries_lookup {entries entries' : List (String × Json)}
    (h : deepEqualEntries entries entries' = true) (hproto : "__proto__" ∉ entries.map Prod.fst)
    {name : String} {j : Json} (hmem : (name, j) ∈ entries) :
    ∃ j', entries'.lookup name = some j' ∧ deepEqual j j' = true := by
  obtain ⟨j', hprop, hj'⟩ := deepEqualEntries_mem h hmem
  have hname : name ≠ "__proto__" :=
    fun heq => hproto (heq ▸ List.mem_map.mpr ⟨_, hmem, rfl⟩)
  cases hlookup : entries'.lookup name with
  | none => simp [prop?, hlookup, hname] at hprop
  | some x =>
    rw [hlookup, prop?] at hprop
    exact ⟨x, rfl, Option.some.inj hprop ▸ hj'⟩

/-- An object that has as many properties has no further ones. -/
theorem deepEqualEntries_perm {entries entries' : List (String × Json)}
    (h : deepEqualEntries entries entries' = true) (hproto : "__proto__" ∉ entries.map Prod.fst)
    (hnodup : (entries.map Prod.fst).Nodup) (hnodup' : (entries'.map Prod.fst).Nodup)
    (hlength : entries.length = entries'.length) :
    (entries.map Prod.fst).Perm (entries'.map Prod.fst) := by
  have hsub : entries.map Prod.fst ⊆ entries'.map Prod.fst := by
    intro name hname
    obtain ⟨⟨_, j⟩, hmem, rfl⟩ := List.mem_map.mp hname
    obtain ⟨j', hlookup, -⟩ := deepEqualEntries_lookup h hproto hmem
    exact List.mem_map.mpr ⟨_, (Json.lookup_eq_some_iff hnodup').mp hlookup, rfl⟩
  exact (List.subperm_of_subset hnodup hsub).perm_of_length_le (by simp [hlength])

/-- Components that compare as equal are the same tree. -/
theorem same_of_deepEqual {a b : Json} (ha : a.Plain) (hb : b.Plain) (h : deepEqual a b = true) :
    a.Same b := by
  induction ha generalizing b with
  | null => cases hb <;> simp_all [deepEqual, Json.Same.refl]
  | bool x => cases hb <;> simp_all [deepEqual, Json.Same.refl]
  | num q => cases hb <;> simp_all [deepEqual, Json.Same.refl]
  | str s => cases hb <;> simp_all [deepEqual, Json.Same.refl]
  | @arr items _ ih =>
    cases hb with
    | @arr items' hitems' =>
      rw [deepEqual, Bool.and_eq_true, beq_iff_eq] at h
      obtain ⟨hlength, hequal⟩ := h
      refine .of_children rfl fun step => ?_
      cases step with
      | key name => exact .none
      | index i =>
        by_cases hi : i < items.length
        · have hi' : i < items'.length := hlength ▸ hi
          have hsame := ih _ (List.getElem_mem hi) (hitems' _ (List.getElem_mem hi'))
            (deepEqualItems_getElem hequal hi hi')
          simpa [Json.child?, hi, hi'] using hsame
        · have hi' : ¬ i < items'.length := hlength ▸ hi
          simp [Json.child?, hi, hi']
    | _ => simp [deepEqual] at h
  | @obj entries hnodup hproto hparts ih =>
    cases hb with
    | @obj entries' hnodup' hproto' hparts' =>
      rw [deepEqual, Bool.and_eq_true, beq_iff_eq] at h
      obtain ⟨hlength, hequal⟩ := h
      have hperm := deepEqualEntries_perm hequal hproto hnodup hnodup' hlength
      refine .of_children rfl fun step => ?_
      cases step with
      | index i => exact .none
      | key name =>
        rw [Json.child?, Json.child?]
        cases hlookup : entries.lookup name with
        | none =>
          cases hlookup' : entries'.lookup name with
          | none => exact .none
          | some j' =>
            have hmem' := (Json.lookup_eq_some_iff hnodup').mp hlookup'
            have hname := hperm.mem_iff.mpr (List.mem_map.mpr ⟨_, hmem', rfl⟩)
            obtain ⟨⟨_, j⟩, hmem, rfl⟩ := List.mem_map.mp hname
            rw [(Json.lookup_eq_some_iff hnodup).mpr hmem] at hlookup
            cases hlookup
        | some j =>
          have hmem := (Json.lookup_eq_some_iff hnodup).mp hlookup
          obtain ⟨j', hlookup', hj'⟩ := deepEqualEntries_lookup hequal hproto hmem
          have hmem' := (Json.lookup_eq_some_iff hnodup').mp hlookup'
          rw [hlookup']
          exact .some (ih _ hmem (hparts' _ hmem') hj')
    | _ => simp [deepEqual] at h

end BankPlatform.OpenApi
