import BankPlatform.Library.Numeral
import BankPlatform.OpenApi.Document

/-!
# Merging OpenAPI documents

Documents of several services become one. The base document wins; components of an extra document
whose name is taken are left out if they are equal to what has the name, and renamed otherwise.

The extra's components are copied over as they are, without cloning. Rewriting the extra's
references later on changes the copied ones as well.

## Main definitions

* `Merging` — the state of merging an extra: the components so far, and the extra as rewritten.
* `mergeComponentSection`, `mergeExtra`, `mergeOpenApiDocuments` — as the code has them. The search
  for a name that is free is given as many steps as there are names it may find taken.

## Main results

* `freshName_spec` — the search ends, at a name that is free.
* `renamesFor_spec` — what is renamed, and to which names.
-/

namespace BankPlatform.OpenApi

open Library

/-! ## The code -/

/-- A reference after renames in a section. -/
def renameRef (s : ComponentSection) (renames : JsMap String String) (r : String) : String :=
  match s.name? r with
  | some name =>
    match renames.get? name with
    | some renamed => if renamed = "" then r else s.ref renamed
    | none => r
  | none => r

/-- Rename the references of a whole document. -/
def OpenApiDocument.mapRefs (g : String → String) (doc : OpenApiDocument) : OpenApiDocument where
  paths := doc.paths.map (JsMap.mapValues (Json.renameRefs g))
  components := doc.components.map fun components =>
    { sections := fun s => (components.sections s).map (JsMap.mapValues (Json.renameRefs g))
      others := Json.substEntries (fun r => .str (g r)) components.others }
  others := Json.substEntries (fun r => .str (g r)) doc.others

/-- A component of the merged document: the extra's own node, or one from before. -/
structure Entry where
  json : Json
  shared : Bool

def Entry.mapRefs (g : String → String) (e : Entry) : Entry :=
  if e.shared then { e with json := Json.renameRefs g e.json } else e

structure Merging where
  target : ComponentSection → Option (JsRecord Entry)
  extraDoc : OpenApiDocument

namespace Merging

def start (merged extra : OpenApiDocument) : Merging where
  target s := (merged.section? s).map (JsMap.mapValues fun j => ⟨j, false⟩)
  extraDoc := extra

/-- The components so far, an empty section if there is none yet. -/
def targetSection (m : Merging) (s : ComponentSection) : JsRecord Entry :=
  (m.target s).getD Table.empty

/-- Rewriting reaches every node of the extra, copied or not. -/
def rewriteRefs (m : Merging) (s : ComponentSection) (renames : JsMap String String) : Merging where
  target s' := (m.target s').map (JsMap.mapValues (Entry.mapRefs (renameRef s renames)))
  extraDoc := m.extraDoc.mapRefs (renameRef s renames)

/-- Copy the components of a section whose final name is free. -/
def copySection (m : Merging) (s : ComponentSection) (extraSection : ComponentMap)
    (renames : JsMap String String) : Merging :=
  { m with
    target := Function.update m.target s <| some <|
      JsRecord.assignAllNew (fun e => (renames.get? e.1).getD e.1) (fun e => ⟨e.2, true⟩)
        (m.targetSection s) extraSection.rows }

end Merging

/-- The loop for a name that is free. -/
def freshName (taken : String → Bool) (name : String) : ℕ → String → ℕ → Option String
  | fuel, candidate, suffix =>
    if taken candidate then
      match fuel with
      | 0 => none
      | fuel + 1 => freshName taken name fuel (name ++ "_" ++ toString suffix) (suffix + 1)
    else some candidate

/-- A name is taken, by a component that is not equal. -/
def conflicts (targetSection : JsRecord Entry) (name : String) (j : Json) : Bool :=
  JsRecord.has targetSection name &&
    !(match prop? ((targetSection.get? name).map Entry.json) name with
      | some t => deepEqual t j
      | none => false)

/-- Names in use, in the merged document or in the extra. -/
def taken (targetSection : JsRecord Entry) (extraSection : ComponentMap) (name : String) : Bool :=
  JsRecord.has targetSection name || JsRecord.has extraSection name

/-- A free name for a component. -/
def newName (targetSection : JsRecord Entry) (extraSection : ComponentMap) (name : String) :
    Option String :=
  freshName (taken targetSection extraSection) name
    (targetSection.rows.length + extraSection.rows.length + JsRecord.inherited.length) name 2

/-- The new names of the components in conflict. -/
def renamesFor (targetSection : JsRecord Entry) (extraSection : ComponentMap) :
    Option (JsMap String String) :=
  extraSection.rows.foldlM
    (fun renames e =>
      if conflicts targetSection e.1 e.2 then do
        let candidate ← newName targetSection extraSection e.1
        return renames.set e.1 candidate
      else return renames)
    Table.empty

def mergeComponentSection (m : Merging) (s : ComponentSection) : Option Merging :=
  match m.extraDoc.section? s with
  | none => some m
  | some extraSection => do
    let renames ← renamesFor (m.targetSection s) extraSection
    let m := if 0 < renames.rows.length then m.rewriteRefs s renames else m
    return m.copySection s ((m.extraDoc.section? s).getD extraSection) renames

/-- Merge an extra document: its components, section after section, and then its paths. -/
def mergeExtra (merged original : OpenApiDocument) : Option OpenApiDocument := do
  let m ← componentSections.foldlM mergeComponentSection (.start merged original)
  return { merged with
    paths := some <|
      JsRecord.assignAllNew Prod.fst Prod.snd (merged.paths.getD Table.empty)
        m.extraDoc.pathRows
    components := some
      { sections := fun s => (m.target s).map (JsMap.mapValues Entry.json)
        others := merged.componentsOthers } }

/-- A document has paths and components, empty ones at least. -/
def OpenApiDocument.withDefaults (doc : OpenApiDocument) : OpenApiDocument :=
  { doc with
    paths := some (doc.paths.getD Table.empty)
    components := some (doc.components.getD ⟨fun _ => none, []⟩) }

def mergeOpenApiDocuments (base : OpenApiDocument) (extras : List OpenApiDocument) :
    Option OpenApiDocument :=
  extras.foldlM mergeExtra base.withDefaults

/-! ## The search for a name -/

/-- The names that are tried. -/
def candidate (name : String) : ℕ → String
  | 0 => name
  | i + 1 => name ++ "_" ++ toString (i + 2)

theorem toList_candidate_succ (name : String) (i : ℕ) :
    (candidate name (i + 1)).toList = name.toList ++ '_' :: (toString (i + 2)).toList := by
  simp [candidate]

theorem underscore_notMem_toString (n : ℕ) : '_' ∉ (toString n).toList := by
  intro hmem
  have hchars : (toString n).toList = Nat.toDigits 10 n := Nat.toList_repr
  rw [hchars] at hmem
  have hdigit : '_'.isDigit = true := Nat.isDigit_of_mem_toDigits (by decide) le_rfl hmem
  exact absurd hdigit (by decide)

/-- A list is cut at the last place of an item in one way. -/
theorem eq_of_append_cons_eq {α : Type*} {a : α} {l l' d d' : List α} (hd : a ∉ d) (hd' : a ∉ d')
    (h : l ++ a :: d = l' ++ a :: d') : l = l' ∧ d = d' := by
  rcases List.append_eq_append_iff.mp h with ⟨c, rfl, hc⟩ | ⟨c, rfl, hc⟩
  · cases c with
    | nil => simpa using hc
    | cons x c =>
      rw [List.cons_append, List.cons.injEq] at hc
      exact (hd (hc.2 ▸ by simp)).elim
  · cases c with
    | nil => simpa using hc.symm
    | cons x c =>
      rw [List.cons_append, List.cons.injEq] at hc
      exact (hd' (hc.2 ▸ by simp)).elim

/-- A tried name tells which name it was made from, and at which step. -/
theorem candidate_succ_inj {name name' : String} {i i' : ℕ} :
    candidate name (i + 1) = candidate name' (i' + 1) ↔ name = name' ∧ i = i' := by
  constructor
  · intro h
    have hlists := congrArg String.toList h
    rw [toList_candidate_succ name i, toList_candidate_succ name' i'] at hlists
    obtain ⟨hname, hsuffix⟩ := eq_of_append_cons_eq (underscore_notMem_toString _)
      (underscore_notMem_toString _) hlists
    have hnumber := Numeral.toString_injective (String.toList_inj.mp hsuffix)
    exact ⟨String.toList_inj.mp hname, by omega⟩
  · rintro ⟨rfl, rfl⟩
    rfl

theorem candidate_succ_ne (name : String) (i : ℕ) : candidate name (i + 1) ≠ name := by
  intro h
  have hlength := congrArg (fun s => s.toList.length) h
  simp [toList_candidate_succ] at hlength

theorem candidate_injective (name : String) : Function.Injective (candidate name) := by
  intro i i' h
  cases i with
  | zero =>
    cases i' with
    | zero => rfl
    | succ i' => exact (candidate_succ_ne name i' h.symm).elim
  | succ i =>
    cases i' with
    | zero => exact (candidate_succ_ne name i h).elim
    | succ i' => rw [(candidate_succ_inj.mp h).2]

/-- A search that does not end found every name taken. -/
theorem freshName_eq_none {taken : String → Bool} {name : String} {fuel i : ℕ}
    (h : freshName taken name fuel (candidate name i) (i + 2) = none) :
    ∀ k ≤ fuel, taken (candidate name (i + k)) = true := by
  induction fuel generalizing i with
  | zero =>
    intro k hk
    obtain rfl : k = 0 := by omega
    unfold freshName at h
    split at h
    · next htaken => exact htaken
    · cases h
  | succ fuel ih =>
    unfold freshName at h
    split at h
    · next htaken =>
      intro k hk
      cases k with
      | zero => exact htaken
      | succ k =>
        have hnext := ih (i := i + 1) h k (by omega)
        rwa [show i + (k + 1) = i + 1 + k by omega]
    · cases h

theorem freshName_eq_some {taken : String → Bool} {name : String} {fuel i : ℕ} {c : String}
    (h : freshName taken name fuel (candidate name i) (i + 2) = some c) :
    taken c = false ∧ ∃ k, c = candidate name k := by
  induction fuel generalizing i with
  | zero =>
    unfold freshName at h
    split at h
    · cases h
    · next htaken =>
      obtain rfl := Option.some.inj h
      exact ⟨by simpa using htaken, i, rfl⟩
  | succ fuel ih =>
    unfold freshName at h
    split at h
    · exact ih (i := i + 1) h
    · next htaken =>
      obtain rfl := Option.some.inj h
      exact ⟨by simpa using htaken, i, rfl⟩

/-- With more steps than there are names in use, the search ends at one that is free. -/
theorem freshName_spec {taken : String → Bool} {used : List String} {name : String} {fuel : ℕ}
    (hused : ∀ c, taken c = true → c ∈ used) (hfuel : used.length ≤ fuel) :
    ∃ c, freshName taken name fuel name 2 = some c ∧ taken c = false ∧
      ∃ k, c = candidate name k := by
  cases h : freshName taken name fuel (candidate name 0) (0 + 2) with
  | some c => exact ⟨c, h, freshName_eq_some h⟩
  | none =>
    have htaken := freshName_eq_none h
    have hsub : (List.range (fuel + 1)).map (candidate name) ⊆ used := by
      intro c hc
      obtain ⟨k, hk, rfl⟩ := List.mem_map.mp hc
      have hk' := List.mem_range.mp hk
      have hc := htaken k (by omega)
      rw [Nat.zero_add] at hc
      exact hused _ hc
    have hnodup : ((List.range (fuel + 1)).map (candidate name)).Nodup :=
      List.nodup_range.map (candidate_injective name)
    have hle := (List.subperm_of_subset hnodup hsub).length_le
    simp at hle
    omega

/-! ## The renames of a section -/

theorem taken_eq_false_iff {t : JsRecord Entry} {es : ComponentMap} {name : String} :
    taken t es name = false ↔ JsRecord.has t name = false ∧ JsRecord.has es name = false := by
  simp [taken]

theorem mem_of_taken {t : JsRecord Entry} {es : ComponentMap} {c : String}
    (h : taken t es c = true) :
    c ∈ JsRecord.keys t ++ JsRecord.keys es ++ JsRecord.inherited := by
  rw [taken, Bool.or_eq_true, JsRecord.has_iff, JsRecord.has_iff, ← JsRecord.mem_keys_iff,
    ← JsRecord.mem_keys_iff] at h
  rw [List.mem_append, List.mem_append]
  tauto

/-- A free name is found for every component. -/
theorem newName_spec (t : JsRecord Entry) (es : ComponentMap) (name : String) :
    ∃ c, newName t es name = some c ∧ taken t es c = false ∧ ∃ k, c = candidate name k :=
  freshName_spec (fun _ => mem_of_taken) (by simp [JsRecord.keys, Nat.add_assoc])

/-- What the renames of a section are. -/
structure Renames (t : JsRecord Entry) (es : ComponentMap) (renames : JsMap String String) :
    Prop where
  renamed : ∀ name, (∃ c, renames.get? name = some c) ↔
    ∃ j, es.get? name = some j ∧ conflicts t name j = true
  fresh : ∀ name c, renames.get? name = some c → taken t es c = false
  numbered : ∀ name c, renames.get? name = some c → ∃ i, c = candidate name (i + 1)

/-- Each component in conflict gets a name of its own, the others keep theirs. -/
theorem foldlM_renames (t : JsRecord Entry) (es : ComponentMap) {rows : List (String × Json)}
    (hnodup : (rows.map Prod.fst).Nodup) (renames : JsMap String String) :
    ∃ renames', rows.foldlM
        (fun renames e =>
          if conflicts t e.1 e.2 then do
            let candidate ← newName t es e.1
            return renames.set e.1 candidate
          else return renames) renames = some renames' ∧
      (∀ name j, (name, j) ∈ rows → conflicts t name j = true →
        renames'.get? name = newName t es name) ∧
      ∀ name, (∀ j, (name, j) ∈ rows → conflicts t name j = false) →
        renames'.get? name = renames.get? name := by
  induction rows generalizing renames with
  | nil => exact ⟨renames, rfl, by simp, by simp⟩
  | cons e rows ih =>
    obtain ⟨name', j'⟩ := e
    obtain ⟨hfresh, hrest⟩ := List.nodup_cons.mp hnodup
    have hout : ∀ j, (name', j) ∉ rows := fun j hmem => hfresh (List.mem_map.mpr ⟨_, hmem, rfl⟩)
    rw [List.foldlM_cons]
    cases hconflict : conflicts t name' j' with
    | true =>
      obtain ⟨c, hc, -⟩ := newName_spec t es name'
      obtain ⟨renames', hfold, hyes, hno⟩ := ih hrest (renames.set name' c)
      refine ⟨renames', by simpa [hc] using hfold, fun name j hmem hj => ?_, fun name hj => ?_⟩
      · rcases List.mem_cons.mp hmem with heq | hmem
        · cases heq
          rw [hno name' fun j hmem => (hout j hmem).elim, JsMap.get?_set, if_pos rfl, hc]
        · exact hyes name j hmem hj
      · have hne : name' ≠ name := by
          rintro rfl
          have hfalse := hj j' List.mem_cons_self
          rw [hconflict] at hfalse
          cases hfalse
        rw [hno name fun j hmem => hj j (List.mem_cons_of_mem _ hmem), JsMap.get?_set, if_neg hne]
    | false =>
      obtain ⟨renames', hfold, hyes, hno⟩ := ih hrest renames
      refine ⟨renames', by simpa using hfold, fun name j hmem hj => ?_, fun name hj => ?_⟩
      · rcases List.mem_cons.mp hmem with heq | hmem
        · cases heq
          rw [hconflict] at hj
          cases hj
        · exact hyes name j hmem hj
      · exact hno name fun j hmem => hj j (List.mem_cons_of_mem _ hmem)

theorem renamesFor_spec (t : JsRecord Entry) (es : ComponentMap) :
    ∃ renames, renamesFor t es = some renames ∧ Renames t es renames := by
  obtain ⟨renames, hfold, hyes, hno⟩ := foldlM_renames t es es.nodup Table.empty
  have hchosen : ∀ name c, renames.get? name = some c →
      (∃ j, (name, j) ∈ es.rows ∧ conflicts t name j = true) ∧ newName t es name = some c := by
    intro name c h
    by_cases hconflict : ∃ j, (name, j) ∈ es.rows ∧ conflicts t name j = true
    · obtain ⟨j, hmem, hj⟩ := hconflict
      exact ⟨⟨j, hmem, hj⟩, hyes name j hmem hj ▸ h⟩
    · rw [hno name fun j hmem => eq_false_of_ne_true fun hj => hconflict ⟨j, hmem, hj⟩] at h
      cases h
  refine ⟨renames, hfold, ?_, fun name c h => ?_, fun name c h => ?_⟩
  · intro name
    simp only [JsMap.get?_eq_some_iff (m := es)]
    constructor
    · rintro ⟨c, h⟩
      exact (hchosen name c h).1
    · rintro ⟨j, hmem, hj⟩
      obtain ⟨c, hc, -⟩ := newName_spec t es name
      exact ⟨c, by rw [hyes name j hmem hj, hc]⟩
  · obtain ⟨c', hc', hfree, -⟩ := newName_spec t es name
    obtain rfl := Option.some.inj (hc'.symm.trans (hchosen name c h).2)
    exact hfree
  · obtain ⟨c', hc', hfree, k, hk⟩ := newName_spec t es name
    obtain ⟨⟨j, -, hconflict⟩, hname⟩ := hchosen name c h
    obtain rfl := Option.some.inj (hc'.symm.trans hname)
    cases k with
    | zero =>
      rw [conflicts, Bool.and_eq_true] at hconflict
      rw [hk, candidate, taken_eq_false_iff, hconflict.1] at hfree
      cases hfree.1
    | succ i => exact ⟨i, hk⟩

namespace Renames

variable {t : JsRecord Entry} {es : ComponentMap} {renames : JsMap String String}

/-- No two components get one new name. -/
theorem injective (h : Renames t es renames) {name name' c : String}
    (hc : renames.get? name = some c) (hc' : renames.get? name' = some c) : name = name' := by
  obtain ⟨i, hi⟩ := h.numbered name c hc
  obtain ⟨i', hi'⟩ := h.numbered name' c hc'
  exact (candidate_succ_inj.mp (hi.symm.trans hi')).1

theorem ne_empty (h : Renames t es renames) {name c : String} (hc : renames.get? name = some c) :
    c ≠ "" := by
  rintro rfl
  obtain ⟨i, hi⟩ := h.numbered name "" hc
  have hlists := congrArg String.toList hi
  rw [toList_candidate_succ] at hlists
  simp at hlists

end Renames

end BankPlatform.OpenApi
