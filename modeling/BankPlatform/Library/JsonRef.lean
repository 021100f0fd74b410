import BankPlatform.Library.Json

/-!
# References in JSON trees

A property `$ref` with a text is a reference. Substituting the references of a tree leaves its other
parts as they are, so two substitutions give the same tree exactly when they agree on its
references. Replacing references by their targets, and those of the targets again, gives the tree
that a document means by a value.

## Main definitions

* `Json.Same` — two values are the same tree, whatever the order of properties.
* `Json.HasRef`, `Json.substRefs`, `Json.renameRefs` — the references of a value, replaced or
  renamed.
* `Json.expand` — a value with its references replaced by their targets, some levels deep.

## Main results

* `Json.same_substRefs_iff` — substitutions agree on a tree when they agree on its references.
* `Json.Renaming.same_expand_iff` — what a renamed tree means depends only on the references that
  are reached from it and not copied along.
-/

namespace BankPlatform.Library.Json

/-! ## Parts of a value -/

inductive Step where
  | index (i : ℕ)
  | key (name : String)

def child? : Json → Step → Option Json
  | .arr items, .index i => items[i]?
  | .obj entries, .key name => entries.lookup name
  | _, _ => none

def at? : Json → List Step → Option Json
  | j, [] => some j
  | j, step :: path => (j.child? step).bind fun x => x.at? path

/-- A value without its parts. -/
def shape : Json → Json
  | .arr _ => .arr []
  | .obj _ => .obj []
  | j => j

/-- The same tree: alike in every place. -/
def Same (a b : Json) : Prop := ∀ path, (a.at? path).map shape = (b.at? path).map shape

namespace Same

variable {a b c : Json}

theorem refl (a : Json) : Same a a := fun _ => rfl

theorem symm (h : Same a b) : Same b a := fun path => (h path).symm

theorem trans (h : Same a b) (h' : Same b c) : Same a c := fun path => (h path).trans (h' path)

theorem shape (h : Same a b) : a.shape = b.shape := Option.some.inj (h [])

theorem child (h : Same a b) {step : Step} {x : Json} (hx : a.child? step = some x) :
    ∃ y, b.child? step = some y ∧ Same x y := by
  have hstep := h [step]
  cases hy : b.child? step with
  | none => simp [at?, hx, hy] at hstep
  | some y =>
    refine ⟨y, rfl, fun path => ?_⟩
    have hpath := h (step :: path)
    simpa [at?, hx, hy] using hpath

/-- Values of one shape are the same if their parts are. -/
theorem of_children (hshape : a.shape = b.shape)
    (h : ∀ step, Option.Rel Same (a.child? step) (b.child? step)) : Same a b := by
  intro path
  cases path with
  | nil => simp [at?, hshape]
  | cons step path =>
    have hstep := h step
    cases hx : a.child? step with
    | none =>
      rw [hx] at hstep
      cases hy : b.child? step with
      | none => simp [at?, hx, hy]
      | some y => rw [hy] at hstep; cases hstep
    | some x =>
      rw [hx] at hstep
      cases hy : b.child? step with
      | none => rw [hy] at hstep; cases hstep
      | some y =>
        rw [hy] at hstep
        cases hstep with
        | some hxy => simpa [at?, hx, hy] using hxy path

end Same

/-! ## Values that assignments build -/

/-- Properties of an object are distinct, and none is `__proto__`: assigning to that one sets the
prototype of the object instead. -/
inductive Plain : Json → Prop where
  | null : Plain .null
  | bool (b : Bool) : Plain (.bool b)
  | num (q : ℚ) : Plain (.num q)
  | str (s : String) : Plain (.str s)
  | arr {items : List Json} : (∀ j ∈ items, Plain j) → Plain (.arr items)
  | obj {entries : List (String × Json)} : (entries.map Prod.fst).Nodup →
      "__proto__" ∉ entries.map Prod.fst → (∀ e ∈ entries, Plain e.2) → Plain (.obj entries)

theorem lookup_eq_some_iff {entries : List (String × Json)} (h : (entries.map Prod.fst).Nodup)
    {name : String} {j : Json} : entries.lookup name = some j ↔ (name, j) ∈ entries := by
  induction entries with
  | nil => simp
  | cons e entries ih =>
    obtain ⟨name', j'⟩ := e
    obtain ⟨hfresh, hrest⟩ := List.nodup_cons.mp h
    by_cases hname : name = name'
    · subst hname
      have hout : (name, j) ∉ entries := fun hmem => hfresh (List.mem_map.mpr ⟨_, hmem, rfl⟩)
      simp [hout, eq_comm]
    · have hbeq : (name == name') = false := by simpa using hname
      simp [List.lookup_cons, hbeq, ih hrest, hname]

theorem Same.key {entries : List (String × Json)} {b : Json} (h : Same (.obj entries) b)
    (hnodup : (entries.map Prod.fst).Nodup) {name : String} {j : Json}
    (hmem : (name, j) ∈ entries) :
    ∃ y, b.child? (.key name) = some y ∧ Same j y :=
  h.child ((lookup_eq_some_iff hnodup).mpr hmem)

/-! ## References -/

/-- The reference that a property is. -/
def ref? : String → Json → Option String
  | "$ref", .str r => some r
  | _, _ => none

/-- A reference here or in a part. -/
inductive HasRef : Json → String → Prop where
  | here {entries : List (String × Json)} {r : String} : ("$ref", .str r) ∈ entries →
      HasRef (.obj entries) r
  | item {items : List Json} {j : Json} {r : String} : j ∈ items → HasRef j r →
      HasRef (.arr items) r
  | entry {entries : List (String × Json)} {name : String} {j : Json} {r : String} :
      (name, j) ∈ entries → HasRef j r → HasRef (.obj entries) r

theorem ref?_eq_some_iff {name r : String} {j : Json} :
    ref? name j = some r ↔ name = "$ref" ∧ j = .str r := by
  constructor
  · intro h
    unfold ref? at h
    split at h
    · exact ⟨rfl, congrArg Json.str (Option.some.inj h)⟩
    · cases h
  · rintro ⟨rfl, rfl⟩
    rfl

mutual

/-- Replace the references. -/
def substRefs (f : String → Json) : Json → Json
  | .arr items => .arr (substItems f items)
  | .obj entries => .obj (substEntries f entries)
  | j => j

def substItems (f : String → Json) : List Json → List Json
  | [] => []
  | j :: items => substRefs f j :: substItems f items

def substEntries (f : String → Json) : List (String × Json) → List (String × Json)
  | [] => []
  | (name, j) :: entries =>
    (name, match ref? name j with
      | some r => f r
      | none => substRefs f j) :: substEntries f entries

end

/-- What becomes of a property. -/
def substEntry (f : String → Json) (name : String) (j : Json) : Json :=
  match ref? name j with
  | some r => f r
  | none => substRefs f j

/-- Replace the references by others. -/
def renameRefs (g : String → String) : Json → Json := substRefs fun r => .str (g r)

theorem substItems_eq_map (f : String → Json) (items : List Json) :
    substItems f items = items.map (substRefs f) := by
  induction items with
  | nil => rfl
  | cons j items ih => rw [substItems, ih, List.map_cons]

theorem substEntries_eq_map (f : String → Json) (entries : List (String × Json)) :
    substEntries f entries = entries.map fun e => (e.1, substEntry f e.1 e.2) := by
  induction entries with
  | nil => rfl
  | cons e entries ih =>
    rw [substEntries, ih, List.map_cons]
    rfl

@[simp] theorem substRefs_arr (f : String → Json) (items : List Json) :
    substRefs f (.arr items) = .arr (items.map (substRefs f)) := by
  rw [substRefs, substItems_eq_map]

@[simp] theorem substRefs_obj (f : String → Json) (entries : List (String × Json)) :
    substRefs f (.obj entries) = .obj (entries.map fun e => (e.1, substEntry f e.1 e.2)) := by
  rw [substRefs, substEntries_eq_map]

@[simp] theorem substEntry_ref (f : String → Json) (r : String) :
    substEntry f "$ref" (.str r) = f r := rfl

theorem substEntry_of_none {name : String} {j : Json} (h : ref? name j = none) (f : String → Json) :
    substEntry f name j = substRefs f j := by
  rw [substEntry, h]

/-- Only values with the reference's place are references: a substitution makes no new ones. -/
theorem ref?_substRefs {name : String} {j : Json} (h : ref? name j = none) (f : String → Json) :
    ref? name (substRefs f j) = none := by
  rw [Option.eq_none_iff_forall_ne_some] at h ⊢
  intro r hr
  obtain ⟨rfl, hstr⟩ := ref?_eq_some_iff.mp hr
  cases j with
  | str s => exact h s rfl
  | _ => simp [substRefs] at hstr

theorem lookup_map_substEntry (f : String → Json) (entries : List (String × Json)) (name : String) :
    (entries.map fun e => (e.1, substEntry f e.1 e.2)).lookup name =
      (entries.lookup name).map (substEntry f name) := by
  induction entries with
  | nil => rfl
  | cons e entries ih =>
    obtain ⟨name', j⟩ := e
    by_cases hname : name = name'
    · subst hname
      simp
    · have hbeq : (name == name') = false := by simpa using hname
      simpa [List.lookup_cons, hbeq] using ih

/-- A property that is a reference, or has one. -/
theorem HasRef.of_entry {entries : List (String × Json)} {name r : String} {j : Json}
    (hmem : (name, j) ∈ entries) (h : ref? name j = some r ∨ HasRef j r) :
    HasRef (.obj entries) r := by
  rcases h with h | h
  · obtain ⟨rfl, rfl⟩ := ref?_eq_some_iff.mp h
    exact .here hmem
  · exact .entry hmem h

theorem hasRef_arr_iff {items : List Json} {r : String} :
    HasRef (.arr items) r ↔ ∃ j ∈ items, HasRef j r := by
  constructor
  · rintro (_ | ⟨hmem, h⟩)
    exact ⟨_, hmem, h⟩
  · rintro ⟨j, hmem, h⟩
    exact .item hmem h

theorem hasRef_obj_iff {entries : List (String × Json)} {r : String} :
    HasRef (.obj entries) r ↔
      ∃ name j, (name, j) ∈ entries ∧ (ref? name j = some r ∨ HasRef j r) := by
  constructor
  · rintro (hmem | _ | ⟨hmem, h⟩)
    · exact ⟨"$ref", .str r, hmem, .inl rfl⟩
    · exact ⟨_, _, hmem, .inr h⟩
  · rintro ⟨name, j, hmem, h⟩
    exact .of_entry hmem h

/-! ## Substitutions -/

/-- Only a text can be a reference, and a text has no references below. -/
theorem not_hasRef_of_ref? {name r : String} {j : Json} (h : ref? name j = some r) (r' : String) :
    ¬ HasRef j r' := by
  obtain ⟨-, rfl⟩ := ref?_eq_some_iff.mp h
  rintro ⟨⟩

/-- Substitutions that agree on the references of a value give one value. -/
theorem substRefs_congr {f f' : String → Json} {j : Json} (hj : Plain j)
    (h : ∀ r, HasRef j r → f r = f' r) : substRefs f j = substRefs f' j := by
  induction hj with
  | null => rfl
  | bool b => rfl
  | num q => rfl
  | str s => rfl
  | arr _ ih =>
    rw [substRefs_arr, substRefs_arr]
    exact congrArg Json.arr (List.map_congr_left fun j hmem =>
      ih j hmem fun r hr => h r (.item hmem hr))
  | obj _ _ _ ih =>
    rw [substRefs_obj, substRefs_obj]
    refine congrArg Json.obj (List.map_congr_left fun e hmem => ?_)
    cases href : ref? e.1 e.2 with
    | some r => simp [substEntry, href, h r (.of_entry hmem (.inl href))]
    | none =>
      have hsub := ih e hmem fun r hr => h r (.entry hmem hr)
      simp [substEntry, href, hsub]

theorem substRefs_str {j : Json} (hj : Plain j) : substRefs .str j = j := by
  induction hj with
  | null => rfl
  | bool b => rfl
  | num q => rfl
  | str s => rfl
  | arr _ ih =>
    rw [substRefs_arr, List.map_congr_left ih, List.map_id']
  | obj _ _ _ ih =>
    rw [substRefs_obj]
    refine congrArg Json.obj ((List.map_congr_left ?_).trans (List.map_id _))
    rintro ⟨name, j⟩ hmem
    cases href : ref? name j with
    | some r =>
      obtain ⟨rfl, rfl⟩ := ref?_eq_some_iff.mp href
      rfl
    | none =>
      rw [substEntry_of_none href, ih _ hmem]
      rfl

/-- Two substitutions give the same tree exactly when they agree on its references. -/
theorem same_substRefs_iff {f f' : String → Json} {j : Json} (hj : Plain j) :
    Same (substRefs f j) (substRefs f' j) ↔ ∀ r, HasRef j r → Same (f r) (f' r) := by
  induction hj with
  | null => exact ⟨fun _ r hr => (nomatch hr), fun _ => .refl _⟩
  | bool b => exact ⟨fun _ r hr => (nomatch hr), fun _ => .refl _⟩
  | num q => exact ⟨fun _ r hr => (nomatch hr), fun _ => .refl _⟩
  | str s => exact ⟨fun _ r hr => (nomatch hr), fun _ => .refl _⟩
  | @arr items _ ih =>
    rw [substRefs_arr, substRefs_arr]
    constructor
    · intro h r hr
      obtain ⟨j, hmem, hr⟩ := hasRef_arr_iff.mp hr
      obtain ⟨i, hi, rfl⟩ := List.mem_iff_getElem.mp hmem
      have hitem : (Json.arr (items.map (substRefs f))).child? (.index i) =
          some (substRefs f items[i]) := by
        simp [child?, hi]
      obtain ⟨y, hy, hsame⟩ := h.child hitem
      have hy' : substRefs f' items[i] = y := by simpa [child?, hi] using hy
      exact (ih _ hmem).mp (hy' ▸ hsame) r hr
    · intro h
      refine .of_children rfl fun step => ?_
      cases step with
      | key name => exact .none
      | index i =>
        by_cases hi : i < items.length
        · have hmem : items[i] ∈ items := List.getElem_mem hi
          have hsame := (ih _ hmem).mpr fun r hr => h r (.item hmem hr)
          simpa [child?, hi] using hsame
        · simp [child?, hi]
  | @obj entries hnodup _ _ ih =>
    rw [substRefs_obj, substRefs_obj]
    have hentry : ∀ name j, (name, j) ∈ entries →
        (Same (substEntry f name j) (substEntry f' name j) ↔
          ∀ r, ref? name j = some r ∨ HasRef j r → Same (f r) (f' r)) := by
      intro name j hmem
      cases href : ref? name j with
      | some r =>
        have hnone := not_hasRef_of_ref? href
        simp [substEntry, href, hnone]
      | none => simpa [substEntry, href] using ih _ hmem
    constructor
    · intro h r hr
      obtain ⟨name, j, hmem, hr⟩ := hasRef_obj_iff.mp hr
      have hlookup := (lookup_eq_some_iff hnodup).mpr hmem
      have hchild : (Json.obj (entries.map fun e => (e.1, substEntry f e.1 e.2))).child?
          (.key name) = some (substEntry f name j) := by
        rw [child?, lookup_map_substEntry, hlookup, Option.map_some]
      obtain ⟨y, hy, hsame⟩ := h.child hchild
      rw [child?, lookup_map_substEntry, hlookup, Option.map_some] at hy
      obtain rfl := Option.some.inj hy
      exact (hentry name j hmem).mp hsame r hr
    · intro h
      refine .of_children rfl fun step => ?_
      cases step with
      | index i => exact .none
      | key name =>
        rw [child?, child?, lookup_map_substEntry, lookup_map_substEntry]
        cases hlookup : entries.lookup name with
        | none => exact .none
        | some j =>
          have hmem := (lookup_eq_some_iff hnodup).mp hlookup
          exact .some ((hentry name j hmem).mpr fun r hr => h r (.of_entry hmem hr))

/-! ## Renaming references -/

/-- References are renamed before they are replaced. -/
theorem substRefs_renameRefs (f : String → Json) (g : String → String) {j : Json} (hj : Plain j) :
    substRefs f (renameRefs g j) = substRefs (f ∘ g) j := by
  induction hj with
  | null => rfl
  | bool b => rfl
  | num q => rfl
  | str s => rfl
  | arr _ ih =>
    rw [renameRefs, substRefs_arr, substRefs_arr, substRefs_arr, List.map_map]
    exact congrArg Json.arr (List.map_congr_left ih)
  | obj _ _ _ ih =>
    rw [renameRefs, substRefs_obj, substRefs_obj, substRefs_obj, List.map_map]
    refine congrArg Json.obj (List.map_congr_left ?_)
    rintro ⟨name, j⟩ hmem
    cases href : ref? name j with
    | some r =>
      obtain ⟨rfl, rfl⟩ := ref?_eq_some_iff.mp href
      rfl
    | none =>
      have hnone := ref?_substRefs href fun r => .str (g r)
      have hsub := ih _ hmem
      rw [renameRefs] at hsub
      simp [substEntry_of_none href, substEntry_of_none hnone, hsub]

theorem renameRefs_renameRefs (g g' : String → String) {j : Json} (hj : Plain j) :
    renameRefs g' (renameRefs g j) = renameRefs (g' ∘ g) j :=
  substRefs_renameRefs _ g hj

theorem renameRefs_id {g : String → String} {j : Json} (hj : Plain j)
    (h : ∀ r, HasRef j r → g r = r) : renameRefs g j = j := by
  have hsub : renameRefs g j = substRefs .str j :=
    substRefs_congr hj fun r hr => by rw [h r hr]
  rw [hsub, substRefs_str hj]

theorem Plain.renameRefs {j : Json} (hj : Plain j) (g : String → String) :
    Plain (renameRefs g j) := by
  have hkeys : ∀ entries : List (String × Json),
      (entries.map fun e => (e.1, substEntry (fun r => .str (g r)) e.1 e.2)).map Prod.fst =
        entries.map Prod.fst := fun entries => by simp
  induction hj with
  | null => exact .null
  | bool b => exact .bool b
  | num q => exact .num q
  | str s => exact .str s
  | arr _ ih =>
    rw [Json.renameRefs, substRefs_arr]
    refine .arr fun j hmem => ?_
    obtain ⟨j', hmem', rfl⟩ := List.mem_map.mp hmem
    exact ih j' hmem'
  | obj hnodup hproto _ ih =>
    rw [Json.renameRefs, substRefs_obj]
    refine .obj ((hkeys _).symm ▸ hnodup) ((hkeys _).symm ▸ hproto) fun e hmem => ?_
    obtain ⟨⟨name, j⟩, hmem', rfl⟩ := List.mem_map.mp hmem
    cases href : ref? name j with
    | some r =>
      obtain ⟨rfl, rfl⟩ := ref?_eq_some_iff.mp href
      exact .str (g r)
    | none => exact (substEntry_of_none href _).symm ▸ ih _ hmem'

theorem hasRef_renameRefs_iff {g : String → String} {j : Json} (hj : Plain j) {r' : String} :
    HasRef (renameRefs g j) r' ↔ ∃ r, HasRef j r ∧ g r = r' := by
  induction hj with
  | null => exact ⟨fun h => (nomatch h), fun ⟨_, h, _⟩ => (nomatch h)⟩
  | bool b => exact ⟨fun h => (nomatch h), fun ⟨_, h, _⟩ => (nomatch h)⟩
  | num q => exact ⟨fun h => (nomatch h), fun ⟨_, h, _⟩ => (nomatch h)⟩
  | str s => exact ⟨fun h => (nomatch h), fun ⟨_, h, _⟩ => (nomatch h)⟩
  | arr _ ih =>
    rw [renameRefs, substRefs_arr, hasRef_arr_iff]
    constructor
    · rintro ⟨_, hmem, h⟩
      obtain ⟨j, hmem', rfl⟩ := List.mem_map.mp hmem
      obtain ⟨r, hr, heq⟩ := (ih j hmem').mp h
      exact ⟨r, .item hmem' hr, heq⟩
    · rintro ⟨r, h, heq⟩
      obtain ⟨j, hmem, hr⟩ := hasRef_arr_iff.mp h
      exact ⟨_, List.mem_map_of_mem hmem, (ih j hmem).mpr ⟨r, hr, heq⟩⟩
  | @obj entries _ _ _ ih =>
    have hentry : ∀ name j, (name, j) ∈ entries →
        ((ref? name (substEntry (fun r => .str (g r)) name j) = some r' ∨
          HasRef (substEntry (fun r => .str (g r)) name j) r') ↔
            ∃ r, (ref? name j = some r ∨ HasRef j r) ∧ g r = r') := by
      intro name j hmem
      cases href : ref? name j with
      | some r =>
        have hnone := not_hasRef_of_ref? href
        obtain ⟨rfl, rfl⟩ := ref?_eq_some_iff.mp href
        have hleaf : ¬ HasRef (.str (g r)) r' := fun h => (nomatch h)
        simp [ref?_eq_some_iff, hnone, hleaf]
      | none =>
        have hnone := ref?_substRefs href fun r => .str (g r)
        rw [substEntry_of_none href, hnone]
        simpa [renameRefs] using ih _ hmem
    rw [renameRefs, substRefs_obj, hasRef_obj_iff]
    constructor
    · rintro ⟨_, _, hmem, h⟩
      obtain ⟨⟨name, j⟩, hmem', heq⟩ := List.mem_map.mp hmem
      cases heq
      obtain ⟨r, hr, heq⟩ := (hentry name j hmem').mp h
      exact ⟨r, .of_entry hmem' hr, heq⟩
    · rintro ⟨r, h, heq⟩
      obtain ⟨name, j, hmem, hr⟩ := hasRef_obj_iff.mp h
      exact ⟨name, _, List.mem_map.mpr ⟨_, hmem, rfl⟩, (hentry name j hmem).mpr ⟨r, hr, heq⟩⟩

/-- The same tree has the same references. -/
theorem HasRef.same {a b : Json} {r : String} (h : HasRef a r) (ha : Plain a) (hb : Plain b)
    (hab : Same a b) : HasRef b r := by
  induction h generalizing b with
  | @here entries r hmem =>
    cases ha with
    | obj hnodup hproto hparts =>
      obtain ⟨y, hy, hsame⟩ := hab.key hnodup hmem
      have hshape := hsame.shape
      cases hb with
      | obj hnodup' =>
        cases y with
        | str s =>
          obtain rfl : r = s := by simpa [Json.shape] using hshape
          exact .here ((lookup_eq_some_iff hnodup').mp hy)
        | _ => simp [Json.shape] at hshape
      | _ => cases hy
  | @item items j r hmem hr ih =>
    cases ha with
    | arr hparts =>
      obtain ⟨i, hi, rfl⟩ := List.mem_iff_getElem.mp hmem
      have hitem : (Json.arr items).child? (.index i) = some items[i] := List.getElem?_eq_getElem hi
      obtain ⟨y, hy, hsame⟩ := hab.child hitem
      cases hb with
      | arr hparts' =>
        have hmem' := List.mem_of_getElem? hy
        exact .item hmem' (ih (hparts _ hmem) (hparts' _ hmem') hsame)
      | _ => cases hy
  | @entry entries name j r hmem hr ih =>
    cases ha with
    | obj hnodup hproto hparts =>
      obtain ⟨y, hy, hsame⟩ := hab.key hnodup hmem
      cases hb with
      | obj hnodup' hproto' hparts' =>
        have hmem' := (lookup_eq_some_iff hnodup').mp hy
        exact .entry hmem' (ih (hparts _ hmem) (hparts' _ hmem') hsame)
      | _ => cases hy

/-! ## Checking a value -/

mutual

/-- The references of a value, in their order. -/
def refs : Json → List String
  | .arr items => itemsRefs items
  | .obj entries => entriesRefs entries
  | _ => []

def itemsRefs : List Json → List String
  | [] => []
  | j :: items => refs j ++ itemsRefs items

def entriesRefs : List (String × Json) → List String
  | [] => []
  | (name, j) :: entries => (ref? name j).toList ++ refs j ++ entriesRefs entries

end

mutual

theorem mem_refs_iff {r : String} : (j : Json) → (r ∈ refs j ↔ HasRef j r)
  | .null => ⟨fun h => (nomatch h), fun h => (nomatch h)⟩
  | .bool _ => ⟨fun h => (nomatch h), fun h => (nomatch h)⟩
  | .num _ => ⟨fun h => (nomatch h), fun h => (nomatch h)⟩
  | .str _ => ⟨fun h => (nomatch h), fun h => (nomatch h)⟩
  | .arr items => by rw [refs, hasRef_arr_iff, mem_itemsRefs_iff items]
  | .obj entries => by rw [refs, hasRef_obj_iff, mem_entriesRefs_iff entries]

theorem mem_itemsRefs_iff {r : String} :
    (items : List Json) → (r ∈ itemsRefs items ↔ ∃ j ∈ items, HasRef j r)
  | [] => by simp [itemsRefs]
  | j :: items => by
    rw [itemsRefs, List.mem_append, mem_refs_iff j, mem_itemsRefs_iff items]
    simp

theorem mem_entriesRefs_iff {r : String} : (entries : List (String × Json)) →
    (r ∈ entriesRefs entries ↔ ∃ name j, (name, j) ∈ entries ∧ (ref? name j = some r ∨ HasRef j r))
  | [] => by simp [entriesRefs]
  | (name, j) :: entries => by
    rw [entriesRefs, List.mem_append, List.mem_append, Option.mem_toList, mem_refs_iff j,
      mem_entriesRefs_iff entries]
    constructor
    · rintro (h | ⟨name', j', hmem, h⟩)
      · exact ⟨name, j, List.mem_cons_self, h⟩
      · exact ⟨name', j', List.mem_cons_of_mem _ hmem, h⟩
    · rintro ⟨name', j', hmem, h⟩
      rcases List.mem_cons.mp hmem with heq | hmem
      · cases heq
        exact .inl h
      · exact .inr ⟨name', j', hmem, h⟩

end

mutual

def plain? : Json → Bool
  | .arr items => itemsPlain? items
  | .obj entries => (entries.map Prod.fst).Nodup ∧ "__proto__" ∉ entries.map Prod.fst ∧
    entriesPlain? entries
  | _ => true

def itemsPlain? : List Json → Bool
  | [] => true
  | j :: items => plain? j && itemsPlain? items

def entriesPlain? : List (String × Json) → Bool
  | [] => true
  | (_, j) :: entries => plain? j && entriesPlain? entries

end

mutual

theorem plain_of_plain? : (j : Json) → plain? j = true → Plain j
  | .null, _ => .null
  | .bool b, _ => .bool b
  | .num q, _ => .num q
  | .str s, _ => .str s
  | .arr items, h => .arr (plain_of_itemsPlain? items h)
  | .obj entries, h => by
    rw [plain?, decide_eq_true_iff] at h
    exact .obj h.1 h.2.1 (plain_of_entriesPlain? entries h.2.2)

theorem plain_of_itemsPlain? : (items : List Json) → itemsPlain? items = true →
    ∀ j ∈ items, Plain j
  | [], _, _, hmem => (nomatch hmem)
  | x :: items, h, j, hmem => by
    rw [itemsPlain?, Bool.and_eq_true] at h
    rcases List.mem_cons.mp hmem with heq | hmem
    · rw [heq]
      exact plain_of_plain? x h.1
    · exact plain_of_itemsPlain? items h.2 j hmem

theorem plain_of_entriesPlain? : (entries : List (String × Json)) →
    entriesPlain? entries = true → ∀ e ∈ entries, Plain e.2
  | [], _, _, hmem => (nomatch hmem)
  | (name, x) :: entries, h, e, hmem => by
    rw [entriesPlain?, Bool.and_eq_true] at h
    rcases List.mem_cons.mp hmem with heq | hmem
    · rw [heq]
      exact plain_of_plain? x h.1
    · exact plain_of_entriesPlain? entries h.2 e hmem

end

/-! ## What a value means -/

/-- The target of a reference with its references replaced in turn, some levels deep; the
references after the last level are cut off. -/
def value (resolve : String → Option Json) : ℕ → String → Json
  | 0, _ => .null
  | k + 1, r =>
    match resolve r with
    | some j => substRefs (value resolve k) j
    | none => .str r

/-- A value with its references replaced by their targets, some levels deep. -/
def expand (resolve : String → Option Json) (k : ℕ) (j : Json) : Json :=
  substRefs (value resolve k) j

theorem value_of_resolve {resolve : String → Option Json} {r : String} {j : Json}
    (h : resolve r = some j) (k : ℕ) : value resolve (k + 1) r = expand resolve k j := by
  rw [value, h, expand]

/-- A document that has more means the same by references that resolve, if the other references
there do not resolve in either. -/
theorem value_of_extends {resolve resolve' : String → Option Json}
    (hplain : ∀ r j, resolve r = some j → Plain j)
    (hclosed : ∀ r j, resolve r = some j → ∀ r', HasRef j r' →
      (resolve r').isSome ∨ resolve' r' = none)
    (hext : ∀ r j, resolve r = some j → resolve' r = some j) (k : ℕ) {r : String}
    (hr : (resolve r).isSome ∨ resolve' r = none) : value resolve' k r = value resolve k r := by
  induction k generalizing r with
  | zero => rfl
  | succ k ih =>
    cases hj : resolve r with
    | some j =>
      rw [value, value, hj, hext r j hj]
      exact substRefs_congr (hplain r j hj) fun r' hr' => ih (hclosed r j hj r' hr')
    | none =>
      have hnone : resolve' r = none := by simpa [hj] using hr
      rw [value, value, hj, hnone]

/-! ## Copying a tree under new names -/

section Renaming

variable (source dest : String → Option Json) (copied : String → Prop) (g : String → String)

/-- The references reached from a value through targets that were copied. -/
inductive Reaches (j : Json) : String → Prop where
  | direct {r : String} : HasRef j r → Reaches j r
  | through {r r' : String} {target : Json} : Reaches j r → copied r → source r = some target →
      HasRef target r' → Reaches j r'

/-- Targets are copied with their references renamed, under the renamed reference. -/
structure Renaming : Prop where
  plain : ∀ r j, source r = some j → Plain j
  copies : ∀ r, copied r → ∃ j, source r = some j ∧ dest (g r) = some (renameRefs g j)

namespace Renaming

variable {source dest copied g}

theorem same_expand_iff_refs {j : Json} (hj : Plain j) (k : ℕ) :
    Same (expand dest k (renameRefs g j)) (expand source k j) ↔
      ∀ r, HasRef j r → Same (value dest k (g r)) (value source k r) := by
  rw [expand, expand, substRefs_renameRefs _ _ hj, same_substRefs_iff hj]
  rfl

/-- A renamed tree means what the original means, if and only if the references do that are reached
from it and whose targets were not copied. -/
theorem same_expand_iff (h : Renaming source dest copied g) {j : Json} (hj : Plain j) :
    (∀ k, Same (expand dest k (renameRefs g j)) (expand source k j)) ↔
      ∀ r, Reaches source copied j r → ¬ copied r → ∀ k,
        Same (value dest k (g r)) (value source k r) := by
  constructor
  · intro hsame r hreach _
    clear * - h hj hsame hreach
    induction hreach with
    | direct hr => exact fun k => (same_expand_iff_refs hj k).mp (hsame k) _ hr
    | @through r r' target _ hcopied htarget hr' ih =>
      intro k
      obtain ⟨t, ht, hdest⟩ := h.copies r hcopied
      obtain rfl : t = target := Option.some.inj (ht.symm.trans htarget)
      have hk := ih (k + 1)
      rw [value_of_resolve hdest, value_of_resolve htarget] at hk
      exact (same_expand_iff_refs (h.plain r t ht) k).mp hk r' hr'
  · intro hkept k
    have hall : ∀ r, Reaches source copied j r → Same (value dest k (g r)) (value source k r) := by
      induction k with
      | zero => exact fun r _ => .refl _
      | succ k ih =>
        intro r hreach
        by_cases hcopied : copied r
        · obtain ⟨t, ht, hdest⟩ := h.copies r hcopied
          rw [value_of_resolve hdest, value_of_resolve ht]
          exact (same_expand_iff_refs (h.plain r t ht) k).mpr fun r' hr' =>
            ih r' (.through hreach hcopied ht hr')
        · exact hkept r hreach hcopied (k + 1)
    exact (same_expand_iff_refs hj k).mpr fun r hr => hall r (.direct hr)

end Renaming

end Renaming

end BankPlatform.Library.Json
