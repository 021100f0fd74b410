import BankPlatform.Library.JsMap

/-!
# Plain objects

An object used as a record: its properties have distinct names, and it inherits those that every
object has. The operator `in` sees both.

## Main definitions

* `JsRecord.has` — `name in record`.
* `JsRecord.assignNew`, `JsRecord.assignAllNew` — assign properties that the record does not have.
-/

namespace BankPlatform.Library

abbrev JsRecord (α : Type*) := JsMap String α

namespace JsRecord

variable {α ι : Type*}

/-- The properties of `Object.prototype`. -/
def inherited : List String :=
  ["constructor", "__defineGetter__", "__defineSetter__", "hasOwnProperty", "__lookupGetter__",
    "__lookupSetter__", "isPrototypeOf", "propertyIsEnumerable", "toString", "valueOf", "__proto__",
    "toLocaleString"]

/-- `name in record`. -/
def has (record : JsRecord α) (name : String) : Bool :=
  (record.get? name).isSome || inherited.contains name

/-- `Object.keys(record)`. -/
def keys (record : JsRecord α) : List String := record.rows.map Prod.fst

/-- Assign a property if the record has none of the name. -/
def assignNew (record : JsRecord α) (name : String) (a : α) : JsRecord α :=
  if has record name then record else record.set name a

/-- Assign properties one after the other. -/
def assignAllNew (name : ι → String) (value : ι → α) (record : JsRecord α) (items : List ι) :
    JsRecord α :=
  items.foldl (fun record i => assignNew record (name i) (value i)) record

theorem has_iff {record : JsRecord α} {name : String} :
    has record name = true ↔ (∃ a, record.get? name = some a) ∨ name ∈ inherited := by
  simp [has, Option.isSome_iff_exists]

theorem mem_keys_iff {record : JsRecord α} {name : String} :
    name ∈ keys record ↔ ∃ a, record.get? name = some a := by
  simp [keys, JsMap.get?_eq_some_iff]

theorem get?_assignNew (record : JsRecord α) (name name' : String) (a : α) :
    (assignNew record name a).get? name' =
      if has record name = false ∧ name = name' then some a else record.get? name' := by
  unfold assignNew
  cases hhas : has record name with
  | true => simp
  | false => simp [JsMap.get?_set]

theorem assignAllNew_cons (name : ι → String) (value : ι → α) (record : JsRecord α) (i : ι)
    (items : List ι) : assignAllNew name value record (i :: items) =
      assignAllNew name value (assignNew record (name i) (value i)) items := rfl

/-- What a record has is never assigned to. -/
theorem get?_assignAllNew_of_some {name : ι → String} {value : ι → α} {record : JsRecord α}
    {items : List ι} {n : String} {a : α} (h : record.get? n = some a) :
    (assignAllNew name value record items).get? n = some a := by
  induction items generalizing record with
  | nil => exact h
  | cons i items ih =>
    refine ih ?_
    rw [get?_assignNew]
    split
    · next hnew =>
      have hhas := has_iff.mpr (.inl ⟨a, hnew.2 ▸ h⟩)
      rw [hnew.1] at hhas
      cases hhas
    · exact h

/-- A property that the record did not have was assigned. -/
theorem get?_assignAllNew_new {name : ι → String} {value : ι → α} {record : JsRecord α}
    {items : List ι} {n : String} {a : α}
    (h : (assignAllNew name value record items).get? n = some a)
    (hnone : record.get? n = none) : ∃ i ∈ items, name i = n ∧ value i = a := by
  induction items generalizing record with
  | nil => rw [assignAllNew, List.foldl_nil, hnone] at h; cases h
  | cons i items ih =>
    by_cases hnew : has record (name i) = false ∧ name i = n
    · have hset : (assignNew record (name i) (value i)).get? n = some (value i) := by
        rw [get?_assignNew, if_pos hnew]
      have hkept : (assignAllNew name value record (i :: items)).get? n = some (value i) := by
        rw [assignAllNew_cons]
        exact get?_assignAllNew_of_some hset
      exact ⟨i, List.mem_cons_self, hnew.2, Option.some.inj (hkept.symm.trans h)⟩
    · have hskip : (assignNew record (name i) (value i)).get? n = none := by
        rw [get?_assignNew, if_neg hnew, hnone]
      obtain ⟨j, hj, hspec⟩ := ih h hskip
      exact ⟨j, List.mem_cons_of_mem _ hj, hspec⟩

/-- Where the names are distinct, each that the record does not have gets its value. -/
theorem get?_assignAllNew {name : ι → String} {value : ι → α} {record : JsRecord α}
    {items : List ι} (hnodup : (items.map name).Nodup) {i : ι} (hi : i ∈ items)
    (hnew : has record (name i) = false) :
    (assignAllNew name value record items).get? (name i) = some (value i) := by
  induction items generalizing record with
  | nil => cases hi
  | cons x items ih =>
    obtain ⟨hfresh, hrest⟩ := List.nodup_cons.mp hnodup
    rcases List.mem_cons.mp hi with rfl | hi
    · rw [assignAllNew_cons]
      refine get?_assignAllNew_of_some ?_
      rw [get?_assignNew, if_pos ⟨hnew, rfl⟩]
    · have hne : name x ≠ name i := fun heq => hfresh (heq ▸ List.mem_map_of_mem hi)
      refine ih hrest hi ?_
      rw [has, get?_assignNew, if_neg fun h => hne h.2]
      exact hnew

end JsRecord

end BankPlatform.Library
