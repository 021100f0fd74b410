import BankPlatform.Library.Table

/-!
# Maps

A JavaScript `Map`: entries with distinct keys, in the order in which the keys were first set.
-/

namespace BankPlatform.Library

instance {K V : Type*} : Keyed (K × V) K := ⟨Prod.fst⟩

abbrev JsMap (K V : Type*) := Table (K × V)

namespace JsMap

variable {K V : Type*} [DecidableEq K]

/-- `map.set(key, value)`. -/
def set (m : JsMap K V) (k : K) (v : V) : JsMap K V :=
  match m.insert? (k, v) with
  | some m' => m'
  | none => m.put (k, v)

theorem rows_set_of_fresh {m : JsMap K V} {k : K} (h : k ∉ m.rows.map Prod.fst) (v : V) :
    (m.set k v).rows = m.rows ++ [(k, v)] := by
  have hfind : m.find? k = none := by
    rw [Table.find?_eq_none]
    rintro r hr rfl
    exact h (List.mem_map_of_mem hr)
  simp [set, Table.insert?, hfind, Keyed.key]

/-- `map.get(key)`. -/
def get? (m : JsMap K V) (k : K) : Option V := (m.find? k).map Prod.snd

/-- `map.get(key)` after a `set`. -/
theorem find?_set (m : JsMap K V) (k k' : K) (v : V) :
    (m.set k v).find? k' = if k = k' then some (k, v) else m.find? k' := by
  have hkey : Keyed.key (k, v) = k := rfl
  unfold set
  split
  · next m' hinsert => rw [Table.find?_insert? hinsert, hkey]
  · next hinsert =>
    have hused : (m.find? k).isSome = true := by
      by_contra hnone
      simp [Table.insert?, hkey, Option.not_isSome_iff_eq_none.mp hnone] at hinsert
    obtain ⟨e, he⟩ := Option.isSome_iff_exists.mp hused
    rw [Table.find?_put, hkey]
    split
    · next heq => rw [← heq, he, Option.map_some]
    · rfl

/-- Setting distinct keys that are not in use appends their entries. -/
theorem rows_foldl_set {ι : Type*} {key : ι → K} {value : ι → V} {m : JsMap K V} {items : List ι}
    (h : (m.rows.map Prod.fst ++ items.map key).Nodup) :
    (items.foldl (fun m i => m.set (key i) (value i)) m).rows =
      m.rows ++ items.map fun i => (key i, value i) := by
  induction items generalizing m with
  | nil => simp
  | cons i items ih =>
    have hfresh : key i ∉ m.rows.map Prod.fst := by
      intro hmem
      exact List.disjoint_of_nodup_append h hmem (by simp)
    have hset := rows_set_of_fresh hfresh (value i)
    rw [List.foldl_cons, ih (by simpa [hset] using h), hset]
    simp

omit [DecidableEq K] in
/-- A map is its entries. -/
theorem ext {m m' : JsMap K V} (h : m.rows = m'.rows) : m = m' := by
  cases m
  cases m'
  cases h
  rfl

/-- Setting the entries of a map again, one by one. -/
theorem foldl_set_rows (m : JsMap K V) :
    m.rows.foldl (fun m e => set m e.1 e.2) Table.empty = m := by
  refine ext ?_
  have hkeys : ((Table.empty : JsMap K V).rows.map Prod.fst ++ m.rows.map Prod.fst).Nodup := m.nodup
  rw [rows_foldl_set hkeys]
  simp [Table.empty]

/-- What a map holds after some sets: an entry that was set, or one from before. -/
theorem find?_foldl_set {ι : Type*} {key : ι → K} {value : ι → V} {m : JsMap K V}
    {items : List ι} {k : K} {entry : K × V}
    (h : (items.foldl (fun m i => set m (key i) (value i)) m).find? k = some entry) :
    m.find? k = some entry ∨ ∃ i ∈ items, key i = k ∧ value i = entry.2 := by
  induction items generalizing m with
  | nil => exact .inl h
  | cons i items ih =>
    rcases ih h with hset | ⟨j, hj, hspec⟩
    · rw [find?_set] at hset
      split at hset
      · next heq => exact .inr ⟨i, List.mem_cons_self, heq, by rw [← Option.some.inj hset]⟩
      · exact .inl hset
    · exact .inr ⟨j, List.mem_cons_of_mem _ hj, hspec⟩

/-- A key that is held or set is held afterwards. -/
theorem isSome_foldl_set {ι : Type*} {key : ι → K} {value : ι → V} {m : JsMap K V}
    {items : List ι} {k : K} (h : (m.find? k).isSome = true ∨ ∃ i ∈ items, key i = k) :
    ((items.foldl (fun m i => set m (key i) (value i)) m).find? k).isSome = true := by
  induction items generalizing m with
  | nil =>
    rcases h with h | ⟨i, hi, _⟩
    · exact h
    · cases hi
  | cons i items ih =>
    refine ih ?_
    rw [find?_set]
    rcases h with h | ⟨j, hj, heq⟩
    · left
      split
      · rfl
      · exact h
    · rcases List.mem_cons.mp hj with rfl | hj
      · left
        rw [if_pos heq]
        rfl
      · exact .inr ⟨j, hj, heq⟩

theorem get?_eq_some_iff {m : JsMap K V} {k : K} {v : V} :
    m.get? k = some v ↔ (k, v) ∈ m.rows := by
  constructor
  · intro h
    obtain ⟨⟨k', v'⟩, hfind, rfl⟩ := Option.map_eq_some_iff.mp h
    obtain rfl : k' = k := Table.key_of_find? hfind
    exact Table.mem_of_find? hfind
  · intro h
    have hfind : m.find? k = some (k, v) := Table.find?_key h
    rw [get?, hfind, Option.map_some]

theorem get?_set (m : JsMap K V) (k k' : K) (v : V) :
    (m.set k v).get? k' = if k = k' then some v else m.get? k' := by
  rw [get?, find?_set]
  split
  · rfl
  · rfl

theorem mem_rows_set {m : JsMap K V} {k : K} {v : V} {e : K × V} :
    e ∈ (m.set k v).rows ↔ e = (k, v) ∨ e.1 ≠ k ∧ e ∈ m.rows := by
  obtain ⟨k', v'⟩ := e
  rw [← get?_eq_some_iff, get?_set, ← get?_eq_some_iff]
  split
  next heq => grind
  next hne => grind

/-- Replace the values. -/
def mapValues {W : Type*} (f : V → W) (m : JsMap K V) : JsMap K W where
  rows := m.rows.map fun e => (e.1, f e.2)
  nodup := by
    have hkeys : (m.rows.map fun e => (e.1, f e.2)).map Prod.fst = m.rows.map Prod.fst := by simp
    exact hkeys ▸ m.nodup

theorem get?_mapValues {W : Type*} (f : V → W) (m : JsMap K V) (k : K) :
    (m.mapValues f).get? k = (m.get? k).map f := by
  obtain ⟨rows, nodup⟩ := m
  simp only [get?, Table.find?, mapValues]
  clear nodup
  induction rows with
  | nil => rfl
  | cons e rows ih => by_cases hkey : Keyed.key e = k <;> simp_all [Keyed.key]

/-! ## Grouping -/

section Grouping

variable {ι A : Type*} (key : ι → K) (init : K → A) (add : A → ι → A)

/-- One round of a loop that collects items by key: get the entry or create it, then add to it. -/
def collect (m : JsMap K A) (i : ι) : JsMap K A :=
  m.set (key i) (add ((m.get? (key i)).getD (init (key i))) i)

variable {key init add}

theorem get?_foldl_collect (items : List ι) (m : JsMap K A) (k : K) :
    (items.foldl (collect key init add) m).get? k =
      if items.filter (fun i => key i = k) = [] then m.get? k
      else some ((items.filter fun i => key i = k).foldl add ((m.get? k).getD (init k))) := by
  induction items generalizing m with
  | nil => rfl
  | cons i items ih =>
    rw [List.foldl_cons, ih, collect, get?_set]
    by_cases hkey : key i = k
    · subst hkey
      rw [List.filter_cons_of_pos (by simp), if_pos rfl, if_neg (List.cons_ne_nil _ _)]
      split
      next hnone => rw [hnone, List.foldl_cons, List.foldl_nil]
      next => rw [List.foldl_cons, Option.getD_some]
    · rw [List.filter_cons_of_neg (by simpa using hkey), if_neg hkey]

/-- Each key has what its items add up to, in their order. -/
theorem mem_rows_collect {items : List ι} {k : K} {a : A} :
    (k, a) ∈ (items.foldl (collect key init add) Table.empty).rows ↔
      items.filter (fun i => key i = k) ≠ [] ∧
        a = (items.filter fun i => key i = k).foldl add (init k) := by
  have hnone : get? (Table.empty : JsMap K A) k = none := rfl
  rw [← get?_eq_some_iff, get?_foldl_collect, hnone]
  split
  next hempty => simp [hempty]
  next hitems =>
    rw [Option.some.injEq, Option.getD_none]
    exact ⟨fun h => ⟨hitems, h.symm⟩, fun h => h.2.symm⟩

end Grouping

end JsMap

end BankPlatform.Library
