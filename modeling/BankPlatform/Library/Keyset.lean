import Mathlib.Data.List.Sort
import Mathlib.Order.Basic

/-!
# Keyset pagination

The rows of a table, newest first, in pages. A page reads one row more than it shows, and names the
place behind its last row if there is one. The next page starts below that place, in the table as it
is by then.

## Main definitions

* `Keyset.page` — one page, `Keyset.Reads` — page after page to the end.

## Main results

* `Keyset.Reads.decreasing` — the pages are in falling order, so no row comes twice.
* `Keyset.Reads.complete` — a row that is there all the time is on one of the pages.
* `Keyset.exists_reads` — the pages of a fixed table come to an end.
-/

namespace BankPlatform.Library.Keyset

variable {R K : Type*} [LinearOrder K] (key : R → K) (mark : R → K)

/-- The rows below a place, or all rows, in falling order. -/
def rowsBelow (place : Option K) (rows : List R) : List R :=
  (rows.filter fun r => place.all fun k => decide (key r < k)).insertionSort
    fun r r' => key r' ≤ key r

/-- The items of a page, and the place behind it. -/
structure Page (R K : Type*) where
  items : List R
  next : Option K

/-- A page of at most `limit` rows; `mark` is how a place is named. -/
def page (limit : ℕ) (place : Option K) (rows : List R) : Page R K :=
  let found := (rowsBelow key place rows).take (limit + 1)
  let items := found.take limit
  ⟨items, if limit < found.length then items.getLast?.map mark else none⟩

/-- The pages from a place on, each of some size from the table as it then is. -/
inductive Reads : Option K → List (ℕ × List R) → List R → Prop
  | last {place limit rows} (h : (page key mark limit place rows).next = none) :
    Reads place [(limit, rows)] (page key mark limit place rows).items
  | more {place limit rows next rest items} (h : (page key mark limit place rows).next = some next)
    (hrest : Reads (some next) rest items) :
    Reads place ((limit, rows) :: rest) ((page key mark limit place rows).items ++ items)

variable {key mark}

theorem mem_rowsBelow {place : Option K} {rows : List R} {r : R} :
    r ∈ rowsBelow key place rows ↔ r ∈ rows ∧ ∀ k ∈ place, key r < k := by
  simp [rowsBelow, Option.all_eq_true]

/-- With distinct keys the order is strict. -/
theorem pairwise_rowsBelow {rows : List R} (hrows : (rows.map key).Nodup) (place : Option K) :
    (rowsBelow key place rows).Pairwise fun r r' => key r' < key r := by
  have hsorted : (rowsBelow key place rows).Pairwise fun r r' => key r' ≤ key r := by
    have : Std.Total fun r r' : R => key r' ≤ key r := ⟨fun r r' => le_total _ _⟩
    have : IsTrans R fun r r' => key r' ≤ key r := ⟨fun r r' r'' h h' => h'.trans h⟩
    exact List.pairwise_insertionSort _ _
  have hnodup : ((rowsBelow key place rows).map key).Nodup := by
    have hperm := (List.perm_insertionSort (fun r r' => key r' ≤ key r)
      (rows.filter fun r => place.all fun k => decide (key r < k))).map key
    exact hperm.nodup_iff.mpr ((List.filter_sublist.map key).nodup hrows)
  have hne : (rowsBelow key place rows).Pairwise fun r r' => key r ≠ key r' :=
    List.pairwise_map.mp hnodup
  exact (hsorted.and hne).imp fun h => lt_of_le_of_ne h.1 (Ne.symm h.2)

/-- Below the place of a row is less. -/
theorem length_rowsBelow_lt {place : Option K} {rows : List R} {x : R} {k : K} (hx : x ∈ rows)
    (hkey : key x = k) (hplace : ∀ k' ∈ place, key x < k') :
    (rowsBelow key (some k) rows).length < (rowsBelow key place rows).length := by
  simp only [rowsBelow, List.length_insertionSort]
  have hpart : (rows.filter fun r => (some k).all fun k' => decide (key r < k')) =
      (rows.filter fun r => place.all fun k' => decide (key r < k')).filter
        fun r => decide (key r < k) := by
    rw [List.filter_filter]
    refine List.filter_congr fun r _ => ?_
    simp only [Option.all_some]
    by_cases hr : key r < k
    · have hall : place.all (fun k' => decide (key r < k')) = true := by
        simp only [Option.all_eq_true, decide_eq_true_eq]
        exact fun k' hk' => hr.trans (hkey ▸ hplace k' hk')
      rw [hall, Bool.and_true]
    · rw [decide_eq_false hr, Bool.false_and]
  rw [hpart, List.length_filter_lt_length_iff_exists]
  refine ⟨x, List.mem_filter.mpr ⟨hx, ?_⟩, by simp [hkey]⟩
  simp only [Option.all_eq_true, decide_eq_true_eq]
  exact hplace

/-! ## One page -/

theorem items_page (limit : ℕ) (place : Option K) (rows : List R) :
    (page key mark limit place rows).items = (rowsBelow key place rows).take limit := by
  simp [page, List.take_take]

/-- On the last page is all that is left. -/
theorem items_of_next_none {limit : ℕ} (hlimit : 0 < limit) {place : Option K} {rows : List R}
    (h : (page key mark limit place rows).next = none) :
    (page key mark limit place rows).items = rowsBelow key place rows := by
  rw [items_page]
  apply List.take_of_length_le
  by_contra hlonger
  have hlength : 0 < ((rowsBelow key place rows).take limit).length := by
    rw [List.length_take]
    omega
  obtain ⟨r, hr⟩ := List.getLast?_isSome.mpr (List.ne_nil_of_length_pos hlength) |>
    Option.isSome_iff_exists.mp
  have hmore : limit < ((rowsBelow key place rows).take (limit + 1)).length := by
    rw [List.length_take]
    omega
  simp only [page, if_pos hmore, List.take_take, Nat.min_eq_left (Nat.le_succ limit), hr] at h
  cases h

/-- A page that is not the last ends with the row that the next place is named after. -/
theorem items_of_next_some {limit : ℕ} {place : Option K} {rows : List R} {next : K}
    (h : (page key mark limit place rows).next = some next) :
    ∃ before r after, rowsBelow key place rows = before ++ r :: after ∧
      (page key mark limit place rows).items = before ++ [r] ∧ mark r = next := by
  rw [items_page]
  simp only [page, List.take_take, Nat.min_eq_left (Nat.le_succ limit),
    Option.ite_none_right_eq_some] at h
  obtain ⟨r, hr, hmark⟩ := Option.map_eq_some_iff.mp h.2
  obtain ⟨before, hbefore⟩ := List.getLast?_eq_some_iff.mp hr
  refine ⟨before, r, (rowsBelow key place rows).drop limit, ?_, hbefore, hmark⟩
  calc rowsBelow key place rows
      = (rowsBelow key place rows).take limit ++ (rowsBelow key place rows).drop limit :=
        (List.take_append_drop _ _).symm
    _ = before ++ r :: (rowsBelow key place rows).drop limit := by rw [hbefore]; simp

/-! ## Page after page -/

/-- A page shows something, its table has distinct keys, and every place is named exactly. -/
structure Regular (key mark : R → K) (call : ℕ × List R) : Prop where
  limit : 0 < call.1
  nodup : (call.2.map key).Nodup
  exact : ∀ r ∈ call.2, mark r = key r

namespace Reads

variable {place : Option K} {calls : List (ℕ × List R)} {items : List R}

theorem mem (h : Reads key mark place calls items) {r : R} (hr : r ∈ items) :
    (∃ call ∈ calls, r ∈ call.2) := by
  induction h with
  | last _ =>
    rw [items_page] at hr
    exact ⟨_, List.mem_singleton_self _, (mem_rowsBelow.mp (List.mem_of_mem_take hr)).1⟩
  | more _ _ ih =>
    rcases List.mem_append.mp hr with hr | hr
    · rw [items_page] at hr
      exact ⟨_, List.mem_cons_self, (mem_rowsBelow.mp (List.mem_of_mem_take hr)).1⟩
    · obtain ⟨call, hcall, hmem⟩ := ih hr
      exact ⟨call, List.mem_cons_of_mem _ hcall, hmem⟩

/-- The pages are in falling order and below the place where they start. -/
theorem decreasing (h : Reads key mark place calls items)
    (hcalls : ∀ call ∈ calls, Regular key mark call) :
    (items.Pairwise fun r r' => key r' < key r) ∧ ∀ r ∈ items, ∀ k ∈ place, key r < k := by
  induction h with
  | last h =>
    have hregular := hcalls _ List.mem_cons_self
    rw [items_of_next_none hregular.limit h]
    exact ⟨pairwise_rowsBelow hregular.nodup _, fun r hr => (mem_rowsBelow.mp hr).2⟩
  | @more place limit rows next rest items h _ ih =>
    have hregular := hcalls _ List.mem_cons_self
    obtain ⟨hpairwise, hnext⟩ := ih fun call hcall => hcalls call (List.mem_cons_of_mem _ hcall)
    obtain ⟨before, x, after, hbelow, hitems, hmark⟩ := items_of_next_some h
    have hfalling := pairwise_rowsBelow hregular.nodup place
    have hplace : ∀ r ∈ rowsBelow key place rows, ∀ k ∈ place, key r < k :=
      fun r hr => (mem_rowsBelow.mp hr).2
    rw [hbelow] at hfalling hplace
    have hx : key x = next := by
      rw [← hmark, hregular.exact x]
      exact (mem_rowsBelow.mp (hbelow ▸ List.mem_append_right before List.mem_cons_self)).1
    have hlast : ∀ r ∈ before ++ [x], key x ≤ key r := by
      intro r hr
      rcases List.mem_append.mp hr with hr | hr
      · exact ((List.pairwise_append.mp hfalling).2.2 r hr x List.mem_cons_self).le
      · rw [List.mem_singleton.mp hr]
    rw [hitems]
    constructor
    · refine List.pairwise_append.mpr ⟨?_, hpairwise, fun r hr r' hr' => ?_⟩
      · rw [List.append_cons] at hfalling
        exact (List.pairwise_append.mp hfalling).1
      · exact (hnext r' hr' next rfl).trans_le (hx ▸ hlast r hr)
    · intro r hr k hk
      rcases List.mem_append.mp hr with hr | hr
      · apply hplace r ?_ k hk
        rw [List.append_cons]
        exact List.mem_append_left _ hr
      · have hbound := hplace x (List.mem_append_right _ List.mem_cons_self) k hk
        exact (hnext r hr next rfl).trans (hx ▸ hbound)

/-- What is there at every page, and below the place where they start, is on one of them. -/
theorem complete (h : Reads key mark place calls items)
    (hcalls : ∀ call ∈ calls, Regular key mark call) {k : K}
    (hthere : ∀ call ∈ calls, ∃ r ∈ call.2, key r = k) (hplace : ∀ k' ∈ place, k < k') :
    ∃ r ∈ items, key r = k := by
  induction h with
  | last h =>
    rw [items_of_next_none (hcalls _ List.mem_cons_self).limit h]
    obtain ⟨r, hr, rfl⟩ := hthere _ List.mem_cons_self
    exact ⟨r, mem_rowsBelow.mpr ⟨hr, hplace⟩, rfl⟩
  | @more place limit rows next rest items h _ ih =>
    have hregular := hcalls _ List.mem_cons_self
    obtain ⟨before, x, after, hbelow, hitems, hmark⟩ := items_of_next_some h
    obtain ⟨r, hr, rfl⟩ := hthere _ List.mem_cons_self
    have hmem : r ∈ rowsBelow key place rows := mem_rowsBelow.mpr ⟨hr, hplace⟩
    have hfalling := pairwise_rowsBelow hregular.nodup place
    rw [hbelow, List.append_cons] at hmem hfalling
    rw [hitems]
    rcases List.mem_append.mp hmem with hshown | hafter
    · exact ⟨r, List.mem_append_left _ hshown, rfl⟩
    · have hx : x ∈ rows :=
        (mem_rowsBelow.mp (hbelow ▸ List.mem_append_right before List.mem_cons_self)).1
      have hbehind : key r < key x := (List.pairwise_append.mp hfalling).2.2 x
        (List.mem_append_right _ (List.mem_singleton_self x)) r hafter
      obtain ⟨r', hr', hkey⟩ := ih (fun call hcall => hcalls call (List.mem_cons_of_mem _ hcall))
        (fun call hcall => hthere call (List.mem_cons_of_mem _ hcall)) fun k' hk' => by
          obtain rfl := Option.some.inj hk'
          rw [← hmark, hregular.exact x hx]
          exact hbehind
      exact ⟨r', List.mem_append_right _ hr', hkey⟩

end Reads

/-- The pages of a fixed table come to an end. -/
theorem exists_reads {rows : List R} (hexact : ∀ r ∈ rows, mark r = key r) (limits : ℕ → ℕ)
    (hlimits : ∀ i, 0 < limits i)
    (place : Option K) :
    ∃ count items, Reads key mark place ((List.range count).map fun i => (limits i, rows)) items := by
  induction hleft : (rowsBelow key place rows).length using Nat.strong_induction_on
    generalizing place limits with
  | _ left ih =>
    cases hnext : (page key mark (limits 0) place rows).next with
    | none => exact ⟨1, _, .last hnext⟩
    | some next =>
      obtain ⟨before, x, after, hbelow, -, hmark⟩ := items_of_next_some hnext
      have hx : x ∈ rowsBelow key place rows :=
        hbelow ▸ List.mem_append_right before List.mem_cons_self
      have hkey : key x = next := by rw [← hmark, hexact x (mem_rowsBelow.mp hx).1]
      have hfewer : (rowsBelow key (some next) rows).length < left := by
        rw [← hleft]
        exact length_rowsBelow_lt (mem_rowsBelow.mp hx).1 hkey (mem_rowsBelow.mp hx).2
      obtain ⟨count, items, hreads⟩ := ih _ hfewer (fun i => limits (i + 1))
        (fun i => hlimits (i + 1)) (some next) rfl
      refine ⟨count + 1, (page key mark (limits 0) place rows).items ++ items, ?_⟩
      rw [List.range_succ_eq_map, List.map_cons, List.map_map]
      exact .more hnext hreads

end BankPlatform.Library.Keyset
