/-
**Ordered tables and the lists that scan them.**
-/

import Mathlib

namespace OrdTable

instance transCmp_compare {K : Type} [LinearOrder K] : Std.TransCmp (compare : K → K → Ordering) :=
  inferInstance

abbrev Table (K V : Type) [LinearOrder K] := Std.ExtTreeMap K V compare

section

variable {K V : Type} [LinearOrder K] (table : Table K V)

@[simp] theorem get_insert (key other : K) (value : V) :
    (table.insert key value)[other]? = if key = other then some value else table[other]? := by
  simp [Std.ExtTreeMap.getElem?_insert]

@[simp] theorem get_erase (key other : K) :
    (table.erase key)[other]? = if key = other then none else table[other]? := by
  simp [Std.ExtTreeMap.getElem?_erase]

theorem table_ext {table table' : Table K V} (same : ∀ key : K, table[key]? = table'[key]?) :
    table = table' :=
  Std.ExtTreeMap.ext_getElem? fun key => same key

theorem mem_keys_iff (key : K) : key ∈ table.keys ↔ table[key]? ≠ none := by
  rw [Std.ExtTreeMap.mem_keys, ← Std.ExtTreeMap.isSome_getElem?_iff_mem, Option.isSome_iff_ne_none]

theorem erase_absent {key : K} (absent : table[key]? = none) :
    table.erase key = table := by
  refine table_ext fun other => ?_
  rw [get_erase]
  split_ifs with same
  · rw [← same, absent]
  · rfl

end

/-! ### Batches -/

section

variable {K V : Type} [LinearOrder K]

def amend (table : Table K V) (change : K × Option V) : Table K V :=
  match change.2 with
  | some value => table.insert change.1 value
  | none => table.erase change.1

def amendAll (table : Table K V) (changes : List (K × Option V)) : Table K V :=
  changes.foldl amend table

def latest {W : Type} (changes : List (K × W)) (key : K) : Option W :=
  changes.foldl (fun seen change => if change.1 = key then some change.2 else seen) none

variable (table : Table K V)

@[simp] theorem get_amend (change : K × Option V) (key : K) :
    (amend table change)[key]? = if change.1 = key then change.2 else table[key]? := by
  unfold amend
  rcases change with ⟨changed, _ | value⟩
  · exact get_erase table changed key
  · exact get_insert table changed key value

theorem amendAll_append (first second : List (K × Option V)) :
    amendAll table (first ++ second) = amendAll (amendAll table first) second :=
  List.foldl_append

theorem latest_append_singleton {W : Type} (changes : List (K × W)) (change : K × W) (key : K) :
    latest (changes ++ [change]) key =
      if change.1 = key then some change.2 else latest changes key := by
  simp [latest, List.foldl_append]

theorem get_amendAll (changes : List (K × Option V)) (key : K) :
    (amendAll table changes)[key]? = (latest changes key).getD table[key]? := by
  induction changes using List.reverseRecOn with
  | nil => rfl
  | append_singleton changes change ih =>
    rw [amendAll_append, latest_append_singleton]
    show (amend (amendAll table changes) change)[key]? = _
    rw [get_amend]
    split_ifs with same
    · rfl
    · exact ih

theorem latest_map {W W' : Type} (f : W → W') (changes : List (K × W)) (key : K) :
    latest (changes.map fun change => (change.1, f change.2)) key = (latest changes key).map f := by
  induction changes using List.reverseRecOn with
  | nil => rfl
  | append_singleton changes change ih =>
    rw [List.map_append, List.map_singleton, latest_append_singleton, latest_append_singleton, ih]
    split_ifs with same
    all_goals rfl

theorem latest_eq_none_iff {W : Type} (changes : List (K × W)) (key : K) :
    latest changes key = none ↔ ∀ change ∈ changes, change.1 ≠ key := by
  induction changes using List.reverseRecOn with
  | nil => exact iff_of_true rfl nofun
  | append_singleton changes change ih =>
    rw [latest_append_singleton]
    split_ifs with same
    · refine iff_of_false not_false fun all => ?_
      exact all change (List.mem_append_right _ (List.mem_singleton_self change)) same
    · rw [ih]
      constructor
      · intro others entry member
        rcases List.mem_append.mp member with old | new
        · exact others entry old
        · rw [List.mem_singleton.mp new]
          exact same
      · exact fun all entry member => all entry (List.mem_append_left _ member)

end

/-! ### Scans -/

section

variable {K V : Type} [LinearOrder K]

/-- **`pairs` is the listing of a partial map**: its pairs, in strictly ascending key order. -/
structure Lists (pairs : List (K × V)) (view : K → Option V) : Prop where
  ascending : pairs.Pairwise fun first second => first.1 < second.1
  mem_iff : ∀ key value, (key, value) ∈ pairs ↔ view key = some value

variable {pairs : List (K × V)} {view : K → Option V}

theorem Lists.nodup (lists : Lists pairs view) :
    pairs.Nodup :=
  lists.ascending.imp fun less same => absurd (same ▸ less) (lt_irrefl _)

theorem Lists.unique {pairs' : List (K × V)} (first : Lists pairs view) (second : Lists pairs' view) :
    pairs = pairs' := by
  have perm : pairs.Perm pairs' :=
    (List.perm_ext_iff_of_nodup first.nodup second.nodup).mpr fun pair =>
      (first.mem_iff pair.1 pair.2).trans (second.mem_iff pair.1 pair.2).symm
  exact perm.eq_of_pairwise (fun _ _ _ _ less more => absurd (less.trans more) (lt_irrefl _))
    first.ascending second.ascending

theorem Lists.congr {view' : K → Option V} (lists : Lists pairs view) (same : ∀ key, view key = view' key) :
    Lists pairs view' :=
  ⟨lists.ascending, fun key value => by rw [lists.mem_iff, same]⟩

theorem Lists.view_eq {view' : K → Option V} (first : Lists pairs view) (second : Lists pairs view')
    (key : K) : view key = view' key := by
  refine Option.ext fun value => ?_
  rw [← first.mem_iff, second.mem_iff]

variable (table : Table K V)

theorem lists_toList : Lists table.toList fun key => table[key]? where
  ascending := by
    refine (Std.ExtTreeMap.ordered_keys_toList (t := table)).imp fun less => ?_
    exact compare_lt_iff_lt.mp less
  mem_iff key value := Std.ExtTreeMap.mem_toList_iff_getElem?_eq_some

theorem Lists.filter (lists : Lists pairs view) (keep : K → Bool) :
    Lists (pairs.filter fun pair => keep pair.1)
      fun key => if keep key then view key else none where
  ascending := lists.ascending.filter _
  mem_iff key value := by
    rw [List.mem_filter, lists.mem_iff]
    by_cases kept : keep key = true
    all_goals simp [kept]

theorem Lists.latest (lists : Lists pairs view) (key : K) : latest pairs key = view key := by
  have single : ∀ (front : List (K × V)), front.Pairwise (fun a b => a.1 < b.1) →
      ∀ value, (key, value) ∈ front → OrdTable.latest front key = some value := by
    intro front
    induction front using List.reverseRecOn with
    | nil => exact fun _ _ member => absurd member List.not_mem_nil
    | append_singleton front last ih =>
      intro ascending value member
      rw [latest_append_singleton]
      obtain ⟨sorted, _, below⟩ := List.pairwise_append.mp ascending
      rcases List.mem_append.mp member with old | new
      · have less : key < last.1 := below _ old last (List.mem_singleton_self last)
        rw [if_neg (ne_of_gt less)]
        exact ih sorted value old
      · rw [← List.mem_singleton.mp new, if_pos rfl]
  cases seen : view key with
  | some value => exact single pairs lists.ascending value ((lists.mem_iff key value).mpr seen)
  | none =>
    refine (latest_eq_none_iff pairs key).mpr fun change member same => ?_
    have found := (lists.mem_iff change.1 change.2).mp member
    simp [same, seen] at found

def scan (table : Table K V) (inside : K → Prop) [DecidablePred inside] : List (K × V) :=
  table.toList.filter fun pair => inside pair.1

theorem lists_scan (inside : K → Prop) [DecidablePred inside] :
    Lists (scan table inside) fun key => if inside key then table[key]? else none := by
  simpa [scan] using (lists_toList table).filter fun key => decide (inside key)

theorem scan_congr {inside inside' : K → Prop} [DecidablePred inside] [DecidablePred inside']
    (same : ∀ key, inside key ↔ inside' key) :
    scan table inside = scan table inside' :=
  (lists_scan table inside).unique ((lists_scan table inside').congr fun key =>
    if_congr (same key).symm rfl rfl)

end

/-! ### Weights -/

section

variable {K V : Type} [LinearOrder K] (weight : K → V → ℕ)

def total (table : Table K V) : ℕ := (table.toList.map fun pair => weight pair.1 pair.2).sum

@[simp] theorem total_empty : total weight (∅ : Table K V) = 0 := rfl

theorem total_insert (table : Table K V) (key : K) (value : V) :
    total weight (table.insert key value) = total weight (table.erase key) + weight key value := by
  have apart : (key, value) ∉ (table.erase key).toList := by
    rw [(lists_toList (table.erase key)).mem_iff, get_erase, if_pos rfl]
    exact nofun
  have perm : (table.insert key value).toList.Perm ((key, value) :: (table.erase key).toList) := by
    refine (List.perm_ext_iff_of_nodup (lists_toList _).nodup
      (List.nodup_cons.mpr ⟨apart, (lists_toList _).nodup⟩)).mpr ?_
    rintro ⟨other, held⟩
    rw [List.mem_cons, (lists_toList _).mem_iff, (lists_toList _).mem_iff, get_insert, get_erase]
    by_cases own : key = other
    · subst own
      simp [eq_comm]
    · simp [own, Ne.symm own]
  unfold total
  rw [(perm.map _).sum_eq, List.map_cons, List.sum_cons, Nat.add_comm]

theorem total_erase {table : Table K V} {key : K} {value : V} (found : table[key]? = some value) :
    total weight (table.erase key) + weight key value = total weight table := by
  have same : table.insert key value = table := by
    refine table_ext fun other => ?_
    rw [get_insert]
    split_ifs with own
    · rw [← own, found]
    · rfl
  rw [← total_insert, same]

end

end OrdTable
