/-
**Linked hash maps.**
-/

import Mathlib

/-- **A map with its entries in the order they came in**, the newest first. -/
structure LinkedMap (κ α : Type) where
  entries : AList fun _ : κ => α

namespace LinkedMap

variable {κ α : Type}

instance : EmptyCollection (LinkedMap κ α) := ⟨⟨∅⟩⟩

def keys (map : LinkedMap κ α) : List κ := map.entries.keys

def len (map : LinkedMap κ α) : ℕ := map.keys.length

def front (map : LinkedMap κ α) : Option (κ × α) :=
  map.entries.entries.getLast?.map fun entry => (entry.1, entry.2)

variable [DecidableEq κ]

def get (map : LinkedMap κ α) (key : κ) : Option α := map.entries.lookup key

def contains (map : LinkedMap κ α) (key : κ) : Bool := (map.get key).isSome

def insert (map : LinkedMap κ α) (key : κ) (value : α) : LinkedMap κ α := ⟨map.entries.insert key value⟩

def erase (map : LinkedMap κ α) (key : κ) : LinkedMap κ α := ⟨map.entries.erase key⟩

def popFront (map : LinkedMap κ α) : Option (κ × α) × LinkedMap κ α :=
  match map.front with
  | none => (none, map)
  | some (key, value) => (some (key, value), map.erase key)

variable (map : LinkedMap κ α) {key other : κ} {value : α}

@[simp] theorem get_empty (key : κ) : (∅ : LinkedMap κ α).get key = none := AList.lookup_empty key

omit [DecidableEq κ] in
@[simp] theorem len_empty : (∅ : LinkedMap κ α).len = 0 := rfl

theorem get_insert (key other : κ) (value : α) :
    (map.insert key value).get other = if other = key then some value else map.get other := by
  unfold get insert
  by_cases same : other = key
  · rw [if_pos same, same, AList.lookup_insert]
  · rw [if_neg same, AList.lookup_insert_ne same]

@[simp] theorem get_insert_self (key : κ) (value : α) : (map.insert key value).get key = some value := by
  rw [get_insert, if_pos rfl]

theorem get_erase (key other : κ) :
    (map.erase key).get other = if other = key then none else map.get other := by
  unfold get erase
  by_cases same : other = key
  · rw [if_pos same, same, AList.lookup_erase]
  · rw [if_neg same, AList.lookup_erase_ne same]

theorem get_insert_eq_update (key : κ) (value : α) :
    (map.insert key value).get = Function.update map.get key (some value) := by
  funext other
  rw [get_insert, Function.update_apply]

theorem get_erase_eq_update (key : κ) : (map.erase key).get = Function.update map.get key none := by
  funext other
  rw [get_erase, Function.update_apply]

@[simp] theorem get_erase_self (key : κ) : (map.erase key).get key = none := by rw [get_erase, if_pos rfl]

theorem mem_keys_iff : key ∈ map.keys ↔ map.contains key = true :=
  (AList.mem_keys.symm.trans AList.lookup_isSome.symm)

variable {map : LinkedMap κ α}

theorem contains_of_get (found : map.get key = some value) :
    map.contains key = true := by
  rw [contains, found]
  rfl

theorem contains_of_get_none (absent : map.get key = none) :
    map.contains key = false := by
  rw [contains, absent]
  rfl

theorem contains_insert (key other : κ) (value : α) :
    (map.insert key value).contains other = true ↔ other = key ∨ map.contains other = true := by
  unfold contains
  rw [get_insert]
  by_cases same : other = key
  all_goals simp [same]

theorem contains_erase (key other : κ) :
    (map.erase key).contains other = true ↔ other ≠ key ∧ map.contains other = true := by
  unfold contains
  rw [get_erase]
  by_cases same : other = key
  all_goals simp [same]

theorem keys_insert (key : κ) (value : α) : (map.insert key value).keys = key :: map.keys.erase key :=
  AList.keys_insert map.entries

theorem keys_erase (key : κ) : (map.erase key).keys = map.keys.erase key := AList.keys_erase key map.entries

theorem erase_of_absent (absent : map.contains key = false) : map.erase key = map := by
  obtain ⟨entries⟩ := map
  have missing : key ∉ entries.entries.keys := by
    intro inside
    have member : contains ⟨entries⟩ key = true := AList.lookup_isSome.mpr (AList.mem_keys.mpr inside)
    simp [member] at absent
  exact congrArg LinkedMap.mk (AList.ext (List.kerase_of_notMem_keys missing))

omit [DecidableEq κ] in
theorem nodup_keys : map.keys.Nodup := map.entries.keys_nodup

omit [DecidableEq κ] in
theorem eq_empty_of_len (empty : map.len = 0) : map = ∅ := by
  obtain ⟨⟨entries, nodup⟩⟩ := map
  have none' : entries = [] := List.map_eq_nil_iff.mp (List.length_eq_zero_iff.mp empty)
  subst none'
  rfl

theorem len_insert (key : κ) (value : α) :
    (map.insert key value).len = if map.contains key then map.len else map.len + 1 := by
  rw [len, keys_insert, List.length_cons]
  split_ifs with member
  · have inside := map.mem_keys_iff.mpr member
    have := List.length_pos_of_mem inside
    rw [List.length_erase_of_mem inside, len]
    omega
  · rw [List.erase_of_not_mem fun inside => member (map.mem_keys_iff.mp inside), len]

theorem len_insert_of_absent (absent : map.contains key = false) (value : α) :
    (map.insert key value).len = map.len + 1 := by
  rw [len_insert, absent, if_neg Bool.false_ne_true]

theorem len_erase (key : κ) :
    (map.erase key).len = if map.contains key then map.len - 1 else map.len := by
  rw [len, keys_erase]
  split_ifs with member
  · rw [List.length_erase_of_mem (map.mem_keys_iff.mpr member), len]
  · rw [List.erase_of_not_mem fun inside => member (map.mem_keys_iff.mp inside), len]

theorem len_pos (member : map.contains key = true) : 0 < map.len :=
  List.length_pos_of_mem (map.mem_keys_iff.mpr member)

theorem len_erase_add_one (member : map.contains key = true) :
    (map.erase key).len + 1 = map.len := by
  have := len_pos member
  rw [len_erase, if_pos member]
  omega

theorem popFront_cases :
    (map.front = none ∧ map.popFront = (none, map) ∧ map.len = 0) ∨
      ∃ key value, map.front = some (key, value) ∧ map.get key = some value ∧
        map.popFront = (some (key, value), map.erase key) := by
  unfold popFront
  cases oldest : map.front with
  | none =>
    refine Or.inl ⟨rfl, rfl, ?_⟩
    unfold front at oldest
    rw [Option.map_eq_none_iff, List.getLast?_eq_none_iff] at oldest
    show (map.entries.entries.map Sigma.fst).length = 0
    rw [oldest]
    rfl
  | some entry =>
    obtain ⟨key, value⟩ := entry
    refine Or.inr ⟨key, value, rfl, ?_, rfl⟩
    unfold front at oldest
    obtain ⟨⟨key', value'⟩, last, same⟩ := Option.map_eq_some_iff.mp oldest
    cases same
    exact AList.mem_lookup_iff.mpr (List.mem_of_getLast? last)

theorem get_of_front (oldest : map.front = some (key, value)) :
    map.get key = some value := by
  rcases map.popFront_cases with ⟨missing, _, _⟩ | ⟨key', value', oldest', found, _⟩
  · simp [missing] at oldest
  · rw [oldest'] at oldest
    cases oldest
    exact found

omit [DecidableEq κ] in
theorem keys_of_front (oldest : map.front = some (key, value)) :
    ∃ newer, map.keys = newer ++ [key] := by
  obtain ⟨⟨key', value'⟩, last, same⟩ := Option.map_eq_some_iff.mp oldest
  cases same
  obtain ⟨newer, split⟩ := List.getLast?_eq_some_iff.mp last
  refine ⟨newer.map Sigma.fst, ?_⟩
  show map.entries.entries.map Sigma.fst = _
  rw [split, List.map_append]
  rfl

theorem keys_popFront : map.popFront.2.keys = map.keys.dropLast := by
  rcases map.popFront_cases with ⟨_, popped, empty⟩ | ⟨key, value, oldest, _, popped⟩
  · rw [popped, List.length_eq_zero_iff.mp empty]
    rfl
  · obtain ⟨newer, order⟩ := map.keys_of_front oldest
    have nodup := map.nodup_keys
    rw [order] at nodup
    have outside : key ∉ newer := fun inside => List.disjoint_of_nodup_append nodup inside (by simp)
    rw [popped, keys_erase, order, List.erase_append_right _ outside]
    simp

theorem len_popFront : map.popFront.2.len = map.len - 1 := by
  rw [len, keys_popFront, List.length_dropLast, len]

theorem contains_popFront_of_absent (absent : map.contains key = false) :
    map.popFront.2.contains key = false := by
  rw [Bool.eq_false_iff, ne_eq, ← mem_keys_iff, keys_popFront]
  intro inside
  rw [(mem_keys_iff map).mp (List.mem_of_mem_dropLast inside)] at absent
  cases absent

theorem front_insert (key : κ) (value : α) : (map.insert key value).front =
    if (map.erase key).len = 0 then some (key, value) else (map.erase key).front := by
  have entries : (map.insert key value).entries.entries = ⟨key, value⟩ :: (map.erase key).entries.entries :=
    AList.entries_insert
  have size : (map.erase key).len = (map.erase key).entries.entries.length := List.length_map _
  unfold front
  rw [entries, size]
  cases rest : (map.erase key).entries.entries with
  | nil => rfl
  | cons second others =>
    rw [List.getLast?_cons_cons, if_neg (by simp)]

theorem get_of_popFront (found : map.popFront.2.get key = some value) :
    map.get key = some value := by
  rcases map.popFront_cases with ⟨_, popped, _⟩ | ⟨oldest, _, _, _, popped⟩
  · rw [popped] at found
    exact found
  · rw [popped, get_erase] at found
    split_ifs at found
    exact found

/-! ### The keys as a bag -/

omit [DecidableEq κ] in
def bag (map : LinkedMap κ α) : Multiset κ := map.keys

omit [DecidableEq κ] in
theorem card_bag : map.bag.card = map.len := Multiset.coe_card _

theorem mem_bag : key ∈ map.bag ↔ map.contains key = true := mem_keys_iff map

theorem bag_insert : (map.insert key value).bag = key ::ₘ map.bag.erase key := by
  rw [bag, keys_insert, ← Multiset.cons_coe, ← Multiset.coe_erase, bag]

theorem bag_insert_of_present (present : map.contains key = true) (value : α) :
    (map.insert key value).bag = map.bag := by
  rw [bag_insert, Multiset.cons_erase (map.mem_bag.mpr present)]

theorem bag_insert_le (key : κ) (value : α) : (map.insert key value).bag ≤ key ::ₘ map.bag := by
  rw [bag_insert]
  exact Multiset.cons_le_cons key (Multiset.erase_le key _)

theorem bag_erase : (map.erase key).bag = map.bag.erase key := by rw [bag, keys_erase, ← Multiset.coe_erase, bag]

theorem bag_erase_le (key : κ) : (map.erase key).bag ≤ map.bag := by
  rw [bag_erase]
  exact Multiset.erase_le key _

theorem cons_bag_erase (present : map.contains key = true) :
    key ::ₘ (map.erase key).bag = map.bag := by
  rw [bag_erase]
  exact Multiset.cons_erase (map.mem_bag.mpr present)

theorem bag_popFront_le : map.popFront.2.bag ≤ map.bag := by
  rw [bag, keys_popFront]
  exact (List.dropLast_sublist _).subperm

/-! ### Weights -/

section

variable (weight : κ → α → ℕ)

omit [DecidableEq κ] in
def total (map : LinkedMap κ α) : ℕ := (map.entries.entries.map fun entry => weight entry.1 entry.2).sum

omit [DecidableEq κ] in
@[simp] theorem total_empty : (∅ : LinkedMap κ α).total weight = 0 := rfl

theorem total_insert (key : κ) (value : α) :
    (map.insert key value).total weight = (map.erase key).total weight + weight key value := by
  have entries : (map.insert key value).entries.entries = ⟨key, value⟩ :: (map.erase key).entries.entries :=
    AList.entries_insert
  unfold total
  rw [entries, List.map_cons, List.sum_cons, Nat.add_comm]

theorem total_erase {map : LinkedMap κ α} (found : map.get key = some value) :
    (map.erase key).total weight + weight key value = map.total weight := by
  have member : key ∈ map.entries.entries.keys := (mem_keys_iff map).mpr (contains_of_get found)
  obtain ⟨value', newer, older, fresh, split, erased⟩ := List.exists_of_kerase member
  have same : value' = value := by
    have here : map.get key = some value' := AList.mem_lookup_iff.mpr (by simp [split])
    exact Option.some.inj (here.symm.trans found)
  subst same
  unfold total
  rw [show (map.erase key).entries.entries = newer ++ older from erased, split]
  simp only [List.map_append, List.map_cons, List.sum_append, List.sum_cons]
  omega

theorem total_erase_of_absent {map : LinkedMap κ α} (absent : map.get key = none) :
    (map.erase key).total weight = map.total weight := by
  rw [erase_of_absent (contains_of_get_none absent)]

end

end LinkedMap
