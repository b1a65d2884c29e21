/-
**Tables whose entries are related.**
-/

import OxiStore.Lib.Table

namespace OrdTable

theorem rel_isSome {V W : Type} {rel : V → W → Prop} {stored : Option V} {stored' : Option W}
    (related : Option.Rel rel stored stored') : stored.isSome = stored'.isSome := by
  cases related <;> rfl

theorem rel_imp {V W : Type} {rel rel' : V → W → Prop} {stored : Option V} {stored' : Option W}
    (related : Option.Rel rel stored stored') (weaker : ∀ value value', rel value value' →
      rel' value value') : Option.Rel rel' stored stored' := by
  cases related with
  | some holds => exact .some (weaker _ _ holds)
  | none => exact .none

theorem forall₂_getElem? {V W : Type} {rel : V → W → Prop} {listed : List V} {listed' : List W}
    (related : List.Forall₂ rel listed listed') (place : ℕ) :
    Option.Rel rel listed[place]? listed'[place]? := by
  induction related generalizing place with
  | nil => exact .none
  | cons holds _ ih =>
    cases place with
    | zero => exact .some holds
    | succ place => exact ih place

theorem forall₂_set {V W : Type} {rel : V → W → Prop} {listed : List V} {listed' : List W}
    (related : List.Forall₂ rel listed listed') (place : ℕ) {value : V} {value' : W}
    (holds : rel value value') : List.Forall₂ rel (listed.set place value) (listed'.set place value') := by
  induction related generalizing place with
  | nil => exact .nil
  | cons here rest ih =>
    cases place with
    | zero => exact .cons holds rest
    | succ place => exact .cons here (ih place)

variable {K V W : Type} [LinearOrder K] {rel : K → V → W → Prop}

def Related (rel : K → V → W → Prop) (table : Table K V) (table' : Table K W) : Prop :=
  ∀ key : K, Option.Rel (rel key) table[key]? table'[key]?

def RelatedChange (rel : K → V → W → Prop) (change : K × Option V) (change' : K × Option W) : Prop :=
  change.1 = change'.1 ∧ Option.Rel (rel change.1) change.2 change'.2

def RelatedChanges (rel : K → V → W → Prop) : List (K × Option V) → List (K × Option W) → Prop :=
  List.Forall₂ (RelatedChange rel)

def RelatedPairs (rel : K → V → W → Prop) : List (K × V) → List (K × W) → Prop :=
  List.Forall₂ fun pair pair' => pair.1 = pair'.1 ∧ rel pair.1 pair.2 pair'.2

omit [LinearOrder K] in
theorem RelatedChanges.mono {rel' : K → V → W → Prop} {changes : List (K × Option V)}
    {changes' : List (K × Option W)} (related : RelatedChanges rel changes changes')
    (weaker : ∀ key value value', rel key value value' → rel' key value value') :
    RelatedChanges rel' changes changes' :=
  List.Forall₂.imp (fun _ _ same => ⟨same.1, rel_imp same.2 (weaker _)⟩) related

theorem Lists.keys_ascending {pairs : List (K × V)} {view : K → Option V} (lists : Lists pairs view) :
    (pairs.map Prod.fst).Pairwise (· < ·) := List.pairwise_map.mpr lists.ascending

theorem Lists.mem_keys {pairs : List (K × V)} {view : K → Option V} (lists : Lists pairs view)
    (key : K) : key ∈ pairs.map Prod.fst ↔ (view key).isSome := by
  rw [List.mem_map, Option.isSome_iff_exists]
  constructor
  · rintro ⟨pair, member, rfl⟩
    exact ⟨pair.2, (lists.mem_iff pair.1 pair.2).mp member⟩
  · rintro ⟨value, found⟩
    exact ⟨(key, value), (lists.mem_iff key value).mpr found, rfl⟩

theorem Lists.relatedPairs {pairs : List (K × V)} {pairs' : List (K × W)} {view : K → Option V}
    {view' : K → Option W} (lists : Lists pairs view) (lists' : Lists pairs' view')
    (related : ∀ key, Option.Rel (rel key) (view key) (view' key)) : RelatedPairs rel pairs pairs' := by
  have members : ∀ key, key ∈ pairs.map Prod.fst ↔ key ∈ pairs'.map Prod.fst := by
    intro key
    rw [lists.mem_keys, lists'.mem_keys]
    rw [rel_isSome (related key)]
  -- Both lists of keys are the ascending list of one set.
  have keys : pairs.map Prod.fst = pairs'.map Prod.fst :=
    ((List.perm_ext_iff_of_nodup (lists.keys_ascending.imp ne_of_lt)
      (lists'.keys_ascending.imp ne_of_lt)).mpr members).eq_of_pairwise
      (fun _ _ _ _ less more => absurd (less.trans more) (lt_irrefl _))
      lists.keys_ascending lists'.keys_ascending
  have aligned : List.Forall₂ (fun (pair : K × V) (pair' : K × W) => pair.1 = pair'.1) pairs pairs' := by
    rw [← List.forall₂_eq_eq_eq, List.forall₂_map_left_iff, List.forall₂_map_right_iff] at keys
    exact keys
  obtain ⟨lengths, heads⟩ := List.forall₂_iff_zip.mp aligned
  refine List.forall₂_iff_zip.mpr ⟨lengths, fun {pair pair'} zipped => ?_⟩
  have same : pair.1 = pair'.1 := heads zipped
  obtain ⟨member, member'⟩ := List.of_mem_zip zipped
  have values := related pair.1
  rw [(lists.mem_iff pair.1 pair.2).mp member, same, (lists'.mem_iff pair'.1 pair'.2).mp member'] at values
  cases values with
  | some holds => exact ⟨same, same ▸ holds⟩

namespace Related

variable {table : Table K V} {table' : Table K W}

variable (related : Related rel table table')

include related in
theorem mono {rel' : K → V → W → Prop}
    (weaker : ∀ key value value', rel key value value' → rel' key value value') :
    Related rel' table table' := fun key => rel_imp (related key) (weaker key)

theorem empty : Related rel (∅ : Table K V) (∅ : Table K W) := by
  intro key
  simp

include related

theorem amend {change : K × Option V} {change' : K × Option W} (same : RelatedChange rel change change') :
    Related rel (OrdTable.amend table change) (OrdTable.amend table' change') := by
  intro key
  obtain ⟨keys, values⟩ := same
  rw [get_amend, get_amend, ← keys]
  by_cases here : change.1 = key
  · rw [if_pos here, if_pos here, ← here]
    exact values
  · rw [if_neg here, if_neg here]
    exact related key

theorem insert {key : K} {value : V} {value' : W} (holds : rel key value value') :
    Related rel (table.insert key value) (table'.insert key value') := by
  have same : RelatedChange rel (key, some value) (key, some value') := ⟨rfl, .some holds⟩
  exact related.amend same

theorem replace {key : K} {value : V} {value' : W} (found : table'[key]? = some value')
    (holds : rel key value value') :
    Related rel (table.insert key value) table' := by
  intro other
  rw [get_insert]
  by_cases here : key = other
  · subst here
    rw [if_pos rfl, found]
    exact .some holds
  · rw [if_neg here]
    exact related other

theorem erase (key : K) :
    Related rel (table.erase key) (table'.erase key) := by
  have same : RelatedChange rel (key, none) (key, none) := ⟨rfl, .none⟩
  exact related.amend same

theorem amendAll {changes : List (K × Option V)} {changes' : List (K × Option W)}
    (batches : RelatedChanges rel changes changes') :
    Related rel (OrdTable.amendAll table changes) (OrdTable.amendAll table' changes') := by
  induction batches generalizing table table' with
  | nil => exact related
  | cons same _ ih => exact ih (related.amend same)

theorem scan (inside : K → Prop) [DecidablePred inside] :
    RelatedPairs rel (OrdTable.scan table inside) (OrdTable.scan table' inside) := by
  refine (lists_scan table inside).relatedPairs (lists_scan table' inside) fun key => ?_
  by_cases within : inside key
  · rw [if_pos within, if_pos within]
    exact related key
  · rw [if_neg within, if_neg within]
    exact .none

end Related

end OrdTable
