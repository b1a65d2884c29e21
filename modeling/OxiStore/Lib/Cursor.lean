/-
**An iterator over a table that changes under it.**
-/

import OxiStore.Lib.Table

namespace OrdTable

open List

variable {K V : Type}

inductive Reach (K : Type) where
  | nothing
  | upTo (last : K)
  | everything
deriving DecidableEq

structure Cursor (K V : Type) where
  reach : Reach K
  buffer : List (K × V)

def Cursor.start : Cursor K V := ⟨.nothing, []⟩

def Cursor.tail (cursor : Cursor K V) : Cursor K V := { cursor with buffer := cursor.buffer.tail }

def Cursor.Waits (cursor : Cursor K V) (key : K) : Prop := key ∈ cursor.buffer.map Prod.fst

variable [LinearOrder K]

def Reach.Covers : Reach K → K → Prop
  | .nothing, _ => False
  | .upTo last, key => key ≤ last
  | .everything, _ => True

instance (reach : Reach K) : DecidablePred reach.Covers := fun key =>
  match reach with
  | .nothing => inferInstanceAs (Decidable False)
  | .upTo last => inferInstanceAs (Decidable (key ≤ last))
  | .everything => inferInstanceAs (Decidable True)

def Cursor.Past (cursor : Cursor K V) (key : K) : Prop := cursor.reach.Covers key ∧ ¬ cursor.Waits key

def Cursor.ahead (cursor : Cursor K V) (table : Table K V) : List (K × V) :=
  scan table fun key => ¬ cursor.reach.Covers key

def Cursor.fill (cursor : Cursor K V) (table : Table K V) : Option ℕ → Cursor K V
  | none => ⟨.everything, cursor.ahead table⟩
  | some size => match ((cursor.ahead table).take (size + 1)).getLast? with
      | some last => ⟨.upTo last.1, (cursor.ahead table).take (size + 1)⟩
      | none => ⟨.everything, []⟩

/-- **The waiting entries are entries of the table**, read, and in order. -/
structure Cursor.Reads (cursor : Cursor K V) : Prop where
  covered (key : K) : cursor.Waits key → cursor.reach.Covers key
  ascending : cursor.buffer.Pairwise fun a b => a.1 < b.1

theorem Cursor.reads_start : (Cursor.start : Cursor K V).Reads where
  covered _ waits := absurd waits not_mem_nil
  ascending := .nil

theorem Cursor.not_past_start (key : K) : ¬ (Cursor.start : Cursor K V).Past key := fun past => past.1

section

variable {cursor : Cursor K V} {entry : K × V} {buffer : List (K × V)}

theorem Cursor.Reads.tail (reads : cursor.Reads) (waiting : cursor.buffer = entry :: buffer) :
    cursor.tail.Reads where
  covered key waits := by
    refine reads.covered key ?_
    unfold Waits at waits ⊢
    rw [waiting]
    rw [Cursor.tail, waiting] at waits
    exact mem_cons_of_mem _ waits
  ascending := by
    have ascending := reads.ascending
    rw [waiting] at ascending
    rw [Cursor.tail, waiting]
    exact ascending.of_cons

theorem Cursor.Reads.past_tail (reads : cursor.Reads) (waiting : cursor.buffer = entry :: buffer)
    (key : K) : cursor.tail.Past key ↔ cursor.Past key ∨ key = entry.1 := by
  have ascending := reads.ascending
  rw [waiting] at ascending
  have fresh : entry.1 ∉ buffer.map Prod.fst := by
    intro member
    obtain ⟨other, behind, same⟩ := mem_map.mp member
    have less := (pairwise_cons.mp ascending).1 other behind
    rw [same] at less
    exact lt_irrefl _ less
  have covered : cursor.reach.Covers entry.1 := by
    refine reads.covered entry.1 ?_
    unfold Waits
    rw [waiting]
    exact mem_cons_self
  unfold Past Waits
  rw [Cursor.tail, waiting, tail_cons, map_cons, mem_cons, not_or]
  constructor
  · rintro ⟨read, absent⟩
    by_cases here : key = entry.1
    · exact .inr here
    · exact .inl ⟨read, here, absent⟩
  · rintro (⟨read, _, absent⟩ | rfl)
    · exact ⟨read, absent⟩
    · exact ⟨covered, fresh⟩

end

/-! ### Pages -/

section

variable (cursor : Cursor K V) (table : Table K V)

theorem Cursor.lists_ahead : Lists (cursor.ahead table) fun key =>
    if ¬ cursor.reach.Covers key then table[key]? else none := lists_scan table _

theorem Cursor.mem_ahead (key : K) (value : V) :
    (key, value) ∈ cursor.ahead table ↔ ¬ cursor.reach.Covers key ∧ table[key]? = some value := by
  rw [(cursor.lists_ahead table).mem_iff]
  by_cases covered : cursor.reach.Covers key
  all_goals simp [covered]

theorem mem_take_of_le {pairs : List (K × V)} (ascending : pairs.Pairwise fun a b => a.1 < b.1)
    {size : ℕ} {last : K × V} (ends : (pairs.take size).getLast? = some last) {pair : K × V}
    (member : pair ∈ pairs) (below : pair.1 ≤ last.1) : pair ∈ pairs.take size := by
  rw [← take_append_drop size pairs] at ascending member
  rcases mem_append.mp member with front | back
  · exact front
  · have less := (pairwise_append.mp ascending).2.2 last (mem_of_getLast? ends) pair back
    exact absurd less below.not_gt

theorem le_getLast_take {pairs : List (K × V)} (ascending : pairs.Pairwise fun a b => a.1 < b.1)
    {size : ℕ} {last : K × V} (ends : (pairs.take size).getLast? = some last) {pair : K × V}
    (member : pair ∈ pairs.take size) : pair.1 ≤ last.1 := by
  obtain ⟨front, same⟩ := getLast?_eq_some_iff.mp ends
  have sorted : (pairs.take size).Pairwise fun a b => a.1 < b.1 := ascending.sublist (take_sublist ..)
  rw [same] at sorted member
  rcases mem_append.mp member with inside | here
  · exact ((pairwise_append.mp sorted).2.2 pair inside last (mem_singleton_self last)).le
  · rw [mem_singleton.mp here]

variable {cursor table} {page : Option ℕ} (page : Option ℕ)

theorem Cursor.covers_fill {key : K} (covered : cursor.reach.Covers key) :
    (cursor.fill table page).reach.Covers key := by
  cases page with
  | none => exact trivial
  | some size =>
    simp only [Cursor.fill]
    cases ends : ((cursor.ahead table).take (size + 1)).getLast? with
    | none => exact trivial
    | some last =>
      have member := mem_of_mem_take (mem_of_getLast? ends)
      have beyond := ((cursor.mem_ahead table last.1 last.2).mp member).1
      cases reach : cursor.reach with
      | nothing =>
        rw [reach] at covered
        exact covered.elim
      | upTo previous =>
        rw [reach] at covered beyond
        exact le_trans covered (not_le.mp beyond).le
      | everything =>
        rw [reach] at beyond
        exact absurd trivial beyond

theorem Cursor.mem_fill (key : K) (value : V) :
    (key, value) ∈ (cursor.fill table page).buffer ↔
      ¬ cursor.reach.Covers key ∧ (cursor.fill table page).reach.Covers key ∧
        table[key]? = some value := by
  have ascending := (cursor.lists_ahead table).ascending
  cases page with
  | none =>
    rw [show (cursor.fill table none).buffer = cursor.ahead table from rfl, mem_ahead]
    exact ⟨fun found => ⟨found.1, trivial, found.2⟩, fun found => ⟨found.1, found.2.2⟩⟩
  | some size =>
    simp only [Cursor.fill]
    cases ends : ((cursor.ahead table).take (size + 1)).getLast? with
    | none =>
      have empty : cursor.ahead table = [] := by
        rw [getLast?_eq_none_iff, take_eq_nil_iff] at ends
        exact ends.resolve_left (Nat.succ_ne_zero size)
      refine ⟨fun member => absurd member not_mem_nil, fun found => ?_⟩
      have member := (cursor.mem_ahead table key value).mpr ⟨found.1, found.2.2⟩
      rw [empty] at member
      exact member
    | some last =>
      constructor
      · intro member
        obtain ⟨fresh, found⟩ := (cursor.mem_ahead table key value).mp (mem_of_mem_take member)
        exact ⟨fresh, le_getLast_take ascending ends member, found⟩
      · rintro ⟨fresh, below, found⟩
        exact mem_take_of_le ascending ends ((cursor.mem_ahead table key value).mpr ⟨fresh, found⟩) below

theorem Cursor.reads_fill : (cursor.fill table page).Reads where
  covered key waits := by
    obtain ⟨entry, member, rfl⟩ := mem_map.mp waits
    exact ((Cursor.mem_fill page entry.1 entry.2).mp member).2.1
  ascending := by
    have ascending := (cursor.lists_ahead table).ascending
    cases page with
    | none => exact ascending
    | some size =>
      simp only [Cursor.fill]
      cases ((cursor.ahead table).take (size + 1)).getLast? with
      | none => exact .nil
      | some last => exact ascending.sublist (take_sublist ..)

theorem Cursor.past_fill_iff (waiting : cursor.buffer = []) (page : Option ℕ) (key : K) :
    (cursor.fill table page).Past key ↔ cursor.Past key ∨
      (¬ cursor.reach.Covers key ∧ (cursor.fill table page).reach.Covers key ∧ table[key]? = none) := by
  constructor
  · intro past
    by_cases covered : cursor.reach.Covers key
    · refine .inl ⟨covered, ?_⟩
      unfold Waits
      rw [waiting]
      exact not_mem_nil
    · refine .inr ⟨covered, past.1, ?_⟩
      cases found : table[key]? with
      | none => rfl
      | some value =>
        have member := (Cursor.mem_fill page key value).mpr ⟨covered, past.1, found⟩
        exact absurd (mem_map_of_mem (f := Prod.fst) member) past.2
  · intro before
    refine ⟨?_, fun waits => ?_⟩
    · rcases before with past | ⟨_, covered, _⟩
      · exact Cursor.covers_fill page past.1
      · exact covered
    · obtain ⟨entry, member, rfl⟩ := mem_map.mp waits
      obtain ⟨fresh, _, found⟩ := (Cursor.mem_fill page entry.1 entry.2).mp member
      rcases before with past | ⟨_, _, absent⟩
      · exact fresh past.1
      · simp [absent] at found

theorem Cursor.past_of_end (waiting : cursor.buffer = []) (ended : cursor.reach = .everything) (key : K) :
    cursor.Past key := by
  unfold Past Waits
  rw [waiting, ended]
  exact ⟨trivial, not_mem_nil⟩

end

end OrdTable
