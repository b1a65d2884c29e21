/-
**The frequency sketch over whole runs.**
-/

import Mathlib.Tactic.IntervalCases
import OxiStore.Cache.Sketch

namespace OxiStore.Caching

open ByteString Function

/-! ### The two counters of a byte -/

def nibbleOf (byte : UInt8) (col : ℕ) : UInt8 := if col % 2 = 0 then byte &&& 0x0F else (byte >>> 4) &&& 0x0F

theorem nibbleOf_setHalf (byte val : UInt8) (col other : ℕ) : nibbleOf (setHalf byte col val) other =
    if col % 2 = other % 2 then val &&& 0x0F else nibbleOf byte other := by
  unfold nibbleOf setHalf
  -- bit by bit, for each parity of the two columns
  rcases Nat.mod_two_eq_zero_or_one col with even | odd <;>
    rcases Nat.mod_two_eq_zero_or_one other with even' | odd' <;>
    simp only [*, if_true, if_false, one_ne_zero, zero_ne_one] <;>
    refine UInt8.eq_of_toBitVec_eq (BitVec.eq_of_getLsbD_eq fun i bound => ?_) <;>
    interval_cases i <;>
    simp

theorem nibbleOf_facts (byte : UInt8) (col : ℕ) : (nibbleOf byte col).toNat ≤ 15 ∧
    (nibbleOf (CountMinSketch.halve byte) col).toNat = (nibbleOf byte col).toNat / 2 := by
  have all : ∀ (n : Fin 256) (odd : Fin 2), (nibbleOf (UInt8.ofNat n) odd).toNat ≤ 15 ∧
      (nibbleOf (CountMinSketch.halve (UInt8.ofNat n)) odd).toNat = (nibbleOf (UInt8.ofNat n) odd).toNat / 2 := by
    decide +kernel
  have here := all ⟨byte.toNat, byte.toNat_lt⟩ ⟨col % 2, Nat.mod_lt _ two_pos⟩
  simpa [nibbleOf] using here

theorem toNat_next_nibble {val : UInt8} (small : val < 15) : ((val + 1) &&& 0x0F).toNat = val.toNat + 1 := by
  have all : ∀ n : Fin 15, ((UInt8.ofNat n + 1) &&& 0x0F).toNat = n + 1 := by decide +kernel
  have here := all ⟨val.toNat, small⟩
  simpa using here

/-! ### The cells -/

/-- **The place of a counter**: its byte, and the half of it. -/
def address (halfW row col : ℕ) : ℕ × ℕ := (row * halfW + col / 2, col % 2)

theorem address_injective {halfW row row' col col' : ℕ} (within : col < 2 * halfW) (within' : col' < 2 * halfW)
    (same : address halfW row col = address halfW row' col') : row = row' ∧ col = col' := by
  obtain ⟨byte, half⟩ := Prod.mk.inj same
  have first : (row * halfW + col / 2) / halfW = row := by
    rw [Nat.add_comm, Nat.add_mul_div_right _ _ (by omega), Nat.div_eq_of_lt (by omega), zero_add]
  have second : (row' * halfW + col' / 2) / halfW = row' := by
    rw [Nat.add_comm, Nat.add_mul_div_right _ _ (by omega), Nat.div_eq_of_lt (by omega), zero_add]
  have rows : row = row' := by rw [← first, byte, second]
  subst rows
  exact ⟨rfl, by omega⟩

def cell (counters : Bytes) (halfW row col : ℕ) : ℕ :=
  (nibbleOf (counters.getD (row * halfW + col / 2) 0) col).toNat

theorem cell_le (counters : Bytes) (halfW row col : ℕ) : cell counters halfW row col ≤ 15 :=
  (nibbleOf_facts _ col).1

section

variable {counters : Bytes} {halfW row col : ℕ}

theorem nibbleGet_eq (sized : counters.length = depth * halfW) (inside : row < depth) (within : col < 2 * halfW) :
    ∃ val, nibbleGet counters row col halfW = some val ∧ val.toNat = cell counters halfW row col := by
  have bound : row * halfW + col / 2 < counters.length := sized ▸ byteIdx_lt inside within
  refine ⟨nibbleOf counters[row * halfW + col / 2] col, ?_, ?_⟩
  · unfold nibbleGet
    rw [List.getElem?_eq_getElem bound]
    rfl
  · unfold cell
    rw [List.getD_eq_getElem _ _ bound]

theorem nibbleSet_eq (sized : counters.length = depth * halfW) (inside : row < depth) (within : col < 2 * halfW)
    (val : UInt8) : ∃ after, nibbleSet counters row col halfW val = some after ∧ after.length = depth * halfW ∧
      ∀ row' col', col' < 2 * halfW → cell after halfW row' col' =
        if row' = row ∧ col' = col then (val &&& 0x0F).toNat else cell counters halfW row' col' := by
  have bound : row * halfW + col / 2 < counters.length := sized ▸ byteIdx_lt inside within
  refine ⟨counters.set (row * halfW + col / 2) (setHalf counters[row * halfW + col / 2] col val), ?_, ?_,
    fun row' col' within' => ?_⟩
  · unfold nibbleSet
    rw [List.getElem?_eq_getElem bound]
    rfl
  · rw [List.length_set, sized]
  · unfold cell
    by_cases byte : row * halfW + col / 2 = row' * halfW + col' / 2
    · rw [← byte, List.getD_eq_getElem _ _ (by rw [List.length_set]; exact bound), List.getElem_set_self,
        nibbleOf_setHalf, List.getD_eq_getElem _ _ bound]
      by_cases half : col % 2 = col' % 2
      · obtain ⟨rfl, rfl⟩ := address_injective within within' (Prod.ext byte half)
        simp
      · rw [if_neg half, if_neg]
        rintro ⟨_, rfl⟩
        exact half rfl
    · rw [List.getD_eq_getElem?_getD, List.getElem?_set_ne byte, ← List.getD_eq_getElem?_getD, if_neg]
      rintro ⟨rfl, rfl⟩
      exact byte rfl

end

/-! ### Increments -/

section

variable {s : CountMinSketch} (hA hB : UInt64)

theorem incrementRow_cells (sized : s.Sized) {row : ℕ} (inside : row < depth) {counters : Bytes}
    (same : counters.length = depth * s.halfW) :
    ∃ after, CountMinSketch.incrementRow hA hB s.w s.halfW counters row = some after ∧
      after.length = depth * s.halfW ∧
      ∀ row' col', col' < 2 * s.halfW → cell after s.halfW row' col' =
        if row' = row ∧ col' = rowCol hA hB row s.w then min (cell counters s.halfW row' col' + 1) 15
        else cell counters s.halfW row' col' := by
  have within := rowCol_within sized hA hB row
  obtain ⟨cur, found, value⟩ := nibbleGet_eq same inside within
  unfold CountMinSketch.incrementRow
  simp only [found, Option.bind_eq_bind, Option.bind_some]
  split_ifs with small
  · obtain ⟨after, done, same', cells⟩ := nibbleSet_eq same inside within (cur + 1)
    refine ⟨after, done, same', fun row' col' within' => ?_⟩
    rw [cells row' col' within', toNat_next_nibble small]
    split_ifs with here
    · have low : cur.toNat < 15 := small
      rw [here.1, here.2, ← value]
      omega
    · rfl
  · refine ⟨counters, rfl, same, fun row' col' _ => ?_⟩
    split_ifs with here
    · have high : 15 ≤ cur.toNat := UInt8.le_iff_toNat_le.mp (not_lt.mp small)
      have bound := cell_le counters s.halfW row' col'
      rw [here.1, here.2, ← value] at bound ⊢
      omega
    · rfl

theorem incrementRows_cells (sized : s.Sized) {rows : List ℕ} (nodup : rows.Nodup)
    (inside : ∀ row ∈ rows, row < depth) {counters : Bytes} (same : counters.length = depth * s.halfW) :
    ∃ after, rows.foldlM (CountMinSketch.incrementRow hA hB s.w s.halfW) counters = some after ∧
      after.length = depth * s.halfW ∧
      ∀ row col, col < 2 * s.halfW → cell after s.halfW row col =
        if row ∈ rows ∧ col = rowCol hA hB row s.w then min (cell counters s.halfW row col + 1) 15
        else cell counters s.halfW row col := by
  induction rows generalizing counters with
  | nil => exact ⟨counters, rfl, same, fun row col _ => by simp⟩
  | cons first rows ih =>
    obtain ⟨outside, nodup⟩ := List.nodup_cons.mp nodup
    obtain ⟨middle, done, same', cells⟩ := incrementRow_cells hA hB sized (inside first List.mem_cons_self) same
    obtain ⟨after, done', same'', cells'⟩ := ih nodup
      (fun row member => inside row (List.mem_cons_of_mem _ member)) same'
    refine ⟨after, ?_, same'', fun row col within => ?_⟩
    · rw [List.foldlM_cons, done]
      exact done'
    · rw [cells' row col within, cells row col within]
      by_cases own : row = first
      · subst own
        simp [outside]
      · simp [own]

end

/-! ### Runs of the sketch -/

inductive SketchOp where
  | increment (keyBytes : Bytes)
  | age

def CountMinSketch.step (s : CountMinSketch) : SketchOp → Option CountMinSketch
  | .increment keyBytes => s.increment keyBytes
  | .age => some s.age

def CountMinSketch.column (s : CountMinSketch) (keyBytes : Bytes) (row : ℕ) : ℕ :=
  rowCol (doubleHash keyBytes).1 (doubleHash keyBytes).2 row s.w

def CountMinSketch.counter (s : CountMinSketch) (keyBytes : Bytes) (row : ℕ) : ℕ :=
  cell s.counters s.halfW row (s.column keyBytes row)

/-- **What an exact counter would say.** One more for each increment, up to 15, and half of it after each
ageing, of which there is one after every `sampleSize` increments. -/
structure ExactCounts where
  count : Bytes → ℕ
  additions : ℕ

namespace ExactCounts

def start : ExactCounts := ⟨fun _ => 0, 0⟩

def age (exact : ExactCounts) : ExactCounts := ⟨fun keyBytes => exact.count keyBytes / 2, 0⟩

def add (keyBytes : Bytes) (exact : ExactCounts) : ExactCounts :=
  ⟨update exact.count keyBytes (min (exact.count keyBytes + 1) 15), exact.additions + 1⟩

def step (sampleSize : ℕ) (exact : ExactCounts) : SketchOp → ExactCounts
  | .increment keyBytes =>
      if sampleSize ≤ (exact.add keyBytes).additions then (exact.add keyBytes).age else exact.add keyBytes
  | .age => exact.age

end ExactCounts

section

variable {s : CountMinSketch} {exact : ExactCounts} {sampleSize : ℕ}

/-- **Every counter of a key is at least its exact count.** -/
structure CountMinSketch.Dominates (s : CountMinSketch) (exact : ExactCounts) (sampleSize : ℕ) : Prop where
  sized : s.Sized
  additions : s.additions = exact.additions
  sampleSize : s.sampleSize = sampleSize
  least : ∀ keyBytes, ∀ row < depth, exact.count keyBytes ≤ s.counter keyBytes row

theorem cell_age (counters : Bytes) (halfW row col : ℕ) :
    cell (counters.map CountMinSketch.halve) halfW row col = cell counters halfW row col / 2 := by
  unfold cell
  have zero : CountMinSketch.halve 0 = 0 := by decide
  rw [← (nibbleOf_facts _ col).2, ← List.getD_map counters 0 CountMinSketch.halve, zero]

variable (dominates : s.Dominates exact sampleSize)

include dominates

theorem CountMinSketch.Dominates.age :
    s.age.Dominates exact.age sampleSize where
  sized := dominates.sized.age
  additions := rfl
  sampleSize := dominates.sampleSize
  least keyBytes row inside := by
    show _ ≤ cell (s.counters.map halve) s.halfW row (s.column keyBytes row)
    rw [cell_age]
    exact Nat.div_le_div_right (dominates.least keyBytes row inside)

theorem CountMinSketch.Dominates.add (keyBytes : Bytes) :
    ∃ counters, (List.range depth).foldlM
        (incrementRow (doubleHash keyBytes).1 (doubleHash keyBytes).2 s.w s.halfW) s.counters = some counters ∧
      Dominates { s with counters := counters, additions := s.additions + 1 } (exact.add keyBytes) sampleSize := by
  obtain ⟨counters, done, same, cells⟩ := incrementRows_cells (doubleHash keyBytes).1 (doubleHash keyBytes).2
    dominates.sized List.nodup_range (fun row => mem_range_depth) dominates.sized.counters
  refine ⟨counters, done, ⟨same, dominates.sized.w, dominates.sized.positive⟩,
    congrArg (· + 1) dominates.additions, dominates.sampleSize, fun other row inside => ?_⟩
  have least := dominates.least other row inside
  have bound := cell_le s.counters s.halfW row (s.column other row)
  have within : s.column other row < 2 * s.halfW := rowCol_within dominates.sized _ _ row
  have after := cells row (s.column other row) within
  show (update exact.count keyBytes _) other ≤ cell counters s.halfW row (s.column other row)
  unfold counter at least
  rw [after]
  by_cases own : other = keyBytes
  · subst own
    rw [update_self, if_pos ⟨List.mem_range.mpr inside, rfl⟩]
    omega
  · rw [update_of_ne own]
    split_ifs <;> omega

theorem CountMinSketch.Dominates.step (op : SketchOp) :
    ∃ s', s.step op = some s' ∧ s'.Dominates (exact.step sampleSize op) sampleSize := by
  cases op with
  | age => exact ⟨s.age, rfl, dominates.age⟩
  | increment keyBytes =>
    obtain ⟨counters, done, added⟩ := dominates.add keyBytes
    have due : s.sampleSize ≤ s.additions + 1 ↔ sampleSize ≤ (exact.add keyBytes).additions := by
      rw [dominates.sampleSize, dominates.additions]
      rfl
    let counted : CountMinSketch := { s with counters := counters, additions := s.additions + 1 }
    refine ⟨if s.sampleSize ≤ s.additions + 1 then counted.age else counted, ?_, ?_⟩
    · show s.increment keyBytes = _
      unfold increment
      simp only [done, Option.bind_eq_bind, Option.bind_some]
      rfl
    · unfold ExactCounts.step
      dsimp only
      simp only [due]
      split_ifs
      · exact added.age
      · exact added

theorem CountMinSketch.Dominates.run (ops : List SketchOp) :
    ∃ s', ops.foldlM CountMinSketch.step s = some s' ∧
      s'.Dominates (ops.foldl (ExactCounts.step sampleSize) exact) sampleSize := by
  induction ops generalizing s exact with
  | nil => exact ⟨s, rfl, dominates⟩
  | cons op ops ih =>
    obtain ⟨middle, done, next⟩ := dominates.step op
    obtain ⟨s', done', last⟩ := ih next
    refine ⟨s', ?_, last⟩
    rw [List.foldlM_cons, done]
    exact done'

omit dominates

theorem estimate_eq (sized : s.Sized) (keyBytes : Bytes) : s.estimate keyBytes =
    some (min (s.counter keyBytes 3) (min (s.counter keyBytes 2)
      (min (s.counter keyBytes 1) (min (s.counter keyBytes 0) (2 ^ 64 - 1))))) := by
  have each : ∀ row < depth, ∀ minVal,
      CountMinSketch.estimateRow (doubleHash keyBytes).1 (doubleHash keyBytes).2 s minVal row =
        some (min (s.counter keyBytes row) minVal) := by
    intro row inside minVal
    obtain ⟨val, found, value⟩ := nibbleGet_eq sized.counters inside
      (rowCol_within sized (doubleHash keyBytes).1 (doubleHash keyBytes).2 row)
    have same : s.counter keyBytes row = val.toNat := value.symm
    unfold CountMinSketch.estimateRow
    simp only [found, Option.bind_eq_bind, Option.bind_some, same]
    grind
  show [0, 1, 2, 3].foldlM (CountMinSketch.estimateRow (doubleHash keyBytes).1 (doubleHash keyBytes).2 s)
    (2 ^ 64 - 1) = _
  simp only [List.foldlM_cons, List.foldlM_nil, each 0 (by decide), each 1 (by decide), each 2 (by decide),
    each 3 (by decide), Option.bind_eq_bind, Option.bind_some]
  rfl

theorem new_dominates {capacity : ℕ} (enough : 2 ≤ capacity) (fits : capacity ≤ 2 ^ 62) :
    (CountMinSketch.new capacity).Dominates ExactCounts.start (capacity * 10 % 2 ^ 64) :=
  ⟨CountMinSketch.new_sized enough fits, rfl, rfl, fun _ _ _ => Nat.zero_le _⟩

/-- **The estimate of a key is at least its exact count, and at most 15**, after any run of a sketch made for
a capacity from 2 to `2 ^ 62`. -/
theorem sketch_lower_bound (capacity : ℕ) (enough : 2 ≤ capacity) (fits : capacity ≤ 2 ^ 62)
    (ops : List SketchOp) (keyBytes : Bytes) :
    ∃ s freq, ops.foldlM CountMinSketch.step (CountMinSketch.new capacity) = some s ∧
      s.estimate keyBytes = some freq ∧
      (ops.foldl (ExactCounts.step (capacity * 10 % 2 ^ 64)) ExactCounts.start).count keyBytes ≤ freq ∧
      freq ≤ 15 := by
  obtain ⟨s, done, dominates⟩ := (new_dominates enough fits).run ops
  refine ⟨s, _, done, estimate_eq dominates.sized keyBytes, ?_, ?_⟩
  · have first := dominates.least keyBytes 0 (by decide)
    have second := dominates.least keyBytes 1 (by decide)
    have third := dominates.least keyBytes 2 (by decide)
    have fourth := dominates.least keyBytes 3 (by decide)
    have bound := cell_le s.counters s.halfW 0 (s.column keyBytes 0)
    unfold CountMinSketch.counter at *
    omega
  · have bound := cell_le s.counters s.halfW 0 (s.column keyBytes 0)
    unfold CountMinSketch.counter
    omega

theorem sketch_lower_bound_aged :
    let ops := [SketchOp.increment [1], .increment [2], .increment [1], .age, .increment [1]]
    ∃ s freq, ops.foldlM CountMinSketch.step (CountMinSketch.new 2) = some s ∧ s.estimate [1] = some freq ∧
      (ops.foldl (ExactCounts.step (2 * 10 % 2 ^ 64)) ExactCounts.start).count [1] ≤ freq ∧ freq ≤ 15 :=
  sketch_lower_bound 2 le_rfl (by decide) _ [1]

theorem sketch_wraps_and_panics : (CountMinSketch.new (2 ^ 62 + 1)).increment [1] = none ∧
    (CountMinSketch.new (2 ^ 62 + 1)).estimate [1] = none :=
  (CountMinSketch.new_short (by decide)).panics [1]

/-! ### In bounds, and apart -/

/-- **The accesses of a sketch are in bounds and its cells apart exactly for the capacities from 2 to
`2 ^ 62`**: in every state of every run `increment` and `estimate` return for every key, and no two cells
share their place. -/
theorem sketch_accesses_iff (capacity : ℕ) :
    ((∀ ops : List SketchOp, ∃ s, ops.foldlM CountMinSketch.step (CountMinSketch.new capacity) = some s ∧
        ∀ keyBytes, (s.increment keyBytes).isSome ∧ (s.estimate keyBytes).isSome) ∧
      ∀ row < depth, ∀ row' < depth, ∀ col < (CountMinSketch.new capacity).w,
        ∀ col' < (CountMinSketch.new capacity).w,
          address (CountMinSketch.new capacity).halfW row col =
            address (CountMinSketch.new capacity).halfW row' col' → row = row' ∧ col = col') ↔
      2 ≤ capacity ∧ capacity ≤ 2 ^ 62 := by
  constructor
  · rintro ⟨returns, _⟩
    by_contra outside
    obtain ⟨s, same, all⟩ := returns []
    cases same
    have counted := (all []).1
    rw [((CountMinSketch.new_short outside).panics []).1] at counted
    cases counted
  · rintro ⟨enough, fits⟩
    have sized := CountMinSketch.new_sized enough fits
    refine ⟨fun ops => ?_, fun row _ row' _ col within col' within' same => ?_⟩
    · obtain ⟨s, done, dominates⟩ := (new_dominates enough fits).run ops
      refine ⟨s, done, fun keyBytes => ⟨?_, ?_⟩⟩
      · obtain ⟨_, counted, _⟩ := dominates.sized.increment keyBytes
        rw [counted, Option.isSome_some]
      · obtain ⟨_, least⟩ := dominates.sized.estimate keyBytes
        rw [least, Option.isSome_some]
    · rw [sized.w] at within within'
      exact address_injective within within' same

theorem sketch_of_one_panics : (CountMinSketch.new 1).increment [1] = none ∧
    (CountMinSketch.new 1).estimate [1] = none := by
  decide +kernel

end

end OxiStore.Caching
