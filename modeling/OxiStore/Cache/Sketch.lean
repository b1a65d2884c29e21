/-
**The frequency sketch and the doorkeeper.**
-/

import Mathlib.Data.Nat.Log
import OxiStore.Lib.Bytes
import OxiStore.Lib.Loops

namespace OxiStore.Caching

open ByteString

def depth : ℕ := 4

def fnvOffset : UInt64 := 0xcbf29ce484222325

def fnvPrime : UInt64 := 0x100000001b3

def fnv1a64 (data : Bytes) (init : UInt64) : UInt64 :=
  data.foldl (fun h b => (h ^^^ b.toUInt64) * fnvPrime) init

def doubleHash (data : Bytes) : UInt64 × UInt64 :=
  (fnv1a64 data fnvOffset, fnv1a64 data (fnvOffset ^^^ 0x6c62272e07bb0142))

def rowCol (hA hB : UInt64) (row w : ℕ) : ℕ := (hA + UInt64.ofNat row * hB).toNat % w

def nextPowerOfTwo (n : ℕ) : ℕ := 2 ^ Nat.clog 2 n % 2 ^ 64

def nibbleGet (counters : Bytes) (row col halfW : ℕ) : Option UInt8 :=
  counters[row * halfW + col / 2]?.map fun byte =>
    if col % 2 = 0 then byte &&& 0x0F else (byte >>> 4) &&& 0x0F

def setHalf (byte : UInt8) (col : ℕ) (val : UInt8) : UInt8 :=
  let low : UInt8 := val &&& 0x0F
  let high : UInt8 := low <<< 4
  if col % 2 = 0 then (byte &&& 0xF0) ||| low else (byte &&& 0x0F) ||| high

def nibbleSet (counters : Bytes) (row col halfW : ℕ) (val : UInt8) : Option Bytes :=
  counters[row * halfW + col / 2]?.map fun byte =>
    counters.set (row * halfW + col / 2) (setHalf byte col val)

structure CountMinSketch where
  counters : Bytes
  w : ℕ
  halfW : ℕ
  additions : ℕ
  sampleSize : ℕ

namespace CountMinSketch

def new (capacity : ℕ) : CountMinSketch :=
  let w := max (nextPowerOfTwo capacity) 1
  { counters := List.replicate (max (depth * (w / 2) % 2 ^ 64) 1) 0
    w := w
    halfW := max (w / 2) 1
    additions := 0
    sampleSize := capacity * 10 % 2 ^ 64 }

def halve (byte : UInt8) : UInt8 :=
  let upperNibble : UInt8 := ((byte >>> 4) >>> 1) <<< 4
  let lowerNibble : UInt8 := (byte &&& 0x0F) >>> 1
  upperNibble ||| lowerNibble

def age (s : CountMinSketch) : CountMinSketch :=
  { s with counters := s.counters.map halve, additions := 0 }

def incrementRow (hA hB : UInt64) (w halfW : ℕ) (counters : Bytes) (row : ℕ) : Option Bytes := do
  let col := rowCol hA hB row w
  let cur ← nibbleGet counters row col halfW
  if cur < 15 then nibbleSet counters row col halfW (cur + 1) else some counters

def increment (keyBytes : Bytes) (s : CountMinSketch) : Option CountMinSketch := do
  let (hA, hB) := doubleHash keyBytes
  let counters ← (List.range depth).foldlM (incrementRow hA hB s.w s.halfW) s.counters
  let s := { s with counters := counters, additions := s.additions + 1 }
  some (if s.sampleSize ≤ s.additions then s.age else s)

def countRows (hA hB : UInt64) (w halfW : ℕ) : List ℕ → Bytes → Bytes
  | [], counters => counters
  | row :: rows, counters =>
      (incrementRow hA hB w halfW counters row).elim counters (countRows hA hB w halfW rows)

def cutShort (keyBytes : Bytes) (s : CountMinSketch) : CountMinSketch :=
  let (hA, hB) := doubleHash keyBytes
  { s with counters := countRows hA hB s.w s.halfW (List.range depth) s.counters }

def estimateRow (hA hB : UInt64) (s : CountMinSketch) (minVal : ℕ) (row : ℕ) : Option ℕ := do
  let val ← nibbleGet s.counters row (rowCol hA hB row s.w) s.halfW
  some (if val.toNat < minVal then val.toNat else minVal)

def estimate (keyBytes : Bytes) (s : CountMinSketch) : Option ℕ :=
  let (hA, hB) := doubleHash keyBytes
  (List.range depth).foldlM (estimateRow hA hB s) (2 ^ 64 - 1)

def clear (s : CountMinSketch) : CountMinSketch :=
  { s with counters := s.counters.map fun _ => 0, additions := 0 }

/-- **A byte for every two columns of every row.** -/
structure Sized (s : CountMinSketch) : Prop where
  counters : s.counters.length = depth * s.halfW
  w : s.w = 2 * s.halfW
  positive : 0 < s.halfW

/-- **Not a byte for the second row.** -/
def Short (s : CountMinSketch) : Prop := s.counters.length ≤ s.halfW

theorem Sized.not_short {s : CountMinSketch} (sized : s.Sized) : ¬ s.Short := fun short => by
  have whole := sized.counters
  have positive := sized.positive
  unfold Short at short
  unfold depth at whole
  omega

structure SameTable (s s' : CountMinSketch) : Prop where
  sized : s.Sized → s'.Sized
  short : s.Short → s'.Short

theorem SameTable.trans {s s' s'' : CountMinSketch} (first : s.SameTable s') (second : s'.SameTable s'') :
    s.SameTable s'' := ⟨second.sized ∘ first.sized, second.short ∘ first.short⟩

end CountMinSketch

structure Doorkeeper where
  bits : List UInt64
  numBits : ℕ

namespace Doorkeeper

def new (capacity : ℕ) : Doorkeeper :=
  let numBits := max (nextPowerOfTwo (capacity * 8 % 2 ^ 64)) 64
  ⟨List.replicate (numBits / 64) 0, numBits⟩

def putRow (hA hB : UInt64) (numBits : ℕ) (seen : Bool × List UInt64) (row : ℕ) :
    Option (Bool × List UInt64) := do
  let pos := rowCol hA hB row numBits
  let word ← seen.2[pos / 64]?
  let bit : UInt64 := 1 <<< UInt64.ofNat (pos % 64)
  some (if word &&& bit = 0 then (false, seen.2.set (pos / 64) (word ||| bit)) else seen)

def put (keyBytes : Bytes) (d : Doorkeeper) : Option (Bool × Doorkeeper) := do
  let (hA, hB) := doubleHash keyBytes
  let (allSet, bits) ← (List.range depth).foldlM (putRow hA hB d.numBits) (true, d.bits)
  some (allSet, { d with bits := bits })

def clear (d : Doorkeeper) : Doorkeeper := { d with bits := d.bits.map fun _ => 0 }

structure Sized (d : Doorkeeper) : Prop where
  bits : d.bits.length * 64 = d.numBits
  positive : 0 < d.numBits

end Doorkeeper

/-! ### Every access is inside -/

theorem rowCol_lt (hA hB : UInt64) (row : ℕ) {w : ℕ} (positive : 0 < w) : rowCol hA hB row w < w :=
  Nat.mod_lt _ positive

theorem mem_range_depth {row : ℕ} (member : row ∈ List.range depth) : row < depth := List.mem_range.mp member

theorem byteIdx_lt {row col halfW : ℕ} (inside : row < depth) (within : col < 2 * halfW) :
    row * halfW + col / 2 < depth * halfW := by
  have half : col / 2 < halfW := by omega
  calc row * halfW + col / 2 < row * halfW + halfW := by omega
    _ = (row + 1) * halfW := (Nat.succ_mul row halfW).symm
    _ ≤ depth * halfW := Nat.mul_le_mul_right halfW inside

section

variable {s : CountMinSketch} {counters : Bytes} {row : ℕ}

theorem nibbleGet_total {col halfW : ℕ} (sized : counters.length = depth * halfW) (inside : row < depth)
    (within : col < 2 * halfW) :
    ∃ val, nibbleGet counters row col halfW = some val := by
  have bound : row * halfW + col / 2 < counters.length := sized ▸ byteIdx_lt inside within
  unfold nibbleGet
  rw [List.getElem?_eq_getElem bound]
  exact ⟨_, rfl⟩

theorem nibbleSet_total {col halfW : ℕ} (sized : counters.length = depth * halfW) (inside : row < depth)
    (within : col < 2 * halfW) (val : UInt8) :
    ∃ after, nibbleSet counters row col halfW val = some after ∧ after.length = depth * halfW := by
  have bound : row * halfW + col / 2 < counters.length := sized ▸ byteIdx_lt inside within
  unfold nibbleSet
  rw [List.getElem?_eq_getElem bound]
  exact ⟨_, rfl, by rw [List.length_set, sized]⟩

variable (sized : s.Sized)

include sized

theorem rowCol_within (hA hB : UInt64) (row : ℕ) :
    rowCol hA hB row s.w < 2 * s.halfW := by
  have positive := sized.positive
  rw [← sized.w]
  exact rowCol_lt hA hB row (by rw [sized.w]; omega)

theorem incrementRow_total (hA hB : UInt64) (inside : row < depth)
    (same : counters.length = depth * s.halfW) :
    ∃ after, CountMinSketch.incrementRow hA hB s.w s.halfW counters row = some after ∧
      after.length = depth * s.halfW := by
  have within := rowCol_within sized hA hB row
  obtain ⟨cur, found⟩ := nibbleGet_total same inside within
  unfold CountMinSketch.incrementRow
  simp only [found, Option.bind_eq_bind, Option.bind_some]
  split_ifs
  · exact nibbleSet_total same inside within (cur + 1)
  · exact ⟨counters, rfl, same⟩

theorem CountMinSketch.Sized.age : s.age.Sized :=
  ⟨by rw [CountMinSketch.age, List.length_map]; exact sized.counters, sized.w, sized.positive⟩

theorem CountMinSketch.Sized.clear : s.clear.Sized :=
  ⟨by rw [CountMinSketch.clear, List.length_map]; exact sized.counters, sized.w, sized.positive⟩

theorem CountMinSketch.Sized.increment (keyBytes : Bytes) :
    ∃ s', s.increment keyBytes = some s' ∧ s'.Sized := by
  obtain ⟨counters, done, same⟩ := WhileLoop.foldlM_total
    (fun counters : Bytes => counters.length = depth * s.halfW)
    (fun row member counters same => incrementRow_total sized (doubleHash keyBytes).1 (doubleHash keyBytes).2
      (mem_range_depth member) same) sized.counters
  have counted : CountMinSketch.Sized { s with counters := counters, additions := s.additions + 1 } :=
    ⟨same, sized.w, sized.positive⟩
  unfold CountMinSketch.increment
  simp only [done, Option.bind_eq_bind, Option.bind_some]
  refine ⟨_, rfl, ?_⟩
  split_ifs
  · exact counted.age
  · exact counted

theorem estimateRow_total (hA hB : UInt64) (inside : row < depth) (minVal : ℕ) :
    ∃ after, CountMinSketch.estimateRow hA hB s minVal row = some after := by
  obtain ⟨val, found⟩ := nibbleGet_total sized.counters inside (rowCol_within sized hA hB row)
  unfold CountMinSketch.estimateRow
  rw [found]
  exact ⟨_, rfl⟩

theorem CountMinSketch.Sized.estimate (keyBytes : Bytes) :
    ∃ freq, s.estimate keyBytes = some freq := by
  have works : ∀ row ∈ List.range depth, ∀ minVal : ℕ, True →
      ∃ after, CountMinSketch.estimateRow (doubleHash keyBytes).1 (doubleHash keyBytes).2 s minVal row =
        some after ∧ True := by
    intro row member minVal _
    obtain ⟨after, done⟩ := estimateRow_total sized (doubleHash keyBytes).1 (doubleHash keyBytes).2
      (mem_range_depth member) minVal
    exact ⟨after, done, trivial⟩
  obtain ⟨freq, done, _⟩ := WhileLoop.foldlM_total (fun _ => True) works trivial
  exact ⟨freq, done⟩

omit sized

theorem nibbleGet_short {col halfW : ℕ} (outside : counters.length ≤ row * halfW) :
    nibbleGet counters row col halfW = none := by
  unfold nibbleGet
  rw [List.getElem?_eq_none (by omega)]
  rfl

theorem incrementRow_length {hA hB : UInt64} {w halfW : ℕ} {after : Bytes}
    (done : CountMinSketch.incrementRow hA hB w halfW counters row = some after) :
    after.length = counters.length := by
  obtain ⟨cur, _, done⟩ := Option.bind_eq_some_iff.mp done
  split_ifs at done
  · obtain ⟨_, _, rfl⟩ := Option.map_eq_some_iff.mp done
    exact List.length_set
  · cases done
    rfl

theorem countRows_length (hA hB : UInt64) (w halfW : ℕ) (rows : List ℕ) (counters : Bytes) :
    (CountMinSketch.countRows hA hB w halfW rows counters).length = counters.length := by
  induction rows generalizing counters with
  | nil => rfl
  | cons row rows ih =>
    unfold CountMinSketch.countRows
    cases counted : CountMinSketch.incrementRow hA hB w halfW counters row with
    | none => rfl
    | some after => exact (ih after).trans (incrementRow_length counted)

theorem CountMinSketch.Short.cutShort (short : s.Short) (keyBytes : Bytes) : (s.cutShort keyBytes).Short :=
  (countRows_length _ _ _ _ _ _).trans_le short

theorem CountMinSketch.Short.clear (short : s.Short) : s.clear.Short := (List.length_map _).trans_le short

theorem CountMinSketch.Short.panics (short : s.Short) (keyBytes : Bytes) :
    s.increment keyBytes = none ∧ s.estimate keyBytes = none := by
  have outside : s.counters.length ≤ 1 * s.halfW := by rw [one_mul]; exact short
  have missing (after : Bytes) (same : after.length = s.counters.length) (hA hB : UInt64) :
      CountMinSketch.incrementRow hA hB s.w s.halfW after 1 = none := by
    unfold CountMinSketch.incrementRow
    dsimp only
    rw [nibbleGet_short (same ▸ outside)]
    rfl
  constructor
  · unfold CountMinSketch.increment
    show Option.bind ([0, 1, 2, 3].foldlM _ s.counters) _ = none
    rw [List.foldlM_cons]
    cases first : CountMinSketch.incrementRow _ _ s.w s.halfW s.counters 0 with
    | none => rfl
    | some after => simp [missing after (incrementRow_length first)]
  · show [0, 1, 2, 3].foldlM (estimateRow _ _ s) _ = none
    rw [List.foldlM_cons]
    cases CountMinSketch.estimateRow _ _ s _ 0 with
    | none => rfl
    | some least => simp [CountMinSketch.estimateRow, nibbleGet_short outside]

theorem nextPowerOfTwo_of_le {n k : ℕ} (small : n ≤ 2 ^ k) (fits : k < 64) :
    nextPowerOfTwo n = 2 ^ Nat.clog 2 n ∧ Nat.clog 2 n ≤ k := by
  have exponent : Nat.clog 2 n ≤ k := Nat.clog_le_of_le_pow small
  exact ⟨Nat.mod_eq_of_lt (Nat.pow_lt_pow_right one_lt_two (exponent.trans_lt fits)), exponent⟩

theorem CountMinSketch.new_sized {capacity : ℕ} (enough : 2 ≤ capacity) (fits : capacity ≤ 2 ^ 62) :
    (CountMinSketch.new capacity).Sized := by
  obtain ⟨width, most⟩ := nextPowerOfTwo_of_le fits (by decide)
  obtain ⟨k, same⟩ := Nat.exists_eq_succ_of_ne_zero (Nat.clog_pos one_lt_two enough).ne'
  rw [same] at width most
  rw [Nat.pow_succ] at width
  have positive : 0 < 2 ^ k := Nat.two_pow_pos k
  have bound : 2 ^ k ≤ 2 ^ 61 := Nat.pow_le_pow_right two_pos (by omega)
  unfold CountMinSketch.new
  rw [width]
  exact ⟨by simp only [List.length_replicate, depth]; omega, by dsimp only; omega, by dsimp only; omega⟩

theorem CountMinSketch.new_short {capacity : ℕ} (outside : ¬ (2 ≤ capacity ∧ capacity ≤ 2 ^ 62)) :
    (CountMinSketch.new capacity).Short := by
  have width : nextPowerOfTwo capacity = 0 ∨ nextPowerOfTwo capacity = 1 ∨
      nextPowerOfTwo capacity = 2 ^ 63 := by
    rcases lt_or_ge capacity 2 with few | enough
    · have none' : Nat.clog 2 capacity = 0 := Nat.clog_of_right_le_one (by omega) 2
      rw [nextPowerOfTwo, none']
      exact .inr (.inl rfl)
    · have large : 62 < Nat.clog 2 capacity := (Nat.lt_clog_iff_pow_lt one_lt_two).mpr (by omega)
      obtain ⟨k, same⟩ := Nat.exists_eq_add_of_lt large
      rw [nextPowerOfTwo, same]
      cases k with
      | zero => exact .inr (.inr rfl)
      | succ k =>
        rw [show 62 + (k + 1) + 1 = 64 + k from by omega, Nat.pow_add, Nat.mul_mod_right]
        exact .inl rfl
  unfold CountMinSketch.new CountMinSketch.Short
  dsimp only
  rw [List.length_replicate]
  unfold depth
  rcases width with width | width | width
  all_goals
    rw [width]
    decide

end

section

variable {d : Doorkeeper}

theorem Doorkeeper.Sized.clear (sized : d.Sized) : d.clear.Sized :=
  ⟨by rw [Doorkeeper.clear, List.length_map]; exact sized.bits, sized.positive⟩

theorem putRow_total (sized : d.Sized) (hA hB : UInt64) (row : ℕ) {seen : Bool × List UInt64}
    (same : seen.2.length = d.bits.length) :
    ∃ after, Doorkeeper.putRow hA hB d.numBits seen row = some after ∧ after.2.length = d.bits.length := by
  have bound : rowCol hA hB row d.numBits / 64 < seen.2.length := by
    have inside := rowCol_lt hA hB row sized.positive
    have bits := sized.bits
    omega
  unfold Doorkeeper.putRow
  dsimp only
  rw [List.getElem?_eq_getElem bound]
  refine ⟨_, rfl, ?_⟩
  split_ifs
  · rw [List.length_set, same]
  · exact same

theorem Doorkeeper.Sized.put (sized : d.Sized) (keyBytes : Bytes) :
    ∃ seen d', d.put keyBytes = some (seen, d') ∧ d'.Sized := by
  have start : ((true, d.bits) : Bool × List UInt64).2.length = d.bits.length := rfl
  obtain ⟨after, done, same⟩ := WhileLoop.foldlM_total
    (fun seen : Bool × List UInt64 => seen.2.length = d.bits.length)
    (fun row (_ : row ∈ List.range depth) seen same =>
      putRow_total sized (doubleHash keyBytes).1 (doubleHash keyBytes).2 row same) start
  refine ⟨after.1, { d with bits := after.2 }, ?_, ⟨?_, sized.positive⟩⟩
  · unfold Doorkeeper.put
    simp only [done, Option.bind_eq_bind, Option.bind_some]
  · show after.2.length * 64 = d.numBits
    rw [same, sized.bits]

theorem Doorkeeper.new_sized (capacity : ℕ) : (Doorkeeper.new capacity).Sized := by
  have whole : 64 ∣ max (nextPowerOfTwo (capacity * 8 % 2 ^ 64)) 64 := by
    rcases le_total (nextPowerOfTwo (capacity * 8 % 2 ^ 64)) 64 with small | large
    · rw [max_eq_right small]
    · rw [max_eq_left large]
      unfold nextPowerOfTwo at large ⊢
      have exponent : 6 ≤ Nat.clog 2 (capacity * 8 % 2 ^ 64) := by
        by_contra few
        have small : 2 ^ Nat.clog 2 (capacity * 8 % 2 ^ 64) ≤ 2 ^ 5 := Nat.pow_le_pow_right two_pos (by omega)
        have less := Nat.mod_le (2 ^ Nat.clog 2 (capacity * 8 % 2 ^ 64)) (2 ^ 64)
        omega
      exact (Nat.dvd_mod_iff (by decide)).mpr (pow_dvd_pow 2 exponent)
  refine ⟨?_, ?_⟩
  · show (List.replicate _ _).length * 64 = _
    rw [List.length_replicate]
    exact Nat.div_mul_cancel whole
  · exact (Nat.le_max_right _ 64).trans_lt' (by decide)

end

/-! ### Filters that never panic -/

structure SizedDoorkeeper where
  doorkeeper : Doorkeeper
  sized : doorkeeper.Sized

namespace SizedDoorkeeper

def new (capacity : ℕ) : SizedDoorkeeper := ⟨.new capacity, Doorkeeper.new_sized capacity⟩

theorem put_isSome (d : SizedDoorkeeper) (keyBytes : Bytes) : (d.doorkeeper.put keyBytes).isSome := by
  obtain ⟨_, _, done, _⟩ := d.sized.put keyBytes
  rw [done]
  rfl

def put (keyBytes : Bytes) (d : SizedDoorkeeper) : Bool × SizedDoorkeeper :=
  let after := (d.doorkeeper.put keyBytes).get (d.put_isSome keyBytes)
  (after.1, ⟨after.2, by
    obtain ⟨seen, d', done, sized⟩ := d.sized.put keyBytes
    simp only [after, done, Option.get_some]
    exact sized⟩)

def clear (d : SizedDoorkeeper) : SizedDoorkeeper := ⟨d.doorkeeper.clear, d.sized.clear⟩

end SizedDoorkeeper

end OxiStore.Caching
