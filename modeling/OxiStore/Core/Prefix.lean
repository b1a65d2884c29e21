/-
**`prefix_upper_bound`: the half-open range of a prefix.**
-/

import OxiStore.Lib.Bytes

namespace OxiStore

open ByteString

def bumpLast : Bytes → Option Bytes
  | [] => none
  | byte :: rest => if byte = 0xFF then bumpLast rest else some ((byte + 1) :: rest)

def prefixUpperBound (start : Bytes) : Option Bytes :=
  if start.isEmpty then none else (bumpLast start.reverse).map List.reverse

/-! ### What the loop finds -/

theorem bumpLast_some {bytes bumped : Bytes} (found : bumpLast bytes = some bumped) :
    ∃ (count : ℕ) (byte : UInt8) (rest : Bytes), byte ≠ 0xFF ∧
      bytes = List.replicate count 0xFF ++ byte :: rest ∧ bumped = (byte + 1) :: rest := by
  induction bytes with
  | nil => cases found
  | cons byte rest ih =>
    by_cases full : byte = 0xFF
    · rw [bumpLast, if_pos full] at found
      obtain ⟨count, last, front, notFull, split, result⟩ := ih found
      refine ⟨count + 1, last, front, notFull, ?_, result⟩
      rw [full, split, List.replicate_succ, List.cons_append]
    · rw [bumpLast, if_neg full] at found
      exact ⟨0, byte, rest, full, rfl, (Option.some.inj found).symm⟩

theorem bumpLast_none {bytes : Bytes} (found : bumpLast bytes = none) :
    bytes = List.replicate bytes.length 0xFF := by
  induction bytes with
  | nil => rfl
  | cons byte rest ih =>
    by_cases full : byte = 0xFF
    · rw [bumpLast, if_pos full] at found
      rw [List.length_cons, List.replicate_succ, ← ih found, full]
    · simp [bumpLast, if_neg full] at found

/-! ### The range of a prefix -/

theorem byte_le_full (byte : UInt8) : byte ≤ 0xFF := by
  show byte.toNat ≤ 255
  have small := byte.toNat_lt
  omega

theorem byte_lt_succ_iff {byte other : UInt8} (notFull : byte ≠ 0xFF) :
    other < byte + 1 ↔ other ≤ byte := by
  have small : byte.toNat < 256 := byte.toNat_lt
  have room : byte.toNat ≠ 255 := fun full => notFull (UInt8.toNat_inj.mp full)
  have sum : (byte + 1).toNat = byte.toNat + 1 := by
    rw [UInt8.toNat_add, UInt8.toNat_one]
    omega
  show other.toNat < (byte + 1).toNat ↔ other.toNat ≤ byte.toNat
  rw [sum]
  omega

variable {start bound : Bytes}

theorem prefixUpperBound_shape (found : prefixUpperBound start = some bound) :
    ∃ (front : Bytes) (byte : UInt8) (count : ℕ), byte ≠ 0xFF ∧
      start = front ++ byte :: List.replicate count 0xFF ∧ bound = front ++ [byte + 1] := by
  unfold prefixUpperBound at found
  split_ifs at found with empty
  obtain ⟨bumped, stopped, rfl⟩ := Option.map_eq_some_iff.mp found
  obtain ⟨count, byte, rest, notFull, split, rfl⟩ := bumpLast_some stopped
  refine ⟨rest.reverse, byte, count, notFull, ?_, by simp⟩
  have unreversed := congrArg List.reverse split
  simpa using unreversed

theorem prefixUpperBound_some_iff (found : prefixUpperBound start = some bound) (key : Bytes) :
    (start ≤ key ∧ key < bound) ↔ start <+: key := by
  obtain ⟨front, byte, count, notFull, rfl, rfl⟩ := prefixUpperBound_shape found
  rw [between_append_iff]
  constructor
  · rintro ⟨tail, rfl, above, below⟩
    refine (List.prefix_append_right_inj front).mpr ?_
    cases tail with
    | nil => exact absurd (List.nil_lt_cons byte _) (not_lt.mpr above)
    | cons head tail =>
      rw [cons_le_cons_iff'] at above
      rw [List.cons_lt_cons_iff, byte_lt_succ_iff notFull] at below
      have upper : head ≤ byte := by
        rcases below with upper | ⟨_, impossible⟩
        · exact upper
        · exact absurd impossible (List.not_lt_nil tail)
      rcases above with less | ⟨same, rest⟩
      · exact absurd less (not_lt.mpr upper)
      · rw [same]
        exact List.cons_prefix_cons.mpr
          ⟨rfl, (replicate_le_iff byte_le_full count tail).mp rest⟩
  · rintro ⟨extra, rfl⟩
    refine ⟨byte :: List.replicate count 0xFF ++ extra, by rw [List.append_assoc], ?_, ?_⟩
    · rw [List.cons_append, cons_le_cons_iff']
      exact Or.inr ⟨rfl, (replicate_le_iff byte_le_full count _).mpr (List.prefix_append _ _)⟩
    · rw [List.cons_append, List.cons_lt_cons_iff, byte_lt_succ_iff notFull]
      exact Or.inl le_rfl

theorem prefixUpperBound_none_shape (found : prefixUpperBound start = none) :
    start = List.replicate start.length 0xFF := by
  unfold prefixUpperBound at found
  split_ifs at found with empty
  · rw [List.isEmpty_iff.mp empty]
    rfl
  · have reversed := bumpLast_none (Option.map_eq_none_iff.mp found)
    have unreversed := congrArg List.reverse reversed
    simpa using unreversed

theorem prefixUpperBound_eq_none_iff :
    prefixUpperBound start = none ↔ ∀ byte ∈ start, byte = 0xFF := by
  constructor
  · intro found
    rw [prefixUpperBound_none_shape found]
    exact fun byte member => List.eq_of_mem_replicate member
  · intro full
    cases found : prefixUpperBound start with
    | none => rfl
    | some bound =>
      obtain ⟨front, byte, count, notFull, rfl, _⟩ := prefixUpperBound_shape found
      exact absurd (full byte (List.mem_append_right _ List.mem_cons_self)) notFull

theorem prefixUpperBound_none_iff (found : prefixUpperBound start = none) (key : Bytes) :
    start ≤ key ↔ start <+: key := by
  rw [prefixUpperBound_none_shape found]
  exact replicate_le_iff byte_le_full start.length key

theorem le_prefixUpperBound (found : prefixUpperBound start = some bound) :
    start ≤ bound :=
  le_of_lt ((prefixUpperBound_some_iff found start).mpr List.prefix_rfl).2

end OxiStore
