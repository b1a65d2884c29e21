/-
**Byte strings: their order and fixed-width little-endian integers.**
-/

import Mathlib

namespace ByteString

abbrev Bytes := List UInt8

instance linearOrderUInt8 : LinearOrder UInt8 where
  toLE := instLEUInt8
  toLT := instLTUInt8
  le_refl := UInt8.le_refl
  le_trans _ _ _ := UInt8.le_trans
  le_antisymm _ _ := UInt8.le_antisymm
  le_total := UInt8.le_total
  lt_iff_le_not_ge first second := by
    rw [UInt8.lt_iff_toNat_lt, UInt8.le_iff_toNat_le, UInt8.le_iff_toNat_le]
    omega
  toDecidableLE := UInt8.decLe
  toDecidableLT := UInt8.decLt

instance (priority := 1100) transCmp_bytes : Std.TransCmp (@compare Bytes LinearOrder.toOrd) :=
  inferInstance

/-! ### The order around a prefix -/

section

variable {α : Type} [LinearOrder α]

theorem cons_le_cons_iff' (first second : α) (left right : List α) :
    first :: left ≤ second :: right ↔ first < second ∨ first = second ∧ left ≤ right := by
  rw [← not_lt, List.cons_lt_cons_iff, ← not_lt]
  constructor
  · intro notLess
    rcases lt_trichotomy first second with less | same | more
    · exact Or.inl less
    · exact Or.inr ⟨same, fun less => notLess (Or.inr ⟨same.symm, less⟩)⟩
    · exact absurd (Or.inl more) notLess
  · rintro (less | ⟨same, notLess⟩) (more | ⟨_, more⟩)
    · exact lt_asymm less more
    · simp_all
    · simp_all
    · exact notLess more

theorem between_append_iff (front low high key : List α) :
    (front ++ low ≤ key ∧ key < front ++ high) ↔
      ∃ tail, key = front ++ tail ∧ low ≤ tail ∧ tail < high := by
  induction front generalizing key with
  | nil => simp
  | cons first front ih =>
    cases key with
    | nil =>
      constructor
      · rintro ⟨above, _⟩
        exact absurd (List.nil_lt_cons first (front ++ low)) (not_lt.mpr above)
      · rintro ⟨tail, split, _⟩
        cases split
    | cons second key =>
      rw [List.cons_append, List.cons_append, cons_le_cons_iff', List.cons_lt_cons_iff]
      constructor
      · rintro ⟨less | ⟨same, above⟩, more | ⟨same', below⟩⟩
        · exact absurd more (lt_asymm less)
        · exact absurd less (same' ▸ lt_irrefl _)
        · exact absurd more (same ▸ lt_irrefl _)
        · obtain ⟨tail, split, bounds⟩ := (ih key).mp ⟨above, below⟩
          exact ⟨tail, by rw [same, split, List.cons_append], bounds⟩
      · rintro ⟨tail, split, bounds⟩
        rw [List.cons_append, List.cons.injEq] at split
        obtain ⟨above, below⟩ := (ih key).mpr ⟨tail, split.2, bounds⟩
        exact ⟨Or.inr ⟨split.1.symm, above⟩, Or.inr ⟨split.1, below⟩⟩

theorem replicate_le_iff {top : α} (greatest : ∀ element, element ≤ top) (count : ℕ)
    (key : List α) : List.replicate count top ≤ key ↔ List.replicate count top <+: key := by
  induction count generalizing key with
  | zero => exact iff_of_true (not_lt.mp (List.not_lt_nil key)) List.nil_prefix
  | succ count ih =>
    cases key with
    | nil =>
      rw [List.replicate_succ, List.prefix_nil]
      constructor
      · exact fun above => absurd (List.nil_lt_cons top _) (not_lt.mpr above)
      · rintro ⟨⟩
    | cons element key =>
      rw [List.replicate_succ, cons_le_cons_iff', List.cons_prefix_cons, ih]
      constructor
      · rintro (less | both)
        · exact absurd less (not_lt.mpr (greatest element))
        · exact both
      · exact Or.inr

end

/-! ### Little-endian integers -/

def toLeBytes : ℕ → ℕ → Bytes
  | 0, _ => []
  | width + 1, value => UInt8.ofNat value :: toLeBytes width (value / 256)

def ofLeBytes (bytes : Bytes) : ℕ :=
  bytes.foldr (fun byte rest => byte.toNat + 256 * rest) 0

@[simp] theorem length_toLeBytes (width value : ℕ) : (toLeBytes width value).length = width := by
  induction width generalizing value with
  | zero => rfl
  | succ width ih => rw [toLeBytes, List.length_cons, ih]

theorem ofLeBytes_toLeBytes (width value : ℕ) :
    ofLeBytes (toLeBytes width value) = value % 256 ^ width := by
  induction width generalizing value with
  | zero => simp [toLeBytes, ofLeBytes, Nat.mod_one]
  | succ width ih =>
    have tail := ih (value / 256)
    simp only [ofLeBytes] at tail
    simp only [toLeBytes, ofLeBytes, List.foldr_cons]
    have split : value % 256 ^ (width + 1) = value % 256 + 256 * (value / 256 % 256 ^ width) := by
      rw [pow_succ', Nat.mod_mul]
    rw [tail, split, UInt8.toNat_ofNat']

theorem toLeBytes_inj {width first second : ℕ} (fits : first < 256 ^ width)
    (fits' : second < 256 ^ width) (same : toLeBytes width first = toLeBytes width second) :
    first = second := by
  have values := congrArg ofLeBytes same
  rw [ofLeBytes_toLeBytes, ofLeBytes_toLeBytes] at values
  rwa [Nat.mod_eq_of_lt fits, Nat.mod_eq_of_lt fits'] at values

end ByteString
