/-
**Lists cut into pieces of one size.**
-/

import Mathlib.Data.List.Basic

namespace ListChunks

variable {α : Type}

def pieces (size : ℕ) : ℕ → List α → List (List α)
  | _, [] => []
  | 0, _ :: _ => []
  | n + 1, a :: l => (a :: l).take size :: pieces size n ((a :: l).drop size)

def chunks (size : ℕ) (l : List α) : List (List α) := pieces size l.length l

variable {size : ℕ} {l : List α}

theorem pieces_eq (positive : 0 < size) {n m : ℕ} (first : l.length ≤ n) (second : l.length ≤ m) :
    pieces size n l = pieces size m l := by
  induction n generalizing l m with
  | zero =>
    rw [List.length_eq_zero_iff.mp (Nat.le_zero.mp first), pieces, pieces]
  | succ n ih =>
    cases l with
    | nil => rw [pieces, pieces]
    | cons a l =>
      cases m with
      | zero => cases second
      | succ m =>
        have shorter : ((a :: l).drop size).length ≤ l.length := by
          rw [List.length_drop, List.length_cons]
          omega
        rw [List.length_cons] at first second
        rw [pieces, pieces]
        exact congrArg _ (ih (by omega) (by omega))

theorem chunks_of_ne_nil (positive : 0 < size) (some' : l ≠ []) :
    chunks size l = l.take size :: chunks size (l.drop size) := by
  cases l with
  | nil => exact absurd rfl some'
  | cons a l =>
    have shorter : ((a :: l).drop size).length ≤ l.length := by
      rw [List.length_drop, List.length_cons]
      omega
    unfold chunks
    rw [List.length_cons, pieces, pieces_eq positive shorter (Nat.le_refl _)]

theorem drop_induction {holds : List α → Prop} (positive : 0 < size) (empty : holds [])
    (step : ∀ l, l ≠ [] → holds (l.drop size) → holds l) (l : List α) : holds l := by
  suffices bounded : ∀ n, ∀ l : List α, l.length ≤ n → holds l from bounded l.length l (Nat.le_refl _)
  intro n
  induction n with
  | zero =>
    intro l short
    rw [List.length_eq_zero_iff.mp (Nat.le_zero.mp short)]
    exact empty
  | succ n ih =>
    intro l short
    cases l with
    | nil => exact empty
    | cons a l =>
      refine step _ (List.cons_ne_nil a l) (ih _ ?_)
      rw [List.length_drop]
      omega

theorem flatten_chunks (positive : 0 < size) (l : List α) : (chunks size l).flatten = l := by
  induction l using drop_induction positive with
  | empty => rfl
  | step l some' ih => rw [chunks_of_ne_nil positive some', List.flatten_cons, ih, List.take_append_drop]

theorem ne_nil_of_mem_chunks (positive : 0 < size) {l piece : List α} (member : piece ∈ chunks size l) :
    piece ≠ [] := by
  induction l using drop_induction positive with
  | empty => cases member
  | step l some' ih =>
    rw [chunks_of_ne_nil positive some', List.mem_cons] at member
    rcases member with rfl | later
    · rw [Ne, List.take_eq_nil_iff]
      rintro (none' | none')
      · omega
      · exact some' none'
    · exact ih later

end ListChunks
