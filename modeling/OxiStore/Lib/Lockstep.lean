/-
**Two machines in step.**
-/

import Mathlib

namespace StepProg

variable {σ ρ ω α : Type}

def AlongRun (step : σ → ω → α × σ) (allowed : σ → ω → Prop) : σ → List ω → Prop
  | _, [] => True
  | s, op :: ops => allowed s op ∧ AlongRun step allowed (step s op).2 ops

instance AlongRun.decidable {step : σ → ω → α × σ} {allowed : σ → ω → Prop}
    [∀ s op, Decidable (allowed s op)] : ∀ s ops, Decidable (AlongRun step allowed s ops)
  | _, [] => .isTrue trivial
  | s, op :: ops => @instDecidableAnd _ _ _ (AlongRun.decidable (step s op).2 ops)

variable {step : σ → ω → α × σ} {allowed : σ → ω → Prop}

theorem alongRun_of_forall (always : ∀ s op, allowed s op) (s : σ) (ops : List ω) :
    AlongRun step allowed s ops := by
  induction ops generalizing s with
  | nil => exact trivial
  | cons op ops ih => exact ⟨always s op, ih (step s op).2⟩

def afterRun (step : σ → ω → α × σ) : σ → List ω → σ
  | s, [] => s
  | s, op :: ops => afterRun step (step s op).2 ops

theorem afterRun_append (step : σ → ω → α × σ) (s : σ) (ops ops' : List ω) :
    afterRun step s (ops ++ ops') = afterRun step (afterRun step s ops) ops' := by
  induction ops generalizing s with
  | nil => rfl
  | cons op ops ih => exact ih (step s op).2

variable {ops : List ω} {s : σ}

theorem alongRun_append {ops' : List ω} :
    AlongRun step allowed s (ops ++ ops') ↔
      AlongRun step allowed s ops ∧ AlongRun step allowed (afterRun step s ops) ops' := by
  induction ops generalizing s with
  | nil => exact (and_iff_right trivial).symm
  | cons op ops ih => exact (and_congr_right fun _ => ih).trans and_assoc.symm

theorem alongRun_iff_split : AlongRun step allowed s ops ↔
    ∀ before op after, ops = before ++ op :: after → allowed (afterRun step s before) op := by
  constructor
  · rintro along before op after rfl
    exact (alongRun_append.mp along).2.1
  · intro all
    induction ops generalizing s with
    | nil => exact trivial
    | cons op ops ih =>
      exact ⟨all [] op ops rfl, ih fun before later after split => all (op :: before) later after (by rw [split]; rfl)⟩

theorem AlongRun.and {first second : σ → ω → Prop} (holds : AlongRun step first s ops)
    (holds' : AlongRun step second s ops) :
    AlongRun step (fun s op => first s op ∧ second s op) s ops := by
  induction ops generalizing s with
  | nil => exact trivial
  | cons op ops ih => exact ⟨⟨holds.1, holds'.1⟩, ih holds.2 holds'.2⟩

variable {holds : σ → Prop}

theorem afterRun_invariant (keeps : ∀ s op, holds s → allowed s op → holds (step s op).2) (start : holds s)
    (along : AlongRun step allowed s ops) : holds (afterRun step s ops) := by
  induction ops generalizing s with
  | nil => exact start
  | cons op ops ih => exact ih (keeps s op start along.1) along.2

theorem forall_prefix_iff {shown : σ → Prop} (shows : ∀ s, holds s → shown s)
    (keeps : ∀ s op, holds s → allowed s op → holds (step s op).2)
    (breaks : ∀ s op, holds s → ¬ allowed s op → ¬ shown (step s op).2) (start : holds s) (ops : List ω) :
    (∀ done, done <+: ops → shown (afterRun step s done)) ↔ AlongRun step allowed s ops := by
  constructor
  · intro all
    induction ops generalizing s with
    | nil => exact trivial
    | cons op ops ih =>
      have here : allowed s op :=
        not_not.mp fun refused => breaks s op start refused (all [op] ⟨ops, rfl⟩)
      refine ⟨here, ih (keeps s op start here) fun done before => ?_⟩
      exact all (op :: done) (List.cons_prefix_cons.mpr ⟨rfl, before⟩)
  · rintro along done ⟨rest, rfl⟩
    exact shows _ (afterRun_invariant keeps start (alongRun_append.mp along).1)

theorem alongRun_of_invariant {gives : σ → ω → Prop}
    (keeps : ∀ s op, holds s → allowed s op → gives s op ∧ holds (step s op).2) (start : holds s)
    (along : AlongRun step allowed s ops) : AlongRun step gives s ops := by
  induction ops generalizing s with
  | nil => exact trivial
  | cons op ops ih =>
    obtain ⟨here, next⟩ := keeps s op start along.1
    exact ⟨here, ih next along.2⟩

theorem alongRun_congr {first second : σ → ω → Prop} (holds : σ → Prop)
    (agree : ∀ s op, holds s → (first s op ↔ second s op) ∧ (first s op → holds (step s op).2))
    (start : holds s) (ops : List ω) : AlongRun step first s ops ↔ AlongRun step second s ops := by
  induction ops generalizing s with
  | nil => exact Iff.rfl
  | cons op ops ih =>
    obtain ⟨same, next⟩ := agree s op start
    constructor
    · rintro ⟨here, rest⟩
      exact ⟨same.mp here, (ih (next here)).mp rest⟩
    · rintro ⟨here, rest⟩
      exact ⟨same.mpr here, (ih (next (same.mpr here))).mpr rest⟩

def answers (step : σ → ω → α × σ) : σ → List ω → List α
  | _, [] => []
  | s, op :: ops => (step s op).1 :: answers step (step s op).2 ops

def Lockstep (step : σ → ω → α × σ) (agree : σ → ρ → ω → α → σ → ρ → Prop) : σ → ρ → List ω → Prop
  | _, _, [] => True
  | s, p, op :: ops => ∃ p', agree s p op (step s op).1 (step s op).2 p' ∧
      Lockstep step agree (step s op).2 p' ops

theorem lockstep_of_simulation {agree : σ → ρ → ω → α → σ → ρ → Prop} (related : σ → ρ → Prop)
    (simulates : ∀ s p op, related s p → allowed s op →
      ∃ p', agree s p op (step s op).1 (step s op).2 p' ∧ related (step s op).2 p') {p : ρ}
    (start : related s p) (along : AlongRun step allowed s ops) :
    Lockstep step agree s p ops := by
  induction ops generalizing s p with
  | nil => exact trivial
  | cons op ops ih =>
    obtain ⟨here, rest⟩ := along
    obtain ⟨p', agrees, next⟩ := simulates s p op start here
    exact ⟨p', agrees, ih next rest⟩

theorem answers_eq_of_simulation {reference : ρ → ω → α × ρ} {allowed : ρ → ω → Prop}
    {related : σ → ρ → Prop} (simulates : ∀ s p op, related s p → allowed p op →
      (step s op).1 = (reference p op).1 ∧ related (step s op).2 (reference p op).2) {p : ρ}
    (start : related s p) (along : AlongRun reference allowed p ops) :
    answers step s ops = answers reference p ops := by
  induction ops generalizing s p with
  | nil => rfl
  | cons op ops ih =>
    obtain ⟨here, rest⟩ := along
    obtain ⟨same, next⟩ := simulates s p op start here
    rw [answers, answers, same, ih next rest]

theorem same_run_iff {other : σ → ω → α × σ} {alike : σ → ω → Prop}
    (tells : ∀ s op, (other s op).1 = (step s op).1 ↔ alike s op)
    (same : ∀ s op, alike s op → (other s op).2 = (step s op).2) (s : σ) (ops : List ω) :
    (answers other s ops = answers step s ops ∧ afterRun other s ops = afterRun step s ops) ↔
      AlongRun step alike s ops := by
  induction ops generalizing s with
  | nil => exact iff_of_true ⟨rfl, rfl⟩ trivial
  | cons op ops ih =>
    rw [answers, answers, afterRun, afterRun, List.cons.injEq, tells, AlongRun, and_assoc]
    refine and_congr_right fun here => ?_
    rw [same s op here]
    exact ih _

end StepProg
