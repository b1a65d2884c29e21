/-
**`compare_and_swap`, one call at a time.**
-/

import OxiStore.Kv.Engine

namespace OxiStore

open ByteString

section

variable {E T N : Type} [Expiry E]

/-- **A correct swap**, against the store's own `get`. -/
structure CasCorrect (kv : KvStore (World E) T N) (key : Bytes) (expected : Option Bytes)
    (newValue : Bytes) (w : World E) : Prop where
  answers : ((kv.compareAndSwap key expected newValue).exec w).1 =
    .ok (decide (((kv.get key).exec w).1.toOption = some expected))
  swapped : ((kv.get key).exec w).1 = .ok expected →
    ∀ other, ((kv.get other).exec ((kv.compareAndSwap key expected newValue).exec w).2).1 =
      if key = other then .ok (some newValue) else ((kv.get other).exec w).1
  kept : ((kv.get key).exec w).1 ≠ .ok expected →
    ∀ other, ((kv.get other).exec ((kv.compareAndSwap key expected newValue).exec w).2).1 =
      ((kv.get other).exec w).1

variable (b : Backend E T N) {key : Bytes} {expected : Option Bytes} {newValue : Bytes} {w : World E}

theorem Backend.casCorrect_iff :
    CasCorrect b.kv key expected newValue w ↔
      (b.casSees w key = expected ↔ w.visible key = expected) := by
  have swap := b.compareAndSwap_exec key expected newValue w
  constructor
  · intro correct
    have answer := correct.answers
    rw [swap, b.get_exec] at answer
    by_cases sees : b.casSees w key = expected
    · rw [if_pos sees] at answer
      simpa [sees, Except.toOption] using answer
    · rw [if_neg sees] at answer
      simpa [sees, Except.toOption] using answer
  · intro same
    by_cases sees : b.casSees w key = expected
    · have visible := same.mp sees
      rw [if_pos sees] at swap
      refine ⟨?_, fun _ other => ?_, fun differs => ?_⟩
      · rw [swap, b.get_exec, visible]
        simp [Except.toOption]
      · rw [swap, b.get_exec, b.get_exec]
        show Except.ok ((w.store.write key newValue).visible w.clock other) = _
        rw [Store.visible_write]
        split_ifs with at_key
        all_goals rfl
      · rw [b.get_exec, visible] at differs
        exact absurd rfl differs
    · have differs : w.visible key ≠ expected := fun visible => sees (same.mpr visible)
      rw [if_neg sees] at swap
      refine ⟨?_, fun found => ?_, fun _ other => ?_⟩
      · rw [swap, b.get_exec]
        simp [Except.toOption, differs]
      · rw [b.get_exec] at found
        exact absurd (Except.ok.inj found) differs
      · rw [swap]

end

def Sled.CasStale (w : World Bytes) (key : Bytes) (expected : Option Bytes) : Prop :=
  w.elapsed key = true ∧ w.stored key = true ∧
    (expected = none ∨ expected = w.store.data[key]?)

theorem Sled.casSees_iff (w : World Bytes) (key : Bytes) (expected : Option Bytes) :
    (w.store.data[key]? = expected ↔ w.visible key = expected) ↔
      ¬ Sled.CasStale w key expected := by
  unfold Sled.CasStale World.stored
  by_cases elapsed : w.elapsed key = true
  · rw [show w.visible key = none from Store.visible_of_elapsed elapsed]
    cases found : w.store.data[key]? with
    | none => simp
    | some value =>
      cases expected with
      | none => simp [elapsed]
      | some other =>
        rw [Option.some.injEq, Option.some.injEq]
        by_cases same : value = other
        · simp [same, elapsed]
        · simp [same, Ne.symm same]
  · have live : w.elapsed key = false := Bool.eq_false_iff.mpr elapsed
    rw [show w.visible key = w.store.data[key]? from Store.visible_of_not_elapsed live]
    simp [elapsed]

def Engine.CasStale : (engine : Engine) → World engine.Entry → Bytes → Option Bytes → Prop
  | .redb, _, _, _ => False
  | .sled, w, key, expected => Sled.CasStale w key expected
  | .fjall, _, _, _ => False

theorem Engine.casSees_iff (engine : Engine) (w : World engine.Entry) (key : Bytes)
    (expected : Option Bytes) :
    (engine.backend.casSees w key = expected ↔ w.visible key = expected) ↔
      ¬ engine.CasStale w key expected := by
  cases engine with
  | redb => exact iff_of_true Iff.rfl not_false
  | sled => exact Sled.casSees_iff w key expected
  | fjall => exact iff_of_true Iff.rfl not_false

/-- **A swap is correct exactly when it is not stale**: always on redb and fjall, and on sled unless
it meets an expired pair that is still stored. Swaps that are not stale answer alike on stores that
show the same value, whatever their engines. -/
theorem compare_and_swap_correct_iff (engine : Engine) (w : World engine.Entry) (key : Bytes)
    (expected : Option Bytes) (newValue : Bytes) :
    (CasCorrect engine.kv key expected newValue w ↔ ¬ engine.CasStale w key expected) ∧
      ∀ (engine' : Engine) (w' : World engine'.Entry), ¬ engine.CasStale w key expected →
        ¬ engine'.CasStale w' key expected → w.visible key = w'.visible key →
        ((engine.kv.compareAndSwap key expected newValue).exec w).1 =
          ((engine'.kv.compareAndSwap key expected newValue).exec w').1 := by
  have correct : ∀ (engine : Engine) (w : World engine.Entry),
      CasCorrect engine.kv key expected newValue w ↔ ¬ engine.CasStale w key expected := by
    intro engine w
    rw [← Engine.backend_kv, Backend.casCorrect_iff, Engine.casSees_iff]
  refine ⟨correct engine w, fun engine' w' fresh fresh' same => ?_⟩
  have sees := ((correct engine w).mpr fresh).answers
  have sees' := ((correct engine' w').mpr fresh').answers
  rw [sees, sees', ← Engine.backend_kv, ← Engine.backend_kv, Backend.get_exec, Backend.get_exec, same]

theorem sled_swap_refused_on_expired :
    ((Sled.store.get [107]).exec .expiredPair).1 = .ok none ∧
      ((Sled.store.compareAndSwap [107] none [98]).exec .expiredPair).1 = .ok false ∧
      ((Redb.store.get [107]).exec .expiredPair).1 = .ok none ∧
      ((Redb.store.compareAndSwap [107] none [98]).exec .expiredPair).1 = .ok true ∧
      ¬ CasCorrect Sled.store [107] none [98] .expiredPair := by
  refine ⟨rfl, rfl, rfl, rfl, fun correct => ?_⟩
  have answer : (Except.ok false : Except StoreError Bool) = .ok true := correct.answers
  cases answer

end OxiStore
