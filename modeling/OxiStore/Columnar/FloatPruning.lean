/-
**Pruning on floats.**
-/

import OxiStore.Columnar.Predicate

namespace OxiStore.Columnar

def floatColumn (col : List (Option ℚ)) : List (Option FloatValue) := col.map (Option.map (↑))

def PrunesFloats (epsilon : ℚ) (op : CmpOp) (v : ℚ) (stats : ValueStatistics FloatValue)
    (col : List (Option ℚ)) : Prop :=
  (stats.judge fun min max => applyFloatOp epsilon op min max v stats.nullCountOpt) = false →
    some true ∉ applyCmp (floatColumn col) op v

/-- **The tolerance hides a difference**: no null, and bounds close to the value that are not both equal
to it. -/
def Blurs (epsilon : ℚ) (op : CmpOp) (v : ℚ) (stats : ValueStatistics FloatValue) : Prop :=
  op = .ne ∧ stats.nullCountOpt = some 0 ∧ ∃ min max : ℚ,
    stats.minOpt = some ↑min ∧ stats.maxOpt = some ↑max ∧ |min - v| < epsilon ∧ |max - v| < epsilon ∧ ¬ (min = v ∧ max = v)

section

variable {epsilon min max v : ℚ} {nullCount : Option ℕ} {op : CmpOp}

theorem applyFloatOp_eq_ord (other : op ≠ .ne) :
    applyFloatOp epsilon op min max v nullCount = applyOrdOp op (min : FloatValue) max v nullCount := by
  have finite : ¬ ((v : FloatValue) = ⊤ ∨ (min : FloatValue) = ⊤ ∨ (max : FloatValue) = ⊤) := by simp
  unfold applyFloatOp
  rw [if_neg finite]
  cases op with
  | ne => exact absurd rfl other
  | eq | lt | le | gt | ge => rfl

theorem applyFloatOp_ne_eq_false : applyFloatOp epsilon .ne min max v nullCount = false ↔
    nullCount = some 0 ∧ |min - v| < epsilon ∧ |max - v| < epsilon := by
  have finite : ¬ ((v : FloatValue) = ⊤ ∨ (min : FloatValue) = ⊤ ∨ (max : FloatValue) = ⊤) := by simp
  unfold applyFloatOp
  rw [if_neg finite]
  simp only [WithTop.untopD_coe, Bool.not_eq_false', Bool.and_eq_true]
  exact ⟨fun ⟨⟨low, high⟩, none'⟩ => ⟨of_decide_eq_true none', of_decide_eq_true low, of_decide_eq_true high⟩,
    fun ⟨none', low, high⟩ => ⟨⟨decide_eq_true low, decide_eq_true high⟩, decide_eq_true none'⟩⟩

end

theorem mem_applyCmp {col : List (Option ℚ)} {op : CmpOp} {v : ℚ} :
    some true ∈ applyCmp (floatColumn col) op v ↔
      ∃ x : ℚ, some x ∈ col ∧ op.holds (x : FloatValue) v = true := by
  unfold applyCmp floatColumn
  simp [List.mem_map]

theorem prunesFloats_of_sharp {epsilon : ℚ} {op : CmpOp} {v : ℚ} {stats : ValueStatistics FloatValue}
    {col : List (Option ℚ)} (valid : ∀ x : ℚ, some x ∈ col → stats.Bounds (x : FloatValue))
    (sharp : ¬ Blurs epsilon op v stats) : PrunesFloats epsilon op v stats col := by
  intro pruned passes
  obtain ⟨x, member, holds⟩ := mem_applyCmp.mp passes
  refine absurd (ValueStatistics.judge_eq_true fun min max low high => ?_) (ne_true_of_eq_false pruned)
  have above := (valid x member).1 min low
  have below := (valid x member).2 max high
  by_cases endless : max = ⊤
  · exact if_pos (Or.inr (Or.inr endless))
  obtain ⟨max, rfl⟩ := WithTop.ne_top_iff_exists.mp endless
  obtain ⟨min, rfl⟩ := WithTop.ne_top_iff_exists.mp (above.trans_lt (WithTop.coe_lt_top x)).ne
  by_cases other : op = .ne
  · subst other
    by_contra dropped
    obtain ⟨none', close, close'⟩ := applyFloatOp_ne_eq_false.mp ((Bool.not_eq_true _).mp dropped)
    -- close and not blurred: both bounds are the value, and so is the row
    have equal : min = v ∧ max = v := by
      by_contra apart
      exact sharp ⟨rfl, none', min, max, low, high, close, close', apart⟩
    have same : x = v := le_antisymm (equal.2 ▸ WithTop.coe_le_coe.mp below)
      (equal.1 ▸ WithTop.coe_le_coe.mp above)
    simp [CmpOp.holds, same] at holds
  · rw [applyFloatOp_eq_ord other]
    exact applyOrdOp_of_holds above below holds

/-- **When pruning on floats is sound**, for valid bounds; and for bounds that are the least and the greatest
value, exactly then. -/
theorem float_pruning_iff (epsilon : ℚ) (op : CmpOp) (v : ℚ) {stats : ValueStatistics FloatValue}
    {col : List (Option ℚ)} (valid : ∀ x : ℚ, some x ∈ col → stats.Bounds (x : FloatValue)) :
    (¬ Blurs epsilon op v stats → PrunesFloats epsilon op v stats col) ∧
    ((∀ low ∈ stats.minOpt, some low ∈ floatColumn col) →
      (∀ high ∈ stats.maxOpt, some high ∈ floatColumn col) →
      (PrunesFloats epsilon op v stats col ↔ ¬ Blurs epsilon op v stats)) := by
  refine ⟨prunesFloats_of_sharp valid, fun least greatest =>
    ⟨fun sound blurs => ?_, prunesFloats_of_sharp valid⟩⟩
  obtain ⟨rfl, none', min, max, low, high, close, close', apart⟩ := blurs
  have held : ∀ {x : ℚ}, some (x : FloatValue) ∈ floatColumn col → some x ∈ col := by
    intro x member
    simpa [floatColumn] using member
  have pruned : (stats.judge fun min max =>
      applyFloatOp epsilon .ne min max v stats.nullCountOpt) = false := by
    unfold ValueStatistics.judge
    rw [low, high]
    exact applyFloatOp_ne_eq_false.mpr ⟨none', close, close'⟩
  obtain ⟨x, member, differs⟩ : ∃ x, some x ∈ col ∧ x ≠ v := by
    by_cases first : min = v
    · exact ⟨max, held (greatest max high), fun second => apart ⟨first, second⟩⟩
    · exact ⟨min, held (least min low), first⟩
  refine sound pruned (mem_applyCmp.mpr ⟨x, member, ?_⟩)
  simpa [CmpOp.holds] using differs

theorem float_pruning_of_ne :
    (ValueStatistics.judge ⟨some ((2 : ℚ) : FloatValue), some ((2 : ℚ) : FloatValue), some 0⟩ fun min max =>
        applyFloatOp epsilonF64 .ne min max (2 : ℚ) (some 0)) = false ∧
      PrunesFloats epsilonF64 .ne 2 ⟨some (2 : ℚ), some (2 : ℚ), some 0⟩ [some 2, some 2, some 2] ∧
      PrunesFloats epsilonF64 .ne 2 ⟨some (2 : ℚ), some (3 : ℚ), some 0⟩ [some 2, some (5 / 2), some 3] := by
  refine ⟨by decide +kernel, ((float_pruning_iff _ _ _ fun x member => ?_).2 ?_ ?_).mpr ?_,
    ((float_pruning_iff _ _ _ fun x member => ?_).2 ?_ ?_).mpr ?_⟩
  · obtain rfl : x = 2 := by simpa using member
    exact ⟨by simp, by simp⟩
  · simp [floatColumn]
  · simp [floatColumn]
  · rintro ⟨-, -, min, max, low, high, -, -, apart⟩
    exact apart ⟨by simpa using low.symm, by simpa using high.symm⟩
  · have inside : x = 2 ∨ x = 5 / 2 ∨ x = 3 := by simpa using member
    rcases inside with rfl | rfl | rfl <;> constructor <;> simp <;> decide +kernel
  · simp [floatColumn]
  · simp [floatColumn]
  · rintro ⟨-, -, min, max, -, high, -, close, -⟩
    obtain rfl : max = 3 := by simpa using high.symm
    exact absurd close (by decide +kernel)

theorem pruned_row_differs :
    evaluateCmp (.double ⟨some (epsilonF64 / 2 : ℚ), some (epsilonF64 / 2 : ℚ), some 0⟩) .ne
      (.float64 (0 : ℚ)) = false ∧
    evaluateCmpColumn ⟨some .float64, [.value (some (.double (epsilonF64 / 2 : ℚ)))]⟩ .ne
      (.float64 (0 : ℚ)) = .ok [some true] ∧
    ¬ PrunesFloats epsilonF64 .ne 0 ⟨some (epsilonF64 / 2 : ℚ), some (epsilonF64 / 2 : ℚ), some 0⟩
      [some (epsilonF64 / 2)] := by
  refine ⟨by decide +kernel, ?_, fun sound => sound (by decide +kernel) ?_⟩
  · have tests : CmpOp.holds .ne ((epsilonF64 / 2 : ℚ) : FloatValue) (0 : ℚ) = true := by decide +kernel
    show Except.ok [some (CmpOp.holds .ne ((epsilonF64 / 2 : ℚ) : FloatValue) (0 : ℚ))] = _
    rw [tests]
  · exact mem_applyCmp.mpr ⟨epsilonF64 / 2, List.mem_singleton.mpr rfl, by decide +kernel⟩

end OxiStore.Columnar
