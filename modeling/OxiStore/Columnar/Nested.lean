/-
**Names of nested columns.**
-/

import OxiStore.Columnar.Pruning

namespace OxiStore.Columnar

variable {schema : Schema}

/-! ### Misleading statistics -/

structure Probe where
  datum : Datum
  op : CmpOp
  value : Scalar
  stats : Statistics

/-- **The comparison is true of the value, and the statistics exclude it.** -/
structure Probe.Misleads (probe : Probe) (type : DataType) : Prop where
  holds : type.Holds probe.datum
  fine : cmpError (some type) probe.op probe.value = .ok ()
  tests : probe.datum.test probe.op probe.value = some true
  physical : probe.stats.physical = type.physical
  excludes : evaluateCmp probe.stats probe.op probe.value = false

def DataType.away : DataType → Probe
  | .int32 => ⟨.int32 0, .eq, .int32 0, .int32 ⟨some 1, some 1, some 0⟩⟩
  | .int64 => ⟨.int64 0, .eq, .int64 0, .int64 ⟨some 1, some 1, some 0⟩⟩
  | .float32 =>
      ⟨.float (0 : ℚ), .eq, .float32 (0 : ℚ), .float ⟨some (1 : ℚ), some (1 : ℚ), some 0⟩⟩
  | .float64 =>
      ⟨.double (0 : ℚ), .eq, .float64 (0 : ℚ), .double ⟨some (1 : ℚ), some (1 : ℚ), some 0⟩⟩
  | .utf8 => ⟨.byteArray [], .eq, .bytes [], .byteArray ⟨some [97], some [97], some 0⟩⟩
  | .boolean | .other _ => ⟨.boolean true, .eq, .bool true, .boolean ⟨some false, some false, some 0⟩⟩

def DataType.near : DataType → Probe
  | .float32 =>
      ⟨.float (epsilonF32 / 2 : ℚ), .ne, .float32 (0 : ℚ),
        .float ⟨some (epsilonF32 / 2 : ℚ), some (epsilonF32 / 2 : ℚ), some 0⟩⟩
  | _ =>
      ⟨.double (epsilonF64 / 2 : ℚ), .ne, .float64 (0 : ℚ),
        .double ⟨some (epsilonF64 / 2 : ℚ), some (epsilonF64 / 2 : ℚ), some 0⟩⟩

theorem DataType.away_misleads {type : DataType} (comparable : type.comparable = true) :
    type.away.Misleads type := by
  cases type with
  | boolean | other physical => cases comparable
  | int32 | int64 => exact ⟨⟨rfl, by simp⟩, rfl, by decide, rfl, by decide⟩
  | float32 | float64 => exact ⟨⟨rfl, by simp⟩, rfl, by decide +kernel, rfl, by decide +kernel⟩
  | utf8 =>
    have empty : validUtf8 [] = true := by decide +kernel
    refine ⟨⟨rfl, fun _ bytes same => ?_⟩, ?_, by decide, rfl, by decide⟩
    · cases same
      exact empty
    · simp only [DataType.away, cmpError, evaluateCmpColumn, Column.downcast, if_pos empty]
      rfl

theorem DataType.near_misleads {type : DataType} (float : type.isFloat = true) :
    type.near.Misleads type ∧ type.near.stats.Bounds type.near.datum := by
  cases type with
  | float32 | float64 =>
    refine ⟨⟨⟨rfl, by simp⟩, rfl, by decide +kernel, rfl, by decide +kernel⟩, fun _ => ?_⟩
    simp [ValueStatistics.Bounds]
  | boolean | int32 | int64 | utf8 | other physical => cases float

theorem DataType.away_bounds {type other : DataType} (comparable : type.comparable = true)
    (same : other.physical = type.physical) : type.away.stats.Bounds (other.sample true) := by
  rw [DataType.sample, same]
  cases type with
  | boolean | other physical => cases comparable
  | int32 | int64 | utf8 => exact ⟨by simp, by simp⟩
  | float32 | float64 => exact fun _ => ⟨by simp, by simp⟩

/-! ### A row group that is pruned by mistake -/

def loneChunk (first : ℕ) (stats : Statistics) : List (Option Statistics) :=
  List.replicate first none ++ [some stats]

theorem getElem?_loneChunk (first : ℕ) (stats : Statistics) :
    (loneChunk first stats)[first]? = some (some stats) := by
  unfold loneChunk
  rw [List.getElem?_append_right (by simp), List.length_replicate, Nat.sub_self]
  rfl

theorem eq_of_getElem?_loneChunk {first place : ℕ} {stats stats' : Statistics}
    (here : (loneChunk first stats)[place]? = some (some stats')) : place = first ∧ stats' = stats := by
  unfold loneChunk at here
  by_cases before : place < first
  · rw [List.getElem?_append_left (by simpa using before)] at here
    simp [before] at here
  · rw [List.getElem?_append_right (by simpa using before), List.length_replicate] at here
    cases distance : place - first with
    | zero =>
      rw [distance] at here
      exact ⟨by omega, by simpa using here.symm⟩
    | succ more =>
      rw [distance] at here
      simp at here

section

variable {column name : String} {place first : ℕ} {type : DataType} {nullable : Bool} {leaf : Leaf}
  {probe : Probe} (primitive : schema[place]? = some (.leaf name type nullable))
  (leafHere : schema.columns[first]? = some leaf) (same : leaf.type.physical = type.physical)
  (misleads : probe.Misleads type)
  (bounds : first = schema.leavesBefore place → probe.stats.Bounds probe.datum)
  (elsewhere : first ≠ schema.leavesBefore place → probe.stats.Bounds (leaf.type.sample true))

def loneGroup : RowGroup schema where
  rows := [schema.rowWith (DataType.sample true) place (.value (some probe.datum))]
  chunks := loneChunk first probe.stats
  conforms row member := by
    obtain rfl := List.mem_singleton.mp member
    refine Schema.conforms_rowWith (DataType.holds_sample true) primitive ⟨?_, nofun⟩
    intro datum inside
    obtain rfl : datum = probe.datum := by simpa using inside
    exact misleads.holds
  typed place' stats leaf' here leafHere' := by
    obtain ⟨rfl, rfl⟩ := eq_of_getElem?_loneChunk here
    obtain rfl : leaf = leaf' := Option.some.inj (leafHere.symm.trans leafHere')
    rw [misleads.physical, same]
  bounded place' stats here row member values held datum inside := by
    obtain ⟨rfl, rfl⟩ := eq_of_getElem?_loneChunk here
    obtain rfl := List.mem_singleton.mp member
    rcases Schema.leafValues_rowWith primitive held with ⟨own, rfl⟩ | ⟨other, leaf', there, rfl⟩
    · obtain rfl : datum = probe.datum := by simpa using inside
      exact bounds own
    · obtain rfl : leaf = leaf' := Option.some.inj (leafHere.symm.trans there)
      obtain rfl : datum = leaf.type.sample true := by simpa using inside
      exact elsewhere other

include primitive leafHere same misleads bounds elsewhere

theorem not_prunesSoundly (top : schema.indexOf column = some place)
    (found : schema.leafIndexOf column = some first) : ¬ PrunesSoundly schema column := by
  intro sound
  have notNull : probe.value ≠ .null := by
    intro null
    have fine := misleads.fine
    rw [null] at fine
    cases fine
  have inside : ¬ (loneChunk first probe.stats).length ≤ first := by simp [loneChunk]
  have pruned : cmpMightMatch (loneGroup primitive leafHere same misleads bounds elsewhere) column probe.op
      probe.value = false := by
    unfold cmpMightMatch loneGroup
    simp only [if_neg notNull, found, if_neg inside, getElem?_loneChunk]
    exact misleads.excludes
  have cell : (schema.rowWith (DataType.sample true) place (.value (some probe.datum))).cell place = .value (some probe.datum) := by
    unfold Row.cell
    rw [List.getD_eq_getElem?_getD, Schema.getElem?_rowWith primitive]
    rfl
  have evaluates : (Predicate.cmp column probe.op probe.value).evaluateBatch
      ⟨schema, [schema.rowWith (DataType.sample true) place (.value (some probe.datum))]⟩ = .ok [some true] := by
    rw [Predicate.evaluateBatch_eq]
    unfold Predicate.rowTest
    simp only [top, primitive, Option.bind_some, Field.dataType, misleads.fine]
    show Except.ok [((schema.rowWith (DataType.sample true) place (.value (some probe.datum))).cell place).test probe.op probe.value] = _
    rw [cell]
    exact congrArg (fun truth => Except.ok [truth]) misleads.tests
  exact sound _ _ _ pruned _ evaluates (List.mem_singleton.mpr rfl)

end

/-! ### Which comparisons prune soundly -/

theorem readsOwn_of_prunesSoundly {column name : String} {place : ℕ} {type : DataType} {nullable : Bool}
    (top : schema.indexOf column = some place) (primitive : schema[place]? = some (.leaf name type nullable))
    (sound : PrunesSoundly schema column) : schema.ReadsOwn column place type := by
  intro comparable first leaf found leafHere same
  have own : first = schema.leavesBefore place := by
    by_contra other
    exact not_prunesSoundly primitive leafHere same (DataType.away_misleads comparable)
      (fun own => absurd own other) (fun _ => DataType.away_bounds comparable same) top found sound
  refine ⟨own, ?_⟩
  by_contra float
  obtain ⟨misleads, bounds⟩ := DataType.near_misleads ((Bool.not_eq_false _).mp float)
  exact not_prunesSoundly primitive leafHere same misleads (fun _ => bounds) (absurd own) top
    found sound

/-- **Comparisons on a top-level column prune soundly exactly if they read its own statistics**, or
those of a leaf that is stored in another type. -/
theorem prunes_soundly_iff {column name : String} {place : ℕ} {type : DataType} {nullable : Bool}
    (top : schema.indexOf column = some place)
    (primitive : schema[place]? = some (.leaf name type nullable)) :
    PrunesSoundly schema column ↔ schema.ReadsOwn column place type :=
  ⟨readsOwn_of_prunesSoundly top primitive, prunesSoundly_of_readsOwn top primitive⟩

theorem other_field_prunes_soundly :
    PrunesSoundly [.group "s" [.leaf "y" .int32], .leaf "x" .int32] "x" := by
  have top : Schema.indexOf [.group "s" [.leaf "y" .int32], .leaf "x" .int32] "x" = some 1 := by
    decide +kernel
  refine (prunes_soundly_iff top rfl).mpr fun _ first leaf found _ _ => ?_
  have second : Schema.leafIndexOf [.group "s" [.leaf "y" .int32], .leaf "x" .int32] "x" = some 1 := by
    decide +kernel
  obtain rfl : first = 1 := Option.some.inj (found.symm.trans second)
  exact ⟨rfl, rfl⟩

def structSchema : Schema := [.group "s" [.leaf "x" .int32], .leaf "x" .int32]

def structGroup : RowGroup structSchema where
  rows := [[.nested [[some (.int32 7)]], .value (some (.int32 1))]]
  chunks := [some (.int32 ⟨some 7, some 7, some 0⟩), some (.int32 ⟨some 1, some 1, some 0⟩)]
  conforms row member := by
    have fits : ∀ value : Int32, Leaf.Fits ⟨"x", .int32⟩ [some (.int32 value)] := by
      intro value datum inside
      obtain rfl : datum = .int32 value := by simpa using inside
      exact ⟨rfl, by simp⟩
    obtain rfl := List.mem_singleton.mp member
    exact .cons ⟨.cons (fits 7) .nil, nofun⟩ (.cons ⟨fits 1, nofun⟩ .nil)
  typed place stats leaf here leafHere := by
    rcases place with _ | _ | place
    · cases here
      cases leafHere
      rfl
    · cases here
      cases leafHere
      rfl
    · simp at here
  bounded place stats here row member values held datum inside := by
    obtain rfl := List.mem_singleton.mp member
    rcases place with _ | _ | place
    · cases here
      cases held
      obtain rfl : datum = .int32 7 := by simpa using inside
      exact ⟨by simp, by simp⟩
    · cases here
      cases held
      obtain rfl : datum = .int32 1 := by simpa using inside
      exact ⟨by simp, by simp⟩
    · simp at here

theorem struct_field_prunes_column :
    (Predicate.cmp "x" .eq (.int32 1)).rowGroupMightMatch structGroup = false ∧
      (Predicate.cmp "x" .eq (.int32 1)).evaluateBatch ⟨structSchema, structGroup.rows⟩ =
        .ok [some true] :=
  ⟨by decide +kernel, rfl⟩

end OxiStore.Columnar
