/-
**Choosing partitions by a predicate.**
-/

import OxiStore.Columnar.Manifest
import OxiStore.Columnar.Payload

namespace OxiStore.Columnar

open ByteString Delimited FileTree StepProg Fallible

inductive PartitionPredicate where
  | eq (value : Text)
  | isIn (values : List Text)
  | range (lo hi : Text)
  | and (pairs : List (Text × PartitionPredicate))

namespace PartitionPredicate

/-! ### What the code does -/

def leafExpected : String := "matches_single called on And predicate; use matches_multi"

def matchesSingle (pred : PartitionPredicate) (value : Text) : Except String Bool :=
  match pred with
  | .eq v => .ok (value = v)
  | .isIn vs => .ok (vs.any fun v => v = value)
  | .range lo hi => .ok (lo ≤ value && value < hi)
  | .and _ => .error leafExpected

def valueAt (values : List Text) (place : ℕ) : Text := values.getD place []

def matchesAll (columnNames values : List Text) : List (Text × PartitionPredicate) → Except String Bool
  | [] => .ok true
  | (colName, subPred) :: pairs =>
      match columnNames.findIdx? (· == colName) with
      | none => .ok false
      | some i => do
          if ← subPred.matchesSingle (valueAt values i) then matchesAll columnNames values pairs
          else .ok false

def matchesMulti (pred : PartitionPredicate) (columnNames values : List Text) : Except String Bool :=
  match pred with
  | .and pairs => matchesAll columnNames values pairs
  | other => other.matchesSingle (valueAt values 0)

/-! ### What a predicate means -/

mutual

def holds (columnNames values : List Text) (value : Text) : PartitionPredicate → Bool
  | .eq v => value = v
  | .isIn vs => vs.any fun v => v = value
  | .range lo hi => lo ≤ value && value < hi
  | .and pairs => allHold columnNames values pairs

def allHold (columnNames values : List Text) : List (Text × PartitionPredicate) → Bool
  | [] => true
  | (colName, subPred) :: pairs =>
      (match columnNames.findIdx? (· == colName) with
        | none => false
        | some i => subPred.holds columnNames values (valueAt values i)) &&
      allHold columnNames values pairs

end

/-- **The tuple of an entry satisfies the predicate.** One that is no conjunction speaks of the first
column. -/
def Satisfied (pred : PartitionPredicate) (columnNames values : List Text) : Bool :=
  pred.holds columnNames values (valueAt values 0)

/-- **The walk over these constraints reaches a conjunction**: the column beside it is there, and all
constraints before it hold. -/
def ReachesAnd (columnNames values : List Text) (pairs : List (Text × PartitionPredicate)) : Prop :=
  ∃ front colName inner back, pairs = front ++ (colName, .and inner) :: back ∧
    colName ∈ columnNames ∧ allHold columnNames values front = true

def Panics (pred : PartitionPredicate) (columnNames values : List Text) : Prop :=
  ∃ pairs, pred = .and pairs ∧ ReachesAnd columnNames values pairs

section

variable {columnNames values : List Text} {pairs : List (Text × PartitionPredicate)} {colName : Text}
  {subPred : PartitionPredicate}

theorem matchesSingle_eq (columnNames values : List Text) {pred : PartitionPredicate}
    (simple : ∀ inner, pred ≠ .and inner) (value : Text) :
    pred.matchesSingle value = .ok (pred.holds columnNames values value) := by
  cases pred with
  | eq v | isIn vs | range lo hi => simp [matchesSingle, holds]
  | and inner => exact absurd rfl (simple inner)

theorem not_reachesAnd_nil : ¬ ReachesAnd columnNames values [] := by
  rintro ⟨front, colName, inner, back, split, _⟩
  simp at split

theorem reachesAnd_cons :
    ReachesAnd columnNames values ((colName, subPred) :: pairs) ↔
      (colName ∈ columnNames ∧ ∃ inner, subPred = .and inner) ∨
        (allHold columnNames values [(colName, subPred)] = true ∧ ReachesAnd columnNames values pairs) := by
  constructor
  · rintro ⟨front, colName', inner, back, split, named, held⟩
    cases front with
    | nil =>
      obtain ⟨same, rfl⟩ := List.cons.inj split
      cases same
      exact Or.inl ⟨named, inner, rfl⟩
    | cons first front =>
      obtain ⟨rfl, rest⟩ := List.cons.inj split
      simp only [allHold, Bool.and_eq_true, and_true] at held ⊢
      exact Or.inr ⟨held.1, front, colName', inner, back, rest, named, held.2⟩
  · rintro (⟨named, inner, rfl⟩ | ⟨held, front, colName', inner, back, rfl, named, held'⟩)
    · exact ⟨[], colName, inner, pairs, rfl, named, rfl⟩
    · refine ⟨(colName, subPred) :: front, colName', inner, back, rfl, named, ?_⟩
      simp only [allHold, Bool.and_eq_true, and_true] at held ⊢
      exact ⟨held, held'⟩

theorem not_reachesAnd_of_absent (absent : columnNames.findIdx? (· == colName) = none) :
    ¬ ReachesAnd columnNames values ((colName, subPred) :: pairs) := by
  rw [reachesAnd_cons]
  rintro (⟨named, _⟩ | ⟨held, _⟩)
  · have other := List.findIdx?_eq_none_iff.mp absent colName named
    simp at other
  · simp [allHold, absent] at held

theorem matchesAll_cases (columnNames values : List Text) (pairs : List (Text × PartitionPredicate)) :
    (ReachesAnd columnNames values pairs ∧ matchesAll columnNames values pairs = .error leafExpected) ∨
      (¬ ReachesAnd columnNames values pairs ∧
        matchesAll columnNames values pairs = .ok (allHold columnNames values pairs)) := by
  induction pairs with
  | nil => exact Or.inr ⟨not_reachesAnd_nil, rfl⟩
  | cons pair pairs ih =>
    obtain ⟨colName, subPred⟩ := pair
    cases found : columnNames.findIdx? (· == colName) with
    | none =>
      refine Or.inr ⟨not_reachesAnd_of_absent found, ?_⟩
      simp [matchesAll, allHold, found]
    | some i =>
      by_cases nested : ∃ inner, subPred = .and inner
      · obtain ⟨inner, rfl⟩ := nested
        obtain ⟨inside, named, _⟩ := List.findIdx?_eq_some_iff_getElem.mp found
        have member : colName ∈ columnNames := eq_of_beq named ▸ List.getElem_mem inside
        refine Or.inl ⟨reachesAnd_cons.mpr (Or.inl ⟨member, inner, rfl⟩), ?_⟩
        simp only [matchesAll, found]
        rfl
      · have simple : ∀ inner, subPred ≠ .and inner := fun inner same => nested ⟨inner, same⟩
        have here : allHold columnNames values [(colName, subPred)] =
            subPred.holds columnNames values (valueAt values i) := by simp [allHold, found]
        have value := matchesSingle_eq columnNames values simple (valueAt values i)
        rw [reachesAnd_cons, here, matchesAll, allHold, found]
        simp only [value, nested, and_false, false_or]
        cases subPred.holds columnNames values (valueAt values i) with
        | false => exact Or.inr ⟨fun reached => Bool.noConfusion reached.1, rfl⟩
        | true =>
          rw [Bool.true_and]
          simp only [true_and]
          exact ih

theorem matchesMulti_cases (pred : PartitionPredicate) (columnNames values : List Text) :
    (pred.Panics columnNames values ∧ pred.matchesMulti columnNames values = .error leafExpected) ∨
      (¬ pred.Panics columnNames values ∧
        pred.matchesMulti columnNames values = .ok (pred.Satisfied columnNames values)) := by
  by_cases conjunction : ∃ pairs, pred = .and pairs
  · obtain ⟨pairs, rfl⟩ := conjunction
    have panics : Panics (.and pairs) columnNames values ↔ ReachesAnd columnNames values pairs := by
      simp [Panics]
    rw [panics, Satisfied, holds]
    exact matchesAll_cases columnNames values pairs
  · refine Or.inr ⟨fun ⟨pairs, same, _⟩ => conjunction ⟨pairs, same⟩, ?_⟩
    have simple : ∀ inner, pred ≠ .and inner := fun inner same => conjunction ⟨inner, same⟩
    cases pred with
    | and pairs => exact absurd rfl (simple pairs)
    | eq v | isIn vs | range lo hi => exact matchesSingle_eq columnNames values simple _

end

end PartitionPredicate

/-! ### Reading the entries -/

inductive Halt where
  | failed (error : ColumnarError)
  | panicked (message : String)
deriving DecidableEq

abbrev PanickingCall (α : Type) := Fallible Halt (Files Bytes) α

def selects (predicate : Option PartitionPredicate) (columnNames : List Text) (entry : ManifestEntry) :
    Except Halt Bool :=
  match predicate with
  | none => .ok true
  | some pred => (pred.matchesMulti columnNames entry.partitionValues).mapError .panicked

def readEntries (readGroup : Text → FileCall (List RecordBatch)) (predicate : Option PartitionPredicate)
    (columnNames : List Text) : List ManifestEntry → PanickingCall (List RecordBatch)
  | [] => pure []
  | entry :: entries => do
      if ← Fallible.ofExcept (selects predicate columnNames entry) then
        let batches ← ExceptT.adapt .failed (readGroup entry.relPath)
        let rest ← readEntries readGroup predicate columnNames entries
        pure (batches ++ rest)
      else readEntries readGroup predicate columnNames entries

namespace PartitionedDataset

variable (dataset : PartitionedDataset) (cwd : UnixPath.Location)

def readPartitionedBy (readGroup : Text → FileCall (List RecordBatch))
    (predicate : Option PartitionPredicate) : PanickingCall (List RecordBatch) := do
  let (columnNames, entries) ← ExceptT.adapt .failed (dataset.readManifest cwd)
  readEntries readGroup predicate columnNames entries

end PartitionedDataset

def readGroupFromFile (codec : Codec) (cwd : UnixPath.Location) (path : Text) :
    FileCall (List RecordBatch) := do
  let bytes ← readFile cwd path
  let table ← Fallible.ofExcept (readFromBytes codec bytes)
  pure table.batches

def PartitionedDataset.readPartitioned (codec : Codec) (cwd : UnixPath.Location)
    (dataset : PartitionedDataset) (predicate : Option PartitionPredicate) :
    PanickingCall (List RecordBatch) :=
  dataset.readPartitionedBy cwd (fun relPath => readGroupFromFile codec cwd (UnixPath.join dataset.root relPath))
    predicate

section

variable {readGroup : Text → FileCall (List RecordBatch)} {pred : PartitionPredicate}
  {columnNames : List Text} {entries : List ManifestEntry}

theorem readEntries_of_panicFree
    (free : ∀ entry ∈ entries, ¬ pred.Panics columnNames entry.partitionValues) :
    readEntries readGroup (some pred) columnNames entries =
      readEntries readGroup none columnNames
        (entries.filter fun entry => pred.Satisfied columnNames entry.partitionValues) := by
  induction entries with
  | nil => rfl
  | cons entry entries ih =>
    have later := ih fun other member => free other (List.mem_cons_of_mem _ member)
    have here := (pred.matchesMulti_cases columnNames entry.partitionValues).resolve_left
      fun reached => free entry List.mem_cons_self reached.1
    have chosen : selects (some pred) columnNames entry =
        .ok (pred.Satisfied columnNames entry.partitionValues) := by
      rw [selects, here.2]
      rfl
    rw [readEntries, chosen, later]
    by_cases satisfied : pred.Satisfied columnNames entry.partitionValues = true
    · rw [satisfied, List.filter_cons_of_pos (by exact satisfied)]
      rfl
    · rw [Bool.eq_false_iff.mpr satisfied, List.filter_cons_of_neg (by exact satisfied)]
      rfl

theorem readEntries_of_panic
    (reached : ∃ entry ∈ entries, pred.Panics columnNames entry.partitionValues) (files : Files Bytes) :
    (readEntries (fun _ => pure []) (some pred) columnNames entries).exec files =
      (.error (.panicked PartitionPredicate.leafExpected), files) := by
  induction entries with
  | nil => simp at reached
  | cons entry entries ih =>
    rw [readEntries, selects]
    rcases pred.matchesMulti_cases columnNames entry.partitionValues with ⟨_, panics⟩ | ⟨free, computed⟩
    · rw [panics]
      rfl
    · simp only [List.mem_cons, exists_eq_or_imp] at reached
      have later := ih (reached.resolve_left free)
      rw [computed]
      cases pred.Satisfied columnNames entry.partitionValues with
      | false => exact later
      | true =>
        show ((readEntries _ (some pred) columnNames entries) >>= fun rest => pure ([] ++ rest)).exec files = _
        exact exec_bind_error later

theorem readEntries_none (entries : List ManifestEntry) (files : Files Bytes) :
    (readEntries (fun _ => pure []) none columnNames entries).exec files = (.ok [], files) := by
  induction entries with
  | nil => rfl
  | cons entry entries ih =>
    show ((readEntries _ none columnNames entries) >>= fun rest => pure ([] ++ rest)).exec files = _
    exact exec_bind_ok ih

/-- **The entries that satisfy the predicate are read, and nothing else happens, exactly if the walk over
no entry reaches a conjunction inside the predicate.** This is for any way to read a file: with
`read_group_from_file` it is `read_partitioned`. -/
theorem pruning_exact_iff {dataset : PartitionedDataset} {cwd : UnixPath.Location}
    {files files' : Files Bytes}
    (manifest : (dataset.readManifest cwd).exec files = (.ok (columnNames, entries), files'))
    (pred : PartitionPredicate) :
    (∀ readGroup, (dataset.readPartitionedBy cwd readGroup (some pred)).exec files =
        (readEntries readGroup none columnNames
          (entries.filter fun entry => pred.Satisfied columnNames entry.partitionValues)).exec files') ↔
      ∀ entry ∈ entries, ¬ pred.Panics columnNames entry.partitionValues := by
  have walks : ∀ readGroup, (dataset.readPartitionedBy cwd readGroup (some pred)).exec files =
      (readEntries readGroup (some pred) columnNames entries).exec files' := by
    intro readGroup
    unfold PartitionedDataset.readPartitionedBy
    exact exec_bind_ok (exec_adapt_ok manifest)
  constructor
  · intro exact' entry member panics
    have same := exact' fun _ => pure []
    simp [walks, readEntries_of_panic ⟨entry, member, panics⟩, readEntries_none] at same
  · intro free readGroup
    rw [walks, readEntries_of_panicFree free]

end

/-! ### One entry -/

theorem one_entry_manifest : ∃ files : Files Bytes,
    ((rootDataset [['c']]).readManifest []).exec files = (.ok ([['c']], oneEntry), files) := by
  obtain ⟨files, written⟩ := writeManifest_rootDataset [['c']] oneEntry
  refine ⟨files, ?_⟩
  rw [readManifest_of_writeManifest written]
  refine congrArg (·, files) ?_
  decide +kernel

theorem leaf_pruning_exact : ∃ files : Files Bytes,
    ((rootDataset [['c']]).readManifest []).exec files = (.ok ([['c']], oneEntry), files) ∧
      ∀ readGroup, ((rootDataset [['c']]).readPartitionedBy [] readGroup
          (some (.and [(['c'], .eq ['a'])]))).exec files =
        (readEntries readGroup none [['c']] oneEntry).exec files := by
  obtain ⟨files, manifest⟩ := one_entry_manifest
  refine ⟨files, manifest, (pruning_exact_iff manifest _).mpr ?_⟩
  rintro entry _ ⟨pairs, same, reached⟩
  cases same
  rcases PartitionPredicate.reachesAnd_cons.mp reached with ⟨_, inner, leaf⟩ | ⟨_, rest⟩
  · cases leaf
  · exact PartitionPredicate.not_reachesAnd_nil rest

theorem nested_and_panics : ∃ files : Files Bytes,
    ((rootDataset [['c']]).readManifest []).exec files = (.ok ([['c']], oneEntry), files) ∧
      (∀ entry ∈ oneEntry, PartitionPredicate.Satisfied (.and [(['c'], .and [(['c'], .eq ['a'])])]) [['c']]
        entry.partitionValues = true) ∧
      ((rootDataset [['c']]).readPartitioned (.lone twoColumnFile) []
        (some (.and [(['c'], .and [(['c'], .eq ['a'])])]))).exec files =
          (.error (.panicked "matches_single called on And predicate; use matches_multi"), files) := by
  obtain ⟨files, manifest⟩ := one_entry_manifest
  refine ⟨files, manifest, by decide +kernel, ?_⟩
  unfold PartitionedDataset.readPartitioned PartitionedDataset.readPartitionedBy
  rw [exec_bind_ok (exec_adapt_ok manifest)]
  rfl

end OxiStore.Columnar
