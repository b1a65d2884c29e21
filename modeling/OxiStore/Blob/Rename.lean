/-
**The trait's `rename`.**
-/

import OxiStore.Blob.Memory

namespace OxiStore

open ByteString OrdTable StepProg

/-- **A rename, done right**: on success the data of `old` is under `new` and `old` is gone unless it is
`new`; other keys are as before; and a copy of the data is left in any case. -/
structure Renamed (old new : String) (before : Blobs) (result : Except BlobError Unit) (after : Blobs) :
    Prop where
  moved : result = .ok () → after[new]? = before[old]?
  removed : result = .ok () → old ≠ new → after[old]? = none
  others : ∀ key, key ≠ old → key ≠ new → after[key]? = before[key]?
  copy : after[old]? = before[old]? ∨ after[new]? = before[old]?

section

variable {S : Type} {store : BlobStore S} {contents : S → Blobs} (like : store.MapLike contents)
  {old new : String} {data : Bytes} {s : S}

include like

theorem BlobStore.MapLike.exec_rename_refused (present : (contents s)[old]? = some data)
    {error : BlobError} (refuses : ((store.put new data).exec s).1 = .error error) :
    ((store.rename old new).exec s).1 = .error error ∧
      contents ((store.rename old new).exec s).2 = contents s := by
  have puts := like.exec_put new data s
  unfold BlobStore.rename
  rw [Fallible.exec_bind_ok (like.exec_get_some present)]
  rcases runs : (store.put new data).exec s with ⟨result, s'⟩
  rw [runs] at refuses puts
  obtain rfl : result = .error error := refuses
  rw [Fallible.exec_bind_error runs]
  generalize contents s' = after at puts
  cases puts
  exact ⟨rfl, rfl⟩

theorem BlobStore.MapLike.exec_rename_stored (present : (contents s)[old]? = some data)
    (stores : ((store.put new data).exec s).1 = .ok ()) :
    ((store.rename old new).exec s).1 = .ok () ∧
      contents ((store.rename old new).exec s).2 = ((contents s).insert new data).erase old := by
  have puts := like.exec_put new data s
  unfold BlobStore.rename
  rw [Fallible.exec_bind_ok (like.exec_get_some present)]
  rcases runs : (store.put new data).exec s with ⟨result, s'⟩
  rw [runs] at stores puts
  obtain rfl : result = .ok () := stores
  rw [Fallible.exec_bind_ok runs]
  have held : contents s' = (contents s).insert new data := by
    generalize contents s' = after at puts
    cases puts
    rfl
  have still : (contents s')[old]? = some data := by
    rw [held, get_insert]
    split_ifs
    · rfl
    · exact present
  have deletes := like.exec_delete old s'
  generalize (store.delete old).exec s' = ends at deletes
  obtain ⟨result, s''⟩ := ends
  rw [held] at deletes still
  generalize contents s'' = after at deletes
  cases deletes with
  | removed data present => exact ⟨rfl, rfl⟩
  | missing name absent => simp [still] at absent

end

/-- **A rename is right exactly if the keys differ**, or its `put` is refused and nothing happens. -/
theorem rename_moves_iff {S : Type} {store : BlobStore S} {contents : S → Blobs}
    (like : store.MapLike contents) {old : String} (new : String) {data : Bytes} {s : S}
    (present : (contents s)[old]? = some data) :
    Renamed old new (contents s) ((store.rename old new).exec s).1
        (contents ((store.rename old new).exec s).2) ↔
      old ≠ new ∨ ∃ error, ((store.put new data).exec s).1 = .error error := by
  cases outcome : ((store.put new data).exec s).1 with
  | error error =>
    obtain ⟨fails, same⟩ := like.exec_rename_refused present outcome
    rw [fails, same]
    refine iff_of_true ⟨nofun, nofun, fun key _ _ => rfl, .inl rfl⟩ (.inr ⟨error, rfl⟩)
  | ok done =>
    obtain ⟨succeeds, after⟩ := like.exec_rename_stored present outcome
    rw [succeeds, after]
    constructor
    · intro renamed
      refine .inl fun same => ?_
      have moved := renamed.moved rfl
      simp [get_erase, if_pos same, present] at moved
    · rintro (differ | ⟨error, impossible⟩)
      · have moved : (((contents s).insert new data).erase old)[new]? = (contents s)[old]? := by
          rw [get_erase, if_neg differ, get_insert, if_pos rfl, present]
        refine ⟨fun _ => moved, fun _ _ => ?_, fun key notOld notNew => ?_, .inr moved⟩
        · rw [get_erase, if_pos rfl]
        · rw [get_erase, if_neg (Ne.symm notOld), get_insert, if_neg (Ne.symm notNew)]
      · cases impossible

def Memory.oneBlob : MemoryState := Memory.stored Memory.new "a" [1]

theorem rename_moves_to_another :
    Renamed "a" "b" Memory.oneBlob.map ((Memory.store.rename "a" "b").exec Memory.oneBlob).1
      ((Memory.store.rename "a" "b").exec Memory.oneBlob).2.map :=
  (rename_moves_iff Memory.mapLike "b" (show Memory.oneBlob.map["a"]? = some [1] by decide +kernel)).mpr
    (.inl (by decide))

theorem rename_to_itself_destroys :
    let outcome := (Memory.store.rename "a" "a").exec Memory.oneBlob
    Memory.oneBlob.map["a"]? = some [1] ∧ outcome.1 = .ok () ∧ outcome.2.map["a"]? = none ∧
      ¬ Renamed "a" "a" Memory.oneBlob.map outcome.1 outcome.2.map := by
  intro outcome
  have present : Memory.oneBlob.map["a"]? = some [1] := by decide +kernel
  have succeeds : outcome.1 = .ok () := by rfl
  have gone : outcome.2.map["a"]? = none := by decide +kernel
  refine ⟨present, succeeds, gone, fun renamed => ?_⟩
  have moved := renamed.moved succeeds
  simp [gone, present] at moved

end OxiStore
