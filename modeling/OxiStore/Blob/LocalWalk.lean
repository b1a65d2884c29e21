/-
**The walks of a `LocalBlobStore`.**
-/

import OxiStore.Blob.Local

namespace OxiStore

open ByteString UnixPath FileTree List

namespace LocalBlobStore

def IsTmp : Location → Prop
  | [] => False
  | name :: _ => extension name = some tmp

instance : DecidablePred IsTmp
  | [] => .isFalse id
  | _ :: _ => inferInstanceAs (Decidable (_ = _))

variable (disk : Disk) (base : Location)

def entryPaths (below : Location → List Location) (dir : Location) : Name × Node Bytes → List Location
  | (name, .dir) => below (name :: dir)
  | (name, .file _) => [name :: dir]

def filePaths : ℕ → Location → List Location
  | 0, _ => []
  | fuel + 1, dir => (disk.children (dir ++ base)).flatMap (entryPaths (filePaths fuel) dir)

theorem mem_filePaths {fuel : ℕ} {dir path : Location} :
    path ∈ filePaths disk base fuel dir ↔
      ∃ below data, below ≠ [] ∧ below.length ≤ fuel ∧ path = below ++ dir ∧
        disk.node (path ++ base) = some (.file data) := by
  induction fuel generalizing dir with
  | zero =>
    refine iff_of_false not_mem_nil ?_
    rintro ⟨below, data, nonempty, short, -⟩
    exact nonempty (length_eq_zero_iff.mp (Nat.le_zero.mp short))
  | succ fuel ih =>
    rw [filePaths, mem_flatMap]
    constructor
    · rintro ⟨⟨name, node⟩, child, member⟩
      rw [Files.mem_children] at child
      cases node with
      | file data =>
        rw [mem_singleton.mp member]
        exact ⟨[name], data, by simp, by simp, rfl, child⟩
      | dir =>
        obtain ⟨below, data, nonempty, short, same, file⟩ := ih.mp member
        exact ⟨below ++ [name], data, by simp, by simpa using short, by simp [same], file⟩
    · rintro ⟨below, data, nonempty, short, same, file⟩
      -- The innermost directory on the way is the last name of the path below.
      obtain ⟨rest, name, rfl⟩ : ∃ rest name, below = rest ++ [name] :=
        ⟨_, _, (dropLast_append_getLast nonempty).symm⟩
      rw [append_assoc, singleton_append] at same
      by_cases direct : rest = []
      · subst direct
        refine ⟨(name, .file data), (Files.mem_children ..).mpr ?_, ?_⟩
        · rw [same] at file
          exact file
        · exact mem_singleton.mpr same
      · have inner : disk.node (name :: (dir ++ base)) = some .dir := by
          refine Files.node_of_suffix file ?_ ?_
          · rw [same]
            exact ⟨rest, by simp⟩
          · rw [same]
            intro equal
            refine direct (length_eq_zero_iff.mp ?_)
            have lengths := congrArg length equal
            simp only [length_append, length_cons] at lengths
            omega
        refine ⟨(name, .dir), (Files.mem_children ..).mpr inner, ih.mpr ?_⟩
        refine ⟨rest, data, direct, ?_, same, file⟩
        rw [length_append, length_singleton] at short
        omega

theorem nodup_filePaths (fuel : ℕ) (dir : Location) : (filePaths disk base fuel dir).Nodup := by
  induction fuel generalizing dir with
  | zero => exact nodup_nil
  | succ fuel ih =>
    -- Below an entry every path goes through its name.
    have through : ∀ entry, ∀ path ∈ entryPaths (filePaths disk base fuel) dir entry,
        entry.1 :: dir <:+ path := by
      rintro ⟨name, node⟩ path member
      cases node with
      | file data =>
        rw [mem_singleton.mp member]
      | dir =>
        obtain ⟨below, -, -, -, same, -⟩ := (mem_filePaths disk base).mp member
        exact ⟨below, same.symm⟩
    rw [filePaths, nodup_flatMap]
    constructor
    · rintro ⟨name, node⟩ -
      cases node with
      | file data => exact nodup_singleton _
      | dir => exact ih (name :: dir)
    · refine (disk.children_distinct (dir ++ base)).imp fun {entry other} different => ?_
      intro path first second
      have one := through entry path first
      have two := through other path second
      have equal := List.IsSuffix.eq_of_length (suffix_of_suffix_length_le one two (by simp)) (by simp)
      exact different (cons.inj equal).1

theorem mapM_ok {α β ε : Type} {items : List α} {f : α → Except ε β} {g : α → β}
    (each : ∀ item ∈ items, f item = .ok (g item)) : items.mapM f = .ok (items.map g) := by
  induction items with
  | nil => rfl
  | cons item items ih =>
    rw [mapM_cons, each item mem_cons_self,
      ih fun other member => each other (mem_cons_of_mem _ member)]
    rfl

theorem collectEntries_eq (start : String) (place : Target) (fuel : ℕ) (dir : Location)
    (inside : disk.node (dir ++ place.location) = some .dir) :
    collectEntries disk place start fuel dir =
      .ok ((((filePaths disk place.location fuel dir).filter fun path => ¬ IsTmp path).map keyOf).filter
        (startsWith start)) := by
  induction fuel generalizing dir with
  | zero => rfl
  | succ fuel ih =>
    have read : disk.readDir ⟨dir ++ place.location, place.dirForm⟩ =
        .ok (disk.children (dir ++ place.location)) := by
      rw [Files.readDir, Files.lookUp_of_dir inside]
    rw [collectEntries, read]
    dsimp only
    rw [mapM_ok (g := fun entry => (((entryPaths (filePaths disk place.location fuel) dir entry).filter
      fun path => ¬ IsTmp path).map keyOf).filter (startsWith start))]
    · simp only [filePaths, filter_flatMap, map_flatMap]
      rfl
    · rintro ⟨name, node⟩ child
      rw [Files.mem_children] at child
      cases node with
      | dir => exact ih (name :: dir) child
      | file data =>
        dsimp only
        by_cases temporary : extension name = some tmp
        · simp [entryPaths, temporary, IsTmp]
        · by_cases kept : startsWith start (keyOf (name :: dir)) = true
          all_goals simp [entryPaths, temporary, IsTmp, kept]

theorem foldl_keeps {α β γ : Type} {f : α × β → γ → α × β} {kept : β} {items : List γ}
    (keeps : ∀ count, ∀ item ∈ items, (f (count, kept) item).2 = kept) (count : α) :
    (items.foldl f (count, kept)).2 = kept := by
  induction items generalizing count with
  | nil => rfl
  | cons item items ih =>
    have first : f (count, kept) item = ((f (count, kept) item).1, kept) :=
      Prod.ext rfl (keeps count item mem_cons_self)
    rw [foldl_cons, first]
    exact ih (fun count other member => keeps count other (mem_cons_of_mem _ member)) _

theorem cleanupTmpFiles_of_none (place : Target)
    (lasting : ∀ path data, disk.node (path ++ place.location) = some (.file data) → ¬ IsTmp path)
    (fuel : ℕ) (dir : Location) : (cleanupTmpFiles place fuel dir disk).2 = disk := by
  induction fuel generalizing dir with
  | zero => rfl
  | succ fuel ih =>
    rw [cleanupTmpFiles]
    split
    · rfl
    · rfl
    · rename_i entries read
      have held : entries = disk.children (dir ++ place.location) := by
        unfold Files.readDir at read
        split at read
        · cases read
        · cases read
        · cases read
          rfl
      refine foldl_keeps (fun count entry member => ?_) 0
      rw [held, Files.mem_children] at member
      rcases entry with ⟨name, node⟩
      cases node with
      | dir => exact ih (name :: dir)
      | file data =>
        have kept : extension name ≠ some tmp := lasting (name :: dir) data member
        dsimp only
        rw [if_neg kept]

end LocalBlobStore

end OxiStore
