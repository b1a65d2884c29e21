/-
**Two puts of a `LocalBlobStore` at a time.**
-/

import OxiStore.Blob.Local

namespace OxiStore

open ByteString StepProg UnixPath FileTree

namespace LocalBlobStore

def putting (store : LocalBlobStore) (host : Host) (keys : Bool → String) (data : Bool → Bytes)
    (disk : Disk) : Pool Bool Disk (Except BlobError Unit) :=
  ⟨fun i => (store.put host (keys i) (data i)).prog, disk⟩

/-- **A `put` that has succeeded has its own data under its key**: from every disk, at every moment of
every interleaving of the steps of the two calls. -/
def KeepOwn (store : LocalBlobStore) (host : Host) (keys : Bool → String) (paths : Bool → Location) : Prop :=
  ∀ (data : Bool → Bytes) (disk : Disk) (schedule : List (Event Bool Empty)) (i : Bool),
    (Pool.run Empty.elim (store.putting host keys data disk) schedule).threads i = .pure (.ok ()) →
      (Pool.run Empty.elim (store.putting host keys data disk) schedule).state.node (paths i) =
        some (.file (data i))

/-! ### Apart -/

def FilesStay (mine : Location → Prop) (disk disk' : Disk) : Prop :=
  ∀ location data, mine location → disk.node location = some (.file data) →
    disk'.node location = some (.file data)

variable {store : LocalBlobStore} {host : Host} {key : String} {front : List Component} {name : Name}

def Mine (directory : Location) (name : Name) (location : Location) : Prop :=
  location = tmpName name :: directory ∨ location = name :: directory

theorem safe_put (named : NamesFile store key front name) (data : Bytes) (disk : Disk) :
    (store.put host key data).prog.Safe (FilesStay (Mine (locate host.cwd front) name))
      (FilesStay fun location => ¬ Mine (locate host.cwd front) name location)
      (fun result disk => result = .ok () →
        disk.node (name :: locate host.cwd front) = some (.file data)) disk := by
  rw [named.put_eq]
  refine Fallible.safe_atomic_bind fun before _ => ⟨?_, fun _ _ _ _ => nofun, fun _ _ => ?_⟩
  · intro location content _ file
    dsimp only
    rw [named.createDirAll_front]
    split_ifs with top
    · exact file
    · exact (before.createDirAll_file _ location content).mpr file
  refine Fallible.safe_atomic_bind fun before _ => ?_
  dsimp only
  rcases before.write_cases ⟨tmpName name :: locate host.cwd front, false⟩ data with
    ⟨error, fails⟩ | ⟨written, done, nodes⟩
  · rw [fails]
    exact ⟨fun _ _ _ file => file, fun _ _ _ _ => nofun, nofun⟩
  rw [done]
  refine ⟨fun location content other file => ?_, nofun, fun _ _ => ?_⟩
  · rw [nodes, if_neg fun tmp => other (.inl tmp)]
    exact file
  have own : written.node (tmpName name :: locate host.cwd front) = some (.file data) := by
    rw [nodes, if_pos rfl]
  refine Fallible.safe_atomic fun before others => ?_
  have still := others _ data (.inl rfl) own
  dsimp only
  rcases before.rename_cases ⟨tmpName name :: locate host.cwd front, false⟩
      ⟨name :: locate host.cwd front, false⟩ with ⟨error, fails⟩ | ⟨content, renamed, source, done, nodes⟩
  · rw [fails]
    exact ⟨fun _ _ _ file => file, fun _ _ => nofun⟩
  · rw [done]
    refine ⟨fun location content other file => ?_, fun after others _ => others _ data (.inr rfl) ?_⟩
    · rw [nodes, if_neg fun blob => other (.inr blob), if_neg fun tmp => other (.inl tmp)]
      exact file
    · rw [still] at source
      cases source
      rw [nodes, if_pos rfl]

variable {keys : Bool → String} {fronts : Bool → List Component} {names : Bool → Name}

theorem keep_own_of_apart (named : ∀ i, NamesFile store (keys i) (fronts i) (names i))
    (apart : ∀ i j, i ≠ j → ∀ location, Mine (locate host.cwd (fronts i)) (names i) location →
      ¬ Mine (locate host.cwd (fronts j)) (names j) location) :
    KeepOwn store host keys fun i => names i :: locate host.cwd (fronts i) := by
  intro data disk schedule i succeeded
  have safe := Pool.safe_run Empty.elim
    (fun i => FilesStay (Mine (locate host.cwd (fronts i)) (names i)))
    (fun i => FilesStay fun location => ¬ Mine (locate host.cwd (fronts i)) (names i) location)
    (fun i result disk => result = .ok () →
      disk.node (names i :: locate host.cwd (fronts i)) = some (.file (data i)))
    (fun _ _ _ _ _ file => file)
    (fun _ _ _ _ first second location content mine file =>
      second location content mine (first location content mine file))
    (fun i j other _ _ moves location content mine file =>
      moves location content (apart j i (Ne.symm other) location mine) file)
    (fun move (_ : True) => move.elim) schedule (fun move => move.elim) (store.putting host keys data disk)
    (fun i => safe_put (named i) (data i) disk) i
  rw [succeeded] at safe
  exact safe _ (fun _ _ _ file => file) rfl

theorem apart_of_ne {β : Type} {f : Bool → β} (apart : f false ≠ f true) {i j : Bool} (other : i ≠ j) :
    f i ≠ f j := by
  cases i with
  | false =>
    obtain rfl : j = true := by simpa using other
    exact apart
  | true =>
    obtain rfl : j = false := by simpa using other
    exact apart.symm

theorem mine_apart (directories : Bool → Location) (nonempty : ∀ i, names i ≠ [])
    (distinct : names false :: directories false ≠ names true :: directories true)
    (apart : tmpName (names false) :: directories false ≠ tmpName (names true) :: directories true)
    (i j : Bool) (other : i ≠ j) (location : Location) (mine : Mine (directories i) (names i) location) :
    ¬ Mine (directories j) (names j) location := by
  have blobs := apart_of_ne (f := fun i => names i :: directories i) distinct other
  have tmps := apart_of_ne (f := fun i => tmpName (names i) :: directories i) apart other
  -- A temporary file that is the other's blob is the other's temporary file too.
  have mixed : ∀ i j, tmpName (names i) :: directories i ≠ tmpName (names j) :: directories j →
      tmpName (names i) :: directories i ≠ names j :: directories j := by
    rintro i j tmps same
    obtain ⟨name, directory⟩ := List.cons.inj same
    rw [← name, ← directory, tmpName_tmpName (nonempty i)] at tmps
    exact tmps rfl
  rintro (tmp | blob)
  · rcases mine with tmp' | blob'
    · exact tmps (tmp'.symm.trans tmp)
    · exact mixed j i tmps.symm (tmp.symm.trans blob')
  · rcases mine with tmp' | blob'
    · exact mixed i j tmps (tmp'.symm.trans blob)
    · exact blobs (blob'.symm.trans blob)

/-! ### With one temporary file -/

def renameTmp (directory : Location) (name : Name) : BlobCall Disk Unit :=
  io fun disk => disk.rename ⟨tmpName name :: directory, false⟩ ⟨name :: directory, false⟩

theorem runs_renameTmp {directory : Location} {disk : Disk} {data : Bytes}
    (written : disk.node (tmpName name :: directory) = some (.file data))
    (free : disk.node (name :: directory) ≠ some .dir) :
    ∃ last : Disk, (renameTmp directory name).prog.Runs disk (.pure (.ok ())) last ∧
      last.node (name :: directory) = some (.file data) := by
  have inside : disk.node directory = some .dir := Files.node_parent (by rw [written]; exact nofun)
  obtain ⟨last, done, nodes⟩ := Files.rename_ok written inside free
  refine ⟨last, ?_, by rw [nodes, if_pos rfl]⟩
  have runs := runs_io (fun disk : Disk =>
    disk.rename ⟨tmpName name :: directory, false⟩ ⟨name :: directory, false⟩) disk
  rwa [done] at runs

theorem runs_to_rename (named : NamesFile store key front name) (data : Bytes) {disk : Disk}
    (inside : disk.node (locate host.cwd front) = some .dir)
    (free : disk.node (tmpName name :: locate host.cwd front) ≠ some .dir) :
    ∃ written : Disk, (store.put host key data).prog.Runs disk
        (renameTmp (locate host.cwd front) name).prog written ∧
      ∀ location, written.node location =
        if location = tmpName name :: locate host.cwd front then some (.file data)
        else disk.node location := by
  obtain ⟨written, done, nodes⟩ := Files.write_ok inside free
  have made : createDirAll host ⟨front, false⟩ disk = (.ok (), disk) := by
    rw [named.createDirAll_front]
    split_ifs with top
    · rfl
    · exact Files.createDirAll_there inside
  refine ⟨written, ?_, nodes⟩
  rw [named.put_eq]
  exact (runs_io_bind made).trans (runs_io_bind done)

theorem exists_disk (directory : Location) :
    ∃ disk : Disk, disk.node directory = some .dir ∧ ∀ name, disk.node (name :: directory) = none := by
  have noFile : ∀ way data, way <:+ directory → (Files.empty : Disk).node way ≠ some (.file data) := by
    intro way data _
    rw [Files.node_empty]
    split_ifs with root
    all_goals exact nofun
  obtain ⟨disk, -, nodes⟩ := Files.createDirAll_ok noFile
  refine ⟨disk, by rw [nodes, if_pos (List.suffix_refl _)], fun name => ?_⟩
  rw [nodes, if_neg fun on => absurd on.length_le (by simp), Files.node_empty, if_neg (by simp)]

theorem not_keepOwn_of_shared (named : ∀ i, NamesFile store (keys i) (fronts i) (names i))
    (shared : tmpName (names false) :: locate host.cwd (fronts false) =
      tmpName (names true) :: locate host.cwd (fronts true)) :
    ¬ KeepOwn store host keys fun i => names i :: locate host.cwd (fronts i) := by
  intro keep
  let data : Bool → Bytes := fun i => if i then [2] else [1]
  obtain ⟨-, directory⟩ := List.cons.inj shared
  obtain ⟨disk, inside, nothing⟩ := exists_disk (locate host.cwd (fronts false))
  obtain ⟨first, runs, nodes⟩ := runs_to_rename (named false) (data false) inside
    (by rw [nothing]; exact nofun)
  have inside' : first.node (locate host.cwd (fronts true)) = some .dir := by
    rw [nodes, ← directory, if_neg (by simp), inside]
  obtain ⟨second, runs', nodes'⟩ := runs_to_rename (named true) (data true) inside'
    (by rw [nodes, ← shared, if_pos rfl]; exact nofun)
  have written : second.node (tmpName (names false) :: locate host.cwd (fronts false)) =
      some (.file (data true)) := by
    rw [nodes', if_pos shared]
  have free : second.node (names false :: locate host.cwd (fronts false)) ≠ some .dir := by
    rw [nodes', nodes, nothing, ← shared]
    split_ifs with tmp
    all_goals exact nofun
  obtain ⟨last, ends, taken⟩ := runs_renameTmp written free
  let pool := store.putting host keys data disk
  let written₁ := pool.set false (renameTmp (locate host.cwd (fronts false)) (names false)).prog first
  let written₂ := written₁.set true (renameTmp (locate host.cwd (fronts true)) (names true)).prog second
  have one : Pool.Reaches Empty.elim (fun _ => True) (fun _ => True) pool written₁ :=
    pool.reaches_stretch trivial runs
  have two : Pool.Reaches Empty.elim (fun _ => True) (fun _ => True) written₁ written₂ :=
    written₁.reaches_stretch trivial runs'
  have three : Pool.Reaches Empty.elim (fun _ => True) (fun _ => True) written₂
      (written₂.set false (.pure (.ok ())) last) :=
    written₂.reaches_stretch trivial ends
  obtain ⟨schedule, -, -, final⟩ := (one.trans two).trans three
  have own := keep data disk schedule false
    (by rw [final, Pool.set_threads_self])
  rw [final, Pool.set_state, taken] at own
  cases own

/-- **Two concurrent puts keep apart exactly when their temporary files are different.** -/
theorem keep_own_iff (store : LocalBlobStore) (host : Host)
    (named : ∀ i, NamesFile store (keys i) (fronts i) (names i))
    (distinct : names false :: locate host.cwd (fronts false) ≠ names true :: locate host.cwd (fronts true)) :
    (KeepOwn store host keys fun i => names i :: locate host.cwd (fronts i)) ↔
      tmpName (names false) :: locate host.cwd (fronts false) ≠
        tmpName (names true) :: locate host.cwd (fronts true) := by
  constructor
  · intro keep shared
    exact not_keepOwn_of_shared named shared keep
  · intro apart
    exact keep_own_of_apart named
      (mine_apart (fun i => locate host.cwd (fronts i)) (fun i => (named i).name_ne_nil) distinct apart)

section

theorem names_under_data {key : String} {name : Name}
    (accepted : underData.resolve key = .ok ("/data/".toList ++ name))
    (read : components ("/data/".toList ++ name) = [.rootDir, .normal "data".toList, .normal name])
    (form : endsAsDir ("/data/".toList ++ name) = false) (noNul : Char.ofNat 0 ∉ name) :
    NamesFile underData key [.rootDir, .normal "data".toList] name := by
  refine ⟨⟨_, accepted, read, form⟩, fun part member => ?_⟩
  rcases List.mem_append.mp member with inner | own
  · obtain rfl : part = "data".toList := by simpa [names] using inner
    decide
  · rw [List.mem_singleton.mp own]
    exact noNul

def twoStems : Bool → String
  | false => "a.txt"
  | true => "b.txt"

theorem different_stems_keep_own :
    KeepOwn underData atRoot twoStems fun i => (twoStems i).toList :: ["data".toList] := by
  have named : ∀ i, NamesFile underData (twoStems i) [.rootDir, .normal "data".toList]
      (twoStems i).toList := by
    intro i
    cases i with
    | false | true =>
      exact names_under_data (by decide +kernel) (by decide +kernel) (by decide +kernel) (by decide)
  exact (keep_own_iff underData atRoot named (by decide +kernel)).mpr (by decide +kernel)

def twoExtensions : Bool → String
  | false => "a.txt"
  | true => "a.dat"

theorem same_stem_takes_other_data :
    ¬ KeepOwn underData atRoot twoExtensions fun i => (twoExtensions i).toList :: ["data".toList] := by
  have named : ∀ i, NamesFile underData (twoExtensions i) [.rootDir, .normal "data".toList]
      (twoExtensions i).toList := by
    intro i
    cases i with
    | false | true =>
      exact names_under_data (by decide +kernel) (by decide +kernel) (by decide +kernel) (by decide)
  exact not_keepOwn_of_shared named (by decide +kernel)

end

end LocalBlobStore

end OxiStore
