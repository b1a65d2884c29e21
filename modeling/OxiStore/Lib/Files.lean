/-
**A tree of files.**
-/

import OxiStore.Lib.Paths
import OxiStore.Lib.Table

namespace FileTree

open OrdTable UnixPath

inductive IoError where
  | notFound
  | alreadyExists
  | notADirectory
  | isADirectory
  | invalidInput
  | unsupported
deriving DecidableEq

inductive Node (α : Type) where
  | file (data : α)
  | dir
deriving DecidableEq

variable {α : Type}

def nodeIn (nodes : Table Location (Node α)) (location : Location) : Option (Node α) :=
  if location = [] then some .dir else nodes[location]?

structure Files (α : Type) where
  nodes : Table Location (Node α)
  /-- What is held is held by a directory. -/
  held : ∀ name parent, nodeIn nodes (name :: parent) ≠ none → nodeIn nodes parent = some .dir

structure Target where
  location : Location
  dirForm : Bool

def target (cwd : Location) (path : Path) : Except IoError Target :=
  if ∃ name ∈ names path.components, Char.ofNat 0 ∈ name then .error .invalidInput
  else if path.components = [] then .error .notFound
  else .ok ⟨locate cwd path.components, path.dirForm⟩

def onPath {β : Type} (cwd : Location) (path : Path) (call : Target → Files α → Except IoError β × Files α)
    (files : Files α) : Except IoError β × Files α :=
  match target cwd path with
  | .error error => (.error error, files)
  | .ok place => call place files

theorem onPath_eq_ok {β : Type} {cwd : Location} {path : Path} {files files' : Files α} {value : β}
    {call : Target → Files α → Except IoError β × Files α} :
    onPath cwd path call files = (.ok value, files') ↔
      ∃ place, target cwd path = .ok place ∧ call place files = (.ok value, files') := by
  unfold onPath
  cases target cwd path with
  | error error => simp
  | ok place => simp

namespace Files

def node (tree : Files α) (location : Location) : Option (Node α) := nodeIn tree.nodes location

def empty : Files α := ⟨∅, fun name parent present => absurd (by simp [nodeIn]) present⟩

theorem node_empty (location : Location) :
    (empty : Files α).node location = if location = [] then some .dir else none := by
  simp [node, nodeIn, empty]

@[simp] theorem node_nil (tree : Files α) : tree.node [] = some .dir := rfl

theorem node_parent {tree : Files α} {name : Name} {parent : Location}
    (present : tree.node (name :: parent) ≠ none) : tree.node parent = some .dir :=
  tree.held name parent present

theorem nodeIn_amend (nodes : Table Location (Node α)) (name : Name) (parent location : Location)
    (new : Option (Node α)) :
    nodeIn (amend nodes (name :: parent, new)) location =
      if location = name :: parent then new else nodeIn nodes location := by
  unfold nodeIn
  rw [get_amend]
  by_cases here : location = name :: parent
  · subst here
    simp
  · rw [if_neg (Ne.symm here), if_neg here]

/-- **One change of a tree**: in a directory, a file is put, or removed, or a new directory is made. -/
def change (tree : Files α) (name : Name) (parent : Location) (new : Option (Node α))
    (inside : tree.node parent = some .dir)
    (still : tree.node (name :: parent) = some .dir → new = some .dir) : Files α where
  nodes := amend tree.nodes (name :: parent, new)
  held child holder present := by
    rw [nodeIn_amend] at present ⊢
    by_cases inner : holder = name :: parent
    · rw [if_pos inner]
      rw [inner, if_neg (by simp)] at present
      exact still (tree.held child _ present)
    · rw [if_neg inner]
      by_cases own : child :: holder = name :: parent
      · obtain ⟨rfl, rfl⟩ := List.cons.inj own
        exact inside
      · rw [if_neg own] at present
        exact tree.held child holder present

@[simp] theorem node_change (tree : Files α) {name : Name} {parent : Location} {new : Option (Node α)}
    (inside : tree.node parent = some .dir) (still : tree.node (name :: parent) = some .dir → new = some .dir)
    (location : Location) :
    (tree.change name parent new inside still).node location =
      if location = name :: parent then new else tree.node location :=
  nodeIn_amend tree.nodes name parent location new

/-! ### Looking -/

def stat (tree : Files α) : Location → Except IoError (Node α)
  | [] => .ok .dir
  | name :: parent =>
      match tree.stat parent with
      | .error error => .error error
      | .ok (.file _) => .error .notADirectory
      | .ok .dir =>
          match tree.node (name :: parent) with
          | some node => .ok node
          | none => .error .notFound

theorem stat_of_node {tree : Files α} {location : Location} {node : Node α}
    (present : tree.node location = some node) : tree.stat location = .ok node := by
  induction location generalizing node with
  | nil =>
    cases present
    rfl
  | cons name parent ih =>
    have inside : tree.node parent = some .dir := node_parent (by rw [present]; exact nofun)
    rw [stat, ih inside, present]

theorem stat_of_missing {tree : Files α} {location : Location} (missing : tree.node location = none)
    (noFile : ∀ way data, way <:+ location → tree.node way ≠ some (.file data)) :
    tree.stat location = .error .notFound := by
  induction location with
  | nil => cases missing
  | cons name parent ih =>
    have noFile' : ∀ way data, way <:+ parent → tree.node way ≠ some (.file data) := fun way data on =>
      noFile way data (on.trans (List.suffix_cons name parent))
    cases inside : tree.node parent with
    | none => rw [stat, ih inside noFile']
    | some node =>
      cases node with
      | file data => exact absurd inside (noFile' parent data (List.suffix_refl parent))
      | dir => rw [stat, stat_of_node inside, missing]

theorem node_of_stat {tree : Files α} {location : Location} {node : Node α}
    (found : tree.stat location = .ok node) : tree.node location = some node := by
  cases there : tree.node location with
  | some other =>
    rw [stat_of_node there] at found
    cases found
    rfl
  | none =>
    cases location with
    | nil => cases there
    | cons name parent =>
      rw [stat] at found
      split at found
      · cases found
      · cases found
      · simp [there] at found

/-! ### The calls -/

instance (node : Option (Node α)) : Decidable (node = some .dir) :=
  match node with
  | none => .isFalse nofun
  | some (.file _) => .isFalse nofun
  | some .dir => .isTrue rfl

variable (tree : Files α)

def lookUp (target : Target) : Except IoError (Node α) :=
  match tree.stat target.location with
  | .error error => .error error
  | .ok (.file data) => if target.dirForm then .error .notADirectory else .ok (.file data)
  | .ok .dir => .ok .dir

def read (target : Target) : Except IoError α :=
  match tree.lookUp target with
  | .error error => .error error
  | .ok .dir => .error .isADirectory
  | .ok (.file data) => .ok data

theorem node_of_lookUp {tree : Files α} {target : Target} {node : Node α}
    (found : tree.lookUp target = .ok node) : tree.node target.location = some node := by
  unfold lookUp at found
  split at found
  · cases found
  · split_ifs at found
    cases found
    exact node_of_stat ‹_›
  · cases found
    exact node_of_stat ‹_›

def write (target : Target) (data : α) : Except IoError Unit × Files α :=
  match target.location with
  | [] => (.error .isADirectory, tree)
  | name :: parent =>
      match inside : tree.stat parent with
      | .error error => (.error error, tree)
      | .ok (.file _) => (.error .notADirectory, tree)
      | .ok .dir =>
          if target.dirForm then (.error .isADirectory, tree)
          else if taken : tree.node (name :: parent) = some .dir then (.error .isADirectory, tree)
          else (.ok (), tree.change name parent (some (.file data)) (node_of_stat inside)
            fun dir => absurd dir taken)

def moveFile {name name' : Name} {parent parent' : Location} {data : α}
    (found : tree.node (name :: parent) = some (.file data)) (inside : tree.node parent' = some .dir)
    (free : tree.node (name' :: parent') ≠ some .dir) : Files α :=
  (tree.change name parent none (node_parent (by rw [found]; exact nofun))
      (by rw [found]; exact nofun)).change name' parent' (some (.file data))
    (by
      rw [node_change, if_neg]
      · exact inside
      · rintro rfl
        rw [found] at inside
        cases inside)
    (by
      rw [node_change]
      split_ifs with same
      · exact nofun
      · exact fun dir => absurd dir free)

def rename (source destination : Target) : Except IoError Unit × Files α :=
  match here : source.location, destination.location with
  | name :: parent, name' :: parent' =>
      match tree.stat parent, inside : tree.stat parent' with
      | .error error, _ => (.error error, tree)
      | .ok (.file _), _ => (.error .notADirectory, tree)
      | .ok .dir, .error error => (.error error, tree)
      | .ok .dir, .ok (.file _) => (.error .notADirectory, tree)
      | .ok .dir, .ok .dir =>
          match found : tree.lookUp source with
          | .error error => (.error error, tree)
          | .ok .dir => (.error .unsupported, tree)
          | .ok (.file _) =>
              if destination.dirForm then (.error .notADirectory, tree)
              else if taken : tree.node (name' :: parent') = some .dir then (.error .isADirectory, tree)
              else (.ok (), tree.moveFile
                (show tree.node (name :: parent) = _ from here ▸ node_of_lookUp found)
                (node_of_stat inside) taken)
  | _, _ => (.error .unsupported, tree)

def removeFile (target : Target) : Except IoError Unit × Files α :=
  match here : target.location with
  | [] => (.error .isADirectory, tree)
  | name :: parent =>
      match found : tree.lookUp target with
      | .error error => (.error error, tree)
      | .ok .dir => (.error .isADirectory, tree)
      | .ok (.file _) =>
          (.ok (), tree.change name parent none
            (node_parent (by rw [← here, node_of_lookUp found]; exact nofun))
            (by rw [← here, node_of_lookUp found]; exact nofun))

def mkdir : Location → Except IoError Unit × Files α
  | [] => (.error .alreadyExists, tree)
  | name :: parent =>
      match inside : tree.stat parent with
      | .error error => (.error error, tree)
      | .ok (.file _) => (.error .notADirectory, tree)
      | .ok .dir =>
          if tree.node (name :: parent) = none then
            (.ok (), tree.change name parent (some .dir) (node_of_stat inside) fun _ => rfl)
          else (.error .alreadyExists, tree)

def isDir (location : Location) : Bool :=
  match tree.stat location with
  | .ok .dir => true
  | _ => false

def createDirAll : Location → Except IoError Unit × Files α
  | [] => (.ok (), tree)
  | name :: parent =>
      match tree.mkdir (name :: parent) with
      | (.ok (), tree') => (.ok (), tree')
      | (.error .notFound, _) =>
          match createDirAll parent with
          | (.error error, tree') => (.error error, tree')
          | (.ok (), tree') =>
              match tree'.mkdir (name :: parent) with
              | (.ok (), tree'') => (.ok (), tree'')
              | (.error error, _) =>
                  if tree'.isDir (name :: parent) then (.ok (), tree') else (.error error, tree')
      | (.error error, _) => if tree.isDir (name :: parent) then (.ok (), tree) else (.error error, tree)

def children (directory : Location) : List (Name × Node α) :=
  tree.nodes.toList.filterMap fun
    | ([], _) => none
    | (name :: parent, node) => if parent = directory then some (name, node) else none

def readDir (target : Target) : Except IoError (List (Name × Node α)) :=
  match tree.lookUp target with
  | .error error => .error error
  | .ok (.file _) => .error .notADirectory
  | .ok .dir => .ok (tree.children target.location)

def depth : ℕ := (tree.nodes.keys.map List.length).foldr max 0

/-! ### What the calls leave -/

section

variable {tree} {target source destination : Target} {data : α}

theorem write_cases (tree : Files α) (target : Target) (data : α) :
    (∃ error, tree.write target data = (.error error, tree)) ∨
      ∃ tree', tree.write target data = (.ok (), tree') ∧
        ∀ location, tree'.node location =
          if location = target.location then some (.file data) else tree.node location := by
  unfold write
  split
  · exact .inl ⟨_, rfl⟩
  · rename_i name parent here
    split
    · exact .inl ⟨_, rfl⟩
    · exact .inl ⟨_, rfl⟩
    · split_ifs with form taken
      · exact .inl ⟨_, rfl⟩
      · exact .inl ⟨_, rfl⟩
      · exact .inr ⟨_, rfl, fun location => by rw [node_change, here]⟩

theorem node_moveFile {name name' : Name} {parent parent' : Location}
    (found : tree.node (name :: parent) = some (.file data)) (inside : tree.node parent' = some .dir)
    (free : tree.node (name' :: parent') ≠ some .dir) (location : Location) :
    (tree.moveFile found inside free).node location =
      if location = name' :: parent' then some (.file data)
      else if location = name :: parent then none else tree.node location := by
  rw [moveFile, node_change, node_change]

theorem rename_cases (tree : Files α) (source destination : Target) :
    (∃ error, tree.rename source destination = (.error error, tree)) ∨
      ∃ data tree', tree.node source.location = some (.file data) ∧
        tree.rename source destination = (.ok (), tree') ∧
        ∀ location, tree'.node location =
          if location = destination.location then some (.file data)
          else if location = source.location then none else tree.node location := by
  unfold rename
  split
  · rename_i name parent name' parent' here there
    split
    · exact .inl ⟨_, rfl⟩
    · exact .inl ⟨_, rfl⟩
    · exact .inl ⟨_, rfl⟩
    · exact .inl ⟨_, rfl⟩
    · split
      · exact .inl ⟨_, rfl⟩
      · exact .inl ⟨_, rfl⟩
      · rename_i data found
        split_ifs with form taken
        · exact .inl ⟨_, rfl⟩
        · exact .inl ⟨_, rfl⟩
        · refine .inr ⟨data, _, node_of_lookUp found, rfl, fun location => ?_⟩
          rw [node_moveFile, here, there]
  · exact .inl ⟨_, rfl⟩

end

/-! ### The calls that succeed -/

section

variable {tree} {data : α} {location : Location} {name name' : Name} {parent parent' : Location}

theorem node_of_suffix {node : Node α} {way : Location} (present : tree.node location = some node)
    (on : way <:+ location) (proper : way ≠ location) : tree.node way = some .dir := by
  induction location generalizing node with
  | nil =>
    obtain rfl := List.suffix_nil.mp on
    exact absurd rfl proper
  | cons name parent ih =>
    have inside : tree.node parent = some .dir := node_parent (by rw [present]; exact nofun)
    rcases List.suffix_cons_iff.mp on with same | above
    · exact absurd same proper
    · by_cases here : way = parent
      · rw [here, inside]
      · exact ih inside above here

theorem node_of_way {way : Location} (present : tree.node location = some .dir) (on : way <:+ location) :
    tree.node way = some .dir := by
  by_cases same : way = location
  · rw [same, present]
  · exact node_of_suffix present on same

theorem lookUp_of_file (present : tree.node location = some (.file data)) :
    tree.lookUp ⟨location, false⟩ = .ok (.file data) := by
  simp [lookUp, stat_of_node present]

theorem lookUp_of_dir (present : tree.node location = some .dir) (dirForm : Bool) :
    tree.lookUp ⟨location, dirForm⟩ = .ok .dir := by
  simp [lookUp, stat_of_node present]

theorem lookUp_of_missing (missing : tree.node location = none)
    (noFile : ∀ way data, way <:+ location → tree.node way ≠ some (.file data)) (dirForm : Bool) :
    tree.lookUp ⟨location, dirForm⟩ = .error .notFound := by
  simp [lookUp, stat_of_missing missing noFile]

theorem read_write {tree tree' : Files α} {target : Target}
    (done : tree.write target data = (.ok (), tree')) : tree'.read target = .ok data := by
  unfold write at done
  split at done
  · cases done
  · rename_i name parent here
    split at done
    · cases done
    · cases done
    · split_ifs at done with form taken
      · cases done
      · cases done
      · obtain ⟨location, dirForm⟩ := target
        obtain rfl : dirForm = false := (Bool.not_eq_true _).mp form
        cases here
        cases done
        have held : (tree.change name parent (some (.file data)) (node_of_stat ‹_›)
            fun dir => absurd dir taken).node (name :: parent) = some (.file data) := by
          rw [node_change, if_pos rfl]
        unfold read
        rw [lookUp_of_file held]

theorem write_ok (inside : tree.node parent = some .dir) (free : tree.node (name :: parent) ≠ some .dir) :
    ∃ tree', tree.write ⟨name :: parent, false⟩ data = (.ok (), tree') ∧
      ∀ location, tree'.node location =
        if location = name :: parent then some (.file data) else tree.node location := by
  have found := stat_of_node inside
  unfold write
  dsimp only
  split
  · simp_all
  · simp_all
  · rw [if_neg Bool.false_ne_true, dif_neg free]
    exact ⟨_, rfl, tree.node_change _ _⟩

theorem rename_ok (present : tree.node (name :: parent) = some (.file data))
    (inside : tree.node parent' = some .dir) (free : tree.node (name' :: parent') ≠ some .dir) :
    ∃ tree', tree.rename ⟨name :: parent, false⟩ ⟨name' :: parent', false⟩ = (.ok (), tree') ∧
      ∀ location, tree'.node location =
        if location = name' :: parent' then some (.file data)
        else if location = name :: parent then none else tree.node location := by
  have held : tree.node parent = some .dir := node_parent (by rw [present]; exact nofun)
  have above := stat_of_node held
  have above' := stat_of_node inside
  have found := lookUp_of_file present
  unfold rename
  dsimp only
  split
  · simp_all
  · simp_all
  · simp_all
  · simp_all
  · split
    · simp_all
    · simp_all
    · rename_i other there
      obtain rfl : data = other := by simpa [found] using there
      rw [if_neg Bool.false_ne_true, dif_neg free]
      exact ⟨_, rfl, node_moveFile present inside free⟩

theorem removeFile_ok (present : tree.node (name :: parent) = some (.file data)) :
    ∃ tree', tree.removeFile ⟨name :: parent, false⟩ = (.ok (), tree') ∧
      ∀ location, tree'.node location = if location = name :: parent then none else tree.node location := by
  have found := lookUp_of_file present
  unfold removeFile
  dsimp only
  split
  · simp_all
  · simp_all
  · exact ⟨_, rfl, tree.node_change _ _⟩

theorem removeFile_missing {target : Target} (missing : tree.lookUp target = .error .notFound) :
    tree.removeFile target = (.error .notFound, tree) := by
  unfold removeFile
  split
  · rename_i root
    simp [lookUp, root, stat] at missing
  · split
    all_goals simp_all

theorem mkdir_ok (inside : tree.node parent = some .dir) (free : tree.node (name :: parent) = none) :
    ∃ tree', tree.mkdir (name :: parent) = (.ok (), tree') ∧
      ∀ location, tree'.node location =
        if location = name :: parent then some .dir else tree.node location := by
  have found := stat_of_node inside
  rw [mkdir]
  split
  · simp_all
  · simp_all
  · rw [if_pos free]
    exact ⟨_, rfl, tree.node_change _ _⟩

theorem mkdir_cases (tree : Files α) (location : Location) :
    (∃ error, tree.mkdir location = (.error error, tree)) ∨
      ∃ tree', tree.node location = none ∧ tree.mkdir location = (.ok (), tree') ∧
        ∀ other, tree'.node other = if other = location then some .dir else tree.node other := by
  unfold mkdir
  split
  · exact .inl ⟨_, rfl⟩
  · split
    · exact .inl ⟨_, rfl⟩
    · exact .inl ⟨_, rfl⟩
    · split_ifs with free
      · exact .inr ⟨_, free, rfl, tree.node_change _ _⟩
      · exact .inl ⟨_, rfl⟩

theorem mkdir_missing (missing : tree.stat parent = .error .notFound) :
    tree.mkdir (name :: parent) = (.error .notFound, tree) := by
  rw [mkdir]
  split
  all_goals simp_all

theorem mkdir_there (present : tree.node (name :: parent) = some .dir) :
    tree.mkdir (name :: parent) = (.error .alreadyExists, tree) := by
  have inside : tree.node parent = some .dir := node_parent (by rw [present]; exact nofun)
  have found := stat_of_node inside
  rw [mkdir]
  split
  · simp_all
  · simp_all
  · simp [present]

theorem createDirAll_there (present : tree.node location = some .dir) :
    tree.createDirAll location = (.ok (), tree) := by
  cases location with
  | nil => rfl
  | cons name parent => simp [createDirAll, mkdir_there present, isDir, stat_of_node present]

theorem createDirAll_ok
    (noFile : ∀ way data, way <:+ location → tree.node way ≠ some (.file data)) :
    ∃ tree', tree.createDirAll location = (.ok (), tree') ∧
      ∀ other, tree'.node other = if other <:+ location then some .dir else tree.node other := by
  induction location with
  | nil =>
    refine ⟨tree, rfl, fun other => ?_⟩
    split_ifs with root
    · rw [List.suffix_nil.mp root, node_nil]
    · rfl
  | cons name parent ih =>
    have noFile' : ∀ way data, way <:+ parent → tree.node way ≠ some (.file data) := fun way data on =>
      noFile way data (on.trans (List.suffix_cons name parent))
    cases present : tree.node (name :: parent) with
    | some node =>
      cases node with
      | file data => exact absurd present (noFile _ data (List.suffix_refl _))
      | dir =>
        refine ⟨tree, ?_, fun other => ?_⟩
        · exact createDirAll_there present
        · split_ifs with on
          · exact node_of_way present on
          · rfl
    | none =>
      cases above : tree.node parent with
      | some node =>
        cases node with
        | file data => exact absurd above (noFile' _ data (List.suffix_refl _))
        | dir =>
          obtain ⟨tree', made, nodes⟩ := mkdir_ok above present
          refine ⟨tree', by simp [createDirAll, made], fun other => ?_⟩
          rw [nodes]
          by_cases same : other = name :: parent
          · rw [if_pos same, if_pos (same ▸ List.suffix_refl _)]
          · rw [if_neg same]
            split_ifs with on
            · exact node_of_way above ((List.suffix_cons_iff.mp on).resolve_left same)
            · rfl
      | none =>
        have missing := stat_of_missing above noFile'
        obtain ⟨tree', made, nodes⟩ := ih noFile'
        have inside : tree'.node parent = some .dir := by rw [nodes, if_pos (List.suffix_refl _)]
        have free : tree'.node (name :: parent) = none := by
          rw [nodes, if_neg, present]
          exact fun on => absurd on.length_le (by simp)
        obtain ⟨tree'', last, nodes'⟩ := mkdir_ok inside free
        refine ⟨tree'', by simp [createDirAll, mkdir_missing missing, made, last], fun other => ?_⟩
        rw [nodes', nodes]
        by_cases same : other = name :: parent
        · rw [if_pos same, if_pos (same ▸ List.suffix_refl _)]
        · rw [if_neg same]
          have smaller : other <:+ name :: parent ↔ other <:+ parent := by
            rw [List.suffix_cons_iff, or_iff_right same]
          simp only [smaller]

theorem createDirAll_file (tree : Files α) (location other : Location) (data : α) :
    (tree.createDirAll location).2.node other = some (.file data) ↔
      tree.node other = some (.file data) := by
  have made : ∀ (tree : Files α) location, (tree.mkdir location).2.node other = some (.file data) ↔
      tree.node other = some (.file data) := by
    intro tree location
    rcases tree.mkdir_cases location with ⟨error, fails⟩ | ⟨tree', free, done, nodes⟩
    · rw [fails]
    · rw [done, nodes]
      split_ifs with same
      · simp [same, free]
      · rfl
  induction location with
  | nil => rfl
  | cons name parent ih =>
    rw [createDirAll]
    split
    · rename_i tree' done
      have kept := made tree (name :: parent)
      rwa [done] at kept
    · split
      · rename_i error tree' fails
        rwa [fails] at ih
      · rename_i tree' done
        rw [done] at ih
        split
        · rename_i tree'' last
          have kept := made tree' (name :: parent)
          rw [last] at kept
          exact kept.trans ih
        · split_ifs with there
          all_goals exact ih
    · split_ifs with there
      all_goals rfl

end

/-! ### Walks -/

section

variable (directory : Location)

theorem mem_children {entry : Name × Node α} :
    entry ∈ tree.children directory ↔ tree.node (entry.1 :: directory) = some entry.2 := by
  have held : tree.node (entry.1 :: directory) = tree.nodes[entry.1 :: directory]? := rfl
  rw [held, ← (lists_toList tree.nodes).mem_iff, children, List.mem_filterMap]
  constructor
  · rintro ⟨⟨location, node⟩, member, kept⟩
    cases location with
    | nil => cases kept
    | cons name parent =>
      dsimp only at kept
      split_ifs at kept with same
      cases kept
      rwa [← same]
  · intro member
    exact ⟨_, member, if_pos rfl⟩

theorem children_distinct :
    (tree.children directory).Pairwise fun entry other => entry.1 ≠ other.1 := by
  refine List.Pairwise.filterMap _ (fun entry other less => ?_) (lists_toList tree.nodes).ascending
  rintro found kept found' kept' same
  obtain ⟨location, node⟩ := entry
  obtain ⟨location', node'⟩ := other
  cases location with
  | nil => cases kept
  | cons name parent =>
    cases location' with
    | nil => cases kept'
    | cons name' parent' =>
      dsimp only at kept kept'
      split_ifs at kept kept' with first second
      cases kept
      cases kept'
      rw [show name = name' from same, first, second] at less
      exact lt_irrefl _ less

theorem length_le_depth {location : Location} (present : tree.node location ≠ none) :
    location.length ≤ tree.depth := by
  cases location with
  | nil => exact Nat.zero_le _
  | cons name parent =>
    have member : name :: parent ∈ tree.nodes.keys := (mem_keys_iff _ _).mpr present
    have bound : ∀ lengths : List ℕ, ∀ n ∈ lengths, n ≤ lengths.foldr max 0 := by
      intro lengths n within
      induction lengths with
      | nil => cases within
      | cons first lengths ih =>
        rcases List.mem_cons.mp within with rfl | later
        · exact le_max_left _ _
        · exact le_max_of_le_right (ih later)
    exact bound _ _ (List.mem_map_of_mem member)

end

end Files

end FileTree
