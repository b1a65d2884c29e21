/-
**`LocalBlobStore`.**
-/

import OxiStore.Blob.Store

namespace OxiStore

open ByteString StepProg UnixPath FileTree Fallible

structure LocalBlobStore where
  base : List Char
  verifyChecksum : Bool

/-- **What a process sees of its host**: the working directory, and the length that `metadata` gives for
a directory. -/
structure Host where
  cwd : Location
  dirLen : UInt64

abbrev Disk := Files Bytes

namespace LocalBlobStore

def new (base : List Char) : LocalBlobStore := ⟨base, false⟩

def withChecksumVerification (base : List Char) : LocalBlobStore := ⟨base, true⟩

def validateKey (key : String) : Except BlobError Unit :=
  if key = "" then .error (.other "key must not be empty")
  else if .parentDir ∈ components key.toList then
    .error (.other "key must not contain '..' path component")
  else .ok ()

variable (store : LocalBlobStore) (host : Host)

def resolve (key : String) : Except BlobError (List Char) :=
  match validateKey key with
  | .error error => .error error
  | .ok () => .ok (join store.base key.toList)

/-! ### Steps on the files -/

def io {α : Type} (call : Disk → Except IoError α × Disk) : BlobCall Disk α :=
  .atomic fun files => ((call files).1.mapError .io, (call files).2)

theorem exec_io {α : Type} (call : Disk → Except IoError α × Disk) (disk : Disk) :
    (io call).exec disk = ((call disk).1.mapError .io, (call disk).2) := rfl

theorem exec_io_bind {α β : Type} {call : Disk → Except IoError α × Disk} {rest : α → BlobCall Disk β}
    {disk disk' : Disk} {value : α} (succeeds : call disk = (.ok value, disk')) :
    (io call >>= rest).exec disk = (rest value).exec disk' := by
  refine exec_bind_ok ?_
  rw [exec_io, succeeds]
  rfl

theorem runs_io_bind {α β : Type} {call : Disk → Except IoError α × Disk} {rest : α → BlobCall Disk β}
    {disk disk' : Disk} {value : α} (succeeds : call disk = (.ok value, disk')) :
    (io call >>= rest).prog.Runs disk (rest value).prog disk' := by
  refine runs_atomic_bind ?_
  rw [succeeds]
  rfl

theorem runs_io {α : Type} (call : Disk → Except IoError α × Disk) (disk : Disk) :
    (io call).prog.Runs disk (.pure ((call disk).1.mapError .io)) (call disk).2 :=
  runs_atomic ..

def createDirAll (path : Path) (files : Disk) : Except IoError Unit × Disk :=
  if path.components = [] then (.ok (), files)
  else onPath host.cwd path (fun target files => files.createDirAll target.location) files

def metadata (path : Path) (files : Disk) : Except IoError UInt64 × Disk :=
  onPath host.cwd path
    (fun target files => ((files.lookUp target).map fun
      | .file data => UInt64.ofNat data.length
      | .dir => host.dirLen, files)) files

def tmp : Name := ['t', 'm', 'p']

/-! ### The methods -/

def put (key : String) (data : Bytes) : BlobCall Disk Unit := do
  let text ← Fallible.ofExcept (store.resolve key)
  let path := Path.parse text
  match path.parent with
  | some parent => io (createDirAll host parent)
  | none => pure ()
  let tmpPath := path.withExtension tmp
  io (onPath host.cwd tmpPath fun target files => files.write target data)
  io (onPath host.cwd tmpPath fun source => onPath host.cwd path fun destination files =>
    files.rename source destination)

def keyFromPath (path : Path) : String :=
  match path.fileName with
  | some name => String.ofList name
  | none => "<unknown>"

def isAsciiHexdigit (char : Char) : Bool :=
  ('0' ≤ char ∧ char ≤ '9') ∨ ('a' ≤ char ∧ char ≤ 'f') ∨ ('A' ≤ char ∧ char ≤ 'F')

def looksLikeDigest (key : String) : Bool := key.utf8ByteSize = 64 ∧ key.toList.all isAsciiHexdigit

def get (sha2 : Sha2) (key : String) : BlobCall Disk Bytes := do
  let text ← Fallible.ofExcept (store.resolve key)
  let path := Path.parse text
  match ← (io (onPath host.cwd path fun target files => (files.read target, files))).attempt with
  | .error (.io .notFound) => throw (.notFound (keyFromPath path))
  | .error error => throw error
  | .ok bytes =>
      if store.verifyChecksum ∧ looksLikeDigest key ∧ (sha256 sha2 bytes).toHex ≠ key then
        throw (.checksumMismatch
          ("key " ++ key ++ ": stored content has SHA-256 " ++ (sha256 sha2 bytes).toHex))
      else pure bytes

def delete (key : String) : BlobCall Disk Unit := do
  let text ← Fallible.ofExcept (store.resolve key)
  match ← (io (onPath host.cwd (Path.parse text) fun target files => files.removeFile target)).attempt with
  | .ok () => pure ()
  | .error (.io .notFound) => throw (.notFound key)
  | .error error => throw error

def head (key : String) : BlobCall Disk BlobMeta := do
  let text ← Fallible.ofExcept (store.resolve key)
  match ← (io (metadata host (Path.parse text))).attempt with
  | .ok len => pure (.new key len)
  | .error (.io .notFound) => throw (.notFound key)
  | .error error => throw error

/-! ### Listings -/

def keyOf (path : Location) : String := String.ofList (['/'].intercalate path.reverse)

def collectEntries (files : Disk) (base : Target) (start : String) :
    ℕ → Location → Except IoError (List String)
  | 0, _ => .ok []
  | fuel + 1, dir =>
      match files.readDir ⟨dir ++ base.location, base.dirForm⟩ with
      | .error .notFound => .ok []
      | .error error => .error error
      | .ok entries => do
          let found ← entries.mapM fun
            | (name, .dir) => collectEntries files base start fuel (name :: dir)
            | (name, .file _) =>
                if extension name = some tmp then .ok []
                else if startsWith start (keyOf (name :: dir)) then .ok [keyOf (name :: dir)]
                else .ok []
          pure found.flatten

def sortedKeys (start : String) (files : Disk) : Except IoError (List String) :=
  match target host.cwd (Path.parse store.base) with
  | .error .notFound => .ok []
  | .error error => .error error
  | .ok base =>
      (collectEntries files base start (files.depth + 1) []).map (List.insertionSort (· ≤ ·))

def list (start : String) : BlobCall Disk (List String) :=
  io fun files => (store.sortedKeys host start files, files)

def metaOf (files : Disk) (key : String) : Except IoError (Option BlobMeta) :=
  match (metadata host (Path.parse (join store.base key.toList)) files).1 with
  | .ok len => .ok (some (.new key len))
  | .error .notFound => .ok none
  | .error error => .error error

def listMeta (start : String) : BlobCall Disk (List BlobMeta) := io fun files =>
  (do
    let keys ← store.sortedKeys host start files
    let metas ← keys.mapM (store.metaOf host files)
    pure metas.reduceOption, files)

def pageLoop (files : Disk) (startAfter : Option String) (limit : ℕ) :
    List String → List BlobMeta → Except IoError (List BlobMeta)
  | [], metas => .ok metas
  | key :: keys, metas =>
      if startAfter.any (key ≤ ·) then pageLoop files startAfter limit keys metas
      else if metas.length ≥ limit then .ok metas
      else
        match store.metaOf host files key with
        | .ok (some entry) => pageLoop files startAfter limit keys (metas ++ [entry])
        | .ok none => pageLoop files startAfter limit keys metas
        | .error error => .error error

def listMetaPage (start : String) (startAfter : Option String) (limit : ℕ) :
    BlobCall Disk (List BlobMeta) := io fun files =>
  (do
    let keys ← store.sortedKeys host start files
    store.pageLoop host files startAfter limit keys [], files)

/-! ### Cleanup -/

def cleanupTmpFiles (base : Target) : ℕ → Location → Disk → Except IoError ℕ × Disk
  | 0, _, files => (.ok 0, files)
  | fuel + 1, dir, files =>
      match files.readDir ⟨dir ++ base.location, base.dirForm⟩ with
      | .error .notFound => (.ok 0, files)
      | .error error => (.error error, files)
      | .ok entries =>
          let swept := entries.foldl (fun (count, files) entry =>
            match entry with
            | (name, .dir) =>
                let (result, files') := cleanupTmpFiles base fuel (name :: dir) files
                (count + result.toOption.getD 0, files')
            | (name, .file _) =>
                if extension name = some tmp then
                  match files.removeFile ⟨name :: dir ++ base.location, false⟩ with
                  | (.ok (), files') => (count + 1, files')
                  | (.error _, _) => (count, files)
                else (count, files)) (0, files)
          (.ok swept.1, swept.2)

def cleanupTempFiles : Fallible IoError Disk ℕ := .atomic fun files =>
  match target host.cwd (Path.parse store.base) with
  | .error .notFound => (.ok 0, files)
  | .error error => (.error error, files)
  | .ok base => cleanupTmpFiles base (files.depth + 1) [] files

end LocalBlobStore

def LocalBlobStore.backend (store : LocalBlobStore) (host : Host) (sha2 : Sha2) : BlobStore Disk where
  put := store.put host
  get := store.get host sha2
  delete := store.delete host
  head := store.head host
  list := store.list host
  listMeta := store.listMeta host
  listMetaPage := store.listMetaPage host

/-! ### Containment -/

def StrictlyInside (cwd : Location) (base path : List Char) : Prop :=
  ∃ names, names ≠ [] ∧ locate cwd (components path) = names ++ locate cwd (components base)

theorem resolve_ok {store : LocalBlobStore} {key : String} {path : List Char}
    (resolved : store.resolve key = .ok path) :
    .parentDir ∉ components key.toList ∧ path = join store.base key.toList := by
  unfold LocalBlobStore.resolve LocalBlobStore.validateKey at resolved
  split_ifs at resolved with empty dots
  cases resolved
  exact ⟨dots, rfl⟩

/-- **Which accepted keys stay inside**: the relative ones that name something, and of the absolute ones
those that lead back into the base directory. -/
theorem inside_base_iff (store : LocalBlobStore) (cwd : Location) {key : String} {path : List Char}
    (resolved : store.resolve key = .ok path) :
    StrictlyInside cwd store.base path ↔
      (hasRoot key.toList = false ∧ names (components key.toList) ≠ []) ∨
        (hasRoot key.toList = true ∧ ∃ below, below ≠ [] ∧
          (names (components key.toList)).reverse = below ++ locate cwd (components store.base)) := by
  obtain ⟨noParent, rfl⟩ := resolve_ok resolved
  unfold StrictlyInside
  by_cases rooted : hasRoot key.toList = true
  · have replaced : join store.base key.toList = key.toList := by rw [join, if_pos rooted]
    rw [replaced, locate_of_root cwd rooted noParent]
    simp [rooted]
  · have relative : hasRoot key.toList = false := Bool.eq_false_iff.mpr rooted
    rw [locate_join relative cwd noParent]
    constructor
    · rintro ⟨below, some, same⟩
      refine .inl ⟨relative, fun none => some ?_⟩
      rw [none] at same
      exact List.append_cancel_right same.symm
    · rintro (⟨-, some⟩ | ⟨absolute, -⟩)
      · exact ⟨_, by simpa using some, rfl⟩
      · exact absurd absolute rooted

def LocalBlobStore.atRoot : Host := ⟨[], 4096⟩

def LocalBlobStore.underData : LocalBlobStore := .new "/data".toList

theorem relative_key_inside : StrictlyInside [] "/data".toList "/data/a/b".toList :=
  (inside_base_iff .underData []
    (show LocalBlobStore.underData.resolve "a/b" = .ok "/data/a/b".toList by decide +kernel)).mpr
    (.inl ⟨by decide +kernel, by decide +kernel⟩)

theorem absolute_key_outside :
    LocalBlobStore.underData.resolve "/etc/passwd" = .ok "/etc/passwd".toList ∧
      ¬ StrictlyInside [] "/data".toList "/etc/passwd".toList := by
  refine ⟨by decide +kernel, ?_⟩
  rintro ⟨names, -, same⟩
  have path : locate [] (components "/etc/passwd".toList) = ["passwd".toList, "etc".toList] := by
    decide +kernel
  have base : locate [] (components "/data".toList) = ["data".toList] := by decide +kernel
  rw [path, base] at same
  have last : "etc".toList = "data".toList := by
    simpa using congrArg List.getLast? same
  revert last
  decide +kernel

/-! ### Keys that name files -/

namespace LocalBlobStore

def tmpName (name : Name) : Name := withNameExtension name tmp

theorem tmpName_tmpName {name : Name} (nonempty : name ≠ []) : tmpName (tmpName name) = tmpName name :=
  withNameExtension_twice nonempty (by decide) (by decide)

/-- **The key names the file `name` in the directory of `front`**: its path is accepted by the store and
by the system, and does not end like that of a directory. -/
structure NamesFile (store : LocalBlobStore) (key : String) (front : List Component) (name : Name) :
    Prop where
  text : ∃ text, store.resolve key = .ok text ∧ components text = front ++ [.normal name] ∧
    endsAsDir text = false
  noNul : ∀ part ∈ names front ++ [name], Char.ofNat 0 ∉ part

theorem target_eq {cwd : Location} {path : Path}
    (noNul : ∀ part ∈ names path.components, Char.ofNat 0 ∉ part) (nonempty : path.components ≠ []) :
    target cwd path = .ok ⟨locate cwd path.components, path.dirForm⟩ := by
  unfold target
  rw [if_neg (by simpa using noNul), if_neg nonempty]

variable {store : LocalBlobStore} {host : Host} {key : String} {front : List Component} {name : Name}

namespace NamesFile

variable (named : NamesFile store key front name)

include named

theorem name_ne_nil : name ≠ [] := by
  obtain ⟨text, -, same, -⟩ := named.text
  have member : .normal name ∈ components text := by
    rw [same]
    exact List.mem_append_right _ (List.mem_singleton_self _)
  exact ne_nil_of_normal member

theorem target_concat (cwd : Location) {last : Name} (noNul : Char.ofNat 0 ∉ last) :
    target cwd ⟨front ++ [.normal last], false⟩ = .ok ⟨last :: locate cwd front, false⟩ := by
  rw [target_eq, locate_concat]
  · intro part member
    rw [names_concat, List.mem_append, List.mem_singleton] at member
    rcases member with inner | rfl
    · exact named.noNul part (List.mem_append_left _ inner)
    · exact noNul
  · simp

theorem nul_not_mem_tmpName : Char.ofNat 0 ∉ tmpName name := by
  intro member
  rcases mem_withNameExtension member with inName | dot | inExt
  · exact named.noNul name (List.mem_append_right _ (List.mem_singleton_self _)) inName
  · exact absurd dot (by decide)
  · exact absurd inExt (by decide)

theorem createDirAll_front (disk : Disk) :
    createDirAll host ⟨front, false⟩ disk =
      if front = [] then (.ok (), disk) else disk.createDirAll (locate host.cwd front) := by
  unfold createDirAll
  split_ifs with top
  · rfl
  · rw [onPath, target_eq (fun part member => named.noNul part (List.mem_append_left _ member)) top]

theorem resolved (host : Host) : ∃ text, store.resolve key = .ok text ∧
    Path.parse text = ⟨front ++ [.normal name], false⟩ ∧
    target host.cwd (Path.parse text) = .ok ⟨name :: locate host.cwd front, false⟩ := by
  obtain ⟨text, resolved, same, form⟩ := named.text
  have path : Path.parse text = ⟨front ++ [.normal name], false⟩ := by rw [Path.parse, same, form]
  have noNul := named.noNul name (List.mem_append_right _ (List.mem_singleton_self _))
  exact ⟨text, resolved, path, by rw [path, named.target_concat host.cwd noNul]⟩

theorem put_eq (data : Bytes) :
    store.put host key data = (do
      io (createDirAll host ⟨front, false⟩)
      io fun disk => disk.write ⟨tmpName name :: locate host.cwd front, false⟩ data
      io fun disk => disk.rename ⟨tmpName name :: locate host.cwd front, false⟩
        ⟨name :: locate host.cwd front, false⟩) := by
  obtain ⟨text, resolved, path, place⟩ := named.resolved host
  unfold put
  rw [resolved]
  show (do
    match (Path.parse text).parent with
      | some parent => io (createDirAll host parent)
      | none => pure ()
    io (onPath host.cwd ((Path.parse text).withExtension tmp) fun target disk => disk.write target data)
    io (onPath host.cwd ((Path.parse text).withExtension tmp) fun source =>
      onPath host.cwd (Path.parse text) fun destination disk => disk.rename source destination) :
      BlobCall Disk Unit) = _
  unfold onPath
  rw [place, path, Path.parent_of_components rfl, Path.withExtension_of_components rfl, ← tmpName,
    named.target_concat host.cwd named.nul_not_mem_tmpName]

variable {disk : Disk} {data : Bytes}

theorem exec_put (data : Bytes) (below : front ≠ [])
    (noFile : ∀ way content, way <:+ locate host.cwd front → disk.node way ≠ some (.file content))
    (tmpFree : disk.node (tmpName name :: locate host.cwd front) ≠ some .dir)
    (blobFree : disk.node (name :: locate host.cwd front) ≠ some .dir) :
    ∃ disk' : Disk, (store.put host key data).exec disk = (.ok (), disk') ∧
      ∀ location, disk'.node location =
        if location = name :: locate host.cwd front then some (.file data)
        else if location = tmpName name :: locate host.cwd front then none
        else if location <:+ locate host.cwd front then some .dir else disk.node location := by
  have outside : ∀ last, ¬ last :: locate host.cwd front <:+ locate host.cwd front := fun last on =>
    absurd on.length_le (by simp)
  obtain ⟨made, makes, nodes⟩ := Files.createDirAll_ok noFile
  have inside : made.node (locate host.cwd front) = some .dir := by
    rw [nodes, if_pos (List.suffix_refl _)]
  obtain ⟨written, writes, nodes'⟩ := Files.write_ok inside
    (by rw [nodes, if_neg (outside _)]; exact tmpFree)
  have own : written.node (tmpName name :: locate host.cwd front) = some (.file data) := by
    rw [nodes', if_pos rfl]
  have free : written.node (name :: locate host.cwd front) ≠ some .dir := by
    rw [nodes']
    split_ifs with tmp
    · exact nofun
    · rw [nodes, if_neg (outside _)]
      exact blobFree
  obtain ⟨renamed, renames, nodes''⟩ := Files.rename_ok own
    (Files.node_parent (by rw [own]; exact nofun)) free
  refine ⟨renamed, ?_, fun location => ?_⟩
  · have creates : createDirAll host ⟨front, false⟩ disk = (.ok (), made) := by
      rw [named.createDirAll_front, if_neg below, makes]
    rw [named.put_eq, exec_io_bind creates, exec_io_bind writes, exec_io, renames]
    rfl
  · rw [nodes'']
    split_ifs with blob tmp dir
    · rfl
    · rfl
    · rw [nodes', if_neg tmp, nodes, if_pos dir]
    · rw [nodes', if_neg tmp, nodes, if_neg dir]

theorem exec_get_file (sha2 : Sha2)
    (file : disk.node (name :: locate host.cwd front) = some (.file data))
    (fits : store.verifyChecksum = true → looksLikeDigest key = true → (sha256 sha2 data).toHex = key) :
    (store.get host sha2 key).exec disk = (.ok data, disk) := by
  obtain ⟨text, resolved, -, place⟩ := named.resolved host
  have good : ¬ (store.verifyChecksum ∧ looksLikeDigest key ∧ (sha256 sha2 data).toHex ≠ key) :=
    fun bad => bad.2.2 (fits bad.1 bad.2.1)
  have read : disk.read ⟨name :: locate host.cwd front, false⟩ = .ok data := by
    rw [Files.read, Files.lookUp_of_file file]
  unfold get
  rw [resolved, exec_bind_ok (exec_ofExcept (.ok text) disk)]
  simp only [exec_attempt_bind, exec_io, onPath, place, read, Except.mapError, if_neg good,
    exec_pure]

variable (missing : disk.lookUp ⟨name :: locate host.cwd front, false⟩ = .error .notFound)

include missing in
theorem exec_get_missing (sha2 : Sha2) :
    (store.get host sha2 key).exec disk = (.error (.notFound (String.ofList name)), disk) := by
  obtain ⟨text, resolved, path, place⟩ := named.resolved host
  have read : disk.read ⟨name :: locate host.cwd front, false⟩ = .error .notFound := by
    rw [Files.read, missing]
  have unnamed : keyFromPath (Path.parse text) = String.ofList name := by
    simp [keyFromPath, Path.fileName, path]
  unfold get
  rw [resolved, exec_bind_ok (exec_ofExcept (.ok text) disk)]
  simp only [exec_attempt_bind, exec_io, onPath, place, read, Except.mapError, unnamed,
    exec_throw]

theorem exec_delete_file {disk' : Disk}
    (removes : disk.removeFile ⟨name :: locate host.cwd front, false⟩ = (.ok (), disk')) :
    (store.delete host key).exec disk = (.ok (), disk') := by
  obtain ⟨text, resolved, -, place⟩ := named.resolved host
  unfold delete
  rw [resolved, exec_bind_ok (exec_ofExcept (.ok text) disk)]
  simp only [exec_attempt_bind, exec_io, onPath, place, removes, Except.mapError,
    exec_pure]

include missing in
theorem exec_delete_missing :
    (store.delete host key).exec disk = (.error (.notFound key), disk) := by
  obtain ⟨text, resolved, -, place⟩ := named.resolved host
  have fails := Files.removeFile_missing missing
  unfold delete
  rw [resolved, exec_bind_ok (exec_ofExcept (.ok text) disk)]
  simp only [exec_attempt_bind, exec_io, onPath, place, fails, Except.mapError,
    exec_throw]

theorem exec_head_file (file : disk.node (name :: locate host.cwd front) = some (.file data)) :
    (store.head host key).exec disk = (.ok (BlobMeta.ofBlob key data), disk) := by
  obtain ⟨text, resolved, -, place⟩ := named.resolved host
  unfold head metadata
  rw [resolved, exec_bind_ok (exec_ofExcept (.ok text) disk)]
  simp only [exec_attempt_bind, exec_io, onPath, place, Files.lookUp_of_file file,
    Except.map, Except.mapError, exec_pure, BlobMeta.ofBlob]

include missing in
theorem exec_head_missing :
    (store.head host key).exec disk = (.error (.notFound key), disk) := by
  obtain ⟨text, resolved, -, place⟩ := named.resolved host
  unfold head metadata
  rw [resolved, exec_bind_ok (exec_ofExcept (.ok text) disk)]
  simp only [exec_attempt_bind, exec_io, onPath, place, missing,
    Except.map, Except.mapError, exec_throw]

end NamesFile

end LocalBlobStore

end OxiStore
