/-
**`LocalBlobStore` beside `MemoryBlobStore`.**
-/

import OxiStore.Lib.Lockstep
import OxiStore.Blob.LocalWalk
import OxiStore.Blob.Cas

namespace OxiStore

open ByteString OrdTable StepProg UnixPath FileTree List

/-! ### Operations -/

inductive BlobOp where
  | put (key : String) (data : Bytes)
  | get (key : String)
  | delete (key : String)
  | head (key : String)
  | existsKey (key : String)
  | list (start : String)
  | listMeta (start : String)
  | cleanup

inductive BlobAnswer where
  | done (result : Except BlobError Unit)
  | data (result : Except BlobError Bytes)
  | entry (result : Except BlobError BlobMeta)
  | present (result : Except BlobError Bool)
  | keys (result : Except BlobError (List String))
  | entries (result : Except BlobError (List BlobMeta))
  | swept
deriving DecidableEq

def BlobOp.step {S : Type} (store : BlobStore S) (cleanup : S → S) (s : S) : BlobOp → BlobAnswer × S
  | .put key data => ((store.put key data).exec s).map .done id
  | .get key => ((store.get key).exec s).map .data id
  | .delete key => ((store.delete key).exec s).map .done id
  | .head key => ((store.head key).exec s).map .entry id
  | .existsKey key => ((store.existsKey key).exec s).map .present id
  | .list start => ((store.list start).exec s).map .keys id
  | .listMeta start => ((store.listMeta start).exec s).map .entries id
  | .cleanup => (.swept, cleanup s)

namespace LocalBlobStore

def opStep (store : LocalBlobStore) (host : Host) (sha2 : Sha2) : Disk → BlobOp → BlobAnswer × Disk :=
  BlobOp.step (store.backend host sha2) fun disk => ((store.cleanupTempFiles host).exec disk).2

/-! ### Keys and their paths -/

def pathOf (key : String) : Location := (segments key.toList).reverse

/-- **A key that its path gives back**: names between single slashes, none of them empty or of dots only,
and no zero character. -/
def Plain (key : String) : Prop :=
  ∀ segment ∈ segments key.toList, component segment = some (.normal segment) ∧ Char.ofNat 0 ∉ segment

instance (key : String) : Decidable (Plain key) := inferInstanceAs (Decidable (∀ _ ∈ _, _))

def tmpPath : Location → Location
  | [] => []
  | name :: parent => tmpName name :: parent

/-- **Keys that can be stored together**: plain, none a path prefix of another, and no temporary file in
the place of a blob or of a directory. -/
structure Compatible (keys : String → Prop) : Prop where
  plain : ∀ key, keys key → Plain key
  prefixFree : ∀ key other, keys key → keys other → key ≠ other → ¬ pathOf key <:+ pathOf other
  tmpFree : ∀ key other, keys key → keys other → ¬ tmpPath (pathOf key) <:+ pathOf other

@[simp] theorem keyOf_pathOf (key : String) : keyOf (pathOf key) = key := by
  rw [keyOf, pathOf, reverse_reverse, segments, intercalate_splitOn, String.ofList_toList]

theorem pathOf_injective : Function.Injective pathOf := fun key other same => by
  rw [← keyOf_pathOf key, same, keyOf_pathOf]

theorem pathOf_ne_nil (key : String) : pathOf key ≠ [] := by
  simpa [pathOf] using segments_ne_nil key.toList

section

variable {store : LocalBlobStore} {host : Host} {key : String}

theorem Plain.filterMap (plain : Plain key) :
    (segments key.toList).filterMap component = (segments key.toList).map .normal := by
  rw [← filterMap_eq_map]
  exact filterMap_congr fun segment member => (plain segment member).1

theorem Plain.relative (plain : Plain key) : hasRoot key.toList = false := by
  by_contra rooted
  have empty := plain [] (nil_mem_segments (by simpa using rooted))
  cases empty.1

theorem Plain.endsAsName (plain : Plain key) : endsAsDir key.toList = false := by
  have last := getLast?_eq_getLast_of_ne_nil (segments_ne_nil key.toList)
  have named := (plain _ (getLast_mem (segments_ne_nil key.toList))).1
  unfold endsAsDir
  rw [last]
  by_contra dir
  simp only [decide_eq_true_eq, Option.some.injEq, Bool.not_eq_false] at dir
  rcases dir with empty | dot
  · rw [empty] at named
    cases named
  · rw [dot] at named
    cases named

theorem Plain.resolve (plain : Plain key) (store : LocalBlobStore) :
    store.resolve key = .ok (join store.base key.toList) := by
  have nonempty : key ≠ "" := by
    rintro rfl
    have empty := plain [] (by decide)
    cases empty.1
  have noParent : .parentDir ∉ components key.toList := by
    unfold components leading
    rw [plain.filterMap, plain.relative, if_neg Bool.false_ne_true]
    split_ifs with dotted
    all_goals simp
  rw [LocalBlobStore.resolve, validateKey, if_neg nonempty, if_neg noParent]

structure Usable (store : LocalBlobStore) : Prop where
  nonempty : store.base ≠ []
  noNul : ∀ part ∈ names (components store.base), Char.ofNat 0 ∉ part

theorem names_map_normal (parts : List Name) : names (parts.map .normal) = parts := by
  simp [names, filterMap_map]

theorem Plain.namesFile (plain : Plain key) (usable : Usable store) {name : Name} {parent : Location}
    (path : pathOf key = name :: parent) :
    NamesFile store key (components store.base ++ parent.reverse.map .normal) name := by
  have cut : segments key.toList = parent.reverse ++ [name] := by
    rw [← reverse_reverse (segments key.toList), ← pathOf, path, reverse_cons]
  refine ⟨⟨_, plain.resolve store, ?_, ?_⟩, fun part member => ?_⟩
  · rw [components_join plain.relative usable.nonempty, plain.filterMap, cut, map_append,
      append_assoc]
    rfl
  · rw [endsAsDir_join plain.relative usable.nonempty, plain.endsAsName]
  · rw [names, filterMap_append, ← names, ← names, names_map_normal, append_assoc] at member
    rcases mem_append.mp member with inBase | inKey
    · exact usable.noNul part inBase
    · exact (plain part (cut ▸ inKey)).2

theorem locate_front (cwd : Location) (store : LocalBlobStore) (parent : Location) :
    locate cwd (components store.base ++ parent.reverse.map .normal) =
      parent ++ locate cwd (components store.base) := by
  rw [locate_append, locate_of_descending _ (by simp) (by simp), names_map_normal, reverse_reverse]

end

theorem Compatible.not_isTmp {keys : String → Prop} (compatible : Compatible keys) {key : String}
    (fits : keys key) : ¬ IsTmp (pathOf key) := by
  intro temporary
  obtain ⟨name, parent, path⟩ := exists_cons_of_ne_nil (pathOf_ne_nil key)
  refine compatible.tmpFree key key fits fits ?_
  rw [path] at temporary ⊢
  rw [tmpPath, tmpName, withNameExtension_of_extension temporary (by decide)]

/-! ### The files as a map -/

/-- **The files under the base are the blobs of the map**, and the directories are those on the way to
keys. -/
structure Mirrors (keys : String → Prop) (base : Location) (disk : Disk) (memory : MemoryState) : Prop where
  unbounded : memory.capacityBytes = none
  ways : ∀ way data, way <:+ base → disk.node way ≠ some (.file data)
  held : ∀ key data, memory.map[key]? = some data →
    keys key ∧ disk.node (pathOf key ++ base) = some (.file data)
  only : ∀ path data, disk.node (path ++ base) = some (.file data) →
    ∃ key, pathOf key = path ∧ memory.map[key]? = some data
  dirs : ∀ path, path ≠ [] → disk.node (path ++ base) = some .dir →
    ∃ key, keys key ∧ path <:+ pathOf key ∧ path ≠ pathOf key

theorem suffix_append_cases {way path base : Location} (on : way <:+ path ++ base) :
    way <:+ base ∨ ∃ rest, way = rest ++ base ∧ rest <:+ path := by
  rcases suffix_or_suffix_of_suffix on (suffix_append path base) with above | ⟨rest, rfl⟩
  · exact .inl above
  · exact .inr ⟨rest, rfl, suffix_append_self_iff.mp on⟩

namespace Mirrors

variable {keys : String → Prop} {base : Location} {disk : Disk} {memory : MemoryState} {key : String}
  (mirrors : Mirrors keys base disk memory) (compatible : Compatible keys)

include mirrors

theorem node_of_present {data : Bytes} (present : memory.map[key]? = some data) :
    disk.node (pathOf key ++ base) = some (.file data) := (mirrors.held key data present).2

include compatible

variable (fits : keys key)

include fits

theorem not_dir : disk.node (pathOf key ++ base) ≠ some .dir := by
  intro dir
  obtain ⟨other, known, on, different⟩ := mirrors.dirs _ (pathOf_ne_nil key) dir
  exact compatible.prefixFree key other fits known (fun same => different (by rw [same])) on

theorem node_of_absent (absent : memory.map[key]? = none) :
    disk.node (pathOf key ++ base) = none := by
  cases there : disk.node (pathOf key ++ base) with
  | none => rfl
  | some node =>
    cases node with
    | dir => exact absurd there (mirrors.not_dir compatible fits)
    | file data =>
      obtain ⟨other, same, present⟩ := mirrors.only _ _ there
      simp [pathOf_injective same, absent] at present

theorem no_file_above {way : Location} {data : Bytes} (on : way <:+ pathOf key ++ base)
    (above : way ≠ pathOf key ++ base) : disk.node way ≠ some (.file data) := by
  intro file
  rcases suffix_append_cases on with outside | ⟨rest, rfl, inner⟩
  · exact mirrors.ways way data outside file
  · obtain ⟨other, rfl, present⟩ := mirrors.only _ _ file
    have known := (mirrors.held other data present).1
    exact compatible.prefixFree other key known fits (fun same => above (by rw [same])) inner

theorem tmp_absent : disk.node (tmpPath (pathOf key) ++ base) = none := by
  cases there : disk.node (tmpPath (pathOf key) ++ base) with
  | none => rfl
  | some node =>
    exfalso
    cases node with
    | file data =>
      obtain ⟨other, same, present⟩ := mirrors.only _ _ there
      refine compatible.tmpFree key other fits (mirrors.held other data present).1 ?_
      rw [same]
    | dir =>
      have nonempty : tmpPath (pathOf key) ≠ [] := by
        obtain ⟨name, parent, path⟩ := exists_cons_of_ne_nil (pathOf_ne_nil key)
        rw [path]
        exact cons_ne_nil _ _
      obtain ⟨other, known, on, -⟩ := mirrors.dirs _ nonempty there
      exact compatible.tmpFree key other fits known on

theorem lookUp_of_absent (absent : memory.map[key]? = none) :
    disk.lookUp ⟨pathOf key ++ base, false⟩ = .error .notFound := by
  have missing := mirrors.node_of_absent compatible fits absent
  refine Files.lookUp_of_missing missing (fun way data on file => ?_) false
  refine mirrors.no_file_above compatible fits on ?_ file
  rintro rfl
  simp [missing] at file

theorem stored {name : Name} {parent : Location} (path : pathOf key = name :: parent) {data : Bytes}
    {disk' : Disk}
    (nodes : ∀ location, disk'.node location = if location = name :: (parent ++ base) then some (.file data) else if location = tmpName name :: (parent ++ base) then none else if location <:+ parent ++ base then some .dir else disk.node location) :
    Mirrors keys base disk' (Memory.stored memory key data) := by
  have own : name :: (parent ++ base) = pathOf key ++ base := by rw [path, cons_append]
  have tmp : tmpName name :: (parent ++ base) = tmpPath (pathOf key) ++ base := by rw [path]; rfl
  have absent := mirrors.tmp_absent compatible fits
  -- The temporary file was not there before and is not there now.
  have nodes' : ∀ location, disk'.node location = if location = pathOf key ++ base then some (.file data)
      else if location <:+ parent ++ base then some .dir else disk.node location := by
    intro location
    rw [nodes, own, tmp]
    split_ifs with blob temporary inner
    · rfl
    · rw [← tmp] at temporary
      exact absurd (temporary ▸ inner).length_le (by simp)
    · rw [temporary, absent]
    · rfl
    · rfl
  have inner : ∀ rest, rest ++ base <:+ parent ++ base → rest <:+ pathOf key ∧ rest ≠ pathOf key := by
    intro rest on
    have within := suffix_append_self_iff.mp on
    refine ⟨path ▸ within.trans (suffix_cons name parent), ?_⟩
    rintro rfl
    rw [path] at within
    exact absurd within.length_le (by simp)
  have long : ∀ location, location <:+ base → location ≠ pathOf key ++ base := by
    rintro location on rfl
    have short := on.length_le
    rw [length_append] at short
    exact pathOf_ne_nil key (length_eq_zero_iff.mp (by omega))
  have lookup : ∀ other, (Memory.stored memory key data).map[other]? =
      if key = other then some data else memory.map[other]? := fun other => get_insert ..
  refine ⟨mirrors.unbounded, fun way content on => ?_, fun other content present => ?_,
    fun place content file => ?_, fun place nonempty dir => ?_⟩
  · rw [nodes', if_neg (long way on)]
    split_ifs with made
    · exact nofun
    · exact mirrors.ways way content on
  · rw [lookup] at present
    split_ifs at present with same
    · cases present
      subst same
      exact ⟨fits, by rw [nodes', if_pos rfl]⟩
    · obtain ⟨known, file⟩ := mirrors.held other content present
      refine ⟨known, ?_⟩
      rw [nodes', if_neg fun equal => same (pathOf_injective (append_cancel_right equal)).symm, if_neg, file]
      intro on
      exact compatible.prefixFree other key known fits (fun equal => same equal.symm) (inner _ on).1
  · rw [nodes'] at file
    split_ifs at file with blob made
    · cases file
      exact ⟨key, (append_cancel_right blob).symm, by rw [lookup, if_pos rfl]⟩
    · cases file
    · obtain ⟨other, same, present⟩ := mirrors.only place content file
      refine ⟨other, same, ?_⟩
      rw [lookup, if_neg, present]
      rintro rfl
      exact blob (by rw [same])
  · rw [nodes'] at dir
    split_ifs at dir with blob made
    · cases dir
    · obtain ⟨within, proper⟩ := inner place made
      exact ⟨key, fits, within, proper⟩
    · exact mirrors.dirs place nonempty dir

omit fits

omit compatible in
theorem removed {disk' : Disk} {used : UInt64}
    (nodes : ∀ location, disk'.node location =
      if location = pathOf key ++ base then none else disk.node location) :
    Mirrors keys base disk' { memory with map := memory.map.erase key, usedBytes := used } := by
  have lookup : ∀ other, (memory.map.erase key)[other]? = if key = other then none else memory.map[other]? :=
    fun other => get_erase ..
  refine ⟨mirrors.unbounded, fun way content on => ?_, fun other content present => ?_,
    fun place content file => ?_, fun place nonempty dir => ?_⟩
  · rw [nodes]
    split_ifs with blob
    · exact nofun
    · exact mirrors.ways way content on
  · rw [lookup] at present
    split_ifs at present with same
    obtain ⟨known, file⟩ := mirrors.held other content present
    refine ⟨known, ?_⟩
    rw [nodes, if_neg fun equal => same (pathOf_injective (append_cancel_right equal)).symm, file]
  · rw [nodes] at file
    split_ifs at file with blob
    obtain ⟨other, same, present⟩ := mirrors.only place content file
    refine ⟨other, same, ?_⟩
    rw [lookup, if_neg, present]
    rintro rfl
    exact blob (by rw [same])
  · rw [nodes] at dir
    split_ifs at dir with blob
    exact mirrors.dirs place nonempty dir

/-! ### Listings -/

theorem file_not_isTmp (path : Location) (data : Bytes)
    (file : disk.node (path ++ base) = some (.file data)) : ¬ IsTmp path := by
  obtain ⟨key, rfl, present⟩ := mirrors.only path data file
  exact compatible.not_isTmp (mirrors.held key data present).1

omit compatible in
theorem mem_filePaths_iff {path : Location} :
    path ∈ filePaths disk base (disk.depth + 1) [] ↔ ∃ key, key ∈ memory.map.keys ∧ pathOf key = path := by
  rw [mem_filePaths]
  constructor
  · rintro ⟨below, data, -, -, -, file⟩
    obtain ⟨key, same, present⟩ := mirrors.only path data file
    exact ⟨key, (mem_keys_iff ..).mpr (by rw [present]; exact nofun), same⟩
  · rintro ⟨key, member, rfl⟩
    obtain ⟨data, present⟩ := Option.ne_none_iff_exists'.mp ((mem_keys_iff ..).mp member)
    have file := mirrors.node_of_present present
    have short := disk.length_le_depth (by rw [file]; exact nofun)
    rw [length_append] at short
    exact ⟨pathOf key, data, pathOf_ne_nil key, by omega, (append_nil _).symm, file⟩

theorem perm_keys (start : String) :
    ((((filePaths disk base (disk.depth + 1) []).filter fun path => ¬ IsTmp path).map keyOf).filter
      (startsWith start)).Perm (memory.map.keys.filter (startsWith start)) := by
  refine List.Perm.filter _ ((perm_ext_iff_of_nodup ?_ ?_).mpr fun key => ?_)
  · refine List.Nodup.map_on ?_ ((nodup_filePaths disk base _ _).filter _)
    intro path member other member' same
    obtain ⟨key, -, rfl⟩ := mirrors.mem_filePaths_iff.mp (mem_filter.mp member).1
    obtain ⟨key', -, rfl⟩ := mirrors.mem_filePaths_iff.mp (mem_filter.mp member').1
    rw [keyOf_pathOf, keyOf_pathOf] at same
    rw [same]
  · exact Std.ExtTreeMap.nodup_keys
  · rw [mem_map]
    constructor
    · rintro ⟨path, member, rfl⟩
      obtain ⟨key, known, rfl⟩ := mirrors.mem_filePaths_iff.mp (mem_filter.mp member).1
      rwa [keyOf_pathOf]
    · intro member
      refine ⟨pathOf key, mem_filter.mpr ⟨?_, ?_⟩, keyOf_pathOf key⟩
      · exact mirrors.mem_filePaths_iff.mpr ⟨key, member, rfl⟩
      · obtain ⟨data, present⟩ := Option.ne_none_iff_exists'.mp ((mem_keys_iff ..).mp member)
        simpa using compatible.not_isTmp (mirrors.held key data present).1

end Mirrors


/-! ### Step by step -/

def GetFits (store : LocalBlobStore) (sha2 : Sha2) (memory : MemoryState) (key : String) : Prop :=
  match memory.map[key]? with
  | none => (segments key.toList).length = 1
  | some data =>
      store.verifyChecksum = true → looksLikeDigest key = true → (sha256 sha2 data).toHex = key

def Allowed (store : LocalBlobStore) (sha2 : Sha2) (keys : String → Prop) (memory : MemoryState) :
    BlobOp → Prop
  | .put key _ => keys key
  | .get key => keys key ∧ GetFits store sha2 memory key
  | .delete key => keys key
  | .head key => keys key
  | .existsKey key => keys key
  | .list _ => True
  | .listMeta _ => True
  | .cleanup => True

section

variable {keys : String → Prop} {store : LocalBlobStore} {host : Host} {disk : Disk}
  {memory : MemoryState} {key : String}
  (mirrors : Mirrors keys (locate host.cwd (components store.base)) disk memory)
  (compatible : Compatible keys) (usable : Usable store)

include mirrors compatible usable

theorem sortedKeys_eq (start : String) :
    store.sortedKeys host start disk = .ok (memory.map.keys.filter (startsWith start)) := by
  have place : target host.cwd (Path.parse store.base) =
      .ok ⟨locate host.cwd (components store.base), endsAsDir store.base⟩ := by
    exact target_eq usable.noNul (components_ne_nil usable.nonempty)
  rw [sortedKeys, place]
  dsimp only
  cases root : disk.node (locate host.cwd (components store.base)) with
  | none =>
    have empty : memory.map.keys = [] := by
      refine eq_nil_iff_forall_not_mem.mpr fun key member => ?_
      obtain ⟨data, present⟩ := Option.ne_none_iff_exists'.mp ((mem_keys_iff ..).mp member)
      have above := Files.node_of_suffix (mirrors.node_of_present present) (suffix_append _ _)
        (by simpa using pathOf_ne_nil key)
      simp [root] at above
    have missing : disk.readDir ⟨[] ++ locate host.cwd (components store.base), endsAsDir store.base⟩ =
        .error .notFound := by
      rw [Files.readDir, nil_append, Files.lookUp_of_missing root mirrors.ways]
    rw [collectEntries, missing, empty]
    rfl
  | some node =>
    cases node with
    | file data => exact absurd root (mirrors.ways _ data (suffix_refl _))
    | dir =>
      rw [collectEntries_eq disk start ⟨locate host.cwd (components store.base), _⟩ _ [] root]
      refine congrArg Except.ok (List.Perm.eq_of_pairwise (fun _ _ _ _ => le_antisymm)
        (pairwise_insertionSort (· ≤ ·) _) ?_
        ((perm_insertionSort _ _).trans (mirrors.perm_keys compatible start)))
      refine List.Pairwise.filter _ ?_
      exact (Std.ExtTreeMap.ordered_keys (t := memory.map)).imp fun less => (compare_lt_iff_lt.mp less).le

omit mirrors compatible in
theorem exists_namesFile (host : Host) (plain : Plain key) : ∃ front name parent,
    NamesFile store key front name ∧ front ≠ [] ∧ pathOf key = name :: parent ∧
    locate host.cwd front = parent ++ locate host.cwd (components store.base) ∧
    name :: locate host.cwd front = pathOf key ++ locate host.cwd (components store.base) := by
  obtain ⟨name, parent, path⟩ := exists_cons_of_ne_nil (pathOf_ne_nil key)
  have place := locate_front host.cwd store parent
  exact ⟨_, name, parent, plain.namesFile usable path,
    fun none => components_ne_nil usable.nonempty (append_eq_nil_iff.mp none).1, path, place,
    by rw [path, place, cons_append]⟩

theorem metaOf_present {data : Bytes} (present : memory.map[key]? = some data) :
    store.metaOf host disk key = .ok (some (BlobMeta.ofBlob key data)) := by
  have plain := compatible.plain key (mirrors.held key data present).1
  obtain ⟨front, name, parent, named, -, -, -, here⟩ := exists_namesFile usable host plain
  obtain ⟨text, resolved, -, place⟩ := named.resolved host
  rw [plain.resolve store] at resolved
  cases resolved
  unfold metaOf metadata onPath
  rw [place, here]
  simp only [Files.lookUp_of_file (mirrors.node_of_present present), Except.map, BlobMeta.ofBlob]

theorem exec_listMeta (start : String) :
    (store.listMeta host start).exec disk = (((Memory.listMeta start).exec memory).1, disk) := by
  have entries : memory.map.keys.filter (startsWith start) =
      (memory.map.toList.filter fun entry => startsWith start entry.1).map Prod.fst := by
    rw [← Std.ExtTreeMap.map_fst_toList_eq_keys, filter_map]
    rfl
  have found : ∀ entry ∈ memory.map.toList.filter (fun entry => startsWith start entry.1),
      store.metaOf host disk entry.1 = .ok (some (BlobMeta.ofBlob entry.1 entry.2)) := by
    intro entry member
    have listed := ((lists_toList memory.map).mem_iff entry.1 entry.2).mp (mem_filter.mp member).1
    exact metaOf_present mirrors compatible usable listed
  have metas := mapM_ok found
  rw [listMeta, exec_io]
  rw [sortedKeys_eq mirrors compatible usable, entries]
  show (Except.mapError BlobError.io (do
    let metas ← ((memory.map.toList.filter fun entry => startsWith start entry.1).map Prod.fst).mapM
      (store.metaOf host disk)
    pure metas.reduceOption), disk) = _
  rw [mapM_map, show store.metaOf host disk ∘ Prod.fst = fun entry : String × Bytes =>
    store.metaOf host disk entry.1 from rfl, metas]
  refine Prod.ext (congrArg Except.ok ?_) rfl
  simp [reduceOption, filterMap_map]

theorem exec_put_mirrors (fits : keys key) (data : Bytes) :
    ∃ disk' : Disk, (store.put host key data).exec disk = (.ok (), disk') ∧
      Mirrors keys (locate host.cwd (components store.base)) disk' (Memory.stored memory key data) := by
  obtain ⟨front, name, parent, named, below, path, place, here⟩ :=
    exists_namesFile usable host (compatible.plain key fits)
  have noFile : ∀ way content, way <:+ locate host.cwd front → disk.node way ≠ some (.file content) := by
    intro way content on
    refine mirrors.no_file_above compatible fits (here ▸ on.trans (suffix_cons _ _)) ?_
    rw [← here]
    rintro rfl
    exact absurd on.length_le (by simp)
  have tmpFree : disk.node (tmpName name :: locate host.cwd front) ≠ some .dir := by
    have absent := mirrors.tmp_absent compatible fits
    rw [path] at absent
    rw [place]
    exact fun dir => nomatch absent.symm.trans dir
  have blobFree : disk.node (name :: locate host.cwd front) ≠ some .dir := by
    rw [here]
    exact mirrors.not_dir compatible fits
  obtain ⟨disk', puts, nodes⟩ := named.exec_put data below noFile tmpFree blobFree
  rw [place] at nodes
  exact ⟨disk', puts, mirrors.stored compatible fits path nodes⟩

theorem exec_delete_mirrors (fits : keys key) :
    ∃ disk' : Disk, (store.delete host key).exec disk = (((Memory.delete key).exec memory).1, disk') ∧
      Mirrors keys (locate host.cwd (components store.base)) disk' ((Memory.delete key).exec memory).2 := by
  obtain ⟨front, name, parent, named, -, path, -, here⟩ :=
    exists_namesFile usable host (compatible.plain key fits)
  unfold Memory.delete
  cases found : memory.map[key]? with
  | some data =>
    have file := mirrors.node_of_present found
    rw [← here] at file
    obtain ⟨disk', removes, nodes⟩ := Files.removeFile_ok file
    rw [here] at nodes
    refine ⟨disk', ?_, ?_⟩
    · rw [named.exec_delete_file removes, Fallible.exec_atomic, found]
    · rw [Fallible.exec_atomic, found]
      exact mirrors.removed nodes
  | none =>
    have missing := mirrors.lookUp_of_absent compatible fits found
    rw [← here] at missing
    refine ⟨disk, ?_, ?_⟩
    · rw [named.exec_delete_missing missing, Fallible.exec_atomic, found]
    · rw [Fallible.exec_atomic, found]
      exact mirrors

theorem exec_head_eq (fits : keys key) :
    (store.head host key).exec disk = (Memory.lookUp key (BlobMeta.ofBlob key) memory, disk) := by
  obtain ⟨front, name, parent, named, -, path, -, here⟩ :=
    exists_namesFile usable host (compatible.plain key fits)
  unfold Memory.lookUp
  cases found : memory.map[key]? with
  | some data => exact named.exec_head_file (here ▸ mirrors.node_of_present found)
  | none => exact named.exec_head_missing (here ▸ mirrors.lookUp_of_absent compatible fits found)

theorem exec_get_eq (fits : keys key) (sha2 : Sha2) (fine : GetFits store sha2 memory key) :
    (store.get host sha2 key).exec disk = (Memory.lookUp key id memory, disk) := by
  obtain ⟨front, name, parent, named, -, path, -, here⟩ :=
    exists_namesFile usable host (compatible.plain key fits)
  unfold Memory.lookUp
  unfold GetFits at fine
  cases found : memory.map[key]? with
  | some data =>
    rw [found] at fine
    exact named.exec_get_file sha2 (here ▸ mirrors.node_of_present found) fine
  | none =>
    rw [found] at fine
    -- The error names the last name of the path only, which here is the key.
    have one : parent = [] := by
      have lengths := congrArg length path
      rw [pathOf, length_reverse, fine] at lengths
      exact length_eq_zero_iff.mp (by simpa using lengths.symm)
    have own : String.ofList name = key := by
      rw [← keyOf_pathOf key, path, one]
      simp [keyOf]
    rw [named.exec_get_missing (here ▸ mirrors.lookUp_of_absent compatible fits found) sha2, own]

theorem exec_cleanup : ((store.cleanupTempFiles host).exec disk).2 = disk := by
  unfold cleanupTempFiles
  rw [Fallible.exec_atomic]
  split
  · rfl
  · rfl
  · rename_i base place
    have located : base.location = locate host.cwd (components store.base) := by
      rw [show target host.cwd (Path.parse store.base) = _ from
        target_eq usable.noNul (components_ne_nil usable.nonempty)] at place
      cases place
      rfl
    exact cleanupTmpFiles_of_none disk base (located ▸ mirrors.file_not_isTmp compatible) _ _

theorem opStep_simulates (sha2 : Sha2) (op : BlobOp) (allowed : Allowed store sha2 keys memory op) :
    (store.opStep host sha2 disk op).1 = (BlobOp.step Memory.store id memory op).1 ∧
      Mirrors keys (locate host.cwd (components store.base)) (store.opStep host sha2 disk op).2
        (BlobOp.step Memory.store id memory op).2 := by
  unfold opStep
  cases op with
  | put key data =>
    obtain ⟨disk', puts, next⟩ := exec_put_mirrors mirrors compatible usable allowed data
    have stores : (Memory.put key data).exec memory = (.ok (), Memory.stored memory key data) := by
      rw [Memory.put, Fallible.exec_atomic, mirrors.unbounded]
    simp only [BlobOp.step, backend, Memory.store, puts, stores]
    exact ⟨rfl, next⟩
  | get key =>
    have reads := exec_get_eq mirrors compatible usable allowed.1 sha2 allowed.2
    simp only [BlobOp.step, backend, reads]
    exact ⟨rfl, mirrors⟩
  | delete key =>
    obtain ⟨disk', deletes, next⟩ := exec_delete_mirrors mirrors compatible usable allowed
    simp only [BlobOp.step, backend, deletes]
    exact ⟨rfl, next⟩
  | head key =>
    simp only [BlobOp.step, backend, exec_head_eq mirrors compatible usable allowed]
    exact ⟨rfl, mirrors⟩
  | existsKey key =>
    have heads : ((store.backend host sha2).head key).exec disk = _ :=
      exec_head_eq mirrors compatible usable allowed
    have heads' : (Memory.store.head key).exec memory =
        (Memory.lookUp key (BlobMeta.ofBlob key) memory, memory) := rfl
    unfold Memory.lookUp at heads heads'
    cases found : memory.map[key]? with
    | some data =>
      rw [found] at heads heads'
      simp only [BlobOp.step, BlobStore.exec_existsKey_ok _ heads,
        BlobStore.exec_existsKey_ok _ heads']
      exact ⟨rfl, mirrors⟩
    | none =>
      rw [found] at heads heads'
      simp only [BlobOp.step, BlobStore.exec_existsKey_notFound _ heads,
        BlobStore.exec_existsKey_notFound _ heads']
      exact ⟨rfl, mirrors⟩
  | list start =>
    simp only [BlobOp.step, backend, list, exec_io, sortedKeys_eq mirrors compatible usable]
    exact ⟨rfl, mirrors⟩
  | listMeta start =>
    simp only [BlobOp.step, backend, exec_listMeta mirrors compatible usable]
    exact ⟨rfl, mirrors⟩
  | cleanup =>
    simp only [BlobOp.step, exec_cleanup mirrors compatible usable]
    exact ⟨trivial, mirrors⟩

end

/-- **Nothing is stored yet**: no file is on the way to the base, and nothing is under it. -/
structure Fresh (base : Location) (disk : Disk) : Prop where
  ways : ∀ way data, way <:+ base → disk.node way ≠ some (.file data)
  nothing : ∀ path, path ≠ [] → disk.node (path ++ base) = none

theorem Fresh.mirrors {keys : String → Prop} {base : Location} {disk : Disk} (fresh : Fresh base disk) :
    Mirrors keys base disk Memory.new := by
  refine ⟨rfl, fresh.ways, fun key data present => ?_, fun path data file => ?_, fun path nonempty dir => ?_⟩
  · cases (show (none : Option Bytes) = some data from present)
  · by_cases root : path = []
    · rw [root] at file
      exact absurd file (fresh.ways _ data (suffix_refl _))
    · simp [fresh.nothing path root] at file
  · simp [fresh.nothing path nonempty] at dir

/-- **`LocalBlobStore` answers as `MemoryBlobStore` does**, in every run on compatible keys whose operations
are all allowed. -/
theorem answers_eq_memory (store : LocalBlobStore) (host : Host) (sha2 : Sha2) {keys : String → Prop}
    (compatible : Compatible keys) (usable : Usable store) {disk : Disk}
    (fresh : Fresh (locate host.cwd (components store.base)) disk) (ops : List BlobOp)
    (allowed : AlongRun (BlobOp.step Memory.store id) (Allowed store sha2 keys) Memory.new ops) :
    answers (store.opStep host sha2) disk ops =
      answers (BlobOp.step Memory.store id) Memory.new ops := by
  have simulates : ∀ disk memory op, Mirrors keys (locate host.cwd (components store.base)) disk memory →
      Allowed store sha2 keys memory op →
      (store.opStep host sha2 disk op).1 = (BlobOp.step Memory.store id memory op).1 ∧
        Mirrors keys (locate host.cwd (components store.base)) (store.opStep host sha2 disk op).2
          (BlobOp.step Memory.store id memory op).2 :=
    fun _ _ op mirrors allowed => opStep_simulates mirrors compatible usable sha2 op allowed
  exact answers_eq_of_simulation simulates fresh.mirrors allowed

def twoPaths (key : String) : Prop := key = "a.txt" ∨ key = "b/c.txt"

theorem twoPaths_compatible : Compatible twoPaths := by
  refine ⟨?_, ?_, ?_⟩
  · rintro key (rfl | rfl)
    all_goals decide +kernel
  · rintro key other (rfl | rfl) (rfl | rfl) different
    · exact absurd rfl different
    · decide +kernel
    · decide +kernel
    · exact absurd rfl different
  · rintro key other (rfl | rfl) (rfl | rfl)
    all_goals decide +kernel

theorem fresh_empty (base : Location) : Fresh base Files.empty := by
  refine ⟨fun way data on => ?_, fun path nonempty => ?_⟩
  · rw [Files.node_empty]
    split_ifs with root
    all_goals exact nofun
  · rw [Files.node_empty, if_neg (by simp [nonempty])]

theorem underData_usable : Usable underData := ⟨by decide +kernel, by decide +kernel⟩

theorem two_paths_answer_as_memory :
    answers (underData.opStep atRoot .firstBytes) Files.empty
        [.put "a.txt" [1], .put "b/c.txt" [2], .cleanup, .list "", .delete "a.txt", .head "b/c.txt"] =
      answers (BlobOp.step Memory.store id) Memory.new
        [.put "a.txt" [1], .put "b/c.txt" [2], .cleanup, .list "", .delete "a.txt", .head "b/c.txt"] :=
  answers_eq_memory underData atRoot .firstBytes twoPaths_compatible underData_usable (fresh_empty _) _
    ⟨.inl rfl, .inr rfl, trivial, trivial, .inl rfl, .inr rfl, trivial⟩

theorem put_removes_other_key :
    validateKey "a.tmp" = .ok () ∧ validateKey "a.txt" = .ok () ∧
      ¬ pathOf "a.tmp" <:+ pathOf "a.txt" ∧ ¬ pathOf "a.txt" <:+ pathOf "a.tmp" ∧
      answers (underData.opStep atRoot .firstBytes) Files.empty
          [.put "a.tmp" [1], .put "a.txt" [2], .get "a.tmp"] =
        [.done (.ok ()), .done (.ok ()), .data (.error (.notFound "a.tmp"))] ∧
      answers (BlobOp.step Memory.store id) Memory.new
          [.put "a.tmp" [1], .put "a.txt" [2], .get "a.tmp"] =
        [.done (.ok ()), .done (.ok ()), .data (.ok [1])] := by
  refine ⟨?_, ?_, ?_, ?_, ?_, ?_⟩
  all_goals decide +kernel

end LocalBlobStore

end OxiStore
