/-
**Content addressing: `put_cas`, `put_streaming` and `get_cas`.**
-/

import OxiStore.Blob.Memory

namespace OxiStore

open ByteString OrdTable StepProg

open FileTree (IoError)

def Delivers : List (Except IoError Bytes) → Bytes → Prop
  | [], data => data = []
  | .error _ :: _, _ => False
  | .ok [] :: _, data => data = []
  | .ok (byte :: bytes) :: reads, data => ∃ rest, data = byte :: bytes ++ rest ∧ Delivers reads rest

theorem readToEnd_of_delivers (sha2 : Sha2) {reader : List (Except IoError Bytes)} {data : Bytes}
    (delivers : Delivers reader data) : ∃ pieces : List Bytes, pieces.flatten = data ∧
      ∀ hasher before, BlobStore.readToEnd sha2 reader hasher before =
        .ok (pieces.foldl sha2.update hasher, before ++ data) := by
  fun_induction Delivers reader data with
  | case1 data =>
    subst delivers
    exact ⟨[], rfl, fun hasher before => by simp [BlobStore.readToEnd]⟩
  | case2 => exact delivers.elim
  | case3 reads data =>
    subst delivers
    exact ⟨[], rfl, fun hasher before => by simp [BlobStore.readToEnd]⟩
  | case4 byte bytes reads data ih =>
    obtain ⟨rest, rfl, delivers⟩ := delivers
    obtain ⟨pieces, same, reads⟩ := ih rest delivers
    refine ⟨(byte :: bytes) :: pieces, by simp [same], fun hasher before => ?_⟩
    simp [BlobStore.readToEnd, reads]

section

variable {S : Type} {store : BlobStore S} {contents : S → Blobs} (like : store.MapLike contents)
  {sha2 : Sha2} {digest : Digest} {data other : Bytes} {s : S}

include like

theorem exec_putAddressed_taken (taken : (contents s)[digest.toHex]? = some other) :
    (store.putAddressed digest data).exec s = (.ok digest, s) := by
  have finds := (like.head digest.toHex).exec_some taken
  have absent : (store.putIfAbsent digest.toHex data).exec s =
      (.error (.alreadyExists digest.toHex), s) := by
    unfold BlobStore.putIfAbsent
    rw [Fallible.exec_attempt_bind, finds]
    rfl
  unfold BlobStore.putAddressed
  rw [Fallible.exec_attempt_bind, absent]
  rfl

theorem exec_putAddressed_absent (free : (contents s)[digest.toHex]? = none) {digest' : Digest} {s' : S}
    (succeeds : (store.putAddressed digest data).exec s = (.ok digest', s')) :
    digest' = digest ∧ (contents s')[digest.toHex]? = some data := by
  obtain ⟨name, finds⟩ := (like.head digest.toHex).exec_none free
  have same : (store.putIfAbsent digest.toHex data).exec s = (store.put digest.toHex data).exec s := by
    unfold BlobStore.putIfAbsent
    rw [Fallible.exec_attempt_bind, finds]
  have puts := like.exec_put digest.toHex data s
  unfold BlobStore.putAddressed at succeeds
  rw [Fallible.exec_attempt_bind, same] at succeeds
  rcases runs : (store.put digest.toHex data).exec s with ⟨result, s''⟩
  rw [runs] at succeeds puts
  generalize held : contents s'' = after at puts
  cases puts with
  | stored =>
    cases succeeds
    rw [held, get_insert, if_pos rfl]
    exact ⟨rfl, rfl⟩
  | refused error other =>
    cases error with
    | alreadyExists name => exact absurd rfl (other name)
    | _ => cases succeeds

theorem exec_getCas_some (taken : (contents s)[digest.toHex]? = some other) :
    ((store.getCas sha2 digest).exec s).1 = .ok data ↔ sha256 sha2 other = digest ∧ other = data := by
  unfold BlobStore.getCas
  rw [Fallible.exec_bind_ok (like.exec_get_some taken)]
  by_cases matching : sha256 sha2 other = digest
  all_goals simp [matching]

theorem reads_back_iff :
    (∀ digest s', (store.putAddressed (sha256 sha2 data) data).exec s = (.ok digest, s') →
      ((store.getCas sha2 digest).exec s').1 = .ok data) ↔
    ∀ other, (contents s)[(sha256 sha2 data).toHex]? = some other → other = data := by
  constructor
  · intro reads other taken
    have read := reads _ _ (exec_putAddressed_taken like taken)
    exact ((exec_getCas_some like taken).mp read).2
  · intro holds digest s' succeeds
    cases found : (contents s)[(sha256 sha2 data).toHex]? with
    | none =>
      obtain ⟨rfl, held⟩ := exec_putAddressed_absent like found succeeds
      exact (exec_getCas_some like held).mpr ⟨rfl, rfl⟩
    | some other =>
      obtain rfl := holds other found
      rw [exec_putAddressed_taken like found] at succeeds
      cases succeeds
      exact (exec_getCas_some like found).mpr ⟨rfl, rfl⟩

omit like in
theorem exec_putStreaming (incremental : sha2.Incremental) {reader : List (Except IoError Bytes)}
    (delivers : Delivers reader data) :
    (store.putStreaming sha2 reader).exec s =
      (store.putAddressed (sha256 sha2 data) data).exec s := by
  obtain ⟨pieces, same, reads⟩ := readToEnd_of_delivers sha2 delivers
  have hashed : sha2.finalize (pieces.foldl sha2.update sha2.new) = sha256 sha2 data := by
    rw [incremental pieces, same]
    rfl
  unfold BlobStore.putStreaming
  rw [reads, Fallible.exec_bind_ok rfl]
  simp [hashed]

theorem digest_of_getCas {bytes : Bytes} {s' : S}
    (returns : (store.getCas sha2 digest).exec s = (.ok bytes, s')) : sha256 sha2 bytes = digest := by
  cases found : (contents s)[digest.toHex]? with
  | none =>
    obtain ⟨name, missing⟩ := (like.get digest.toHex).exec_none found
    unfold BlobStore.getCas at returns
    simp [Fallible.exec_bind_error missing] at returns
  | some other =>
    have result : ((store.getCas sha2 digest).exec s).1 = .ok bytes := by rw [returns]
    obtain ⟨matching, rfl⟩ := (exec_getCas_some like found).mp result
    exact matching

end

/-- **Content addressing, at one state and for one content**: what `put_cas` or `put_streaming` stored is
what `get_cas` returns, and `get_cas` returns no bytes of another digest. -/
structure ContentAddressed {S : Type} (sha2 : Sha2) (store : BlobStore S) (s : S) (data : Bytes) : Prop where
  cas : ∀ digest s', (store.putCas sha2 data).exec s = (.ok digest, s') →
    ((store.getCas sha2 digest).exec s').1 = .ok data
  streaming : ∀ reader digest s', Delivers reader data →
    (store.putStreaming sha2 reader).exec s = (.ok digest, s') →
      ((store.getCas sha2 digest).exec s').1 = .ok data
  verified : ∀ digest bytes s', (store.getCas sha2 digest).exec s = (.ok bytes, s') →
    sha256 sha2 bytes = digest

/-- **Content addressing holds exactly where the key is free or holds the content itself.** -/
theorem content_addressed_iff {S : Type} {store : BlobStore S} {contents : S → Blobs}
    (like : store.MapLike contents) {sha2 : Sha2} (incremental : sha2.Incremental) (s : S) (data : Bytes) :
    ContentAddressed sha2 store s data ↔
      ∀ other, (contents s)[(sha256 sha2 data).toHex]? = some other → other = data := by
  rw [← reads_back_iff like]
  constructor
  · exact ContentAddressed.cas
  · intro reads
    refine ⟨reads, fun reader digest s' delivers succeeds => ?_, fun _ _ _ => digest_of_getCas like⟩
    rw [exec_putStreaming incremental delivers] at succeeds
    exact reads digest s' succeeds

def Sha2.firstBytes : Sha2 where
  Hasher := Bytes
  digest data := ⟨(data ++ List.replicate 32 0).take 32, by simp⟩
  new := []
  update hasher bytes := hasher ++ bytes
  finalize hasher := ⟨(hasher ++ List.replicate 32 0).take 32, by simp⟩

theorem Sha2.firstBytes_incremental : Sha2.firstBytes.Incremental := by
  intro pieces
  have appended : ∀ hasher : Bytes, pieces.foldl (fun hasher bytes => hasher ++ bytes) hasher =
      hasher ++ pieces.flatten := by
    induction pieces with
    | nil => simp
    | cons piece pieces ih =>
      intro hasher
      rw [List.foldl_cons, ih]
      simp
  show Sha2.firstBytes.digest (pieces.foldl (fun hasher bytes => hasher ++ bytes) []) = _
  rw [appended]
  rfl

def Memory.furnished : MemoryState :=
  ((Memory.store.putCas .firstBytes [1, 2]).exec
    ((Memory.store.put "sha256" [3]).exec Memory.new).2).2

theorem content_addressed_when_furnished :
    ContentAddressed .firstBytes Memory.store Memory.furnished [1, 2] ∧
      ContentAddressed .firstBytes Memory.store Memory.furnished [3] := by
  have there : Memory.furnished.map[(sha256 .firstBytes [1, 2]).toHex]? = some [1, 2] := by decide +kernel
  have free : Memory.furnished.map[(sha256 .firstBytes [3]).toHex]? = none := by decide +kernel
  constructor
  · refine (content_addressed_iff Memory.mapLike Sha2.firstBytes_incremental _ _).mpr fun other found => ?_
    exact Option.some.inj (found.symm.trans there)
  · refine (content_addressed_iff Memory.mapLike Sha2.firstBytes_incremental _ _).mpr fun other found => ?_
    exact absurd (found.symm.trans free) nofun

def Memory.squatted : MemoryState :=
  ((Memory.store.put (sha256 .firstBytes [1]).toHex [2]).exec Memory.new).2

theorem put_cas_over_other_bytes :
    ((Memory.store.putCas .firstBytes [1]).exec Memory.squatted).1 = .ok (sha256 .firstBytes [1]) ∧
      ((Memory.store.getCas .firstBytes (sha256 .firstBytes [1])).exec
        ((Memory.store.putCas .firstBytes [1]).exec Memory.squatted).2).1 =
          .error (.checksumMismatch ("expected " ++ (sha256 .firstBytes [1]).toHex ++ ", got " ++
            (sha256 .firstBytes [2]).toHex)) ∧
      ¬ ContentAddressed .firstBytes Memory.store Memory.squatted [1] := by
  have taken : Memory.squatted.map[(sha256 .firstBytes [1]).toHex]? = some [2] := by decide +kernel
  have stores : (Memory.store.putCas .firstBytes [1]).exec Memory.squatted =
      (.ok (sha256 .firstBytes [1]), Memory.squatted) := exec_putAddressed_taken Memory.mapLike taken
  refine ⟨congrArg Prod.fst stores, by decide +kernel, fun addressed => ?_⟩
  have read := addressed.cas _ _ stores
  rw [exec_getCas_some Memory.mapLike taken] at read
  cases read.2

end OxiStore
