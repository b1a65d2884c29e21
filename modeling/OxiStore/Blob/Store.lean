/-
**`oxistore-blob`, the `BlobStore` trait and its default methods.**
-/

import OxiStore.Lib.Table
import OxiStore.Lib.Bytes
import OxiStore.Lib.Fallible
import OxiStore.Lib.Files

namespace OxiStore

open ByteString OrdTable StepProg Fallible

open FileTree (IoError)

/-! ### Errors, metadata, digests -/

inductive BlobError where
  | notFound (key : String)
  | alreadyExists (key : String)
  | io (error : IoError)
  | checksumMismatch (message : String)
  | other (message : String)
  | quotaExceeded (limitBytes neededBytes : UInt64)
  | multipartError (message : String)
  | retryExhausted (attempts : UInt32) (lastError : String)
deriving DecidableEq

@[ext]
structure Digest where
  bytes : Bytes
  length_eq : bytes.length = 32

instance : DecidableEq Digest := fun first second =>
  decidable_of_iff (first.bytes = second.bytes) ⟨Digest.ext, congrArg Digest.bytes⟩

def hexDigit (value : ℕ) : Char :=
  if value < 10 then Char.ofNat (48 + value) else Char.ofNat (87 + value)

def Digest.toHex (digest : Digest) : String :=
  String.ofList (digest.bytes.flatMap fun byte => [hexDigit (byte.toNat / 16), hexDigit (byte.toNat % 16)])

structure BlobMeta where
  key : String
  size : UInt64
  contentType : Option String
  checksum : Option Digest
deriving DecidableEq

def BlobMeta.new (key : String) (size : UInt64) : BlobMeta := ⟨key, size, none, none⟩

def BlobMeta.ofBlob (key : String) (data : Bytes) : BlobMeta := .new key (UInt64.ofNat data.length)

/-- **What the crate uses of `sha2`**: `Sha256::digest`, and a hasher that is made, updated and
finalized. -/
structure Sha2 where
  Hasher : Type
  digest : Bytes → Digest
  new : Hasher
  update : Hasher → Bytes → Hasher
  finalize : Hasher → Digest

def Sha2.Incremental (sha2 : Sha2) : Prop :=
  ∀ pieces : List Bytes, sha2.finalize (pieces.foldl sha2.update sha2.new) = sha2.digest pieces.flatten

def sha256 (sha2 : Sha2) (data : Bytes) : Digest := sha2.digest data

/-! ### The trait -/

abbrev BlobCall (S α : Type) := Fallible BlobError S α

def startsWith (start key : String) : Bool := start.toList.isPrefixOf key.toList

def listMetaByHeads {S : Type} (list : String → BlobCall S (List String))
    (head : String → BlobCall S BlobMeta) (start : String) : BlobCall S (List BlobMeta) := do
  let keys ← list start
  keys.mapM head

def listMetaPageLoop {S : Type} (head : String → BlobCall S BlobMeta) (startAfter : Option String)
    (limit : ℕ) : List String → List BlobMeta → BlobCall S (List BlobMeta)
  | [], metas => pure metas
  | key :: keys, metas =>
      if startAfter.any (key ≤ ·) then listMetaPageLoop head startAfter limit keys metas
      else if metas.length ≥ limit then pure metas
      else do
        let entry ← head key
        listMetaPageLoop head startAfter limit keys (metas ++ [entry])

def listMetaPageByHeads {S : Type} (list : String → BlobCall S (List String))
    (head : String → BlobCall S BlobMeta) (start : String) (startAfter : Option String) (limit : ℕ) :
    BlobCall S (List BlobMeta) := do
  let keys ← list start
  listMetaPageLoop head startAfter limit keys []

structure BlobStore (S : Type) where
  put (key : String) (data : Bytes) : BlobCall S Unit
  get (key : String) : BlobCall S Bytes
  delete (key : String) : BlobCall S Unit
  head (key : String) : BlobCall S BlobMeta
  list (start : String) : BlobCall S (List String)
  listMeta (start : String) : BlobCall S (List BlobMeta) := listMetaByHeads list head start
  listMetaPage (start : String) (startAfter : Option String) (limit : ℕ) : BlobCall S (List BlobMeta) :=
    listMetaPageByHeads list head start startAfter limit

namespace BlobStore

variable {S : Type} (sha2 : Sha2) (store : BlobStore S)

def existsKey (key : String) : BlobCall S Bool := do
  match ← (store.head key).attempt with
  | .ok _ => pure true
  | .error (.notFound _) => pure false
  | .error error => throw error

theorem exec_existsKey_ok {key : String} {s s' : S} {entry : BlobMeta}
    (heads : (store.head key).exec s = (.ok entry, s')) :
    (store.existsKey key).exec s = (.ok true, s') := by
  unfold existsKey
  rw [exec_attempt_bind, heads]
  rfl

theorem exec_existsKey_notFound {key name : String} {s s' : S}
    (heads : (store.head key).exec s = (.error (.notFound name), s')) :
    (store.existsKey key).exec s = (.ok false, s') := by
  unfold existsKey
  rw [exec_attempt_bind, heads]
  rfl

def copy (srcKey dstKey : String) : BlobCall S Unit := do
  let data ← store.get srcKey
  store.put dstKey data

def rename (oldKey newKey : String) : BlobCall S Unit := do
  let data ← store.get oldKey
  store.put newKey data
  store.delete oldKey

def deleteMany : List String → BlobCall S Unit
  | [] => pure ()
  | key :: keys => do
      match ← (store.delete key).attempt with
      | .ok () => deleteMany keys
      | .error (.notFound _) => deleteMany keys
      | .error error => throw error

def deleteCounted : List String → UInt64 → BlobCall S UInt64
  | [], count => pure count
  | key :: keys, count => do
      match ← (store.delete key).attempt with
      | .ok () => deleteCounted keys (count + 1)
      | .error (.notFound _) => deleteCounted keys count
      | .error error => throw error

def deletePrefix (start : String) : BlobCall S UInt64 := do
  let keys ← store.list start
  store.deleteCounted keys 0

def putChunked (key : String) (chunks : List Bytes) : BlobCall S Unit := store.put key chunks.flatten

def putIfAbsent (key : String) (data : Bytes) : BlobCall S Unit := do
  match ← (store.head key).attempt with
  | .ok _ => throw (.alreadyExists key)
  | .error (.notFound _) => store.put key data
  | .error error => throw error

def deleteIfMatches (key : String) (digest : Digest) : BlobCall S Bool := do
  match ← (store.get key).attempt with
  | .error (.notFound _) => pure false
  | .error error => throw error
  | .ok data =>
      if sha256 sha2 data ≠ digest then pure false
      else do
        store.delete key
        pure true

def putAddressed (digest : Digest) (data : Bytes) : BlobCall S Digest := do
  match ← (store.putIfAbsent digest.toHex data).attempt with
  | .ok () => pure digest
  | .error (.alreadyExists _) => pure digest
  | .error error => throw error

def putCas (data : Bytes) : BlobCall S Digest := store.putAddressed (sha256 sha2 data) data

def getCas (digest : Digest) : BlobCall S Bytes := do
  let data ← store.get digest.toHex
  if sha256 sha2 data ≠ digest then
    throw (.checksumMismatch ("expected " ++ digest.toHex ++ ", got " ++ (sha256 sha2 data).toHex))
  else pure data

def existsCas (digest : Digest) : BlobCall S Bool := store.existsKey digest.toHex

def getVerified (digest : Digest) : BlobCall S Bytes := store.getCas sha2 digest

def readToEnd : List (Except IoError Bytes) → sha2.Hasher → Bytes → Except BlobError (sha2.Hasher × Bytes)
  | [], hasher, data => .ok (hasher, data)
  | .error error :: _, _, _ => .error (.io error)
  | .ok [] :: _, hasher, data => .ok (hasher, data)
  | .ok (byte :: bytes) :: reads, hasher, data =>
      readToEnd reads (sha2.update hasher (byte :: bytes)) (data ++ byte :: bytes)

def putStreaming (reader : List (Except IoError Bytes)) : BlobCall S Digest := do
  let (hasher, data) ← Fallible.ofExcept (readToEnd sha2 reader sha2.new [])
  store.putAddressed (sha2.finalize hasher) data

end BlobStore

/-! ### Backends that are maps -/

abbrev Blobs := Table String Bytes

inductive Answers {α : Type} (value : Bytes → α) : Option Bytes → Except BlobError α → Prop where
  | found (data : Bytes) : Answers value (some data) (.ok (value data))
  | missing (name : String) : Answers value none (.error (.notFound name))

theorem Answers.of_some {α : Type} {value : Bytes → α} {found : Option Bytes}
    {result : Except BlobError α} {data : Bytes} (answers : Answers value found result)
    (present : found = some data) : result = .ok (value data) := by
  subst present
  cases answers
  rfl

theorem Answers.of_none {α : Type} {value : Bytes → α} {found : Option Bytes}
    {result : Except BlobError α} (answers : Answers value found result) (absent : found = none) :
    ∃ name, result = .error (.notFound name) := by
  subst absent
  cases answers with
  | missing name => exact ⟨name, rfl⟩

inductive Puts (key : String) (data : Bytes) (before : Blobs) : Except BlobError Unit → Blobs → Prop where
  | stored : Puts key data before (.ok ()) (before.insert key data)
  | refused (error : BlobError) (other : ∀ name, error ≠ .alreadyExists name) :
      Puts key data before (.error error) before

inductive Deletes (key : String) (before : Blobs) : Except BlobError Unit → Blobs → Prop where
  | removed (data : Bytes) (present : before[key]? = some data) :
      Deletes key before (.ok ()) (before.erase key)
  | missing (name : String) (absent : before[key]? = none) :
      Deletes key before (.error (.notFound name)) before

def Looks {S α : Type} (contents : S → Blobs) (key : String) (value : Bytes → α) (call : BlobCall S α) :
    Prop :=
  ∃ look : S → Except BlobError α, call = .atomic (fun s => (look s, s)) ∧
    ∀ s, Answers value (contents s)[key]? (look s)

section

variable {S α : Type} {contents : S → Blobs} {key : String} {value : Bytes → α} {call : BlobCall S α}
  {s : S}

theorem Looks.exec_some (looks : Looks contents key value call) {data : Bytes}
    (present : (contents s)[key]? = some data) : call.exec s = (.ok (value data), s) := by
  obtain ⟨look, rfl, answers⟩ := looks
  rw [exec_atomic, (answers s).of_some present]

theorem Looks.exec_none (looks : Looks contents key value call) (absent : (contents s)[key]? = none) :
    ∃ name, call.exec s = (.error (.notFound name), s) := by
  obtain ⟨look, rfl, answers⟩ := looks
  obtain ⟨name, answer⟩ := (answers s).of_none absent
  exact ⟨name, by rw [exec_atomic, answer]⟩

theorem Looks.prog_attempt_bind {β : Type} (looks : Looks contents key value call)
    (rest : Except BlobError α → BlobCall S β) :
    ∃ next, (call.attempt >>= rest).prog = .step next id ∧
      (∀ s data, (contents s)[key]? = some data → next s = (rest (.ok (value data))).prog) ∧
      ∀ s, (contents s)[key]? = none → ∃ name, next s = (rest (.error (.notFound name))).prog := by
  obtain ⟨look, rfl, answers⟩ := looks
  refine ⟨fun s => (rest (look s)).prog, prog_attempt_atomic_bind _ rest, ?_, ?_⟩
  · intro s data present
    dsimp only
    rw [(answers s).of_some present]
  · intro s absent
    obtain ⟨name, answer⟩ := (answers s).of_none absent
    exact ⟨name, by dsimp only; rw [answer]⟩

end

/-- **A backend that is a map of its keys**: each method is one atomic step, the lookups leave the state
alone, and only a `put` may be refused. -/
structure BlobStore.MapLike {S : Type} (store : BlobStore S) (contents : S → Blobs) : Prop where
  get (key : String) : Looks contents key id (store.get key)
  head (key : String) : Looks contents key (BlobMeta.ofBlob key) (store.head key)
  put (key : String) (data : Bytes) : ∃ outcome : S → Except BlobError Unit × S,
    store.put key data = .atomic outcome ∧
      ∀ s, Puts key data (contents s) (outcome s).1 (contents (outcome s).2)
  delete (key : String) : ∃ outcome : S → Except BlobError Unit × S, store.delete key = .atomic outcome ∧
    ∀ s, Deletes key (contents s) (outcome s).1 (contents (outcome s).2)
  list (start : String) : store.list start =
    .atomic fun s => (.ok ((contents s).keys.filter (startsWith start)), s)

namespace BlobStore.MapLike

variable {S : Type} {store : BlobStore S} {contents : S → Blobs} (like : store.MapLike contents)

include like

theorem exec_get_some {key : String} {data : Bytes} {s : S} (present : (contents s)[key]? = some data) :
    (store.get key).exec s = (.ok data, s) :=
  (like.get key).exec_some present

theorem exec_put (key : String) (data : Bytes) (s : S) :
    Puts key data (contents s) ((store.put key data).exec s).1
      (contents ((store.put key data).exec s).2) := by
  obtain ⟨outcome, same, puts⟩ := like.put key data
  rw [same, exec_atomic]
  exact puts s

theorem exec_delete (key : String) (s : S) :
    Deletes key (contents s) ((store.delete key).exec s).1 (contents ((store.delete key).exec s).2) := by
  obtain ⟨outcome, same, deletes⟩ := like.delete key
  rw [same, exec_atomic]
  exact deletes s

end BlobStore.MapLike

end OxiStore
