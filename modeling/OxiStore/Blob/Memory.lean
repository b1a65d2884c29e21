/-
**`MemoryBlobStore`.**
-/

import OxiStore.Blob.Store

namespace OxiStore

open ByteString

structure MemoryState where
  map : Blobs
  usedBytes : UInt64
  capacityBytes : Option UInt64

namespace Memory

def len64 (data : Bytes) : UInt64 := UInt64.ofNat data.length

def new : MemoryState := ⟨∅, 0, none⟩

def withCapacity (capacityBytes : UInt64) : MemoryState := ⟨∅, 0, some capacityBytes⟩

def wouldBe (state : MemoryState) (key : String) (data : Bytes) : UInt64 :=
  state.usedBytes - (state.map[key]?).elim 0 len64 + len64 data

def stored (state : MemoryState) (key : String) (data : Bytes) : MemoryState :=
  { state with usedBytes := wouldBe state key data, map := state.map.insert key data }

def put (key : String) (data : Bytes) : BlobCall MemoryState Unit := .atomic fun state =>
  match state.capacityBytes with
  | some cap =>
      if wouldBe state key data > cap then (.error (.quotaExceeded cap (wouldBe state key data)), state)
      else (.ok (), stored state key data)
  | none => (.ok (), stored state key data)

def lookUp {α : Type} (key : String) (value : Bytes → α) (state : MemoryState) : Except BlobError α :=
  match state.map[key]? with
  | some data => .ok (value data)
  | none => .error (.notFound key)

def get (key : String) : BlobCall MemoryState Bytes := .atomic fun state => (lookUp key id state, state)

def delete (key : String) : BlobCall MemoryState Unit := .atomic fun state =>
  match state.map[key]? with
  | some removed =>
      (.ok (), { state with map := state.map.erase key, usedBytes := state.usedBytes - len64 removed })
  | none => (.error (.notFound key), state)

def head (key : String) : BlobCall MemoryState BlobMeta := .atomic fun state =>
  (lookUp key (BlobMeta.ofBlob key) state, state)

def list (start : String) : BlobCall MemoryState (List String) := .atomic fun state =>
  (.ok (state.map.keys.filter (startsWith start)), state)

def listMeta (start : String) : BlobCall MemoryState (List BlobMeta) := .atomic fun state =>
  (.ok ((state.map.toList.filter fun entry => startsWith start entry.1).map fun entry =>
    BlobMeta.ofBlob entry.1 entry.2), state)

def listMetaPage (start : String) (startAfter : Option String) (limit : ℕ) :
    BlobCall MemoryState (List BlobMeta) := .atomic fun state =>
  (.ok ((((state.map.toList.filter fun entry => startsWith start entry.1).filter fun entry =>
    startAfter.all (· < entry.1)).take limit).map fun entry => BlobMeta.ofBlob entry.1 entry.2), state)

def store : BlobStore MemoryState where
  put := put
  get := get
  delete := delete
  head := head
  list := list
  listMeta := listMeta
  listMetaPage := listMetaPage

theorem looks {α : Type} (key : String) (value : Bytes → α) :
    Looks MemoryState.map key value (.atomic fun state => (lookUp key value state, state)) := by
  refine ⟨lookUp key value, rfl, fun state => ?_⟩
  unfold lookUp
  generalize state.map[key]? = found
  cases found with
  | none => exact .missing key
  | some data => exact .found data

theorem mapLike : store.MapLike MemoryState.map where
  get key := looks key id
  head key := looks key (BlobMeta.ofBlob key)
  put key data := by
    refine ⟨_, rfl, fun state => ?_⟩
    cases state.capacityBytes with
    | none => exact .stored
    | some cap =>
      by_cases past : wouldBe state key data > cap
      · simp only [past, if_true]
        exact .refused _ nofun
      · simp only [past, if_false]
        exact .stored
  delete key := by
    refine ⟨_, rfl, fun state => ?_⟩
    cases found : state.map[key]? with
    | none => exact .missing key found
    | some removed => exact .removed removed found
  list start := rfl

end Memory

end OxiStore
