/-
**The two tables of a TTL store, and what a reader may see of them.**
-/

import OxiStore.Lib.Table
import OxiStore.Core.KvStore

namespace OxiStore

open ByteString OrdTable

/-! ### Encoded expiries -/

def encodeExpiry (millis : UInt64) : Bytes := toLeBytes 8 millis.toNat

def decodeExpiry (bytes : Bytes) : Option UInt64 :=
  if bytes.length = 8 then some (UInt64.ofNat (ofLeBytes bytes)) else none

theorem decodeExpiry_encodeExpiry (millis : UInt64) :
    decodeExpiry (encodeExpiry millis) = some millis := by
  unfold decodeExpiry encodeExpiry
  rw [if_pos (length_toLeBytes 8 millis.toNat), ofLeBytes_toLeBytes]
  have small : millis.toNat < 256 ^ 8 := millis.toNat_lt
  rw [Nat.mod_eq_of_lt small, UInt64.ofNat_toNat]

class Expiry (E : Type) where
  bytes : E → Bytes
  decode : E → Option UInt64
  encode : UInt64 → E
  decode_encode : ∀ millis, decode (encode millis) = some millis

instance : Expiry UInt64 := ⟨encodeExpiry, some, id, fun _ => rfl⟩

instance : Expiry Bytes := ⟨id, decodeExpiry, encodeExpiry, decodeExpiry_encodeExpiry⟩

/-! ### The tables -/

structure Store (E : Type) where
  data : Table Bytes Bytes
  ttl : Table Bytes E

namespace Store

variable {E : Type}

@[ext] theorem ext {s s' : Store E} (data : s.data = s'.data) (ttl : s.ttl = s'.ttl) : s = s' := by
  cases s
  cases s'
  simp_all

def empty : Store E := ⟨∅, ∅⟩

def insertData (s : Store E) (key value : Bytes) : Store E := { s with data := s.data.insert key value }

def removeData (s : Store E) (key : Bytes) : Store E := { s with data := s.data.erase key }

def write (s : Store E) (key value : Bytes) : Store E := ⟨s.data.insert key value, s.ttl.erase key⟩

def evict (s : Store E) (key : Bytes) : Store E := ⟨s.data.erase key, s.ttl.erase key⟩

def writeTtl (s : Store E) (key value : Bytes) (entry : E) : Store E :=
  ⟨s.data.insert key value, s.ttl.insert key entry⟩

def attach (s : Store E) (key : Bytes) (entry : E) : Store E := { s with ttl := s.ttl.insert key entry }

def detach (s : Store E) (key : Bytes) : Store E := { s with ttl := s.ttl.erase key }

theorem detach_absent {s : Store E} {key : Bytes} (absent : s.ttl[key]? = none) :
    s.detach key = s := by
  unfold detach
  rw [erase_absent s.ttl absent]

section

variable [Expiry E]

def expiry (s : Store E) (key : Bytes) : Option UInt64 := s.ttl[key]?.bind Expiry.decode

def elapsed (s : Store E) (now : SystemTime) (key : Bytes) : Bool :=
  (s.expiry key).any (isExpired now)

def visible (s : Store E) (now : SystemTime) (key : Bytes) : Option Bytes :=
  if s.elapsed now key then none else s.data[key]?

variable {s : Store E} {now : SystemTime} {key : Bytes}

theorem elapsed_iff :
    s.elapsed now key = true ↔ ∃ millis, s.expiry key = some millis ∧ isExpired now millis := by
  unfold elapsed
  cases s.expiry key <;> simp

theorem visible_of_elapsed (elapsed : s.elapsed now key = true) : s.visible now key = none := if_pos elapsed

theorem visible_of_not_elapsed (live : s.elapsed now key = false) : s.visible now key = s.data[key]? := by
  rw [visible, live]
  rfl

theorem elapsed_of_expiry_none (none : s.expiry key = none) (now : SystemTime) :
    s.elapsed now key = false := by
  rw [elapsed, none]
  rfl

theorem visible_congr {s' : Store E} (data : s.data[key]? = s'.data[key]?)
    (ttl : s.ttl[key]? = s'.ttl[key]?) :
    s.visible now key = s'.visible now key := by
  unfold visible elapsed expiry
  rw [data, ttl]

theorem elapsed_congr {s' : Store E} (ttl : s.ttl[key]? = s'.ttl[key]?) :
    s.elapsed now key = s'.elapsed now key := by
  unfold elapsed expiry
  rw [ttl]

theorem elapsed_mono {later : SystemTime} (forward : nowEpochMillis now ≤ nowEpochMillis later)
    (elapsed : s.elapsed now key = true) :
    s.elapsed later key = true := by
  obtain ⟨millis, found, expired⟩ := elapsed_iff.mp elapsed
  exact elapsed_iff.mpr ⟨millis, found, isExpired_mono forward expired⟩

/-! ### What the updates show -/

@[simp] theorem elapsed_write (s : Store E) (key value : Bytes) (now : SystemTime) (other : Bytes) :
    (s.write key value).elapsed now other = if key = other then false else s.elapsed now other := by
  unfold elapsed expiry write
  rw [get_erase]
  split_ifs with same
  all_goals rfl

@[simp] theorem visible_write (s : Store E) (key value : Bytes) (now : SystemTime) (other : Bytes) :
    (s.write key value).visible now other =
      if key = other then some value else s.visible now other := by
  by_cases same : key = other
  · rw [if_pos same, visible_of_not_elapsed (by rw [elapsed_write, if_pos same])]
    exact (get_insert s.data key other value).trans (if_pos same)
  · rw [if_neg same]
    exact visible_congr ((get_insert s.data key other value).trans (if_neg same))
      ((get_erase s.ttl key other).trans (if_neg same))

@[simp] theorem elapsed_evict (s : Store E) (key : Bytes) (now : SystemTime) (other : Bytes) :
    (s.evict key).elapsed now other = if key = other then false else s.elapsed now other := by
  unfold elapsed expiry evict
  rw [get_erase]
  split_ifs with same
  all_goals rfl

@[simp] theorem visible_evict (s : Store E) (key : Bytes) (now : SystemTime) (other : Bytes) :
    (s.evict key).visible now other = if key = other then none else s.visible now other := by
  by_cases same : key = other
  · rw [if_pos same, visible_of_not_elapsed (by rw [elapsed_evict, if_pos same])]
    exact (get_erase s.data key other).trans (if_pos same)
  · rw [if_neg same]
    exact visible_congr ((get_erase s.data key other).trans (if_neg same))
      ((get_erase s.ttl key other).trans (if_neg same))

theorem visible_evict_of_elapsed (elapsed : s.elapsed now key = true) (other : Bytes) :
    (s.evict key).visible now other = s.visible now other := by
  rw [visible_evict]
  split_ifs with same
  · rw [← same, visible_of_elapsed elapsed]
  · rfl

end

end Store

/-! ### The state a call runs on -/

structure World (E : Type) where
  store : Store E
  clock : SystemTime

namespace World

variable {E : Type}

def onStore (update : Store E → Store E) (w : World E) : World E :=
  { w with store := update w.store }

def setClock (w : World E) (now : SystemTime) : World E := { w with clock := now }

variable (w : World E)

@[simp] theorem onStore_store (update : Store E → Store E) (w : World E) :
    (w.onStore update).store = update w.store := rfl

@[simp] theorem onStore_clock (update : Store E → Store E) (w : World E) :
    (w.onStore update).clock = w.clock := rfl

@[simp] theorem setClock_store (now : SystemTime) :
    (w.setClock now).store = w.store := rfl

@[simp] theorem setClock_clock (now : SystemTime) :
    (w.setClock now).clock = now := rfl

variable [Expiry E]

def elapsed (w : World E) (key : Bytes) : Bool := w.store.elapsed w.clock key

def visible (w : World E) (key : Bytes) : Option Bytes := w.store.visible w.clock key

def evictElapsed (w : World E) (key : Bytes) : World E :=
  if w.elapsed key then w.onStore (·.evict key) else w

@[simp] theorem evictElapsed_clock (key : Bytes) :
    (w.evictElapsed key).clock = w.clock := by
  unfold evictElapsed
  split_ifs <;> rfl

theorem visible_none_setClock {w : World E} {key : Bytes} {now : SystemTime}
    (forward : nowEpochMillis w.clock ≤ nowEpochMillis now) (hidden : w.visible key = none) :
    (w.setClock now).visible key = none := by
  unfold visible Store.visible at hidden
  split_ifs at hidden with elapsed
  · exact Store.visible_of_elapsed (Store.elapsed_mono forward elapsed)
  · show w.store.visible now key = none
    unfold Store.visible
    rw [hidden, ite_self]

def expiredPair : World E :=
  ⟨⟨(∅ : Table Bytes Bytes).insert [107] [97], (∅ : Table Bytes E).insert [107] (Expiry.encode 0)⟩,
    .ofMillis 0⟩

def expiringPair : World E :=
  ⟨⟨(∅ : Table Bytes Bytes).insert [107] [97], (∅ : Table Bytes E).insert [107] (Expiry.encode 1)⟩,
    .ofMillis 0⟩

@[simp] theorem visible_evictElapsed (key other : Bytes) :
    (w.evictElapsed key).visible other = w.visible other := by
  unfold evictElapsed
  split_ifs with elapsed
  · exact Store.visible_evict_of_elapsed elapsed other
  · rfl

end World

def tick {E : Type} (now : SystemTime) (w : World E) : World E := w.setClock now

def systemTimeNow {E : Type} : Call (World E) SystemTime := Call.read World.clock

def readStore {E α : Type} (look : Store E → α) : Call (World E) α := Call.read fun w => look w.store

def writeStore {E : Type} (update : Store E → Store E) : Call (World E) Unit :=
  Call.write (World.onStore update)

theorem prog_readStore_bind {E α β : Type} (look : Store E → α) (rest : α → Call (World E) β) :
    (readStore look >>= rest).prog = .step (fun w => (rest (look w.store)).prog) id := rfl

theorem prog_systemTimeNow_bind {E β : Type} (rest : SystemTime → Call (World E) β) :
    (systemTimeNow >>= rest).prog = .step (fun w => (rest w.clock).prog) id := rfl

@[simp] theorem exec_systemTimeNow {E : Type} (w : World E) :
    systemTimeNow.exec w = (.ok w.clock, w) := rfl

@[simp] theorem exec_readStore {E α : Type} (look : Store E → α) (w : World E) :
    (readStore look).exec w = (.ok (look w.store), w) := rfl

@[simp] theorem exec_writeStore {E : Type} (update : Store E → Store E) (w : World E) :
    (writeStore update).exec w = (.ok (), w.onStore update) := rfl

end OxiStore
