/-
**`oxistore-core`, errors and expiry times.**
-/

import OxiStore.Lib.Bytes

namespace OxiStore

inductive StoreError where
  | io (message : String)
  | corruption (message : String)
  | notFound
  | alreadyExists
  | txnConflict
  | readOnly
  | timeout
  | capacityExceeded
  | casMismatch
  | keyNotFound
  | unsupported (message : String)
  | other (message : String)
  | panicked (message : String)
deriving DecidableEq, Repr

structure Duration where
  nanos : ℕ
  bounded : nanos < 2 ^ 64 * 10 ^ 9
deriving DecidableEq

instance (nanos : ℕ) : OfNat Duration nanos := ⟨⟨nanos % (2 ^ 64 * 10 ^ 9), Nat.mod_lt _ (by decide)⟩⟩

namespace Duration

def asMillis (duration : Duration) : ℕ := duration.nanos / 10 ^ 6

def checkedAdd (first second : Duration) : Option Duration :=
  if fits : first.nanos + second.nanos < 2 ^ 64 * 10 ^ 9 then
    some ⟨first.nanos + second.nanos, fits⟩
  else none

def fromMillis (millis : UInt64) : Duration :=
  ⟨millis.toNat * 10 ^ 6, by
    have small : millis.toNat < 2 ^ 64 := millis.toNat_lt
    omega⟩

def max : Duration := ⟨2 ^ 64 * 10 ^ 9 - 1, by omega⟩

end Duration

inductive SystemTime where
  | beforeEpoch
  | sinceEpoch (elapsed : Duration)
deriving DecidableEq

namespace SystemTime

def durationSinceEpoch : SystemTime → Except String Duration
  | .beforeEpoch => .error "second time provided was later than self"
  | .sinceEpoch elapsed => .ok elapsed

def last : SystemTime := .sinceEpoch Duration.max

abbrev ofMillis (millis : UInt64) : SystemTime := .sinceEpoch (.fromMillis millis)

end SystemTime

def expiryEpochMillis (now : SystemTime) (ttl : Duration) : Except StoreError UInt64 :=
  match now.durationSinceEpoch with
  | .error message => .error (.other message)
  | .ok elapsed => .ok (UInt64.ofNat ((elapsed.checkedAdd ttl).getD elapsed).asMillis)

def nowEpochMillis (now : SystemTime) : UInt64 :=
  match now.durationSinceEpoch with
  | .error _ => 0
  | .ok elapsed => UInt64.ofNat elapsed.asMillis

def saturatingSub (first second : UInt64) : UInt64 := if first ≤ second then 0 else first - second

def isExpired (now : SystemTime) (expiryMillis : UInt64) : Bool :=
  decide (expiryMillis ≤ nowEpochMillis now)

theorem isExpired_iff {now : SystemTime} {expiryMillis : UInt64} :
    isExpired now expiryMillis = true ↔ expiryMillis ≤ nowEpochMillis now := decide_eq_true_iff

theorem isExpired_mono {now later : SystemTime} {expiryMillis : UInt64}
    (forward : nowEpochMillis now ≤ nowEpochMillis later) (expired : isExpired now expiryMillis) :
    isExpired later expiryMillis := by
  rw [isExpired_iff] at expired ⊢
  exact UInt64.le_trans expired forward

theorem le_nowEpochMillis_last (millis : UInt64) : millis ≤ nowEpochMillis .last := by
  rw [UInt64.le_iff_toNat_le]
  have small : millis.toNat < 2 ^ 64 := millis.toNat_lt
  have top : (nowEpochMillis .last).toNat = 2 ^ 64 - 1 := by decide
  omega

theorem isExpired_last (expiryMillis : UInt64) : isExpired .last expiryMillis :=
  isExpired_iff.mpr (le_nowEpochMillis_last expiryMillis)

end OxiStore
