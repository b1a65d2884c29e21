/-
**How long a pair written with a TTL lives.**
-/

import OxiStore.Kv.Engine

namespace OxiStore

open ByteString OrdTable

/-! ### Deadlines -/

def deadlineMillis (written ttl : Duration) : ℕ := (written.nanos + ttl.nanos) / 10 ^ 6

def SystemTime.Before (millis : ℕ) : SystemTime → Prop
  | .beforeEpoch => True
  | .sinceEpoch elapsed => elapsed.nanos < millis * 10 ^ 6

theorem expiryEpochMillis_fits {written ttl : Duration} (small : deadlineMillis written ttl < 2 ^ 64) :
    expiryEpochMillis (.sinceEpoch written) ttl = .ok (UInt64.ofNat (deadlineMillis written ttl)) := by
  have fits : written.nanos + ttl.nanos < 2 ^ 64 * 10 ^ 9 := by
    unfold deadlineMillis at small
    omega
  show Except.ok (UInt64.ofNat ((written.checkedAdd ttl).getD written).asMillis) = _
  rw [Duration.checkedAdd, dif_pos fits]
  rfl

theorem expiryEpochMillis_sinceEpoch (written ttl : Duration) :
    ∃ millis, expiryEpochMillis (.sinceEpoch written) ttl = .ok millis := ⟨_, rfl⟩

theorem SystemTime.Before.not_expired {later : SystemTime} {millis : ℕ} (before : later.Before millis)
    (positive : 0 < millis) (small : millis < 2 ^ 64) :
    isExpired later (UInt64.ofNat millis) = false := by
  have recorded : (UInt64.ofNat millis).toNat = millis := UInt64.toNat_ofNat_of_lt' small
  refine Bool.eq_false_iff.mpr fun expired => ?_
  rw [isExpired_iff, UInt64.le_iff_toNat_le, recorded] at expired
  cases later with
  | beforeEpoch => exact absurd expired (Nat.not_le.mpr positive)
  | sinceEpoch elapsed =>
    have reads : elapsed.asMillis < millis := (Nat.div_lt_iff_lt_mul (by decide)).mpr before
    have shown : (nowEpochMillis (.sinceEpoch elapsed)).toNat = elapsed.asMillis :=
      UInt64.toNat_ofNat_of_lt' (reads.trans small)
    omega

def SystemTime.lastMilli : SystemTime := .sinceEpoch (Duration.fromMillis (UInt64.ofNat (2 ^ 64 - 1)))

theorem SystemTime.lastMilli_before {millis : ℕ} (large : 2 ^ 64 ≤ millis) :
    SystemTime.lastMilli.Before millis := by
  show (UInt64.ofNat (2 ^ 64 - 1)).toNat * 10 ^ 6 < millis * 10 ^ 6
  have value : (UInt64.ofNat (2 ^ 64 - 1)).toNat = 2 ^ 64 - 1 := by decide
  omega

theorem isExpired_lastMilli (millis : UInt64) : isExpired .lastMilli millis = true := by
  have top : (nowEpochMillis .lastMilli).toNat = 2 ^ 64 - 1 := by decide
  have small : millis.toNat < 2 ^ 64 := millis.toNat_lt
  rw [isExpired_iff, UInt64.le_iff_toNat_le]
  omega

/-! ### The pair that was written -/

section

variable {E T N : Type} [Expiry E]

theorem Store.expiry_writeTtl (s : Store E) (key value : Bytes) (millis : UInt64) :
    (s.writeTtl key value (Expiry.encode millis)).expiry key = some millis := by
  unfold Store.expiry writeTtl
  rw [get_insert, if_pos rfl]
  exact Expiry.decode_encode millis

theorem Store.visible_writeTtl (s : Store E) (key value : Bytes) (millis : UInt64)
    (now : SystemTime) : (s.writeTtl key value (Expiry.encode millis)).visible now key =
      if isExpired now millis then none else some value := by
  unfold Store.visible Store.elapsed
  rw [expiry_writeTtl]
  refine if_congr Iff.rfl rfl ?_
  exact (get_insert s.data key key value).trans (if_pos rfl)

def KvStore.recordedExpiry (kv : KvStore (World E) T N) (w : World E) (key value : Bytes)
    (ttl : Duration) : Option UInt64 := ((kv.putWithTtl key value ttl).exec w).2.store.expiry key

/-- **The TTL of a pair written at time `written` is honoured.** -/
structure TtlHonoured (kv : KvStore (World E) T N) (w : World E) (key value : Bytes)
    (written ttl : Duration) : Prop where
  succeeds : ((kv.putWithTtl key value ttl).exec w).1 = .ok ()
  visible (later : SystemTime) (before : later.Before (deadlineMillis written ttl)) :
    ((kv.get key).exec (((kv.putWithTtl key value ttl).exec w).2.setClock later)).1 =
      .ok (some value)
  longer (shorter : Duration) (less : shorter.nanos ≤ ttl.nanos) :
    ∃ early late, kv.recordedExpiry w key value shorter = some early ∧
      kv.recordedExpiry w key value ttl = some late ∧ early ≤ late

variable (b : Backend E T N) (w : World E) (key value : Bytes) (written : Duration) {ttl : Duration}
  {millis : UInt64}

variable (recorded : expiryEpochMillis (.sinceEpoch written) ttl = .ok millis)

include recorded

theorem Backend.putWithTtl_written :
    (b.kv.putWithTtl key value ttl).exec (w.setClock (.sinceEpoch written)) =
      (.ok (), (w.setClock (.sinceEpoch written)).onStore
        fun s => s.writeTtl key value (Expiry.encode millis)) := by
  rw [b.putWithTtl_exec]
  unfold World.recordExpiry
  rw [show (w.setClock (.sinceEpoch written)).clock = .sinceEpoch written from rfl, recorded]

theorem Backend.recordedExpiry_eq :
    b.kv.recordedExpiry (w.setClock (.sinceEpoch written)) key value ttl = some millis := by
  unfold KvStore.recordedExpiry
  rw [b.putWithTtl_written w key value written recorded]
  exact w.store.expiry_writeTtl key value millis

theorem Backend.get_written (later : SystemTime) :
    ((b.kv.get key).exec (((b.kv.putWithTtl key value ttl).exec
        (w.setClock (.sinceEpoch written))).2.setClock later)).1 =
      .ok (if isExpired later millis then none else some value) := by
  rw [b.putWithTtl_written w key value written recorded, b.get_exec]
  exact congrArg Except.ok (w.store.visible_writeTtl key value millis later)

omit recorded

theorem Backend.ttlHonoured_iff (ttl : Duration) :
    TtlHonoured b.kv (w.setClock (.sinceEpoch written)) key value written ttl ↔
      0 < deadlineMillis written ttl ∧ deadlineMillis written ttl < 2 ^ 64 := by
  constructor
  · intro honoured
    constructor
    · -- A deadline of zero has passed even for a clock before the epoch.
      by_contra zero
      have deadline : deadlineMillis written ttl = 0 := Nat.eq_zero_of_not_pos zero
      have recorded : expiryEpochMillis (.sinceEpoch written) ttl = .ok 0 := by
        rw [expiryEpochMillis_fits (by rw [deadline]; decide), deadline]
        rfl
      have seen := honoured.visible .beforeEpoch trivial
      rw [b.get_written w key value written recorded] at seen
      cases seen
    · by_contra large
      obtain ⟨millis, recorded⟩ := expiryEpochMillis_sinceEpoch written ttl
      have seen := honoured.visible .lastMilli (SystemTime.lastMilli_before (Nat.not_lt.mp large))
      simp [b.get_written w key value written recorded, isExpired_lastMilli] at seen
  · rintro ⟨positive, small⟩
    have recorded := expiryEpochMillis_fits small
    refine ⟨?_, fun later before => ?_, fun shorter less => ?_⟩
    · rw [b.putWithTtl_written w key value written recorded]
    · rw [b.get_written w key value written recorded, before.not_expired positive small]
      rfl
    · have sooner : deadlineMillis written shorter ≤ deadlineMillis written ttl :=
        Nat.div_le_div_right (Nat.add_le_add_left less _)
      refine ⟨_, _, b.recordedExpiry_eq w key value written
        (expiryEpochMillis_fits (lt_of_le_of_lt sooner small)),
        b.recordedExpiry_eq w key value written recorded, ?_⟩
      rw [UInt64.le_iff_toNat_le, UInt64.toNat_ofNat_of_lt' (lt_of_le_of_lt sooner small),
        UInt64.toNat_ofNat_of_lt' small]
      exact sooner

end

/-- **A TTL is honoured exactly if the deadline is a positive number of milliseconds below `2^64`**, on
every engine, for every write time, TTL, key, value and contents. Before the epoch nothing is
written. -/
theorem put_with_ttl_honoured_iff (engine : Engine) (w : World engine.Entry) (key value : Bytes)
    (ttl : Duration) :
    (∀ written : Duration,
      TtlHonoured engine.kv (w.setClock (.sinceEpoch written)) key value written ttl ↔
        0 < deadlineMillis written ttl ∧ deadlineMillis written ttl < 2 ^ 64) ∧
      (engine.kv.putWithTtl key value ttl).exec (w.setClock .beforeEpoch) =
        (.error (.other "second time provided was later than self"), w.setClock .beforeEpoch) := by
  rw [← Engine.backend_kv]
  refine ⟨fun written => engine.backend.ttlHonoured_iff w key value written ttl, ?_⟩
  rw [engine.backend.putWithTtl_exec]
  rfl

theorem put_with_ttl_forever_expires_at_once :
    (SystemTime.ofMillis 1000).Before
        (deadlineMillis (Duration.fromMillis 1000) Duration.max) ∧
      ((Sled.store.putWithTtl [107] [97] Duration.max).exec
        ⟨.empty, .ofMillis 1000⟩).1 = .ok () ∧
      ((Sled.store.get [107]).exec ((Sled.store.putWithTtl [107] [97] Duration.max).exec
        ⟨.empty, .ofMillis 1000⟩).2).1 = .ok none := by
  refine ⟨?_, ?_, ?_⟩
  · show 1000 * 10 ^ 6 < (1000 * 10 ^ 6 + (2 ^ 64 * 10 ^ 9 - 1)) / 10 ^ 6 * 10 ^ 6
    decide
  · decide
  · decide

end OxiStore
