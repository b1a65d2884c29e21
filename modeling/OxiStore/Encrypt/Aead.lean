/-
**`oxistore-encrypt`, ciphers.**
-/

import OxiStore.Core.KvStore

namespace OxiStore

open ByteString

/-! ### Errors -/

def StoreError.message : StoreError → String
  | .io text => s!"I/O error: {text}"
  | .corruption text => s!"corruption: {text}"
  | .notFound => "not found"
  | .alreadyExists => "already exists"
  | .txnConflict => "transaction conflict"
  | .readOnly => "store is read-only"
  | .timeout => "operation timed out"
  | .capacityExceeded => "capacity exceeded"
  | .casMismatch => "compare-and-swap mismatch"
  | .keyNotFound => "key not found"
  | .unsupported text => s!"unsupported: {text}"
  | .other text => s!"error: {text}"
  | .panicked text => text

inductive EncryptError where
  | invalidKeyLength (got : ℕ)
  | keyringUnavailable (label : String)
  | ciphertextTooShort (minExpected got : ℕ)
  | authenticationFailed
  | rngFailed
  | store (text : String)
  | keyDerivationFailed (text : String)
  | missingKekVersion (version : UInt32)
  | encryptionFailed (text : String)
  | lockPoisoned
  | keyringEmpty
  | keyRotation (oldVersion newVersion : UInt32) (reason : String)
  | keyProviderFailed (text : String)
deriving DecidableEq

namespace EncryptError

def message : EncryptError → String
  | .invalidKeyLength got => s!"invalid key length: expected 32 bytes, got {got}"
  | .keyringUnavailable label => s!"OS keyring unavailable for label '{label}'"
  | .ciphertextTooShort minExpected got =>
      s!"ciphertext too short: expected at least {minExpected} bytes, got {got}"
  | .authenticationFailed => "AEAD authentication tag verification failed"
  | .rngFailed => "CSPRNG initialization or fill failed"
  | .store text => s!"underlying store error: {text}"
  | .keyDerivationFailed text => s!"key derivation failed: {text}"
  | .missingKekVersion version => s!"keyring has no entry for KEK version {version}"
  | .encryptionFailed text => s!"AEAD encryption failed: {text}"
  | .lockPoisoned => "internal RwLock was poisoned (a thread panicked while holding it)"
  | .keyringEmpty => "keyring contains no KEK versions (invariant violation)"
  | .keyRotation oldVersion newVersion reason =>
      s!"key rotation from version {oldVersion} to {newVersion} failed: {reason}"
  | .keyProviderFailed text => s!"external key provider failed: {text}"

def toStore (error : EncryptError) : StoreError := .other error.message

def ofStore (error : StoreError) : EncryptError := .store error.message

end EncryptError

/-! ### Computations on a cipher's state -/

abbrev Crypt (C α : Type) := ExceptT EncryptError (StateM C) α

namespace Crypt

variable {C α β : Type}

def exec (program : Crypt C α) (c : C) : Except EncryptError α × C := program.run c

def ofExcept (result : Except EncryptError α) : Crypt C α := ExceptT.mk (pure result)

@[simp] theorem exec_pure (value : α) (c : C) : exec (pure value) c = (.ok value, c) := rfl

@[simp] theorem exec_ofExcept (result : Except EncryptError α) (c : C) :
    exec (ofExcept result) c = (result, c) := rfl

theorem exec_bind (program : Crypt C α) (rest : α → Crypt C β) (c : C) :
    exec (program >>= rest) c =
      match program.exec c with
      | (.ok value, c') => (rest value).exec c'
      | (.error error, c') => (.error error, c') := by
  show (ExceptT.bindCont rest (program.exec c).1).run (program.exec c).2 = _
  rcases program.exec c with ⟨error | value, c'⟩
  all_goals rfl

variable {rest : α → Crypt C β} {program : Crypt C α}

theorem exec_bind_ok {c c' : C} {value : α} (succeeds : program.exec c = (.ok value, c')) :
    exec (program >>= rest) c = (rest value).exec c' := by
  rw [exec_bind, succeeds]

theorem exec_bind_error {c c' : C} {error : EncryptError} (fails : program.exec c = (.error error, c')) :
    exec (program >>= rest) c = (.error error, c') := by
  rw [exec_bind, fails]

theorem exec_bind_eq_ok {c c' : C} {value : β} (succeeds : exec (program >>= rest) c = (.ok value, c')) :
    ∃ mid c₁, program.exec c = (.ok mid, c₁) ∧ (rest mid).exec c₁ = (.ok value, c') := by
  rw [exec_bind] at succeeds
  rcases runs : program.exec c with ⟨error | mid, c₁⟩
  · simp [runs] at succeeds
  · rw [runs] at succeeds
    exact ⟨mid, c₁, rfl, succeeds⟩

theorem exec_bind_ofExcept_eq_ok {result : Except EncryptError α} {c c' : C} {value : β}
    (succeeds : exec (ofExcept result >>= rest) c = (.ok value, c')) :
    ∃ mid, result = .ok mid ∧ (rest mid).exec c = (.ok value, c') := by
  obtain ⟨mid, c₁, runs, continues⟩ := exec_bind_eq_ok succeeds
  cases runs
  exact ⟨mid, rfl, continues⟩

end Crypt

/-! ### Random bytes -/

structure Key32 where
  bytes : Bytes
  length_eq : bytes.length = 32
deriving DecidableEq

def Key32.ofByte (byte : UInt8) : Key32 := ⟨List.replicate 32 byte, List.length_replicate⟩

/-- **The random number generator**: what each use of it will give, nothing where it fails. -/
structure Rng where
  source : ℕ → Option (ℕ → UInt8)
  drawn : ℕ

namespace Rng

def next (rng : Rng) : Rng := { rng with drawn := rng.drawn + 1 }

def draw (rng : Rng) (len : ℕ) : Except EncryptError Bytes :=
  match rng.source rng.drawn with
  | none => .error .rngFailed
  | some bytes => .ok ((List.range len).map bytes)

def drawKey (rng : Rng) : Except EncryptError Key32 :=
  match rng.source rng.drawn with
  | none => .error .rngFailed
  | some bytes => .ok ⟨(List.range 32).map bytes, by simp⟩

def failures (rng : Rng) : ℕ := Nat.count (fun use => (rng.source use).isNone = true) rng.drawn

def Later (rng rng' : Rng) : Prop := rng'.source = rng.source ∧ rng.drawn ≤ rng'.drawn

theorem Later.refl (rng : Rng) : rng.Later rng := ⟨rfl, le_rfl⟩

variable {rng : Rng}

theorem Later.trans {rng' rng'' : Rng} (first : rng.Later rng') (second : rng'.Later rng'') :
    rng.Later rng'' := ⟨second.1.trans first.1, first.2.trans second.2⟩

theorem Later.next (rng : Rng) : rng.Later rng.next := ⟨rfl, Nat.le_succ _⟩

theorem Later.failures_le {rng' : Rng} (later : rng.Later rng') : rng.failures ≤ rng'.failures := by
  unfold failures
  rw [later.1]
  exact Nat.count_monotone _ later.2

theorem length_of_draw {len : ℕ} {bytes : Bytes} (drawn : rng.draw len = .ok bytes) :
    bytes.length = len := by
  unfold draw at drawn
  cases source : rng.source rng.drawn with
  | none => simp [source] at drawn
  | some stream =>
    rw [source] at drawn
    cases drawn
    simp

theorem failures_lt_next (fails : rng.source rng.drawn = none) :
    rng.failures < rng.next.failures := by
  have failed : (rng.next.source rng.drawn).isNone = true := by
    show (rng.source rng.drawn).isNone = true
    rw [fails]
    rfl
  show Nat.count _ rng.drawn < Nat.count _ (rng.drawn + 1)
  rw [Nat.count_succ, if_pos failed]
  exact Nat.lt_succ_self _

theorem failures_of_draw {len : ℕ} {error : EncryptError} (fails : rng.draw len = .error error) :
    error = .rngFailed ∧ rng.failures < rng.next.failures := by
  unfold draw at fails
  cases source : rng.source rng.drawn with
  | none =>
    rw [source] at fails
    cases fails
    exact ⟨rfl, failures_lt_next source⟩
  | some stream => simp [source] at fails

theorem failures_of_drawKey {error : EncryptError} (fails : rng.drawKey = .error error) :
    error = .rngFailed ∧ rng.failures < rng.next.failures := by
  unfold drawKey at fails
  cases source : rng.source rng.drawn with
  | none =>
    rw [source] at fails
    cases fails
    exact ⟨rfl, failures_lt_next source⟩
  | some stream => simp [source] at fails

def Reliable (rng : Rng) : Prop := ∀ use, (rng.source use).isSome = true

theorem Reliable.failures_eq {rng' : Rng} (reliable : rng.Reliable) (later : rng.Later rng') :
    rng'.failures = rng.failures := by
  have never : ∀ use, ¬ (rng.source use).isNone = true := by
    intro use
    rw [Option.isNone_iff_eq_none, ← Option.not_isSome_iff_eq_none, not_not]
    exact reliable use
  have zero : ∀ uses, Nat.count (fun use => (rng.source use).isNone = true) uses = 0 := by
    intro uses
    rw [Nat.count_eq_card_filter_range, Finset.card_eq_zero, Finset.filter_eq_empty_iff]
    exact fun use _ => never use
  unfold failures
  rw [later.1, zero, zero]

def constant (bytes : Bytes) : Rng := ⟨fun _ => some fun place => bytes.getD place 0, 0⟩

theorem reliable_constant (bytes : Bytes) : (constant bytes).Reliable := fun _ => rfl

theorem draw_constant (bytes : Bytes) : (constant bytes).draw bytes.length = .ok bytes := by
  simp only [draw, constant]
  congr 1
  refine List.ext_getElem (by simp) fun place inside inside' => ?_
  simp [inside']

end Rng

def randomBytes (len : ℕ) : Crypt Rng Bytes := ExceptT.mk fun rng => (rng.draw len, rng.next)

@[simp] theorem exec_randomBytes (len : ℕ) (rng : Rng) :
    (randomBytes len).exec rng = (rng.draw len, rng.next) := rfl

/-! ### The `oxicrypto` crate -/

structure Primitive where
  sealBytes (key : Key32) (nonce aad plaintext : Bytes) : Except String Bytes
  openBytes (key : Key32) (nonce aad ciphertext : Bytes) : Except String Bytes

/-- **An ideal cipher** with nonces of this length: a tag of 16 bytes, and opening inverts sealing. -/
structure Primitive.Ideal (primitive : Primitive) (nonceLen : ℕ) : Prop where
  seals (key : Key32) {nonce : Bytes} (aad plaintext : Bytes) (right : nonce.length = nonceLen) :
    ∃ ciphertext, primitive.sealBytes key nonce aad plaintext = .ok ciphertext ∧
      ciphertext.length = plaintext.length + 16 ∧
      primitive.openBytes key nonce aad ciphertext = .ok plaintext

structure OxiCrypto where
  xChaCha20Poly1305 : Primitive
  aesGcmSiv256 : Primitive
  blake3 : Bytes → Bytes

structure OxiCrypto.Ideal (crypto : OxiCrypto) : Prop where
  xChaCha20Poly1305 : crypto.xChaCha20Poly1305.Ideal 24
  aesGcmSiv256 : crypto.aesGcmSiv256.Ideal 12

def Primitive.tagged (tag : Key32 → Bytes → Bytes → Bytes) : Primitive where
  sealBytes key nonce aad plaintext := .ok (plaintext ++ tag key nonce aad)
  openBytes key nonce aad ciphertext :=
    if ciphertext.drop (ciphertext.length - 16) = tag key nonce aad then
      .ok (ciphertext.take (ciphertext.length - 16))
    else .error "tag mismatch"

theorem Primitive.tagged_ideal {tag : Key32 → Bytes → Bytes → Bytes}
    (sixteen : ∀ key nonce aad, (tag key nonce aad).length = 16) (nonceLen : ℕ) :
    (Primitive.tagged tag).Ideal nonceLen where
  seals key nonce aad plaintext _ := by
    refine ⟨_, rfl, ?_, ?_⟩
    · rw [List.length_append, sixteen]
    · simp only [Primitive.tagged, List.length_append, sixteen, Nat.add_sub_cancel]
      rw [List.drop_left, List.take_left, if_pos rfl]

def Primitive.keyTagged : Primitive where
  sealBytes key _ _ plaintext := .ok (plaintext ++ key.bytes.take 16)
  openBytes key _ _ ciphertext :=
    if ciphertext.drop (ciphertext.length - 16) = key.bytes.take 16 then
      .ok (ciphertext.take (ciphertext.length - 16))
    else .error "tag mismatch"

theorem Primitive.keyTagged_ideal (nonceLen : ℕ) : Primitive.keyTagged.Ideal nonceLen := by
  have half : ∀ key : Key32, (key.bytes.take 16).length = 16 := by
    intro key
    rw [List.length_take, key.length_eq]
    rfl
  exact Primitive.tagged_ideal (fun key _ _ => half key) nonceLen

def OxiCrypto.keyTagged : OxiCrypto := ⟨.keyTagged, .keyTagged, id⟩

theorem OxiCrypto.keyTagged_ideal : OxiCrypto.keyTagged.Ideal :=
  ⟨Primitive.keyTagged_ideal 24, Primitive.keyTagged_ideal 12⟩

def deriveCellId (crypto : OxiCrypto) (keyBytes : Bytes) : Bytes := crypto.blake3 keyBytes

/-! ### The `Aead` trait -/

structure Aead where
  nonceLen : ℕ
  tagLen : ℕ
  sealBytes (key : Key32) (nonce aad plaintext : Bytes) : Except EncryptError Bytes
  openBytes (key : Key32) (nonce aad ciphertext : Bytes) : Except EncryptError Bytes

/-- **A lawful implementation**: it seals under every nonce of its length, adds its tag and opens what
it sealed. -/
structure Aead.Lawful (aead : Aead) : Prop where
  seals (key : Key32) {nonce : Bytes} (aad plaintext : Bytes) (right : nonce.length = aead.nonceLen) :
    ∃ ciphertext, aead.sealBytes key nonce aad plaintext = .ok ciphertext ∧
      ciphertext.length = plaintext.length + aead.tagLen ∧
      aead.openBytes key nonce aad ciphertext = .ok plaintext

def Primitive.aead (primitive : Primitive) (nonceLen : ℕ) : Aead where
  nonceLen := nonceLen
  tagLen := 16
  sealBytes key nonce aad plaintext :=
    if nonce.length ≠ nonceLen then .error (.ciphertextTooShort nonceLen nonce.length)
    else (primitive.sealBytes key nonce aad plaintext).mapError fun _ => .authenticationFailed
  openBytes key nonce aad ciphertext :=
    if ciphertext.length < 16 then .error (.ciphertextTooShort 16 ciphertext.length)
    else if nonce.length ≠ nonceLen then .error (.ciphertextTooShort nonceLen nonce.length)
    else (primitive.openBytes key nonce aad ciphertext).mapError fun _ => .authenticationFailed

theorem Primitive.Ideal.aead_lawful {primitive : Primitive} {nonceLen : ℕ}
    (ideal : primitive.Ideal nonceLen) : (primitive.aead nonceLen).Lawful where
  seals key nonce aad plaintext right := by
    have fits : ¬ nonce.length ≠ nonceLen := not_not_intro right
    obtain ⟨ciphertext, seals, longer, opens⟩ := ideal.seals key aad plaintext right
    refine ⟨ciphertext, ?_, longer, ?_⟩
    · simp only [Primitive.aead]
      rw [if_neg fits, seals]
      rfl
    · simp only [Primitive.aead]
      rw [if_neg (by omega), if_neg fits, opens]
      rfl

def xChaCha20Poly1305Aead (crypto : OxiCrypto) : Aead := crypto.xChaCha20Poly1305.aead 24

def aesGcmSiv256Aead (crypto : OxiCrypto) : Aead := crypto.aesGcmSiv256.aead 12

inductive AeadKind where
  | xChaCha20Poly1305
  | aesGcmSiv256
deriving DecidableEq

def AeadKind.aead (crypto : OxiCrypto) : AeadKind → Aead
  | .xChaCha20Poly1305 => xChaCha20Poly1305Aead crypto
  | .aesGcmSiv256 => aesGcmSiv256Aead crypto

theorem AeadKind.lawful {crypto : OxiCrypto} (ideal : crypto.Ideal) (kind : AeadKind) :
    (kind.aead crypto).Lawful := by
  cases kind with
  | xChaCha20Poly1305 => exact ideal.xChaCha20Poly1305.aead_lawful
  | aesGcmSiv256 => exact ideal.aesGcmSiv256.aead_lawful

/-! ### The wire format -/

def encryptWithAead (aead : Aead) (key : Key32) (aad plaintext : Bytes) : Crypt Rng Bytes := do
  let nonce ← randomBytes aead.nonceLen
  let ctWithTag ← Crypt.ofExcept (aead.sealBytes key nonce aad plaintext)
  pure (nonce ++ ctWithTag)

def decryptWithAead (aead : Aead) (key : Key32) (aad wire : Bytes) : Except EncryptError Bytes :=
  if wire.length < aead.nonceLen + aead.tagLen then
    .error (.ciphertextTooShort (aead.nonceLen + aead.tagLen) wire.length)
  else aead.openBytes key (wire.take aead.nonceLen) aad (wire.drop aead.nonceLen)

def Aead.Wire (aead : Aead) (key : Key32) (aad plaintext wire : Bytes) : Prop :=
  ∃ nonce ciphertext, nonce.length = aead.nonceLen ∧
    aead.sealBytes key nonce aad plaintext = .ok ciphertext ∧ wire = nonce ++ ciphertext

theorem Aead.Lawful.length_wire {aead : Aead} (lawful : aead.Lawful) {key : Key32}
    {aad plaintext wire : Bytes} (sealed : aead.Wire key aad plaintext wire) :
    wire.length = plaintext.length + (aead.nonceLen + aead.tagLen) := by
  obtain ⟨nonce, ciphertext, right, seals, rfl⟩ := sealed
  obtain ⟨other, seals', longer, _⟩ := lawful.seals key aad plaintext right
  cases seals.symm.trans seals'
  rw [List.length_append, right, longer]
  omega

theorem Aead.Lawful.decrypt_wire {aead : Aead} (lawful : aead.Lawful) {key : Key32}
    {aad plaintext wire : Bytes} (sealed : aead.Wire key aad plaintext wire) :
    decryptWithAead aead key aad wire = .ok plaintext := by
  have long := lawful.length_wire sealed
  obtain ⟨nonce, ciphertext, right, seals, rfl⟩ := sealed
  obtain ⟨other, seals', _, opens⟩ := lawful.seals key aad plaintext right
  cases seals.symm.trans seals'
  unfold decryptWithAead
  rw [if_neg (by omega), ← right, List.take_left, List.drop_left, opens]

theorem encryptWithAead_spec {aead : Aead} (lawful : aead.Lawful) (key : Key32)
    (aad plaintext : Bytes) (rng : Rng) :
    ((encryptWithAead aead key aad plaintext).exec rng).2 = rng.next ∧
      match ((encryptWithAead aead key aad plaintext).exec rng).1 with
      | .ok wire => aead.Wire key aad plaintext wire
      | .error _ => rng.failures < rng.next.failures := by
  unfold encryptWithAead
  have draws := exec_randomBytes aead.nonceLen rng
  cases drawn : rng.draw aead.nonceLen with
  | error error =>
    rw [drawn] at draws
    rw [Crypt.exec_bind_error draws]
    exact ⟨rfl, (Rng.failures_of_draw drawn).2⟩
  | ok nonce =>
    rw [drawn] at draws
    have right := Rng.length_of_draw drawn
    obtain ⟨ciphertext, seals, _⟩ := lawful.seals key aad plaintext right
    rw [Crypt.exec_bind_ok draws, seals]
    exact ⟨rfl, nonce, ciphertext, right, seals, rfl⟩

end OxiStore
