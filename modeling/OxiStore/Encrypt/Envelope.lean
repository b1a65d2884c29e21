/-
**Envelopes and the keyring.**
-/

import OxiStore.Lib.Lockstep
import OxiStore.Lib.Results
import OxiStore.Encrypt.Aead

namespace OxiStore

open ByteString StepProg List

/-! ### The keyring -/

structure KeyVersion where
  version : UInt32
  kek : Key32
deriving DecidableEq

structure Keyring where
  versions : List KeyVersion
deriving DecidableEq

namespace Keyring

def new (kek : Key32) : Keyring := ⟨[⟨1, kek⟩]⟩

def activeVersion (ring : Keyring) : Except EncryptError UInt32 :=
  match ring.versions.getLast? with
  | some active => .ok active.version
  | none => .error .keyringEmpty

def activeKek (ring : Keyring) : Except EncryptError Key32 :=
  match ring.versions.getLast? with
  | some active => .ok active.kek
  | none => .error .keyringEmpty

def kekForVersion (ring : Keyring) (version : UInt32) : Option Key32 :=
  (ring.versions.find? fun entry => entry.version == version).map KeyVersion.kek

def rotate (ring : Keyring) (newKek : Key32) : Except EncryptError (UInt32 × Keyring) := do
  let active ← ring.activeVersion
  let nextVersion := active + 1
  .ok (nextVersion, ⟨ring.versions ++ [⟨nextVersion, newKek⟩]⟩)

def newestOnly (ring : Keyring) : Keyring := ⟨ring.versions.getLast?.toList⟩

/-- **Entries are numbered from 1 on**, as far as 32 bits go, and there is one. -/
structure Numbered (ring : Keyring) : Prop where
  nonempty : ring.versions ≠ []
  numbers (place : ℕ) (inside : place < ring.versions.length) :
    ring.versions[place].version = UInt32.ofNat (place + 1)

theorem numbered_new (kek : Key32) : (new kek).Numbered where
  nonempty := cons_ne_nil _ _
  numbers place inside := by
    obtain rfl : place = 0 := by simpa [new] using inside
    rfl

variable {ring : Keyring}

theorem Numbered.active (numbered : ring.Numbered) :
    ∃ kek, ring.versions.getLast? = some ⟨UInt32.ofNat ring.versions.length, kek⟩ := by
  have inside : ring.versions.length - 1 < ring.versions.length :=
    Nat.sub_lt (length_pos_iff.mpr numbered.nonempty) Nat.one_pos
  have number := numbered.numbers _ inside
  rw [Nat.sub_add_cancel (length_pos_iff.mpr numbered.nonempty)] at number
  refine ⟨ring.versions[ring.versions.length - 1].kek, ?_⟩
  rw [getLast?_eq_getElem?, getElem?_eq_getElem inside, ← number]

theorem Numbered.rotate (numbered : ring.Numbered) (newKek : Key32) :
    ∃ ring', ring.rotate newKek = .ok (UInt32.ofNat (ring.versions.length + 1), ring') ∧
      ring'.versions = ring.versions ++ [⟨UInt32.ofNat (ring.versions.length + 1), newKek⟩] ∧
      ring'.Numbered := by
  obtain ⟨kek, last⟩ := numbered.active
  have next : UInt32.ofNat ring.versions.length + 1 = UInt32.ofNat (ring.versions.length + 1) := by
    rw [UInt32.ofNat_add]
    rfl
  refine ⟨⟨ring.versions ++ [⟨UInt32.ofNat (ring.versions.length + 1), newKek⟩]⟩, ?_, rfl, ?_, ?_⟩
  · unfold Keyring.rotate activeVersion
    rw [last]
    show Except.ok (UInt32.ofNat ring.versions.length + 1, _) = _
    rw [next]
  · simp
  · intro place inside
    rw [length_append, length_singleton] at inside
    by_cases older : place < ring.versions.length
    · rw [getElem_append_left older]
      exact numbered.numbers place older
    · obtain rfl : place = ring.versions.length := by omega
      simp

theorem Numbered.finds_active (numbered : ring.Numbered) (fits : ring.versions.length ≤ 2 ^ 32)
    {active : KeyVersion} (last : ring.versions.getLast? = some active) :
    ring.kekForVersion active.version = some active.kek := by
  have inside : ring.versions.length - 1 < ring.versions.length :=
    Nat.sub_lt (length_pos_iff.mpr numbered.nonempty) Nat.one_pos
  rw [getLast?_eq_getElem?, getElem?_eq_getElem inside] at last
  have here : ring.versions[ring.versions.length - 1] = active := Option.some.inj last
  have found : ring.versions.find? (fun entry => entry.version == active.version) = some active := by
    refine find?_eq_some_iff_getElem.mpr ⟨beq_self_eq_true _, _, inside, here, fun place older => ?_⟩
    have differs : UInt32.ofNat (place + 1) ≠ UInt32.ofNat (ring.versions.length - 1 + 1) := by
      intro same
      have numbers := congrArg UInt32.toNat same
      rw [UInt32.toNat_ofNat', UInt32.toNat_ofNat'] at numbers
      omega
    rw [← here, numbered.numbers _ inside, numbered.numbers place (older.trans inside)]
    simpa using differs
  unfold kekForVersion
  rw [found]
  rfl

def grown (ring : Keyring) (kek : Key32) (count : ℕ) : Keyring :=
  ⟨ring.versions ++ (List.range count).map fun place =>
    ⟨UInt32.ofNat (ring.versions.length + place + 1), kek⟩⟩

theorem rotate_grown {kek : Key32} {count : ℕ} (numbered : (ring.grown kek count).Numbered) :
    ∃ version, (ring.grown kek count).rotate kek = .ok (version, ring.grown kek (count + 1)) ∧
      (ring.grown kek (count + 1)).Numbered := by
  obtain ⟨ring', rotates, extends', numbered'⟩ := numbered.rotate kek
  have same : ring' = ring.grown kek (count + 1) := by
    show Keyring.mk ring'.versions = _
    rw [extends']
    simp [grown, range_succ]
  exact ⟨_, same ▸ rotates, same ▸ numbered'⟩

theorem Numbered.grown (numbered : ring.Numbered) (kek : Key32) (count : ℕ) :
    (ring.grown kek count).Numbered := by
  induction count with
  | zero => simpa [Keyring.grown] using numbered
  | succ count ih => exact (rotate_grown ih).choose_spec.2

theorem getLast?_grown (ring : Keyring) (kek : Key32) {count : ℕ} (some' : 0 < count) :
    (ring.grown kek count).versions.getLast? =
      some ⟨UInt32.ofNat (ring.versions.length + count), kek⟩ := by
  obtain ⟨fewer, rfl⟩ := Nat.exists_eq_succ_of_ne_zero some'.ne'
  simp [grown, range_succ, Nat.add_assoc]

theorem Numbered.afterRun_grown {σ ω α : Type} {step : σ → ω → α × σ} {op : ω} {kek : Key32}
    (numbered : ring.Numbered) (put : Keyring → σ)
    (rotates : ∀ ring version ring', ring.rotate kek = .ok (version, ring') →
      (step (put ring) op).2 = put ring') (count : ℕ) :
    afterRun step (put ring) (replicate count op) = put (ring.grown kek count) := by
  induction count with
  | zero => simp [afterRun, Keyring.grown]
  | succ count ih =>
    obtain ⟨version, next, _⟩ := rotate_grown (numbered.grown kek count)
    rw [replicate_succ', afterRun_append, ih]
    exact rotates _ version _ next

theorem kekForVersion_append {ring' : Keyring} {added : List KeyVersion}
    (extends' : ring'.versions = ring.versions ++ added) {version : UInt32} {kek : Key32}
    (found : ring.kekForVersion version = some kek) : ring'.kekForVersion version = some kek := by
  unfold kekForVersion at found ⊢
  obtain ⟨entry, first, rfl⟩ := Option.map_eq_some_iff.mp found
  rw [extends', find?_append, first]
  rfl

end Keyring

/-! ### The layout -/

def kekVersionLen : ℕ := 4

def wrapNonceLen : ℕ := 24

def wrappedDekLen : ℕ := 48

def dataNonceLen : ℕ := 24

def dataTagLen : ℕ := 16

def wrapNonceOffset : ℕ := kekVersionLen

def wrappedDekOffset : ℕ := wrapNonceOffset + wrapNonceLen

def dataNonceOffset : ℕ := wrappedDekOffset + wrappedDekLen

def dataCtOffset : ℕ := dataNonceOffset + dataNonceLen

def minEnvelopeLen : ℕ := dataCtOffset + dataTagLen

example : minEnvelopeLen = 116 := rfl

def versionBytes (version : UInt32) : Bytes := toLeBytes kekVersionLen version.toNat

namespace Envelope

def kekVersion (envelope : Bytes) : UInt32 := UInt32.ofNat (ofLeBytes (envelope.take kekVersionLen))

def wrapNonce (envelope : Bytes) : Bytes := (envelope.drop wrapNonceOffset).take wrapNonceLen

def wrappedDek (envelope : Bytes) : Bytes := (envelope.drop wrappedDekOffset).take wrappedDekLen

def dataSection (envelope : Bytes) : Bytes := envelope.drop dataNonceOffset

def dataNonce (envelope : Bytes) : Bytes := (envelope.drop dataNonceOffset).take dataNonceLen

def dataCt (envelope : Bytes) : Bytes := envelope.drop dataCtOffset

def assemble (version : UInt32) (wrapNonce wrappedDek data : Bytes) : Bytes :=
  versionBytes version ++ wrapNonce ++ wrappedDek ++ data

section

variable (version : UInt32) {nonce wrapped : Bytes} (data : Bytes)

@[simp] theorem kekVersion_assemble : kekVersion (assemble version nonce wrapped data) = version := by
  have four : (versionBytes version).length = kekVersionLen := length_toLeBytes _ _
  unfold kekVersion assemble
  rw [append_assoc, append_assoc, ← four, take_left, versionBytes, ofLeBytes_toLeBytes]
  rw [Nat.mod_eq_of_lt (show version.toNat < 256 ^ kekVersionLen from version.toNat_lt)]
  exact UInt32.ofNat_toNat

variable (right : nonce.length = wrapNonceLen) (right' : wrapped.length = wrappedDekLen)

include right

theorem wrapNonce_assemble : wrapNonce (assemble version nonce wrapped data) = nonce := by
  have four : (versionBytes version).length = wrapNonceOffset := length_toLeBytes _ _
  unfold wrapNonce assemble
  rw [append_assoc, append_assoc, ← four, drop_left, ← right, take_left]

include right'

theorem wrappedDek_assemble : wrappedDek (assemble version nonce wrapped data) = wrapped := by
  have header : (versionBytes version ++ nonce).length = wrappedDekOffset := by
    rw [length_append, right, versionBytes, length_toLeBytes]
    rfl
  unfold wrappedDek assemble
  rw [append_assoc, ← header, drop_left, ← right', take_left]

theorem dataSection_assemble : dataSection (assemble version nonce wrapped data) = data := by
  have header : (versionBytes version ++ nonce ++ wrapped).length = dataNonceOffset := by
    rw [length_append, length_append, right, right', versionBytes, length_toLeBytes]
    rfl
  unfold dataSection assemble
  rw [← header, drop_left]

theorem length_assemble :
    (assemble version nonce wrapped data).length = dataNonceOffset + data.length := by
  unfold assemble
  rw [length_append, length_append, length_append, right, right', versionBytes,
    length_toLeBytes]
  rfl

end

theorem dataNonce_eq (envelope : Bytes) :
    dataNonce envelope = (dataSection envelope).take dataNonceLen := rfl

theorem dataCt_eq (envelope : Bytes) : dataCt envelope = (dataSection envelope).drop dataNonceLen := by
  unfold dataCt dataSection
  rw [drop_drop]
  rfl

end Envelope

open Envelope

/-! ### The cipher -/

structure EnvelopeCipher where
  keyring : Keyring
  rng : Rng

def Crypt.onRng {α : Type} (program : Crypt Rng α) : Crypt EnvelopeCipher α :=
  ExceptT.mk fun c => ((program.exec c.rng).1, { c with rng := (program.exec c.rng).2 })

def Crypt.readRing : Crypt EnvelopeCipher Keyring := ExceptT.mk fun c => (.ok c.keyring, c)

def generateDek : Crypt Rng Key32 := ExceptT.mk fun rng => (rng.drawKey, rng.next)

def randomNonce24 : Crypt Rng Bytes := randomBytes 24

namespace EnvelopeCipher

variable (crypto : OxiCrypto)

def encrypt (plaintext aad : Bytes) : Crypt EnvelopeCipher Bytes := do
  let ring ← Crypt.readRing
  let kekVersion ← Crypt.ofExcept ring.activeVersion
  let kek ← Crypt.ofExcept ring.activeKek
  let dek ← Crypt.onRng generateDek
  let wrapNonce ← Crypt.onRng randomNonce24
  let dataNonce ← Crypt.onRng randomNonce24
  let wrappedDek ← Crypt.ofExcept ((crypto.xChaCha20Poly1305.sealBytes kek wrapNonce
    (versionBytes kekVersion) dek.bytes).mapError .encryptionFailed)
  let dataCt ← Crypt.ofExcept ((crypto.xChaCha20Poly1305.sealBytes dek dataNonce aad
    plaintext).mapError .encryptionFailed)
  pure (Envelope.assemble kekVersion wrapNonce wrappedDek (dataNonce ++ dataCt))

def kekFor (ring : Keyring) (version : UInt32) : Except EncryptError Key32 :=
  match ring.kekForVersion version with
  | some kek => .ok kek
  | none => .error (.missingKekVersion version)

def unwrapDek (kek : Key32) (version : UInt32) (wrapNonce wrappedDek : Bytes) :
    Except EncryptError Key32 :=
  match crypto.xChaCha20Poly1305.openBytes kek wrapNonce (versionBytes version) wrappedDek with
  | .error _ => .error .authenticationFailed
  | .ok bytes =>
      if right : bytes.length = 32 then .ok ⟨bytes, right⟩ else .error .authenticationFailed

def decrypt (ring : Keyring) (ciphertext aad : Bytes) : Except EncryptError Bytes := do
  if ciphertext.length < minEnvelopeLen then
    throw (.ciphertextTooShort minEnvelopeLen ciphertext.length)
  let kekVersion := Envelope.kekVersion ciphertext
  let kek ← kekFor ring kekVersion
  let dek ← unwrapDek crypto kek kekVersion (Envelope.wrapNonce ciphertext)
    (Envelope.wrappedDek ciphertext)
  (crypto.xChaCha20Poly1305.openBytes dek (Envelope.dataNonce ciphertext) aad
    (Envelope.dataCt ciphertext)).mapError fun _ => .authenticationFailed

def addKekVersion (newKek : Key32) : Crypt EnvelopeCipher UInt32 := ExceptT.mk fun c =>
  match c.keyring.rotate newKek with
  | .ok (version, ring) => (.ok version, { c with keyring := ring })
  | .error error => (.error error, c)

def rewrapEnvelope (envelope : Bytes) : Crypt EnvelopeCipher Bytes := do
  if envelope.length < minEnvelopeLen then
    throw (.ciphertextTooShort minEnvelopeLen envelope.length)
  let oldVersion := Envelope.kekVersion envelope
  let ring ← Crypt.readRing
  let oldKek ← Crypt.ofExcept (kekFor ring oldVersion)
  let newKekVersion ← Crypt.ofExcept ring.activeVersion
  let newKek ← Crypt.ofExcept ring.activeKek
  let dek ← Crypt.ofExcept (unwrapDek crypto oldKek oldVersion (Envelope.wrapNonce envelope)
    (Envelope.wrappedDek envelope))
  let newWrapNonce ← Crypt.onRng randomNonce24
  let newWrappedDek ← Crypt.ofExcept ((crypto.xChaCha20Poly1305.sealBytes newKek newWrapNonce
    (versionBytes newKekVersion) dek.bytes).mapError .encryptionFailed)
  pure (Envelope.assemble newKekVersion newWrapNonce newWrappedDek (envelope.drop dataNonceOffset))

/-! ### What an envelope holds -/

/-- **The plaintext an envelope holds**, wrapped under this entry of a keyring. -/
structure Holds (entry : KeyVersion) (aad plaintext envelope : Bytes) : Prop where
  long : minEnvelopeLen ≤ envelope.length
  named : Envelope.kekVersion envelope = entry.version
  opens : ∃ dek, unwrapDek crypto entry.kek entry.version (Envelope.wrapNonce envelope)
      (Envelope.wrappedDek envelope) = .ok dek ∧
    crypto.xChaCha20Poly1305.openBytes dek (Envelope.dataNonce envelope) aad
      (Envelope.dataCt envelope) = .ok plaintext

variable {crypto} {ring : Keyring} {envelope plaintext : Bytes}

theorem decrypt_eq_ok_iff {aad : Bytes} :
    decrypt crypto ring envelope aad = .ok plaintext ↔
      ∃ kek, ring.kekForVersion (kekVersion envelope) = some kek ∧
        Holds crypto ⟨kekVersion envelope, kek⟩ aad plaintext envelope := by
  unfold decrypt kekFor
  constructor
  · intro opened
    by_cases short : envelope.length < minEnvelopeLen
    · rw [if_pos short] at opened
      cases opened
    rw [if_neg short] at opened
    cases found : ring.kekForVersion (kekVersion envelope) with
    | none =>
      simp only [found] at opened
      cases opened
    | some kek =>
      simp only [found] at opened
      cases unwraps : unwrapDek crypto kek (kekVersion envelope) (wrapNonce envelope)
          (wrappedDek envelope) with
      | error error =>
        simp only [bind, Except.bind, unwraps] at opened
        cases opened
      | ok dek =>
        refine ⟨kek, rfl, not_lt.mp short, rfl, dek, unwraps, ?_⟩
        simp only [bind, Except.bind, unwraps] at opened
        cases opens : crypto.xChaCha20Poly1305.openBytes dek (dataNonce envelope) aad
            (dataCt envelope) with
        | error text =>
          rw [opens] at opened
          cases opened
        | ok bytes =>
          rw [opens] at opened
          cases opened
          rfl
  · rintro ⟨kek, found, long, _, dek, unwraps, opens⟩
    rw [if_neg (not_lt.mpr long)]
    simp only [bind, Except.bind, found, unwraps, opens]
    rfl

theorem decrypt_append {ring' : Keyring} {added : List KeyVersion}
    (extends' : ring'.versions = ring.versions ++ added) {aad : Bytes}
    (opened : decrypt crypto ring envelope aad = .ok plaintext) :
    decrypt crypto ring' envelope aad = .ok plaintext := by
  obtain ⟨kek, found, holds⟩ := decrypt_eq_ok_iff.mp opened
  exact decrypt_eq_ok_iff.mpr ⟨kek, Keyring.kekForVersion_append extends' found, holds⟩

theorem Holds.decrypt {entry : KeyVersion} {aad : Bytes} (holds : Holds crypto entry aad plaintext envelope)
    (found : ring.kekForVersion entry.version = some entry.kek) :
    decrypt crypto ring envelope aad = .ok plaintext := by
  refine decrypt_eq_ok_iff.mpr ⟨entry.kek, ?_, ?_⟩
  · rw [holds.named, found]
  · rw [holds.named]
    exact holds

/-! ### Computations that fail only with the generator -/

def Ends {α : Type} (program : Crypt EnvelopeCipher α) (c : EnvelopeCipher) (done : α → Prop) : Prop :=
  (program.exec c).2.keyring = c.keyring ∧ c.rng.Later (program.exec c).2.rng ∧
    match (program.exec c).1 with
    | .ok value => done value
    | .error error => error = .rngFailed ∧ c.rng.failures < (program.exec c).2.rng.failures

section

variable {α β : Type} {program : Crypt EnvelopeCipher α} {c c' : EnvelopeCipher} {done : α → Prop}
  {value : α}

theorem ends_of_ok (runs : program.exec c = (.ok value, c)) (holds : done value) : Ends program c done := by
  unfold Ends
  rw [runs]
  exact ⟨rfl, Rng.Later.refl _, holds⟩

theorem ends_pure (holds : done value) : Ends (pure value) c done := ends_of_ok rfl holds

theorem Ends.exec_ok (ends : Ends program c done) (reliable : c.rng.Reliable) :
    ∃ value c', program.exec c = (.ok value, c') ∧ c'.keyring = c.keyring ∧ c'.rng.Reliable ∧
      done value := by
  unfold Ends at ends
  rcases runs : program.exec c with ⟨error | value, c'⟩
  · rw [runs] at ends
    obtain ⟨-, later, -, failed⟩ := ends
    exact absurd failed (reliable.failures_eq later).not_gt
  · rw [runs] at ends
    obtain ⟨ring, later, holds⟩ := ends
    exact ⟨value, c', rfl, ring, fun use => later.1 ▸ reliable use, holds⟩

variable {result : Except EncryptError α}

theorem ends_onRng {draw : Crypt Rng α} (draws : draw.exec c.rng = (result, c.rng.next))
    (succeeds : ∀ value, result = .ok value → done value) (fails : ∀ error, result = .error error →
      error = .rngFailed ∧ c.rng.failures < c.rng.next.failures) :
    Ends (Crypt.onRng draw) c done := by
  have runs : (Crypt.onRng draw).exec c = (result, { c with rng := c.rng.next }) := by
    show ((draw.exec c.rng).1, ({ c with rng := (draw.exec c.rng).2 } : EnvelopeCipher)) = _
    rw [draws]
  unfold Ends
  rw [runs]
  refine ⟨rfl, Rng.Later.next _, ?_⟩
  cases result with
  | ok value => exact succeeds value rfl
  | error error => exact fails error rfl

theorem ends_randomNonce24 : Ends (Crypt.onRng randomNonce24) c fun nonce => nonce.length = 24 :=
  ends_onRng (exec_randomBytes 24 c.rng) (fun _ => Rng.length_of_draw) fun _ => Rng.failures_of_draw

theorem ends_generateDek : Ends (Crypt.onRng generateDek) c fun _ => True :=
  ends_onRng rfl (fun _ _ => trivial) fun _ => Rng.failures_of_drawKey

variable {rest : α → Crypt EnvelopeCipher β} {done : β → Prop}

theorem Ends.bind {mid : α → Prop} (first : Ends program c mid)
    (second : ∀ value c', c'.keyring = c.keyring → mid value → Ends (rest value) c' done) :
    Ends (program >>= rest) c done := by
  unfold Ends at first
  rcases runs : program.exec c with ⟨error | value, c'⟩
  · rw [runs] at first
    unfold Ends
    rw [Crypt.exec_bind_error runs]
    exact first
  · rw [runs] at first
    obtain ⟨ring, later, holds⟩ := first
    have continues := second value c' ring holds
    unfold Ends at continues ⊢
    rw [Crypt.exec_bind_ok runs]
    obtain ⟨ring', later', result⟩ := continues
    refine ⟨ring'.trans ring, later.trans later', ?_⟩
    cases found : ((rest value).exec c').1 with
    | ok value' =>
      rw [found] at result
      exact result
    | error error =>
      rw [found] at result
      exact ⟨result.1, lt_of_le_of_lt later.failures_le result.2⟩

theorem ends_bind_ok (runs : program.exec c = (.ok value, c)) (second : Ends (rest value) c done) :
    Ends (program >>= rest) c done := by
  unfold Ends
  rw [Crypt.exec_bind_ok runs]
  exact second

theorem ends_bind_ofExcept (succeeds : result = .ok value) (second : Ends (rest value) c done) :
    Ends (Crypt.ofExcept result >>= rest) c done := by
  rw [succeeds]
  exact ends_bind_ok rfl second

end

/-! ### Encryption and re-wrapping -/

section

variable (ideal : crypto.xChaCha20Poly1305.Ideal 24) {c : EnvelopeCipher} {active : KeyVersion}
  (last : c.keyring.versions.getLast? = some active)

theorem activeVersion_eq {ring : Keyring} (last : ring.versions.getLast? = some active) :
    ring.activeVersion = .ok active.version := by
  unfold Keyring.activeVersion
  rw [last]

theorem activeKek_eq {ring : Keyring} (last : ring.versions.getLast? = some active) :
    ring.activeKek = .ok active.kek := by
  unfold Keyring.activeKek
  rw [last]

include ideal

theorem wrapDek_spec (kek dek : Key32) (version : UInt32) {nonce : Bytes} (right : nonce.length = 24) :
    ∃ wrapped, crypto.xChaCha20Poly1305.sealBytes kek nonce (versionBytes version) dek.bytes =
        .ok wrapped ∧ wrapped.length = wrappedDekLen ∧
      unwrapDek crypto kek version nonce wrapped = .ok dek := by
  obtain ⟨wrapped, seals, longer, opens⟩ := ideal.seals kek (versionBytes version) dek.bytes right
  refine ⟨wrapped, seals, ?_, ?_⟩
  · rw [longer, dek.length_eq]
    rfl
  · unfold unwrapDek
    rw [opens]
    exact dif_pos dek.length_eq

include last

theorem encrypt_spec (plaintext aad : Bytes) :
    Ends (encrypt crypto plaintext aad) c fun envelope => Holds crypto active aad plaintext envelope := by
  unfold encrypt
  refine ends_bind_ok rfl (ends_bind_ofExcept (activeVersion_eq last)
    (ends_bind_ofExcept (activeKek_eq last) ?_))
  refine ends_generateDek.bind fun dek c₁ _ _ => ?_
  refine ends_randomNonce24.bind fun wrapNonce c₂ _ right => ?_
  refine ends_randomNonce24.bind fun dataNonce c₃ _ right' => ?_
  obtain ⟨wrapped, wraps, length, unwraps⟩ := wrapDek_spec ideal active.kek dek active.version right
  obtain ⟨dataCt, seals, longer, opens⟩ := ideal.seals dek aad plaintext right'
  have wraps' : (crypto.xChaCha20Poly1305.sealBytes active.kek wrapNonce (versionBytes active.version)
      dek.bytes).mapError EncryptError.encryptionFailed = .ok wrapped := by
    rw [wraps]
    rfl
  have seals' : (crypto.xChaCha20Poly1305.sealBytes dek dataNonce aad plaintext).mapError
      EncryptError.encryptionFailed = .ok dataCt := by
    rw [seals]
    rfl
  refine ends_bind_ofExcept wraps' (ends_bind_ofExcept seals' (ends_pure ?_))
  have body := dataSection_assemble active.version (dataNonce ++ dataCt) right length
  refine ⟨?_, kekVersion_assemble _ _, dek, ?_, ?_⟩
  · rw [length_assemble _ _ right length, length_append, right', longer]
    show 116 ≤ 76 + (24 + (plaintext.length + 16))
    omega
  · rw [wrapNonce_assemble _ _ right, wrappedDek_assemble _ _ right length]
    exact unwraps
  · rw [dataNonce_eq, dataCt_eq, body, show dataNonceLen = dataNonce.length from
      right'.symm, take_left, drop_left]
    exact opens

theorem rewrap_spec {envelope aad plaintext : Bytes}
    (opened : decrypt crypto c.keyring envelope aad = .ok plaintext) :
    Ends (rewrapEnvelope crypto envelope) c fun envelope' =>
      Holds crypto active aad plaintext envelope' ∧
        dataSection envelope' = dataSection envelope := by
  obtain ⟨kek, found, holds⟩ := decrypt_eq_ok_iff.mp opened
  obtain ⟨long, -, dek, unwraps, opens⟩ := holds
  have finds : kekFor c.keyring (kekVersion envelope) = .ok kek := by
    unfold kekFor
    rw [found]
  unfold rewrapEnvelope
  rw [if_neg (not_lt.mpr long)]
  refine ends_bind_ok rfl (ends_bind_ofExcept finds (ends_bind_ofExcept (activeVersion_eq last)
    (ends_bind_ofExcept (activeKek_eq last) (ends_bind_ofExcept unwraps ?_))))
  refine ends_randomNonce24.bind fun nonce c₁ _ right => ?_
  obtain ⟨wrapped, wraps, length, unwraps'⟩ := wrapDek_spec ideal active.kek dek active.version right
  have wraps' : (crypto.xChaCha20Poly1305.sealBytes active.kek nonce (versionBytes active.version)
      dek.bytes).mapError EncryptError.encryptionFailed = .ok wrapped := by
    rw [wraps]
    rfl
  refine ends_bind_ofExcept wraps' (ends_pure ?_)
  have body := dataSection_assemble active.version (envelope.drop dataNonceOffset) right length
  refine ⟨⟨?_, kekVersion_assemble _ _, dek, ?_, ?_⟩, body⟩
  · rw [length_assemble _ _ right length, length_drop]
    omega
  · rw [wrapNonce_assemble _ _ right, wrappedDek_assemble _ _ right length]
    exact unwraps'
  · rw [dataNonce_eq, dataCt_eq, body]
    rw [dataNonce_eq, dataCt_eq] at opens
    exact opens

end

/-! ### Runs of additions and re-wraps -/

inductive Rotation where
  | addKek (kek : Key32)
  | rewrap

structure Keeping where
  cipher : EnvelopeCipher
  envelope : Bytes

variable (crypto)

def Keeping.step (kept : Keeping) : Rotation → Except EncryptError Unit × Keeping
  | .addKek kek => (((addKekVersion kek).exec kept.cipher).1.map fun _ => (),
      { kept with cipher := ((addKekVersion kek).exec kept.cipher).2 })
  | .rewrap => match (rewrapEnvelope crypto kept.envelope).exec kept.cipher with
      | (.ok envelope, cipher) => (.ok (), ⟨cipher, envelope⟩)
      | (.error error, cipher) => (.error error, { kept with cipher := cipher })

def Keeping.Fits (kept : Keeping) (rotation : Rotation) : Prop :=
  rotation = .rewrap → kept.cipher.keyring.versions.length ≤ 2 ^ 32

variable {crypto}

/-- **The envelope is intact**: it opens to the plaintext, and its data section is the first one. -/
structure Keeping.Intact (crypto : OxiCrypto) (aad plaintext data : Bytes) (kept : Keeping) : Prop where
  numbered : kept.cipher.keyring.Numbered
  opens : decrypt crypto kept.cipher.keyring kept.envelope aad = .ok plaintext
  data : Envelope.dataSection kept.envelope = data

variable {aad plaintext data : Bytes} {kept : Keeping}

theorem exec_addKekVersion {c : EnvelopeCipher} {kek : Key32} {version : UInt32}
    (rotates : c.keyring.rotate kek = .ok (version, ring)) :
    (addKekVersion kek).exec c = (.ok version, { c with keyring := ring }) := by
  show (match c.keyring.rotate kek with
    | .ok (version, ring) => (Except.ok version, { c with keyring := ring })
    | .error error => (.error error, c)) = _
  rw [rotates]

theorem Keeping.intact_addKek (intact : kept.Intact crypto aad plaintext data) (kek : Key32) :
    (kept.step crypto (.addKek kek)).2.Intact crypto aad plaintext data := by
  obtain ⟨ring, rotates, extends', numbered⟩ := intact.numbered.rotate kek
  simp only [Keeping.step, exec_addKekVersion rotates]
  exact ⟨numbered, decrypt_append extends' intact.opens, intact.data⟩

variable (ideal : crypto.xChaCha20Poly1305.Ideal 24)

include ideal

theorem Keeping.step_rewrap (intact : kept.Intact crypto aad plaintext data) {active : KeyVersion}
    (last : kept.cipher.keyring.versions.getLast? = some active) :
    (kept.step crypto .rewrap).2.cipher.keyring = kept.cipher.keyring ∧
      (((kept.step crypto .rewrap).1 = .ok () ∧
          Holds crypto active aad plaintext (kept.step crypto .rewrap).2.envelope ∧
          dataSection (kept.step crypto .rewrap).2.envelope = data) ∨
        ((kept.step crypto .rewrap).1 = .error .rngFailed ∧
          (kept.step crypto .rewrap).2.envelope = kept.envelope)) := by
  have spec := rewrap_spec ideal last intact.opens
  unfold Ends at spec
  unfold Keeping.step
  rcases runs : (rewrapEnvelope crypto kept.envelope).exec kept.cipher with ⟨error | envelope, cipher⟩
  · rw [runs] at spec
    obtain ⟨ring, -, rfl, -⟩ := spec
    exact ⟨ring, .inr ⟨rfl, rfl⟩⟩
  · rw [runs] at spec
    obtain ⟨ring, -, holds, same⟩ := spec
    exact ⟨ring, .inl ⟨rfl, holds, same.trans intact.data⟩⟩

theorem Keeping.intact_rewrap (intact : kept.Intact crypto aad plaintext data)
    (fits : kept.cipher.keyring.versions.length ≤ 2 ^ 32) :
    (kept.step crypto .rewrap).2.Intact crypto aad plaintext data := by
  obtain ⟨kek, last⟩ := intact.numbered.active
  obtain ⟨ring, ⟨-, holds, same⟩ | ⟨-, same⟩⟩ := Keeping.step_rewrap ideal intact last
  · refine ⟨ring ▸ intact.numbered, ?_, same⟩
    rw [ring]
    exact holds.decrypt (intact.numbered.finds_active fits last)
  · refine ⟨ring ▸ intact.numbered, ?_, ?_⟩
    · rw [ring, same]
      exact intact.opens
    · rw [same]
      exact intact.data

theorem Keeping.intact_encrypt {c c' : EnvelopeCipher} (numbered : c.keyring.Numbered)
    (fits : c.keyring.versions.length ≤ 2 ^ 32)
    (encrypts : (encrypt crypto plaintext aad).exec c = (.ok envelope, c')) :
    Keeping.Intact crypto aad plaintext (dataSection envelope) ⟨c', envelope⟩ := by
  obtain ⟨kek, last⟩ := numbered.active
  have spec := encrypt_spec ideal last plaintext aad
  unfold Ends at spec
  rw [encrypts] at spec
  obtain ⟨ring, -, holds⟩ := spec
  have ring' : c'.keyring = c.keyring := ring
  refine ⟨ring' ▸ numbered, ?_, rfl⟩
  rw [ring']
  exact holds.decrypt (numbered.finds_active fits last)

theorem Keeping.alongRun_fits (intact : kept.Intact crypto aad plaintext data) {rotations : List Rotation}
    (few : kept.cipher.keyring.versions.length + rotations.length ≤ 2 ^ 32) :
    AlongRun (Keeping.step crypto) Keeping.Fits kept rotations := by
  induction rotations generalizing kept with
  | nil => exact trivial
  | cons rotation rotations ih =>
    rw [length_cons] at few
    refine ⟨fun _ => by omega, ?_⟩
    cases rotation with
    | addKek kek =>
      refine ih (Keeping.intact_addKek intact kek) ?_
      obtain ⟨ring, rotates, extends', -⟩ := intact.numbered.rotate kek
      simp only [Keeping.step, exec_addKekVersion rotates, extends', length_append,
        length_singleton]
      omega
    | rewrap =>
      obtain ⟨kek, last⟩ := intact.numbered.active
      refine ih (Keeping.intact_rewrap ideal intact (by omega)) ?_
      rw [(Keeping.step_rewrap ideal intact last).1]
      omega

end EnvelopeCipher

/-! ### Envelopes in every run -/

open EnvelopeCipher

/-- **Envelopes survive additions and re-wraps.** In every run from an encryption on in which the
encryption and the re-wraps meet at most `2^32` versions, the envelope opens to its plaintext and keeps
its data section; and a further re-wrap, unless the generator fails, leaves an envelope that the newest
KEK alone opens. -/
theorem envelope_survives_rewraps {crypto : OxiCrypto} (ideal : crypto.xChaCha20Poly1305.Ideal 24)
    {c c' : EnvelopeCipher} (numbered : c.keyring.Numbered)
    (fits : c.keyring.versions.length ≤ 2 ^ 32) {plaintext aad envelope : Bytes}
    (encrypts : (encrypt crypto plaintext aad).exec c = (.ok envelope, c'))
    (rotations : List Rotation)
    (along : AlongRun (Keeping.step crypto) Keeping.Fits ⟨c', envelope⟩ rotations) (kept : Keeping)
    (reached : kept = afterRun (Keeping.step crypto) ⟨c', envelope⟩ rotations) :
    decrypt crypto kept.cipher.keyring kept.envelope aad = .ok plaintext ∧
      Envelope.dataSection kept.envelope = Envelope.dataSection envelope ∧
      ((kept.step crypto .rewrap).1 = .error .rngFailed ∨
        (kept.step crypto .rewrap).1 = .ok () ∧
          decrypt crypto (kept.step crypto .rewrap).2.cipher.keyring.newestOnly
            (kept.step crypto .rewrap).2.envelope aad = .ok plaintext) := by
  have start := Keeping.intact_encrypt ideal numbered fits encrypts
  have intact : kept.Intact crypto aad plaintext (dataSection envelope) := by
    rw [reached]
    refine afterRun_invariant (fun kept rotation intact fits => ?_) start along
    cases rotation with
    | addKek kek => exact Keeping.intact_addKek intact kek
    | rewrap => exact Keeping.intact_rewrap ideal intact (fits rfl)
  obtain ⟨kek, last⟩ := intact.numbered.active
  refine ⟨intact.opens, intact.data, ?_⟩
  obtain ⟨ring, ⟨succeeds, holds, -⟩ | ⟨fails, -⟩⟩ := Keeping.step_rewrap ideal intact last
  · refine .inr ⟨succeeds, holds.decrypt ?_⟩
    unfold Keyring.newestOnly Keyring.kekForVersion
    rw [ring, last]
    simp
  · exact .inl fails

theorem envelope_survives_two_versions :
    ∃ envelope c', (encrypt .keyTagged [97] [107]).exec ⟨.new (.ofByte 1), .constant []⟩ =
        (.ok envelope, c') ∧
      let after := afterRun (Keeping.step .keyTagged) ⟨c', envelope⟩ [.rewrap, .addKek (.ofByte 2), .rewrap]
      decrypt .keyTagged after.cipher.keyring after.envelope [107] = .ok [97] := by
  obtain ⟨envelope, c', runs, ring, -, -⟩ := (encrypt_spec OxiCrypto.keyTagged_ideal.1
    (c := ⟨.new (.ofByte 1), .constant []⟩) rfl [97] [107]).exec_ok (Rng.reliable_constant [])
  have numbered := Keyring.numbered_new (.ofByte 1)
  have fits : (Keyring.new (.ofByte 1)).versions.length ≤ 2 ^ 32 := by decide
  have intact := Keeping.intact_encrypt OxiCrypto.keyTagged_ideal.1 numbered fits runs
  have few : c'.keyring.versions.length + 3 ≤ 2 ^ 32 := by
    rw [ring]
    decide
  have along : AlongRun (Keeping.step .keyTagged) Keeping.Fits ⟨c', envelope⟩
      [.rewrap, .addKek (.ofByte 2), .rewrap] :=
    Keeping.alongRun_fits OxiCrypto.keyTagged_ideal.1 intact few
  exact ⟨envelope, c', runs, (envelope_survives_rewraps OxiCrypto.keyTagged_ideal.1 numbered fits runs
    _ along _ rfl).1⟩

theorem decrypt_keyTagged_other {entry : KeyVersion} {aad plaintext envelope : Bytes}
    (holds : Holds .keyTagged entry aad plaintext envelope) {ring : Keyring} {other : Key32}
    (found : ring.kekForVersion entry.version = some other)
    (differs : entry.kek.bytes.take 16 ≠ other.bytes.take 16) :
    decrypt .keyTagged ring envelope aad = .error .authenticationFailed := by
  obtain ⟨long, named, dek, unwraps, -⟩ := holds
  have tagged : (wrappedDek envelope).drop ((wrappedDek envelope).length - 16) =
      entry.kek.bytes.take 16 := by
    by_contra wrong
    simp [unwrapDek, OxiCrypto.keyTagged, Primitive.keyTagged, if_neg wrong] at unwraps
  have refused : unwrapDek .keyTagged other entry.version (wrapNonce envelope)
      (wrappedDek envelope) = .error .authenticationFailed := by
    simp [unwrapDek, OxiCrypto.keyTagged, Primitive.keyTagged, tagged, if_neg differs]
  unfold decrypt kekFor
  rw [if_neg (not_lt.mpr long)]
  simp only [bind, Except.bind, named, found, refused]

theorem Keeping.unreadable_past_the_last_number {kept : Keeping} {aad plaintext data : Bytes}
    (intact : kept.Intact .keyTagged aad plaintext data) (reliable : kept.cipher.rng.Reliable)
    {first kek : Key32} (found : kept.cipher.keyring.kekForVersion 1 = some first)
    (differs : kek.bytes.take 16 ≠ first.bytes.take 16) {count : ℕ} (some' : 0 < count)
    (round : UInt32.ofNat (kept.cipher.keyring.versions.length + count) = 1) :
    ∃ kept', kept' = afterRun (Keeping.step .keyTagged) kept
        (replicate count (.addKek kek) ++ [.rewrap]) ∧
      decrypt .keyTagged kept'.cipher.keyring kept'.envelope aad = .error .authenticationFailed := by
  have rotates : ∀ ring version ring', ring.rotate kek = .ok (version, ring') →
      (Keeping.step .keyTagged ⟨⟨ring, kept.cipher.rng⟩, kept.envelope⟩ (.addKek kek)).2 =
        ⟨⟨ring', kept.cipher.rng⟩, kept.envelope⟩ := by
    intro ring version ring' rotates
    have adds := exec_addKekVersion (c := ⟨ring, kept.cipher.rng⟩) rotates
    simp only [Keeping.step, adds]
  have adds := intact.numbered.afterRun_grown (fun ring => Keeping.mk ⟨ring, kept.cipher.rng⟩
    kept.envelope) rotates count
  have last := kept.cipher.keyring.getLast?_grown kek some'
  rw [round] at last
  have spec := rewrap_spec OxiCrypto.keyTagged_ideal.1
    (c := { kept.cipher with keyring := kept.cipher.keyring.grown kek count }) last
    (decrypt_append rfl intact.opens)
  obtain ⟨envelope, c', runs, same, -, holds, -⟩ := spec.exec_ok reliable
  refine ⟨⟨c', envelope⟩, ?_, ?_⟩
  · rw [afterRun_append, adds]
    simp only [afterRun, Keeping.step, runs]
  · show decrypt _ c'.keyring _ _ = _
    rw [same]
    exact decrypt_keyTagged_other holds (Keyring.kekForVersion_append rfl found) differs

theorem rewrap_past_the_last_number :
    ∃ envelope c', (encrypt .keyTagged [97] [107]).exec
        ⟨⟨[⟨1, .ofByte 1⟩, ⟨2, .ofByte 2⟩, ⟨3, .ofByte 3⟩]⟩, .constant []⟩ = (.ok envelope, c') ∧
      ∃ kept, kept = afterRun (Keeping.step .keyTagged) ⟨c', envelope⟩
          (List.replicate (2 ^ 32 - 2) (.addKek (.ofByte 4)) ++ [.rewrap]) ∧
        decrypt .keyTagged kept.cipher.keyring kept.envelope [107] =
          .error .authenticationFailed := by
  have numbered : (⟨[⟨1, .ofByte 1⟩, ⟨2, .ofByte 2⟩, ⟨3, .ofByte 3⟩]⟩ : Keyring).Numbered := by
    refine ⟨cons_ne_nil _ _, fun place inside => ?_⟩
    match place with
    | 0 | 1 | 2 => rfl
    | place + 3 => exact absurd inside (by simp)
  obtain ⟨kek, last⟩ := numbered.active
  have spec := encrypt_spec OxiCrypto.keyTagged_ideal.1 (c := ⟨_, .constant []⟩) last [97] [107]
  obtain ⟨envelope, c', runs, ring, reliable, -⟩ := spec.exec_ok (Rng.reliable_constant [])
  have intact := Keeping.intact_encrypt OxiCrypto.keyTagged_ideal.1 numbered (by decide) runs
  have found : c'.keyring.kekForVersion 1 = some (.ofByte 1) := by
    rw [ring]
    rfl
  have round : UInt32.ofNat (c'.keyring.versions.length + (2 ^ 32 - 2)) = 1 := by
    rw [ring]
    rfl
  exact ⟨envelope, c', runs, Keeping.unreadable_past_the_last_number intact reliable found (by decide)
    (by decide) round⟩

end OxiStore
