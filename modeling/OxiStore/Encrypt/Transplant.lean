/-
**Transplants and splices.**
-/

import OxiStore.Encrypt.Cell
import OxiStore.Encrypt.Envelope

namespace OxiStore

open ByteString Results Envelope EnvelopeCipher List

/-! ### What was sealed -/

def AeadKind.primitive (crypto : OxiCrypto) : AeadKind → Primitive
  | .xChaCha20Poly1305 => crypto.xChaCha20Poly1305
  | .aesGcmSiv256 => crypto.aesGcmSiv256

structure Sealing where
  kind : AeadKind
  key : Key32
  nonce : Bytes
  aad : Bytes
  ciphertext : Bytes
deriving DecidableEq

/-- **A ciphertext that is stored**, with what it was sealed for. -/
inductive Stored where
  | cell (cellId : CellId) (wire : Bytes)
  | value (kind : AeadKind) (storeKey wire : Bytes)
  | envelope (aad : Bytes) (dek : Key32) (bytes : Bytes)
deriving DecidableEq

def wrapSealing (kek : Key32) (envelope : Bytes) : Sealing :=
  ⟨.xChaCha20Poly1305, kek, Envelope.wrapNonce envelope, versionBytes (Envelope.kekVersion envelope),
    Envelope.wrappedDek envelope⟩

def dataSealing (dek : Key32) (aad envelope : Bytes) : Sealing :=
  ⟨.xChaCha20Poly1305, dek, Envelope.dataNonce envelope, aad, Envelope.dataCt envelope⟩

theorem dataSealing_eq_of_dataSection_eq {first second : Bytes} (dek : Key32) (aad : Bytes)
    (same : dataSection first = dataSection second) :
    dataSealing dek aad first = dataSealing dek aad second := by
  unfold dataSealing
  rw [dataNonce_eq, dataNonce_eq, dataCt_eq, dataCt_eq, same]

variable (crypto : OxiCrypto)

def wireSealing (kind : AeadKind) (key : Key32) (aad wire : Bytes) : Sealing :=
  ⟨kind, key, wire.take (kind.aead crypto).nonceLen, aad, wire.drop (kind.aead crypto).nonceLen⟩

def Sealing.Made (sealing : Sealing) : Prop :=
  ∃ plaintext, (sealing.kind.primitive crypto).sealBytes sealing.key sealing.nonce sealing.aad plaintext =
    .ok sealing.ciphertext

/-- **What is stored is made of entries of the log**, and the key an envelope wraps is its data key. -/
def Stored.SealedIn (log : List Sealing) : Stored → Prop
  | .cell cellId wire => ∃ key,
      wireSealing crypto .xChaCha20Poly1305 key cellId.toAadBytes wire ∈ log
  | .value kind storeKey wire => ∃ key,
      wireSealing crypto kind key (deriveCellId crypto storeKey) wire ∈ log
  | .envelope aad dek bytes => dataNonceOffset ≤ bytes.length ∧ dataSealing dek aad bytes ∈ log ∧
      ∃ kek, wrapSealing kek bytes ∈ log ∧
        EnvelopeCipher.unwrapDek crypto kek (Envelope.kekVersion bytes) (Envelope.wrapNonce bytes)
          (Envelope.wrappedDek bytes) = .ok dek

theorem Stored.SealedIn.mono {crypto : OxiCrypto} {log log' : List Sealing} {stored : Stored}
    (sealed : stored.SealedIn crypto log) (more : log ⊆ log') : stored.SealedIn crypto log' := by
  cases stored with
  | cell cellId wire | value kind storeKey wire => exact sealed.imp fun _ logged => more logged
  | envelope aad dek bytes =>
    obtain ⟨long, data, kek, wrapped, unwraps⟩ := sealed
    exact ⟨long, more data, kek, more wrapped, unwraps⟩

/-! ### Runs -/

inductive SealOp where
  | cell (provider : KeyProvider) (cellId : CellId) (plaintext : Bytes)
  | value (kind : AeadKind) (provider : KeyProvider) (storeKey plaintext : Bytes)
  | envelope (plaintext aad : Bytes)
  | addKek (kek : Key32)
  | rewrap (place : ℕ)

structure Sealer where
  cipher : EnvelopeCipher
  log : List Sealing
  stored : List Stored

namespace Sealer

def keeping (s : Sealer) (program : Crypt EnvelopeCipher Bytes)
    (record : Bytes → List Sealing × Stored) : Sealer :=
  match program.exec s.cipher with
  | (.ok bytes, cipher) => ⟨cipher, (record bytes).1 ++ s.log, (record bytes).2 :: s.stored⟩
  | (.error _, cipher) => { s with cipher := cipher }

variable {S T N : Type} (inner : KvStore S T N)

/-- **One call.** A value is sealed as `EncryptedKv::put` seals it; a re-wrapped envelope is stored
besides the one it was made from. -/
def step (s : Sealer) : SealOp → Sealer
  | .cell provider cellId plaintext =>
      match provider.key32 with
      | .error _ => s
      | .ok key => s.keeping (Crypt.onRng (encryptCell crypto provider cellId plaintext)) fun wire =>
          ([wireSealing crypto .xChaCha20Poly1305 key cellId.toAadBytes wire], .cell cellId wire)
  | .value kind provider storeKey plaintext =>
      match provider.key32 with
      | .error _ => s
      | .ok key => s.keeping
          (Crypt.onRng ((EncryptedKv.mk inner provider (kind.aead crypto)).encryptValue
            (deriveCellId crypto storeKey) plaintext)) fun wire =>
          ([wireSealing crypto kind key (deriveCellId crypto storeKey) wire], .value kind storeKey wire)
  | .envelope plaintext aad =>
      match s.cipher.keyring.versions.getLast?, s.cipher.rng.drawKey with
      | some active, .ok dek => s.keeping (EnvelopeCipher.encrypt crypto plaintext aad) fun bytes =>
          ([wrapSealing active.kek bytes, dataSealing dek aad bytes], .envelope aad dek bytes)
      | _, _ => { s with cipher := ((EnvelopeCipher.encrypt crypto plaintext aad).exec s.cipher).2 }
  | .addKek kek => { s with cipher := ((EnvelopeCipher.addKekVersion kek).exec s.cipher).2 }
  | .rewrap place =>
      match s.cipher.keyring.versions.getLast?, s.stored[place]? with
      | some active, some (.envelope aad dek bytes) =>
          s.keeping (EnvelopeCipher.rewrapEnvelope crypto bytes) fun bytes' =>
            ([wrapSealing active.kek bytes'], .envelope aad dek bytes')
      | _, _ => s

def run (s : Sealer) (ops : List SealOp) : Sealer := ops.foldl (step crypto inner) s

def start (ring : Keyring) (rng : Rng) : Sealer := ⟨⟨ring, rng⟩, [], []⟩

/-- **The log is true**: its entries were sealed, and what is stored is made of them. -/
structure Faithful (s : Sealer) : Prop where
  logged : ∀ sealing ∈ s.log, sealing.Made crypto
  stored : ∀ stored ∈ s.stored, stored.SealedIn crypto s.log

/-- **What is assumed of a run.** The ciphers open a logged ciphertext only under the key, nonce and
associated data of an entry that has it; a nonce stands in one entry of a cipher; envelopes with
different data have different data keys; the hash of the store's keys is injective. -/
structure Assumed (s : Sealer) : Prop where
  exact : ∀ sealing ∈ s.log, ∀ key nonce aad plaintext,
    (sealing.kind.primitive crypto).openBytes key nonce aad sealing.ciphertext = .ok plaintext →
      Sealing.mk sealing.kind key nonce aad sealing.ciphertext ∈ s.log
  nonces : ∀ first ∈ s.log, ∀ second ∈ s.log, first.kind = second.kind → first.nonce = second.nonce →
    first = second
  deks : ∀ aad dek bytes aad' dek' bytes', Stored.envelope aad dek bytes ∈ s.stored →
    Stored.envelope aad' dek' bytes' ∈ s.stored →
    Envelope.dataSection bytes ≠ Envelope.dataSection bytes' → dek ≠ dek'
  hash : Function.Injective crypto.blake3

end Sealer

/-- **A logged ciphertext is bound to its key and its associated data**: under its nonce it is opened
with no others. -/
def Binds (log : List Sealing) : Prop :=
  ∀ sealing ∈ log, ∀ key aad plaintext,
    (sealing.kind.primitive crypto).openBytes key sealing.nonce aad sealing.ciphertext = .ok plaintext →
      key = sealing.key ∧ aad = sealing.aad

variable {crypto}

theorem Sealer.Assumed.binds {s : Sealer} (assumed : s.Assumed crypto) : Binds crypto s.log := by
  intro sealing logged key aad plaintext opens
  have again := assumed.exact sealing logged key sealing.nonce aad plaintext opens
  have same := assumed.nonces _ again sealing logged rfl rfl
  exact ⟨congrArg Sealing.key same, congrArg Sealing.aad same⟩

theorem Binds.mono {log log' : List Sealing} (binds : Binds crypto log') (fewer : log ⊆ log') :
    Binds crypto log := fun sealing logged => binds sealing (fewer logged)

/-! ### Opening what was sealed -/

section

variable {log : List Sealing} (binds : Binds crypto log) {plaintext : Bytes}

theorem openBytes_of_decryptWithAead {kind : AeadKind} {key : Key32} {aad wire : Bytes}
    (opened : decryptWithAead (kind.aead crypto) key aad wire = .ok plaintext) :
    (kind.primitive crypto).openBytes key (wire.take (kind.aead crypto).nonceLen) aad
      (wire.drop (kind.aead crypto).nonceLen) = .ok plaintext := by
  have direct : ∀ {primitive : Primitive} {nonceLen : ℕ},
      decryptWithAead (primitive.aead nonceLen) key aad wire = .ok plaintext →
        primitive.openBytes key (wire.take nonceLen) aad (wire.drop nonceLen) = .ok plaintext := by
    intro primitive nonceLen wireOpened
    unfold decryptWithAead at wireOpened
    split_ifs at wireOpened
    simp only [Primitive.aead] at wireOpened
    split_ifs at wireOpened
    exact mapError_eq_ok.mp wireOpened
  cases kind <;> exact direct opened

theorem openBytes_of_unwrapDek {kek dek : Key32} {version : UInt32} {nonce wrapped : Bytes}
    (unwraps : unwrapDek crypto kek version nonce wrapped = .ok dek) :
    crypto.xChaCha20Poly1305.openBytes kek nonce (versionBytes version) wrapped = .ok dek.bytes := by
  unfold unwrapDek at unwraps
  split at unwraps
  · cases unwraps
  · split_ifs at unwraps
    cases unwraps
    assumption

theorem versionBytes_injective : Function.Injective versionBytes := by
  intro first second same
  exact UInt32.toNat_inj.mp (toLeBytes_inj first.toNat_lt second.toNat_lt same)

include binds

theorem Binds.wire {kind : AeadKind} {key : Key32} {aad wire : Bytes}
    (logged : wireSealing crypto kind key aad wire ∈ log) {key' : Key32} {aad' : Bytes}
    (opened : decryptWithAead (kind.aead crypto) key' aad' wire = .ok plaintext) : aad' = aad :=
  (binds _ logged _ _ _ (openBytes_of_decryptWithAead opened)).2

theorem Binds.unwrap {kek dek : Key32} {bytes : Bytes} (logged : wrapSealing kek bytes ∈ log)
    (wrapped : unwrapDek crypto kek (kekVersion bytes) (wrapNonce bytes)
      (wrappedDek bytes) = .ok dek) {kek' dek' : Key32} {version : UInt32}
    (unwraps : unwrapDek crypto kek' version (wrapNonce bytes)
      (wrappedDek bytes) = .ok dek') : version = kekVersion bytes ∧ dek' = dek := by
  obtain ⟨keks, versions⟩ := binds _ logged _ _ _ (openBytes_of_unwrapDek unwraps)
  have number := versionBytes_injective versions
  subst number
  obtain rfl : kek' = kek := keks
  exact ⟨rfl, Except.ok.inj (unwraps.symm.trans wrapped)⟩

theorem Binds.data {dek : Key32} {aad bytes : Bytes} (logged : dataSealing dek aad bytes ∈ log)
    {dek' : Key32} {aad' : Bytes} (opens : crypto.xChaCha20Poly1305.openBytes dek' (dataNonce bytes) aad'
      (dataCt bytes) = .ok plaintext) : dek' = dek ∧ aad' = aad :=
  binds _ logged _ _ _ opens

end

/-! ### Recombined envelopes -/

namespace Envelope

def splice (header body : Bytes) : Bytes := header.take dataNonceOffset ++ dataSection body

def renumber (version : UInt32) (envelope : Bytes) : Bytes :=
  versionBytes version ++ envelope.drop kekVersionLen

section

variable {header : Bytes} (body : Bytes) (long : dataNonceOffset ≤ header.length)

include long

theorem header_splice {start count : ℕ} (inside : start + count ≤ dataNonceOffset) :
    ((splice header body).drop start).take count = (header.drop start).take count := by
  have kept : (header.take dataNonceOffset).length = dataNonceOffset := by
    rw [length_take, min_eq_left long]
  have reaches : count ≤ ((header.take dataNonceOffset).drop start).length := by
    rw [length_drop, kept]
    omega
  unfold splice
  rw [drop_append_of_le_length (by omega), take_append_of_le_length reaches, drop_take,
    take_take, min_eq_left (by omega)]

theorem wrapNonce_splice : wrapNonce (splice header body) = wrapNonce header :=
  header_splice body long (by decide)

theorem wrappedDek_splice : wrappedDek (splice header body) = wrappedDek header :=
  header_splice body long (by decide)

theorem dataSection_splice : dataSection (splice header body) = dataSection body := by
  have kept : (header.take dataNonceOffset).length = dataNonceOffset := by
    rw [length_take, min_eq_left long]
  exact drop_left' kept

end

variable (version : UInt32) (envelope : Bytes)

theorem drop_renumber (count : ℕ) :
    (renumber version envelope).drop (kekVersionLen + count) = envelope.drop (kekVersionLen + count) := by
  have four : (versionBytes version).length = kekVersionLen := length_toLeBytes _ _
  unfold renumber
  rw [← drop_drop, ← four, drop_left, four, drop_drop]

theorem kekVersion_renumber :
    kekVersion (renumber version envelope) = version := by
  have parts : renumber version envelope = assemble version [] [] (envelope.drop kekVersionLen) := by
    simp [renumber, assemble]
  rw [parts, kekVersion_assemble]

theorem wrapNonce_renumber :
    wrapNonce (renumber version envelope) = wrapNonce envelope :=
  congrArg (take wrapNonceLen) (drop_renumber version envelope 0)

theorem wrappedDek_renumber :
    wrappedDek (renumber version envelope) = wrappedDek envelope :=
  congrArg (take wrappedDekLen) (drop_renumber version envelope wrapNonceLen)

end Envelope

/-! ### Each call keeps the log true -/

theorem wrapSealing_assemble {kek dek : Key32} {version : UInt32} {nonce wrapped : Bytes} (data : Bytes)
    (ideal : crypto.xChaCha20Poly1305.Ideal 24) (right : nonce.length = wrapNonceLen)
    (wraps : crypto.xChaCha20Poly1305.sealBytes kek nonce (versionBytes version) dek.bytes = .ok wrapped) :
    (wrapSealing kek (assemble version nonce wrapped data)).Made crypto ∧
      dataSection (assemble version nonce wrapped data) = data ∧
      dataNonceOffset ≤ (assemble version nonce wrapped data).length ∧
      unwrapDek crypto kek
        (kekVersion (assemble version nonce wrapped data))
        (wrapNonce (assemble version nonce wrapped data))
        (wrappedDek (assemble version nonce wrapped data)) = .ok dek := by
  obtain ⟨wrapped', wraps', length, unwraps⟩ :=
    wrapDek_spec ideal kek dek version right
  obtain rfl : wrapped = wrapped' := Except.ok.inj (wraps.symm.trans wraps')
  unfold Sealing.Made wrapSealing
  rw [kekVersion_assemble, wrapNonce_assemble _ _ right,
    wrappedDek_assemble _ _ right length, length_assemble _ _ right length]
  exact ⟨⟨dek.bytes, wraps⟩, dataSection_assemble _ _ right length, Nat.le_add_right _ _,
    unwraps⟩

variable {c c' : EnvelopeCipher}

theorem exec_onRng_eq_ok {α : Type} {program : Crypt Rng α} {value : α}
    (succeeds : (Crypt.onRng program).exec c = (.ok value, c')) : (program.exec c.rng).1 = .ok value :=
  congrArg Prod.fst succeeds

variable {plaintext : Bytes}

theorem encrypt_eq_ok (ideal : crypto.xChaCha20Poly1305.Ideal 24) {aad bytes : Bytes}
    (encrypts : (encrypt crypto plaintext aad).exec c = (.ok bytes, c')) {active : KeyVersion}
    (last : c.keyring.versions.getLast? = some active) {dek : Key32} (drawn : c.rng.drawKey = .ok dek) :
    (wrapSealing active.kek bytes).Made crypto ∧ (dataSealing dek aad bytes).Made crypto ∧
      dataNonceOffset ≤ bytes.length ∧
      unwrapDek crypto active.kek (kekVersion bytes) (wrapNonce bytes)
        (wrappedDek bytes) = .ok dek := by
  obtain ⟨ring, c₁, read, encrypts⟩ := Crypt.exec_bind_eq_ok encrypts
  cases read
  obtain ⟨version, versions, encrypts⟩ := Crypt.exec_bind_ofExcept_eq_ok encrypts
  cases versions.symm.trans (activeVersion_eq last)
  obtain ⟨kek, keks, encrypts⟩ := Crypt.exec_bind_ofExcept_eq_ok encrypts
  cases keks.symm.trans (activeKek_eq last)
  obtain ⟨dek', c₂, draws, encrypts⟩ := Crypt.exec_bind_eq_ok encrypts
  obtain rfl : dek' = dek := Except.ok.inj ((exec_onRng_eq_ok draws).symm.trans drawn)
  obtain ⟨wrapNonce, c₃, draws', encrypts⟩ := Crypt.exec_bind_eq_ok encrypts
  have right : wrapNonce.length = 24 := Rng.length_of_draw (exec_onRng_eq_ok draws')
  obtain ⟨dataNonce, c₄, draws'', encrypts⟩ := Crypt.exec_bind_eq_ok encrypts
  have right' : dataNonce.length = 24 := Rng.length_of_draw (exec_onRng_eq_ok draws'')
  obtain ⟨wrapped, wraps, encrypts⟩ := Crypt.exec_bind_ofExcept_eq_ok encrypts
  obtain ⟨dataCt, seals, encrypts⟩ := Crypt.exec_bind_ofExcept_eq_ok encrypts
  cases encrypts
  obtain ⟨made, body, long, unwraps⟩ :=
    wrapSealing_assemble (dataNonce ++ dataCt) ideal right (mapError_eq_ok.mp wraps)
  refine ⟨made, ⟨plaintext, ?_⟩, long, unwraps⟩
  unfold dataSealing
  rw [dataNonce_eq, dataCt_eq, body, show dataNonceLen = dataNonce.length from
    right'.symm, take_left, drop_left]
  exact mapError_eq_ok.mp seals

theorem rewrap_eq_ok (ideal : crypto.xChaCha20Poly1305.Ideal 24) {bytes bytes' : Bytes}
    (rewraps : (rewrapEnvelope crypto bytes).exec c = (.ok bytes', c')) {active : KeyVersion}
    (last : c.keyring.versions.getLast? = some active) :
    ∃ kek dek, unwrapDek crypto kek (kekVersion bytes) (wrapNonce bytes)
        (wrappedDek bytes) = .ok dek ∧
      (wrapSealing active.kek bytes').Made crypto ∧
      dataSection bytes' = dataSection bytes ∧ dataNonceOffset ≤ bytes'.length ∧
      unwrapDek crypto active.kek (kekVersion bytes') (wrapNonce bytes')
        (wrappedDek bytes') = .ok dek := by
  unfold rewrapEnvelope at rewraps
  split_ifs at rewraps with short
  · cases rewraps
  obtain ⟨ring, c₁, read, rewraps⟩ := Crypt.exec_bind_eq_ok rewraps
  cases read
  obtain ⟨kek, found, rewraps⟩ := Crypt.exec_bind_ofExcept_eq_ok rewraps
  obtain ⟨version, versions, rewraps⟩ := Crypt.exec_bind_ofExcept_eq_ok rewraps
  cases versions.symm.trans (activeVersion_eq last)
  obtain ⟨newKek, keks, rewraps⟩ := Crypt.exec_bind_ofExcept_eq_ok rewraps
  cases keks.symm.trans (activeKek_eq last)
  obtain ⟨dek, unwraps, rewraps⟩ := Crypt.exec_bind_ofExcept_eq_ok rewraps
  obtain ⟨nonce, c₂, draws, rewraps⟩ := Crypt.exec_bind_eq_ok rewraps
  have right : nonce.length = 24 := Rng.length_of_draw (exec_onRng_eq_ok draws)
  obtain ⟨wrapped, wraps, rewraps⟩ := Crypt.exec_bind_ofExcept_eq_ok rewraps
  cases rewraps
  exact ⟨kek, dek, unwraps, wrapSealing_assemble _ ideal right (mapError_eq_ok.mp wraps)⟩

theorem wireSealing_made (ideal : crypto.Ideal) {kind : AeadKind} {key : Key32} {aad wire : Bytes}
    {rng : Rng} (encrypts : ((encryptWithAead (kind.aead crypto) key aad plaintext).exec rng).1 = .ok wire) :
    
    (wireSealing crypto kind key aad wire).Made crypto := by
  have spec := (encryptWithAead_spec (AeadKind.lawful ideal kind) key aad plaintext rng).2
  rw [encrypts] at spec
  obtain ⟨nonce, ciphertext, right, seals, rfl⟩ := spec
  refine ⟨plaintext, ?_⟩
  unfold wireSealing
  rw [← right, take_left, drop_left]
  have direct : ∀ {primitive : Primitive} {nonceLen : ℕ},
      (primitive.aead nonceLen).sealBytes key nonce aad plaintext = .ok ciphertext →
        primitive.sealBytes key nonce aad plaintext = .ok ciphertext := by
    intro primitive nonceLen wireSeals
    simp only [Primitive.aead] at wireSeals
    split_ifs at wireSeals
    exact mapError_eq_ok.mp wireSeals
  cases kind <;> exact direct seals

namespace Sealer

section

variable {s : Sealer} {program : Crypt EnvelopeCipher Bytes} {record : Bytes → List Sealing × Stored}

theorem log_keeping : s.log ⊆ (s.keeping program record).log := by
  unfold keeping
  split
  · exact subset_append_right _ _
  · exact List.Subset.refl _

theorem Faithful.keeping (faithful : s.Faithful crypto)
    (made : ∀ bytes cipher, program.exec s.cipher = (.ok bytes, cipher) →
      (∀ sealing ∈ (record bytes).1, sealing.Made crypto) ∧
        (record bytes).2.SealedIn crypto ((record bytes).1 ++ s.log)) :
    (s.keeping program record).Faithful crypto := by
  unfold Sealer.keeping
  split
  · rename_i bytes cipher runs
    obtain ⟨entries, sealed⟩ := made bytes cipher runs
    refine ⟨fun sealing logged => ?_, fun stored held => ?_⟩
    · rcases mem_append.mp logged with new | old
      · exact entries sealing new
      · exact faithful.logged sealing old
    · rcases mem_cons.mp held with rfl | old
      · exact sealed
      · exact (faithful.stored stored old).mono (subset_append_right _ _)
  · exact ⟨faithful.logged, faithful.stored⟩

end

variable {S T N : Type} {inner : KvStore S T N}

theorem log_step (s : Sealer) (op : SealOp) : s.log ⊆ (s.step crypto inner op).log := by
  cases op with
  | cell provider cellId plaintext | value kind provider storeKey plaintext =>
    simp only [step]
    split
    · exact List.Subset.refl _
    · exact log_keeping
  | envelope plaintext aad =>
    simp only [step]
    split
    · exact log_keeping
    · exact List.Subset.refl _
  | addKek kek => exact List.Subset.refl _
  | rewrap place =>
    simp only [step]
    split
    · exact log_keeping
    · exact List.Subset.refl _

theorem log_run (s : Sealer) (ops : List SealOp) : s.log ⊆ (s.run crypto inner ops).log := by
  induction ops generalizing s with
  | nil => exact List.Subset.refl _
  | cons op ops ih => exact List.Subset.trans (log_step s op) (ih (s.step crypto inner op))

theorem Faithful.step (ideal : crypto.Ideal) {s : Sealer} (faithful : s.Faithful crypto)
    (binds : Binds crypto s.log) (op : SealOp) : (s.step crypto inner op).Faithful crypto := by
  cases op with
  | cell provider cellId plaintext =>
    simp only [Sealer.step]
    split
    · exact faithful
    · rename_i key keyed
      refine faithful.keeping fun wire cipher runs => ?_
      have encrypts := exec_onRng_eq_ok runs
      rw [exec_encryptCell keyed] at encrypts
      refine ⟨fun sealing new => ?_, key, mem_cons_self⟩
      obtain rfl := mem_singleton.mp new
      exact wireSealing_made ideal encrypts
  | value kind provider storeKey plaintext =>
    simp only [Sealer.step]
    split
    · exact faithful
    · rename_i key keyed
      refine faithful.keeping fun wire cipher runs => ?_
      have encrypts := exec_onRng_eq_ok runs
      unfold EncryptedKv.encryptValue at encrypts
      rw [keyed, Crypt.exec_bind_ok (Crypt.exec_ofExcept _ _)] at encrypts
      refine ⟨fun sealing new => ?_, key, mem_cons_self⟩
      obtain rfl := mem_singleton.mp new
      exact wireSealing_made ideal encrypts
  | envelope plaintext aad =>
    simp only [Sealer.step]
    split
    · rename_i active dek last drawn
      refine faithful.keeping fun bytes cipher runs => ?_
      obtain ⟨wrapMade, dataMade, long, unwraps⟩ := encrypt_eq_ok ideal.xChaCha20Poly1305 runs last drawn
      refine ⟨fun sealing new => ?_, long, by simp, active.kek, by simp, unwraps⟩
      rcases mem_pair.mp new with rfl | rfl
      · exact wrapMade
      · exact dataMade
    · exact ⟨faithful.logged, faithful.stored⟩
  | addKek kek => exact ⟨faithful.logged, faithful.stored⟩
  | rewrap place =>
    simp only [Sealer.step]
    split
    · rename_i active aad dek bytes last held
      obtain ⟨_, data, kek, logged, wrapped⟩ := faithful.stored _ (mem_of_getElem? held)
      refine faithful.keeping fun bytes' cipher runs => ?_
      obtain ⟨kek', dek', unwraps, made, body, long, unwraps'⟩ :=
        rewrap_eq_ok ideal.xChaCha20Poly1305 runs last
      -- the key that was unwrapped is the one the log knows, whichever KEK the keyring found
      obtain ⟨_, rfl⟩ := binds.unwrap logged wrapped unwraps
      refine ⟨fun sealing new => ?_, long, ?_, active.kek, mem_cons_self, unwraps'⟩
      · obtain rfl := mem_singleton.mp new
        exact made
      · rw [dataSealing_eq_of_dataSection_eq _ _ body]
        exact mem_append_right _ data
    · exact faithful

theorem faithful_run (ideal : crypto.Ideal) {s : Sealer} (faithful : s.Faithful crypto)
    {ops : List SealOp} (binds : Binds crypto (s.run crypto inner ops).log) :
    (s.run crypto inner ops).Faithful crypto := by
  induction ops generalizing s with
  | nil => exact faithful
  | cons op ops ih => exact ih (faithful.step ideal (binds.mono (log_run s (op :: ops))) op) binds

theorem faithful_start (ring : Keyring) (rng : Rng) : (start ring rng).Faithful crypto :=
  ⟨fun _ logged => absurd logged not_mem_nil, fun _ held => absurd held not_mem_nil⟩

end Sealer

/-! ### No transplant decrypts -/

section

variable {S T N : Type}

/-- **Nothing stored decrypts in another place or in another combination**: cells under another
`CellId`, values and envelopes under another key, the header of an envelope before other data, an
envelope under another version number; whatever keys and keyrings are at hand. -/
structure Resists (crypto : OxiCrypto) (inner : KvStore S T N) (stored : List Stored) : Prop where
  cell : ∀ cellId wire, Stored.cell cellId wire ∈ stored → ∀ provider cellId' plaintext,
    cellId' ≠ cellId → decryptCell crypto provider cellId' wire ≠ .ok plaintext
  value : ∀ kind storeKey wire, Stored.value kind storeKey wire ∈ stored →
    ∀ provider storeKey' plaintext, storeKey' ≠ storeKey →
      (EncryptedKv.mk inner provider (kind.aead crypto)).decryptValue (deriveCellId crypto storeKey') wire ≠
        .ok plaintext
  envelope : ∀ aad dek bytes, Stored.envelope aad dek bytes ∈ stored → ∀ ring aad' plaintext,
    aad' ≠ aad → EnvelopeCipher.decrypt crypto ring bytes aad' ≠ .ok plaintext
  splice : ∀ aad dek bytes aad' dek' bytes', Stored.envelope aad dek bytes ∈ stored →
    Stored.envelope aad' dek' bytes' ∈ stored →
    Envelope.dataSection bytes ≠ Envelope.dataSection bytes' → ∀ ring presented plaintext,
      EnvelopeCipher.decrypt crypto ring (Envelope.splice bytes bytes') presented ≠ .ok plaintext
  renumber : ∀ aad dek bytes, Stored.envelope aad dek bytes ∈ stored → ∀ ring version presented plaintext,
    version ≠ Envelope.kekVersion bytes →
      EnvelopeCipher.decrypt crypto ring (Envelope.renumber version bytes) presented ≠ .ok plaintext

variable {inner : KvStore S T N} {s : Sealer}

theorem Sealer.Assumed.resists (assumed : s.Assumed crypto) (faithful : s.Faithful crypto) :
    Resists crypto inner s.stored where
  cell cellId wire held provider cellId' plaintext differs opened := by
    obtain ⟨key, logged⟩ := faithful.stored _ held
    have keyed : ∃ key', provider.key32 = .ok key' := by
      unfold decryptCell at opened
      cases found : provider.key32 with
      | error error =>
        rw [found] at opened
        split_ifs at opened
        all_goals cases opened
      | ok key' => exact ⟨key', rfl⟩
    obtain ⟨key', keyed⟩ := keyed
    rw [decryptCell_eq keyed] at opened
    exact differs (CellId.toAadBytes_injective (assumed.binds.wire logged opened))
  value kind storeKey wire held provider storeKey' plaintext differs opened := by
    obtain ⟨key, logged⟩ := faithful.stored _ held
    unfold EncryptedKv.decryptValue at opened
    cases keyed : provider.key32 with
    | error error =>
      rw [keyed] at opened
      cases opened
    | ok key' =>
      rw [keyed] at opened
      exact differs (assumed.hash (assumed.binds.wire logged opened))
  envelope aad dek bytes held ring aad' plaintext differs opened := by
    obtain ⟨_, data, _⟩ := faithful.stored _ held
    obtain ⟨_, _, holds⟩ := decrypt_eq_ok_iff.mp opened
    obtain ⟨_, _, opens⟩ := holds.opens
    exact differs (assumed.binds.data data opens).2
  splice aad dek bytes aad' dek' bytes' held held' differs ring presented plaintext opened := by
    obtain ⟨long, _, kek, logged, wrapped⟩ := faithful.stored _ held
    obtain ⟨_, data, _⟩ := faithful.stored _ held'
    obtain ⟨_, _, holds⟩ := decrypt_eq_ok_iff.mp opened
    obtain ⟨_, unwraps, opens⟩ := holds.opens
    simp only [wrapNonce_splice _ long, wrappedDek_splice _ long] at unwraps
    rw [dataNonce_eq, dataCt_eq, dataSection_splice _ long,
      ← dataNonce_eq, ← dataCt_eq] at opens
    -- the header gives the first envelope's data key, and the second's data opens under its own only
    obtain ⟨_, rfl⟩ := assumed.binds.unwrap logged wrapped unwraps
    exact assumed.deks _ _ _ _ _ _ held held' differs (assumed.binds.data data opens).1
  renumber aad dek bytes held ring version presented plaintext differs opened := by
    obtain ⟨_, _, kek, logged, wrapped⟩ := faithful.stored _ held
    obtain ⟨_, _, holds⟩ := decrypt_eq_ok_iff.mp opened
    obtain ⟨_, unwraps, _⟩ := holds.opens
    simp only [kekVersion_renumber, wrapNonce_renumber,
      wrappedDek_renumber] at unwraps
    exact differs (assumed.binds.unwrap logged wrapped unwraps).1

/-- **No transplant and no splice decrypts**, of whatever a run has stored. -/
theorem transplants_never_decrypt (ideal : crypto.Ideal) (inner : KvStore S T N) (ring : Keyring)
    (rng : Rng) (ops : List SealOp)
    (assumed : ((Sealer.start ring rng).run crypto inner ops).Assumed crypto) :
    Resists crypto inner ((Sealer.start ring rng).run crypto inner ops).stored :=
  assumed.resists (Sealer.faithful_run ideal (Sealer.faithful_start ring rng) assumed.binds)

end

/-! ### A run that meets the assumptions -/

def Primitive.listed (uses : List (Key32 × Bytes × Bytes)) : Primitive :=
  .tagged fun key nonce aad => toLeBytes 16 (uses.idxOf (key, nonce, aad))

theorem Primitive.listed_exact {uses : List (Key32 × Bytes × Bytes)} (few : uses.length < 256 ^ 16)
    {key key' : Key32} {nonce nonce' aad aad' ciphertext : Bytes} (listed : (key, nonce, aad) ∈ uses)
    (tag : ciphertext.drop (ciphertext.length - 16) = toLeBytes 16 (uses.idxOf (key, nonce, aad)))
    (opens : (Primitive.listed uses).openBytes key' nonce' aad' ciphertext = .ok plaintext) :
    key' = key ∧ nonce' = nonce ∧ aad' = aad := by
  simp only [Primitive.listed, Primitive.tagged] at opens
  split_ifs at opens with tag'
  have bounded : ∀ use, uses.idxOf use < 256 ^ 16 := fun use => idxOf_le_length.trans_lt few
  have places := toLeBytes_inj (bounded _) (bounded _) (tag.symm.trans tag')
  have same := (idxOf_inj listed).mp places
  simpa [eq_comm] using same

def Rng.counting : Rng := ⟨fun use => some fun _ => UInt8.ofNat use, 0⟩

namespace Sealer

def exampleUses : List (Key32 × Bytes × Bytes) :=
  [(.ofByte 70, List.replicate 24 0, CellId.toAadBytes ⟨1, 2, 3⟩),
    (.ofByte 70, List.replicate 12 1, [107]),
    (.ofByte 71, List.replicate 24 3, versionBytes 1), (.ofByte 2, List.replicate 24 4, [97]),
    (.ofByte 71, List.replicate 24 6, versionBytes 1), (.ofByte 5, List.replicate 24 7, [98]),
    (.ofByte 72, List.replicate 24 8, versionBytes 2)]

def exampleCrypto : OxiCrypto := ⟨.listed exampleUses, .listed exampleUses, id⟩

theorem exampleCrypto_ideal : exampleCrypto.Ideal :=
  ⟨Primitive.tagged_ideal (fun _ _ _ => length_toLeBytes _ _) 24,
    Primitive.tagged_ideal (fun _ _ _ => length_toLeBytes _ _) 12⟩

def exampleRun : Sealer :=
  (start (Keyring.new (.ofByte 71)) Rng.counting).run exampleCrypto Sled.store
    [.cell (staticKey (Key32.ofByte 70).bytes) ⟨1, 2, 3⟩ [1],
      .value .aesGcmSiv256 (staticKey (Key32.ofByte 70).bytes) [107] [2], .envelope [3] [97],
      .envelope [4] [98], .addKek (.ofByte 72), .rewrap 1]

theorem exampleRun_listed : ∀ sealing ∈ exampleRun.log,
    (sealing.key, sealing.nonce, sealing.aad) ∈ exampleUses ∧
      sealing.ciphertext.drop (sealing.ciphertext.length - 16) =
        toLeBytes 16 (exampleUses.idxOf (sealing.key, sealing.nonce, sealing.aad)) := by
  decide +kernel

theorem exampleRun_nonces : ∀ first ∈ exampleRun.log, ∀ second ∈ exampleRun.log,
    first.kind = second.kind → first.nonce = second.nonce → first = second := by
  decide +kernel

def keysApart (stored : List Stored) : Bool :=
  stored.all fun first => stored.all fun second => match first, second with
    | .envelope _ dek bytes, .envelope _ dek' bytes' =>
        Envelope.dataSection bytes == Envelope.dataSection bytes' || dek != dek'
    | _, _ => true

theorem exampleRun_assumed : exampleRun.Assumed exampleCrypto where
  exact sealing logged key nonce aad plaintext opens := by
    have cipher : sealing.kind.primitive exampleCrypto = .listed exampleUses := by
      cases sealing.kind <;> rfl
    rw [cipher] at opens
    obtain ⟨listed, tag⟩ := exampleRun_listed sealing logged
    obtain ⟨rfl, rfl, rfl⟩ := Primitive.listed_exact (by decide) listed tag opens
    exact logged
  nonces := exampleRun_nonces
  deks aad dek bytes aad' dek' bytes' held held' differs := by
    have apart : keysApart exampleRun.stored = true := by decide +kernel
    have pair := all_eq_true.mp (all_eq_true.mp apart _ held) _ held'
    simpa [differs] using pair
  hash := Function.injective_id

end Sealer

theorem transplants_never_decrypt_example :
    Sealer.exampleRun.stored.length = 5 ∧
      Resists Sealer.exampleCrypto Sled.store Sealer.exampleRun.stored :=
  ⟨by decide +kernel, transplants_never_decrypt Sealer.exampleCrypto_ideal Sled.store _ _ _
    Sealer.exampleRun_assumed⟩

end OxiStore
