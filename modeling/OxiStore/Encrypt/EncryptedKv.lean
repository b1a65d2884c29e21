/-
**`EncryptedKv`, its transactions and its snapshots.**
-/

import OxiStore.Kv.Sessions
import OxiStore.Encrypt.Sealed

namespace OxiStore

open ByteString OrdTable StepProg Call

/-! ### Keys -/

structure KeyProvider where
  getKey : Except EncryptError Bytes

def KeyProvider.key32 (provider : KeyProvider) : Except EncryptError Key32 := do
  let raw ← provider.getKey
  if right : raw.length = 32 then
    .ok ⟨raw, right⟩
  else
    .error (.invalidKeyLength raw.length)

def staticKey (bytes : Bytes) : KeyProvider where
  getKey := if bytes.length = 32 then .ok bytes else .error (.invalidKeyLength bytes.length)

theorem key32_staticKey (key : Key32) : (staticKey key.bytes).key32 = .ok key := by
  unfold KeyProvider.key32 staticKey
  rw [if_pos key.length_eq]
  exact dif_pos key.length_eq

/-! ### The decorator -/

structure EncryptedKv (S T N : Type) where
  inner : KvStore S T N
  keyProvider : KeyProvider
  aead : Aead

structure EncryptedTxn (T : Type) where
  inner : T
  key : Key32
  aead : AeadKind

structure EncryptedSnapshot (N : Type) where
  inner : N
  key : Key32
  aead : AeadKind

variable {S T N : Type} (crypto : OxiCrypto)

def decryptAt (aead : Aead) (key : Key32) (storageKey ct : Bytes) : Except EncryptError Bytes :=
  decryptWithAead aead key (deriveCellId crypto storageKey) ct

def EncryptedTxn.methods (txn : KvTxn S T) : KvTxn (S × Rng) (EncryptedTxn T) where
  get self key := sealedGet (txn.get self.inner key) fun _ ct =>
    decryptAt crypto (self.aead.aead crypto) self.key key ct
  put self key value := (fun inner => { self with inner }) <$>
    sealedPut (encryptWithAead (self.aead.aead crypto) self.key (deriveCellId crypto key) value)
      (txn.put self.inner key)
  delete self key := (fun inner => { self with inner }) <$> Call.onStore (txn.delete self.inner key)
  contains self key := Call.onStore (txn.contains self.inner key)
  range self low high := openAll (txn.range self.inner low high) fun _ =>
    decryptAt crypto (self.aead.aead crypto) self.key
  commit self := Call.onStore (txn.commit self.inner)
  rollback self := Call.onStore (txn.rollback self.inner)

def EncryptedSnapshot.methods (snap : KvSnapshot S N) : KvSnapshot (S × Rng) (EncryptedSnapshot N) where
  get self key := sealedGet (snap.get self.inner key) fun _ ct =>
    decryptAt crypto (self.aead.aead crypto) self.key key ct
  range self low high := openAll (snap.range self.inner low high) fun _ =>
    decryptAt crypto (self.aead.aead crypto) self.key

namespace EncryptedKv

variable (store : EncryptedKv S T N)

def encryptValue (aad plaintext : Bytes) : Crypt Rng Bytes := do
  let key ← Crypt.ofExcept store.keyProvider.key32
  encryptWithAead store.aead key aad plaintext

def decryptValue (aad ciphertext : Bytes) : Except EncryptError Bytes := do
  let key ← store.keyProvider.key32
  decryptWithAead store.aead key aad ciphertext

def kind : AeadKind := if store.aead.nonceLen = 12 then .aesGcmSiv256 else .xChaCha20Poly1305

def keyBytes : Call (S × Rng) Key32 := Call.looking fun _ => store.keyProvider.key32

def kv : KvStore (S × Rng) (EncryptedTxn T) (EncryptedSnapshot N) where
  get key := sealedGet (store.inner.get key) fun _ ct =>
    store.decryptValue (deriveCellId crypto key) ct
  put key value := sealedPut (store.encryptValue (deriveCellId crypto key) value) (store.inner.put key)
  delete key := Call.onStore (store.inner.delete key)
  contains key := Call.onStore (store.inner.contains key)
  range low high := do
    let key ← store.keyBytes
    openAll (store.inner.range low high) fun _ => decryptAt crypto store.aead key
  iter := do
    let key ← store.keyBytes
    openAll store.inner.iter fun _ => decryptAt crypto store.aead key
  transaction := do
    let innerTxn ← Call.onStore store.inner.transaction
    let key ← store.keyBytes
    pure ⟨innerTxn, key, store.kind⟩
  txn := EncryptedTxn.methods crypto store.inner.txn
  snapshot := do
    let innerSnap ← Call.onStore store.inner.snapshot
    let key ← store.keyBytes
    pure ⟨innerSnap, key, store.kind⟩
  snap := EncryptedSnapshot.methods crypto store.inner.snap
  flush := Call.onStore store.inner.flush

theorem inherits : (store.kv crypto).Inherits where
  getMany _ := rfl
  getRef := rfl
  rangeRev _ _ := rfl
  prefixScan := rfl
  batchWrite _ := rfl
  batchDelete _ := rfl
  count := rfl
  keys := rfl
  compareAndSwap := rfl

/-! ### The map of plaintexts -/

/-- **Stored values that both ciphers open**, and that everything either of them seals becomes. -/
structure Carries (key : Key32) (stands : Bytes → Bytes → Bytes → Prop) : Prop where
  store_seals {storageKey plain wire : Bytes} :
    store.aead.Wire key (deriveCellId crypto storageKey) plain wire → stands storageKey wire plain
  txn_seals {storageKey plain wire : Bytes} :
    (store.kind.aead crypto).Wire key (deriveCellId crypto storageKey) plain wire →
      stands storageKey wire plain
  store_opens {storageKey plain wire : Bytes} : stands storageKey wire plain →
    decryptAt crypto store.aead key storageKey wire = .ok plain
  txn_opens {storageKey plain wire : Bytes} : stands storageKey wire plain →
    decryptAt crypto (store.kind.aead crypto) key storageKey wire = .ok plain

def codec (stands : Bytes → Bytes → Bytes → Prop) : Codec Rng where
  valid _ := True
  stands _ := stands
  faults := Rng.failures
  later := Rng.Later
  later_refl := Rng.Later.refl
  later_trans := Rng.Later.trans
  faults_later := Rng.Later.failures_le
  stands_later _ holds := holds

theorem codec_encrypts {stands : Bytes → Bytes → Bytes → Prop} {aead : Aead} (lawful : aead.Lawful)
    {key : Key32} {storageKey plain aad : Bytes}
    (seals : ∀ wire, aead.Wire key aad plain wire → stands storageKey wire plain) :
    (codec stands).Encrypts (encryptWithAead aead key aad plain) storageKey plain := by
  intro rng _
  obtain ⟨state, result⟩ := encryptWithAead_spec lawful key aad plain rng
  rw [state]
  refine ⟨Rng.Later.next rng, trivial, ?_⟩
  cases found : ((encryptWithAead aead key aad plain).exec rng).1 with
  | ok wire =>
    rw [found] at result
    exact seals wire result
  | error error =>
    rw [found] at result
    exact result

def txns (key : Key32) : Wraps T (EncryptedTxn T) :=
  ⟨EncryptedTxn.inner, fun txn => txn.key = key ∧ txn.aead = store.kind⟩

def snaps (key : Key32) : Wraps N (EncryptedSnapshot N) :=
  ⟨EncryptedSnapshot.inner, fun snap => snap.key = key ∧ snap.aead = store.kind⟩

def view (V : MapView S T N) (key : Key32) (stands : Bytes → Bytes → Bytes → Prop) :
    MapView (S × Rng) (EncryptedTxn T) (EncryptedSnapshot N) :=
  sealedView V (codec stands) (store.txns key) (store.snaps key)

section

variable {crypto store} {key : Key32} {stands : Bytes → Bytes → Bytes → Prop}

variable (keyed : store.keyProvider.key32 = .ok key)

include keyed

variable (carries : store.Carries crypto key stands)

include carries in
theorem yields_openAll (raw : Call S RangeIter) :
    Yields (codec stands) (do
      let key ← store.keyBytes
      openAll raw fun _ => decryptAt crypto store.aead key) raw := by
  have looks : ∀ s : S × Rng, store.keyBytes.exec s = (.ok key, s) := by
    intro s
    rw [keyBytes, exec_looking, keyed]
    rfl
  refine ⟨fun _ => decryptAt crypto store.aead key, fun s => ?_, fun s => ?_,
    fun _ _ _ _ => carries.store_opens⟩
  · rw [← exec_collect_openAll, collect, bind_assoc, exec_bind_ok (looks s)]
    rfl
  · rw [exec_bind_ok (looks s), exec_openAll_state]

theorem exec_opening {H H' : Type} (opening : Call S H) (wrap : H → Key32 → H') (s : S × Rng) :
    (do
      let inner ← onStore opening
      let key ← store.keyBytes
      pure (wrap inner key) : Call (S × Rng) H').exec s =
      ((fun inner => wrap inner key) <$> onStore opening : Call (S × Rng) H').exec s := by
  rw [map_eq_pure_bind, exec_bind, exec_bind]
  rcases (onStore opening : Call (S × Rng) H).exec s with ⟨error | inner, s'⟩
  · rfl
  · have looks : store.keyBytes.exec s' = (.ok key, s') := by
      rw [keyBytes, exec_looking, keyed]
      rfl
    exact exec_bind_ok looks

include carries

theorem seals (lawful : store.aead.Lawful) (ideal : crypto.Ideal) :
    Seals (codec stands) (store.txns key) (store.snaps key) store.inner (store.kv crypto) where
  get storageKey := by
    refine ⟨_, rfl, fun rng ct pt holds => ?_⟩
    rw [decryptValue, keyed]
    exact carries.store_opens holds
  contains _ := rfl
  put storageKey value := by
    refine ⟨_, rfl, ?_⟩
    rw [encryptValue, keyed]
    exact codec_encrypts lawful fun wire => carries.store_seals
  delete _ := rfl
  range low high := yields_openAll keyed carries (store.inner.range low high)
  iter := yields_openAll keyed carries store.inner.iter
  flush := rfl
  transaction := ⟨fun inner => ⟨inner, key, store.kind⟩, fun _ => ⟨rfl, rfl, rfl⟩,
    exec_opening keyed store.inner.transaction fun inner key => EncryptedTxn.mk inner key store.kind⟩
  txn_get sound storageKey := by
    refine ⟨_, rfl, fun rng ct pt holds => ?_⟩
    rw [sound.1, sound.2]
    exact carries.txn_opens holds
  txn_contains _ _ := rfl
  txn_range {txn} sound low high := by
    refine ⟨fun _ => decryptAt crypto (txn.aead.aead crypto) txn.key, exec_collect_openAll _ _,
      exec_openAll_state _ _, fun rng storageKey ct pt holds => ?_⟩
    rw [sound.1, sound.2]
    exact carries.txn_opens holds
  txn_put {txn} sound storageKey value := by
    refine ⟨fun inner => { txn with inner }, _, fun _ => ⟨rfl, sound⟩, rfl, ?_⟩
    rw [sound.1, sound.2]
    exact codec_encrypts (AeadKind.lawful ideal store.kind) fun wire => carries.txn_seals
  txn_delete {txn} sound _ := ⟨fun inner => { txn with inner }, fun _ => ⟨rfl, sound⟩, rfl⟩
  txn_commit _ := rfl
  txn_rollback _ := rfl
  snapshot := ⟨fun inner => ⟨inner, key, store.kind⟩, fun _ => ⟨rfl, rfl, rfl⟩,
    exec_opening keyed store.inner.snapshot fun inner key => EncryptedSnapshot.mk inner key store.kind⟩
  snap_get sound storageKey := by
    refine ⟨_, rfl, fun rng ct pt holds => ?_⟩
    rw [sound.1, sound.2]
    exact carries.txn_opens holds
  snap_contains _ _ := .inr rfl
  snap_range {snap} sound low high := by
    refine ⟨fun _ => decryptAt crypto (snap.aead.aead crypto) snap.key, exec_collect_openAll _ _,
      exec_openAll_state _ _, fun rng storageKey ct pt holds => ?_⟩
    rw [sound.1, sound.2]
    exact carries.txn_opens holds
  snap_prefixScan _ := rfl

theorem session_step {V : MapView S T N} (like : MapLike V store.inner) (lawful : store.aead.Lawful)
    (ideal : crypto.Ideal) {session : Session (S × Rng) (EncryptedTxn T) (EncryptedSnapshot N)}
    {p : PlainSession} (shows : SessionShows (store.view V key stands) session p) (op : SessionOp) :
    ∃ p', Agrees ((store.view V key stands).faults session.state <
          (store.view V key stands).faults (session.step (store.kv crypto) op).2.state) p op
        (session.step (store.kv crypto) op).1 p' ∧
      SessionShows (store.view V key stands) (session.step (store.kv crypto) op).2 p' ∧
      (store.view V key stands).later session.state (session.step (store.kv crypto) op).2.state :=
  ((seals keyed carries lawful ideal).mapLike like).session_step (store.inherits crypto) shows op

end

theorem kind_builtIn {crypto : OxiCrypto} {kind : AeadKind}
    (builtIn : store.aead = kind.aead crypto) : store.kind = kind := by
  unfold EncryptedKv.kind
  rw [builtIn]
  cases kind with
  | xChaCha20Poly1305 => exact if_neg (show ¬ (24 : ℕ) = 12 by decide)
  | aesGcmSiv256 => exact if_pos rfl

def Holds (key : Key32) (storageKey wire plain : Bytes) : Prop :=
  store.aead.Wire key (deriveCellId crypto storageKey) plain wire

theorem carries_builtIn {crypto : OxiCrypto} {kind : AeadKind} (lawful : store.aead.Lawful)
    (builtIn : store.aead = kind.aead crypto) (key : Key32) :
    store.Carries crypto key (store.Holds crypto key) := by
  have same : store.kind.aead crypto = store.aead := by rw [store.kind_builtIn builtIn, builtIn]
  constructor
  · exact id
  · intro _ _ _ sealed
    rwa [same] at sealed
  · exact lawful.decrypt_wire
  · intro _ _ _ sealed
    rw [same]
    exact lawful.decrypt_wire sealed

end EncryptedKv

/-! ### With a built-in cipher -/

/-- **The replies of a plain map, and stored values longer by `overhead`.** Something has failed if the
inner store or the generator has. -/
def AgreesSealed (V : MapView S T N) (overhead : ℕ)
    (session : Session (S × Rng) (EncryptedTxn T) (EncryptedSnapshot N)) (p : PlainSession)
    (op : SessionOp) (reply : Reply)
    (session' : Session (S × Rng) (EncryptedTxn T) (EncryptedSnapshot N)) (p' : PlainSession) : Prop :=
  Agrees (V.faults session.state.1 + session.state.2.failures <
      V.faults session'.state.1 + session'.state.2.failures) p op reply p' ∧
    ∃ stored, V.shows session'.state.1 stored ∧
      Related (fun _ wire plain => wire.length = plain.length + overhead) stored p'.state

variable {crypto}

def sledSealedBy (aead : Aead) : EncryptedKv Sled.State Sled.Txn Sled.Snapshot :=
  ⟨Sled.store, staticKey (Key32.ofByte 7).bytes, aead⟩

namespace EncryptedKv

variable (crypto) (store : EncryptedKv S T N) (key : Key32)

/-- **The store's cipher and the one its handles take it for open each other's values.** -/
structure CiphersAgree : Prop where
  txn_opens (storageKey plain wire : Bytes) :
    store.aead.Wire key (deriveCellId crypto storageKey) plain wire →
      decryptAt crypto (store.kind.aead crypto) key storageKey wire = .ok plain
  store_opens (storageKey plain wire : Bytes) :
    (store.kind.aead crypto).Wire key (deriveCellId crypto storageKey) plain wire →
      decryptAt crypto store.aead key storageKey wire = .ok plain

def Shared (storageKey wire plain : Bytes) : Prop :=
  decryptAt crypto store.aead key storageKey wire = .ok plain ∧
    decryptAt crypto (store.kind.aead crypto) key storageKey wire = .ok plain

variable {crypto store key}

theorem CiphersAgree.carries (agree : store.CiphersAgree crypto key) (ideal : crypto.Ideal)
    (lawful : store.aead.Lawful) : store.Carries crypto key (store.Shared crypto key) where
  store_seals sealed := ⟨lawful.decrypt_wire sealed, agree.txn_opens _ _ _ sealed⟩
  txn_seals sealed :=
    ⟨agree.store_opens _ _ _ sealed, (AeadKind.lawful ideal store.kind).decrypt_wire sealed⟩
  store_opens shared := shared.1
  txn_opens shared := shared.2

/-! #### Two sessions that tell the ciphers apart -/

theorem exec_encrypt_constant {aead : Aead} {nonce aad plain ct : Bytes}
    (right : nonce.length = aead.nonceLen) (seals : aead.sealBytes key nonce aad plain = .ok ct) :
    (encryptWithAead aead key aad plain).exec (Rng.constant nonce) =
      (.ok (nonce ++ ct), (Rng.constant nonce).next) := by
  have draws : (randomBytes aead.nonceLen).exec (Rng.constant nonce) =
      (.ok nonce, (Rng.constant nonce).next) := by
    rw [exec_randomBytes, ← right, Rng.draw_constant]
  unfold encryptWithAead
  rw [Crypt.exec_bind_ok draws, seals]
  rfl

theorem opened_of_map {result : Except EncryptError Bytes} {plain : Bytes}
    (opened : (result.mapError EncryptError.toStore).map some = .ok (some plain)) :
    result = .ok plain := by
  cases result with
  | error error => cases opened
  | ok value =>
    cases opened
    rfl

variable (keyed : store.keyProvider.key32 = .ok key)

include keyed

theorem exec_transaction {s s' : S} {txn : T} (begins : store.inner.transaction.exec s = (.ok txn, s'))
    (rng : Rng) :
    (store.kv crypto).transaction.exec (s, rng) = (.ok ⟨txn, key, store.kind⟩, s', rng) := by
  have opened := exec_opening keyed store.inner.transaction
    (fun inner key => EncryptedTxn.mk inner key store.kind) (s, rng)
  rw [exec_map, exec_onStore, begins] at opened
  exact opened

variable {V : MapView S T N} {s : S}

theorem txn_opens_of_follows (like : MapLike V store.inner) (reliable : V.ReliableFrom s)
    (shown : V.shows s ∅) {nonce storageKey plain ct : Bytes} (right : nonce.length = store.aead.nonceLen)
    (seals : store.aead.sealBytes key nonce (deriveCellId crypto storageKey) plain = .ok ct)
    (follows : FollowsPlain (store.kv crypto) (s, Rng.constant nonce)) :
    decryptAt crypto (store.kind.aead crypto) key storageKey (nonce ++ ct) = .ok plain := by
  obtain ⟨_, s₁, puts, later₁, shown₁⟩ := (like.put shown storageKey (nonce ++ ct)).exec_ok reliable
  obtain ⟨txn, s₂, begins, later₂, begun, shown₂⟩ :=
    (like.transaction shown₁).exec_ok (reliable.later later₁)
  obtain ⟨found, s₃, gets, _, rfl, _⟩ :=
    (like.txn_get shown₂ begun storageKey).exec_ok ((reliable.later later₁).later later₂)
  have put' : ((store.kv crypto).put storageKey plain).exec (s, Rng.constant nonce) =
      (.ok (), s₁, (Rng.constant nonce).next) := by
    refine exec_sealedPut ?_ puts
    rw [encryptValue, keyed]
    exact exec_encrypt_constant right seals
  have present : (amendAll ((∅ : Contents).insert storageKey (nonce ++ ct)) [])[storageKey]? =
      some (nonce ++ ct) := by simp [amendAll]
  rw [present] at gets
  have get' := follows.txn_get_of_put put' (exec_transaction keyed begins _)
  rw [show ((store.kv crypto).txn.get ⟨txn, key, store.kind⟩ storageKey).exec _ = _ from
    exec_sealedGet gets] at get'
  exact opened_of_map get'

theorem store_opens_of_follows (like : MapLike V store.inner) (reliable : V.ReliableFrom s)
    (shown : V.shows s ∅) {nonce storageKey plain ct : Bytes}
    (right : nonce.length = (store.kind.aead crypto).nonceLen)
    (seals : (store.kind.aead crypto).sealBytes key nonce (deriveCellId crypto storageKey) plain = .ok ct)
    (follows : FollowsPlain (store.kv crypto) (s, Rng.constant nonce)) :
    decryptAt crypto store.aead key storageKey (nonce ++ ct) = .ok plain := by
  obtain ⟨txn, s₁, begins, later₁, begun, shown₁⟩ := (like.transaction shown).exec_ok reliable
  have reliable₁ := reliable.later later₁
  obtain ⟨txn', s₂, puts, later₂, staged, shown₂⟩ :=
    (like.txn_put shown₁ begun storageKey (nonce ++ ct)).exec_ok reliable₁
  have reliable₂ := reliable₁.later later₂
  obtain ⟨_, s₃, commits, later₃, shown₃⟩ := (like.txn_commit shown₂ staged).exec_ok reliable₂
  obtain ⟨found, s₄, gets, _, rfl, _⟩ := (like.get shown₃ storageKey).exec_ok (reliable₂.later later₃)
  have put' : ((store.kv crypto).txn.put ⟨txn, key, store.kind⟩ storageKey plain).exec
      (s₁, Rng.constant nonce) = (.ok ⟨txn', key, store.kind⟩, s₂, (Rng.constant nonce).next) := by
    have sealed := exec_sealedPut (exec_encrypt_constant right seals) puts
    show (_ <$> sealedPut _ _ : Call (S × Rng) _).exec _ = _
    rw [exec_map, sealed]
    rfl
  have commit' : ((store.kv crypto).txn.commit ⟨txn', key, store.kind⟩).exec
      (s₂, (Rng.constant nonce).next) = (.ok (), s₃, (Rng.constant nonce).next) := by
    show (onStore (store.inner.txn.commit txn')).exec _ = _
    rw [exec_onStore, commits]
  have present : (amendAll (∅ : Contents) ([] ++ [(storageKey, some (nonce ++ ct))]))[storageKey]? =
      some (nonce ++ ct) := by simp [amendAll, amend]
  rw [present] at gets
  have get' := follows.get_of_commit (exec_transaction keyed begins _) put' commit'
  rw [show ((store.kv crypto).get storageKey).exec _ = _ from exec_sealedGet gets, decryptValue,
    keyed] at get'
  exact opened_of_map get'

end EncryptedKv

/-- **The paths of an `EncryptedKv` agree exactly if its ciphers do.** Over a map that never fails, under
every reliable generator and in every session: values written through the store, its transactions, its
batches and its swaps are read alike through all of them and through snapshots exactly if the store's
cipher and the one guessed for its handles open each other's values. -/
theorem encrypted_paths_agree_iff (ideal : crypto.Ideal) {V : MapView S T N}
    {store : EncryptedKv S T N} (lawful : store.aead.Lawful) (like : MapLike V store.inner) {s : S}
    (reliable : V.ReliableFrom s) (shown : V.shows s ∅) {key : Key32}
    (keyed : store.keyProvider.key32 = .ok key) :
    (∀ rng : Rng, rng.Reliable → FollowsPlain (store.kv crypto) (s, rng)) ↔
      store.CiphersAgree crypto key := by
  constructor
  · intro follows
    constructor
    · rintro storageKey plain _ ⟨nonce, ct, right, seals, rfl⟩
      exact EncryptedKv.txn_opens_of_follows keyed like reliable shown right seals
        (follows _ (Rng.reliable_constant nonce))
    · rintro storageKey plain _ ⟨nonce, ct, right, seals, rfl⟩
      exact EncryptedKv.store_opens_of_follows keyed like reliable shown right seals
        (follows _ (Rng.reliable_constant nonce))
  · intro agree rng steady
    have mapLike := (EncryptedKv.seals keyed (agree.carries ideal lawful) lawful ideal).mapLike like
    refine mapLike.followsPlain (store.inherits crypto) (fun s' later => ?_)
      ⟨trivial, ∅, shown, Related.empty⟩
    show V.faults s'.1 + s'.2.failures = V.faults s + rng.failures
    rw [reliable s'.1 later.1, steady.failures_eq later.2]

theorem encrypted_paths_agree_aesGcmSiv256 :
    FollowsPlain ((sledSealedBy (aesGcmSiv256Aead .keyTagged)).kv .keyTagged)
      (⟨.empty, .last⟩, Rng.constant []) := by
  have lawful := AeadKind.lawful OxiCrypto.keyTagged_ideal .aesGcmSiv256
  have agree : (sledSealedBy (aesGcmSiv256Aead .keyTagged)).CiphersAgree .keyTagged (Key32.ofByte 7) :=
    ⟨fun _ _ _ => lawful.decrypt_wire, fun _ _ _ => lawful.decrypt_wire⟩
  exact (encrypted_paths_agree_iff OxiCrypto.keyTagged_ideal lawful (Backend.mapLike sled_live)
    (sled.reliableFrom _) (sled.shows_empty .last) (key32_staticKey (Key32.ofByte 7))).mpr agree _
    (Rng.reliable_constant [])

theorem sixteen_byte_nonces_unreadable_in_transactions :
    (Primitive.keyTagged.aead 16).Lawful ∧
      answers (Session.step ((sledSealedBy (Primitive.keyTagged.aead 16)).kv .keyTagged))
        ⟨(⟨.empty, .last⟩, Rng.constant []), .none⟩
        [.store (.put [107] [97]), .store (.get [107]), .begin, .txn 0 (.get [107])] =
      [.done, .value (some [97]), .done,
        .failed (EncryptError.toStore (.ciphertextTooShort 40 33))] ∧
      answers PlainSession.step ⟨∅, .none⟩
        [.store (.put [107] [97]), .store (.get [107]), .begin, .txn 0 (.get [107])] =
      [.done, .value (some [97]), .done, .value (some [97])] :=
  ⟨(Primitive.keyTagged_ideal 16).aead_lawful, rfl, rfl⟩

end OxiStore
