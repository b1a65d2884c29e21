/-
**`EncryptedKvEnvelope` and key rotation.**
-/

import OxiStore.Kv.Sessions
import OxiStore.Encrypt.Sealed
import OxiStore.Encrypt.Envelope

namespace OxiStore

open ByteString OrdTable StepProg Call EnvelopeCipher

/-! ### Errors converted -/

section

variable {S α β γ ε ε' : Type} (convert : ε → ε')

theorem adapt_bind (program : ExceptT ε (Prog S) α) (rest : α → ExceptT ε (Prog S) β) :
    ExceptT.adapt convert (program >>= rest) =
      ExceptT.adapt convert program >>= fun value => ExceptT.adapt convert (rest value) := by
  apply ExceptT.ext
  simp only [ExceptT.adapt, ExceptT.run_bind, ExceptT.run_mk, bind_map_left]
  show Except.mapError convert <$> (program >>= rest).run = _
  rw [ExceptT.run_bind, map_bind]
  congr 1
  funext result
  cases result <;> rfl

theorem adapt_adapt {ε'' : Type} (convert' : ε' → ε'') (program : ExceptT ε (Prog S) α) :
    ExceptT.adapt convert' (ExceptT.adapt convert program) =
      ExceptT.adapt (fun error => convert' (convert error)) program := by
  apply ExceptT.ext
  show Except.mapError convert' <$> Except.mapError convert <$> program.run = _
  rw [← comp_map]
  refine congrArg (· <$> program.run) (funext fun result => ?_)
  cases result <;> rfl

theorem adapt_foldlM (step : β → γ → ExceptT ε (Prog S) β) (listed : List γ) (start : β) :
    ExceptT.adapt convert (listed.foldlM step start) =
      listed.foldlM (fun state element => ExceptT.adapt convert (step state element)) start := by
  induction listed generalizing start with
  | nil => rfl
  | cons element listed ih =>
    rw [List.foldlM_cons, List.foldlM_cons, adapt_bind]
    exact congrArg _ (funext ih)

theorem exec_adapt_run (convert : ε → StoreError) (program : ExceptT ε (Prog S) α) (s : S) :
    exec (ExceptT.adapt convert program) s =
      ((program.run.run s).1.mapError convert, (program.run.run s).2) := by
  show (Except.mapError convert <$> program.run).run s = _
  rw [map_eq_pure_bind]
  exact Prog.run_bind program.run _ s

variable (convert : StoreError → StoreError)

theorem Call.exec_adapt (call : Call S α) (s : S) :
    exec (ExceptT.adapt convert call) s = ((call.exec s).1.mapError convert, (call.exec s).2) :=
  exec_adapt_run convert call s

theorem MapView.Serves.adapt {T N : Type} {view : MapView S T N} {call : Call S α} {s : S}
    {contents : Contents} {done : α → S → Prop} (serves : view.Serves call s contents done) :
    view.Serves (ExceptT.adapt convert call) s contents done := by
  have exec := exec_adapt convert call s
  rcases runs : call.exec s with ⟨error | value, s'⟩
  · rw [runs] at exec
    obtain ⟨later, faulted, shown⟩ := serves.of_error runs
    exact MapView.serves_of_error exec later faulted shown
  · rw [runs] at exec
    obtain ⟨later, ends⟩ := serves.of_ok runs
    exact MapView.serves_of_exec exec later ends

end

/-! ### The decorator -/

structure EncryptedKvEnvelope (S T N : Type) where
  inner : KvStore S T N

open EncryptedKvEnvelope

structure EnvelopeTxn (T : Type) where
  inner : T

structure EnvelopeSnapshot (N : Type) where
  inner : N

variable {S T N : Type} (crypto : OxiCrypto)

def decryptEnvelope (c : EnvelopeCipher) (key ct : Bytes) : Except EncryptError Bytes :=
  EnvelopeCipher.decrypt crypto c.keyring ct key

def EnvelopeTxn.methods (txn : KvTxn S T) : KvTxn (S × EnvelopeCipher) (EnvelopeTxn T) where
  get self key := sealedGet (txn.get self.inner key) fun c => decryptEnvelope crypto c key
  put self key value := EnvelopeTxn.mk <$>
    sealedPut (EnvelopeCipher.encrypt crypto value key) (txn.put self.inner key)
  delete self key := EnvelopeTxn.mk <$> Call.onStore (txn.delete self.inner key)
  contains self key := Call.onStore (txn.contains self.inner key)
  range self low high := openAll (txn.range self.inner low high) (decryptEnvelope crypto)
  commit self := Call.onStore (txn.commit self.inner)
  rollback self := Call.onStore (txn.rollback self.inner)

def EnvelopeSnapshot.methods (snap : KvSnapshot S N) :
    KvSnapshot (S × EnvelopeCipher) (EnvelopeSnapshot N) where
  get self key := sealedGet (snap.get self.inner key) fun c => decryptEnvelope crypto c key
  range self low high := openAll (snap.range self.inner low high) (decryptEnvelope crypto)
  contains self key := Call.onStore (snap.contains self.inner key)

def EnvelopeCipher.attempt {α : Type} (program : Crypt EnvelopeCipher α) :
    ExceptT EncryptError (Prog (S × EnvelopeCipher)) α :=
  ExceptT.mk (Prog.swap (fun s => (program.exec s.2).1) fun s => (s.1, (program.exec s.2).2))

def rewrapEntries {ε : Type} (rewrap : Bytes → ExceptT ε (Prog (S × EnvelopeCipher)) Bytes)
    (put : Bytes → Bytes → ExceptT ε (Prog (S × EnvelopeCipher)) Unit)
    (entries : List (Bytes × Bytes)) (count : ℕ) : ExceptT ε (Prog (S × EnvelopeCipher)) ℕ :=
  entries.foldlM (fun count entry => do
    let newEnvelope ← rewrap entry.2
    put entry.1 newEnvelope
    pure (count + 1)) count

theorem rewrapEntries_cons {ε : Type} (rewrap : Bytes → ExceptT ε (Prog (S × EnvelopeCipher)) Bytes)
    (put : Bytes → Bytes → ExceptT ε (Prog (S × EnvelopeCipher)) Unit) (entry : Bytes × Bytes)
    (entries : List (Bytes × Bytes)) (count : ℕ) :
    rewrapEntries rewrap put (entry :: entries) count = (do
      (do
        let newEnvelope ← rewrap entry.2
        put entry.1 newEnvelope)
      rewrapEntries rewrap put entries (count + 1)) := by
  unfold rewrapEntries
  rw [List.foldlM_cons]
  simp only [bind_assoc, pure_bind]

def rotateAllKeys (store : KvStore S T N) (newKek : Key32) :
    ExceptT EncryptError (Prog (S × EnvelopeCipher)) ℕ := do
  let _ ← EnvelopeCipher.attempt (EnvelopeCipher.addKekVersion newKek)
  let entries ← ExceptT.adapt EncryptError.ofStore (Call.onStore store.iter.collect)
  rewrapEntries (fun old => EnvelopeCipher.attempt (EnvelopeCipher.rewrapEnvelope crypto old))
    (fun key new => ExceptT.adapt EncryptError.ofStore (Call.onStore (store.put key new))) entries 0

theorem adapt_rewrapEntries {ε ε' : Type} (convert : ε → ε')
    (rewrap : Bytes → ExceptT ε (Prog (S × EnvelopeCipher)) Bytes)
    (put : Bytes → Bytes → ExceptT ε (Prog (S × EnvelopeCipher)) Unit)
    (entries : List (Bytes × Bytes)) (count : ℕ) :
    ExceptT.adapt convert (rewrapEntries rewrap put entries count) =
      rewrapEntries (fun old => ExceptT.adapt convert (rewrap old))
        (fun key new => ExceptT.adapt convert (put key new)) entries count := by
  unfold rewrapEntries
  rw [adapt_foldlM]
  simp only [adapt_bind]
  rfl

theorem adapt_rotateAllKeys (store : KvStore S T N) (newKek : Key32) :
    ExceptT.adapt EncryptError.toStore (rotateAllKeys crypto store newKek) = (do
      let _ ← crypt (addKekVersion newKek)
      let entries ← ExceptT.adapt (fun error => (EncryptError.ofStore error).toStore)
        (onStore store.iter.collect)
      rewrapEntries (fun old => crypt (rewrapEnvelope crypto old))
        (fun key new => ExceptT.adapt (fun error => (EncryptError.ofStore error).toStore)
          (onStore (store.put key new))) entries 0) := by
  unfold rotateAllKeys
  simp only [adapt_bind, adapt_adapt, adapt_rewrapEntries]
  rfl

namespace EncryptedKvEnvelope

variable (store : EncryptedKvEnvelope S T N)

def rotateKek (newKek : Key32) : Call (S × EnvelopeCipher) ℕ := do
  let entries ← ExceptT.adapt (fun error => .other error.message)
    (Call.onStore store.inner.iter.collect)
  let _ ← Call.crypt (EnvelopeCipher.addKekVersion newKek)
  rewrapEntries (fun old => Call.crypt (EnvelopeCipher.rewrapEnvelope crypto old))
    (fun key new => Call.onStore (store.inner.put key new)) entries 0

def kv : KvStore (S × EnvelopeCipher) (EnvelopeTxn T) (EnvelopeSnapshot N) where
  get key := sealedGet (store.inner.get key) fun c => decryptEnvelope crypto c key
  put key value := sealedPut (EnvelopeCipher.encrypt crypto value key) (store.inner.put key)
  delete key := Call.onStore (store.inner.delete key)
  contains key := Call.onStore (store.inner.contains key)
  range low high := openEach (store.inner.range low high) (decryptEnvelope crypto)
  iter := openEach store.inner.iter (decryptEnvelope crypto)
  transaction := EnvelopeTxn.mk <$> Call.onStore store.inner.transaction
  txn := EnvelopeTxn.methods crypto store.inner.txn
  snapshot := EnvelopeSnapshot.mk <$> Call.onStore store.inner.snapshot
  snap := EnvelopeSnapshot.methods crypto store.inner.snap
  flush := Call.onStore store.inner.flush

theorem inherits : (store.kv crypto).Inherits where
  getMany _ := rfl
  getRef := rfl
  rangeRev _ _ := rfl
  prefixScan := rfl
  batchWrite _ := rfl
  batchDelete _ := rfl
  count := rfl
  keys := rfl
  compareAndSwap := rfl

/-! ### The map of plaintexts -/

/-- **What envelopes stand for.** The keyring only grows, and it can seal while its newest KEK is found
by its number. -/
def codec : Codec EnvelopeCipher where
  valid c := c.keyring.Numbered ∧ c.keyring.versions.length ≤ 2 ^ 32
  stands c key stored plain := decryptEnvelope crypto c key stored = .ok plain
  faults c := c.rng.failures
  later c c' := (∃ added, c'.keyring.versions = c.keyring.versions ++ added) ∧ c.rng.Later c'.rng
  later_refl c := ⟨⟨[], (List.append_nil _).symm⟩, Rng.Later.refl c.rng⟩
  later_trans := by
    rintro c c' c'' ⟨⟨added, first⟩, later⟩ ⟨⟨added', second⟩, later'⟩
    refine ⟨⟨added ++ added', ?_⟩, later.trans later'⟩
    rw [second, first, List.append_assoc]
  faults_later later := later.2.failures_le
  stands_later later opened := EnvelopeCipher.decrypt_append later.1.choose_spec opened

def txns : Wraps T (EnvelopeTxn T) := ⟨EnvelopeTxn.inner, fun _ => True⟩

def snaps : Wraps N (EnvelopeSnapshot N) := ⟨EnvelopeSnapshot.inner, fun _ => True⟩

def view (V : MapView S T N) : MapView (S × EnvelopeCipher) (EnvelopeTxn T) (EnvelopeSnapshot N) :=
  sealedView V (codec crypto) txns snaps

section

variable {crypto store} (ideal : crypto.xChaCha20Poly1305.Ideal 24)

include ideal

theorem codec_encrypts (key plain : Bytes) :
    (codec crypto).Encrypts (encrypt crypto plain key) key plain := by
  intro c valid
  obtain ⟨kek, last⟩ := valid.1.active
  have spec := encrypt_spec ideal last plain key
  unfold EnvelopeCipher.Ends at spec
  obtain ⟨ring, later, result⟩ := spec
  refine ⟨⟨⟨[], ?_⟩, later⟩, ?_, ?_⟩
  · rw [ring, List.append_nil]
  · show Keyring.Numbered _ ∧ _ ≤ _
    rwa [ring]
  · cases found : ((encrypt crypto plain key).exec c).1 with
    | ok envelope =>
      rw [found] at result
      show decrypt _ _ _ _ = _
      rw [ring]
      exact result.decrypt (valid.1.finds_active valid.2 last)
    | error error =>
      rw [found] at result
      exact result.2

theorem seals : Seals (codec crypto) txns snaps store.inner (store.kv crypto) where
  get key := ⟨fun c => decryptEnvelope crypto c key, rfl, fun _ _ _ => id⟩
  contains _ := rfl
  put key value := ⟨_, rfl, codec_encrypts ideal key value⟩
  delete _ := rfl
  range _ _ := ⟨decryptEnvelope crypto, fun _ => rfl, exec_openEach_state _ _, fun _ _ _ _ => id⟩
  iter := ⟨decryptEnvelope crypto, fun _ => rfl, exec_openEach_state _ _, fun _ _ _ _ => id⟩
  flush := rfl
  transaction := ⟨EnvelopeTxn.mk, fun _ => ⟨rfl, trivial⟩, fun _ => rfl⟩
  txn_get _ key := ⟨fun c => decryptEnvelope crypto c key, rfl, fun _ _ _ => id⟩
  txn_contains _ _ := rfl
  txn_range _ _ _ := ⟨decryptEnvelope crypto, exec_collect_openAll _ _, exec_openAll_state _ _,
    fun _ _ _ _ => id⟩
  txn_put _ key value := ⟨EnvelopeTxn.mk, _, fun _ => ⟨rfl, trivial⟩, rfl, codec_encrypts ideal key value⟩
  txn_delete _ _ := ⟨EnvelopeTxn.mk, fun _ => ⟨rfl, trivial⟩, rfl⟩
  txn_commit _ := rfl
  txn_rollback _ := rfl
  snapshot := ⟨EnvelopeSnapshot.mk, fun _ => ⟨rfl, trivial⟩, fun _ => rfl⟩
  snap_get _ key := ⟨fun c => decryptEnvelope crypto c key, rfl, fun _ _ _ => id⟩
  snap_contains _ _ := .inl rfl
  snap_range _ _ _ := ⟨decryptEnvelope crypto, exec_collect_openAll _ _, exec_openAll_state _ _,
    fun _ _ _ _ => id⟩
  snap_prefixScan _ := rfl

end

/-! ### Rotations -/

section

variable {crypto} {V : MapView S T N} {s : S} {c : EnvelopeCipher} {stored contents : Contents}

theorem decryptEnvelope_congr {c c' : EnvelopeCipher} (same : c'.keyring = c.keyring) :
    decryptEnvelope crypto c' = decryptEnvelope crypto c := by
  funext key ct
  unfold decryptEnvelope
  rw [same]

theorem valid_congr {c c' : EnvelopeCipher} (same : c'.keyring = c.keyring) :
    (codec crypto).valid c' ↔ (codec crypto).valid c := by
  show Keyring.Numbered _ ∧ _ ≤ _ ↔ Keyring.Numbered _ ∧ _ ≤ _
  rw [same]

variable (valid : (codec crypto).valid c)

include valid

theorem serves_crypt {α : Type} {program : Crypt EnvelopeCipher α} {done : α → Prop}
    (shown : V.shows s stored) (related : Related ((codec crypto).stands c) stored contents)
    (ends : EnvelopeCipher.Ends program c done) :
    (view crypto V).Serves (crypt program) (s, c) contents fun value s' =>
      s'.1 = s ∧ s'.2.keyring = c.keyring ∧ done value := by
  unfold EnvelopeCipher.Ends at ends
  have exec := exec_crypt (S := S) program (s, c)
  rcases runs : program.exec c with ⟨error | value, c'⟩
  all_goals
    rw [runs] at ends exec
    obtain ⟨ring, later, result⟩ := ends
    have ring' : c'.keyring = c.keyring := ring
    have follows : (codec crypto).later c c' := ⟨⟨[], by rw [ring', List.append_nil]⟩, later⟩
  · refine MapView.serves_of_error exec ⟨V.later_refl s, follows⟩ (Nat.add_lt_add_left result.2 _)
      ⟨(valid_congr ring').mpr valid, stored, shown,
        related.mono fun _ _ _ => (codec crypto).stands_later follows⟩
  · exact MapView.serves_of_exec exec ⟨V.later_refl s, follows⟩ ⟨rfl, ring', result⟩

def Puts (V : MapView S T N) (crypto : OxiCrypto)
    (put : Bytes → Bytes → Call (S × EnvelopeCipher) Unit) : Prop :=
  ∀ {s : S} {c : EnvelopeCipher} {stored contents : Contents}, (codec crypto).valid c →
    Related ((codec crypto).stands c) stored contents → V.shows s stored → ∀ key value,
    (view crypto V).Serves (put key value) (s, c) contents fun _ s' =>
      s'.2 = c ∧ V.shows s'.1 (stored.insert key value)

variable {put : Bytes → Bytes → Call (S × EnvelopeCipher) Unit}

theorem serves_rewrapEntry (ideal : crypto.xChaCha20Poly1305.Ideal 24) (puts : Puts V crypto put)
    {active : KeyVersion} {key old plain : Bytes} (last : c.keyring.versions.getLast? = some active)
    (shown : V.shows s stored) (related : Related ((codec crypto).stands c) stored contents)
    (present : contents[key]? = some plain) (opened : decryptEnvelope crypto c key old = .ok plain) :
    (view crypto V).Serves (do
        let new ← crypt (rewrapEnvelope crypto old)
        put key new) (s, c) contents fun _ s' => s'.2.keyring = c.keyring ∧
      ∃ new, Envelope.kekVersion new = active.version ∧ V.shows s'.1 (stored.insert key new) ∧
        Related ((codec crypto).stands s'.2) (stored.insert key new) contents := by
  refine (serves_crypt valid shown related
    (rewrap_spec ideal last opened)).bind fun new s₁ _ rewrapped => ?_
  obtain ⟨s₁, c₁⟩ := s₁
  obtain ⟨rfl, ring, holds, -⟩ := rewrapped
  have ring₁ : c₁.keyring = c.keyring := ring
  have related₁ : Related ((codec crypto).stands c₁) stored contents := by
    refine related.mono fun key envelope plain opens => ?_
    show decryptEnvelope crypto c₁ key envelope = _
    rwa [decryptEnvelope_congr ring₁]
  refine (puts ((valid_congr ring₁).mpr valid) related₁ shown key new).mono fun _ s₂ _ written => ?_
  obtain ⟨s₂, c₂⟩ := s₂
  obtain ⟨rfl, shown₂⟩ := written
  have holds₂ : (codec crypto).stands c₂ key new plain :=
    holds.decrypt (ring₁ ▸ valid.1.finds_active valid.2 last)
  exact ⟨ring₁, new, holds.named, shown₂, related₁.replace present holds₂⟩

theorem serves_rewrapEntries (ideal : crypto.xChaCha20Poly1305.Ideal 24) (puts : Puts V crypto put)
    {active : KeyVersion} {entries : List (Bytes × Bytes)}
    (last : c.keyring.versions.getLast? = some active) (shown : V.shows s stored)
    (related : Related ((codec crypto).stands c) stored contents)
    (standing : ∀ entry ∈ entries, ∃ plain, contents[entry.1]? = some plain ∧ decryptEnvelope crypto c entry.1 entry.2 = .ok plain)
    (count : ℕ) :
    (view crypto V).Serves
      (rewrapEntries (fun old => crypt (rewrapEnvelope crypto old)) put entries count)
      (s, c) contents fun total s' => total = count + entries.length ∧ s'.2.keyring = c.keyring ∧
        ∃ stored', V.shows s'.1 stored' ∧ Related ((codec crypto).stands s'.2) stored' contents ∧
          ∀ (key envelope : Bytes), stored'[key]? = some envelope →
            Envelope.kekVersion envelope = active.version ∨
              (key ∉ entries.map Prod.fst ∧ stored[key]? = some envelope) := by
  induction entries generalizing s c stored count with
  | nil =>
    refine MapView.serves_pure ⟨rfl, rfl, stored, shown, related, fun key envelope found => ?_⟩
    exact .inr ⟨List.not_mem_nil, found⟩
  | cons entry entries ih =>
    obtain ⟨plain, present, opened⟩ := standing entry List.mem_cons_self
    have round := serves_rewrapEntry valid ideal puts last shown related present opened
    rw [rewrapEntries_cons]
    refine round.bind fun _ s₁ _ written => ?_
    obtain ⟨s₁, c₁⟩ := s₁
    obtain ⟨ring, new, named, shown₁, related₁⟩ := written
    have ring₁ : c₁.keyring = c.keyring := ring
    have standing₁ : ∀ other ∈ entries, ∃ plain, contents[other.1]? = some plain ∧
        decryptEnvelope crypto c₁ other.1 other.2 = .ok plain := by
      rw [decryptEnvelope_congr ring₁]
      exact fun other member => standing other (List.mem_cons_of_mem _ member)
    refine (ih ((valid_congr ring₁).mpr valid) (ring₁ ▸ last) shown₁ related₁ standing₁
      (count + 1)).mono fun total s' _ ends => ?_
    obtain ⟨counted, ring', stored', shown', related', names⟩ := ends
    refine ⟨?_, ring'.trans ring₁, stored', shown', related', fun key envelope found => ?_⟩
    · rw [counted, List.length_cons]
      omega
    · rcases names key envelope found with named' | ⟨unlisted, kept⟩
      · exact .inl named'
      · rw [get_insert] at kept
        by_cases here : entry.1 = key
        · rw [if_pos here] at kept
          cases kept
          exact .inl named
        · rw [if_neg here] at kept
          refine .inr ⟨fun member => ?_, kept⟩
          rcases List.mem_cons.mp member with same | older
          · exact here same.symm
          · exact unlisted older

def AllNamed (V : MapView S T N) (s : S × EnvelopeCipher) : Prop :=
  ∃ stored, V.shows s.1 stored ∧ ∀ key envelope : Bytes, stored[key]? = some envelope →
    s.2.keyring.activeVersion = .ok (Envelope.kekVersion envelope)

def Rotated (V : MapView S T N) (crypto : OxiCrypto) (contents : Contents) (total : ℕ)
    (s' : S × EnvelopeCipher) : Prop :=
  total = (scan contents Anywhere).length ∧ (view crypto V).shows s' contents ∧ AllNamed V s'

theorem serves_rewrapAll (ideal : crypto.xChaCha20Poly1305.Ideal 24) (puts : Puts V crypto put)
    (shown : V.shows s stored) (related : Related ((codec crypto).stands c) stored contents) :
    (view crypto V).Serves (rewrapEntries (fun old =>
        crypt (rewrapEnvelope crypto old)) put (scan stored Anywhere) 0)
      (s, c) contents (Rotated V crypto contents) := by
  obtain ⟨kek, last⟩ := valid.1.active
  have listed : ∀ key envelope : Bytes, (key, envelope) ∈ scan stored Anywhere ↔
      stored[key]? = some envelope := (lists_scan stored Anywhere).mem_iff
  have standing : ∀ entry ∈ scan stored Anywhere, ∃ plain, contents[entry.1]? = some plain ∧
      decryptEnvelope crypto c entry.1 entry.2 = .ok plain := by
    intro entry member
    have both := related entry.1
    rw [(listed entry.1 entry.2).mp member] at both
    generalize contents[entry.1]? = found at both
    cases both with
    | some holds => exact ⟨_, rfl, holds⟩
  refine (serves_rewrapEntries valid ideal puts last shown related standing 0).mono
    fun total s' _ ends => ?_
  obtain ⟨counted, ring, stored', shown', related', names⟩ := ends
  refine ⟨?_, ⟨(valid_congr ring).mpr valid, stored', shown', related'⟩, stored', shown',
    fun key envelope found => ?_⟩
  · rw [counted, zero_add]
    exact (related.scan Anywhere).length_eq
  · rcases names key envelope found with named | ⟨unlisted, kept⟩
    · rw [named, ring]
      exact activeVersion_eq last
    · have member := List.mem_map_of_mem (f := Prod.fst) ((listed key envelope).mpr kept)
      exact absurd member unlisted

theorem serves_addKek (room : c.keyring.versions.length < 2 ^ 32)
    (related : Related ((codec crypto).stands c) stored contents) (newKek : Key32) :
    (view crypto V).Serves (crypt (addKekVersion newKek)) (s, c) contents
      fun _ s' => s'.1 = s ∧ (codec crypto).valid s'.2 ∧
        Related ((codec crypto).stands s'.2) stored contents := by
  obtain ⟨ring, rotates, extends', numbered⟩ := valid.1.rotate newKek
  have exec := exec_crypt (S := S) (addKekVersion newKek) (s, c)
  rw [exec_addKekVersion rotates] at exec
  have follows : (codec crypto).later c { c with keyring := ring } :=
    ⟨⟨_, extends'⟩, Rng.Later.refl c.rng⟩
  refine MapView.serves_of_exec exec ⟨V.later_refl s, follows⟩ ⟨rfl, ⟨numbered, ?_⟩,
    related.mono fun _ _ _ => (codec crypto).stands_later follows⟩
  show ring.versions.length ≤ 2 ^ 32
  rw [extends', List.length_append, List.length_singleton]
  omega

omit valid

variable {store : EncryptedKvEnvelope S T N} (like : MapLike V store.inner)
  (ideal : crypto.xChaCha20Poly1305.Ideal 24) {newKek : Key32}

include like ideal

theorem serves_rotateKek {s : S × EnvelopeCipher} (shows : (view crypto V).shows s contents)
    (room : s.2.keyring.versions.length < 2 ^ 32) :
    (view crypto V).Serves (store.rotateKek crypto newKek) s contents (Rotated V crypto contents) := by
  obtain ⟨s, c⟩ := s
  obtain ⟨valid, stored, shown, related⟩ := shows
  refine ((serves_onStore valid related (like.iter shown)).adapt _).bind fun entries s₁ _ read => ?_
  obtain ⟨s₁, c₁⟩ := s₁
  obtain ⟨rfl, rfl, shown₁⟩ := read
  refine (serves_addKek valid room related newKek).bind fun _ s₂ _ added => ?_
  obtain ⟨s₂, c₂⟩ := s₂
  obtain ⟨rfl, valid₂, related₂⟩ := added
  exact serves_rewrapAll valid₂ ideal (fun valid related shown key value =>
    serves_onStore valid related (like.put shown key value)) shown₁ related₂

theorem serves_rotateAllKeys {s : S × EnvelopeCipher} (shows : (view crypto V).shows s contents)
    (room : s.2.keyring.versions.length < 2 ^ 32) :
    (view crypto V).Serves (ExceptT.adapt EncryptError.toStore (rotateAllKeys crypto store.inner newKek)) s
      contents (Rotated V crypto contents) := by
  obtain ⟨s, c⟩ := s
  obtain ⟨valid, stored, shown, related⟩ := shows
  rw [adapt_rotateAllKeys]
  refine (serves_addKek valid room related newKek).bind fun _ s₁ _ added => ?_
  obtain ⟨s₁, c₁⟩ := s₁
  obtain ⟨rfl, valid₁, related₁⟩ := added
  refine ((serves_onStore valid₁ related₁ (like.iter shown)).adapt _).bind fun entries s₂ _ read => ?_
  obtain ⟨s₂, c₂⟩ := s₂
  obtain ⟨rfl, rfl, shown₂⟩ := read
  exact serves_rewrapAll valid₁ ideal (fun valid related shown key value =>
    (serves_onStore valid related (like.put shown key value)).adapt _) shown₂ related₁

end

/-! ### Sessions with rotations -/

end EncryptedKvEnvelope

inductive EnvelopeOp where
  | op (op : SessionOp)
  | rotateKek (newKek : Key32)
  | rotateAllKeys (newKek : Key32)

abbrev EnvelopeSession (S T N : Type) := Session (S × EnvelopeCipher) (EnvelopeTxn T) (EnvelopeSnapshot N)

namespace EnvelopeSession

def rotate (session : EnvelopeSession S T N) (rotation : Call (S × EnvelopeCipher) ℕ) :
    Reply × EnvelopeSession S T N :=
  session.perform ((fun count => (.number count, session.handles)) <$> rotation) session.handles

def step (store : EncryptedKvEnvelope S T N) (session : EnvelopeSession S T N) :
    EnvelopeOp → Reply × EnvelopeSession S T N
  | .op op => Session.step (store.kv crypto) session op
  | .rotateKek newKek => session.rotate (store.rotateKek crypto newKek)
  | .rotateAllKeys newKek =>
      session.rotate (ExceptT.adapt EncryptError.toStore (rotateAllKeys crypto store.inner newKek))

def HasRoom (session : EnvelopeSession S T N) : EnvelopeOp → Prop
  | .op _ => True
  | .rotateKek _ => session.state.2.keyring.versions.length < 2 ^ 32
  | .rotateAllKeys _ => session.state.2.keyring.versions.length < 2 ^ 32

instance (session : EnvelopeSession S T N) (op : EnvelopeOp) : Decidable (session.HasRoom op) :=
  match op with
  | .op _ => inferInstanceAs (Decidable True)
  | .rotateKek _ => inferInstanceAs (Decidable (_ < _))
  | .rotateAllKeys _ => inferInstanceAs (Decidable (_ < _))

def Agrees (V : MapView S T N) (session : EnvelopeSession S T N) (p : PlainSession) (op : EnvelopeOp)
    (reply : Reply) (session' : EnvelopeSession S T N) (p' : PlainSession) : Prop :=
  match op with
  | .op op => OxiStore.Agrees (V.faults session.state.1 + session.state.2.rng.failures <
      V.faults session'.state.1 + session'.state.2.rng.failures) p op reply p'
  | _ => p' = p ∧
      (reply = .number (scan p.state Anywhere).length ∧ EncryptedKvEnvelope.AllNamed V session'.state ∨
        V.faults session.state.1 + session.state.2.rng.failures <
            V.faults session'.state.1 + session'.state.2.rng.failures ∧
          ∃ error, reply = .failed error)

section

variable {crypto} {V : MapView S T N} {store : EncryptedKvEnvelope S T N}
  {session : EnvelopeSession S T N} {p : PlainSession}
  (shows : SessionShows (EncryptedKvEnvelope.view crypto V) session p)

include shows

theorem rotate_shows {rotation : Call (S × EnvelopeCipher) ℕ}
    (serves : (view crypto V).Serves rotation session.state p.state
      (EncryptedKvEnvelope.Rotated V crypto p.state)) :
    SessionShows (view crypto V) (session.rotate rotation).2 p ∧
      ((session.rotate rotation).1 = .number (scan p.state Anywhere).length ∧
          EncryptedKvEnvelope.AllNamed V (session.rotate rotation).2.state ∨
        V.faults session.state.1 + session.state.2.rng.failures <
            V.faults (session.rotate rotation).2.state.1 +
              (session.rotate rotation).2.state.2.rng.failures ∧
          ∃ error, (session.rotate rotation).1 = .failed error) := by
  unfold rotate Session.perform
  rw [exec_map]
  rcases runs : rotation.exec session.state with ⟨error | total, s'⟩
  · obtain ⟨later, faulted, shown⟩ := serves.of_error runs
    exact ⟨⟨shown, shows.handles.later later⟩, .inr ⟨faulted, error, rfl⟩⟩
  · obtain ⟨later, counted, shown, named⟩ := serves.of_ok runs
    exact ⟨⟨shown, shows.handles.later later⟩, .inl ⟨congrArg Reply.number counted, named⟩⟩

theorem step_agrees (ideal : crypto.xChaCha20Poly1305.Ideal 24) (like : MapLike V store.inner)
    {op : EnvelopeOp} (room : session.HasRoom op) :
    ∃ p', Agrees V session p op (step crypto store session op).1 (step crypto store session op).2 p' ∧
      SessionShows (view crypto V) (step crypto store session op).2 p' := by
  cases op with
  | op op =>
    obtain ⟨p', agrees, shows', -⟩ := ((seals ideal).mapLike like).session_step
      (store.inherits crypto) shows op
    exact ⟨p', agrees, shows'⟩
  | rotateKek newKek =>
    obtain ⟨shows', result⟩ := rotate_shows shows
      (serves_rotateKek like ideal shows.contents room)
    exact ⟨p, ⟨rfl, result⟩, shows'⟩
  | rotateAllKeys newKek =>
    obtain ⟨shows', result⟩ := rotate_shows shows
      (serves_rotateAllKeys like ideal shows.contents room)
    exact ⟨p, ⟨rfl, result⟩, shows'⟩

end

end EnvelopeSession

variable {crypto}

open EnvelopeSession

def sledInEnvelopes : EncryptedKvEnvelope Sled.State Sled.Txn Sled.Snapshot := ⟨Sled.store⟩

variable {store : EncryptedKvEnvelope S T N}

theorem EncryptedKvEnvelope.exec_rotateKek_empty {s : S}
    (empty : store.inner.iter.collect.exec s = (.ok [], s)) {c : EnvelopeCipher} {newKek : Key32}
    {version : UInt32} {ring : Keyring} (rotates : c.keyring.rotate newKek = .ok (version, ring)) :
    (store.rotateKek crypto newKek).exec (s, c) = (.ok 0, s, { c with keyring := ring }) := by
  have lists : exec (ExceptT.adapt (fun error => StoreError.other error.message)
      (onStore store.inner.iter.collect)) (s, c) = (.ok [], s, c) := by
    rw [exec_adapt, exec_onStore, empty]
    rfl
  have adds : (crypt (addKekVersion newKek)).exec (s, c) =
      (.ok version, s, { c with keyring := ring }) := by
    rw [exec_crypt, exec_addKekVersion rotates]
    rfl
  rw [rotateKek, exec_bind_ok lists, exec_bind_ok adds]
  rfl

theorem EnvelopeSession.get_fails_of_shared_number {V : MapView S T N} (like : MapLike V store.inner)
    {s : S} (reliable : V.ReliableFrom s) {stored : Contents} (shown : V.shows s stored)
    {c : EnvelopeCipher} (steady : c.rng.Reliable) {active : KeyVersion} {other : Key32}
    (last : c.keyring.versions.getLast? = some active)
    (found : c.keyring.kekForVersion active.version = some other)
    (differs : active.kek.bytes.take 16 ≠ other.bytes.take 16)
    (handles : Handles (EnvelopeTxn T) (EnvelopeSnapshot N)) (key value : Bytes) :
    (step .keyTagged store
        (step .keyTagged store ⟨(s, c), handles⟩ (.op (.store (.put key value)))).2
        (.op (.store (.get key)))).1 =
      .failed (EncryptError.toStore .authenticationFailed) := by
  obtain ⟨envelope, c', seals, ring, -, holds⟩ :=
    (encrypt_spec OxiCrypto.keyTagged_ideal.1 last value key).exec_ok steady
  obtain ⟨_, s₁, puts, later₁, shown₁⟩ := (like.put shown key envelope).exec_ok reliable
  obtain ⟨stored', s₂, gets, _, rfl, _⟩ := (like.get shown₁ key).exec_ok (reliable.later later₁)
  rw [get_insert, if_pos rfl] at gets
  have refused : decryptEnvelope .keyTagged c' key envelope = .error .authenticationFailed := by
    unfold decryptEnvelope
    rw [ring]
    exact decrypt_keyTagged_other holds found differs
  have put' : ((store.kv .keyTagged).serve handles (.store (.put key value))).exec (s, c) =
      (.ok (.done, handles), s₁, c') := by
    have sealed : ((store.kv .keyTagged).put key value).exec (s, c) = (.ok (), s₁, c') :=
      exec_sealedPut seals puts
    simp only [KvStore.serve, KvStore.reply, exec_map, sealed]
    rfl
  have get' : ((store.kv .keyTagged).serve handles (.store (.get key))).exec (s₁, c') =
      (.error (EncryptError.toStore .authenticationFailed), s₂, c') := by
    have opened : ((store.kv .keyTagged).get key).exec (s₁, c') = _ := exec_sealedGet gets
    simp only [KvStore.serve, KvStore.reply, exec_map, opened, refused]
    rfl
  simp only [step]
  rw [Session.step_ok put', Session.step_error get']

end OxiStore
