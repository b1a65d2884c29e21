/-
**Rotations and expiries.**
-/

import OxiStore.Kv.Engine
import OxiStore.Encrypt.EnvelopeKv

namespace OxiStore

open ByteString OrdTable Call

def RotationEnds {S T N : Type} (crypto : OxiCrypto) (store : KvStore S T N) (newKek : Key32)
    (s : S × EnvelopeCipher) (count : ℕ) (s' : S × EnvelopeCipher) : Prop :=
  ((EncryptedKvEnvelope.mk store).rotateKek crypto newKek).exec s = (.ok count, s') ∨
    (rotateAllKeys crypto store newKek).run.run s = (.ok count, s')

theorem Call.exec_bind_eq_ok {S α β : Type} {call : Call S α} {rest : α → Call S β} {s s' : S}
    {value : β} (ends : (call >>= rest).exec s = (.ok value, s')) :
    ∃ first s₁, call.exec s = (.ok first, s₁) ∧ (rest first).exec s₁ = (.ok value, s') := by
  rw [exec_bind] at ends
  rcases runs : call.exec s with ⟨error | first, s₁⟩
  · simp [runs] at ends
  · rw [runs] at ends
    exact ⟨first, s₁, rfl, ends⟩

section

variable {E T N : Type} [Expiry E] {crypto : OxiCrypto} {w w' : World E} {c c' : EnvelopeCipher}
  {count total : ℕ}

theorem Call.crypt_eq_ok {S C α : Type} {program : Crypt C α} {s s' : S} {c c' : C} {value : α}
    (ends : (crypt program).exec (s, c) = (.ok value, s', c')) : s' = s := by
  rw [exec_crypt] at ends
  exact (congrArg (fun result => result.2.1) ends).symm

def Overwrites (put : Bytes → Bytes → Call (World E × EnvelopeCipher) Unit) : Prop :=
  ∀ key value w c, (put key value).exec (w, c) = (.ok (), w.onStore (·.write key value), c)

theorem Store.expiry_write (s : Store E) (key value other : Bytes) :
    (s.write key value).expiry other = if key = other then none else s.expiry other := by
  unfold Store.expiry Store.write
  rw [get_erase]
  split_ifs with same
  all_goals rfl

variable {put : Bytes → Bytes → Call (World E × EnvelopeCipher) Unit}

theorem expiry_rewrapEntries {rewrap : Bytes → Crypt EnvelopeCipher Bytes} (overwrites : Overwrites put)
    {entries : List (Bytes × Bytes)}
    (ends : exec (rewrapEntries (fun old => crypt (rewrap old)) put entries count) (w, c) =
      (.ok total, w', c')) (key : Bytes) :
    w'.store.expiry key = if key ∈ entries.map Prod.fst then none else w.store.expiry key := by
  induction entries generalizing w c count with
  | nil =>
    cases ends
    rfl
  | cons entry entries ih =>
    rw [rewrapEntries_cons] at ends
    obtain ⟨_, ⟨w₂, c₂⟩, round, rest⟩ := exec_bind_eq_ok ends
    obtain ⟨new, ⟨w₁, c₁⟩, rewraps, writes⟩ := exec_bind_eq_ok round
    obtain rfl := crypt_eq_ok rewraps
    rw [overwrites entry.1 new w₁ c₁] at writes
    cases writes
    rw [ih rest, World.onStore_store, Store.expiry_write, List.map_cons]
    by_cases older : key ∈ entries.map Prod.fst
    · rw [if_pos older, if_pos (List.mem_cons_of_mem _ older)]
    · rw [if_neg older]
      by_cases here : entry.1 = key
      · rw [if_pos here, if_pos (here ▸ List.mem_cons_self)]
      · rw [if_neg here, if_neg]
        intro member
        rcases List.mem_cons.mp member with same | older'
        · exact here same.symm
        · exact older older'

variable (b : Backend E T N)

theorem Backend.exec_listing (convert : StoreError → StoreError) (w : World E) (c : EnvelopeCipher) :
    exec (ExceptT.adapt convert (onStore b.kv.iter.collect)) (w, c) =
      (.ok (w.listing Anywhere), w, c) := by
  have collects : b.kv.iter.collect.exec w = (.ok (w.listing Anywhere), w) := by
    rw [collect, exec_bind_ok (b.iter_exec w), exec_ofExcept, collectItems_ok]
  rw [exec_adapt, exec_onStore, collects]
  rfl

theorem Backend.overwrites :
    Overwrites fun key value => onStore (b.kv.put key value) := by
  intro key value w c
  rw [exec_onStore, b.put_exec]

omit [Expiry E] in
theorem Overwrites.adapt (overwrites : Overwrites put) (convert : StoreError → StoreError) :
    Overwrites fun key value => ExceptT.adapt convert (put key value) := by
  intro key value w c
  rw [exec_adapt, overwrites]
  rfl

theorem Backend.expiry_rotation {newKek : Key32}
    (rotated : RotationEnds crypto b.kv newKek (w, c) total (w', c')) (key : Bytes) :
    w'.store.expiry key = if (w.visible key).isSome then none else w.store.expiry key := by
  have listed : key ∈ (w.listing Anywhere).map Prod.fst ↔ (w.visible key).isSome :=
    (lists_listing w Anywhere).mem_keys key
  rw [← if_congr listed rfl rfl]
  rcases rotated with ends | ends
  · rw [EncryptedKvEnvelope.rotateKek, exec_bind_ok (b.exec_listing _ w c)] at ends
    obtain ⟨_, ⟨w₁, c₁⟩, adds, loop⟩ := exec_bind_eq_ok ends
    obtain rfl := crypt_eq_ok adds
    exact expiry_rewrapEntries b.overwrites loop key
  · have converted : exec (ExceptT.adapt EncryptError.toStore (rotateAllKeys crypto b.kv newKek))
        (w, c) = (.ok total, w', c') := by
      rw [exec_adapt_run, ends]
      rfl
    rw [adapt_rotateAllKeys] at converted
    obtain ⟨_, ⟨w₁, c₁⟩, adds, rest⟩ := exec_bind_eq_ok converted
    obtain rfl := crypt_eq_ok adds
    rw [exec_bind_ok (b.exec_listing _ w₁ c₁)] at rest
    exact expiry_rewrapEntries (b.overwrites.adapt _) rest key

end

/-- **A rotation keeps every expiry exactly if no visible key has one**, on every engine, for every
contents, clock and cipher. -/
theorem rotation_keeps_expiries_iff (crypto : OxiCrypto) (engine : Engine) {newKek : Key32}
    {w w' : World engine.Entry} {c c' : EnvelopeCipher} {count : ℕ}
    (rotated : RotationEnds crypto engine.kv newKek (w, c) count (w', c')) :
    (∀ key, w'.store.expiry key = w.store.expiry key) ↔
      ∀ key, (w.visible key).isSome → w.store.expiry key = none := by
  rw [← Engine.backend_kv] at rotated
  have dropped := engine.backend.expiry_rotation rotated
  constructor
  · intro kept key visible
    rw [← kept, dropped, if_pos visible]
  · intro permanent key
    rw [dropped]
    split_ifs with visible
    · exact (permanent key visible).symm
    · rfl

def World.sealedPair {E : Type} (ttl : Table Bytes E) : World E :=
  ⟨⟨(∅ : Table Bytes Bytes).insert [107] (Envelope.assemble 1 (List.replicate 24 0)
      (List.replicate 32 0 ++ List.replicate 16 1) (List.replicate 24 0 ++ 97 :: List.replicate 16 0)),
    ttl⟩, .ofMillis 0⟩

def rotatedPair (ttl : Table Bytes UInt64) : Except StoreError ℕ × Redb.State × EnvelopeCipher :=
  ((EncryptedKvEnvelope.mk Redb.store).rotateKek .keyTagged (.ofByte 2)).exec
    (.sealedPair ttl, ⟨.new (.ofByte 1), .constant []⟩)

theorem rotationEnds_rotatedPair {ttl : Table Bytes UInt64} (ends : (rotatedPair ttl).1 = .ok 1) :
    RotationEnds .keyTagged Redb.store (.ofByte 2)
      (.sealedPair ttl, ⟨.new (.ofByte 1), .constant []⟩) 1
      ((rotatedPair ttl).2.1, (rotatedPair ttl).2.2) := by
  unfold rotatedPair at ends ⊢
  exact .inl (Prod.ext ends rfl)

theorem rotation_keeps_permanent :
    (rotatedPair ∅).1 = .ok 1 ∧ ∀ key, (rotatedPair ∅).2.1.store.expiry key =
      (World.sealedPair (∅ : Table Bytes UInt64)).store.expiry key := by
  have ends : (rotatedPair ∅).1 = .ok 1 := by decide +kernel
  refine ⟨ends, (rotation_keeps_expiries_iff .keyTagged .redb
    (rotationEnds_rotatedPair ends)).mpr fun key _ => ?_⟩
  simp [World.sealedPair, Store.expiry]

theorem rotation_drops_expiry :
    let ttl := (∅ : Table Bytes UInt64).insert [107] 1
    (rotatedPair ttl).1 = .ok 1 ∧ (World.sealedPair ttl).store.expiry [107] = some 1 ∧
      (rotatedPair ttl).2.1.store.expiry [107] = none ∧
      ((World.sealedPair ttl).setClock (.ofMillis 1)).visible [107] = none ∧
      (((rotatedPair ttl).2.1.setClock (.ofMillis 1)).visible [107]).isSome := by
  refine ⟨?_, ?_, ?_, ?_, ?_⟩ <;> decide +kernel

end OxiStore
