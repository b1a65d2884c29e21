/-
**Cells.**
-/

import OxiStore.Encrypt.EncryptedKv

namespace OxiStore

open ByteString

/-! ### Cell identifiers -/

structure CellId where
  tableId : UInt64
  rowId : UInt64
  colId : UInt32
deriving DecidableEq

def CellId.toAadBytes (cell : CellId) : Bytes :=
  toLeBytes 8 cell.tableId.toNat ++ toLeBytes 8 cell.rowId.toNat ++ toLeBytes 4 cell.colId.toNat

theorem CellId.toAadBytes_injective : Function.Injective CellId.toAadBytes := by
  intro first second same
  obtain ⟨front, columns⟩ := List.append_inj same (by simp)
  obtain ⟨tables, rows⟩ := List.append_inj front (by simp)
  have table := UInt64.toNat_inj.mp (toLeBytes_inj first.tableId.toNat_lt second.tableId.toNat_lt tables)
  have row := UInt64.toNat_inj.mp (toLeBytes_inj first.rowId.toNat_lt second.rowId.toNat_lt rows)
  have column := UInt32.toNat_inj.mp (toLeBytes_inj first.colId.toNat_lt second.colId.toNat_lt columns)
  cases first
  cases second
  simp_all

/-! ### Encryption and decryption -/

def cellNonceLen : ℕ := 24

def cellTagLen : ℕ := 16

def minCiphertextLen : ℕ := cellNonceLen + cellTagLen

variable (crypto : OxiCrypto)

def encryptCell (keyProvider : KeyProvider) (cellId : CellId) (plaintext : Bytes) : Crypt Rng Bytes := do
  let key32 ← Crypt.ofExcept keyProvider.key32
  let nonce ← randomBytes cellNonceLen
  let ct ← Crypt.ofExcept ((crypto.xChaCha20Poly1305.sealBytes key32 nonce cellId.toAadBytes
    plaintext).mapError fun _ => .authenticationFailed)
  pure (nonce ++ ct)

def decryptCell (keyProvider : KeyProvider) (cellId : CellId) (ciphertextWithNonce : Bytes) :
    Except EncryptError Bytes := do
  if ciphertextWithNonce.length < minCiphertextLen then
    throw (.ciphertextTooShort minCiphertextLen ciphertextWithNonce.length)
  let key32 ← keyProvider.key32
  (crypto.xChaCha20Poly1305.openBytes key32 (ciphertextWithNonce.take cellNonceLen) cellId.toAadBytes
    (ciphertextWithNonce.drop cellNonceLen)).mapError fun _ => .authenticationFailed

variable {crypto} {provider : KeyProvider} {key : Key32} (keyed : provider.key32 = .ok key)

include keyed

theorem exec_encryptCell (cell : CellId) (plaintext : Bytes) (rng : Rng) :
    (encryptCell crypto provider cell plaintext).exec rng =
      (encryptWithAead (xChaCha20Poly1305Aead crypto) key cell.toAadBytes plaintext).exec rng := by
  unfold encryptCell encryptWithAead
  rw [keyed, Crypt.exec_bind_ok (Crypt.exec_ofExcept _ _)]
  have draws := exec_randomBytes 24 rng
  cases drawn : rng.draw 24 with
  | error error =>
    rw [drawn] at draws
    exact (Crypt.exec_bind_error draws).trans (Crypt.exec_bind_error draws).symm
  | ok nonce =>
    rw [drawn] at draws
    have right := Rng.length_of_draw drawn
    refine (Crypt.exec_bind_ok draws).trans (Eq.trans ?_ (Crypt.exec_bind_ok draws).symm)
    simp [xChaCha20Poly1305Aead, Primitive.aead, right]

theorem decryptCell_eq (cell : CellId) (wire : Bytes) :
    decryptCell crypto provider cell wire =
      decryptWithAead (xChaCha20Poly1305Aead crypto) key cell.toAadBytes wire := by
  unfold decryptCell decryptWithAead
  by_cases short : wire.length < minCiphertextLen
  · rw [if_pos short]
    exact (if_pos short).symm
  · have long : 40 ≤ wire.length := not_lt.mp short
    have nonce : (wire.take 24).length = 24 := by
      rw [List.length_take]
      omega
    have tagged : ¬ (wire.drop 24).length < 16 := by
      rw [List.length_drop]
      omega
    rw [if_neg short, keyed]
    refine Eq.trans ?_ (if_neg short).symm
    simp only [xChaCha20Poly1305Aead, Primitive.aead]
    rw [if_neg tagged, if_neg (not_not_intro nonce)]
    rfl

end OxiStore
