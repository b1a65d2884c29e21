/-
**The three engines.**
-/

import OxiStore.Kv.Redb
import OxiStore.Kv.Sled
import OxiStore.Kv.Fjall

namespace OxiStore

open ByteString

inductive Engine where
  | redb
  | sled
  | fjall
deriving DecidableEq, Repr

namespace Engine

@[reducible] def Entry : Engine → Type
  | .redb => UInt64
  | .sled => Bytes
  | .fjall => Bytes

@[reducible] def Txn : Engine → Type
  | .redb => Redb.Txn
  | .sled => Sled.Txn
  | .fjall => Fjall.Txn

@[reducible] def Snapshot : Engine → Type
  | .redb => Redb.Snapshot
  | .sled => Sled.Snapshot
  | .fjall => Fjall.Snapshot

instance (engine : Engine) : Expiry engine.Entry :=
  match engine with
  | .redb => inferInstanceAs (Expiry UInt64)
  | .sled => inferInstanceAs (Expiry Bytes)
  | .fjall => inferInstanceAs (Expiry Bytes)

def backend : (engine : Engine) → Backend engine.Entry engine.Txn engine.Snapshot
  | .redb => OxiStore.redb
  | .sled => OxiStore.sled
  | .fjall => OxiStore.fjall

def kv : (engine : Engine) → KvStore (World engine.Entry) engine.Txn engine.Snapshot
  | .redb => Redb.store
  | .sled => Sled.store
  | .fjall => Fjall.store

theorem backend_kv (engine : Engine) : engine.backend.kv = engine.kv := by
  cases engine <;> rfl

end Engine

end OxiStore
