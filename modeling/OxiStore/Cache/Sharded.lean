/- **`ShardedCache`**: the lock sections of any number of threads, in any order. -/

import OxiStore.Cache.Lru

namespace OxiStore.Caching

open ByteString StepProg

structure ShardedCache where
  shards : List (LruCache Bytes Bytes)
  mask : ℕ

namespace ShardedCache

def new (nShards shardCap : ℕ) : Option ShardedCache :=
  if 0 < nShards ∧ nShards = 2 ^ nShards.log2 then some ⟨.replicate nShards (.new shardCap), nShards - 1⟩
  else none

inductive Locked where
  | get (key : Bytes)
  | put (key value : Bytes)
  | remove (key : Bytes)
  | contains (key : Bytes)
  | clear (shard : ℕ)

def Locked.op : Locked → Op Bytes Bytes
  | .get key => .get key
  | .put key value => .put key value
  | .remove key => .remove key
  | .contains key => .containsKey key
  | .clear _ => .clear

variable (hash : Bytes → UInt64) (mask : ℕ)

def shardIndex (key : Bytes) : ℕ := (hash key).toNat &&& mask

def Locked.shard : Locked → ℕ
  | .get key | .put key _ | .remove key | .contains key => shardIndex hash mask key
  | .clear shard => shard

def step (c : ShardedCache) (call : Instant × Locked) : Answer Bytes × ShardedCache :=
  let i := call.2.shard hash c.mask
  let serve (s : LruCache Bytes Bytes) := LruCache.cache.step (some s) (call.1, call.2.op)
  (c.shards[i]?.elim .panicked fun s => (serve s).1,
    { c with shards := c.shards.modify i fun s => (serve s).2.getD s })

def sectionsOn (i : ℕ) (run : List (Instant × Locked)) : List (Instant × Op Bytes Bytes) :=
  (run.filter fun call => call.2.shard hash mask = i).map fun call => (call.1, call.2.op)

theorem shard_afterRun (c : ShardedCache) (run : List (Instant × Locked)) (i : ℕ) :
    (afterRun (step hash) c run).shards[i]?.map some =
      c.shards[i]?.map fun s => afterRun LruCache.cache.step (some s) (sectionsOn hash c.mask i run) := by
  induction run generalizing c with
  | nil => rfl
  | cons call run ih =>
    have returns (s : LruCache Bytes Bytes) :
        some ((LruCache.cache.step (some s) (call.1, call.2.op)).2.getD s) =
          (LruCache.cache.step (some s) (call.1, call.2.op)).2 := by
      cases call.2 <;> rfl
    rw [afterRun, ih, step]
    dsimp only
    rw [List.getElem?_modify]
    cases c.shards[i]? with
    | none => rfl
    | some s =>
      by_cases same : call.2.shard hash c.mask = i
      · rw [Option.map_eq_map, Option.map_some, Option.map_some, if_pos same, returns, Option.map_some]
        simp [sectionsOn, same, afterRun]
      · simp [sectionsOn, same]

theorem sharded_cache_coherent {nShards shardCap : ℕ} {c : ShardedCache}
    (made : new nShards shardCap = some c) (run : List (Instant × Locked)) (key : Bytes) :
    let i := shardIndex hash c.mask key
    let ops := sectionsOn hash c.mask i run
    ∃ shard, (afterRun (step hash) c run).shards[i]? = some shard ∧
      afterRun LruCache.cache.step (some (.new shardCap)) ops = some shard ∧
      LruCache.cache.CoherentAt shard (ledgerOf ops) := by
  intro i ops
  unfold new at made
  split_ifs at made with valid
  have masked : i ≤ c.mask := Nat.and_le_right
  have ends := shard_afterRun hash c run i
  cases made
  rw [List.getElem?_replicate, if_pos (by dsimp only at masked; omega), Option.map_some] at ends
  obtain ⟨shard, found, same⟩ := Option.map_eq_some_iff.mp ends
  exact ⟨shard, found, same.symm, lru_lawful.coherentAt_afterRun trivial LinkedMap.get_empty
    (takesAll_alongRun _ _ _) same.symm⟩

def interleaved : List Locked :=
  [.put [1] [10], .put [2] [20], .get [1], .clear 0, .put [5] [50], .clear 1, .put [5, 5] [55], .get [1],
    .contains [5, 5], .remove [2]]

def firstByte (key : Bytes) : UInt64 := (key.headD 0).toUInt64

theorem sharded_cache_coherent_four : ∃ c, new 4 1 = some c ∧
    let sections : List (Instant × Locked) := interleaved.map (0, ·)
    ∃ shard, (afterRun (step firstByte) c sections).shards[1]? = some shard ∧
      afterRun LruCache.cache.step (some (.new 1)) ([.put [1] [10], .get [1], .put [5] [50], .clear,
        .put [5, 5] [55], .get [1], .containsKey [5, 5]].map (0, ·)) = some shard ∧
      LruCache.cache.CoherentAt shard (ledgerOf (sectionsOn firstByte 3 1 sections)) :=
  ⟨_, rfl, sharded_cache_coherent firstByte (rfl : new 4 1 = _) (interleaved.map _) [5, 5]⟩

end ShardedCache

end OxiStore.Caching
