/-
**The quota of the memory store.**
-/

import OxiStore.Blob.Cas
import OxiStore.Lib.Race
import OxiStore.Lib.Lockstep

namespace OxiStore

open ByteString OrdTable StepProg Fallible

open FileTree (IoError)

/-! ### Calls -/

inductive BlobMethod where
  | put (key : String) (data : Bytes)
  | get (key : String)
  | delete (key : String)
  | head (key : String)
  | list (start : String)
  | existsKey (key : String)
  | copy (srcKey dstKey : String)
  | rename (oldKey newKey : String)
  | deleteMany (keys : List String)
  | deletePrefix (start : String)
  | putIfAbsent (key : String) (data : Bytes)
  | putChunked (key : String) (chunks : List Bytes)
  | listMeta (start : String)
  | listMetaPage (start : String) (startAfter : Option String) (limit : ℕ)
  | deleteIfMatches (key : String) (digest : Digest)
  | putCas (data : Bytes)
  | getCas (digest : Digest)
  | existsCas (digest : Digest)
  | putStreaming (reader : List (Except IoError Bytes))
  | getVerified (digest : Digest)

namespace BlobStore

variable {S : Type} (sha2 : Sha2) (store : BlobStore S)

def call : BlobMethod → BlobCall S Unit
  | .put key data => store.put key data
  | .get key => store.get key >>= fun _ => pure ()
  | .delete key => store.delete key
  | .head key => store.head key >>= fun _ => pure ()
  | .list start => store.list start >>= fun _ => pure ()
  | .existsKey key => store.existsKey key >>= fun _ => pure ()
  | .copy srcKey dstKey => store.copy srcKey dstKey
  | .rename oldKey newKey => store.rename oldKey newKey
  | .deleteMany keys => store.deleteMany keys
  | .deletePrefix start => store.deletePrefix start >>= fun _ => pure ()
  | .putIfAbsent key data => store.putIfAbsent key data
  | .putChunked key chunks => store.putChunked key chunks
  | .listMeta start => store.listMeta start >>= fun _ => pure ()
  | .listMetaPage start startAfter limit => store.listMetaPage start startAfter limit >>= fun _ => pure ()
  | .deleteIfMatches key digest => store.deleteIfMatches sha2 key digest >>= fun _ => pure ()
  | .putCas data => store.putCas sha2 data >>= fun _ => pure ()
  | .getCas digest => store.getCas sha2 digest >>= fun _ => pure ()
  | .existsCas digest => store.existsCas digest >>= fun _ => pure ()
  | .putStreaming reader => store.putStreaming sha2 reader >>= fun _ => pure ()
  | .getVerified digest => store.getVerified sha2 digest >>= fun _ => pure ()

def task : List BlobMethod → Prog S Unit
  | [] => .pure ()
  | op :: ops => (store.call sha2 op).prog.bind fun _ => task ops

structure Updates (allowed : (S → S) → Prop) : Prop where
  put (key : String) (data : Bytes) : (store.put key data).prog.Updates allowed
  get (key : String) : (store.get key).prog.Updates allowed
  delete (key : String) : (store.delete key).prog.Updates allowed
  head (key : String) : (store.head key).prog.Updates allowed
  list (start : String) : (store.list start).prog.Updates allowed
  listMeta (start : String) : (store.listMeta start).prog.Updates allowed
  listMetaPage (start : String) (startAfter : Option String) (limit : ℕ) :
    (store.listMetaPage start startAfter limit).prog.Updates allowed

namespace Updates

variable {store} {allowed : (S → S) → Prop} (methods : store.Updates allowed)

include methods

theorem existsKey (key : String) : (store.existsKey key).prog.Updates allowed := by
  refine updates_bind (updates_attempt (methods.head key)) fun result => ?_
  rcases result with (_ | _ | _) | _ <;> trivial

theorem copy (srcKey dstKey : String) : (store.copy srcKey dstKey).prog.Updates allowed :=
  updates_bind (methods.get srcKey) fun data => methods.put dstKey data

theorem rename (oldKey newKey : String) : (store.rename oldKey newKey).prog.Updates allowed :=
  updates_bind (methods.get oldKey) fun data =>
    updates_bind (methods.put newKey data) fun _ => methods.delete oldKey

theorem deleteMany (keys : List String) : (store.deleteMany keys).prog.Updates allowed := by
  induction keys with
  | nil => trivial
  | cons key keys ih =>
    refine updates_bind (updates_attempt (methods.delete key)) fun result => ?_
    rcases result with (_ | _ | _) | _ <;> first | exact ih | trivial

theorem deleteCounted (keys : List String) (count : UInt64) :
    (store.deleteCounted keys count).prog.Updates allowed := by
  induction keys generalizing count with
  | nil => trivial
  | cons key keys ih =>
    refine updates_bind (updates_attempt (methods.delete key)) fun result => ?_
    rcases result with (_ | _ | _) | _ <;> first | exact ih _ | trivial

theorem putIfAbsent (key : String) (data : Bytes) : (store.putIfAbsent key data).prog.Updates allowed := by
  refine updates_bind (updates_attempt (methods.head key)) fun result => ?_
  rcases result with (_ | _ | _) | _ <;> first | exact methods.put key data | trivial

theorem deleteIfMatches (key : String) (digest : Digest) :
    (store.deleteIfMatches sha2 key digest).prog.Updates allowed := by
  refine updates_bind (updates_attempt (methods.get key)) fun result => ?_
  rcases result with (_ | _ | _) | data <;> try trivial
  dsimp only
  split_ifs with differs
  · trivial
  · exact updates_bind (methods.delete key) fun _ => trivial

theorem putAddressed (digest : Digest) (data : Bytes) :
    (store.putAddressed digest data).prog.Updates allowed := by
  refine updates_bind (updates_attempt (methods.putIfAbsent _ data)) fun result => ?_
  rcases result with (_ | _ | _) | _ <;> trivial

theorem getCas (digest : Digest) : (store.getCas sha2 digest).prog.Updates allowed := by
  refine updates_bind (methods.get digest.toHex) fun data => ?_
  split_ifs with differs
  all_goals trivial

theorem putStreaming (reader : List (Except IoError Bytes)) :
    (store.putStreaming sha2 reader).prog.Updates allowed :=
  updates_bind trivial fun pair => methods.putAddressed (sha2.finalize pair.1) pair.2

theorem call (op : BlobMethod) : (store.call sha2 op).prog.Updates allowed := by
  have dropped {α : Type} {made : BlobCall S α} (updates : made.prog.Updates allowed) :
      (made >>= fun _ => pure ()).prog.Updates allowed :=
    updates_bind updates fun _ => trivial
  cases op with
  | put key data => exact methods.put key data
  | get key => exact dropped (methods.get key)
  | delete key => exact methods.delete key
  | head key => exact dropped (methods.head key)
  | list start => exact dropped (methods.list start)
  | existsKey key => exact dropped (methods.existsKey key)
  | copy srcKey dstKey => exact methods.copy srcKey dstKey
  | rename oldKey newKey => exact methods.rename oldKey newKey
  | deleteMany keys => exact methods.deleteMany keys
  | deletePrefix start =>
    exact dropped (updates_bind (methods.list start) fun keys => methods.deleteCounted keys 0)
  | putIfAbsent key data => exact methods.putIfAbsent key data
  | putChunked key chunks => exact methods.put key chunks.flatten
  | listMeta start => exact dropped (methods.listMeta start)
  | listMetaPage start startAfter limit => exact dropped (methods.listMetaPage start startAfter limit)
  | deleteIfMatches key digest => exact dropped (methods.deleteIfMatches sha2 key digest)
  | putCas data => exact dropped (methods.putAddressed _ data)
  | getCas digest => exact dropped (methods.getCas sha2 digest)
  | existsCas digest => exact dropped (methods.existsKey digest.toHex)
  | putStreaming reader => exact dropped (methods.putStreaming sha2 reader)
  | getVerified digest => exact dropped (methods.getCas sha2 digest)

theorem task (ops : List BlobMethod) : (store.task sha2 ops).Updates allowed := by
  induction ops with
  | nil => trivial
  | cons op ops ih => exact (methods.call sha2 op).bind fun _ => ih

end Updates

end BlobStore

/-! ### The account -/

def totalBytes (blobs : Blobs) : ℕ := total (fun _ => List.length) blobs

namespace Memory

def putUpdate (key : String) (data : Bytes) (state : MemoryState) : MemoryState :=
  ((put key data).exec state).2

def deleteUpdate (key : String) (state : MemoryState) : MemoryState := ((delete key).exec state).2

def buildMemory (capacityBytes : Option UInt64) : MemoryState :=
  match capacityBytes with
  | some cap => withCapacity cap
  | none => new

/-- **The counter keeps account**, in a state of the store. -/
structure Accounted (state : MemoryState) : Prop where
  /-- It is the sum of the sizes of the stored blobs. -/
  sum : state.usedBytes.toNat = totalBytes state.map
  /-- It is within the capacity. -/
  within : ∀ cap, state.capacityBytes = some cap → state.usedBytes ≤ cap
  /-- What a `put` or a `delete` subtracts was counted. -/
  counted : ∀ (key : String) (data : Bytes), state.map[key]? = some data →
    data.length ≤ state.usedBytes.toNat
  /-- A `put` that is refused for the quota changes nothing. -/
  refused : ∀ (key : String) (data : Bytes) (limit needed : UInt64) (state' : MemoryState),
    (put key data).exec state = (.error (.quotaExceeded limit needed), state') → state' = state
  /-- A `put` that fits, in the place of the old blob of its key, is done. -/
  fits : ∀ (key : String) (data : Bytes), (∀ cap, state.capacityBytes = some cap →
    totalBytes (state.map.insert key data) ≤ cap.toNat) → ((put key data).exec state).1 = .ok ()

def CountsPut (state : MemoryState) (key : String) (data : Bytes) : Prop :=
  totalBytes (state.map.insert key data) < 2 ^ 64 ∨ ∃ cap, state.capacityBytes = some cap ∧
    cap.toNat < totalBytes (state.map.insert key data) % 2 ^ 64

section

variable {state : MemoryState}

theorem exec_put_cases (key : String) (data : Bytes) (state : MemoryState) :
    (∃ cap, state.capacityBytes = some cap ∧ cap < wouldBe state key data ∧
      (put key data).exec state = (.error (.quotaExceeded cap (wouldBe state key data)), state)) ∨
    ((∀ cap, state.capacityBytes = some cap → wouldBe state key data ≤ cap) ∧
      (put key data).exec state = (.ok (), stored state key data)) := by
  unfold put
  rw [exec_atomic]
  cases state.capacityBytes with
  | none => exact .inr ⟨nofun, rfl⟩
  | some cap =>
    by_cases past : wouldBe state key data > cap
    · exact .inl ⟨cap, rfl, past, if_pos past⟩
    · refine .inr ⟨fun limit same => ?_, if_neg past⟩
      cases same
      exact UInt64.not_lt.mp past

theorem length_le_totalBytes {key : String} {data : Bytes} (found : state.map[key]? = some data) :
    totalBytes (state.map.erase key) + data.length = totalBytes state.map :=
  total_erase (fun _ => List.length) found

theorem wouldBe_toNat (sum : state.usedBytes.toNat = totalBytes state.map) (key : String) (data : Bytes) :
    (wouldBe state key data).toNat = totalBytes (state.map.insert key data) % 2 ^ 64 := by
  have after : totalBytes (state.map.insert key data) = totalBytes (state.map.erase key) + data.length :=
    total_insert (fun _ => List.length) state.map key data
  have bound := state.usedBytes.toNat_lt
  unfold wouldBe len64
  rw [after, UInt64.toNat_add, UInt64.toNat_ofNat']
  cases found : state.map[key]? with
  | none =>
    rw [Option.elim_none, UInt64.sub_zero, sum, erase_absent state.map found, Nat.add_mod_mod]
  | some old =>
    have taken := length_le_totalBytes found
    have small : (UInt64.ofNat old.length).toNat = old.length := by
      rw [UInt64.toNat_ofNat', Nat.mod_eq_of_lt (by omega)]
    have covered : UInt64.ofNat old.length ≤ state.usedBytes := by
      rw [UInt64.le_iff_toNat_le, small]
      omega
    rw [Option.elim_some, UInt64.toNat_sub_of_le _ _ covered, small, sum, ← taken, Nat.add_sub_cancel,
      Nat.add_mod_mod]

theorem accounted_iff : Accounted state ↔ state.usedBytes.toNat = totalBytes state.map ∧
    ∀ cap, state.capacityBytes = some cap → state.usedBytes ≤ cap := by
  refine ⟨fun account => ⟨account.sum, account.within⟩, fun ⟨sum, within⟩ => ⟨sum, within, ?_, ?_, ?_⟩⟩
  · intro key data found
    have taken := length_le_totalBytes found
    omega
  · intro key data limit needed state' refused
    rcases exec_put_cases key data state with ⟨cap, _, _, same⟩ | ⟨_, same⟩
    · rw [same] at refused
      cases refused
      rfl
    · simp [same] at refused
  · intro key data room
    rcases exec_put_cases key data state with ⟨cap, limited, past, _⟩ | ⟨_, same⟩
    · have fits := room cap limited
      have small : totalBytes (state.map.insert key data) < 2 ^ 64 := fits.trans_lt cap.toNat_lt
      rw [UInt64.lt_iff_toNat_lt, wouldBe_toNat sum, Nat.mod_eq_of_lt small] at past
      omega
    · rw [same]

theorem put_accounted_iff (account : Accounted state) (key : String) (data : Bytes) :
    Accounted (putUpdate key data state) ↔ CountsPut state key data := by
  have count := wouldBe_toNat account.sum key data
  unfold putUpdate CountsPut
  rcases exec_put_cases key data state with ⟨cap, limited, past, same⟩ | ⟨within, same⟩
  · rw [same]
    refine iff_of_true account (.inr ⟨cap, limited, ?_⟩)
    rw [← count]
    exact UInt64.lt_iff_toNat_lt.mp past
  · rw [same, accounted_iff]
    constructor
    · rintro ⟨sum, _⟩
      refine .inl ?_
      rw [show totalBytes (state.map.insert key data) = (wouldBe state key data).toNat from sum.symm]
      exact (wouldBe state key data).toNat_lt
    · rintro (small | ⟨cap, limited, past⟩)
      · refine ⟨?_, within⟩
        show (wouldBe state key data).toNat = totalBytes (state.map.insert key data)
        rw [count, Nat.mod_eq_of_lt small]
      · have kept := UInt64.le_iff_toNat_le.mp (within cap limited)
        omega

theorem delete_accounted (account : Accounted state) (key : String) :
    Accounted (deleteUpdate key state) := by
  unfold deleteUpdate delete
  rw [exec_atomic]
  cases found : state.map[key]? with
  | none => exact account
  | some removed =>
    have taken := length_le_totalBytes found
    have sum := account.sum
    have bound := state.usedBytes.toNat_lt
    have small : (len64 removed).toNat = removed.length := by
      rw [len64, UInt64.toNat_ofNat', Nat.mod_eq_of_lt (by omega)]
    have covered : len64 removed ≤ state.usedBytes := by
      rw [UInt64.le_iff_toNat_le, small]
      omega
    have fewer : (state.usedBytes - len64 removed).toNat = state.usedBytes.toNat - removed.length := by
      rw [UInt64.toNat_sub_of_le _ _ covered, small]
    refine accounted_iff.mpr ⟨?_, fun cap limited => ?_⟩
    · show (state.usedBytes - len64 removed).toNat = totalBytes (state.map.erase key)
      omega
    · have within := UInt64.le_iff_toNat_le.mp (account.within cap limited)
      show state.usedBytes - len64 removed ≤ cap
      rw [UInt64.le_iff_toNat_le, fewer]
      omega

end

theorem buildMemory_accounted (capacityBytes : Option UInt64) : Accounted (buildMemory capacityBytes) := by
  cases capacityBytes with
  | none => exact accounted_iff.mpr ⟨rfl, nofun⟩
  | some cap => exact accounted_iff.mpr ⟨rfl, fun _ _ => UInt64.zero_le⟩

/-! ### Runs -/

/-- **What a step makes of the state of the memory store.** -/
inductive Update : (MemoryState → MemoryState) → Prop where
  | put (key : String) (data : Bytes) : Update (putUpdate key data)
  | delete (key : String) : Update (deleteUpdate key)
  | looks : Update fun state => state

theorem updates : store.Updates Update where
  put key data := ⟨.put key data, fun _ => trivial⟩
  get _ := ⟨.looks, fun _ => trivial⟩
  delete key := ⟨.delete key, fun _ => trivial⟩
  head _ := ⟨.looks, fun _ => trivial⟩
  list _ := ⟨.looks, fun _ => trivial⟩
  listMeta _ := ⟨.looks, fun _ => trivial⟩
  listMetaPage _ _ _ := ⟨.looks, fun _ => trivial⟩

section

variable {ι : Type} [DecidableEq ι]

def CountsTurn (race : Race ι MemoryState Unit) (i : ι) : Prop :=
  ∀ key data next, race.thread i = .step next (putUpdate key data) → CountsPut race.state key data

theorem turn_accounted_iff {race : Race ι MemoryState Unit} (account : Accounted race.state)
    (threads : ∀ j, (race.thread j).Updates Update) (i : ι) :
    Accounted (race.step i).2.state ↔ CountsTurn race i := by
  constructor
  · intro after key data next program
    rw [(Race.step_of_step program).2] at after
    exact (put_accounted_iff account key data).mp after
  · intro counts
    cases program : race.thread i with
    | pure value =>
      rw [(Race.step_of_pure program).2]
      exact account
    | step next update =>
      have made := threads i
      rw [program] at made
      rw [(Race.step_of_step program).2]
      cases made.1 with
      | put key data => exact (put_accounted_iff account key data).mpr (counts key data next program)
      | delete key => exact delete_accounted account key
      | looks => exact account

/-- **The quota of the memory store**: whatever the capacity, the tasks and the interleaving of their steps,
the counter keeps account from the first state to the last exactly if it can follow every `put`. -/
theorem memory_accounted_iff (sha2 : Sha2) (capacityBytes : Option UInt64) (tasks : ι → List BlobMethod)
    (schedule : List ι) :
    (Accounted (buildMemory capacityBytes) ∧
      AlongRun Race.step (fun race i => Accounted (race.step i).2.state)
        (Race.start (fun i => store.task sha2 (tasks i)) (buildMemory capacityBytes)) schedule) ↔
    AlongRun Race.step CountsTurn
      (Race.start (fun i => store.task sha2 (tasks i)) (buildMemory capacityBytes)) schedule := by
  rw [and_iff_right (buildMemory_accounted capacityBytes)]
  refine alongRun_congr (fun race => Accounted race.state ∧ ∀ j, (race.thread j).Updates Update)
    (fun race i holds => ?_) ⟨buildMemory_accounted capacityBytes, fun j => ?_⟩ schedule
  · refine ⟨turn_accounted_iff holds.1 holds.2 i, fun after => ⟨after, fun j => ?_⟩⟩
    exact Race.updates_step holds.2 i j
  · exact updates.task sha2 (tasks j)

end

/-! ### One buffer under many keys -/

def largestCapacity : UInt64 := 18446744073709551615

def afterPuts (keys : List String) (data : Bytes) : MemoryState :=
  (afterRun Race.step (Race.start (fun _ : Unit => store.task .firstBytes (keys.map (.put · data)))
    (buildMemory (some largestCapacity))) (keys.map fun _ => ())).state

theorem putUpdate_of_absent {state : MemoryState} {key : String} (data : Bytes)
    (largest : state.capacityBytes = some largestCapacity) (absent : state.map[key]? = none) :
    putUpdate key data state =
      { state with map := state.map.insert key data, usedBytes := state.usedBytes + len64 data } := by
  unfold putUpdate
  rcases exec_put_cases key data state with ⟨cap, limited, past, _⟩ | ⟨_, same⟩
  · rw [largest] at limited
    cases limited
    rw [UInt64.lt_iff_toNat_lt] at past
    exact absurd past (Nat.not_lt.mpr (Nat.le_of_lt_succ (UInt64.toNat_lt _)))
  · rw [same]
    unfold stored wouldBe
    rw [absent, Option.elim_none, UInt64.sub_zero]

theorem counted_of_puts (sha2 : Sha2) (data : Bytes) {keys : List String} (apart : keys.Nodup)
    (race : Race Unit MemoryState Unit) (largest : race.state.capacityBytes = some largestCapacity)
    (absent : ∀ key ∈ keys, race.state.map[key]? = none)
    (task : race.thread () = store.task sha2 (keys.map (.put · data))) :
    (afterRun Race.step race (keys.map fun _ => ())).state.usedBytes =
        race.state.usedBytes + UInt64.ofNat (keys.length * data.length) ∧
      totalBytes (afterRun Race.step race (keys.map fun _ => ())).state.map =
        totalBytes race.state.map + keys.length * data.length := by
  induction keys generalizing race with
  | nil => simp [afterRun]
  | cons key keys ih =>
    obtain ⟨fresh, others⟩ := List.nodup_cons.mp apart
    have here := absent key List.mem_cons_self
    obtain ⟨thread, state⟩ := Race.step_of_step task
    replace state := state.trans (putUpdate_of_absent data largest here)
    have rest := ih others (race.step ()).2 (by rw [state]; exact largest) (fun other member => ?_) thread
    · rw [state] at rest
      rw [List.map_cons, afterRun, rest.1, rest.2, totalBytes, total_insert, erase_absent _ here,
        List.length_cons, Nat.succ_mul, Nat.add_comm (keys.length * data.length), UInt64.ofNat_add,
        UInt64.add_assoc, Nat.add_assoc]
      exact ⟨rfl, rfl⟩
    · have apart : key ≠ other := fun same => fresh (same ▸ member)
      rw [state, get_insert, if_neg apart]
      exact absent other (List.mem_cons_of_mem key member)

theorem counter_afterPuts (data : Bytes) {keys : List String} (apart : keys.Nodup) :
    (afterPuts keys data).usedBytes = UInt64.ofNat (keys.length * data.length) ∧
      totalBytes (afterPuts keys data).map = keys.length * data.length := by
  obtain ⟨counter, total⟩ := counted_of_puts .firstBytes data apart
    (Race.start (fun _ => _) (buildMemory (some largestCapacity))) rfl (fun _ _ => rfl) rfl
  exact ⟨counter.trans (UInt64.zero_add _), total.trans (Nat.zero_add _)⟩

def numbered (count : ℕ) : List String := (List.range count).map Nat.repr

theorem numbered_nodup (count : ℕ) : (numbered count).Nodup :=
  List.nodup_range.map fun _ _ => Nat.repr_inj.mp

theorem memory_put_past_quota :
    (afterPuts (numbered (2 ^ 28)) (List.replicate (2 ^ 36) 0)).usedBytes = 0 ∧
      totalBytes (afterPuts (numbered (2 ^ 28)) (List.replicate (2 ^ 36) 0)).map = 2 ^ 64 := by
  have sizes : (numbered (2 ^ 28)).length * (List.replicate (2 ^ 36) (0 : UInt8)).length = 2 ^ 64 := by
    rw [numbered, List.length_map, List.length_range, List.length_replicate, ← Nat.pow_add]
  have counter := counter_afterPuts (List.replicate (2 ^ 36) 0) (numbered_nodup (2 ^ 28))
  rw [sizes] at counter
  exact counter

end Memory

end OxiStore
