/-
**Caches.**
-/

import OxiStore.Core.Time
import OxiStore.Lib.Lockstep
import OxiStore.Lib.LinkedMap
import OxiStore.Lib.Loops

namespace OxiStore.Caching

open StepProg Function

/-! ### Entries -/

structure Instant where
  nanos : ℕ
  bounded : nanos < 2 ^ 63 * 10 ^ 9
deriving DecidableEq

instance (nanos : ℕ) : OfNat Instant nanos := ⟨⟨nanos % (2 ^ 63 * 10 ^ 9), Nat.mod_lt _ (by decide)⟩⟩

def Instant.checkedAdd (now : Instant) (ttl : Duration) : Option Instant :=
  if fits : now.nanos + ttl.nanos < 2 ^ 63 * 10 ^ 9 then some ⟨now.nanos + ttl.nanos, fits⟩ else none

structure CacheEntry (V : Type) where
  value : V
  expiresAt : Option Instant
deriving DecidableEq

namespace CacheEntry

variable {V : Type}

def new (value : V) : CacheEntry V := ⟨value, none⟩

def withTtl (now : Instant) (value : V) (ttl : Duration) : Option (CacheEntry V) :=
  (now.checkedAdd ttl).map fun deadline => ⟨value, some deadline⟩

def isExpired (now : Instant) (entry : CacheEntry V) : Bool :=
  match entry.expiresAt with
  | some deadline => deadline.nanos ≤ now.nanos
  | none => false

def live (now : Instant) (entry : CacheEntry V) : Option V :=
  if entry.isExpired now then none else some entry.value

theorem live_eq_some {now : Instant} {entry : CacheEntry V} {value : V} :
    entry.live now = some value ↔ entry.isExpired now = false ∧ entry.value = value := by
  unfold live
  cases entry.isExpired now <;> simp

theorem live_new (now : Instant) (value : V) : (new value).live now = some value := rfl

end CacheEntry

/-! ### The trait and its runs -/

inductive Op (κ V : Type) where
  | put (key : κ) (value : V)
  | putWithTtl (key : κ) (value : V) (ttl : Duration)
  | get (key : κ)
  | peek (key : κ)
  | containsKey (key : κ)
  | remove (key : κ)
  | clear
  | resize (newCap : ℕ)

/-- **`trait Cache`**, over the states of a cache. `put_with_ttl` may panic before it does anything, a call
that `panics` does so half-way, and `resize` may never return. -/
structure Cache (κ V σ : Type) where
  get : Instant → κ → σ → Option V × σ
  put : κ → V → σ → Option V × σ
  putWithTtl : Instant → κ → V → Duration → σ → Option (Option V × σ)
  len : σ → ℕ
  cap : σ → ℕ
  remove : κ → σ → Option V × σ
  clear : σ → σ
  peek : Instant → κ → σ → Option V
  containsKey : Instant → κ → σ → Bool
  resize : ℕ → σ → Option σ
  panics : Instant → Op κ V → σ → Bool := fun _ _ _ => false

def insertWithTtl {κ V σ : Type} (insertEntry : κ → CacheEntry V → σ → Option V × σ) (now : Instant)
    (key : κ) (value : V) (ttl : Duration) (s : σ) : Option (Option V × σ) :=
  (CacheEntry.withTtl now value ttl).map fun entry => insertEntry key entry s

inductive Answer (V : Type) where
  | value (found : Option V)
  | present (isPresent : Bool)
  | done
  | panicked
  | never
deriving DecidableEq

variable {κ V σ : Type}

/-- **One call at a time of the clock.** A panic leaves what was done until then; after a call that never
returns there is no other. -/
def Cache.step (cache : Cache κ V σ) : Option σ → Instant × Op κ V → Answer V × Option σ
  | none, _ => (.never, none)
  | some s, (now, op) =>
      let (answer, after) : Answer V × Option σ :=
        match op with
        | .put key value => (.value (cache.put key value s).1, some (cache.put key value s).2)
        | .putWithTtl key value ttl =>
            match cache.putWithTtl now key value ttl s with
            | none => (.panicked, some s)
            | some (evicted, s') => (.value evicted, some s')
        | .get key => (.value (cache.get now key s).1, some (cache.get now key s).2)
        | .peek key => (.value (cache.peek now key s), some s)
        | .containsKey key => (.present (cache.containsKey now key s), some s)
        | .remove key => (.value (cache.remove key s).1, some (cache.remove key s).2)
        | .clear => (.done, some (cache.clear s))
        | .resize newCap =>
            match cache.resize newCap s with
            | none => (.never, none)
            | some s' => (.done, some s')
      (if cache.panics now op s then .panicked else answer, after)

/-- **What is to be shown of an invariant**: every call that returns keeps it. -/
structure Cache.Keeps (cache : Cache κ V σ) (insertEntry : κ → CacheEntry V → σ → Option V × σ)
    (holds : σ → Prop) : Prop where
  put : ∀ s key value, cache.put key value s = insertEntry key (.new value) s
  putWithTtl : ∀ s now key value ttl,
    cache.putWithTtl now key value ttl s = insertWithTtl insertEntry now key value ttl s
  insert : ∀ s key new, holds s → holds (insertEntry key new s).2
  get : ∀ s now key, holds s → holds (cache.get now key s).2
  remove : ∀ s key, holds s → holds (cache.remove key s).2
  clear : ∀ s, holds s → holds (cache.clear s)
  resize : ∀ s newCap s', holds s → cache.resize newCap s = some s' → holds s'

section

variable {cache : Cache κ V σ} {insertEntry : κ → CacheEntry V → σ → Option V × σ} {holds : σ → Prop}

variable (keeps : cache.Keeps insertEntry holds)

include keeps

theorem Cache.Keeps.step {s s' : σ} (start : holds s) {op : Instant × Op κ V}
    (next : (cache.step (some s) op).2 = some s') : holds s' := by
  obtain ⟨now, op⟩ := op
  cases op with
  | put key value =>
    unfold Cache.step at next
    dsimp only at next
    rw [keeps.put] at next
    cases next
    exact keeps.insert s key _ start
  | putWithTtl key value ttl =>
    unfold Cache.step at next
    dsimp only at next
    rw [keeps.putWithTtl, insertWithTtl] at next
    cases new : CacheEntry.withTtl now value ttl with
    | none =>
      rw [new] at next
      cases next
      exact start
    | some entry =>
      rw [new] at next
      cases next
      exact keeps.insert s key entry start
  | get key =>
    cases next
    exact keeps.get s now key start
  | peek key | containsKey key =>
    cases next
    exact start
  | remove key =>
    cases next
    exact keeps.remove s key start
  | clear =>
    cases next
    exact keeps.clear s start
  | resize newCap =>
    unfold Cache.step at next
    dsimp only at next
    cases resized : cache.resize newCap s with
    | none => simp [resized] at next
    | some after =>
      rw [resized] at next
      cases next
      exact keeps.resize s newCap s' start resized

theorem Cache.Keeps.afterRun {s s' : σ} {ops : List (Instant × Op κ V)} (start : holds s)
    (ends : StepProg.afterRun cache.step (some s) ops = some s') : holds s' := by
  let sound : Option σ → Prop := fun state => ∀ s, state = some s → holds s
  have always : sound (StepProg.afterRun cache.step (some s) ops) := by
    refine afterRun_invariant (fun state op held _ after next => ?_) (fun s₀ same => ?_)
      (alongRun_of_forall (fun _ _ => trivial) (some s) ops)
    · cases state with
      | none => cases next
      | some before => exact keeps.step (held before rfl) next
    · cases same
      exact start
  exact always s' ends

theorem Cache.Keeps.returns (resizes : ∀ s newCap, holds s → ∃ s', cache.resize newCap s = some s') {s : σ}
    (start : holds s) (ops : List (Instant × Op κ V)) :
    ∃ s', StepProg.afterRun cache.step (some s) ops = some s' ∧ holds s' := by
  let sound : Option σ → Prop := fun state => ∃ s, state = some s ∧ holds s
  refine afterRun_invariant (fun state op (held : sound state) _ => ?_) ⟨s, rfl, start⟩
    (alongRun_of_forall (fun _ _ => trivial) (some s) ops)
  obtain ⟨before, rfl, held⟩ := held
  have next : ∃ s', (cache.step (some before) op).2 = some s' := by
    obtain ⟨now, op⟩ := op
    cases op with
    | putWithTtl key value ttl =>
      cases put : cache.putWithTtl now key value ttl before with
      | none => exact ⟨before, by simp [Cache.step, put]⟩
      | some result => exact ⟨result.2, by simp [Cache.step, put]⟩
    | resize newCap =>
      obtain ⟨s', ends⟩ := resizes before newCap held
      exact ⟨s', by simp [Cache.step, ends]⟩
    | _ => exact ⟨_, rfl⟩
  obtain ⟨s', done⟩ := next
  exact ⟨s', done, keeps.step held done⟩

end

/-! ### Ledgers -/

abbrev Ledger (κ V : Type) := κ → Option (CacheEntry V)

section

variable [DecidableEq κ]

def record (ledger : Ledger κ V) : Instant × Op κ V → Ledger κ V
  | (_, .put key value) => Function.update ledger key (some (.new value))
  | (now, .putWithTtl key value ttl) =>
      match CacheEntry.withTtl now value ttl with
      | none => ledger
      | some entry => Function.update ledger key (some entry)
  | (_, .remove key) => Function.update ledger key none
  | (_, .clear) => fun _ => none
  | _ => ledger

def ledgerOf (ops : List (Instant × Op κ V)) : Ledger κ V := ops.foldl record fun _ => none

def Below (first second : Ledger κ V) : Prop := ∀ key entry, first key = some entry → second key = some entry

variable {first second third : Ledger κ V} {key : κ}

omit [DecidableEq κ] in
theorem Below.refl (ledger : Ledger κ V) : Below ledger ledger := fun _ _ found => found

omit [DecidableEq κ] in
theorem Below.trans (lower : Below first second) (upper : Below second third) : Below first third :=
  fun key entry found => upper key entry (lower key entry found)

theorem Below.update (below : Below first second) (key : κ) (entry : Option (CacheEntry V)) :
    Below (update first key entry) (update second key entry) := by
  intro other found here
  by_cases same : other = key
  · subst same
    rw [update_self] at here ⊢
    exact here
  · rw [update_of_ne same] at here ⊢
    exact below other found here

theorem below_update_none (ledger : Ledger κ V) (key : κ) :
    Below (update ledger key none) ledger := by
  intro other entry found
  by_cases same : other = key
  · simp [same, update_self] at found
  · rwa [update_of_ne same] at found

theorem Below.record (below : Below first second) (op : Instant × Op κ V) :
    Below (record first op) (record second op) := by
  obtain ⟨now, op⟩ := op
  cases op with
  | put key value => exact below.update key _
  | putWithTtl key value ttl =>
    unfold Caching.record
    dsimp only
    split
    · exact below
    · exact below.update key _
  | get key | peek key | containsKey key => exact below
  | remove key => exact below.update key none
  | clear => exact Below.refl _
  | resize newCap => exact below

variable {map : LinkedMap κ (CacheEntry V)}

theorem below_insert {held : Ledger κ V} (below : Below map.get held) (key : κ) (new : CacheEntry V) :
    Below (map.insert key new).get (update held key (some new)) := by
  rw [LinkedMap.get_insert_eq_update]
  exact below.update key (some new)

theorem below_erase {held : Ledger κ V} (below : Below map.get held) (key : κ) :
    Below (map.erase key).get (update held key none) := by
  rw [LinkedMap.get_erase_eq_update]
  exact below.update key none

/-! #### Entries without times to live -/

def TtlFree (ledger : Ledger κ V) : Prop := ∀ key held, ledger key = some held → held.expiresAt = none

def valuesOf (ledger : Ledger κ V) : κ → Option V := fun key => (ledger key).map CacheEntry.value

theorem TtlFree.update (free : TtlFree first) (key : κ) (value : V) :
    TtlFree (update first key (some (.new value))) := by
  intro other held here
  by_cases own : other = key
  · rw [own, update_self] at here
    cases here
    rfl
  · rw [update_of_ne own] at here
    exact free other held here

omit [DecidableEq κ]

theorem valuesOf_eq_none : valuesOf first key = none ↔ first key = none := Option.map_eq_none_iff

theorem valuesOf_of_held {held : CacheEntry V} (here : first key = some held) :
    valuesOf first key = some held.value := by
  rw [valuesOf, here]
  rfl

theorem TtlFree.alive (free : TtlFree first) {held : CacheEntry V} (here : first key = some held)
    (now : Instant) : held.live now = some held.value := by
  have endless := free key held here
  refine CacheEntry.live_eq_some.mpr ⟨?_, rfl⟩
  unfold CacheEntry.isExpired
  rw [endless]

theorem TtlFree.live (free : TtlFree first) (now : Instant) (key : κ) :
    (first key).bind (·.live now) = valuesOf first key := by
  unfold valuesOf
  cases here : first key with
  | none => rfl
  | some held => exact free.alive here now

theorem TtlFree.below (free : TtlFree second) (below : Below first second) : TtlFree first :=
  fun key held here => free key held (below key held here)

theorem ttlFree_of_empty (empty : ∀ key, first key = none) : TtlFree first := by
  intro key held here
  simp [empty] at here

end

/-! ### Coherence -/

def Cache.CoherentAt (cache : Cache κ V σ) (s : σ) (ledger : Ledger κ V) : Prop :=
  ∀ now key,
    (∀ value, (cache.get now key s).1 = some value →
      ∃ entry, ledger key = some entry ∧ entry.isExpired now = false ∧ entry.value = value) ∧
    (∀ value, cache.peek now key s = some value →
      ∃ entry, ledger key = some entry ∧ entry.isExpired now = false ∧ entry.value = value) ∧
    (cache.containsKey now key s = true →
      ∃ entry, ledger key = some entry ∧ entry.isExpired now = false)

/-- **A `get` leaves the other entries alone**: what could be seen of another key is seen after it. -/
def Cache.GetKeepsOthers (cache : Cache κ V σ) (now : Instant) (key : κ) (s : σ) : Prop :=
  ∀ other, other ≠ key → ∀ value, cache.peek now other s = some value →
    cache.peek now other (cache.get now key s).2 = some value

theorem Cache.getKeepsOthers_of_entry {cache : Cache κ V σ} {now : Instant} {key : κ} {s : σ}
    (entry : σ → Ledger κ V) (before : ∀ other, cache.peek now other s = (entry s other).bind (·.live now))
    (after : ∀ other, cache.peek now other (cache.get now key s).2 =
      (entry (cache.get now key s).2 other).bind (·.live now))
    (others : ∀ other, other ≠ key → entry (cache.get now key s).2 other = entry s other) :
    cache.GetKeepsOthers now key s := by
  intro other different value seen
  rw [after, others other different, ← before, seen]

/-- **What is to be shown of a policy.** In the states that its runs reach, `entry` is what the cache
holds of each key: what is reported is held and has not expired, and an operation leaves no more than what
the ledger of the entries has after it. The `put`s that are refused are those of keys it does not
`take`. -/
structure Cache.Lawful [DecidableEq κ] (cache : Cache κ V σ)
    (insertEntry : κ → CacheEntry V → σ → Option V × σ) (valid : σ → Prop) (entry : σ → Ledger κ V)
    (takes : σ → κ → Prop) : Prop where
  reads : ∀ s now key value, valid s →
    (cache.get now key s).1 = some value ∨ cache.peek now key s = some value →
      ∃ held, entry s key = some held ∧ held.live now = some value
  contains : ∀ s now key, valid s → cache.containsKey now key s = true →
    ∃ held value, entry s key = some held ∧ held.live now = some value
  get : ∀ s now key, valid s →
    valid (cache.get now key s).2 ∧ Below (entry (cache.get now key s).2) (entry s)
  put : ∀ s key value, cache.put key value s = insertEntry key (.new value) s
  putWithTtl : ∀ s now key value ttl,
    cache.putWithTtl now key value ttl s = insertWithTtl insertEntry now key value ttl s
  insert : ∀ s key new, valid s → valid (insertEntry key new s).2 ∧
    (takes s key → Below (entry (insertEntry key new s).2) (Function.update (entry s) key (some new)))
  remove : ∀ s key, valid s →
    valid (cache.remove key s).2 ∧ Below (entry (cache.remove key s).2) (Function.update (entry s) key none)
  clear : ∀ s, valid s → valid (cache.clear s) ∧ ∀ key, entry (cache.clear s) key = none
  resize : ∀ s newCap s', valid s → cache.resize newCap s = some s' → valid s' ∧ Below (entry s') (entry s)

def Takes (takes : σ → κ → Prop) : Option σ → Instant × Op κ V → Prop
  | some s, (_, .put key _) => takes s key
  | some s, (_, .putWithTtl key _ _) => takes s key
  | _, _ => True

theorem takesAll_alongRun (cache : Cache κ V σ) (s : Option σ) (ops : List (Instant × Op κ V)) :
    AlongRun cache.step (Takes fun _ _ => True) s ops := by
  refine alongRun_of_forall (fun s op => ?_) s ops
  unfold Takes
  split
  all_goals trivial

theorem Cache.Keeps.takes_alongRun {cache : Cache κ V σ} {insertEntry : κ → CacheEntry V → σ → Option V × σ}
    {holds : σ → Prop} {takes : σ → κ → Prop} (keeps : cache.Keeps insertEntry holds)
    (always : ∀ s key, holds s → takes s key) {s : σ} (start : holds s) (ops : List (Instant × Op κ V)) :
    AlongRun cache.step (Takes takes) (some s) ops := by
  refine alongRun_iff_split.mpr fun before op after _ => ?_
  cases reached : StepProg.afterRun cache.step (some s) before with
  | none => exact trivial
  | some middle =>
    have held := keeps.afterRun start reached
    obtain ⟨now, op⟩ := op
    cases op with
    | put key | putWithTtl key => exact always middle key held
    | _ => exact trivial

section

variable [DecidableEq κ] {cache : Cache κ V σ} {insertEntry : κ → CacheEntry V → σ → Option V × σ}
  {valid : σ → Prop} {entry : σ → Ledger κ V} {takes : σ → κ → Prop}
  (lawful : cache.Lawful insertEntry valid entry takes) {s : σ}

include lawful

theorem Cache.Lawful.keeps : cache.Keeps insertEntry valid where
  put := lawful.put
  putWithTtl := lawful.putWithTtl
  insert s key new held := (lawful.insert s key new held).1
  get s now key held := (lawful.get s now key held).1
  remove s key held := (lawful.remove s key held).1
  clear s held := (lawful.clear s held).1
  resize s newCap s' held resized := (lawful.resize s newCap s' held resized).1

theorem Cache.Lawful.coherentAt (held : valid s) : cache.CoherentAt s (entry s) := by
  intro now key
  refine ⟨fun value found => ?_, fun value found => ?_, fun present => ?_⟩
  · obtain ⟨entry', here, live⟩ := lawful.reads s now key value held (Or.inl found)
    exact ⟨entry', here, CacheEntry.live_eq_some.mp live⟩
  · obtain ⟨entry', here, live⟩ := lawful.reads s now key value held (Or.inr found)
    exact ⟨entry', here, CacheEntry.live_eq_some.mp live⟩
  · obtain ⟨entry', value, here, live⟩ := lawful.contains s now key held present
    exact ⟨entry', here, (CacheEntry.live_eq_some.mp live).1⟩

theorem Cache.Lawful.step_below {s' : σ} {op : Instant × Op κ V} (held : valid s)
    (taken : Takes takes (some s) op) (next : (cache.step (some s) op).2 = some s') :
    valid s' ∧ Below (entry s') (record (entry s) op) := by
  obtain ⟨now, op⟩ := op
  cases op with
  | put key value =>
    obtain ⟨still, below⟩ := lawful.insert s key (.new value) held
    unfold Cache.step at next
    dsimp only at next
    rw [lawful.put] at next
    cases next
    exact ⟨still, below taken⟩
  | putWithTtl key value ttl =>
    unfold Cache.step at next
    unfold record
    dsimp only at next ⊢
    rw [lawful.putWithTtl, insertWithTtl] at next
    cases new : CacheEntry.withTtl now value ttl with
    | none =>
      rw [new] at next
      cases next
      exact ⟨held, Below.refl _⟩
    | some new' =>
      rw [new] at next
      cases next
      obtain ⟨still, below⟩ := lawful.insert s key new' held
      exact ⟨still, below taken⟩
  | get key =>
    cases next
    exact lawful.get s now key held
  | peek key | containsKey key =>
    cases next
    exact ⟨held, Below.refl _⟩
  | remove key =>
    cases next
    exact lawful.remove s key held
  | clear =>
    cases next
    obtain ⟨still, empty⟩ := lawful.clear s held
    refine ⟨still, fun key entry' found => ?_⟩
    simp [empty] at found
  | resize newCap =>
    unfold Cache.step at next
    dsimp only at next
    cases resized : cache.resize newCap s with
    | none => simp [resized] at next
    | some after =>
      rw [resized] at next
      cases next
      exact lawful.resize s newCap s' held resized

variable {ops : List (Instant × Op κ V)}

theorem Cache.Lawful.below_afterRun {s' : σ} {ledger : Ledger κ V} (held : valid s)
    (below : Below (entry s) ledger) (taken : AlongRun cache.step (Takes takes) (some s) ops)
    (ends : afterRun cache.step (some s) ops = some s') :
    valid s' ∧ Below (entry s') (ops.foldl record ledger) := by
  induction ops generalizing s ledger with
  | nil =>
    cases ends
    exact ⟨held, below⟩
  | cons op ops ih =>
    cases next : (cache.step (some s) op).2 with
    | none =>
      -- a call that never returned is the last one
      have stuck : ∀ ops, afterRun cache.step none ops = none := by
        intro ops
        induction ops with
        | nil => rfl
        | cons op ops ih => exact ih
      unfold afterRun at ends
      simp [next, stuck] at ends
    | some middle =>
      obtain ⟨here, rest⟩ := taken
      obtain ⟨still, lower⟩ := lawful.step_below held here next
      unfold afterRun at ends
      rw [next] at ends rest
      exact ih still (lower.trans (below.record op)) rest ends

theorem Cache.Lawful.coherentAt_afterRun {s' : σ} (held : valid s) (empty : ∀ key, entry s key = none)
    (taken : AlongRun cache.step (Takes takes) (some s) ops)
    (ends : afterRun cache.step (some s) ops = some s') : cache.CoherentAt s' (ledgerOf ops) := by
  have start : Below (entry s) fun _ => none := by
    intro key entry' found
    simp [empty] at found
  obtain ⟨still, below⟩ := lawful.below_afterRun held start taken ends
  intro now key
  obtain ⟨gets, peeks, contains⟩ := lawful.coherentAt still now key
  refine ⟨fun value found => ?_, fun value found => ?_, fun present => ?_⟩
  · obtain ⟨entry', here, rest⟩ := gets value found
    exact ⟨entry', below key entry' here, rest⟩
  · obtain ⟨entry', here, rest⟩ := peeks value found
    exact ⟨entry', below key entry' here, rest⟩
  · obtain ⟨entry', here, rest⟩ := contains present
    exact ⟨entry', below key entry' here, rest⟩

end

end OxiStore.Caching
