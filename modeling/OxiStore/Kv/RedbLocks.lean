/-
**The locks of `RedbStore`.**
-/

import OxiStore.Kv.Redb
import OxiStore.Lib.Lockstep

namespace OxiStore.RedbLocks

open ByteString StepProg

/-! ### The threads -/

inductive Write where
  | evict (key : Bytes)
  | put (key value : Bytes)
  | transaction

inductive Phase where
  /-- Between two calls. -/
  | idle
  /-- In `get`, with the expiry of the key at hand. -/
  | checks (key : Bytes) (expiry : Option UInt64)
  /-- About to take `write_lock`. -/
  | locks (write : Write)
  /-- Under `write_lock`, about to begin a write transaction. -/
  | begins (write : Write)
  /-- In the write transaction of `get` or `put`. -/
  | writes (write : Write)
  /-- About to let go of `write_lock` and return. -/
  | releases (write : Write)

structure Machine (ι : Type) where
  world : Redb.State
  lock : Option ι
  writer : Option (ι × Store UInt64)
  phase : ι → Phase

inductive Action where
  | get (key : Bytes)
  | put (key value : Bytes)
  | transaction
  | stage (key : Bytes) (op : TxnOp)
  | commit
  | rollback
  | proceed

inductive Event (ι : Type) where
  | tick (clock : SystemTime)
  | turn (thread : ι) (action : Action)

def Write.apply (s : Store UInt64) : Write → Store UInt64
  | .evict key => s.evict key
  | .put key value => s.write key value
  | .transaction => s

def Phase.Locked : Phase → Prop
  | .begins _ | .writes _ | .releases _ => True
  | _ => False

def Phase.InGet : Phase → Prop
  | .checks _ _ => True
  | .locks (.evict _) | .begins (.evict _) | .writes (.evict _) | .releases (.evict _) => True
  | _ => False

namespace Machine

variable {ι : Type} [DecidableEq ι] (s : Machine ι)

def start (world : Redb.State) : Machine ι := ⟨world, none, none, fun _ => .idle⟩

def go (thread : ι) (phase : Phase) : Machine ι := { s with phase := Function.update s.phase thread phase }

variable (thread : ι) (phase : Phase)

@[simp, grind =] theorem go_world : (s.go thread phase).world = s.world := rfl

@[simp, grind =] theorem go_lock : (s.go thread phase).lock = s.lock := rfl

@[simp, grind =] theorem go_writer : (s.go thread phase).writer = s.writer := rfl

@[simp, grind =] theorem go_phase (other : ι) :
    (s.go thread phase).phase other = if other = thread then phase else s.phase other :=
  Function.update_apply ..

def proceed (thread : ι) : Option (Machine ι) :=
  match s.phase thread with
  | .idle => none
  | .checks key expiry =>
      if expiry.any (isExpired s.world.clock) then some (s.go thread (.locks (.evict key)))
      else some (s.go thread .idle)
  | .locks write =>
      if s.lock.isNone then some { s.go thread (.begins write) with lock := some thread } else none
  | .begins .transaction =>
      if s.writer.isNone then
        some { s.go thread (.releases .transaction) with writer := some (thread, s.world.store) }
      else none
  | .begins write =>
      if s.writer.isNone then some { s.go thread (.writes write) with writer := some (thread, s.world.store) }
      else none
  | .writes write =>
      s.writer.map fun (_, tables) =>
        { s.go thread (.releases write) with world := ⟨write.apply tables, s.world.clock⟩, writer := none }
  | .releases _ => some { s.go thread .idle with lock := none }

def opened (thread : ι) : Option (Store UInt64) :=
  match s.phase thread, s.writer with
  | .idle, some (owner, tables) => if owner = thread then some tables else none
  | _, _ => none

def call (thread : ι) (phase : Phase) : Option (Machine ι) :=
  match s.phase thread with
  | .idle => some (s.go thread phase)
  | _ => none

def act (thread : ι) : Action → Option (Machine ι)
  | .get key => s.call thread (.checks key s.world.store.ttl[key]?)
  | .put key value => s.call thread (.locks (.put key value))
  | .transaction => s.call thread (.locks .transaction)
  | .stage key op => (s.opened thread).map fun tables =>
      { s with writer := some (thread, tables.stage (key, op)) }
  | .commit => (s.opened thread).map fun tables =>
      { s with world := ⟨tables, s.world.clock⟩, writer := none }
  | .rollback => (s.opened thread).map fun _ => { s with writer := none }
  | .proceed => s.proceed thread

def step : Event ι → Bool × Machine ι
  | .tick clock => (true, { s with world := s.world.setClock clock })
  | .turn thread action => ((s.act thread action).isSome, (s.act thread action).getD s)

def Reaches (s' : Machine ι) : Prop := ∃ turns : List (ι × Action),
  afterRun step s (turns.map fun turn => .turn turn.1 turn.2) = s'

def CanReturn (thread : ι) : Prop := ∃ s', s.Reaches s' ∧ ¬ (s'.phase thread).InGet

def CanEnd : Prop := ∀ thread tables, s.writer = some (thread, tables) →
  ∃ actions : List Action, (afterRun step s (actions.map (.turn thread))).writer = none

end Machine

theorem elapsed_eq (world : Redb.State) (key : Bytes) :
    world.elapsed key = world.store.ttl[key]?.any (isExpired world.clock) := by
  show (world.store.ttl[key]?.bind some).any _ = _
  rw [Option.bind_fun_some]

/-! ### What a turn does -/

section

variable {ι : Type} [DecidableEq ι]

inductive Turned (s : Machine ι) (thread : ι) : Action → Machine ι → Prop where
  | get (key : Bytes) (idle : s.phase thread = .idle) :
      Turned s thread (.get key) (s.go thread (.checks key s.world.store.ttl[key]?))
  | starts {action : Action} {write : Write} (idle : s.phase thread = .idle)
      (asked : action = .transaction ∨ ∃ key value, action = .put key value) :
      Turned s thread action (s.go thread (.locks write))
  | stages {action : Action} {tables tables' : Store UInt64} (idle : s.phase thread = .idle)
      (owns : s.writer = some (thread, tables)) :
      Turned s thread action { s with writer := some (thread, tables') }
  | ends {action : Action} {tables committed : Store UInt64} (idle : s.phase thread = .idle)
      (owns : s.writer = some (thread, tables)) :
      Turned s thread action { s with world := ⟨committed, s.world.clock⟩, writer := none }
  | evicts {key : Bytes} {expiry : Option UInt64} (checks : s.phase thread = .checks key expiry)
      (elapsed : expiry.any (isExpired s.world.clock) = true) :
      Turned s thread .proceed (s.go thread (.locks (.evict key)))
  | returns {key : Bytes} {expiry : Option UInt64} (checks : s.phase thread = .checks key expiry)
      (lives : expiry.any (isExpired s.world.clock) = false) : Turned s thread .proceed (s.go thread .idle)
  | locks {write : Write} (waits : s.phase thread = .locks write) (free : s.lock = none) :
      Turned s thread .proceed { s.go thread (.begins write) with lock := some thread }
  | begins {write : Write} {phase : Phase} (waits : s.phase thread = .begins write) (free : s.writer = none)
      (next : phase = .writes write ∨ phase = .releases write) :
      Turned s thread .proceed { s.go thread phase with writer := some (thread, s.world.store) }
  | writes {write : Write} {committed : Store UInt64} (writes : s.phase thread = .writes write) :
      Turned s thread .proceed
        { s.go thread (.releases write) with world := ⟨committed, s.world.clock⟩, writer := none }
  | releases {write : Write} (releases : s.phase thread = .releases write) :
      Turned s thread .proceed { s.go thread .idle with lock := none }

variable {s s' : Machine ι} {thread : ι} {action : Action}

theorem opened_eq_some {tables : Store UInt64} :
    s.opened thread = some tables ↔ s.phase thread = .idle ∧ s.writer = some (thread, tables) := by
  unfold Machine.opened
  split <;> grind

theorem call_eq_some {phase : Phase} :
    s.call thread phase = some s' ↔ s.phase thread = .idle ∧ s.go thread phase = s' := by
  unfold Machine.call
  split <;> simp_all

theorem turned_proceed (done : s.proceed thread = some s') : Turned s thread .proceed s' := by
  unfold Machine.proceed at done
  split at done
  case h_1 => cases done
  case h_2 key expiry checks =>
    split_ifs at done with elapsed
    · cases done
      exact .evicts checks elapsed
    · cases done
      exact .returns checks (Bool.eq_false_iff.mpr elapsed)
  case h_3 write waits =>
    split_ifs at done with free
    cases done
    exact .locks waits (Option.isNone_iff_eq_none.mp free)
  case h_4 waits =>
    split_ifs at done with free
    cases done
    exact .begins waits (Option.isNone_iff_eq_none.mp free) (.inr rfl)
  case h_5 write _ waits =>
    split_ifs at done with free
    cases done
    exact .begins waits (Option.isNone_iff_eq_none.mp free) (.inl rfl)
  case h_6 write writes =>
    obtain ⟨_, _, rfl⟩ := Option.map_eq_some_iff.mp done
    exact .writes writes
  case h_7 write releases =>
    cases done
    exact .releases releases

theorem turned (done : s.act thread action = some s') : Turned s thread action s' := by
  cases action with
  | get key =>
    obtain ⟨idle, rfl⟩ := call_eq_some.mp done
    exact .get key idle
  | put key value =>
    obtain ⟨idle, rfl⟩ := call_eq_some.mp done
    exact .starts idle (.inr ⟨key, value, rfl⟩)
  | transaction =>
    obtain ⟨idle, rfl⟩ := call_eq_some.mp done
    exact .starts idle (.inl rfl)
  | stage key op =>
    obtain ⟨tables, opened, rfl⟩ := Option.map_eq_some_iff.mp done
    exact .stages (opened_eq_some.mp opened).1 (opened_eq_some.mp opened).2
  | commit | rollback =>
    obtain ⟨tables, opened, rfl⟩ := Option.map_eq_some_iff.mp done
    exact .ends (opened_eq_some.mp opened).1 (opened_eq_some.mp opened).2
  | proceed => exact turned_proceed done

theorem step_cases {holds : Machine ι → Prop} (here : holds s) {event : Event ι}
    (tick : ∀ clock, event = .tick clock → holds { s with world := s.world.setClock clock })
    (turn : ∀ thread action s', event = .turn thread action → Turned s thread action s' → holds s') :
    holds (s.step event).2 := by
  cases event with
  | tick clock => exact tick clock rfl
  | turn thread action =>
    show holds ((s.act thread action).getD s)
    cases done : s.act thread action with
    | none => exact here
    | some s' => exact turn thread action s' rfl (turned done)

end

/-! ### Invariants -/

section

variable {ι : Type} [DecidableEq ι]

/-- **In every state**: `write_lock` is held by the thread that has taken it, and `get` and `put` write in
transactions of their own. -/
structure Sound (s : Machine ι) : Prop where
  locked : ∀ thread, (s.phase thread).Locked ↔ s.lock = some thread
  writing : ∀ thread write, s.phase thread = .writes write → ∃ tables, s.writer = some (thread, tables)

def Phase.Ends (clock : SystemTime) : Phase → Prop
  | .checks _ expiry => expiry.any (isExpired clock) = false
  | .locks _ | .begins _ => False
  | _ => True

/-- **With care, in every state**: whoever has the write transaction does not wait. -/
structure Guarded (s : Machine ι) : Prop extends Sound s where
  ends : ∀ thread tables, s.writer = some (thread, tables) → (s.phase thread).Ends s.world.clock

def Careful (s : Machine ι) : Event ι → Prop
  | .tick clock => ∀ thread tables key expiry, s.writer = some (thread, tables) →
      s.phase thread = .checks key expiry → expiry.any (isExpired clock) = false
  | .turn thread (.get key) => s.opened thread = none ∨ s.world.elapsed key = false
  | .turn thread (.put _ _) | .turn thread .transaction => s.opened thread = none
  | _ => True

omit [DecidableEq ι] in
theorem guarded_start (world : Redb.State) : Guarded (.start world : Machine ι) where
  locked _ := iff_of_false id nofun
  writing _ _ := nofun
  ends _ _ := nofun

variable {s s' : Machine ι} {thread : ι} {action : Action}

theorem Sound.turned (sound : Sound s) (turn : Turned s thread action s') : Sound s' := by
  obtain ⟨locked, writing⟩ := sound
  have mine := locked thread
  constructor
  · intro other
    have others := locked other
    cases turn <;> grind [Phase.Locked]
  · intro other write writes
    have others := writing other write
    cases turn with
    | begins waits free next =>
      by_cases same : other = thread
      · exact ⟨_, congrArg (fun owner => some (owner, s.world.store)) same.symm⟩
      · grind
    | _ => grind

theorem Sound.step (sound : Sound s) (event : Event ι) : Sound (s.step event).2 :=
  step_cases sound (fun _ _ => ⟨sound.locked, sound.writing⟩) fun _ _ _ _ turn => sound.turned turn

theorem Guarded.turned (guarded : Guarded s) (careful : Careful s (.turn thread action))
    (turn : Turned s thread action s') : Guarded s' := by
  refine ⟨guarded.toSound.turned turn, fun owner tables owns => ?_⟩
  have ends := guarded.ends owner
  have opened : ∀ tables, s.phase thread = .idle → s.writer = some (thread, tables) →
      s.opened thread ≠ none := fun tables idle owns =>
    Option.ne_none_iff_exists'.mpr ⟨tables, opened_eq_some.mpr ⟨idle, owns⟩⟩
  cases turn with
  | get key idle =>
    have lives : ∀ tables, s.writer = some (thread, tables) → s.world.elapsed key = false :=
      fun tables owns => careful.resolve_left (opened tables idle owns)
    grind [Phase.Ends, elapsed_eq]
  | starts idle asked =>
    have closed : s.opened thread = none := by
      rcases asked with rfl | ⟨key, value, rfl⟩ <;> exact careful
    grind [Phase.Ends]
  | evicts checks elapsed | _ => grind [Phase.Ends]

theorem Guarded.step (guarded : Guarded s) {event : Event ι} (careful : Careful s event) :
    Guarded (s.step event).2 := by
  refine step_cases guarded (fun clock ticks => ?_) fun thread action s' taken turn => ?_
  · subst ticks
    refine ⟨⟨guarded.locked, guarded.writing⟩, fun owner tables owns => ?_⟩
    have ends := guarded.ends owner tables owns
    show (s.phase owner).Ends clock
    cases phase : s.phase owner with
    | checks key expiry => exact careful owner tables key expiry owns phase
    | _ =>
      rw [phase] at ends
      exact ends
  · subst taken
    exact guarded.turned careful turn

end

/-! ### Progress -/

section

variable {ι : Type} [DecidableEq ι] {s : Machine ι}

theorem Guarded.canEnd (guarded : Guarded s) : s.CanEnd := by
  intro thread tables owns
  have ends := guarded.ends thread tables owns
  cases phase : s.phase thread with
  | idle =>
    refine ⟨[.rollback], ?_⟩
    simp [afterRun, Machine.step, Machine.act, Machine.opened, phase, owns]
  | checks key expiry =>
    rw [phase] at ends
    refine ⟨[.proceed, .rollback], ?_⟩
    simp [afterRun, Machine.step, Machine.act, Machine.proceed, Machine.opened, phase, owns,
      show expiry.any (isExpired s.world.clock) = false from ends]
  | locks write | begins write =>
    rw [phase] at ends
    exact ends.elim
  | writes write =>
    refine ⟨[.proceed], ?_⟩
    simp [afterRun, Machine.step, Machine.act, Machine.proceed, phase, owns]
  | releases write =>
    refine ⟨[.proceed, .rollback], ?_⟩
    simp [afterRun, Machine.step, Machine.act, Machine.proceed, Machine.opened, phase, owns]

theorem Machine.Reaches.trans {s' s'' : Machine ι} (first : s.Reaches s') (second : s'.Reaches s'') :
    s.Reaches s'' := by
  obtain ⟨turns, rfl⟩ := first
  obtain ⟨turns', rfl⟩ := second
  refine ⟨turns ++ turns', ?_⟩
  rw [List.map_append, afterRun_append]

theorem reaches_after (thread : ι) (actions : List Action) :
    s.Reaches (afterRun Machine.step s (actions.map (.turn thread))) :=
  ⟨actions.map (thread, ·), by rw [List.map_map]; rfl⟩

theorem Sound.run (sound : Sound s) (events : List (Event ι)) : Sound (afterRun Machine.step s events) :=
  have always : AlongRun Machine.step (fun _ _ => True) s events :=
    alongRun_of_forall (fun _ _ => trivial) s events
  afterRun_invariant (fun _ event sound _ => sound.step event) sound always

theorem Sound.reaches (sound : Sound s) {s' : Machine ι} (reaches : s.Reaches s') : Sound s' := by
  obtain ⟨turns, rfl⟩ := reaches
  exact sound.run _

theorem Sound.unlocks (sound : Sound s) (free : s.writer = none) :
    ∃ s', s.Reaches s' ∧ s'.writer = none ∧ s'.lock = none := by
  cases lock : s.lock with
  | none => exact ⟨s, ⟨[], rfl⟩, free, lock⟩
  | some thread =>
    have locked := (sound.locked thread).mpr lock
    cases phase : s.phase thread with
    | idle => exact (phase ▸ locked : Phase.Locked .idle).elim
    | checks key expiry => exact (phase ▸ locked : Phase.Locked (.checks key expiry)).elim
    | locks write => exact (phase ▸ locked : Phase.Locked (.locks write)).elim
    | begins write =>
      cases write with
      | transaction =>
        refine ⟨_, reaches_after thread [.proceed, .proceed, .rollback], ?_⟩
        simp [afterRun, Machine.step, Machine.act, Machine.proceed, Machine.opened, phase, free]
      | _ =>
        refine ⟨_, reaches_after thread [.proceed, .proceed, .proceed], ?_⟩
        simp [afterRun, Machine.step, Machine.act, Machine.proceed, phase, free]
    | writes write =>
      obtain ⟨tables, owns⟩ := sound.writing thread write phase
      rw [free] at owns
      cases owns
    | releases write =>
      refine ⟨_, reaches_after thread [.proceed], ?_⟩
      simp [afterRun, Machine.step, Machine.act, Machine.proceed, phase, free]

theorem Sound.canReturn_free (sound : Sound s) (free : s.writer = none) (unlocked : s.lock = none)
    (thread : ι) : s.CanReturn thread := by
  have locked : ¬ (s.phase thread).Locked := by
    rw [sound.locked, unlocked]
    nofun
  refine ⟨_, reaches_after thread [.proceed, .proceed, .proceed, .proceed, .proceed], ?_⟩
  cases phase : s.phase thread with
  | idle => simp [afterRun, Machine.step, Machine.act, Machine.proceed, Phase.InGet, phase]
  | checks key expiry =>
    by_cases elapsed : expiry.any (isExpired s.world.clock) = true
    · simp [afterRun, Machine.step, Machine.act, Machine.proceed, Phase.InGet, phase, free, unlocked, elapsed]
    · simp [afterRun, Machine.step, Machine.act, Machine.proceed, Phase.InGet, phase, elapsed]
  | locks write =>
    cases write with
    | transaction =>
      simp [afterRun, Machine.step, Machine.act, Machine.proceed, Phase.InGet, phase, free, unlocked]
    | _ => simp [afterRun, Machine.step, Machine.act, Machine.proceed, Phase.InGet, phase, free, unlocked]
  | _ =>
    rw [phase] at locked
    exact (locked trivial).elim

theorem Guarded.canReturn (guarded : Guarded s) (thread : ι) : s.CanReturn thread := by
  obtain ⟨s', ended, free⟩ : ∃ s', s.Reaches s' ∧ s'.writer = none := by
    cases writer : s.writer with
    | none => exact ⟨s, ⟨[], rfl⟩, writer⟩
    | some owned =>
      obtain ⟨actions, free⟩ := guarded.canEnd owned.1 owned.2 writer
      exact ⟨_, reaches_after owned.1 actions, free⟩
  have sound := guarded.toSound.reaches ended
  obtain ⟨s'', unlocked, free, lock⟩ := sound.unlocks free
  obtain ⟨last, returns, out⟩ := (sound.reaches unlocked).canReturn_free free lock thread
  exact ⟨last, (ended.trans unlocked).trans returns, out⟩

/-- **No `get` is blocked forever**, in any state that careful threads reach from any tables and clock. -/
theorem reads_return (world : Redb.State) (events : List (Event ι))
    (careful : AlongRun Machine.step Careful (.start world) events) :
    (∀ thread, (afterRun Machine.step (.start world) events).CanReturn thread) ∧
    (afterRun Machine.step (.start world) events : Machine ι).CanEnd := by
  have guarded : Guarded (afterRun Machine.step (.start world) events : Machine ι) :=
    afterRun_invariant (fun _ _ guarded careful => guarded.step careful) (guarded_start world) careful
  exact ⟨guarded.canReturn, guarded.canEnd⟩

/-! ### A deadlock -/

/-- **A `get` that waits for its own thread's transaction.** -/
structure Stuck (thread : ι) (key : Bytes) (s : Machine ι) : Prop extends Sound s where
  owns : ∃ tables, s.writer = some (thread, tables)
  waits : s.phase thread = .locks (.evict key) ∨ s.phase thread = .begins (.evict key)

theorem Stuck.step {thread : ι} {key : Bytes} (stuck : Stuck thread key s) (event : Event ι) :
    Stuck thread key (s.step event).2 := by
  obtain ⟨sound, ⟨tables, owns⟩, waits⟩ := id stuck
  refine step_cases stuck (fun _ _ => ?_) fun other action s' _ turn => ?_
  · exact ⟨⟨sound.locked, sound.writing⟩, ⟨tables, owns⟩, waits⟩
  · refine ⟨sound.turned turn, ?_, ?_⟩
    · cases turn with
      | writes writes =>
        obtain ⟨_, others⟩ := sound.writing other _ writes
        grind
      | _ => grind
    · cases turn <;> grind

theorem Stuck.forever {thread : ι} {key : Bytes} (stuck : Stuck thread key s) (events : List (Event ι)) :
    ((afterRun Machine.step s events).phase thread).InGet := by
  have always : AlongRun Machine.step (fun _ _ => True) s events :=
    alongRun_of_forall (fun _ _ => trivial) s events
  have still : Stuck thread key (afterRun Machine.step s events) :=
    afterRun_invariant (fun _ event stuck _ => stuck.step event) stuck always
  rcases still.waits with waits | waits
  · rw [waits]
    trivial
  · rw [waits]
    trivial

end

theorem reads_return_beside_put : (afterRun Machine.step (.start World.expiringPair)
    [.turn 0 .transaction, .turn 0 .proceed, .turn 0 .proceed, .turn 0 .proceed, .turn 1 (.put [107] [98]),
      .turn 1 .proceed, .turn 0 (.get [107])] : Machine ℕ).CanReturn 0 := by
  refine (reads_return _ _ ?_).1 0
  exact ⟨rfl, trivial, trivial, trivial, rfl, trivial, .inr rfl, trivial⟩

theorem expired_get_deadlocks : ¬ (afterRun Machine.step (.start World.expiredPair)
    [.turn () .transaction, .turn () .proceed, .turn () .proceed, .turn () .proceed, .turn () (.get [107]),
      .turn () .proceed]).CanReturn () := by
  rintro ⟨_, ⟨turns, rfl⟩, out⟩
  exact out (Stuck.forever ⟨(guarded_start _).toSound.run _, ⟨_, rfl⟩, .inl rfl⟩ _)

end OxiStore.RedbLocks
