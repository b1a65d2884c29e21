/-
**Concurrent calls, some of them under one lock, and linearizability.**
-/

import OxiStore.Lib.Prog

namespace StepProg

open List

inductive Phase (S ρ : Type) where
  | idle
  | waiting
  | running (program : Prog S ρ)
  | left (answer : ρ)
  | returned (answer : ρ)

inductive Move (ι E : Type) where
  | invoke (call : ι)
  | enter (call : ι)
  | step (call : ι)
  | leave (call : ι)
  | respond (call : ι)
  | env (move : E)
deriving DecidableEq

structure Calls (ι S ρ : Type) where
  phase : ι → Phase S ρ
  holder : Option ι
  state : S

/-- **The calls and their surroundings.** `core` is the part of the state the environment leaves
alone; the rest it sets afresh with every move. -/
structure CallSystem (ι S ρ E K : Type) where
  body : ι → Prog S ρ
  locks : ι → Bool
  envStep : E → S → S
  core : S → K
  core_env : ∀ move s, core (envStep move s) = core s
  env_core : ∀ move s t, core s = core t → envStep move s = envStep move t

namespace Calls

variable {ι S ρ : Type} [DecidableEq ι]

def start (s : S) : Calls ι S ρ := ⟨fun _ => .idle, none, s⟩

def goto (m : Calls ι S ρ) (call : ι) (phase : Phase S ρ) : ι → Phase S ρ :=
  Function.update m.phase call phase

@[simp] theorem goto_self (m : Calls ι S ρ) (call : ι) (phase : Phase S ρ) :
    m.goto call phase call = phase := Function.update_self ..

theorem goto_other (m : Calls ι S ρ) {call other : ι} (ne : other ≠ call) (phase : Phase S ρ) :
    m.goto call phase other = m.phase other := Function.update_of_ne ne ..

theorem goto_cases {m : Calls ι S ρ} {call other : ι} {phase phase' : Phase S ρ}
    (reached : m.goto call phase other = phase') :
    other = call ∧ phase = phase' ∨ other ≠ call ∧ m.phase other = phase' := by
  by_cases own : other = call
  · rw [own, m.goto_self] at reached
    exact .inl ⟨own, reached⟩
  · rw [m.goto_other own] at reached
    exact .inr ⟨own, reached⟩

end Calls

def Phase.Settled {S ρ : Type} (phase : Phase S ρ) (answer : ρ) : Prop :=
  phase = .running (.pure answer) ∨ phase = .left answer ∨ phase = .returned answer

theorem Phase.Settled.unique {S ρ : Type} {phase : Phase S ρ} {answer other : ρ}
    (one : phase.Settled answer) (two : phase.Settled other) : answer = other := by
  unfold Phase.Settled at one two
  rcases one with rfl | rfl | rfl
  all_goals simpa using two

namespace CallSystem

variable {ι S ρ E K : Type} [DecidableEq ι] (sys : CallSystem ι S ρ E K)

def move (m : Calls ι S ρ) : Move ι E → Option (Calls ι S ρ)
  | .invoke call =>
      match m.phase call with
      | .idle => some { m with phase := m.goto call .waiting }
      | _ => none
  | .enter call =>
      match m.phase call with
      | .waiting =>
          if sys.locks call && m.holder.isSome then none
          else some { m with
            phase := m.goto call (.running (sys.body call))
            holder := if sys.locks call then some call else m.holder }
      | _ => none
  | .step call =>
      match m.phase call with
      | .running (.step next update) =>
          some { m with phase := m.goto call (.running (next m.state)), state := update m.state }
      | _ => none
  | .leave call =>
      match m.phase call with
      | .running (.pure answer) =>
          some { m with
            phase := m.goto call (.left answer)
            holder := if m.holder = some call then none else m.holder }
      | _ => none
  | .respond call =>
      match m.phase call with
      | .left answer => some { m with phase := m.goto call (.returned answer) }
      | _ => none
  | .env move => some { m with state := sys.envStep move m.state }

inductive Moved (m : Calls ι S ρ) : Move ι E → Calls ι S ρ → Prop where
  | invoke (call : ι) (idle : m.phase call = .idle) :
      Moved m (.invoke call) { m with phase := m.goto call .waiting }
  | enter (call : ι) (waiting : m.phase call = .waiting)
      (free : sys.locks call = true → m.holder = none) :
      Moved m (.enter call) { m with
        phase := m.goto call (.running (sys.body call))
        holder := if sys.locks call then some call else m.holder }
  | step (call : ι) (next : S → Prog S ρ) (update : S → S)
      (running : m.phase call = .running (.step next update)) :
      Moved m (.step call)
        { m with phase := m.goto call (.running (next m.state)), state := update m.state }
  | leave (call : ι) (answer : ρ) (running : m.phase call = .running (.pure answer)) :
      Moved m (.leave call) { m with
        phase := m.goto call (.left answer)
        holder := if m.holder = some call then none else m.holder }
  | respond (call : ι) (answer : ρ) (left : m.phase call = .left answer) :
      Moved m (.respond call) { m with phase := m.goto call (.returned answer) }
  | env (move : E) : Moved m (.env move) { m with state := sys.envStep move m.state }

variable {sys} {m m' : Calls ι S ρ} {move : Move ι E}

theorem moved_of_move (moved : sys.move m move = some m') :
    sys.Moved m move m' := by
  cases move with
  | invoke call =>
    dsimp only [CallSystem.move] at moved
    split at moved
    case h_1 idle =>
      cases moved
      exact .invoke call idle
    case h_2 => cases moved
  | enter call =>
    dsimp only [CallSystem.move] at moved
    split at moved
    case h_1 waiting =>
      by_cases taken : (sys.locks call && m.holder.isSome) = true
      · rw [if_pos taken] at moved
        cases moved
      · rw [if_neg taken] at moved
        cases moved
        refine .enter call waiting fun locks => ?_
        simpa [locks] using taken
    case h_2 => cases moved
  | step call =>
    dsimp only [CallSystem.move] at moved
    split at moved
    case h_1 next update running =>
      cases moved
      exact .step call next update running
    case h_2 => cases moved
  | leave call =>
    dsimp only [CallSystem.move] at moved
    split at moved
    case h_1 answer running =>
      cases moved
      exact .leave call answer running
    case h_2 => cases moved
  | respond call =>
    dsimp only [CallSystem.move] at moved
    split at moved
    case h_1 answer left =>
      cases moved
      exact .respond call answer left
    case h_2 => cases moved
  | env move =>
    cases moved
    exact .env move

variable {call : ι}

theorem move_step (sys : CallSystem ι S ρ E K) {next : S → Prog S ρ} {update : S → S}
    (running : m.phase call = .running (.step next update)) : sys.move m (.step call) =
      some { m with phase := m.goto call (.running (next m.state)), state := update m.state } := by
  simp only [move, running]

theorem Moved.returned (moved : sys.Moved m move m') {answer : ρ} (done : m.phase call = .returned answer) :
    m'.phase call = .returned answer := by
  have other : ∀ mover phase, m.phase mover ≠ .returned answer →
      m.goto mover phase call = .returned answer := by
    intro mover phase busy
    have ne : call ≠ mover := fun same => busy (same ▸ done)
    rw [m.goto_other ne, done]
  cases moved with
  | invoke mover idle => exact other mover _ (by rw [idle]; exact nofun)
  | enter mover waiting free => exact other mover _ (by rw [waiting]; exact nofun)
  | step mover next update running | leave mover answer running =>
    exact other mover _ (by rw [running]; exact nofun)
  | respond mover answer left => exact other mover _ (by rw [left]; exact nofun)
  | env move => exact done

theorem Moved.invoked (moved : sys.Moved m move m') (invoked : m.phase call ≠ .idle) :
    m'.phase call ≠ .idle := by
  have other : ∀ mover phase, phase ≠ .idle → m.goto mover phase call ≠ .idle := by
    intro mover phase busy
    by_cases same : call = mover
    · rw [same, m.goto_self]
      exact busy
    · rw [m.goto_other same]
      exact invoked
  cases moved with
  | invoke mover idle | enter mover waiting free | step mover next update running
  | leave mover answer running | respond mover answer left => exact other mover _ nofun
  | env move => exact invoked

/-! ### Runs -/

variable (sys)

def run : Calls ι S ρ → List (Move ι E) → Option (Calls ι S ρ)
  | m, [] => some m
  | m, move :: rest => (sys.move m move).bind fun m' => run m' rest

def Along (holds : Calls ι S ρ → Move ι E → Prop) : Calls ι S ρ → List (Move ι E) → Prop
  | _, [] => True
  | m, move :: rest => holds m move ∧ ∀ m', sys.move m move = some m' → Along holds m' rest

variable {sys} {holds : Calls ι S ρ → Move ι E → Prop}

theorem Along.cons {rest : List (Move ι E)} (here : holds m move) (moved : sys.move m move = some m')
    (later : sys.Along holds m' rest) :
    sys.Along holds m (move :: rest) := by
  refine ⟨here, fun other took => ?_⟩
  rw [moved] at took
  cases took
  exact later

variable {moves : List (Move ι E)}

theorem run_concat {m'' : Calls ι S ρ} (ran : sys.run m moves = some m')
    (moved : sys.move m' move = some m'') :
    sys.run m (moves ++ [move]) = some m'' := by
  induction moves generalizing m with
  | nil =>
    cases ran
    show (sys.move m' move).bind _ = _
    rw [moved]
    rfl
  | cons first rest ih =>
    obtain ⟨mid, took, ran⟩ := Option.bind_eq_some_iff.mp ran
    exact Option.bind_eq_some_iff.mpr ⟨mid, took, ih ran⟩

theorem run_invariant (holds : Calls ι S ρ → Move ι E → Prop) (inv : List (Move ι E) → Calls ι S ρ → Prop)
    (keeps : ∀ done m move m', inv done m → holds m move → sys.move m move = some m' →
      inv (done ++ [move]) m') (moves : List (Move ι E)) {done : List (Move ι E)} (init : inv done m)
    (along : sys.Along holds m moves) (ran : sys.run m moves = some m') :
    inv (done ++ moves) m' := by
  induction moves generalizing done m with
  | nil =>
    cases ran
    rwa [append_nil]
  | cons move rest ih =>
    obtain ⟨mid, took, ran⟩ := Option.bind_eq_some_iff.mp ran
    have later := ih (keeps done m move mid init along.1 took) (along.2 mid took) ran
    rwa [append_assoc] at later

/-! ### Linearizability -/

def Precedes (moves : List (Move ι E)) (first second : ι) : Prop :=
  ∃ before after, moves = before ++ after ∧ .respond first ∈ before ∧ .invoke second ∈ after

omit [DecidableEq ι] in
theorem Precedes.concat {first second : ι} (precedes : Precedes (moves ++ [move]) first second) :
    Precedes moves first second ∨ move = .invoke second := by
  obtain ⟨before, after, split, returned, invoked⟩ := precedes
  rcases eq_nil_or_concat after with rfl | ⟨most, last, rfl⟩
  · cases invoked
  · rw [concat_eq_append, ← append_assoc] at split
    obtain ⟨same, last⟩ := append_inj' split rfl
    cases last
    rw [concat_eq_append, mem_append, mem_singleton] at invoked
    rcases invoked with early | now
    · exact .inl ⟨before, most, same, returned, early⟩
    · exact .inr now.symm

variable (sys)

def Met (s : S) (moves : List (Move ι E)) (call : ι) (move : E) : Prop :=
  ∃ before after m program, moves = before ++ after ∧ sys.run (.start s) before = some m ∧
    m.phase call = .running program ∧ sys.envStep move m.state = m.state

def replay (meets : ι → E) (s : S) (order : List ι) : S :=
  order.foldl (fun s call => ((sys.body call).run (sys.envStep (meets call) s)).2) s

/-- **A linearization** of the history `moves` that led from `s` to `m`. -/
structure Linearization (s : S) (moves : List (Move ι E)) (m : Calls ι S ρ) (order : List ι)
    (meets : ι → E) : Prop where
  nodup : order.Nodup
  complete : ∀ call answer, m.phase call = .returned answer → call ∈ order
  invoked : ∀ call ∈ order, m.phase call ≠ .idle
  realTime : ∀ first second, Precedes moves first second → second ∈ order →
    order.idxOf first < order.idxOf second
  met : ∀ call ∈ order, sys.Met s moves call (meets call)
  answers : ∀ before call after, order = before ++ call :: after → ∀ answer,
    m.phase call = .returned answer →
      ((sys.body call).run (sys.envStep (meets call) (sys.replay meets s before))).1 = answer

def LastStep (s : S) (moves : List (Move ι E)) (m : Calls ι S ρ) (call : ι) (next : S → Prog S ρ)
    (update : S → S) : Prop :=
  ∃ answer meet, next m.state = .pure answer ∧ sys.Met s moves call meet ∧
    ((sys.body call).run (sys.envStep meet m.state)).1 = answer ∧
    sys.core ((sys.body call).run (sys.envStep meet m.state)).2 = sys.core (update m.state)

def InnerStep (m : Calls ι S ρ) (next : S → Prog S ρ) (update : S → S) : Prop :=
  (∀ answer, next m.state ≠ .pure answer) ∧ sys.core (update m.state) = sys.core m.state

variable {sys}

theorem Met.mono {s : S} {move : E} (met : sys.Met s moves call move) (more : List (Move ι E)) :
    sys.Met s (moves ++ more) call move := by
  obtain ⟨before, after, m, program, split, ran, running, still⟩ := met
  exact ⟨before, after ++ more, m, program, by rw [split, append_assoc], ran, running, still⟩

theorem met_now {s : S} (ran : sys.run (.start s) moves = some m) {program : Prog S ρ}
    (running : m.phase call = .running program) (move : E) (still : sys.envStep move m.state = m.state) :
    sys.Met s moves call move :=
  ⟨moves, [], m, program, (append_nil moves).symm, ran, running, still⟩

omit [DecidableEq ι] in
theorem replay_concat (meets : ι → E) (s : S) (order : List ι) (call : ι) :
    sys.replay meets s (order ++ [call]) =
      ((sys.body call).run (sys.envStep (meets call) (sys.replay meets s order))).2 := by
  unfold replay
  rw [foldl_append]
  rfl

theorem replay_update {meets : ι → E} {order : List ι} (absent : call ∉ order) (move : E) (s : S) :
    sys.replay (Function.update meets call move) s order = sys.replay meets s order := by
  unfold replay
  refine foldl_ext _ _ _ fun s other member => ?_
  have ne : other ≠ call := fun same => absent (same ▸ member)
  rw [Function.update_of_ne ne]

/-- **What the order of last steps keeps**: the calls in it are those through with their steps. -/
structure Ordered (sys : CallSystem ι S ρ E K) (s : S) (moves : List (Move ι E)) (m : Calls ι S ρ)
    (order : List ι) (meets : ι → E) : Prop where
  reached : sys.run (.start s) moves = some m
  nodup : order.Nodup
  mem_iff : ∀ call, call ∈ order ↔ ∃ answer, (m.phase call).Settled answer
  realTime : ∀ first second, Precedes moves first second → second ∈ order →
    order.idxOf first < order.idxOf second
  met : ∀ call ∈ order, sys.Met s moves call (meets call)
  answers : ∀ before call after, order = before ++ call :: after → ∀ answer,
    (m.phase call).Settled answer →
      ((sys.body call).run (sys.envStep (meets call) (sys.replay meets s before))).1 = answer
  core : sys.core m.state = sys.core (sys.replay meets s order)
  returned : ∀ call, .respond call ∈ moves → ∃ answer, m.phase call = .returned answer
  invoked : ∀ call, .invoke call ∈ moves → m.phase call ≠ .idle

theorem settled_goto {phase : Phase S ρ}
    (same : ∀ answer, phase.Settled answer ↔ (m.phase call).Settled answer) (other : ι) (answer : ρ) :
    (m.goto call phase other).Settled answer ↔ (m.phase other).Settled answer := by
  by_cases own : other = call
  · rw [own, m.goto_self]
    exact same answer
  · rw [m.goto_other own]

namespace Ordered

variable {s : S} {moves : List (Move ι E)} {m m' : Calls ι S ρ} {order : List ι} {meets : ι → E}
  {move : Move ι E}

theorem start (sys : CallSystem ι S ρ E K) (s : S) (meets : ι → E) :
    Ordered sys s [] (.start s) [] meets where
  reached := rfl
  nodup := nodup_nil
  mem_iff call := by simp [Calls.start, Phase.Settled]
  realTime first second precedes member := absurd member not_mem_nil
  met call member := absurd member not_mem_nil
  answers before call after split := by simp at split
  core := rfl
  returned call member := absurd member not_mem_nil
  invoked call member := absurd member not_mem_nil

variable (ordered : Ordered sys s moves m order meets)

include ordered

theorem linearization :
    sys.Linearization s moves m order meets where
  nodup := ordered.nodup
  complete call answer returned := (ordered.mem_iff call).mpr ⟨answer, .inr (.inr returned)⟩
  invoked call member idle := by
    obtain ⟨answer, settled⟩ := (ordered.mem_iff call).mp member
    simp [idle, Phase.Settled] at settled
  realTime := ordered.realTime
  met := ordered.met
  answers before call after split answer returned :=
    ordered.answers before call after split answer (.inr (.inr returned))

variable (moved : sys.move m move = some m')

include moved

theorem returned_concat (call : ι) (member : .respond call ∈ moves ++ [move]) :
    ∃ answer, m'.phase call = .returned answer := by
  rcases mem_append.mp member with early | now
  · obtain ⟨answer, returned⟩ := ordered.returned call early
    exact ⟨answer, (moved_of_move moved).returned returned⟩
  · obtain rfl := mem_singleton.mp now
    cases moved_of_move moved with
    | respond call answer left => exact ⟨answer, m.goto_self call _⟩

theorem invoked_concat (call : ι) (member : .invoke call ∈ moves ++ [move]) :
    m'.phase call ≠ .idle := by
  rcases mem_append.mp member with early | now
  · exact (moved_of_move moved).invoked (ordered.invoked call early)
  · obtain rfl := mem_singleton.mp now
    cases moved_of_move moved with
    | invoke call idle =>
      show m.goto call .waiting call ≠ .idle
      rw [m.goto_self]
      exact nofun

omit ordered

theorem precedes_concat {first second : ι} (precedes : Precedes (moves ++ [move]) first second)
    (begun : m.phase second ≠ .idle) : Precedes moves first second := by
  rcases precedes.concat with early | rfl
  · exact early
  · cases moved_of_move moved with
    | invoke call idle => exact absurd idle begun

include ordered

theorem quiet (settled : ∀ call answer, (m'.phase call).Settled answer ↔ (m.phase call).Settled answer)
    (core : sys.core m'.state = sys.core m.state) :
    Ordered sys s (moves ++ [move]) m' order meets where
  reached := run_concat ordered.reached moved
  nodup := ordered.nodup
  mem_iff call := by
    rw [ordered.mem_iff call]
    simp only [settled]
  realTime first second precedes member :=
    ordered.realTime first second
      (precedes_concat moved precedes (ordered.linearization.invoked second member)) member
  met call member := (ordered.met call member).mono [move]
  answers before call after split answer now :=
    ordered.answers before call after split answer ((settled call answer).mp now)
  core := core.trans ordered.core
  returned := ordered.returned_concat moved
  invoked := ordered.invoked_concat moved

theorem realTime_concat {call first second : ι} (begun : m.phase call ≠ .idle)
    (precedes : Precedes (moves ++ [move]) first second) (member : second ∈ order ++ [call]) :
    (order ++ [call]).idxOf first < (order ++ [call]).idxOf second := by
  have begun : m.phase second ≠ .idle := by
    rcases mem_append.mp member with early | now
    · exact ordered.linearization.invoked second early
    · rwa [mem_singleton.mp now]
  have before := precedes_concat moved precedes begun
  obtain ⟨outcome, returned⟩ : ∃ outcome, m.phase first = .returned outcome := by
    obtain ⟨early, late, split, responded, -⟩ := before
    exact ordered.returned first (split ▸ mem_append_left late responded)
  have earlier : first ∈ order := (ordered.mem_iff first).mpr ⟨outcome, .inr (.inr returned)⟩
  rw [idxOf_append, if_pos earlier, idxOf_append]
  split_ifs with among
  · exact ordered.realTime first second before among
  · exact Nat.lt_add_left _ (idxOf_lt_length_of_mem earlier)

omit moved

theorem settle {call : ι} {next : S → Prog S ρ} {update : S → S}
    (running : m.phase call = .running (.step next update)) (last : sys.LastStep s moves m call next update) :
    ∃ meet, Ordered sys s (moves ++ [.step call])
      { m with phase := m.goto call (.running (next m.state)), state := update m.state }
      (order ++ [call]) (Function.update meets call meet) := by
  obtain ⟨answer, meet, last, met, answers, effect⟩ := last
  have moved := move_step sys running
  have fresh : call ∉ order := by
    intro member
    obtain ⟨early, settled⟩ := (ordered.mem_iff call).mp member
    simp [running, Phase.Settled] at settled
  have same : sys.envStep meet m.state = sys.envStep meet (sys.replay meets s order) :=
    sys.env_core meet _ _ ordered.core
  have settledSelf : (m.goto call (.running (next m.state)) call).Settled answer := by
    rw [m.goto_self, last]
    exact .inl rfl
  have settledOther : ∀ other, other ≠ call → ∀ outcome,
      (m.goto call (.running (next m.state)) other).Settled outcome ↔
        (m.phase other).Settled outcome := by
    intro other ne outcome
    rw [m.goto_other ne]
  refine ⟨meet, run_concat ordered.reached moved, ?_, fun other => ?_, fun first second precedes member => ?_,
    fun other member => ?_, fun before other after split outcome settled => ?_, ?_,
    ordered.returned_concat moved, ordered.invoked_concat moved⟩
  · rw [← concat_eq_append]
    exact ordered.nodup.concat fresh
  · rw [mem_append, mem_singleton]
    by_cases own : other = call
    · rw [own]
      exact iff_of_true (.inr rfl) ⟨answer, settledSelf⟩
    · rw [or_iff_left own, ordered.mem_iff other]
      exact exists_congr fun outcome => (settledOther other own outcome).symm
  · exact ordered.realTime_concat moved (by simp [running]) precedes member
  · rcases mem_append.mp member with early | now
    · have ne : other ≠ call := fun is => fresh (is ▸ early)
      rw [Function.update_of_ne ne]
      exact (ordered.met other early).mono [.step call]
    · rw [mem_singleton.mp now, Function.update_self]
      exact met.mono [.step call]
  · rcases eq_nil_or_concat after with rfl | ⟨most, final, rfl⟩
    · obtain ⟨rfl, is⟩ := append_inj' split rfl
      cases is
      rw [replay_update fresh, Function.update_self, ← same, answers]
      exact settledSelf.unique settled
    · rw [concat_eq_append, ← cons_append, ← append_assoc] at split
      obtain ⟨rfl, is⟩ := append_inj' split rfl
      have ne : other ≠ call := fun is => fresh (is ▸ by simp)
      have absent : call ∉ before := fun member => fresh (mem_append_left _ member)
      rw [replay_update absent, Function.update_of_ne ne]
      exact ordered.answers before other most rfl outcome ((settledOther other ne outcome).mp settled)
  · show sys.core (update m.state) = _
    rw [replay_concat, replay_update fresh, Function.update_self, ← same, effect]

end Ordered

theorem linearizable [Nonempty E] {s : S} {fits : List (Move ι E) → Calls ι S ρ → Prop}
    (init : fits [] (.start s))
    (keeps : ∀ done m move m', sys.run (.start s) done = some m → fits done m → holds m move →
      sys.Moved m move m' → fits (done ++ [move]) m') (begins : ∀ call answer, sys.body call ≠ .pure answer)
    (steps : ∀ done m call next update, sys.run (.start s) done = some m → fits done m →
      m.phase call = .running (.step next update) →
      sys.LastStep s done m call next update ∨ sys.InnerStep m next update)
    (along : sys.Along holds (.start s) moves) (ran : sys.run (.start s) moves = some m) :
    ∃ order meets, sys.Linearization s moves m order meets ∧
      sys.core m.state = sys.core (sys.replay meets s order) := by
  have ordered := run_invariant holds
    (fun done m => fits done m ∧ ∃ order meets, sys.Ordered s done m order meets)
    (fun done m move m' inv met took => ?_) moves ⟨init, [], fun _ => Classical.arbitrary E, .start ..⟩
    along ran
  · obtain ⟨-, order, meets, ordered⟩ := ordered
    exact ⟨order, meets, ordered.linearization, ordered.core⟩
  · obtain ⟨fit, order, meets, ordered⟩ := inv
    have moved := moved_of_move took
    refine ⟨keeps done m move m' ordered.reached fit met moved, ?_⟩
    cases moved with
    | invoke call idle =>
      exact ⟨order, meets, ordered.quiet took (settled_goto (by simp [idle, Phase.Settled])) rfl⟩
    | enter call waiting free =>
      exact ⟨order, meets, ordered.quiet took
        (settled_goto (by simp [waiting, Phase.Settled, begins])) rfl⟩
    | env move =>
      exact ⟨order, meets, ordered.quiet took (fun _ _ => Iff.rfl) (sys.core_env move m.state)⟩
    | leave call answer running =>
      exact ⟨order, meets, ordered.quiet took (settled_goto (by simp [running, Phase.Settled])) rfl⟩
    | respond call answer left =>
      exact ⟨order, meets, ordered.quiet took (settled_goto (by simp [left, Phase.Settled])) rfl⟩
    | step call next update running =>
      rcases steps done m call next update ordered.reached fit running with last | ⟨more, core⟩
      · obtain ⟨meet, settled⟩ := ordered.settle running last
        exact ⟨_, _, settled⟩
      · exact ⟨order, meets, ordered.quiet took
          (settled_goto (by simp [running, Phase.Settled, more])) core⟩

end CallSystem

end StepProg
