/-
**Swaps and plain writes of one key on fjall, in any interleaving.**
-/

import OxiStore.Lib.Calls
import OxiStore.Kv.Fjall

namespace OxiStore

open ByteString OrdTable StepProg

namespace Fjall

inductive KeyOp where
  | compareAndSwap (expected : Option Bytes) (newValue : Bytes)
  | put (value : Bytes)
  | delete
deriving DecidableEq

abbrev Answer := Except StoreError (Option Bool)

namespace KeyOp

def call (key : Bytes) : KeyOp → Call State (Option Bool)
  | .compareAndSwap expected newValue => do
      let swapped ← store.compareAndSwap key expected newValue
      pure (some swapped)
  | .put value => do
      store.put key value
      pure none
  | .delete => do
      store.delete key
      pure none

def isSwap : KeyOp → Bool
  | .compareAndSwap _ _ => true
  | .put _ => false
  | .delete => false

def effect (key : Bytes) : KeyOp → Store Bytes → Store Bytes
  | .compareAndSwap _ _, s => s
  | .put value, s => s.write key value
  | .delete, s => s.evict key

end KeyOp

def calls {ι : Type} (key : Bytes) (ops : ι → KeyOp) :
    CallSystem ι State Answer SystemTime (Store Bytes) where
  body i := ((ops i).call key).prog
  locks i := (ops i).isSwap
  envStep := tick
  core := World.store
  core_env _ _ := rfl
  env_core now _ _ same := congrArg (fun s => (⟨s, now⟩ : State)) same

/-! ### A swap, cut at its engine calls -/

section

variable (key : Bytes) (expected : Option Bytes) (newValue : Bytes)

def commits : Prog State Answer :=
  .step (fun _ => .pure (.ok (some true))) (World.onStore (·.write key newValue))

def decides (current : Option Bytes) : Prog State Answer :=
  if casMatches current expected then commits key newValue else .pure (.ok (some false))

def reads : Prog State Answer :=
  .step (fun w => decides key expected newValue w.store.data[key]?) id

def compares (millis : UInt64) : Prog State Answer :=
  .step (fun w => if isExpired w.clock millis then decides key expected newValue none
    else reads key expected newValue) id

def swapAfterGet (current : Option Bytes) : Call State Bool := do
  if casMatches current expected then
    let put ← Txn.put (staged []) key newValue
    Txn.commit put
    pure true
  else
    Txn.rollback (staged [])
    pure false

theorem swapAfterGet_prog (current : Option Bytes) :
    (swapAfterGet key expected newValue current >>= fun swapped => pure (some swapped)).prog =
      decides key expected newValue current := by
  unfold decides swapAfterGet
  split_ifs with matching
  all_goals rfl

theorem swap_prog : ((KeyOp.compareAndSwap expected newValue).call key).prog =
    .step (fun w => (w.store.expiry key).elim (reads key expected newValue)
      (compares key expected newValue)) id := by
  obtain ⟨look, text, unset, set⟩ : ∃ look, (KeyOp.compareAndSwap expected newValue).call key =
      ((readStore (·.ttl[key]?) >>= look) >>= fun expired =>
          if expired then pure none else readStore (·.data[key]?)) >>=
        swapAfterGet key expected newValue >>= (fun swapped => pure (some swapped)) ∧
      look none = pure false ∧ ∀ entry, look (some entry) = entryExpired entry :=
    ⟨_, rfl, rfl, fun _ => rfl⟩
  simp only [text, bind_assoc, prog_readStore_bind]
  refine congrArg (Prog.step · id) (funext fun w => ?_)
  have read : (readStore (·.data[key]?) >>= fun current => swapAfterGet key expected newValue current
      >>= fun swapped => pure (some swapped) : Call State _).prog = reads key expected newValue := by
    rw [prog_readStore_bind]
    exact congrArg (Prog.step · id) (funext fun w => swapAfterGet_prog key expected newValue _)
  unfold Store.expiry
  cases w.store.ttl[key]? with
  | none =>
    rw [unset]
    exact read
  | some entry =>
    show (look (some entry) >>= _ : Call State _).prog =
      (Expiry.decode entry).elim (reads key expected newValue) (compares key expected newValue)
    rw [set]
    unfold entryExpired
    cases Expiry.decode entry with
    | none => exact read
    | some millis =>
      simp only [bind_assoc, prog_systemTimeNow_bind, pure_bind]
      refine congrArg (Prog.step · id) (funext fun w => ?_)
      cases isExpired w.clock millis with
      | true => exact swapAfterGet_prog key expected newValue none
      | false => exact read

theorem exec_swap (w : State) : ((KeyOp.compareAndSwap expected newValue).call key).exec w =
    if w.visible key = expected then (.ok (some true), w.onStore (·.write key newValue))
    else (.ok (some false), w) := by
  have swaps : (store.compareAndSwap key expected newValue).exec w =
      if w.visible key = expected then (.ok true, w.onStore (·.write key newValue))
      else (.ok false, w) := fjall.compareAndSwap_exec key expected newValue w
  unfold KeyOp.call
  rw [Call.exec_bind, swaps]
  split_ifs with found
  all_goals rfl

/-- **Where a swap stands**, and what it may count on there, with the tables `t` and the times in
`met` shown since it began. -/
inductive Stands (met : SystemTime → Prop) (t : Store Bytes) : Prog State Answer → Prop where
  | begins : Stands met t ((KeyOp.compareAndSwap expected newValue).call key).prog
  | compares (millis : UInt64) (entry : t.expiry key = some millis) :
      Stands met t (compares key expected newValue millis)
  | reads (now : SystemTime) (shown : met now) (live : t.elapsed now key = false) :
      Stands met t (reads key expected newValue)
  | commits (now : SystemTime) (shown : met now) (found : t.visible now key = expected) :
      Stands met t (commits key newValue)
  | done (answer : Answer) : Stands met t (.pure answer)

def Advances (met : SystemTime → Prop) (w : State) (rest : Prog State Answer) (after : Store Bytes) :
    Prop :=
  (∃ answer now, rest = .pure answer ∧ met now ∧
    (((KeyOp.compareAndSwap expected newValue).call key).exec (w.setClock now)).1 = answer ∧
    (((KeyOp.compareAndSwap expected newValue).call key).exec (w.setClock now)).2.store = after) ∨
  ((∀ answer, rest ≠ .pure answer) ∧ after = w.store ∧
    Stands key expected newValue met w.store rest)

variable {key expected newValue} {met : SystemTime → Prop}

theorem Stands.mono {met' : SystemTime → Prop} (more : ∀ now, met now → met' now) {t : Store Bytes}
    {program : Prog State Answer} (stands : Stands key expected newValue met t program) :
    Stands key expected newValue met' t program := by
  cases stands with
  | begins => exact .begins
  | compares millis entry => exact .compares millis entry
  | reads now shown live => exact .reads now (more now shown) live
  | commits now shown found => exact .commits now (more now shown) found
  | done answer => exact .done answer

theorem advances_decides {w : State} {current : Option Bytes} {now : SystemTime} (shown : met now)
    (found : w.store.visible now key = current) :
    Advances key expected newValue met w (decides key expected newValue current) w.store := by
  unfold decides
  split_ifs with matching
  · refine .inr ⟨nofun, rfl, .commits now shown ?_⟩
    rw [found, casMatches_iff.mp matching]
  · have differs : (w.setClock now).visible key ≠ expected :=
      fun same => matching (casMatches_iff.mpr (found.symm.trans same))
    refine .inl ⟨_, now, rfl, shown, ?_⟩
    rw [exec_swap, if_neg differs]
    exact ⟨rfl, rfl⟩

theorem Stands.step {w : State} (shown : met w.clock) {next : State → Prog State Answer}
    {update : State → State} (stands : Stands key expected newValue met w.store (.step next update)) :
    Advances key expected newValue met w (next w) (update w).store := by
  generalize running : Prog.step next update = program at stands
  cases stands with
  | begins =>
    rw [swap_prog] at running
    cases running
    refine .inr ?_
    dsimp only
    cases entry : w.store.expiry key with
    | none => exact ⟨nofun, rfl, .reads w.clock shown (Store.elapsed_of_expiry_none entry w.clock)⟩
    | some millis => exact ⟨nofun, rfl, .compares millis entry⟩
  | compares millis entry =>
    cases running
    show Advances _ _ _ _ _ (if isExpired w.clock millis then _ else _) w.store
    split_ifs with expired
    · exact advances_decides shown
        (Store.visible_of_elapsed (Store.elapsed_iff.mpr ⟨millis, entry, expired⟩))
    · refine .inr ⟨nofun, rfl, .reads w.clock shown ?_⟩
      rw [Store.elapsed, entry]
      exact Bool.eq_false_iff.mpr expired
  | reads now shown live =>
    cases running
    exact advances_decides shown (Store.visible_of_not_elapsed live)
  | commits now shown found =>
    cases running
    refine .inl ⟨_, now, rfl, shown, ?_⟩
    rw [exec_swap, if_pos (show (w.setClock now).visible key = expected from found)]
    exact ⟨rfl, rfl⟩
  | done answer => cases running

end

/-! ### Plain writes -/

theorem write_prog {op : KeyOp} (plain : op.isSwap = false) (key : Bytes) :
    (op.call key).prog = .step (fun _ => .pure (.ok none)) (World.onStore (op.effect key)) := by
  cases op with
  | compareAndSwap expected newValue => cases plain
  | put value | delete => rfl

theorem elapsed_effect {op : KeyOp} (plain : op.isSwap = false) (key : Bytes) (t : Store Bytes)
    (now : SystemTime) : (op.effect key t).elapsed now key = false := by
  cases op with
  | compareAndSwap expected newValue => cases plain
  | put value => exact (Store.elapsed_write t key value now key).trans (if_pos rfl)
  | delete => exact (Store.elapsed_evict t key now key).trans (if_pos rfl)

/-! ### Any interleaving -/

section

variable {ι : Type} [DecidableEq ι] (key : Bytes) (ops : ι → KeyOp)

/-- **No swap is disturbed**: when a plain write commits, no swap is about to commit, and none holds
an expiry it has yet to compare with the clock. -/
def Calm (m : Calls ι State Answer) : Move ι SystemTime → Prop
  | .step writer => (ops writer).isSwap = false →
      ∀ swap expected newValue, ops swap = .compareAndSwap expected newValue →
        m.phase swap ≠ .running (commits key newValue) ∧
          ∀ millis, m.phase swap ≠ .running (compares key expected newValue millis)
  | _ => True

structure Fits (s : State) (done : List (Move ι SystemTime)) (m : Calls ι State Answer) : Prop where
  swaps : ∀ i expected newValue program, ops i = .compareAndSwap expected newValue →
    m.phase i = .running program → m.holder = some i ∧
      Stands key expected newValue ((calls key ops).Met s done i) m.state.store program
  writes : ∀ i program, (ops i).isSwap = false → m.phase i = .running program →
    program = ((ops i).call key).prog ∨ ∃ answer, program = .pure answer

variable {key ops} {s : State} {done : List (Move ι SystemTime)} {m : Calls ι State Answer}
  {program : Prog State Answer}

variable (fits : Fits key ops s done m)

include fits

theorem Fits.alone {i j : ι} {program' : Prog State Answer} (running : m.phase i = .running program)
    (running' : m.phase j = .running program') (swap : (ops i).isSwap = true)
    (swap' : (ops j).isSwap = true) : i = j := by
  have holds : ∀ i program, m.phase i = .running program → (ops i).isSwap = true →
      m.holder = some i := by
    intro i program running swap
    cases op : ops i with
    | compareAndSwap expected newValue => exact (fits.swaps i expected newValue program op running).1
    | put value | delete => simp [op, KeyOp.isSwap] at swap
  exact Option.some.inj ((holds i program running swap).symm.trans
    (holds j program' running' swap'))

variable {expected : Option Bytes} {newValue : Bytes}

theorem Fits.later {i : ι} (op : ops i = .compareAndSwap expected newValue)
    (running : m.phase i = .running program) (move : Move ι SystemTime) :
    Stands key expected newValue ((calls key ops).Met s (done ++ [move]) i) m.state.store program :=
  (fits.swaps i expected newValue program op running).2.mono fun _ shown => shown.mono [move]

variable {next : State → Prog State Answer} {update : State → State}

theorem Fits.write_step {writer : ι} (plain : (ops writer).isSwap = false)
    (running : m.phase writer = .running (.step next update)) :
    next = (fun _ => .pure (.ok none)) ∧ update = World.onStore ((ops writer).effect key) := by
  rcases fits.writes writer _ plain running with begins | ⟨answer, ended⟩
  · rw [write_prog plain] at begins
    cases begins
    exact ⟨rfl, rfl⟩
  · cases ended

theorem Fits.swap_after_write {writer i : ι} (calm : Calm key ops m (.step writer))
    (plain : (ops writer).isSwap = false) (op : ops i = .compareAndSwap expected newValue)
    (running : m.phase i = .running program) :
    Stands key expected newValue ((calls key ops).Met s (done ++ [.step writer]) i)
      ((ops writer).effect key m.state.store) program := by
  obtain ⟨notCommits, notCompares⟩ := calm plain i expected newValue op
  cases fits.later op running (.step writer) with
  | begins => exact .begins
  | compares millis entry => exact absurd running (notCompares millis)
  | reads now shown live => exact .reads now shown (elapsed_effect plain key m.state.store now)
  | commits now shown found => exact absurd running notCommits
  | done answer => exact .done answer

variable {mover : ι}

variable (reached : (calls key ops).run (.start s) done = some m)

include reached

theorem Fits.swap_step (op : ops mover = .compareAndSwap expected newValue)
    (running : m.phase mover = .running (.step next update)) :
    Advances key expected newValue ((calls key ops).Met s done mover) m.state (next m.state)
      (update m.state).store :=
  (fits.swaps mover expected newValue _ op running).2.step
    (CallSystem.met_now reached running m.state.clock rfl)

theorem Fits.step (calm : Calm key ops m (.step mover))
    (running : m.phase mover = .running (.step next update)) :
    Fits key ops s (done ++ [.step mover])
      { m with phase := m.goto mover (.running (next m.state)), state := update m.state } := by
  refine ⟨fun i expected newValue program op now => ?_, fun i program plain now => ?_⟩
  · rcases Calls.goto_cases now with ⟨rfl, own⟩ | ⟨other, waits⟩
    · cases own
      refine ⟨(fits.swaps i expected newValue _ op running).1, ?_⟩
      rcases fits.swap_step reached op running with ⟨answer, now, last, -⟩ | ⟨-, same, stands⟩
      · rw [last]
        exact .done answer
      · rw [same]
        exact stands.mono fun _ shown => shown.mono [.step i]
    · refine ⟨(fits.swaps i expected newValue program op waits).1, ?_⟩
      cases swap : (ops mover).isSwap with
      | true =>
        have both : (ops i).isSwap = true := by rw [op, KeyOp.isSwap]
        exact absurd (fits.alone waits running both swap) other
      | false =>
        rw [(fits.write_step swap running).2]
        exact fits.swap_after_write calm swap op waits
  · rcases Calls.goto_cases now with ⟨rfl, own⟩ | ⟨-, waits⟩
    · cases own
      rw [(fits.write_step plain running).1]
      exact .inr ⟨_, rfl⟩
    · exact fits.writes i program plain waits

omit reached

theorem Fits.aside (phase : Phase State Answer) {holder : Option ι}
    (still : ∀ program, phase ≠ .running program)
    (kept : ∀ i, i ≠ mover → m.holder = some i → holder = some i) (move : Move ι SystemTime) :
    Fits key ops s (done ++ [move]) ⟨m.goto mover phase, holder, m.state⟩ := by
  refine ⟨fun i expected newValue program op now => ?_, fun i program plain now => ?_⟩
  · rcases Calls.goto_cases now with ⟨-, impossible⟩ | ⟨other, running⟩
    · exact absurd impossible (still program)
    · have held := (fits.swaps i expected newValue program op running).1
      exact ⟨kept i other held, fits.later op running move⟩
  · rcases Calls.goto_cases now with ⟨-, impossible⟩ | ⟨-, running⟩
    · exact absurd impossible (still program)
    · exact fits.writes i program plain running

theorem Fits.enter (free : (ops mover).isSwap = true → m.holder = none) :
    Fits key ops s (done ++ [.enter mover]) { m with
      phase := m.goto mover (.running ((calls key ops).body mover))
      holder := if (ops mover).isSwap then some mover else m.holder } := by
  refine ⟨fun i expected newValue program op now => ?_, fun i program plain now => ?_⟩
  · rcases Calls.goto_cases now with ⟨rfl, own⟩ | ⟨-, running⟩
    · cases own
      rw [op]
      refine ⟨rfl, ?_⟩
      show Stands _ _ _ _ _ ((ops i).call key).prog
      rw [op]
      exact .begins
    · have held := (fits.swaps i expected newValue program op running).1
      refine ⟨?_, fits.later op running _⟩
      split_ifs with swap
      · simp [free swap] at held
      · exact held
  · rcases Calls.goto_cases now with ⟨rfl, own⟩ | ⟨-, running⟩
    · cases own
      exact .inl rfl
    · exact fits.writes i program plain running

include reached

theorem Fits.move {move : Move ι SystemTime} {m' : Calls ι State Answer} (calm : Calm key ops m move)
    (moved : (calls key ops).Moved m move m') :
    Fits key ops s (done ++ [move]) m' := by
  cases moved with
  | step mover next update running => exact fits.step reached calm running
  | env now =>
    refine ⟨fun i expected newValue program op running => ?_, fits.writes⟩
    exact ⟨(fits.swaps i expected newValue program op running).1, fits.later op running _⟩
  | invoke mover idle => exact fits.aside .waiting nofun (fun _ _ held => held) _
  | respond mover answer left => exact fits.aside (.returned answer) nofun (fun _ _ held => held) _
  | leave mover answer running =>
    refine fits.aside (.left answer) nofun (fun i other held => ?_) _
    rw [held, if_neg fun same => other (Option.some.inj same)]
  | enter mover waiting free => exact fits.enter free

theorem Fits.steps (running : m.phase mover = .running (.step next update)) :
    (calls key ops).LastStep s done m mover next update ∨ (calls key ops).InnerStep m next update := by
  cases swap : (ops mover).isSwap with
  | false =>
    obtain ⟨rfl, rfl⟩ := fits.write_step swap running
    refine .inl ⟨_, m.state.clock, rfl, CallSystem.met_now reached running _ rfl, ?_⟩
    show (((ops mover).call key).prog.run _).1 = _ ∧ (((ops mover).call key).prog.run _).2.store = _
    rw [write_prog swap]
    exact ⟨rfl, rfl⟩
  | true =>
    cases op : ops mover with
    | compareAndSwap expected newValue =>
      rcases fits.swap_step reached op running with
        ⟨answer, now, last, shown, answers, effect⟩ | ⟨more, same, -⟩
      · refine .inl ⟨answer, now, last, shown, ?_⟩
        show (((ops mover).call key).exec _).1 = _ ∧ (((ops mover).call key).exec _).2.store = _
        rw [op]
        exact ⟨answers, effect⟩
      · exact .inr ⟨more, same⟩
    | put value | delete => simp [op, KeyOp.isSwap] at swap

omit reached

omit fits

variable (key ops)

def SwapsFind (s : State) (m : Calls ι State Answer) (order : List ι) (meets : ι → SystemTime) : Prop :=
  ∀ before swap after expected newValue swapped, order = before ++ swap :: after →
    ops swap = .compareAndSwap expected newValue → m.phase swap = .returned (.ok (some swapped)) →
      (swapped = true ↔
        (((calls key ops).replay meets s before).setClock (meets swap)).visible key = expected)

variable {key ops} in
theorem swapsFind_of_linearization {order : List ι} {meets : ι → SystemTime}
    (linear : (calls key ops).Linearization s done m order meets) :
    SwapsFind key ops s m order meets := by
  intro before swap after expected newValue swapped split op returned
  have answer := linear.answers before swap after split _ returned
  have alone := exec_swap key expected newValue
    (((calls key ops).replay meets s before).setClock (meets swap))
  rw [← op] at alone
  rw [show ((calls key ops).body swap).run ((calls key ops).envStep (meets swap) _) = _ from alone]
    at answer
  split_ifs at answer with found
  · cases answer
    exact iff_of_true rfl found
  · cases answer
    exact iff_of_false Bool.false_ne_true found

/-- **Calm runs are linearizable.** Any number of swaps, puts and deletes of one key, from any state
and with the clock moving at will: if no plain write commits while a swap is about to commit or holds
an expiry it has yet to compare, then the calls can be put in one order that respects real time, in
which they answer alone as they did, every swap succeeds exactly if it finds what it expected, and the
tables end up as they did. -/
theorem swaps_linearizable (s : State) (moves : List (Move ι SystemTime)) (m : Calls ι State Answer)
    (ran : (calls key ops).run (.start s) moves = some m)
    (calm : (calls key ops).Along (Calm key ops) (.start s) moves) :
    ∃ order meets, (calls key ops).Linearization s moves m order meets ∧
      SwapsFind key ops s m order meets ∧
      m.state.store = ((calls key ops).replay meets s order).store := by
  have start : Fits key ops s [] (.start s) := ⟨nofun, nofun⟩
  have begins : ∀ call answer, (calls key ops).body call ≠ .pure answer := by
    intro call answer
    show ((ops call).call key).prog ≠ _
    cases ops call with
    | compareAndSwap expected newValue =>
      rw [swap_prog]
      exact nofun
    | put value | delete => exact nofun
  have : Nonempty SystemTime := ⟨s.clock⟩
  obtain ⟨order, meets, linear, same⟩ := CallSystem.linearizable start
    (fun done m move m' reached fits calm moved => fits.move reached calm moved) begins
    (fun done m call next update reached fits running => fits.steps reached running) calm ran
  exact ⟨order, meets, linear, swapsFind_of_linearization linear, same⟩

end

def lastingPair : State :=
  ⟨⟨(∅ : Table Bytes Bytes).insert [107] [97], ∅⟩, .ofMillis 0⟩

def racingOps : Fin 3 → KeyOp
  | 0 => .compareAndSwap (some [97]) [98]
  | 1 => .put [99]
  | 2 => .compareAndSwap (some [99]) [100]

def overwriting : List (Move (Fin 3) SystemTime) :=
  [.invoke 0, .enter 0, .step 0, .step 0, .invoke 1, .enter 1, .step 1, .leave 1, .respond 1,
    .step 0, .leave 0, .respond 0, .invoke 2, .enter 2, .step 2, .step 2, .leave 2, .respond 2]

def overlapping : List (Move (Fin 3) SystemTime) :=
  [.invoke 0, .invoke 1, .invoke 2, .enter 0, .step 0, .enter 1, .step 1, .step 0, .leave 0, .enter 2,
    .step 2, .leave 1, .step 2, .step 2, .leave 2, .respond 2, .respond 1, .respond 0]

theorem undisturbed_of_turns {program : Prog State Answer} (newValue : Bytes) (millis : UInt64)
    (first : (program.advance lastingPair).1 ≠ .pure (.ok (some true)))
    (second : ((program.advance lastingPair).1.advance lastingPair).1 = .pure (.ok (some true))) :
    program ≠ commits [107] newValue ∧ program ≠ compares [107] (some [97]) [98] millis := by
  constructor
  · rintro rfl
    exact first rfl
  · rintro rfl
    cases expired : isExpired lastingPair.clock millis with
    | true =>
      have next : ((compares [107] (some [97]) [98] millis).advance lastingPair).1 =
          .pure (.ok (some false)) := if_pos expired
      rw [next] at second
      cases second
    | false =>
      have next : ((compares [107] (some [97]) [98] millis).advance lastingPair).1 =
          reads [107] (some [97]) [98] := if_neg (ne_true_of_eq_false expired)
      rw [next] at second
      cases second

theorem swaps_linearizable_overlapping : ∃ m,
    (calls [107] racingOps).run (.start lastingPair) overlapping = some m ∧
      m.phase 0 = .returned (.ok (some false)) ∧ m.phase 1 = .returned (.ok none) ∧
      m.phase 2 = .returned (.ok (some true)) ∧
      ∃ order meets, (calls [107] racingOps).Linearization lastingPair overlapping m order meets ∧
        SwapsFind [107] racingOps lastingPair m order meets ∧
        m.state.store = ((calls [107] racingOps).replay meets lastingPair order).store := by
  refine ⟨_, rfl, rfl, rfl, rfl, swaps_linearizable [107] racingOps lastingPair _ _ rfl ?_⟩
  refine .cons trivial rfl (.cons trivial rfl (.cons trivial rfl (.cons trivial rfl (.cons nofun rfl
    (.cons trivial rfl (.cons (fun _ swap expected newValue op => ?_) rfl ?_))))))
  · match swap with
    | 0 =>
      cases op
      exact ⟨fun same => (undisturbed_of_turns [98] 0 (by nofun) rfl).1 (Phase.running.inj same),
        fun millis same => (undisturbed_of_turns [98] millis (by nofun) rfl).2 (Phase.running.inj same)⟩
    | 1 => cases op
    | 2 => exact ⟨nofun, nofun⟩
  · refine .cons nofun rfl (.cons trivial rfl (.cons trivial rfl (.cons nofun rfl (.cons trivial rfl ?_))))
    exact .cons nofun rfl (.cons nofun rfl (.cons trivial rfl (.cons trivial rfl (.cons trivial rfl
      (.cons trivial rfl trivial)))))

theorem put_overwritten_by_swap : ∃ m,
    (calls [107] racingOps).run (.start lastingPair) overwriting = some m ∧
      m.phase 0 = .returned (.ok (some true)) ∧ m.phase 1 = .returned (.ok none) ∧
      m.phase 2 = .returned (.ok (some false)) ∧ m.state.visible [107] = some [98] ∧
      ¬ ∃ order meets, (calls [107] racingOps).Linearization lastingPair overwriting m order meets := by
  refine ⟨_, rfl, rfl, rfl, rfl, rfl, ?_⟩
  rintro ⟨order, meets, linear⟩
  have all : ∀ i : Fin 3, i ∈ order := by
    intro i
    match i with
    | 0 => exact linear.complete 0 _ rfl
    | 1 => exact linear.complete 1 _ rfl
    | 2 => exact linear.complete 2 _ rfl
  have before : ∀ i : Fin 3, i ≠ 2 → order.idxOf i < order.idxOf 2 := by
    intro i ne
    refine linear.realTime i 2 ⟨overwriting.take 12, overwriting.drop 12, rfl, ?_, ?_⟩ (all 2)
    · match i with
      | 0 | 1 => simp [overwriting]
      | 2 => exact absurd rfl ne
    · simp [overwriting]
  have three : order.length = 3 := by
    have perm : order.Perm [0, 1, 2] :=
      (List.perm_ext_iff_of_nodup linear.nodup (by decide)).mpr fun i =>
        iff_of_true (all i) (by revert i; decide)
    exact perm.length_eq
  obtain ⟨a, b, c, rfl⟩ := List.length_eq_three.mp three
  have orders : [a, b, c] = [0, 1, 2] ∨ [a, b, c] = [1, 0, 2] := by
    have nodup := linear.nodup
    have first := before 0 (by decide)
    have second := before 1 (by decide)
    clear before all linear three
    revert a b c
    decide
  rcases orders with order | order
  · have answer := linear.answers [0, 1] 2 [] order _ rfl
    cases answer
  · have answer := linear.answers [1] 0 [2] order _ rfl
    cases answer

end Fjall

end OxiStore
