/-
**Races of the trait's conditional methods.**
-/

import OxiStore.Lib.Lockstep
import OxiStore.Lib.Race
import OxiStore.Blob.Cas

namespace OxiStore

open ByteString StepProg Race

def deleteFound {S : Type} (store : BlobStore S) (key : String) : BlobCall S Bool := do
  store.delete key
  pure true

section

variable {S : Type} {store : BlobStore S} {contents : S → Blobs} (like : store.MapLike contents)
  (key : String) {s : S}

include like

theorem prog_putIfAbsent (data : Bytes) :
    ∃ next, (store.putIfAbsent key data).prog = .step next id ∧
      (∀ s, (contents s)[key]? = none → next s = (store.put key data).prog) ∧
      ∀ s, (contents s)[key]? ≠ none → next s = .pure (.error (.alreadyExists key)) := by
  obtain ⟨finish, text, whenFound, whenMissing⟩ : ∃ finish, store.putIfAbsent key data =
      (store.head key).attempt >>= finish ∧ (∀ size, finish (.ok size) = throw (.alreadyExists key)) ∧
        ∀ name, finish (.error (.notFound name)) = store.put key data :=
    ⟨_, rfl, fun _ => rfl, fun _ => rfl⟩
  obtain ⟨next, same, found, missing⟩ := (like.head key).prog_attempt_bind finish
  rw [text]
  refine ⟨next, same, fun s absent => ?_, fun s present => ?_⟩
  · obtain ⟨name, next⟩ := missing s absent
    rw [next, whenMissing]
  · obtain ⟨data, present⟩ := Option.ne_none_iff_exists'.mp present
    rw [found s data present, whenFound]
    rfl

theorem prog_put (data : Bytes) : ∃ outcome : S → Except BlobError Unit × S,
    (store.put key data).prog = .step (fun s => .pure (outcome s).1) (fun s => (outcome s).2) ∧
      ∀ s, Puts key data (contents s) (outcome s).1 (contents (outcome s).2) := by
  obtain ⟨outcome, same, puts⟩ := like.put key data
  exact ⟨outcome, by rw [same, Fallible.prog_atomic], puts⟩

theorem prog_deleteIfMatches (sha2 : Sha2) (digest : Digest) :
    ∃ next, (store.deleteIfMatches sha2 key digest).prog = .step next id ∧
      (∀ s data, (contents s)[key]? = some data → next s =
        if sha256 sha2 data = digest then (deleteFound store key).prog else .pure (.ok false)) ∧
      ∀ s, (contents s)[key]? = none → next s = .pure (.ok false) := by
  obtain ⟨finish, text, whenFound, whenMissing⟩ : ∃ finish, store.deleteIfMatches sha2 key digest =
      (store.get key).attempt >>= finish ∧
        (∀ data, finish (.ok data) =
          if sha256 sha2 data ≠ digest then pure false else deleteFound store key) ∧
        ∀ name, finish (.error (.notFound name)) = pure false :=
    ⟨_, rfl, fun _ => rfl, fun _ => rfl⟩
  obtain ⟨next, same, found, missing⟩ := (like.get key).prog_attempt_bind finish
  rw [text]
  refine ⟨next, same, fun s data present => ?_, fun s absent => ?_⟩
  · rw [found s data present, whenFound]
    by_cases matching : sha256 sha2 data = digest
    · simp only [id, matching, ne_eq, not_true, if_true, if_false]
    · simp only [id, matching, ne_eq, not_false_eq_true, if_true, if_false]
      rfl
  · obtain ⟨name, next⟩ := missing s absent
    rw [next, whenMissing]
    rfl

theorem prog_deleteFound : ∃ outcome : S → Except BlobError Unit × S,
    (deleteFound store key).prog =
        .step (fun s => .pure ((outcome s).1.map fun _ => true)) (fun s => (outcome s).2) ∧
      ∀ s, Deletes key (contents s) (outcome s).1 (contents (outcome s).2) := by
  obtain ⟨outcome, same, deletes⟩ := like.delete key
  exact ⟨outcome, by rw [deleteFound, same, Fallible.prog_atomic_map], deletes⟩

end

/-! ### `put_if_absent` -/

section

variable {ι S : Type} (key : String) (data : ι → Bytes)

def putters (store : BlobStore S) (s : S) : Race ι S (Except BlobError Unit) :=
  .start (fun i => (store.putIfAbsent key (data i)).prog) s

def ChecksAlone {ρ : Type} (race : Race ι S ρ) (i : ι) : Prop := i ∉ race.moved → ∀ j, ¬ race.UnderWay j

instance {ρ : Type} [Fintype ι] [DecidableEq ι] [DecidableEq ρ] (race : Race ι S ρ) (i : ι) :
    Decidable (ChecksAlone race i) :=
  inferInstanceAs (Decidable (_ → _))

/-- **At most one call has succeeded**, none if the key was there before, and the key holds the data of
the one that has. -/
structure OneWinner (contents : S → Blobs) (s : S) (race : Race ι S (Except BlobError Unit)) : Prop where
  unique : ∀ i j, race.returned i = some (.ok ()) → race.returned j = some (.ok ()) → i = j
  taken : (contents s)[key]? ≠ none → ∀ i, race.returned i ≠ some (.ok ())
  content : ∀ i, race.returned i = some (.ok ()) → (contents race.state)[key]? = some (data i)

/-- **A `put` over nothing**: what the call has looked for is still not there, or its `put` is refused. -/
def PutsFirst (store : BlobStore S) (contents : S → Blobs) (race : Race ι S (Except BlobError Unit))
    (i : ι) : Prop :=
  race.UnderWay i → (contents race.state)[key]? = none ∨
    ((store.put key (data i)).exec race.state).1 ≠ .ok ()

structure Fair (store : BlobStore S) (contents : S → Blobs) (s : S)
    (race : Race ι S (Except BlobError Unit)) : Prop where
  waiting : ∀ i ∉ race.moved, race.thread i = (store.putIfAbsent key (data i)).prog
  acting : ∀ i, race.UnderWay i → race.thread i = (store.put key (data i)).prog ∧ (contents s)[key]? = none
  winner : OneWinner key data contents s race
  kept : (contents s)[key]? ≠ none → (contents race.state)[key]? ≠ none
  made : (contents s)[key]? = none → (contents race.state)[key]? ≠ none →
    ∃ j, race.returned j = some (.ok ())

def OneActs (contents : S → Blobs) (race : Race ι S (Except BlobError Unit)) : Prop :=
  ∀ i, race.UnderWay i → (contents race.state)[key]? = none ∧ ∀ j, race.UnderWay j → j = i

variable {key data} {store : BlobStore S} {contents : S → Blobs} (like : store.MapLike contents) {s : S}
  {race : Race ι S (Except BlobError Unit)} {i : ι}

theorem OneWinner.of_same {race' : Race ι S (Except BlobError Unit)}
    (winner : OneWinner key data contents s race)
    (same : (contents race'.state)[key]? = (contents race.state)[key]?)
    (won : ∀ j, race'.returned j = some (.ok ()) → race.returned j = some (.ok ())) :
    OneWinner key data contents s race' where
  unique j k first second := winner.unique j k (won j first) (won k second)
  taken taken j success := winner.taken taken j (won j success)
  content j success := by
    rw [same]
    exact winner.content j (won j success)

include like in
theorem fair_putters (key : String) (data : ι → Bytes) (s : S) :
    Fair key data store contents s (putters key data store s) := by
  have running : ∀ i, (putters key data store s).returned i = none := by
    intro i
    obtain ⟨next, program, -⟩ := prog_putIfAbsent like key (data i)
    exact returned_of_step program
  refine ⟨fun i still => rfl, fun i acts => absurd acts.1 List.not_mem_nil, ⟨?_, ?_, ?_⟩, id,
    fun absent present => absurd absent present⟩
  · intro i j won
    simp [running] at won
  · intro taken i
    rw [running]
    exact nofun
  · intro i won
    simp [running] at won

variable [DecidableEq ι]

inductive PutterTurn (key : String) (data : ι → Bytes) (store : BlobStore S) (contents : S → Blobs)
    (race : Race ι S (Except BlobError Unit)) (i : ι) : Prop where
  /-- The call has returned, now with an error or before. -/
  | passed {result : Except BlobError Unit} (returned : (race.step i).2.returned i = some result)
      (same : (contents (race.step i).2.state)[key]? = (contents race.state)[key]?)
      (before : result = .ok () → race.returned i = some (.ok ()))
  /-- It found nothing and goes on to its `put`. -/
  | looked (fresh : i ∉ race.moved) (absent : (contents race.state)[key]? = none)
      (same : (race.step i).2.state = race.state)
      (puts : (race.step i).2.thread i = (store.put key (data i)).prog)
  /-- Its `put` is done. -/
  | won (acts : race.UnderWay i) (done : ((store.put key (data i)).exec race.state).1 = .ok ())
      (returned : (race.step i).2.returned i = some (.ok ()))
      (content : (contents (race.step i).2.state)[key]? = some (data i))

namespace Fair

variable (fair : Fair key data store contents s race)

include fair in
theorem waiting_step (j : ι) (still : j ∉ (race.step i).2.moved) :
    (race.step i).2.thread j = (store.putIfAbsent key (data j)).prog := by
  rw [mem_moved_step, not_or] at still
  rw [thread_step_other race still.1]
  exact fair.waiting j still.2

theorem won_step (own : (race.step i).2.returned i = some (.ok ()) → race.returned i = some (.ok ()))
    (j : ι) (won : (race.step i).2.returned j = some (.ok ())) : race.returned j = some (.ok ()) := by
  by_cases mine : j = i
  · subst mine
    exact own won
  · rwa [returned_step_other race mine] at won

include like

include fair

theorem put_turn (acts : race.UnderWay i) :
    (race.step i).2.returned i = some ((store.put key (data i)).exec race.state).1 ∧
      (race.step i).2.state = ((store.put key (data i)).exec race.state).2 := by
  obtain ⟨outcome, same, -⟩ := like.put key (data i)
  have program := (fair.acting i acts).1
  rw [same, Fallible.prog_atomic] at program
  rw [same, Fallible.exec_atomic]
  exact ⟨returned_of_pure (step_of_step program).1, (step_of_step program).2⟩

theorem turn (i : ι) :
    PutterTurn key data store contents race i := by
  by_cases moved : i ∈ race.moved
  · cases status : race.thread i with
    | pure result =>
      obtain ⟨threads, state⟩ := step_of_pure status
      refine .passed (returned_of_pure ((threads i).trans status)) (by rw [state]) ?_
      rintro rfl
      exact returned_of_pure status
    | step next update =>
      have acts : race.UnderWay i := ⟨moved, returned_of_step status⟩
      obtain ⟨returned, state⟩ := fair.put_turn like acts
      have effect := like.exec_put key (data i) race.state
      rw [← state] at effect
      generalize done : ((store.put key (data i)).exec race.state).1 = result at returned effect
      generalize after : contents (race.step i).2.state = blobs at effect
      cases effect with
      | stored =>
        refine .won acts done returned ?_
        rw [after, Std.ExtTreeMap.getElem?_insert_self]
      | refused error other => exact .passed returned (by rw [after]) nofun
  · obtain ⟨next, program, missing, found⟩ := prog_putIfAbsent like key (data i)
    obtain ⟨goes, state⟩ := step_of_step ((fair.waiting i moved).trans program)
    by_cases absent : (contents race.state)[key]? = none
    · exact .looked moved absent state (goes.trans (missing _ absent))
    · rw [found _ absent] at goes
      exact .passed (returned_of_pure goes) (by rw [state]; rfl) nofun

theorem step (first : PutsFirst key data store contents race i) :
    Fair key data store contents s (race.step i).2 := by
  have acting : ∀ j, j ≠ i → (race.step i).2.UnderWay j →
      (race.step i).2.thread j = (store.put key (data j)).prog ∧ (contents s)[key]? = none := by
    intro j other acts
    rw [thread_step_other race other]
    exact fair.acting j ((race.underWay_step_other other).mp acts)
  cases fair.turn like i with
  | passed returned same before =>
    refine ⟨fair.waiting_step, fun j acts => ?_, fair.winner.of_same same (won_step ?_), ?_, ?_⟩
    · exact acting j (underWay_of_returned returned acts).1 acts
    · intro won
      rw [returned] at won
      exact before (Option.some.inj won)
    · rw [same]
      exact fair.kept
    · rw [same]
      intro absent present
      obtain ⟨j, won⟩ := fair.made absent present
      exact ⟨j, returned_step won⟩
  | looked fresh absent same puts =>
    obtain ⟨outcome, program, -⟩ := prog_put like key (data i)
    refine ⟨fair.waiting_step, fun j acts => ?_, fair.winner.of_same (by rw [same]) (won_step ?_), ?_, ?_⟩
    · by_cases own : j = i
      · subst own
        exact ⟨puts, not_not.mp fun present => fair.kept present absent⟩
      · exact acting j own acts
    · intro won
      simp [returned_of_step (puts.trans program)] at won
    · rw [same]
      exact fair.kept
    · rw [same]
      exact fun _ present => absurd absent present
  | won acts done returned content =>
    have absent : (contents race.state)[key]? = none := (first acts).resolve_right (not_not.mpr done)
    have winner : ∀ j, (race.step i).2.returned j = some (.ok ()) → j = i := by
      intro j won
      by_contra other
      rw [returned_step_other race other] at won
      simp [fair.winner.content j won] at absent
    refine ⟨fair.waiting_step, fun j acts => ?_, ⟨fun j k first second => ?_, fun taken => ?_, ?_⟩, ?_, ?_⟩
    · exact acting j (underWay_of_returned returned acts).1 acts
    · rw [winner j first, winner k second]
    · exact absurd absent (fair.kept taken)
    · intro j won
      rw [winner j won]
      exact content
    · rw [content]
      exact fun _ => Option.some_ne_none _
    · exact fun _ _ => ⟨i, returned⟩

theorem two_winners (late : ¬ PutsFirst key data store contents race i) :
    ¬ OneWinner key data contents s (race.step i).2 := by
  intro winner
  unfold PutsFirst at late
  push Not at late
  obtain ⟨acts, present, done⟩ := late
  obtain ⟨j, won⟩ := fair.made (fair.acting i acts).2 present
  have returned := (fair.put_turn like acts).1
  rw [done] at returned
  have same : j = i := winner.unique j i (returned_step won) returned
  rw [same, acts.2] at won
  cases won

theorem oneActs_step (one : OneActs key contents race) (alone : ChecksAlone race i) :
    OneActs key contents (race.step i).2 := by
  cases fair.turn like i with
  | passed returned same before =>
    intro j acts
    obtain ⟨absent, only⟩ := one j (underWay_of_returned returned acts).2
    exact ⟨same.trans absent, fun k acts => only k (underWay_of_returned returned acts).2⟩
  | looked fresh absent same puts =>
    -- Nobody else is between its look and its `put`, so this call is the only one under way now.
    have only : ∀ j, (race.step i).2.UnderWay j → j = i := by
      intro j acts
      by_contra other
      exact alone fresh j ((race.underWay_step_other other).mp acts)
    intro j acts
    rw [same, only j acts]
    exact ⟨absent, only⟩
  | won acts done returned content =>
    intro j acting
    obtain ⟨other, acting⟩ := underWay_of_returned returned acting
    exact absurd ((one i acts).2 j acting) other

end Fair

/-- **At most one of the racing calls succeeds**, whatever their number and order, exactly as long as each puts
over nothing; and so each does if it looks when no other is between its look and its `put`. -/
theorem one_winner_iff (like : store.MapLike contents) (key : String) (data : ι → Bytes) (s : S)
    (schedule : List ι) :
    ((∀ done, done <+: schedule →
        OneWinner key data contents s (afterRun Race.step (putters key data store s) done)) ↔
      AlongRun Race.step (PutsFirst key data store contents) (putters key data store s) schedule) ∧
    (AlongRun Race.step ChecksAlone (putters key data store s) schedule →
      AlongRun Race.step (PutsFirst key data store contents) (putters key data store s) schedule) := by
  have start := fair_putters like key data s
  refine ⟨forall_prefix_iff (fun _ fair => fair.winner) (fun _ _ fair first => fair.step like first)
    (fun _ _ fair late => fair.two_winners like late) start schedule, ?_⟩
  have keeps : ∀ (race : Race ι S (Except BlobError Unit)) (i : ι),
      Fair key data store contents s race ∧ OneActs key contents race → ChecksAlone race i →
        PutsFirst key data store contents race i ∧
          Fair key data store contents s (race.step i).2 ∧ OneActs key contents (race.step i).2 := by
    rintro race i ⟨fair, one⟩ alone
    have first : PutsFirst key data store contents race i := fun acts => .inl (one i acts).1
    exact ⟨first, fair.step like first, fair.oneActs_step like one alone⟩
  exact alongRun_of_invariant keeps ⟨start, fun i acts => absurd acts.1 List.not_mem_nil⟩

theorem one_winner_of_overlapping :
    let race := afterRun Race.step (putters "k" ![[1, 2, 3, 4, 5], [1], [2]] Memory.store
      (Memory.withCapacity 4)) [0, 1, 0, 1, 2]
    race.returned 0 = some (.error (.quotaExceeded 4 5)) ∧ race.returned 1 = some (.ok ()) ∧
      race.returned 2 = some (.error (.alreadyExists "k")) ∧
      OneWinner "k" ![[1, 2, 3, 4, 5], [1], [2]] MemoryState.map (Memory.withCapacity 4) race := by
  refine ⟨by decide +kernel, by decide +kernel, by decide +kernel,
    (one_winner_iff Memory.mapLike "k" ![[1, 2, 3, 4, 5], [1], [2]] (Memory.withCapacity 4)
      [0, 1, 0, 1, 2]).1.mpr ?_ _ (List.prefix_refl _)⟩
  exact ⟨fun _ => .inl (by decide +kernel), fun _ => .inl (by decide +kernel),
    fun _ => .inl (by decide +kernel), fun _ => .inl (by decide +kernel),
    fun acts => absurd acts.1 (by decide), trivial⟩

def twoWriters : Bool → Bytes
  | false => [1]
  | true => [2]

theorem both_put_if_absent_succeed :
    ¬ OneWinner "k" twoWriters MemoryState.map Memory.new
      (afterRun Race.step (putters "k" twoWriters Memory.store Memory.new) [false, true, false, true]) := by
  intro winner
  have same : false = true := winner.unique false true (by decide +kernel) (by decide +kernel)
  cases same

end

/-! ### `delete_if_matches` -/

section

inductive KeyCall where
  | put (data : Bytes)
  | deleteIfMatches (digest : Digest)

variable {ι S : Type} (sha2 : Sha2) (store : BlobStore S) (contents : S → Blobs) (key : String)
  (calls : ι → KeyCall)

def KeyCall.prog : KeyCall → Prog S (Except BlobError Bool)
  | .put data => (do store.put key data; pure true : BlobCall S Bool).prog
  | .deleteIfMatches digest => (store.deleteIfMatches sha2 key digest).prog

def callers (s : S) : Race ι S (Except BlobError Bool) := .start (fun i => (calls i).prog sha2 store key) s

def PutsMatching (race : Race ι S (Except BlobError Bool)) (i : ι) : Prop :=
  i ∉ race.moved → ∀ data, calls i = .put data →
    ∀ j digest, race.UnderWay j → calls j = .deleteIfMatches digest → sha256 sha2 data = digest

variable [DecidableEq ι]

def RemovesMatching (race : Race ι S (Except BlobError Bool)) (i : ι) : Prop :=
  ∀ digest, calls i = .deleteIfMatches digest → ∀ data, (contents race.state)[key]? = some data →
    (contents (race.step i).2.state)[key]? = none → sha256 sha2 data = digest

structure Matching (race : Race ι S (Except BlobError Bool)) : Prop where
  waiting : ∀ i ∉ race.moved, race.thread i = (calls i).prog sha2 store key
  deleting : ∀ i, race.UnderWay i → race.thread i = (deleteFound store key).prog ∧
    ∃ digest, calls i = .deleteIfMatches digest ∧
      ∀ data, (contents race.state)[key]? = some data → sha256 sha2 data = digest

inductive CallerTurn (race : Race ι S (Except BlobError Bool)) (i : ι) : Prop where
  | passed {result : Except BlobError Bool} (returned : (race.step i).2.returned i = some result)
      (same : (contents (race.step i).2.state)[key]? = (contents race.state)[key]?)
  | stored {result : Except BlobError Bool} {data : Bytes} (fresh : i ∉ race.moved)
      (call : calls i = .put data) (returned : (race.step i).2.returned i = some result)
      (content : (contents (race.step i).2.state)[key]? = some data)
  | matched {digest : Digest} {data : Bytes} (call : calls i = .deleteIfMatches digest)
      (content : (contents race.state)[key]? = some data) (digests : sha256 sha2 data = digest)
      (same : (race.step i).2.state = race.state)
      (deletes : (race.step i).2.thread i = (deleteFound store key).prog)
  | removed {result : Except BlobError Bool} (acts : race.UnderWay i)
      (returned : (race.step i).2.returned i = some result)
      (content : (contents (race.step i).2.state)[key]? = none)

variable {sha2 store contents key calls} (like : store.MapLike contents)
  {race : Race ι S (Except BlobError Bool)} {i : ι}

namespace Matching

include like

theorem turn (inv : Matching sha2 store contents key calls race) (i : ι) :
    CallerTurn sha2 store contents key calls race i := by
  by_cases moved : i ∈ race.moved
  · cases status : race.thread i with
    | pure result =>
      obtain ⟨threads, state⟩ := step_of_pure status
      exact .passed (returned_of_pure ((threads i).trans status)) (by rw [state])
    | step next update =>
      have acts : race.UnderWay i := ⟨moved, returned_of_step status⟩
      obtain ⟨outcome, program, deletes⟩ := prog_deleteFound like key
      obtain ⟨ends, state⟩ := step_of_step ((inv.deleting i acts).1.trans program)
      have returned := returned_of_pure ends
      have effect := deletes race.state
      rw [← state] at effect
      generalize (outcome race.state).1 = result at returned effect
      generalize after : contents (race.step i).2.state = blobs at effect
      cases effect with
      | removed data present =>
        refine .removed acts returned ?_
        rw [after, Std.ExtTreeMap.getElem?_erase_self]
      | missing name absent => exact .passed returned (by rw [after])
  · have waiting := inv.waiting i moved
    cases call : calls i with
    | put data =>
      obtain ⟨outcome, same, puts⟩ := like.put key data
      rw [call, KeyCall.prog, same, Fallible.prog_atomic_map] at waiting
      obtain ⟨ends, state⟩ := step_of_step waiting
      have returned := returned_of_pure ends
      have effect := puts race.state
      rw [← state] at effect
      generalize (outcome race.state).1 = result at returned effect
      generalize after : contents (race.step i).2.state = blobs at effect
      cases effect with
      | stored =>
        refine .stored moved call returned ?_
        rw [after, Std.ExtTreeMap.getElem?_insert_self]
      | refused error other => exact .passed returned (by rw [after])
    | deleteIfMatches digest =>
      obtain ⟨next, program, found, missing⟩ := prog_deleteIfMatches like key sha2 digest
      rw [call, KeyCall.prog, program] at waiting
      obtain ⟨goes, state⟩ := step_of_step waiting
      cases content : (contents race.state)[key]? with
      | none =>
        rw [missing _ content] at goes
        exact .passed (returned_of_pure goes) (by rw [state]; rfl)
      | some data =>
        rw [found _ data content] at goes
        by_cases digests : sha256 sha2 data = digest
        · rw [if_pos digests] at goes
          exact .matched call content digests state goes
        · rw [if_neg digests] at goes
          exact .passed (returned_of_pure goes) (by rw [state]; rfl)

theorem step (inv : Matching sha2 store contents key calls race) (calm : PutsMatching sha2 calls race i) :
    RemovesMatching sha2 contents key calls race i ∧
      Matching sha2 store contents key calls (race.step i).2 := by
  have waiting : ∀ j ∉ (race.step i).2.moved,
      (race.step i).2.thread j = (calls j).prog sha2 store key := by
    intro j still
    rw [mem_moved_step, not_or] at still
    rw [thread_step_other race still.1]
    exact inv.waiting j still.2
  cases inv.turn like i with
  | passed returned same =>
    refine ⟨fun digest call data present absent => ?_, waiting, fun j acts => ?_⟩
    · rw [same, present] at absent
      cases absent
    · obtain ⟨other, acts⟩ := underWay_of_returned returned acts
      rw [thread_step_other race other, same]
      exact inv.deleting j acts
  | stored fresh call returned content =>
    refine ⟨fun digest _ data present absent => ?_, waiting, fun j acts => ?_⟩
    · rw [content] at absent
      cases absent
    · obtain ⟨other, acts⟩ := underWay_of_returned returned acts
      obtain ⟨running, digest, deletes, -⟩ := inv.deleting j acts
      rw [thread_step_other race other, content]
      refine ⟨running, digest, deletes, ?_⟩
      rintro _ ⟨⟩
      exact calm fresh _ call j digest acts deletes
  | matched call content digests same deletes =>
    refine ⟨fun digest _ data present absent => ?_, waiting, fun j acts => ?_⟩
    · simp [same, present] at absent
    · by_cases own : j = i
      · subst own
        rw [same, content]
        refine ⟨deletes, _, call, ?_⟩
        rintro _ ⟨⟩
        exact digests
      · rw [thread_step_other race own, same]
        exact inv.deleting j ((race.underWay_step_other own).mp acts)
  | removed acts returned content =>
    refine ⟨fun digest call data present absent => ?_, waiting, fun j acting => ?_⟩
    · obtain ⟨-, own, deletes, digests⟩ := inv.deleting i acts
      rw [call] at deletes
      cases deletes
      exact digests data present
    · obtain ⟨other, acting⟩ := underWay_of_returned returned acting
      obtain ⟨running, digest, deletes, -⟩ := inv.deleting j acting
      rw [thread_step_other race other, content]
      exact ⟨running, digest, deletes, nofun⟩

end Matching

/-- **A `delete_if_matches` removes only content of its digest**, in every interleaving in which no other
content is put between its read and its `delete`. -/
theorem removes_matching_of_puts_matching (like : store.MapLike contents) (sha2 : Sha2) (key : String)
    (calls : ι → KeyCall) (s : S) (schedule : List ι)
    (calm : AlongRun Race.step (PutsMatching sha2 calls) (callers sha2 store key calls s) schedule) :
    AlongRun Race.step (RemovesMatching sha2 contents key calls) (callers sha2 store key calls s)
      schedule := by
  have start : Matching sha2 store contents key calls (callers sha2 store key calls s) :=
    ⟨fun i still => rfl, fun i acts => absurd acts.1 List.not_mem_nil⟩
  exact alongRun_of_invariant (fun _ _ inv calm => inv.step like calm) start calm

def putAndDelete : Bool → KeyCall
  | false => .put [2]
  | true => .deleteIfMatches (sha256 .firstBytes [1])

def Memory.holdingOne : MemoryState := ((Memory.store.put "k" [1]).exec Memory.new).2

theorem delete_before_put_removes_matching :
    AlongRun Race.step (RemovesMatching .firstBytes MemoryState.map "k" putAndDelete)
      (callers .firstBytes Memory.store "k" putAndDelete Memory.holdingOne) [true, true, false] := by
  refine removes_matching_of_puts_matching Memory.mapLike .firstBytes "k" putAndDelete Memory.holdingOne
    [true, true, false] ⟨?_, ?_, ?_, trivial⟩
  · intro _ data call
    cases call
  · intro _ data call
    cases call
  · intro _ data _ j digest under
    have ended : (afterRun step (callers .firstBytes Memory.store "k" putAndDelete Memory.holdingOne)
        [true, true]).UnderWay j → False := by
      revert j
      decide +kernel
    exact (ended under).elim

theorem delete_removes_what_was_put :
    ¬ AlongRun Race.step (RemovesMatching .firstBytes MemoryState.map "k" putAndDelete)
      (callers .firstBytes Memory.store "k" putAndDelete Memory.holdingOne) [true, false, true] ∧
    (afterRun Race.step (callers .firstBytes Memory.store "k" putAndDelete Memory.holdingOne)
      [true, false, true]).returned true = some (.ok true) := by
  refine ⟨fun along => ?_, by decide +kernel⟩
  have same : sha256 .firstBytes [2] = sha256 .firstBytes [1] :=
    along.2.2.1 _ rfl [2] (by decide +kernel) (by decide +kernel)
  revert same
  decide +kernel

end

end OxiStore
