/-
**`SledStore::snapshot`, in any interleaving.**
-/

import OxiStore.Lib.Cursor
import OxiStore.Lib.Lockstep
import OxiStore.Kv.Sled

namespace OxiStore

open ByteString OrdTable StepProg

namespace Sled

/-! ### The call -/

inductive Taking where
  /-- The scan of the sidecar, with the keys found expired. -/
  | sidecar (cursor : Cursor Bytes Bytes) (expired : List Bytes)
  /-- The scan of the data tree, with the pairs copied. -/
  | data (cursor : Cursor Bytes Bytes) (expired : List Bytes) (map : Table Bytes Bytes)
  | done (snap : Snapshot)

namespace Taking

def start : Taking := .sidecar .start []

def Finished : Taking → Prop
  | .done _ => True
  | _ => False

def step (page : Option ℕ) (w : State) : Taking → Taking
  | .sidecar cursor expired => match cursor.buffer with
      | entry :: _ => .sidecar cursor.tail
          (if (decodeExpiry entry.2).any (isExpired w.clock) then entry.1 :: expired else expired)
      | [] => if cursor.reach = .everything then .data .start expired ∅
          else .sidecar (cursor.fill w.store.ttl page) expired
  | .data cursor expired map => match cursor.buffer with
      | entry :: _ => .data cursor.tail expired
          (if entry.1 ∈ expired then map else map.insert entry.1 entry.2)
      | [] => if cursor.reach = .everything then .done ⟨map⟩
          else .data (cursor.fill w.store.data page) expired map
  | .done snap => .done snap

def Undisturbed (taking : Taking) (w w' : State) : Prop :=
  match taking with
  | .sidecar cursor _ => (∀ key, cursor.Past key → w'.elapsed key = w.elapsed key) ∧
      ∀ key, cursor.Waits key → w'.store.ttl[key]? = w.store.ttl[key]?
  | .data cursor expired _ => ∀ key, ¬ cursor.reach.Covers key → key ∉ expired →
      w'.store.data[key]? = w.store.data[key]?
  | .done _ => True

end Taking

/-! ### The first scan -/

/-- **The keys judged so far are judged right**, on the sidecar and the clock of the moment. -/
structure Judging (w : State) (cursor : Cursor Bytes Bytes) (expired : List Bytes) : Prop where
  reads : cursor.Reads
  stored : ∀ entry ∈ cursor.buffer, w.store.ttl[entry.1]? = some entry.2
  judged (key : Bytes) : cursor.Past key → (key ∈ expired ↔ w.elapsed key = true)
  unjudged (key : Bytes) : ¬ cursor.Past key → key ∉ expired

section

variable {w w' : State} {cursor : Cursor Bytes Bytes} {expired : List Bytes}

theorem judging_start (w : State) : Judging w .start [] where
  reads := Cursor.reads_start
  stored _ member := absurd member List.not_mem_nil
  judged key past := absurd past (Cursor.not_past_start key)
  unjudged _ _ := List.not_mem_nil

theorem elapsed_of_entry {key bytes : Bytes} (stored : w.store.ttl[key]? = some bytes) :
    w.elapsed key = (decodeExpiry bytes).any (isExpired w.clock) := by
  unfold World.elapsed Store.elapsed Store.expiry
  rw [stored]
  rfl

theorem elapsed_of_absent {key : Bytes} (absent : w.store.ttl[key]? = none) : w.elapsed key = false := by
  unfold World.elapsed Store.elapsed Store.expiry
  rw [absent]
  rfl

variable (judging : Judging w cursor expired)

include judging

theorem Judging.judge {entry : Bytes × Bytes} {buffer : List (Bytes × Bytes)}
    (waiting : cursor.buffer = entry :: buffer) :
    Judging w cursor.tail
      (if (decodeExpiry entry.2).any (isExpired w.clock) then entry.1 :: expired else expired) := by
  have member : entry ∈ cursor.buffer := waiting ▸ List.mem_cons_self
  have waits : ¬ cursor.Past entry.1 := fun past => past.2 (List.mem_map_of_mem member)
  have fresh := judging.unjudged entry.1 waits
  have verdict := elapsed_of_entry (judging.stored entry member)
  have added : ∀ key, key ∈ (if (decodeExpiry entry.2).any (isExpired w.clock) then entry.1 :: expired
      else expired) ↔ key ∈ expired ∨ (key = entry.1 ∧ w.elapsed key = true) := by
    intro key
    rw [← verdict]
    by_cases elapsed : w.elapsed entry.1 = true
    · rw [if_pos elapsed, List.mem_cons, or_comm]
      exact or_congr_right ⟨fun same => ⟨same, same ▸ elapsed⟩, And.left⟩
    · rw [if_neg elapsed]
      refine ⟨.inl, fun found => found.resolve_right ?_⟩
      rintro ⟨rfl, impossible⟩
      exact elapsed impossible
  refine ⟨judging.reads.tail waiting, fun other later => ?_, fun key past => ?_, fun key waiting' => ?_⟩
  · exact judging.stored other (List.mem_of_mem_tail later)
  · rw [added]
    rcases (judging.reads.past_tail waiting key).mp past with before | rfl
    · rw [judging.judged key before]
      exact ⟨fun found => found.elim id And.right, .inl⟩
    · exact ⟨fun found => found.elim (fun old => absurd old fresh) And.right, fun elapsed =>
        .inr ⟨rfl, elapsed⟩⟩
  · rw [added]
    rw [judging.reads.past_tail waiting, not_or] at waiting'
    rintro (found | ⟨same, _⟩)
    · exact judging.unjudged key waiting'.1 found
    · exact waiting'.2 same

theorem Judging.fill (waiting : cursor.buffer = []) (page : Option ℕ) :
    Judging w (cursor.fill w.store.ttl page) expired := by
  refine ⟨Cursor.reads_fill page, fun entry member => ?_, fun key past => ?_, fun key ahead => ?_⟩
  · exact ((Cursor.mem_fill page entry.1 entry.2).mp member).2.2
  · rcases (Cursor.past_fill_iff waiting page key).mp past with before | ⟨fresh, _, absent⟩
    · exact judging.judged key before
    · have unjudged := judging.unjudged key fun before => fresh before.1
      rw [elapsed_of_absent absent]
      exact ⟨fun found => absurd found unjudged, fun impossible => absurd impossible Bool.false_ne_true⟩
  · rw [Cursor.past_fill_iff waiting, not_or] at ahead
    exact judging.unjudged key ahead.1

theorem Judging.undisturbed (calm : (Taking.sidecar cursor expired).Undisturbed w w') :
    Judging w' cursor expired where
  reads := judging.reads
  stored entry member := by
    rw [calm.2 entry.1 (List.mem_map_of_mem member)]
    exact judging.stored entry member
  judged key past := by
    rw [calm.1 key past]
    exact judging.judged key past
  unjudged := judging.unjudged

end

/-! ### The second scan -/

/-- **The pairs copied so far are those that were visible at one moment**, and the pairs still to be read
are as they were then. -/
structure Copying (seen w : State) (cursor : Cursor Bytes Bytes) (expired : List Bytes)
    (map : Table Bytes Bytes) : Prop where
  reads : cursor.Reads
  expired_iff (key : Bytes) : key ∈ expired ↔ seen.elapsed key = true
  stored : ∀ entry ∈ cursor.buffer, entry.1 ∉ expired → seen.store.data[entry.1]? = some entry.2
  copied (key : Bytes) : cursor.Past key → map[key]? = seen.visible key
  uncopied (key : Bytes) : ¬ cursor.Past key → map[key]? = none
  unread (key : Bytes) : ¬ cursor.reach.Covers key → key ∉ expired →
    w.store.data[key]? = seen.store.data[key]?

section

variable {seen w w' : State} {cursor : Cursor Bytes Bytes} {expired : List Bytes}
  {map : Table Bytes Bytes}

theorem Judging.copying (judging : Judging w cursor expired) (waiting : cursor.buffer = [])
    (ended : cursor.reach = .everything) : Copying w w .start expired ∅ where
  reads := Cursor.reads_start
  expired_iff key := judging.judged key (Cursor.past_of_end waiting ended key)
  stored _ member := absurd member List.not_mem_nil
  copied key past := absurd past (Cursor.not_past_start key)
  uncopied key _ := by simp
  unread _ _ _ := rfl

variable (copying : Copying seen w cursor expired map)

include copying

theorem Copying.visible_expired {key : Bytes} (found : key ∈ expired) : seen.visible key = none :=
  Store.visible_of_elapsed ((copying.expired_iff key).mp found)

theorem Copying.visible_live {key : Bytes} (live : key ∉ expired) :
    seen.visible key = seen.store.data[key]? := by
  refine Store.visible_of_not_elapsed ?_
  rw [← Bool.not_eq_true]
  exact fun elapsed => live ((copying.expired_iff key).mpr elapsed)

theorem Copying.copy {entry : Bytes × Bytes} {buffer : List (Bytes × Bytes)}
    (waiting : cursor.buffer = entry :: buffer) :
    Copying seen w cursor.tail expired
      (if entry.1 ∈ expired then map else map.insert entry.1 entry.2) := by
  have member : entry ∈ cursor.buffer := waiting ▸ List.mem_cons_self
  have waits : ¬ cursor.Past entry.1 := fun past => past.2 (List.mem_map_of_mem member)
  have here : (if entry.1 ∈ expired then map else map.insert entry.1 entry.2)[entry.1]? =
      seen.visible entry.1 := by
    by_cases found : entry.1 ∈ expired
    · rw [if_pos found, copying.visible_expired found]
      exact copying.uncopied entry.1 waits
    · rw [if_neg found, copying.visible_live found, copying.stored entry member found, get_insert,
        if_pos rfl]
  have elsewhere : ∀ key, key ≠ entry.1 →
      (if entry.1 ∈ expired then map else map.insert entry.1 entry.2)[key]? = map[key]? := by
    intro key other
    by_cases found : entry.1 ∈ expired
    · rw [if_pos found]
    · rw [if_neg found, get_insert, if_neg other.symm]
  refine ⟨copying.reads.tail waiting, copying.expired_iff, fun other later => ?_, fun key past => ?_,
    fun key ahead => ?_, copying.unread⟩
  · exact copying.stored other (List.mem_of_mem_tail later)
  · by_cases same : key = entry.1
    · rw [same, here]
    · rw [elsewhere key same]
      exact copying.copied key (((copying.reads.past_tail waiting key).mp past).resolve_right same)
  · rw [copying.reads.past_tail waiting, not_or] at ahead
    rw [elsewhere key ahead.2]
    exact copying.uncopied key ahead.1

theorem Copying.fill (waiting : cursor.buffer = []) (page : Option ℕ) :
    Copying seen w (cursor.fill w.store.data page) expired map := by
  refine ⟨Cursor.reads_fill page, copying.expired_iff, fun entry member live => ?_, fun key past => ?_,
    fun key ahead => ?_, fun key ahead => ?_⟩
  · obtain ⟨fresh, _, found⟩ := (Cursor.mem_fill page entry.1 entry.2).mp member
    rw [← copying.unread entry.1 fresh live, found]
  · rcases (Cursor.past_fill_iff waiting page key).mp past with before | ⟨fresh, _, absent⟩
    · exact copying.copied key before
    · rw [copying.uncopied key fun before => fresh before.1]
      by_cases found : key ∈ expired
      · rw [copying.visible_expired found]
      · rw [copying.visible_live found, ← copying.unread key fresh found, absent]
  · rw [Cursor.past_fill_iff waiting, not_or] at ahead
    exact copying.uncopied key ahead.1
  · exact copying.unread key fun covered => ahead (Cursor.covers_fill page covered)

theorem Copying.undisturbed (calm : (Taking.data cursor expired map).Undisturbed w w') :
    Copying seen w' cursor expired map :=
  { copying with
    unread := fun key ahead live => (calm key ahead live).trans (copying.unread key ahead live) }

theorem Copying.finish (waiting : cursor.buffer = []) (ended : cursor.reach = .everything) (key : Bytes) :
    map[key]? = seen.visible key :=
  copying.copied key (Cursor.past_of_end waiting ended key)

end

/-! ### Among other calls -/

/-- **A snapshot being taken beside other calls.** -/
structure Capturing (ι ρ : Type) where
  pool : Pool ι State ρ
  taking : Taking

inductive CaptureEvent (ι : Type) where
  | others (event : Event ι SystemTime)
  | scan (page : Option ℕ)

namespace Capturing

variable {ι ρ : Type} [DecidableEq ι]

def step (capturing : Capturing ι ρ) : CaptureEvent ι → Unit × Capturing ι ρ
  | .others event => ((), { capturing with pool := capturing.pool.step tick event })
  | .scan page => ((), { capturing with taking := capturing.taking.step page capturing.pool.state })

def Calm (capturing : Capturing ι ρ) : CaptureEvent ι → Prop
  | .others event =>
      capturing.taking.Undisturbed capturing.pool.state (capturing.pool.step tick event).state
  | .scan _ => True

def Copies (seen : State) (capturing : Capturing ι ρ) : Prop :=
  match capturing.taking with
  | .sidecar _ _ => False
  | .data cursor expired map => Copying seen capturing.pool.state cursor expired map
  | .done snap => ∀ key, snap.data[key]? = seen.visible key

variable {capturing : Capturing ι ρ} {event : CaptureEvent ι} {seen : State}

theorem Copies.step (copies : capturing.Copies seen) (calm : capturing.Calm event) :
    (capturing.step event).2.Copies seen := by
  obtain ⟨pool, taking⟩ := capturing
  cases taking with
  | sidecar cursor expired => exact copies.elim
  | done snap =>
    cases event <;> exact copies
  | data cursor expired map =>
    have copying : Copying seen pool.state cursor expired map := copies
    cases event with
    | others event => exact copying.undisturbed calm
    | scan page =>
      simp only [Capturing.step, Taking.step, Copies]
      cases waiting : cursor.buffer with
      | cons entry buffer => exact copying.copy waiting
      | nil =>
        by_cases ended : cursor.reach = .everything
        · rw [if_pos ended]
          exact copying.finish waiting ended
        · rw [if_neg ended]
          exact copying.fill waiting page

theorem step_judging {pool : Pool ι State ρ} {cursor : Cursor Bytes Bytes} {expired : List Bytes}
    (judging : Judging pool.state cursor expired)
    (calm : (Capturing.mk pool (.sidecar cursor expired)).Calm event) :
    (∃ pool' cursor' expired', (Capturing.mk pool (.sidecar cursor expired)).step event =
        ((), ⟨pool', .sidecar cursor' expired'⟩) ∧ Judging pool'.state cursor' expired') ∨
      (Capturing.mk pool (.sidecar cursor expired)).step event =
          ((), ⟨pool, .data .start expired ∅⟩) ∧
        Copying pool.state pool.state .start expired ∅ := by
  cases event with
  | others event => exact .inl ⟨_, cursor, expired, rfl, judging.undisturbed calm⟩
  | scan page =>
    simp only [Capturing.step, Taking.step]
    cases waiting : cursor.buffer with
    | cons entry buffer => exact .inl ⟨pool, _, _, rfl, judging.judge waiting⟩
    | nil =>
      by_cases ended : cursor.reach = .everything
      · rw [if_pos ended]
        exact .inr ⟨rfl, judging.copying waiting ended⟩
      · rw [if_neg ended]
        exact .inl ⟨pool, _, _, rfl, judging.fill waiting page⟩

theorem instant_of_judging {events : List (CaptureEvent ι)} {pool : Pool ι State ρ}
    {cursor : Cursor Bytes Bytes} {expired : List Bytes} (judging : Judging pool.state cursor expired)
    (calm : AlongRun step Calm ⟨pool, .sidecar cursor expired⟩ events) {snap : Snapshot}
    (returned : (afterRun step ⟨pool, .sidecar cursor expired⟩ events).taking = .done snap) :
    ∃ before after, events = before ++ after ∧
      ¬ (afterRun step ⟨pool, .sidecar cursor expired⟩ before).taking.Finished ∧
      ∀ key, snap.data[key]? =
        (afterRun step ⟨pool, .sidecar cursor expired⟩ before).pool.state.visible key := by
  induction events generalizing pool cursor expired with
  | nil => cases returned
  | cons event events ih =>
    obtain ⟨here, later⟩ := calm
    rw [afterRun] at returned
    rcases step_judging judging here with ⟨pool', cursor', expired', steps, judging'⟩ | ⟨steps, copying⟩
    · rw [steps] at later returned
      obtain ⟨before, after, split, unfinished, holds⟩ := ih judging' later returned
      refine ⟨event :: before, after, by rw [split, List.cons_append], ?_⟩
      rw [afterRun, steps]
      exact ⟨unfinished, holds⟩
    · rw [steps] at later returned
      have copies : (Capturing.mk pool (.data .start expired ∅)).Copies pool.state := copying
      have ends : (afterRun step _ events).Copies pool.state :=
        afterRun_invariant (fun _ _ => Copies.step) copies later
      rw [Copies, returned] at ends
      refine ⟨[event], events, rfl, ?_⟩
      rw [afterRun, steps]
      exact ⟨id, ends⟩

end Capturing

end Sled

/-- **An undisturbed snapshot holds the contents of one instant.** Whatever other calls run beside it and
however the clock moves: if none of their steps disturbs it, what it returns was visible at one moment
between its start and its end. -/
theorem snapshot_is_an_instant {ι ρ : Type} [DecidableEq ι] (pool : Pool ι Sled.State ρ)
    (events : List (Sled.CaptureEvent ι))
    (calm : AlongRun Sled.Capturing.step Sled.Capturing.Calm ⟨pool, .start⟩ events)
    {snap : Sled.Snapshot}
    (returned : (afterRun Sled.Capturing.step ⟨pool, .start⟩ events).taking = .done snap) :
    ∃ before after, events = before ++ after ∧
      ¬ (afterRun Sled.Capturing.step ⟨pool, .start⟩ before).taking.Finished ∧
      ∀ key, snap.data[key]? =
        (afterRun Sled.Capturing.step ⟨pool, .start⟩ before).pool.state.visible key :=
  Sled.Capturing.instant_of_judging (Sled.judging_start pool.state) calm returned

namespace Sled

def twoPuts : Pool Bool State (Except StoreError Unit) :=
  ⟨fun second => if second then (store.put [106] [97]).prog else (store.put [107] [98]).prog,
    .expiredPair⟩

end Sled

def putsAroundReads : List (Sled.CaptureEvent Bool) :=
  [.scan none, .scan none, .others (.turn true), .others (.turn true), .scan none, .scan none,
    .others (.turn false), .others (.turn false), .scan none, .scan none, .scan none]

theorem snapshot_is_an_instant_around_reads :
    ∃ before after, putsAroundReads = before ++ after ∧
      ¬ (afterRun Sled.Capturing.step ⟨Sled.twoPuts, .start⟩ before).taking.Finished ∧
      ∀ key, ((∅ : Table Bytes Bytes).insert [106] [97])[key]? =
        (afterRun Sled.Capturing.step ⟨Sled.twoPuts, .start⟩ before).pool.state.visible key := by
  have calm : AlongRun Sled.Capturing.step Sled.Capturing.Calm ⟨Sled.twoPuts, .start⟩
      putsAroundReads := by
    refine ⟨trivial, trivial, ⟨fun _ _ => rfl, fun _ _ => rfl⟩, ?_, trivial, trivial,
      fun _ ahead => absurd trivial ahead, fun _ ahead => absurd trivial ahead, trivial, trivial, trivial,
      trivial⟩
    -- `j` has no expiry to drop, so the second step of its `put` changes nothing.
    have absent : ((World.expiredPair : Sled.State).store.insertData [106] [97]).detach [106] =
        (World.expiredPair : Sled.State).store.insertData [106] [97] := Store.detach_absent rfl
    refine ⟨fun key _ => ?_, fun key waits => absurd waits List.not_mem_nil⟩
    show Store.elapsed (((World.expiredPair : Sled.State).store.insertData [106] [97]).detach [106]) _ _ = _
    rw [absent]
    rfl
  have returned : (afterRun Sled.Capturing.step ⟨Sled.twoPuts, .start⟩ putsAroundReads).taking =
      .done ⟨(∅ : Table Bytes Bytes).insert [106] [97]⟩ := rfl
  exact snapshot_is_an_instant Sled.twoPuts putsAroundReads calm returned

def putsBetweenScans : List (Sled.CaptureEvent Bool) :=
  [.scan none, .scan none, .others (.turn false), .others (.turn false), .others (.turn true),
    .others (.turn true), .scan none, .scan none, .scan none, .scan none, .scan none]

theorem snapshot_of_no_instant :
    (afterRun Sled.Capturing.step ⟨Sled.twoPuts, .start⟩ putsBetweenScans).taking =
        .done ⟨(∅ : Table Bytes Bytes).insert [106] [97]⟩ ∧
      ¬ ∃ before after, putsBetweenScans = before ++ after ∧
        ∀ key, ((∅ : Table Bytes Bytes).insert [106] [97])[key]? =
          (afterRun Sled.Capturing.step ⟨Sled.twoPuts, .start⟩ before).pool.state.visible key := by
  refine ⟨rfl, ?_⟩
  rintro ⟨before, after, split, holds⟩
  have front : before = putsBetweenScans.take before.length := by rw [split, List.take_left]
  have bound : before.length < 12 := by
    have lengths := congrArg List.length split
    rw [List.length_append, show putsBetweenScans.length = 11 from rfl] at lengths
    omega
  have never : ∀ count : Fin 12,
      let s := (afterRun Sled.Capturing.step ⟨Sled.twoPuts, .start⟩ (putsBetweenScans.take count)).pool.state
      s.visible [106] = none ∨ s.visible [107] ≠ none := by
    decide +kernel
  have here := never ⟨before.length, bound⟩
  simp only [← front, ← holds] at here
  revert here
  decide

end OxiStore
