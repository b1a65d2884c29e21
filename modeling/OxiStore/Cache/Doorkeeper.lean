/-
**The doorkeeper and the ageing of the sketch.**
-/

import OxiStore.Cache.TinyLfu

namespace OxiStore.Caching

open StepProg WTinyLfuCache ByteString

variable {κ V : Type}

/-! ### What a call does to the sketch and the doorkeeper -/

namespace WTinyLfuCache

def filters (s : WTinyLfuCache κ V) : CountMinSketch × SizedDoorkeeper := (s.sketch, s.doorkeeper)

variable (s : WTinyLfuCache κ V) (seg : CacheSegment)

@[simp] theorem filters_setSegment (map : LinkedMap κ (CacheEntry V)) :
    (s.setSegment seg map).filters = s.filters := by
  cases seg <;> rfl

variable [DecidableEq κ] (key : κ)

@[simp] theorem filters_route (seg : CacheSegment) :
    (s.route key seg).filters = s.filters := rfl

@[simp] theorem filters_unroute : (s.unroute key).filters = s.filters := rfl

theorem filters_promoteIn :
    (s.promoteIn seg key).filters = s.filters := by
  unfold promoteIn
  cases (s.segment seg).get key with
  | none => rfl
  | some entry => simp [pushTo, dropFrom]

theorem filters_demote : s.demote.filters = s.filters := by
  unfold demote
  split_ifs
  · rcases s.protectedSeg.popFront with ⟨_ | ⟨oldest, entry⟩, _⟩
    · rfl
    · simp [pushTo, dropFrom]
  · rfl

theorem filters_promoteProbationToProtected :
    (s.promoteProbationToProtected key).filters = s.filters := by
  unfold promoteProbationToProtected
  cases s.probation.get key with
  | none => rfl
  | some entry =>
    dsimp only
    rw [filters_demote]
    simp [pushTo, dropFrom]

theorem filters_popSegment :
    (s.popSegment seg).2.filters = s.filters := by
  unfold popSegment
  rcases (s.segment seg).popFront with ⟨_ | ⟨oldest, entry⟩, _⟩
  · rfl
  · simp [dropFrom]

variable (new : CacheEntry V)

theorem filters_assign :
    (s.assign seg key new).filters = s.filters := by
  unfold assign
  split_ifs
  · simp [pushTo]
  · rfl

theorem filters_admitCandidate :
    (s.admitCandidate key new).filters = s.filters := by
  simp [admitCandidate, pushTo]

variable [HashInput κ]

theorem filters_runAdmissionGate :
    (s.runAdmissionGate key new).2.filters = s.filters := by
  unfold runAdmissionGate
  split_ifs
  · exact filters_admitCandidate s key new
  · split
    · rfl
    · split
      · dsimp only
        split_ifs
        · rw [filters_admitCandidate, filters_popSegment]
        · rw [filters_admitCandidate, filters_popSegment]
          rfl
        · rfl
        · rfl
      · rfl

theorem filters_insertEntry :
    (insertEntry key new s).2.filters = (s.recordAccess key).2.filters := by
  unfold insertEntry insertEntryOrPanic
  rcases s.recordAccess key with ⟨_ | _, after⟩
  · rfl
  · cases s.segmentIndex.get key with
    | some seg => cases seg with
      | window => exact (filters_promoteIn _ .window key).trans (filters_assign _ .window key new)
      | probation =>
        exact (filters_promoteProbationToProtected _ key).trans (filters_assign _ .probation key new)
      | protectedSeg =>
        exact (filters_promoteIn _ .protectedSeg key).trans (filters_assign _ .protectedSeg key new)
    | none =>
      have pushed : ((after.route key .window).pushTo .window key new).filters = after.filters := by simp [pushTo]
      rw [← pushed]
      dsimp only
      unfold evictFromWindowIfOverCap
      split_ifs
      · rw [← filters_popSegment ((after.route key .window).pushTo .window key new) .window]
        rcases popSegment .window _ with ⟨_ | ⟨candidate, entry⟩, later⟩
        · rfl
        · exact filters_runAdmissionGate later candidate entry
      · rfl

omit [DecidableEq κ] in
theorem doorkeeper_recordAccess : (s.recordAccess key).2.doorkeeper = (s.doorkeeper.put (keyBytes key)).2 := by
  unfold recordAccess
  dsimp only
  split_ifs
  · cases s.sketch.increment (keyBytes key) <;> rfl
  · rfl

/-- **The key that a call records**: a put records its key, and a `get` a key that is there and has not
expired. -/
def recorded : Option (WTinyLfuCache κ V) → Instant × Op κ V → Option κ
  | some _, (_, .put key _) => some key
  | some _, (now, .putWithTtl key value ttl) => (CacheEntry.withTtl now value ttl).map fun _ => key
  | some s, (now, .get key) =>
      (s.segmentIndex.get key).bind fun seg =>
        if ((s.segment seg).get key).any (·.isExpired now) then none else some key
  | _, _ => none

theorem filters_step {s s' : WTinyLfuCache κ V} {op : Instant × Op κ V} {key : κ}
    (next : (cache.step (some s) op).2 = some s') (records : recorded (some s) op = some key) :
    s'.filters = (s.recordAccess key).2.filters := by
  obtain ⟨now, op⟩ := op
  cases op with
  | put key value =>
    cases records
    cases next
    exact filters_insertEntry s _ (.new value)
  | putWithTtl key value ttl =>
    unfold recorded at records
    obtain ⟨entry, new, rfl⟩ := Option.map_eq_some_iff.mp records
    simp only [Cache.step, cache, putWithTtl, insertWithTtl, new, Option.map_some, Option.some_inj] at next
    rw [← next]
    exact filters_insertEntry s _ entry
  | get key =>
    unfold recorded at records
    obtain ⟨seg, routed, found⟩ := Option.bind_eq_some_iff.mp records
    split_ifs at found with expired
    cases found
    cases next
    show (WTinyLfuCache.get now _ s).2.filters = _
    unfold WTinyLfuCache.get getOrPanic removeIfExpired
    simp only [routed, expired, Bool.false_eq_true, if_false]
    rcases s.recordAccess _ with ⟨_ | _, after⟩
    · cases seg <;> rfl
    · cases seg with
      | window => exact filters_promoteIn _ .window _
      | probation => exact filters_promoteProbationToProtected _ _
      | protectedSeg => exact filters_promoteIn _ .protectedSeg _
  | _ => cases records

/-- **A call that counts a key in the sketch**: the doorkeeper has seen the key it records. -/
def increments (state : Option (WTinyLfuCache κ V)) (op : Instant × Op κ V) : Bool :=
  match state, recorded state op with
  | some s, some key => (s.doorkeeper.put (keyBytes key)).1
  | _, _ => false

/-- **A call at which the sketch ages**: it counts a key without a panic, and `sample_size` is reached. -/
def ages (state : Option (WTinyLfuCache κ V)) (op : Instant × Op κ V) : Bool :=
  increments state op && state.any fun s =>
    (recorded state op).any (fun key => (s.sketch.increment (keyBytes key)).isSome) &&
      s.sketch.sampleSize ≤ s.sketch.additions + 1

def Cleared : Option (WTinyLfuCache κ V) → Prop
  | some s => s.doorkeeper = s.doorkeeper.clear
  | none => False

end WTinyLfuCache

/-! ### A doorkeeper that has seen a key -/

section

variable {d : Doorkeeper} {hA hB : UInt64} {numBits : ℕ}

theorem putRows_seen {rows : List ℕ} {seen : Bool × List UInt64} {bits : List UInt64}
    (done : rows.foldlM (Doorkeeper.putRow hA hB numBits) seen = some (true, bits)) :
    seen = (true, bits) ∧ ∀ row ∈ rows, ∃ word ∈ bits, word ≠ 0 := by
  induction rows generalizing seen with
  | nil => exact ⟨Option.some_inj.mp done, by simp⟩
  | cons row rows ih =>
    rw [List.foldlM_cons] at done
    obtain ⟨after, first, rest⟩ := Option.bind_eq_some_iff.mp done
    obtain ⟨rfl, _⟩ := ih rest
    unfold Doorkeeper.putRow at first
    obtain ⟨word, found, put⟩ := Option.bind_eq_some_iff.mp first
    dsimp only at put
    split_ifs at put with unset
    · cases put
    · cases put
      refine ⟨rfl, fun _ _ => ⟨word, List.mem_of_getElem? found, ?_⟩⟩
      rintro rfl
      exact unset (UInt64.zero_and)

theorem put_seen {keyBytes : Bytes} {d' : Doorkeeper} (done : d.put keyBytes = some (true, d')) :
    d' = d ∧ ∃ word ∈ d.bits, word ≠ 0 := by
  unfold Doorkeeper.put at done
  obtain ⟨⟨seen, bits⟩, rows, put⟩ := Option.bind_eq_some_iff.mp done
  cases put
  obtain ⟨same, set⟩ := putRows_seen rows
  cases same
  exact ⟨rfl, set 0 (by decide)⟩

theorem not_clear_of_seen {d : SizedDoorkeeper} {keyBytes : Bytes} (seen : (d.put keyBytes).1 = true) :
    (d.put keyBytes).2 ≠ (d.put keyBytes).2.clear := by
  have done : d.doorkeeper.put keyBytes = some (true, (d.put keyBytes).2.doorkeeper) := by
    rw [← seen]
    exact (Option.some_get (d.put_isSome keyBytes)).symm
  obtain ⟨same, word, member, set⟩ := put_seen done
  intro clear
  have bits : d.doorkeeper.bits = d.doorkeeper.bits.map fun _ => 0 := by
    rw [← same]
    exact congrArg (fun d : SizedDoorkeeper => d.doorkeeper.bits) clear
  rw [bits] at member
  obtain ⟨_, _, zero⟩ := List.mem_map.mp member
  exact set zero.symm

end

/-! ### The reset -/

section

variable [DecidableEq κ] [HashInput κ]

def DoorkeeperReset (cap : ℕ) (ops : List (Instant × Op κ V)) : Prop :=
  ∀ before op after, ops = before ++ op :: after →
    ages (afterRun cache.step (some (WTinyLfuCache.new cap)) before) op = true →
      let aged := (cache.step (afterRun cache.step (some (WTinyLfuCache.new cap)) before) op).2
      Cleared aged ∧ ∀ key between later rest, after = between ++ later :: rest →
        AlongRun cache.step (fun state op => recorded state op ≠ some key) aged between →
          recorded (afterRun cache.step aged between) later = some key →
            increments (afterRun cache.step aged between) later = false

theorem not_cleared_of_ages {state : Option (WTinyLfuCache κ V)} {op : Instant × Op κ V}
    (aged : ages state op = true) : ¬ Cleared (cache.step state op).2 := by
  have counted : increments state op = true := (Bool.and_eq_true_iff.mp aged).1
  unfold increments at counted
  split at counted
  · rename_i s key records
    cases next : (cache.step (some s) op).2 with
    | none => exact id
    | some s' =>
      have same : s'.doorkeeper = (s.doorkeeper.put (keyBytes key)).2 :=
        (congrArg Prod.snd (filters_step next records)).trans (doorkeeper_recordAccess s key)
      intro cleared
      unfold Cleared at cleared
      dsimp only at cleared
      rw [same] at cleared
      exact not_clear_of_seen counted cleared
  · cases counted

/-- **The doorkeeper is reset at every ageing exactly in the runs in which the sketch never ages.** -/
theorem doorkeeper_reset_iff (cap : ℕ) (ops : List (Instant × Op κ V)) : DoorkeeperReset cap ops ↔
    AlongRun cache.step (fun state op => ages state op = false) (some (WTinyLfuCache.new cap)) ops := by
  rw [alongRun_iff_split]
  constructor
  · intro reset before op after split
    by_contra aged
    have aged' := (Bool.not_eq_false _).mp aged
    exact not_cleared_of_ages aged' (reset before op after split aged').1
  · intro never before op after split aged
    rw [never before op after split] at aged
    cases aged

theorem doorkeeper_not_reset : ¬ DoorkeeperReset 2
    (List.replicate 22 ((0, .put 1 10) : Instant × Op ℕ ℕ)) := by
  intro reset
  obtain ⟨_, first⟩ := reset (List.replicate 20 (0, .put 1 10)) (0, .put 1 10)
    [(0, .put 1 10)] rfl (by decide +kernel)
  have fresh := first 1 [] (0, .put 1 10) [] rfl trivial rfl
  revert fresh
  decide +kernel

end

end OxiStore.Caching
