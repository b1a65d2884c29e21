/-
**`WTinyLfuCache`.**
-/

import OxiStore.Cache.Trait
import OxiStore.Cache.Sketch

namespace OxiStore.Caching

open ByteString Function

/-! ### Keys as bytes -/

class HashInput (κ : Type) where
  bytes : κ → Bytes

instance : HashInput ℕ := ⟨toLeBytes 8⟩

def keyHash (seed : UInt64) (written : Bytes) : UInt64 :=
  fnv1a64 written (0xcbf29ce484222325 ^^^ seed) ^^^ seed

def keyBytes {κ : Type} [HashInput κ] (key : κ) : Bytes :=
  toLeBytes 8 (keyHash 0xcbf29ce484222325 (HashInput.bytes key)).toNat ++
    toLeBytes 8 (keyHash 0x6c62272e07bb0142 (HashInput.bytes key)).toNat

def xorshift64 (x : UInt64) : UInt64 :=
  let x := x ^^^ (x <<< 13)
  let x := x ^^^ (x >>> 7)
  x ^^^ (x <<< 17)

/-! ### The cache -/

inductive CacheSegment where
  | window
  | probation
  | protectedSeg
deriving DecidableEq

structure WTinyLfuCache (κ V : Type) where
  totalCap : ℕ
  windowCap : ℕ
  mainCap : ℕ
  protectedCap : ℕ
  window : LinkedMap κ (CacheEntry V)
  protectedSeg : LinkedMap κ (CacheEntry V)
  probation : LinkedMap κ (CacheEntry V)
  segmentIndex : LinkedMap κ CacheSegment
  sketch : CountMinSketch
  doorkeeper : SizedDoorkeeper
  rng : UInt64

variable {κ V : Type}

namespace WTinyLfuCache

def new (totalCap : ℕ) : WTinyLfuCache κ V :=
  let cap := max totalCap 2
  let windowCap := max (cap / 100) 1
  { totalCap := cap
    windowCap := windowCap
    mainCap := cap - windowCap
    protectedCap := (cap - windowCap) * 4 % 2 ^ 64 / 5
    window := ∅
    protectedSeg := ∅
    probation := ∅
    segmentIndex := ∅
    sketch := .new cap
    doorkeeper := .new cap
    rng := UInt64.ofNat cap ^^^ 0xdeadbeefcafebabe }

def segment (s : WTinyLfuCache κ V) : CacheSegment → LinkedMap κ (CacheEntry V)
  | .window => s.window
  | .probation => s.probation
  | .protectedSeg => s.protectedSeg

def setSegment (seg : CacheSegment) (map : LinkedMap κ (CacheEntry V)) (s : WTinyLfuCache κ V) :
    WTinyLfuCache κ V :=
  match seg with
  | .window => { s with window := map }
  | .probation => { s with probation := map }
  | .protectedSeg => { s with protectedSeg := map }

def len (s : WTinyLfuCache κ V) : ℕ := s.window.len + s.protectedSeg.len + s.probation.len

variable [DecidableEq κ]

def dropFrom (seg : CacheSegment) (key : κ) (s : WTinyLfuCache κ V) : WTinyLfuCache κ V :=
  s.setSegment seg ((s.segment seg).erase key)

def pushTo (seg : CacheSegment) (key : κ) (entry : CacheEntry V) (s : WTinyLfuCache κ V) :
    WTinyLfuCache κ V := s.setSegment seg ((s.segment seg).insert key entry)

def route (key : κ) (seg : CacheSegment) (s : WTinyLfuCache κ V) : WTinyLfuCache κ V :=
  { s with segmentIndex := s.segmentIndex.insert key seg }

def unroute (key : κ) (s : WTinyLfuCache κ V) : WTinyLfuCache κ V :=
  { s with segmentIndex := s.segmentIndex.erase key }

omit [DecidableEq κ] in
def recordAccess [HashInput κ] (key : κ) (s : WTinyLfuCache κ V) : Bool × WTinyLfuCache κ V :=
  let (seenBefore, doorkeeper) := s.doorkeeper.put (keyBytes key)
  if seenBefore then
    match s.sketch.increment (keyBytes key) with
    | some sketch => (true, { s with doorkeeper := doorkeeper, sketch := sketch })
    | none => (false, { s with doorkeeper := doorkeeper, sketch := s.sketch.cutShort (keyBytes key) })
  else (true, { s with doorkeeper := doorkeeper })

omit [DecidableEq κ] in
def freq [HashInput κ] (key : κ) (s : WTinyLfuCache κ V) : Option ℕ := s.sketch.estimate (keyBytes key)

def removeIfExpired (now : Instant) (key : κ) (s : WTinyLfuCache κ V) : Bool × WTinyLfuCache κ V :=
  match s.segmentIndex.get key with
  | none => (false, s)
  | some seg =>
      if ((s.segment seg).get key).any (·.isExpired now) then (true, (s.unroute key).dropFrom seg key)
      else (false, s)

def promoteIn (seg : CacheSegment) (key : κ) (s : WTinyLfuCache κ V) : WTinyLfuCache κ V :=
  match (s.segment seg).get key with
  | none => s
  | some entry => (s.dropFrom seg key).pushTo seg key entry

def promoteInWindow (key : κ) (s : WTinyLfuCache κ V) : WTinyLfuCache κ V := s.promoteIn .window key

def promoteInProtected (key : κ) (s : WTinyLfuCache κ V) : WTinyLfuCache κ V := s.promoteIn .protectedSeg key

def demote (s : WTinyLfuCache κ V) : WTinyLfuCache κ V :=
  if s.protectedCap < s.protectedSeg.len then
    match s.protectedSeg.popFront with
    | (none, _) => s
    | (some (demotedKey, demotedEntry), _) =>
        ((s.dropFrom .protectedSeg demotedKey).route demotedKey .probation).pushTo .probation demotedKey
          demotedEntry
  else s

def promoteProbationToProtected (key : κ) (s : WTinyLfuCache κ V) : WTinyLfuCache κ V :=
  match s.probation.get key with
  | none => s
  | some entry =>
      demote (((s.dropFrom .probation key).route key .protectedSeg).pushTo .protectedSeg key entry)

def popSegment (seg : CacheSegment) (s : WTinyLfuCache κ V) : Option (κ × CacheEntry V) × WTinyLfuCache κ V :=
  match (s.segment seg).popFront with
  | (none, _) => (none, s)
  | (some (key, entry), _) => (some (key, entry), (s.dropFrom seg key).unroute key)

def evictFromWindowIfOverCap (s : WTinyLfuCache κ V) : Option (κ × CacheEntry V) × WTinyLfuCache κ V :=
  if s.windowCap < s.window.len then s.popSegment .window else (none, s)

def admitCandidate (key : κ) (entry : CacheEntry V) (s : WTinyLfuCache κ V) : WTinyLfuCache κ V :=
  (s.route key .probation).pushTo .probation key entry

def runAdmissionGate [HashInput κ] (candidateKey : κ) (candidateEntry : CacheEntry V)
    (s : WTinyLfuCache κ V) : Bool × WTinyLfuCache κ V :=
  if s.probation.len + s.protectedSeg.len < s.mainCap then (true, s.admitCandidate candidateKey candidateEntry)
  else
    match s.probation.front with
    | none => (true, s)
    | some (victimKey, _) =>
        match s.freq candidateKey, s.freq victimKey with
        | some candidateFreq, some victimFreq =>
            if victimFreq < candidateFreq then
              (true, (s.popSegment .probation).2.admitCandidate candidateKey candidateEntry)
            else if candidateFreq = victimFreq then
              let s := { s with rng := xorshift64 s.rng }
              if s.rng &&& 0xFF < 128 then
                (true, (s.popSegment .probation).2.admitCandidate candidateKey candidateEntry)
              else (true, s)
            else (true, s)
        | _, _ => (false, s)

def assign (seg : CacheSegment) (key : κ) (entry : CacheEntry V) (s : WTinyLfuCache κ V) :
    WTinyLfuCache κ V :=
  if (s.segment seg).contains key then s.pushTo seg key entry else s

def insertEntryOrPanic [HashInput κ] (key : κ) (entry : CacheEntry V) (s : WTinyLfuCache κ V) :
    Option (Option V) × WTinyLfuCache κ V :=
  match s.segmentIndex.get key, s.recordAccess key with
  | _, (false, s) => (none, s)
  | some .window, (true, s) => (some none, (s.assign .window key entry).promoteInWindow key)
  | some .probation, (true, s) =>
      (some none, (s.assign .probation key entry).promoteProbationToProtected key)
  | some .protectedSeg, (true, s) => (some none, (s.assign .protectedSeg key entry).promoteInProtected key)
  | none, (true, s) =>
      match ((s.route key .window).pushTo .window key entry).evictFromWindowIfOverCap with
      | (none, s) => (some none, s)
      | (some (candidateKey, candidateEntry), s) =>
          let gate := s.runAdmissionGate candidateKey candidateEntry
          (if gate.1 then some none else none, gate.2)

def insertEntry [HashInput κ] (key : κ) (entry : CacheEntry V) (s : WTinyLfuCache κ V) :
    Option V × WTinyLfuCache κ V :=
  let outcome := insertEntryOrPanic key entry s
  (outcome.1.join, outcome.2)

def getOrPanic [HashInput κ] (now : Instant) (key : κ) (s : WTinyLfuCache κ V) :
    Option (Option V) × WTinyLfuCache κ V :=
  match s.removeIfExpired now key with
  | (true, s) => (some none, s)
  | (false, s) =>
      match s.segmentIndex.get key with
      | none => (some none, s)
      | some seg =>
          match seg, s.recordAccess key with
          | _, (false, s) => (none, s)
          | .window, (true, s) =>
              let s := s.promoteInWindow key
              (some ((s.window.get key).map CacheEntry.value), s)
          | .probation, (true, s) =>
              let s := s.promoteProbationToProtected key
              (some ((s.protectedSeg.get key).map CacheEntry.value), s)
          | .protectedSeg, (true, s) =>
              let s := s.promoteInProtected key
              (some ((s.protectedSeg.get key).map CacheEntry.value), s)

def get [HashInput κ] (now : Instant) (key : κ) (s : WTinyLfuCache κ V) : Option V × WTinyLfuCache κ V :=
  let outcome := getOrPanic now key s
  (outcome.1.join, outcome.2)

/-- **The calls that panic in the sketch.** -/
def panics [HashInput κ] (now : Instant) : Op κ V → WTinyLfuCache κ V → Bool
  | .put key value, s => (insertEntryOrPanic key (.new value) s).1.isNone
  | .putWithTtl key value ttl, s =>
      (CacheEntry.withTtl now value ttl).any fun entry => (insertEntryOrPanic key entry s).1.isNone
  | .get key, s => (getOrPanic now key s).1.isNone
  | _, _ => false

def put [HashInput κ] (key : κ) (value : V) (s : WTinyLfuCache κ V) : Option V × WTinyLfuCache κ V :=
  insertEntry key (.new value) s

def putWithTtl [HashInput κ] (now : Instant) (key : κ) (value : V) (ttl : Duration) (s : WTinyLfuCache κ V) :
    Option (Option V × WTinyLfuCache κ V) := insertWithTtl insertEntry now key value ttl s

def entry (s : WTinyLfuCache κ V) : Ledger κ V :=
  fun key => (s.segmentIndex.get key).bind fun seg => (s.segment seg).get key

def peek (now : Instant) (key : κ) (s : WTinyLfuCache κ V) : Option V := (s.entry key).bind (·.live now)

def containsKey (now : Instant) (key : κ) (s : WTinyLfuCache κ V) : Bool :=
  (s.entry key).any fun entry => !entry.isExpired now

def remove (key : κ) (s : WTinyLfuCache κ V) : Option V × WTinyLfuCache κ V :=
  match s.segmentIndex.get key with
  | none => (none, s)
  | some seg => (((s.segment seg).get key).map CacheEntry.value, (s.unroute key).dropFrom seg key)

omit [DecidableEq κ] in
def clear (s : WTinyLfuCache κ V) : WTinyLfuCache κ V :=
  { s with
    window := ∅, protectedSeg := ∅, probation := ∅, segmentIndex := ∅
    sketch := s.sketch.clear, doorkeeper := s.doorkeeper.clear }

omit [DecidableEq κ] in
def setCap (newCap : ℕ) (s : WTinyLfuCache κ V) : WTinyLfuCache κ V :=
  let cap := max newCap 2
  let windowCap := max (cap / 100) 1
  { s with
    totalCap := cap
    windowCap := windowCap
    mainCap := cap - windowCap
    protectedCap := (cap - windowCap) * 4 % 2 ^ 64 / 5 }

def resize (newCap : ℕ) (s : WTinyLfuCache κ V) : Option (WTinyLfuCache κ V) := do
  let s ← WhileLoop.rounds (fun s : WTinyLfuCache κ V => s.windowCap < s.window.len)
    (fun s => (s.popSegment .window).2) s.window.len (s.setCap newCap)
  let s ← WhileLoop.rounds (fun s : WTinyLfuCache κ V => s.protectedCap < s.protectedSeg.len)
    (fun s => (s.popSegment .protectedSeg).2) s.protectedSeg.len s
  WhileLoop.rounds (fun s : WTinyLfuCache κ V => s.mainCap < s.probation.len + s.protectedSeg.len)
    (fun s => (s.popSegment .probation).2) s.probation.len s

def cache [HashInput κ] : Cache κ V (WTinyLfuCache κ V) where
  get := get
  put := put
  putWithTtl := putWithTtl
  len := len
  cap s := s.totalCap
  remove := remove
  clear := clear
  peek := peek
  containsKey := containsKey
  resize := resize
  panics := panics

end WTinyLfuCache

open WTinyLfuCache

/-! ### The picture -/

section

variable [DecidableEq κ]

abbrev Placement (κ V : Type) := κ → Option (CacheSegment × CacheEntry V)

omit [DecidableEq κ] in
def Placement.entries (place : Placement κ V) : Ledger κ V := fun key => (place key).map Prod.snd

theorem entries_update (place : Placement κ V) (key : κ) (there : Option (CacheSegment × CacheEntry V)) :
    Placement.entries (update place key there) =
      update place.entries key (there.map Prod.snd) := by
  funext other
  unfold Placement.entries
  by_cases same : other = key
  · rw [same, update_self, update_self]
  · rw [update_of_ne same, update_of_ne same]

/-- **What a cache is a picture of**: the index has the segment of every key, and each segment the entries of
the keys that are in it. -/
structure WTinyLfuCache.Shows (s : WTinyLfuCache κ V) (place : Placement κ V) : Prop where
  index : ∀ key, s.segmentIndex.get key = (place key).map Prod.fst
  held : ∀ seg key, (s.segment seg).get key =
    (place key).bind fun there => if there.1 = seg then some there.2 else none

variable (s : WTinyLfuCache κ V) (seg : CacheSegment) (seg other : CacheSegment) (key key' : κ)
  (map : LinkedMap κ (CacheEntry V))

omit [DecidableEq κ] in
@[simp] theorem segment_setSegment :
    (s.setSegment seg map).segment other = if other = seg then map else s.segment other := by
  cases seg with
  | window => cases other with
    | window | probation | protectedSeg => rfl
  | probation | protectedSeg => cases other with
    | window | probation | protectedSeg => rfl

omit [DecidableEq κ] in
@[simp] theorem segmentIndex_setSegment :
    (s.setSegment seg map).segmentIndex = s.segmentIndex := by
  cases seg <;> rfl

@[simp] theorem segment_route (key : κ) (seg other : CacheSegment) :
    (s.route key seg).segment other = s.segment other := by
  cases other <;> rfl

@[simp] theorem segment_unroute (key : κ) (other : CacheSegment) :
    (s.unroute key).segment other = s.segment other := by
  cases other <;> rfl

theorem get_pushTo (new : CacheEntry V) :
    ((s.pushTo seg key new).segment other).get key' =
      if key' = key ∧ other = seg then some new else (s.segment other).get key' := by
  unfold pushTo
  rw [segment_setSegment]
  by_cases here : other = seg
  · rw [if_pos here, LinkedMap.get_insert, here]
    simp only [and_true]
  · rw [if_neg here, if_neg fun both => here both.2]

theorem get_dropFrom :
    ((s.dropFrom seg key).segment other).get key' =
      if key' = key ∧ other = seg then none else (s.segment other).get key' := by
  unfold dropFrom
  rw [segment_setSegment]
  by_cases here : other = seg
  · rw [if_pos here, LinkedMap.get_erase, here]
    simp only [and_true]
  · rw [if_neg here, if_neg fun both => here both.2]

@[simp] theorem segmentIndex_pushTo (key : κ) (new : CacheEntry V) :
    (s.pushTo seg key new).segmentIndex = s.segmentIndex := segmentIndex_setSegment s seg _

@[simp] theorem segmentIndex_dropFrom (key : κ) :
    (s.dropFrom seg key).segmentIndex = s.segmentIndex := segmentIndex_setSegment s seg _

theorem get_route :
    (s.route key seg).segmentIndex.get key' = if key' = key then some seg else s.segmentIndex.get key' :=
  s.segmentIndex.get_insert key key' seg

theorem get_unroute :
    (s.unroute key).segmentIndex.get key' = if key' = key then none else s.segmentIndex.get key' :=
  s.segmentIndex.get_erase key key'

variable {s : WTinyLfuCache κ V} {place : Placement κ V} {key : κ} {seg : CacheSegment} {held : CacheEntry V}

namespace WTinyLfuCache.Shows

variable (shown : s.Shows place)

include shown

theorem entry : s.entry = place.entries := by
  funext key
  unfold WTinyLfuCache.entry Placement.entries
  rw [shown.index]
  cases there : place key with
  | none => rfl
  | some pair =>
    show (s.segment pair.1).get key = some pair.2
    rw [shown.held, there]
    exact if_pos rfl

theorem place_of_get (found : (s.segment seg).get key = some held) :
    place key = some (seg, held) := by
  rw [shown.held] at found
  obtain ⟨there, here, same⟩ := Option.bind_eq_some_iff.mp found
  split_ifs at same with place'
  cases same
  rw [here, ← place']

variable (there : place key = some (seg, held))

include there in
theorem get_of_place :
    (s.segment seg).get key = some held := by
  rw [shown.held, there]
  exact if_pos rfl

theorem change {s' : WTinyLfuCache κ V} (there : Option (CacheSegment × CacheEntry V))
    (index : ∀ other, s'.segmentIndex.get other = if other = key then there.map Prod.fst else s.segmentIndex.get other)
    (held : ∀ seg other, (s'.segment seg).get other = if other = key then there.bind fun at' => if at'.1 = seg then some at'.2 else none else (s.segment seg).get other) :
    s'.Shows (update place key there) where
  index other := by
    rw [index, shown.index]
    by_cases same : other = key
    · rw [if_pos same, same, update_self]
    · rw [if_neg same, update_of_ne same]
  held seg other := by
    rw [held, shown.held]
    by_cases same : other = key
    · rw [if_pos same, same, update_self]
    · rw [if_neg same, update_of_ne same]

include there in
theorem get_key (other : CacheSegment) :
    (s.segment other).get key = if seg = other then some held else none := by
  rw [shown.held, there]
  rfl

theorem add (absent : place key = none) (seg : CacheSegment) (new : CacheEntry V) :
    ((s.route key seg).pushTo seg key new).Shows (update place key (some (seg, new))) := by
  have nowhere : ∀ seg', (s.segment seg').get key = none := fun seg' => by
    rw [shown.held, absent]
    rfl
  refine shown.change (some (seg, new)) (fun other => ?_) fun seg' other => ?_
  · rw [segmentIndex_pushTo, get_route]
    rfl
  · rw [get_pushTo, segment_route]
    grind

include there

theorem move (goal : CacheSegment) :
    (((s.dropFrom seg key).route key goal).pushTo goal key held).Shows
      (update place key (some (goal, held))) := by
  refine shown.change (some (goal, held)) (fun other => ?_) fun seg' other => ?_
  · rw [segmentIndex_pushTo, get_route, segmentIndex_dropFrom]
    rfl
  · rw [get_pushTo, segment_route, get_dropFrom]
    grind [shown.get_key there]

theorem delete :
    ((s.dropFrom seg key).unroute key).Shows (update place key none) := by
  refine shown.change none (fun other => ?_) fun seg' other => ?_
  · rw [get_unroute, segmentIndex_dropFrom]
    rfl
  · rw [segment_unroute, get_dropFrom]
    grind [shown.get_key there]

theorem assign (new : CacheEntry V) :
    (s.pushTo seg key new).Shows (update place key (some (seg, new))) := by
  refine shown.change (some (seg, new)) (fun other => ?_) fun seg' other => ?_
  · rw [segmentIndex_pushTo]
    grind [shown.index key]
  · rw [get_pushTo]
    grind [shown.get_key there]

theorem refresh :
    ((s.dropFrom seg key).pushTo seg key held).Shows place := by
  have same : update place key (some (seg, held)) = place :=
    update_eq_self_iff.mpr there.symm
  rw [← same]
  refine shown.change (some (seg, held)) (fun other => ?_) fun seg' other => ?_
  · rw [segmentIndex_pushTo, segmentIndex_dropFrom]
    grind [shown.index key]
  · rw [get_pushTo, get_dropFrom]
    grind [shown.get_key there]

omit there

theorem of_same {s' : WTinyLfuCache κ V} (index : s'.segmentIndex = s.segmentIndex)
    (window : s'.window = s.window) (probation : s'.probation = s.probation)
    (protectedSeg : s'.protectedSeg = s.protectedSeg) : s'.Shows place where
  index key := by rw [index, shown.index]
  held seg key := by
    rw [← shown.held]
    cases seg with
    | window => exact congrArg (LinkedMap.get · key) window
    | probation => exact congrArg (LinkedMap.get · key) probation
    | protectedSeg => exact congrArg (LinkedMap.get · key) protectedSeg

end WTinyLfuCache.Shows

end

/-! ### What the operations do to the picture -/

section

variable [DecidableEq κ] {s : WTinyLfuCache κ V} {place : Placement κ V} {key : κ} {seg : CacheSegment}
  {held : CacheEntry V}

variable (shown : s.Shows place)

include shown in
theorem promoteIn_shows (seg : CacheSegment) (key : κ) :
    (s.promoteIn seg key).Shows place := by
  unfold promoteIn
  cases found : (s.segment seg).get key with
  | none => exact shown
  | some held => exact shown.refresh (shown.place_of_get found)

def WTinyLfuCache.Holds (s : WTinyLfuCache κ V) (entries : Ledger κ V) : Prop :=
  ∃ place, s.Shows place ∧ place.entries = entries

theorem entries_move (there : place key = some (seg, held)) (goal : CacheSegment) :
    Placement.entries (update place key (some (goal, held))) = place.entries := by
  rw [entries_update]
  refine update_eq_self_iff.mpr ?_
  unfold Placement.entries
  rw [there]
  rfl

include shown

theorem demote_holds : s.demote.Holds place.entries := by
  unfold demote
  split_ifs
  · rcases s.protectedSeg.popFront_cases with ⟨_, popped, _⟩ | ⟨oldest, held, _, found, popped⟩
    · rw [popped]
      exact ⟨place, shown, rfl⟩
    · rw [popped]
      have there : place oldest = some (.protectedSeg, held) :=
        shown.place_of_get (show (s.segment .protectedSeg).get oldest = some held from found)
      exact ⟨_, shown.move there .probation, entries_move there .probation⟩
  · exact ⟨place, shown, rfl⟩

theorem promoteProbationToProtected_holds (key : κ) :
    (s.promoteProbationToProtected key).Holds place.entries := by
  unfold promoteProbationToProtected
  cases found : s.probation.get key with
  | none => exact ⟨place, shown, rfl⟩
  | some held =>
    have there : place key = some (.probation, held) :=
      shown.place_of_get (show (s.segment .probation).get key = some held from found)
    rw [← entries_move there .protectedSeg]
    exact demote_holds (shown.move there .protectedSeg)

theorem popSegment_cases (seg : CacheSegment) :
    s.popSegment seg = (none, s) ∨
      ∃ oldest held s', place oldest = some (seg, held) ∧ s.popSegment seg = (some (oldest, held), s') ∧
        s'.Shows (update place oldest none) := by
  unfold popSegment
  rcases (s.segment seg).popFront_cases with ⟨_, popped, _⟩ | ⟨oldest, held, _, found, popped⟩
  · rw [popped]
    exact Or.inl rfl
  · rw [popped]
    have there := shown.place_of_get found
    exact Or.inr ⟨oldest, held, _, there, rfl, shown.delete there⟩

theorem popSegment_below (seg : CacheSegment) :
    ∃ place', (s.popSegment seg).2.Shows place' ∧ Below place'.entries place.entries ∧
      ∀ key, place key = none → place' key = none := by
  rcases popSegment_cases shown seg with popped | ⟨oldest, held, s', _, popped, shown'⟩
  · rw [popped]
    exact ⟨place, shown, Below.refl _, fun _ absent => absent⟩
  · rw [popped]
    refine ⟨_, shown', ?_, fun key absent => ?_⟩
    · rw [entries_update]
      exact below_update_none _ oldest
    · by_cases same : key = oldest
      · rw [same, update_self]
      · rw [update_of_ne same, absent]

theorem admitCandidate_below (absent : place key = none) (new : CacheEntry V) :
    ∃ place', ((s.popSegment .probation).2.admitCandidate key new).Shows place' ∧
      Below place'.entries (update place.entries key (some new)) := by
  obtain ⟨without, shown', below, gone⟩ := popSegment_below shown .probation
  refine ⟨_, shown'.add (gone key absent) .probation new, ?_⟩
  rw [entries_update]
  exact below.update key _

theorem runAdmissionGate_below [HashInput κ] (absent : place key = none) (new : CacheEntry V) :
    ∃ place', (s.runAdmissionGate key new).2.Shows place' ∧
      Below place'.entries (update place.entries key (some new)) := by
  have dropped : Below place.entries (update place.entries key (some new)) := by
    intro other held found
    have different : other ≠ key := by
      rintro rfl
      unfold Placement.entries at found
      simp [absent] at found
    rw [update_of_ne different]
    exact found
  unfold runAdmissionGate
  split_ifs with room
  · refine ⟨_, shown.add absent .probation new, ?_⟩
    rw [entries_update]
    exact Below.refl _
  · split
    · exact ⟨place, shown, dropped⟩
    · split
      · -- the state of the generator is not in the picture
        have thrown : Shows { s with rng := xorshift64 s.rng } place :=
          shown.of_same rfl rfl rfl rfl
        dsimp only
        split_ifs with more tie wins
        · exact admitCandidate_below shown absent new
        · exact admitCandidate_below thrown absent new
        · exact ⟨place, thrown, dropped⟩
        · exact ⟨place, shown, dropped⟩
      · exact ⟨place, shown, dropped⟩

omit shown

omit [DecidableEq κ] in
theorem recordAccess_cases [HashInput κ] (s : WTinyLfuCache κ V) (key : κ) : ∃ returns sketch doorkeeper,
    s.recordAccess key = (returns, { s with sketch := sketch, doorkeeper := doorkeeper }) ∧
      (s.sketch.Sized → sketch.Sized ∧ returns = true) ∧
      (s.sketch.Short → sketch.Short ∧ returns = !(s.doorkeeper.put (keyBytes key)).1) := by
  unfold recordAccess
  dsimp only
  split_ifs with seen
  · cases counted : s.sketch.increment (keyBytes key) with
    | some sketch =>
      refine ⟨true, sketch, _, rfl, fun sized => ?_, fun short => ?_⟩
      · obtain ⟨_, same, sized'⟩ := sized.increment (keyBytes key)
        cases counted.symm.trans same
        exact ⟨sized', rfl⟩
      · rw [(short.panics _).1] at counted
        cases counted
    | none =>
      refine ⟨false, _, _, rfl, fun sized => ?_, fun short => ⟨short.cutShort _, by rw [seen]; rfl⟩⟩
      obtain ⟨_, same, _⟩ := sized.increment (keyBytes key)
      cases counted.symm.trans same
  · exact ⟨true, s.sketch, _, rfl, fun sized => ⟨sized, rfl⟩, fun short => ⟨short, by simp [seen]⟩⟩

include shown

theorem assign_shows (there : place key = some (seg, held)) (new : CacheEntry V) :
    (s.assign seg key new).Shows (update place key (some (seg, new))) := by
  unfold assign
  rw [if_pos (LinkedMap.contains_of_get (shown.get_of_place there))]
  exact shown.assign there new

theorem WTinyLfuCache.Shows.place_of_index (routed : s.segmentIndex.get key = some seg) :
    ∃ held, place key = some (seg, held) := by
  rw [shown.index] at routed
  obtain ⟨⟨seg', held⟩, there, rfl⟩ := Option.map_eq_some_iff.mp routed
  exact ⟨held, there⟩

theorem WTinyLfuCache.Shows.place_none (absent : s.segmentIndex.get key = none) :
    place key = none := by
  rw [shown.index] at absent
  exact Option.map_eq_none_iff.mp absent

theorem tinyLfu_insertEntry_below [HashInput κ] (key : κ) (new : CacheEntry V) :
    ∃ place', (insertEntry key new s).2.Shows place' ∧
      (s.sketch.Sized → Below place'.entries (update place.entries key (some new))) := by
  obtain ⟨returns, sketch, doorkeeper, access, whole, _⟩ := recordAccess_cases s key
  have recorded : Shows { s with sketch := sketch, doorkeeper := doorkeeper } place :=
    shown.of_same rfl rfl rfl rfl
  have updated : ∀ seg, Placement.entries (update place key (some (seg, new))) =
      update place.entries key (some new) := fun seg => entries_update place key _
  unfold insertEntry insertEntryOrPanic
  rw [access]
  cases returns with
  | false => exact ⟨place, recorded, fun sized => Bool.noConfusion (whole sized).2⟩
  | true =>
    cases routed : s.segmentIndex.get key with
    | some seg =>
      obtain ⟨held, there⟩ := shown.place_of_index routed
      have assigned := assign_shows recorded there new
      cases seg with
      | window => exact ⟨_, promoteIn_shows assigned .window key, fun _ => updated .window ▸ Below.refl _⟩
      | protectedSeg =>
        exact ⟨_, promoteIn_shows assigned .protectedSeg key, fun _ => updated .protectedSeg ▸ Below.refl _⟩
      | probation =>
        obtain ⟨place', shown', entries⟩ := promoteProbationToProtected_holds assigned key
        refine ⟨place', shown', fun _ => ?_⟩
        rw [entries, updated]
        exact Below.refl _
    | none =>
      have added := recorded.add (shown.place_none routed) .window new
      dsimp only
      unfold evictFromWindowIfOverCap
      split_ifs
      · rcases popSegment_cases added .window with popped | ⟨oldest, held, s', there, popped, shown'⟩
        · rw [popped]
          exact ⟨_, added, fun _ => updated .window ▸ Below.refl _⟩
        · rw [popped]
          obtain ⟨place', shown'', below⟩ := runAdmissionGate_below shown' (update_self ..) held
          -- the candidate comes back with the entry it had
          have back := entries_move there .probation
          rw [entries_update] at back
          rw [entries_update _ oldest, Option.map_none, update_idem] at below
          exact ⟨place', shown'', fun _ => (back.trans (updated .window)) ▸ below⟩
      · exact ⟨_, added, fun _ => updated .window ▸ Below.refl _⟩

omit shown

theorem dropFrom_unroute (s : WTinyLfuCache κ V) (seg : CacheSegment) (key : κ) :
    (s.unroute key).dropFrom seg key = (s.dropFrom seg key).unroute key := by
  cases seg <;> rfl

theorem WTinyLfuCache.Holds.get_cases {entries : Ledger κ V} (holds : s.Holds entries)
    (here : entries key = some held) (seg : CacheSegment) :
    (s.segment seg).get key = none ∨ (s.segment seg).get key = some held := by
  obtain ⟨place, shown, same⟩ := holds
  cases found : (s.segment seg).get key with
  | none => exact Or.inl rfl
  | some held' =>
    rw [← same, Placement.entries, shown.place_of_get found] at here
    exact Or.inr here

include shown

theorem tinyLfu_get_cases [HashInput κ] (now : Instant) (key : κ) :
    (∃ place', (WTinyLfuCache.get now key s).2.Shows place' ∧ (WTinyLfuCache.get now key s).1 = none ∧
      place'.entries = update place.entries key none) ∨
      ∃ held, place.entries key = some held ∧ held.isExpired now = false ∧
        (WTinyLfuCache.get now key s).2.Holds place.entries ∧
        ((WTinyLfuCache.get now key s).1 = none ∨ (WTinyLfuCache.get now key s).1 = some held.value) := by
  unfold WTinyLfuCache.get getOrPanic removeIfExpired
  cases routed : s.segmentIndex.get key with
  | none =>
    have absent : place.entries key = none := by rw [Placement.entries, shown.place_none routed]; rfl
    simp only [routed]
    exact Or.inl ⟨place, shown, rfl, (update_eq_self_iff.mpr absent.symm).symm⟩
  | some seg =>
    obtain ⟨held, there⟩ := shown.place_of_index routed
    obtain ⟨returns, sketch, doorkeeper, access, _, _⟩ := recordAccess_cases s key
    have recorded : Shows { s with sketch := sketch, doorkeeper := doorkeeper } place :=
      shown.of_same rfl rfl rfl rfl
    dsimp only
    rw [shown.get_of_place there]
    cases expired : held.isExpired now with
    | true =>
      simp only [Option.any_some, expired, if_true]
      rw [dropFrom_unroute]
      exact Or.inl ⟨_, shown.delete there, rfl, entries_update place key none⟩
    | false =>
      have here : place.entries key = some held := by rw [Placement.entries, there]; rfl
      have reads : ∀ {s' : WTinyLfuCache κ V} (seg : CacheSegment), s'.Holds place.entries →
          s'.Holds place.entries ∧ (((s'.segment seg).get key).map CacheEntry.value = none ∨
            ((s'.segment seg).get key).map CacheEntry.value = some held.value) := by
        intro s' seg holds
        refine ⟨holds, ?_⟩
        rcases holds.get_cases here seg with found | found
        · exact Or.inl (by rw [found]; rfl)
        · exact Or.inr (by rw [found]; rfl)
      simp only [Option.any_some, expired, Bool.false_eq_true, if_false, routed, access]
      refine Or.inr ⟨held, here, expired, ?_⟩
      cases returns with
      | false => exact ⟨⟨place, recorded, rfl⟩, .inl (by cases seg <;> rfl)⟩
      | true => cases seg with
        | window => exact reads .window ⟨place, promoteIn_shows recorded .window key, rfl⟩
        | protectedSeg => exact reads .protectedSeg ⟨place, promoteIn_shows recorded .protectedSeg key, rfl⟩
        | probation => exact reads .protectedSeg (promoteProbationToProtected_holds recorded key)

theorem tinyLfu_get_others [HashInput κ] (now : Instant) {key other : κ} (different : other ≠ key) :
    (WTinyLfuCache.get now key s).2.entry other = s.entry other := by
  rw [shown.entry]
  rcases tinyLfu_get_cases shown now key with ⟨place', shown', _, entries⟩ | ⟨held, _, _, holds, _⟩
  · rw [shown'.entry, entries, update_of_ne different]
  · obtain ⟨place', shown', entries⟩ := holds
    rw [shown'.entry, entries]

theorem tinyLfu_remove_holds (key : κ) :
    (remove key s).2.Holds (update place.entries key none) := by
  unfold remove
  cases routed : s.segmentIndex.get key with
  | none =>
    have absent : place.entries key = none := by rw [Placement.entries, shown.place_none routed]; rfl
    exact ⟨place, shown, (update_eq_self_iff.mpr absent.symm).symm⟩
  | some seg =>
    obtain ⟨held, there⟩ := shown.place_of_index routed
    dsimp only
    rw [dropFrom_unroute]
    exact ⟨_, shown.delete there, entries_update place key none⟩

omit shown

theorem empty_shows (s : WTinyLfuCache κ V) (index : s.segmentIndex = ∅) (window : s.window = ∅)
    (probation : s.probation = ∅) (protectedSeg : s.protectedSeg = ∅) : s.Shows fun _ => none where
  index key := by rw [index, LinkedMap.get_empty]; rfl
  held seg key := by
    have empty : s.segment seg = ∅ := by
      cases seg with
      | window => exact window
      | probation => exact probation
      | protectedSeg => exact protectedSeg
    rw [empty, LinkedMap.get_empty]
    rfl

include shown

theorem rounds_pop_below {test : WTinyLfuCache κ V → Bool} {n : ℕ} {s' : WTinyLfuCache κ V}
    (seg : CacheSegment) (ends : WhileLoop.rounds test (fun s => (s.popSegment seg).2) n s = some s') :
    ∃ place', s'.Shows place' ∧ Below place'.entries place.entries := by
  refine (WhileLoop.rounds_invariant
    (fun after : WTinyLfuCache κ V => ∃ place', after.Shows place' ∧ Below place'.entries place.entries)
    (fun after held _ => ?_) ⟨place, shown, Below.refl _⟩ ends).1
  obtain ⟨place', shown', below⟩ := held
  obtain ⟨place'', shown'', below', _⟩ := popSegment_below shown' seg
  exact ⟨place'', shown'', below'.trans below⟩

theorem tinyLfu_resize_below {newCap : ℕ} {s' : WTinyLfuCache κ V} (ends : resize newCap s = some s') :
    ∃ place', s'.Shows place' ∧ Below place'.entries place.entries := by
  have resized : (s.setCap newCap).Shows place := shown.of_same rfl rfl rfl rfl
  unfold resize at ends
  obtain ⟨first, done, ends⟩ := Option.bind_eq_some_iff.mp ends
  obtain ⟨second, done', ends⟩ := Option.bind_eq_some_iff.mp ends
  obtain ⟨place₁, shown₁, below₁⟩ := rounds_pop_below resized .window done
  obtain ⟨place₂, shown₂, below₂⟩ := rounds_pop_below shown₁ .protectedSeg done'
  obtain ⟨place₃, shown₃, below₃⟩ := rounds_pop_below shown₂ .probation ends
  exact ⟨place₃, shown₃, below₃.trans (below₂.trans below₁)⟩

omit shown

theorem tinyLfu_lawful [HashInput κ] : (cache : Cache κ V (WTinyLfuCache κ V)).Lawful
    insertEntry (fun s => ∃ place, s.Shows place) WTinyLfuCache.entry fun s _ => s.sketch.Sized where
  reads s now key value valid found := by
    obtain ⟨place, shown⟩ := valid
    rcases found with got | peeked
    · have got' : (WTinyLfuCache.get now key s).1 = some value := got
      rw [shown.entry]
      rcases tinyLfu_get_cases shown now key with ⟨_, _, missed, _⟩ | ⟨held, here, fresh, _, missed | hit⟩
      · simp [missed] at got'
      · simp [missed] at got'
      · rw [hit] at got'
        cases got'
        exact ⟨held, here, CacheEntry.live_eq_some.mpr ⟨fresh, rfl⟩⟩
    · exact Option.bind_eq_some_iff.mp peeked
  contains s now key _ present := by
    obtain ⟨held, here, fresh⟩ := (Option.any_eq_true _ _).mp present
    exact ⟨held, held.value, here, CacheEntry.live_eq_some.mpr ⟨(Bool.not_eq_true' _).mp fresh, rfl⟩⟩
  get s now key valid := by
    obtain ⟨place, shown⟩ := valid
    rw [shown.entry]
    show (∃ place', (WTinyLfuCache.get now key s).2.Shows place') ∧
      Below (WTinyLfuCache.get now key s).2.entry place.entries
    rcases tinyLfu_get_cases shown now key with ⟨place', shown', _, entries⟩ | ⟨_, _, _, holds, _⟩
    · rw [shown'.entry, entries]
      exact ⟨⟨place', shown'⟩, below_update_none _ key⟩
    · obtain ⟨place', shown', entries⟩ := holds
      rw [shown'.entry, entries]
      exact ⟨⟨place', shown'⟩, Below.refl _⟩
  put _ _ _ := rfl
  putWithTtl _ _ _ _ _ := rfl
  insert s key new valid := by
    obtain ⟨place, shown⟩ := valid
    obtain ⟨place', shown', below⟩ := tinyLfu_insertEntry_below shown key new
    rw [shown.entry, shown'.entry]
    exact ⟨⟨place', shown'⟩, below⟩
  remove s key valid := by
    obtain ⟨place, shown⟩ := valid
    obtain ⟨place', shown', entries⟩ := tinyLfu_remove_holds shown key
    show (∃ place', (remove key s).2.Shows place') ∧
      Below (remove key s).2.entry _
    rw [shown.entry, shown'.entry, entries]
    exact ⟨⟨place', shown'⟩, Below.refl _⟩
  clear s _ := by
    have shown : s.clear.Shows fun _ => none := empty_shows _ rfl rfl rfl rfl
    refine ⟨⟨_, shown⟩, fun key => ?_⟩
    show s.clear.entry key = none
    rw [shown.entry]
    rfl
  resize s newCap s' valid ends := by
    obtain ⟨place, shown⟩ := valid
    obtain ⟨place', shown', below⟩ := tinyLfu_resize_below shown ends
    rw [shown.entry, shown'.entry]
    exact ⟨⟨place', shown'⟩, below⟩

end

end OxiStore.Caching
