/-
**`ArcCache`.**
-/

import OxiStore.Cache.Trait

namespace OxiStore.Caching

open StepProg Function LinkedMap

structure ArcCache (κ V : Type) where
  t1 : LinkedMap κ (CacheEntry V)
  t2 : LinkedMap κ (CacheEntry V)
  b1 : LinkedMap κ Unit
  b2 : LinkedMap κ Unit
  p : ℕ
  cap : ℕ

variable {κ V : Type}

namespace ArcCache

def new (cap : ℕ) : ArcCache κ V := ⟨∅, ∅, ∅, ∅, 0, max cap 1⟩

def len (s : ArcCache κ V) : ℕ := s.t1.len + s.t2.len

def directoryLen (s : ArcCache κ V) : ℕ := s.t1.len + s.t2.len + s.b1.len + s.b2.len

variable [DecidableEq κ]

def evictT1 (s : ArcCache κ V) : ArcCache κ V :=
  match s.t1.popFront with
  | (none, _) => s
  | (some (k, _), t1) =>
      let b1 := if 2 * s.cap ≤ directoryLen { s with t1 := t1 } then s.b1.popFront.2 else s.b1
      { s with t1 := t1, b1 := b1.insert k () }

def evictT2 (s : ArcCache κ V) : ArcCache κ V :=
  match s.t2.popFront with
  | (none, _) => s
  | (some (k, _), t2) =>
      let b2 := if 2 * s.cap ≤ directoryLen { s with t2 := t2 } then s.b2.popFront.2 else s.b2
      { s with t2 := t2, b2 := b2.insert k () }

def replace (s : ArcCache κ V) : ArcCache κ V :=
  if max s.p 1 ≤ s.t1.len ∧ 1 ≤ s.t1.len then s.evictT1
  else if s.t2.len ≠ 0 then s.evictT2
  else if s.t1.len ≠ 0 then s.evictT1
  else s

omit [DecidableEq κ] in
def adaptUp (s : ArcCache κ V) : ArcCache κ V :=
  { s with p := min (s.p + max (s.b2.len / max s.b1.len 1) 1) s.cap }

omit [DecidableEq κ] in
def adaptDown (s : ArcCache κ V) : ArcCache κ V :=
  { s with p := s.p - max (s.b1.len / max s.b2.len 1) 1 }

def replaceIfFull (s : ArcCache κ V) : ArcCache κ V := if s.cap ≤ s.len then s.replace else s

def makeRoom (s : ArcCache κ V) : ArcCache κ V :=
  if s.len < s.cap then
    if s.cap ≤ s.directoryLen ∧ 2 * s.cap ≤ s.directoryLen then
      if s.b2.len ≠ 0 then { s with b2 := s.b2.popFront.2 } else { s with b1 := s.b1.popFront.2 }
    else s
  else if s.t1.len + s.b1.len = s.cap then
    if s.t1.len ≠ 0 then s.replace else { s with b1 := s.b1.popFront.2 }
  else if 2 * s.cap ≤ s.directoryLen then
    if s.b2.len ≠ 0 then replace { s with b2 := s.b2.popFront.2 }
    else if s.b1.len ≠ 0 then replace { s with b1 := s.b1.popFront.2 }
    else s.replace
  else s.replace

def insertEntry (key : κ) (entry : CacheEntry V) (s : ArcCache κ V) : Option V × ArcCache κ V :=
  match s.t1.get key with
  | some old => (some old.value, { s with t1 := s.t1.erase key, t2 := s.t2.insert key entry })
  | none =>
      match s.t2.get key with
      | some old => (some old.value, { s with t2 := s.t2.insert key entry })
      | none =>
          if s.b1.contains key then
            let s := replaceIfFull (adaptUp { s with b1 := s.b1.erase key })
            (none, { s with t2 := s.t2.insert key entry })
          else if s.b2.contains key then
            let s := replaceIfFull (adaptDown { s with b2 := s.b2.erase key })
            (none, { s with t2 := s.t2.insert key entry })
          else
            let s := s.makeRoom
            (none, { s with t1 := s.t1.insert key entry })

def get (now : Instant) (key : κ) (s : ArcCache κ V) : Option V × ArcCache κ V :=
  match s.t1.get key with
  | some entry =>
      if entry.isExpired now then (none, { s with t1 := s.t1.erase key })
      else (some entry.value, { s with t1 := s.t1.erase key, t2 := s.t2.insert key entry })
  | none =>
      match s.t2.get key with
      | some entry =>
          if entry.isExpired now then (none, { s with t2 := s.t2.erase key })
          else (some entry.value, { s with t2 := (s.t2.erase key).insert key entry })
      | none =>
          if s.b1.contains key then (none, replace (adaptUp s))
          else if s.b2.contains key then (none, replace (adaptDown s))
          else (none, s)

def put (key : κ) (value : V) (s : ArcCache κ V) : Option V × ArcCache κ V := insertEntry key (.new value) s

def putWithTtl (now : Instant) (key : κ) (value : V) (ttl : Duration) (s : ArcCache κ V) :
    Option (Option V × ArcCache κ V) := insertWithTtl insertEntry now key value ttl s

def peek (now : Instant) (key : κ) (s : ArcCache κ V) : Option V :=
  match (s.t1.get key).bind (·.live now) with
  | some value => some value
  | none => (s.t2.get key).bind (·.live now)

def containsKey (now : Instant) (key : κ) (s : ArcCache κ V) : Bool :=
  (s.t1.get key).any (fun entry => !entry.isExpired now) ||
    (s.t2.get key).any (fun entry => !entry.isExpired now)

def remove (key : κ) (s : ArcCache κ V) : Option V × ArcCache κ V :=
  match s.t1.get key with
  | some entry => (some entry.value, { s with t1 := s.t1.erase key })
  | none =>
      match s.t2.get key with
      | some entry => (some entry.value, { s with t2 := s.t2.erase key })
      | none => (none, { s with b1 := s.b1.erase key, b2 := s.b2.erase key })

omit [DecidableEq κ] in
def clear (s : ArcCache κ V) : ArcCache κ V := ⟨∅, ∅, ∅, ∅, 0, s.cap⟩

def resize (newCap : ℕ) (s : ArcCache κ V) : Option (ArcCache κ V) :=
  WhileLoop.rounds (fun s : ArcCache κ V => s.cap < s.len) replace s.len
    { s with cap := max newCap 1, p := min s.p (max newCap 1) }

def cache : Cache κ V (ArcCache κ V) where
  get := get
  put := put
  putWithTtl := putWithTtl
  len := len
  cap s := s.cap
  remove := remove
  clear := clear
  peek := peek
  containsKey := containsKey
  resize := resize

def entry (s : ArcCache κ V) : Ledger κ V := fun key => (s.t1.get key).or (s.t2.get key)

def Apart (s : ArcCache κ V) : Prop := ∀ key, s.t1.contains key = true → s.t2.get key = none

def victim (s : ArcCache κ V) : Option (κ × CacheEntry V) :=
  if max s.p 1 ≤ s.t1.len ∧ 1 ≤ s.t1.len then s.t1.front
  else if s.t2.len ≠ 0 then s.t2.front
  else s.t1.front

end ArcCache

open ArcCache

section

variable [DecidableEq κ] {s s' : ArcCache κ V} {key : κ} {held : CacheEntry V}

theorem ArcCache.Apart.t2_none (apart : s.Apart) (here : s.t1.get key = some held) : s.t2.get key = none :=
  apart key (contains_of_get here)

theorem ArcCache.Apart.t1_none (apart : s.Apart) (here : s.t2.get key = some held) : s.t1.get key = none := by
  cases there : s.t1.get key with
  | none => rfl
  | some other => simp [apart.t2_none there] at here

/-- **One entry is evicted**, and nothing else happens to the entries. -/
structure ArcCache.Evicts (s : ArcCache κ V) (key : κ) (held : CacheEntry V) (s' : ArcCache κ V) : Prop where
  held : s.entry key = some held
  entries : s'.entry = Function.update s.entry key none
  apart : s'.Apart
  len : s'.len + 1 = s.len
  cap : s'.cap = s.cap
  p : s'.p = s.p

theorem evicts_t1 (apart : s.Apart) (here : s.t1.get key = some held) (b1 : LinkedMap κ Unit) :
    s.Evicts key held { s with t1 := s.t1.erase key, b1 := b1 } where
  held := by
    unfold ArcCache.entry
    rw [here]
    rfl
  entries := by
    funext other
    show ((s.t1.erase key).get other).or (s.t2.get other) = _
    rw [get_erase]
    by_cases same : other = key
    · grind [ArcCache.Apart.t2_none]
    · rw [if_neg same, update_of_ne same]
      rfl
  apart := by
    intro other inside
    refine apart other ?_
    unfold contains at inside ⊢
    rw [get_erase] at inside
    split_ifs at inside
    · cases inside
    · exact inside
  len := by
    have shorter := len_erase_add_one (contains_of_get here)
    show (s.t1.erase key).len + s.t2.len + 1 = s.t1.len + s.t2.len
    omega
  cap := rfl
  p := rfl

theorem evicts_t2 (apart : s.Apart) (here : s.t2.get key = some held) (b2 : LinkedMap κ Unit) :
    s.Evicts key held { s with t2 := s.t2.erase key, b2 := b2 } where
  held := by
    unfold ArcCache.entry
    rw [apart.t1_none here, here]
    rfl
  entries := by
    funext other
    show (s.t1.get other).or ((s.t2.erase key).get other) = _
    rw [get_erase]
    by_cases same : other = key
    · grind [ArcCache.Apart.t1_none]
    · rw [if_neg same, update_of_ne same]
      rfl
  apart := by
    intro other inside
    rw [get_erase, apart other inside]
    exact ite_self none
  len := by
    have shorter := len_erase_add_one (contains_of_get here)
    show s.t1.len + (s.t2.erase key).len + 1 = s.t1.len + s.t2.len
    omega
  cap := rfl
  p := rfl

theorem evictT1_cases (apart : s.Apart) :
    (s.t1.front = none ∧ s.t1.len = 0 ∧ s.evictT1 = s) ∨
      ∃ key held, s.t1.front = some (key, held) ∧ s.Evicts key held s.evictT1 := by
  unfold evictT1
  rcases s.t1.popFront_cases with ⟨none', popped, empty⟩ | ⟨key, held, oldest, here, popped⟩
  · grind
  · rw [popped]
    exact Or.inr ⟨key, held, oldest, evicts_t1 apart here _⟩

theorem evictT2_cases (apart : s.Apart) :
    (s.t2.front = none ∧ s.t2.len = 0 ∧ s.evictT2 = s) ∨
      ∃ key held, s.t2.front = some (key, held) ∧ s.Evicts key held s.evictT2 := by
  unfold evictT2
  rcases s.t2.popFront_cases with ⟨none', popped, empty⟩ | ⟨key, held, oldest, here, popped⟩
  · grind
  · rw [popped]
    exact Or.inr ⟨key, held, oldest, evicts_t2 apart here _⟩

theorem replace_cases (apart : s.Apart) :
    (s.len = 0 ∧ s.victim = none ∧ s.replace = s) ∨
      ∃ key held, s.victim = some (key, held) ∧ s.Evicts key held s.replace := by
  unfold replace victim ArcCache.len
  by_cases recent : max s.p 1 ≤ s.t1.len ∧ 1 ≤ s.t1.len
  · rw [if_pos recent, if_pos recent]
    rcases evictT1_cases apart with ⟨_, empty, _⟩ | evicts
    · omega
    · exact Or.inr evicts
  · rw [if_neg recent, if_neg recent]
    by_cases frequent : s.t2.len ≠ 0
    · rw [if_pos frequent, if_pos frequent]
      rcases evictT2_cases apart with ⟨_, empty, _⟩ | evicts
      · exact absurd empty frequent
      · exact Or.inr evicts
    · rw [if_neg frequent, if_neg frequent]
      rcases evictT1_cases apart with ⟨none', empty, _⟩ | ⟨key, held, oldest, evicts⟩
      · grind
      · have some' : s.t1.len ≠ 0 := by
          intro empty
          have := evicts.len
          unfold ArcCache.len at this
          omega
        rw [if_pos some']
        exact Or.inr ⟨key, held, oldest, evicts⟩

end

/-! ### Insertions -/

section

variable [DecidableEq κ] {s s' s'' : ArcCache κ V} {key : κ}

theorem entry_none_iff : s.entry key = none ↔ s.t1.get key = none ∧ s.t2.get key = none := by
  exact Option.or_eq_none_iff

/-- **Room is made**: no entry is added, and the capacity stays. -/
structure ArcCache.Shrinks (s s' : ArcCache κ V) : Prop where
  below : Below s'.entry s.entry
  apart : s'.Apart
  cap : s'.cap = s.cap

variable (apart : s.Apart)

include apart in
theorem ArcCache.Apart.shrinks (b1 b2 : LinkedMap κ Unit) (p : ℕ) :
    s.Shrinks { s with b1 := b1, b2 := b2, p := p } := ⟨Below.refl _, apart, rfl⟩

theorem ArcCache.Evicts.shrinks {held : CacheEntry V} (evicts : s.Evicts key held s') : s.Shrinks s' where
  below := by
    rw [evicts.entries]
    exact below_update_none _ key
  apart := evicts.apart
  cap := evicts.cap

theorem ArcCache.Shrinks.trans (first : s.Shrinks s') (second : s'.Shrinks s'') : s.Shrinks s'' :=
  ⟨second.below.trans first.below, second.apart, second.cap.trans first.cap⟩

include apart

theorem replace_shrinks : s.Shrinks s.replace := by
  rcases replace_cases apart with ⟨_, _, same⟩ | ⟨key, held, _, evicts⟩
  · rw [same]
    exact apart.shrinks s.b1 s.b2 s.p
  · exact evicts.shrinks

theorem replace_len : s.replace.len = s.len - 1 := by
  rcases replace_cases apart with ⟨empty, _, same⟩ | ⟨key, held, _, evicts⟩
  · rw [same]
    omega
  · have := evicts.len
    omega

omit apart

theorem ArcCache.Shrinks.entry_none (shrinks : s.Shrinks s') (absent : s.entry key = none) :
    s'.entry key = none := by
  cases found : s'.entry key with
  | none => rfl
  | some entry => simp [shrinks.below key entry found] at absent

include apart

theorem replaceIfFull_spec :
    s.Shrinks s.replaceIfFull ∧ (1 ≤ s.cap → s.len ≤ s.cap → s.replaceIfFull.len < s.cap) := by
  unfold replaceIfFull
  split_ifs with full
  · grind [replace_shrinks, replace_len]
  · exact ⟨apart.shrinks s.b1 s.b2 s.p, fun _ _ => by omega⟩

theorem makeRoom_shrinks : s.Shrinks s.makeRoom := by
  unfold makeRoom
  split_ifs
  · exact apart.shrinks s.b1 _ s.p
  · exact apart.shrinks _ s.b2 s.p
  · exact apart.shrinks s.b1 s.b2 s.p
  · exact replace_shrinks apart
  · exact apart.shrinks _ s.b2 s.p
  · exact (apart.shrinks s.b1 _ s.p).trans (replace_shrinks apart)
  · exact (apart.shrinks _ s.b2 s.p).trans (replace_shrinks apart)
  · exact replace_shrinks apart
  · exact replace_shrinks apart

/-- **A put of a new key that finds the cache full, `t1` empty and `b1` at the capacity.** Nothing is
evicted for it. -/
def ArcCache.Crowded (s : ArcCache κ V) : Prop := s.cap ≤ s.len ∧ s.t1.len = 0 ∧ s.b1.len = s.cap

theorem makeRoom_len (positive : 1 ≤ s.cap) (within : s.len ≤ s.cap) :
    s.makeRoom.len < s.cap ↔ ¬ s.Crowded := by
  have evicted : ∀ b1 b2 : LinkedMap κ Unit,
      (replace { s with b1 := b1, b2 := b2 }).len = s.len - 1 :=
    fun b1 b2 => replace_len (apart.shrinks b1 b2 s.p).apart
  unfold makeRoom Crowded
  split_ifs with room full ghosts balance recent full ghosts ghosts'
  · exact iff_of_true room (by omega)
  · exact iff_of_true room (by omega)
  · exact iff_of_true room (by omega)
  · rw [evicted s.b1 s.b2]
    exact iff_of_true (by omega) (by omega)
  · exact iff_of_false room (by omega)
  · grind
  · grind
  · rw [evicted s.b1 s.b2]
    exact iff_of_true (by omega) (by omega)
  · rw [evicted s.b1 s.b2]
    exact iff_of_true (by omega) (by omega)

theorem insert_t2 (absent : s.t1.get key = none) (new : CacheEntry V) :
    Apart { s with t2 := s.t2.insert key new } ∧
      ArcCache.entry { s with t2 := s.t2.insert key new } = update s.entry key (some new) := by
  constructor
  · intro other inside
    have apart' : other ≠ key := by grind [contains]
    rw [get_insert, if_neg apart', apart other inside]
  · funext other
    show (s.t1.get other).or ((s.t2.insert key new).get other) = _
    rw [get_insert]
    by_cases same : other = key
    · grind
    · rw [if_neg same, update_of_ne same]
      rfl

theorem insert_t1 (absent : s.t2.get key = none) (new : CacheEntry V) :
    Apart { s with t1 := s.t1.insert key new } ∧
      ArcCache.entry { s with t1 := s.t1.insert key new } = update s.entry key (some new) := by
  constructor
  · intro other inside
    by_cases same : other = key
    · grind
    · refine apart other ?_
      unfold contains at inside ⊢
      rwa [get_insert, if_neg same] at inside
  · funext other
    show ((s.t1.insert key new).get other).or (s.t2.get other) = _
    rw [get_insert]
    by_cases same : other = key
    · grind
    · rw [if_neg same, update_of_ne same]
      rfl

def ArcCache.Unknown (s : ArcCache κ V) (key : κ) : Prop :=
  s.entry key = none ∧ s.b1.contains key = false ∧ s.b2.contains key = false

theorem replaceIfFull_ghost (absent : s.entry key = none) (b1 b2 : LinkedMap κ Unit) (p : ℕ) :
    s.Shrinks (replaceIfFull { s with b1 := b1, b2 := b2, p := p }) ∧
      (replaceIfFull { s with b1 := b1, b2 := b2, p := p }).t1.get key = none ∧
      (1 ≤ s.cap → s.len ≤ s.cap →
        (replaceIfFull { s with b1 := b1, b2 := b2, p := p }).len < s.cap) := by
  have ghosts := apart.shrinks b1 b2 p
  obtain ⟨shrinks, room⟩ := replaceIfFull_spec ghosts.apart
  have both := ghosts.trans shrinks
  exact ⟨both, (entry_none_iff.mp (both.entry_none absent)).1, room⟩

theorem insertEntry_cases (key : κ) (new : CacheEntry V) :
    (¬ s.Unknown key ∧ ∃ middle : ArcCache κ V, s.Shrinks middle ∧ middle.t1.get key = none ∧
      (insertEntry key new s).2 = { middle with t2 := middle.t2.insert key new } ∧
      (1 ≤ s.cap → s.len ≤ s.cap → middle.len + (if middle.t2.contains key then 0 else 1) ≤ s.cap)) ∨
    (s.Unknown key ∧
      (insertEntry key new s).2 = { s.makeRoom with t1 := s.makeRoom.t1.insert key new }) := by
  have fits : ∀ {size : ℕ} (inside : Bool), size < s.cap → size + (if inside then 0 else 1) ≤ s.cap := by
    grind
  unfold insertEntry
  cases recent : s.t1.get key with
  | some old =>
    have evicts := evicts_t1 apart recent s.b1
    refine Or.inl ⟨fun unknown => ?_, _, evicts.shrinks, get_erase_self _ key, rfl,
      fun _ within => fits _ (by have := evicts.len; omega)⟩
    exact Option.some_ne_none _ (evicts.held.symm.trans unknown.1)
  | none =>
    cases frequent : s.t2.get key with
    | some old =>
      refine Or.inl ⟨fun unknown => ?_, s, apart.shrinks s.b1 s.b2 s.p, recent, rfl, fun _ within => ?_⟩
      · exact Option.some_ne_none _ (frequent.symm.trans (entry_none_iff.mp unknown.1).2)
      · grind [contains_of_get]
    | none =>
      have absent : s.entry key = none := entry_none_iff.mpr ⟨recent, frequent⟩
      split_ifs with first second
      · obtain ⟨shrinks, gone, room⟩ := replaceIfFull_ghost apart absent (s.b1.erase key) s.b2
          (min (s.p + max (s.b2.len / max (s.b1.erase key).len 1) 1) s.cap)
        refine Or.inl ⟨fun unknown => ?_, _, shrinks, gone, rfl,
          fun positive within => fits _ (room positive within)⟩
        exact Bool.noConfusion (first.symm.trans unknown.2.1)
      · obtain ⟨shrinks, gone, room⟩ := replaceIfFull_ghost apart absent s.b1 (s.b2.erase key)
          (s.p - max (s.b1.len / max (s.b2.erase key).len 1) 1)
        refine Or.inl ⟨fun unknown => ?_, _, shrinks, gone, rfl,
          fun positive within => fits _ (room positive within)⟩
        exact Bool.noConfusion (second.symm.trans unknown.2.2)
      · exact Or.inr ⟨⟨absent, (Bool.not_eq_true _).mp first, (Bool.not_eq_true _).mp second⟩, rfl⟩

theorem insertEntry_law (key : κ) (new : CacheEntry V) :
    (insertEntry key new s).2.Apart ∧ (insertEntry key new s).2.cap = s.cap ∧
      Below (insertEntry key new s).2.entry (update s.entry key (some new)) := by
  rcases insertEntry_cases apart key new with ⟨_, middle, shrinks, gone, done, _⟩ | ⟨unknown, done⟩
  · obtain ⟨apart', entries⟩ := insert_t2 shrinks.apart gone new
    rw [done]
    refine ⟨apart', shrinks.cap, ?_⟩
    rw [entries]
    exact shrinks.below.update key _
  · have shrinks := makeRoom_shrinks apart
    obtain ⟨apart', entries⟩ := insert_t1 shrinks.apart
      (entry_none_iff.mp (shrinks.entry_none unknown.1)).2 new
    rw [done]
    refine ⟨apart', shrinks.cap, ?_⟩
    rw [entries]
    exact shrinks.below.update key _

theorem insertEntry_len (positive : 1 ≤ s.cap) (within : s.len ≤ s.cap) (key : κ) (new : CacheEntry V) :
    (insertEntry key new s).2.len ≤ s.cap ↔ ¬ (s.Unknown key ∧ s.Crowded) := by
  rcases insertEntry_cases apart key new with ⟨known, middle, _, _, done, room⟩ | ⟨unknown, done⟩
  · refine iff_of_true ?_ fun both => known both.1
    have bound := room positive within
    rw [done]
    show middle.t1.len + (middle.t2.insert key new).len ≤ s.cap
    unfold ArcCache.len at bound
    rw [len_insert]
    split_ifs at bound ⊢
    all_goals omega
  · have shrinks := makeRoom_shrinks apart
    have gone := (entry_none_iff.mp (shrinks.entry_none unknown.1)).1
    have absent := contains_of_get_none gone
    have room := makeRoom_len apart positive within
    have longer : (insertEntry key new s).2.len = s.makeRoom.len + 1 := by
      rw [done]
      show (s.makeRoom.t1.insert key new).len + s.makeRoom.t2.len = s.makeRoom.t1.len + s.makeRoom.t2.len + 1
      rw [len_insert, absent]
      simp only [Bool.false_eq_true, if_false]
      omega
    rw [longer, Nat.succ_le_iff, room]
    exact not_congr (and_iff_right unknown).symm

end

/-! ### Look-ups -/

section

variable [DecidableEq κ] {s : ArcCache κ V} {key : κ}

def ArcCache.Remembers (s : ArcCache κ V) (key : κ) : Prop :=
  s.entry key = none ∧ (s.b1.contains key = true ∨ s.b2.contains key = true)

def ArcCache.adapted (s : ArcCache κ V) (key : κ) : ArcCache κ V :=
  if s.b1.contains key then s.adaptUp else s.adaptDown

theorem ArcCache.Evicts.put_back {s' : ArcCache κ V} {held : CacheEntry V} (evicts : s.Evicts key held s') :
    ArcCache.entry { s' with t2 := s'.t2.insert key held } = s.entry ∧
      Apart { s' with t2 := s'.t2.insert key held } ∧
      ArcCache.len { s' with t2 := s'.t2.insert key held } = s.len := by
  have absent : s'.entry key = none := by rw [evicts.entries, update_self]
  obtain ⟨recent, frequent⟩ := entry_none_iff.mp absent
  obtain ⟨apart, entries⟩ := insert_t2 evicts.apart recent held
  refine ⟨?_, apart, ?_⟩
  · rw [entries, evicts.entries, update_idem, ← evicts.held, update_eq_self]
  · have before := evicts.len
    have outside := contains_of_get_none frequent
    unfold ArcCache.len at before ⊢
    rw [len_insert, outside]
    simp only [Bool.false_eq_true, if_false]
    omega

theorem adapted_eq (s : ArcCache κ V) (key : κ) : ∃ p, s.adapted key = { s with p := p } := by
  unfold adapted
  split_ifs
  all_goals exact ⟨_, rfl⟩

theorem arc_get_cases (apart : s.Apart) (now : Instant) (key : κ) :
    (∃ held s', held.live now = none ∧ s.Evicts key held s' ∧ ArcCache.get now key s = (none, s')) ∨
    (∃ held value s', s.entry key = some held ∧ held.live now = some value ∧
      (s'.entry = s.entry ∧ s'.Apart ∧ s'.len = s.len ∧ s'.cap = s.cap) ∧
      ArcCache.get now key s = (some value, s')) ∨
    (s.Remembers key ∧ ArcCache.get now key s = (none, (s.adapted key).replace)) ∨
    (s.Unknown key ∧ ArcCache.get now key s = (none, s)) := by
  have expires : ∀ held : CacheEntry V, held.isExpired now = true → held.live now = none :=
    fun held expired => if_pos expired
  have stays : ∀ held : CacheEntry V, held.isExpired now = false → held.live now = some held.value :=
    fun held fresh => CacheEntry.live_eq_some.mpr ⟨fresh, rfl⟩
  unfold ArcCache.get
  cases recent : s.t1.get key with
  | some held =>
    have evicts := evicts_t1 apart recent s.b1
    cases expired : held.isExpired now with
    | true => exact Or.inl ⟨held, _, expires held expired, evicts, by simp [expired]⟩
    | false =>
      obtain ⟨entries, apart', size⟩ := evicts.put_back
      exact Or.inr (Or.inl ⟨held, held.value, _, evicts.held, stays held expired,
        ⟨entries, apart', size, rfl⟩, by simp [expired]⟩)
  | none =>
    cases frequent : s.t2.get key with
    | some held =>
      have evicts := evicts_t2 apart frequent s.b2
      cases expired : held.isExpired now with
      | true => exact Or.inl ⟨held, _, expires held expired, evicts, by simp [expired]⟩
      | false =>
        obtain ⟨entries, apart', size⟩ := evicts.put_back
        exact Or.inr (Or.inl ⟨held, held.value, _, evicts.held, stays held expired,
          ⟨entries, apart', size, rfl⟩, by simp [expired]⟩)
    | none =>
      have absent : s.entry key = none := entry_none_iff.mpr ⟨recent, frequent⟩
      unfold Remembers Unknown adapted
      split_ifs with first second
      · exact Or.inr (Or.inr (Or.inl ⟨⟨absent, Or.inl first⟩, rfl⟩))
      · exact Or.inr (Or.inr (Or.inl ⟨⟨absent, Or.inr second⟩, rfl⟩))
      · grind

theorem arc_get_shrinks (apart : s.Apart) (now : Instant) (key : κ) :
    s.Shrinks (ArcCache.get now key s).2 ∧ (ArcCache.get now key s).2.len ≤ s.len := by
  rcases arc_get_cases apart now key with ⟨held, s', _, evicts, done⟩ |
    ⟨held, value, s', _, _, ⟨entries, apart', size, cap⟩, done⟩ | ⟨_, done⟩ | ⟨_, done⟩
  · have fewer := evicts.len
    rw [done]
    exact ⟨evicts.shrinks, show s'.len ≤ s.len by omega⟩
  · rw [done]
    refine ⟨⟨?_, apart', cap⟩, size.le⟩
    rw [entries]
    exact Below.refl _
  · obtain ⟨p, target⟩ := adapted_eq s key
    have ghosts := apart.shrinks s.b1 s.b2 p
    rw [done, target]
    refine ⟨ghosts.trans (replace_shrinks ghosts.apart), ?_⟩
    rw [replace_len ghosts.apart]
    exact Nat.sub_le _ 1
  · rw [done]
    exact ⟨apart.shrinks s.b1 s.b2 s.p, le_rfl⟩

theorem arc_peek_eq (apart : s.Apart) (now : Instant) (key : κ) :
    peek now key s = (s.entry key).bind (·.live now) := by
  unfold peek ArcCache.entry
  cases recent : s.t1.get key with
  | none => rfl
  | some held =>
    rw [apart.t2_none recent]
    cases live : held.live now with
    | none | some value => simp [live]

theorem arc_containsKey_eq (apart : s.Apart) (now : Instant) (key : κ) :
    containsKey now key s = (s.entry key).any fun entry => !entry.isExpired now := by
  unfold containsKey ArcCache.entry
  cases recent : s.t1.get key with
  | none => rfl
  | some held => simp [apart.t2_none recent]

theorem arc_remove_law (apart : s.Apart) (key : κ) :
    (remove key s).2.Apart ∧ (remove key s).2.entry = update s.entry key none ∧
      (remove key s).2.cap = s.cap ∧ (remove key s).2.len ≤ s.len := by
  have evicted : ∀ {held s'}, s.Evicts key held s' → s'.Apart ∧
      s'.entry = update s.entry key none ∧ s'.cap = s.cap ∧ s'.len ≤ s.len := by
    intro held s' evicts
    have := evicts.len
    exact ⟨evicts.apart, evicts.entries, evicts.cap, by omega⟩
  unfold remove
  cases recent : s.t1.get key with
  | some held => exact evicted (evicts_t1 apart recent s.b1)
  | none =>
    cases frequent : s.t2.get key with
    | some held => exact evicted (evicts_t2 apart frequent s.b2)
    | none =>
      have absent : s.entry key = none := entry_none_iff.mpr ⟨recent, frequent⟩
      exact ⟨apart, (update_eq_self_iff.mpr absent.symm).symm, rfl, le_rfl⟩

theorem arc_resize_law (apart : s.Apart) (newCap : ℕ) :
    ∃ s', resize newCap s = some s' ∧ s'.Apart ∧ Below s'.entry s.entry ∧ 1 ≤ s'.cap ∧
      s'.len ≤ s'.cap := by
  let start : ArcCache κ V := { s with cap := max newCap 1, p := min s.p (max newCap 1) }
  have apart' : start.Apart := apart
  obtain ⟨s', ends⟩ : ∃ s', resize newCap s = some s' := by
    refine WhileLoop.rounds_of_measure Apart ArcCache.len (fun after still goes => ?_) apart'
      (le_refl s.len)
    have longer : after.cap < after.len := of_decide_eq_true goes
    exact ⟨(replace_shrinks still).apart, by rw [replace_len still]; omega⟩
  obtain ⟨shrinks, stops⟩ := WhileLoop.rounds_invariant start.Shrinks
    (fun after shrinks _ => shrinks.trans (replace_shrinks shrinks.apart))
    (apart'.shrinks s.b1 s.b2 _) ends
  have cap : s'.cap = max newCap 1 := shrinks.cap
  have fits : ¬ s'.cap < s'.len := of_decide_eq_false stops
  exact ⟨s', ends, shrinks.apart, shrinks.below, by omega, by omega⟩

theorem arc_empty_apart (p cap : ℕ) : (mk ∅ ∅ ∅ ∅ p cap : ArcCache κ V).Apart :=
  fun key _ => get_empty key

theorem arc_empty_entry (p cap : ℕ) (key : κ) : (mk ∅ ∅ ∅ ∅ p cap : ArcCache κ V).entry key = none :=
  entry_none_iff.mpr ⟨get_empty key, get_empty key⟩

theorem arc_lawful : (cache : Cache κ V (ArcCache κ V)).Lawful insertEntry Apart
    ArcCache.entry fun _ _ => True where
  reads s now key value apart found := by
    rcases found with got | peeked
    · have got' : (ArcCache.get now key s).1 = some value := got
      rcases arc_get_cases apart now key with ⟨_, _, _, _, done⟩ |
        ⟨held, value', _, here, live, _, done⟩ | ⟨_, done⟩ | ⟨_, done⟩
      · simp [done] at got'
      · grind
      · simp [done] at got'
      · simp [done] at got'
    · have peeked' : peek now key s = some value := peeked
      rw [arc_peek_eq apart] at peeked'
      exact Option.bind_eq_some_iff.mp peeked'
  contains s now key apart present := by
    have present' : containsKey now key s = true := present
    rw [arc_containsKey_eq apart] at present'
    obtain ⟨held, here, fresh⟩ := (Option.any_eq_true _ _).mp present'
    exact ⟨held, held.value, here, CacheEntry.live_eq_some.mpr ⟨(Bool.not_eq_true' _).mp fresh, rfl⟩⟩
  get s now key apart := by
    have shrinks := (arc_get_shrinks apart now key).1
    exact ⟨shrinks.apart, shrinks.below⟩
  put _ _ _ := rfl
  putWithTtl _ _ _ _ _ := rfl
  insert s key new apart := by
    obtain ⟨apart', _, below⟩ := insertEntry_law apart key new
    exact ⟨apart', fun _ => below⟩
  remove s key apart := by
    obtain ⟨apart', entries, _, _⟩ := arc_remove_law apart key
    refine ⟨apart', ?_⟩
    show Below (remove key s).2.entry _
    rw [entries]
    exact Below.refl _
  clear s _ := ⟨arc_empty_apart 0 s.cap, arc_empty_entry 0 s.cap⟩
  resize s newCap s' apart ends := by
    obtain ⟨after, returns, apart', below, _⟩ := arc_resize_law apart newCap
    have same : after = s' := Option.some_inj.mp (returns.symm.trans ends)
    rw [← same]
    exact ⟨apart', below⟩

end

/-! ### The capacity -/

section

variable [DecidableEq κ]

def ArcCache.Within : Option (ArcCache κ V) → Prop
  | none => False
  | some s => s.len ≤ s.cap

/-- **A put of an unknown key that evicts nothing**: the cache is full, `t1` is empty and `b1` has as many
keys as the capacity. -/
def ArcCache.Overfills : Option (ArcCache κ V) → Instant × Op κ V → Prop
  | some s, (_, .put key _) => s.Unknown key ∧ s.Crowded
  | some s, (now, .putWithTtl key value ttl) =>
      CacheEntry.withTtl now value ttl ≠ none ∧ s.Unknown key ∧ s.Crowded
  | _, _ => False

def ArcCache.Sound : Option (ArcCache κ V) → Prop
  | none => False
  | some s => s.Apart ∧ 1 ≤ s.cap ∧ s.len ≤ s.cap

theorem arc_step_bound {s : ArcCache κ V} (apart : s.Apart) (positive : 1 ≤ s.cap) (within : s.len ≤ s.cap)
    (op : Instant × Op κ V) :
    ∃ s', (cache.step (some s) op).2 = some s' ∧ s'.Apart ∧ 1 ≤ s'.cap ∧
      (s'.len ≤ s'.cap ↔ ¬ Overfills (some s) op) := by
  have inserts : ∀ (key : κ) (new : CacheEntry V),
      (insertEntry key new s).2.Apart ∧ 1 ≤ (insertEntry key new s).2.cap ∧
        ((insertEntry key new s).2.len ≤ (insertEntry key new s).2.cap ↔
          ¬ (s.Unknown key ∧ s.Crowded)) := by
    intro key new
    obtain ⟨apart', cap, _⟩ := insertEntry_law apart key new
    rw [cap]
    exact ⟨apart', positive, insertEntry_len apart positive within key new⟩
  obtain ⟨now, op⟩ := op
  cases op with
  | put key value => exact ⟨_, rfl, inserts key (.new value)⟩
  | putWithTtl key value ttl =>
    cases new : CacheEntry.withTtl now value ttl with
    | none =>
      refine ⟨s, ?_, apart, positive, iff_of_true within fun both => both.1 new⟩
      simp [Cache.step, cache, putWithTtl, insertWithTtl, new]
    | some entry =>
      obtain ⟨apart', positive', bound⟩ := inserts key entry
      refine ⟨_, ?_, apart', positive', ?_⟩
      · simp [Cache.step, cache, putWithTtl, insertWithTtl, new]
      · rw [bound]
        have added : CacheEntry.withTtl now value ttl ≠ none := by grind
        exact not_congr (and_iff_right added).symm
  | get key =>
    obtain ⟨shrinks, fewer⟩ := arc_get_shrinks apart now key
    have cap := shrinks.cap
    exact ⟨(ArcCache.get now key s).2, rfl, shrinks.apart, by omega, iff_of_true (by omega) not_false⟩
  | peek key | containsKey key => exact ⟨s, rfl, apart, positive, iff_of_true within not_false⟩
  | remove key =>
    obtain ⟨apart', _, cap, fewer⟩ := arc_remove_law apart key
    exact ⟨(remove key s).2, rfl, apart', by omega, iff_of_true (by omega) not_false⟩
  | clear =>
    exact ⟨_, rfl, arc_empty_apart 0 s.cap, positive, iff_of_true (Nat.zero_le _) not_false⟩
  | resize newCap =>
    obtain ⟨s', returns, apart', _, positive', bound⟩ := arc_resize_law apart newCap
    refine ⟨s', ?_, apart', positive', iff_of_true bound not_false⟩
    have returns' : (cache : Cache κ V (ArcCache κ V)).resize newCap s = some s' := returns
    simp [Cache.step, returns']

end

/-! ### Other keys -/

section

variable [DecidableEq κ] {s : ArcCache κ V}

/-- **A look-up that evicts an entry**: its key is remembered, and what `replace` evicts has not expired. -/
def ArcCache.Drains (s : ArcCache κ V) (now : Instant) (key : κ) : Prop :=
  s.Remembers key ∧ ∃ other held, (s.adapted key).victim = some (other, held) ∧ held.isExpired now = false

theorem arc_get_others (apart : s.Apart) (now : Instant) {key other : κ} (different : other ≠ key)
    (spared : s.Remembers key → ∀ held, (s.adapted key).victim ≠ some (other, held)) :
    (ArcCache.get now key s).2.entry other = s.entry other := by
  rcases arc_get_cases apart now key with ⟨held, s', _, evicts, done⟩ |
    ⟨held, value, s', _, _, ⟨entries, _⟩, done⟩ | ⟨remembers, done⟩ | ⟨_, done⟩
  · rw [done, evicts.entries, update_of_ne different]
  · rw [done, entries]
  · have spared' := spared remembers
    obtain ⟨p, target⟩ := adapted_eq s key
    rw [target] at spared'
    rw [done, target]
    rcases replace_cases (apart.shrinks s.b1 s.b2 p).apart with ⟨_, _, same⟩ | ⟨evicted, held, victim, evicts⟩
    · rw [same]
      rfl
    · have spared'' : other ≠ evicted := fun same => spared' held (same ▸ victim)
      rw [evicts.entries, update_of_ne spared'']
      rfl
  · rw [done]

theorem adapted_evicts (apart : s.Apart) {key other : κ} {held : CacheEntry V}
    (victim : (s.adapted key).victim = some (other, held)) :
    s.entry other = some held ∧ (s.adapted key).replace.entry = update s.entry other none := by
  obtain ⟨p, target⟩ := adapted_eq s key
  rw [target] at victim ⊢
  rcases replace_cases (apart.shrinks s.b1 s.b2 p).apart with ⟨_, nobody, _⟩ |
    ⟨evicted, held', victim', evicts⟩
  · simp [nobody] at victim
  · rw [victim'] at victim
    cases victim
    exact ⟨evicts.held, evicts.entries⟩

theorem arc_get_remembered (now : Instant) {key : κ} (remembers : s.Remembers key) :
    ArcCache.get now key s = (none, (s.adapted key).replace) := by
  obtain ⟨recent, frequent⟩ := entry_none_iff.mp remembers.1
  unfold ArcCache.get adapted
  rw [recent, frequent]
  split_ifs with first second
  · rfl
  · rfl
  · rcases remembers.2 with found | found
    · exact absurd found first
    · exact absurd found second

theorem arc_get_keeps_iff (apart : s.Apart) (now : Instant) (key : κ) :
    cache.GetKeepsOthers now key s ↔ ¬ s.Drains now key := by
  have apart' := (arc_get_shrinks apart now key).1.apart
  constructor
  · rintro keeps ⟨remembers, other, held, victim, fresh⟩
    obtain ⟨here, evicted⟩ := adapted_evicts apart victim
    have different : other ≠ key := by
      rintro rfl
      rw [remembers.1] at here
      cases here
    have seen : peek now other s = some held.value := by
      rw [arc_peek_eq apart, here]
      exact CacheEntry.live_eq_some.mpr ⟨fresh, rfl⟩
    have still : peek now other (ArcCache.get now key s).2 = some held.value :=
      keeps other different held.value seen
    rw [arc_peek_eq apart', arc_get_remembered now remembers, evicted, update_self] at still
    cases still
  · intro spares other different value seen
    have seen' : peek now other s = some value := seen
    show peek now other (ArcCache.get now key s).2 = some value
    rw [arc_peek_eq apart] at seen'
    rw [arc_peek_eq apart', arc_get_others apart now different, seen']
    intro remembers held victim
    -- the entry that is evicted would be the one that is seen
    rw [(adapted_evicts apart victim).1] at seen'
    exact spares ⟨remembers, other, held, victim, (CacheEntry.live_eq_some.mp seen').1⟩

end

end OxiStore.Caching
