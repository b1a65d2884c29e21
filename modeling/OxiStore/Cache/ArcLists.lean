/-
**The four lists of an `ArcCache`.**
-/

import OxiStore.Cache.Arc

namespace OxiStore.Caching

open StepProg LinkedMap ArcCache

variable {κ V : Type}

def ArcCache.directory (s : ArcCache κ V) : Multiset κ := s.t1.bag + s.t2.bag + s.b1.bag + s.b2.bag

theorem card_directory (s : ArcCache κ V) : s.directory.card = s.directoryLen := by
  simp [directory, directoryLen, card_bag]

/-- **Nothing is added to the directory**, and the target stays within the capacity. -/
structure ArcCache.Condenses (s s' : ArcCache κ V) : Prop where
  directory : s'.directory ≤ s.directory
  target : s.p ≤ s.cap → s'.p ≤ s.cap
  cap : s'.cap = s.cap

section

variable {s s' s'' : ArcCache κ V} {key : κ}

theorem ArcCache.Condenses.trans (first : s.Condenses s') (second : s'.Condenses s'') : s.Condenses s'' where
  directory := second.directory.trans first.directory
  target within := first.cap ▸ second.target (first.cap.symm ▸ first.target within)
  cap := second.cap.trans first.cap

theorem ArcCache.Condenses.directoryLen_le (condenses : s.Condenses s') :
    s'.directoryLen ≤ s.directoryLen := by
  rw [← card_directory, ← card_directory]
  exact Multiset.card_le_card condenses.directory

variable {b1 b2 : LinkedMap κ Unit}

theorem condenses_of_le {t1 t2 : LinkedMap κ (CacheEntry V)}
    (smaller : directory { s with t1 := t1, t2 := t2, b1 := b1, b2 := b2 } ≤ s.directory) :
    s.Condenses { s with t1 := t1, t2 := t2, b1 := b1, b2 := b2 } := ⟨smaller, id, rfl⟩

theorem ArcCache.Condenses.refl (s : ArcCache κ V) : s.Condenses s := condenses_of_le le_rfl

theorem condenses_ghosts (first : b1.bag ≤ s.b1.bag) (second : b2.bag ≤ s.b2.bag) :
    s.Condenses { s with b1 := b1, b2 := b2 } :=
  condenses_of_le (add_le_add (add_le_add le_rfl first) second)

theorem adaptUp_condenses (s : ArcCache κ V) : s.Condenses s.adaptUp :=
  ⟨le_rfl, fun _ => Nat.min_le_right _ _, rfl⟩

theorem adaptDown_condenses (s : ArcCache κ V) : s.Condenses s.adaptDown :=
  ⟨le_rfl, fun within => (Nat.sub_le _ _).trans within, rfl⟩

/-! ### Keys that leave a list and keys that enter one -/

variable [DecidableEq κ]

theorem directory_leave_t1 (present : s.t1.contains key = true) :
    key ::ₘ directory { s with t1 := s.t1.erase key } = s.directory := by
  simp [directory, ← cons_bag_erase present]

theorem directory_leave_t2 (present : s.t2.contains key = true) :
    key ::ₘ directory { s with t2 := s.t2.erase key } = s.directory := by
  simp [directory, ← cons_bag_erase present]

theorem directory_leave_b1 (present : s.b1.contains key = true) :
    key ::ₘ directory { s with b1 := s.b1.erase key } = s.directory := by
  simp [directory, ← cons_bag_erase present]

theorem directory_leave_b2 (present : s.b2.contains key = true) :
    key ::ₘ directory { s with b2 := s.b2.erase key } = s.directory := by
  simp [directory, ← cons_bag_erase present]

theorem directory_enter_t1 (s : ArcCache κ V) (key : κ) (new : CacheEntry V) :
    directory { s with t1 := s.t1.insert key new } ≤ key ::ₘ s.directory :=
  calc (s.t1.insert key new).bag + s.t2.bag + s.b1.bag + s.b2.bag
    _ ≤ (key ::ₘ s.t1.bag) + s.t2.bag + s.b1.bag + s.b2.bag := by
      gcongr
      exact bag_insert_le key new
    _ = key ::ₘ s.directory := by simp [directory]

theorem directory_enter_t2 (s : ArcCache κ V) (key : κ) (new : CacheEntry V) :
    directory { s with t2 := s.t2.insert key new } ≤ key ::ₘ s.directory :=
  calc s.t1.bag + (s.t2.insert key new).bag + s.b1.bag + s.b2.bag
    _ ≤ s.t1.bag + (key ::ₘ s.t2.bag) + s.b1.bag + s.b2.bag := by
      gcongr
      exact bag_insert_le key new
    _ = key ::ₘ s.directory := by simp [directory]

theorem directory_enter_b1 (s : ArcCache κ V) (key : κ) (smaller : b1.bag ≤ s.b1.bag) :
    directory { s with b1 := b1.insert key () } ≤ key ::ₘ s.directory :=
  calc s.t1.bag + s.t2.bag + (b1.insert key ()).bag + s.b2.bag
    _ ≤ s.t1.bag + s.t2.bag + (key ::ₘ s.b1.bag) + s.b2.bag := by
      gcongr
      exact (bag_insert_le key ()).trans (Multiset.cons_le_cons key smaller)
    _ = key ::ₘ s.directory := by simp [directory]

theorem directory_enter_b2 (s : ArcCache κ V) (key : κ) (smaller : b2.bag ≤ s.b2.bag) :
    directory { s with b2 := b2.insert key () } ≤ key ::ₘ s.directory :=
  calc s.t1.bag + s.t2.bag + s.b1.bag + (b2.insert key ()).bag
    _ ≤ s.t1.bag + s.t2.bag + s.b1.bag + (key ::ₘ s.b2.bag) := by
      gcongr
      exact (bag_insert_le key ()).trans (Multiset.cons_le_cons key smaller)
    _ = key ::ₘ s.directory := by simp [directory]

theorem bag_of_room (map : LinkedMap κ Unit) (full : Prop) [Decidable full] :
    (if full then map.popFront.2 else map).bag ≤ map.bag := by
  split_ifs
  · exact map.bag_popFront_le
  · exact le_rfl

theorem evictT1_condenses (s : ArcCache κ V) : s.Condenses s.evictT1 := by
  unfold evictT1
  rcases s.t1.popFront_cases with ⟨_, popped, _⟩ | ⟨key, held, _, here, popped⟩
  · rw [popped]
    exact Condenses.refl s
  · rw [popped]
    exact condenses_of_le ((directory_enter_b1 { s with t1 := s.t1.erase key } key (bag_of_room s.b1 _)).trans
      (directory_leave_t1 (contains_of_get here)).le)

theorem evictT2_condenses (s : ArcCache κ V) : s.Condenses s.evictT2 := by
  unfold evictT2
  rcases s.t2.popFront_cases with ⟨_, popped, _⟩ | ⟨key, held, _, here, popped⟩
  · rw [popped]
    exact Condenses.refl s
  · rw [popped]
    exact condenses_of_le ((directory_enter_b2 { s with t2 := s.t2.erase key } key (bag_of_room s.b2 _)).trans
      (directory_leave_t2 (contains_of_get here)).le)

theorem replace_condenses (s : ArcCache κ V) : s.Condenses s.replace := by
  unfold replace
  split_ifs
  · exact evictT1_condenses s
  · exact evictT2_condenses s
  · exact evictT1_condenses s
  · exact Condenses.refl s

theorem replaceIfFull_condenses (s : ArcCache κ V) : s.Condenses s.replaceIfFull := by
  unfold replaceIfFull
  split_ifs
  · exact replace_condenses s
  · exact Condenses.refl s

theorem makeRoom_condenses (s : ArcCache κ V) : s.Condenses s.makeRoom := by
  have first : s.Condenses { s with b1 := s.b1.popFront.2 } := condenses_ghosts s.b1.bag_popFront_le le_rfl
  have second : s.Condenses { s with b2 := s.b2.popFront.2 } := condenses_ghosts le_rfl s.b2.bag_popFront_le
  unfold makeRoom
  split_ifs
  · exact second
  · exact first
  · exact Condenses.refl s
  · exact replace_condenses s
  · exact first
  · exact second.trans (replace_condenses _)
  · exact first.trans (replace_condenses _)
  · exact replace_condenses s
  · exact replace_condenses s

/-! ### The operations -/

theorem condenses_to_t2 {without middle : ArcCache κ V} (left : key ::ₘ without.directory = s.directory)
    (target : s.p ≤ s.cap → without.p ≤ without.cap) (cap : without.cap = s.cap)
    (condenses : without.Condenses middle) (new : CacheEntry V) :
    s.Condenses { middle with t2 := middle.t2.insert key new } where
  directory := (directory_enter_t2 middle key new).trans
    ((Multiset.cons_le_cons key condenses.directory).trans left.le)
  target within := cap ▸ condenses.target (target within)
  cap := condenses.cap.trans cap

theorem known_condenses (known : ¬ s.Unknown key) (new : CacheEntry V) :
    s.Condenses (insertEntry key new s).2 := by
  unfold insertEntry
  cases recent : s.t1.get key with
  | some old =>
    exact condenses_to_t2 (directory_leave_t1 (contains_of_get recent)) id rfl (Condenses.refl _) new
  | none =>
    cases frequent : s.t2.get key with
    | some old =>
      refine condenses_of_le ?_
      unfold directory
      rw [bag_insert_of_present (contains_of_get frequent)]
    | none =>
      have absent : s.entry key = none := entry_none_iff.mpr ⟨recent, frequent⟩
      split_ifs with first second
      · exact condenses_to_t2 (directory_leave_b1 first) id rfl
          ((adaptUp_condenses _).trans (replaceIfFull_condenses _)) new
      · exact condenses_to_t2 (directory_leave_b2 second) id rfl
          ((adaptDown_condenses _).trans (replaceIfFull_condenses _)) new
      · exact absurd ⟨absent, (Bool.not_eq_true _).mp first, (Bool.not_eq_true _).mp second⟩ known

theorem arc_get_condenses (s : ArcCache κ V) (now : Instant) (key : κ) :
    s.Condenses (ArcCache.get now key s).2 := by
  have smaller : ∀ {t1 t2 : LinkedMap κ (CacheEntry V)}, t1.bag ≤ s.t1.bag → t2.bag ≤ s.t2.bag →
      s.Condenses { s with t1 := t1, t2 := t2 } := fun first second =>
    condenses_of_le (add_le_add (add_le_add (add_le_add first second) le_rfl) le_rfl)
  unfold ArcCache.get
  cases recent : s.t1.get key with
  | some held =>
    dsimp only
    split_ifs
    · exact smaller (bag_erase_le key) le_rfl
    · exact condenses_to_t2 (directory_leave_t1 (contains_of_get recent)) id rfl (Condenses.refl _) held
  | none =>
    cases frequent : s.t2.get key with
    | some held =>
      dsimp only
      split_ifs
      · exact smaller le_rfl (bag_erase_le key)
      · exact condenses_to_t2 (directory_leave_t2 (contains_of_get frequent)) id rfl (Condenses.refl _) held
    | none =>
      split_ifs
      · exact (adaptUp_condenses s).trans (replace_condenses _)
      · exact (adaptDown_condenses s).trans (replace_condenses _)
      · exact Condenses.refl s

theorem arc_remove_condenses (s : ArcCache κ V) (key : κ) : s.Condenses (remove key s).2 := by
  unfold remove
  cases recent : s.t1.get key with
  | some held => exact condenses_of_le (by unfold directory; gcongr; exact bag_erase_le key)
  | none =>
    cases frequent : s.t2.get key with
    | some held => exact condenses_of_le (by unfold directory; gcongr; exact bag_erase_le key)
    | none => exact condenses_ghosts (bag_erase_le key) (bag_erase_le key)

theorem arc_insert_cases (s : ArcCache κ V) (key : κ) (new : CacheEntry V) :
    (¬ s.Unknown key ∧ s.Condenses (insertEntry key new s).2) ∨
      (s.Unknown key ∧ (insertEntry key new s).2 = { s.makeRoom with t1 := s.makeRoom.t1.insert key new }) := by
  by_cases unknown : s.Unknown key
  · refine Or.inr ⟨unknown, ?_⟩
    obtain ⟨absent, first, second⟩ := unknown
    obtain ⟨recent, frequent⟩ := entry_none_iff.mp absent
    unfold insertEntry
    simp only [recent, frequent, first, second, Bool.false_eq_true, if_false]
  · exact Or.inl ⟨unknown, known_condenses unknown new⟩

end

/-! ### No key in two lists -/

section

variable [DecidableEq κ] {s s' : ArcCache κ V} {key : κ}

/-- **The discipline of the lists**: no key is in two of them, and the target is at most the capacity. -/
structure ArcCache.Disciplined (s : ArcCache κ V) : Prop where
  nodup : s.directory.Nodup
  target : s.p ≤ s.cap

omit [DecidableEq κ] in
theorem ArcCache.Condenses.disciplined (condenses : s.Condenses s') (disciplined : s.Disciplined) :
    s'.Disciplined where
  nodup := Multiset.nodup_of_le condenses.directory disciplined.nodup
  target := condenses.cap ▸ condenses.target disciplined.target

theorem unknown_iff : s.Unknown key ↔ key ∉ s.directory := by
  unfold Unknown directory
  rw [entry_none_iff]
  simp [mem_bag, LinkedMap.contains, and_assoc]

theorem arc_insert_disciplined (disciplined : s.Disciplined) (key : κ) (new : CacheEntry V) :
    (insertEntry key new s).2.Disciplined := by
  rcases arc_insert_cases s key new with ⟨_, condenses⟩ | ⟨unknown, done⟩
  · exact condenses.disciplined disciplined
  · have condenses := makeRoom_condenses s
    obtain ⟨nodup, target⟩ := condenses.disciplined disciplined
    have absent : key ∉ s.makeRoom.directory := fun inside =>
      unknown_iff.mp unknown (Multiset.mem_of_le condenses.directory inside)
    rw [done]
    exact ⟨Multiset.nodup_of_le (directory_enter_t1 _ key new) (Multiset.nodup_cons.mpr ⟨absent, nodup⟩), target⟩

theorem arc_keeps_disciplined : (ArcCache.cache : Cache κ V (ArcCache κ V)).Keeps insertEntry
    Disciplined where
  put _ _ _ := rfl
  putWithTtl _ _ _ _ _ := rfl
  insert s key new disciplined := arc_insert_disciplined disciplined key new
  get s now key := (arc_get_condenses s now key).disciplined
  remove s key := (arc_remove_condenses s key).disciplined
  clear s _ := ⟨Multiset.nodup_zero, Nat.zero_le _⟩
  resize s newCap s' disciplined ends := by
    have start : Disciplined { s with cap := max newCap 1, p := min s.p (max newCap 1) } :=
      ⟨disciplined.nodup, Nat.min_le_right _ _⟩
    exact (WhileLoop.rounds_invariant Disciplined (fun after held _ => (replace_condenses after).disciplined held)
      start ends).1

/-- **The lists of an `ArcCache` are pairwise disjoint in every state of every run**, and the target is at
most the capacity. -/
theorem arc_lists_disjoint (cap : ℕ) (ops : List (Instant × Op κ V)) (s : ArcCache κ V)
    (ends : afterRun ArcCache.cache.step (some (ArcCache.new cap)) ops = some s) :
    [s.t1.keys, s.t2.keys, s.b1.keys, s.b2.keys].Pairwise List.Disjoint ∧ 0 ≤ s.p ∧ s.p ≤ s.cap := by
  have start : (ArcCache.new cap : ArcCache κ V).Disciplined := ⟨Multiset.nodup_zero, Nat.zero_le _⟩
  obtain ⟨nodup, target⟩ := arc_keeps_disciplined.afterRun start ends
  refine ⟨?_, Nat.zero_le _, target⟩
  have lists : (s.t1.keys ++ s.t2.keys ++ s.b1.keys ++ s.b2.keys).Nodup := nodup
  grind [List.nodup_append, List.Disjoint]

theorem arc_lists_disjoint_three : ∃ s, afterRun ArcCache.cache.step (some (ArcCache.new 1 : ArcCache ℕ ℕ))
      [(0, .put 1 10), (0, .get 1), (0, .put 2 20),
        (0, .put 3 30)] = some s ∧
    [s.t1.keys, s.t2.keys, s.b1.keys, s.b2.keys].Pairwise List.Disjoint ∧ 0 ≤ s.p ∧ s.p ≤ s.cap := by
  refine ⟨?after, ?ends, arc_lists_disjoint 1 _ ?after ?ends⟩
  case ends => rfl

end

/-! ### The bound of the directory -/

section

variable [DecidableEq κ] {s s' : ArcCache κ V} {key : κ}

def ArcCache.DirectoryWithin : Option (ArcCache κ V) → Prop
  | none => False
  | some s => s.directoryLen ≤ 2 * s.cap

def ArcCache.Spills (s : ArcCache κ V) (key : κ) : Prop :=
  s.Unknown key ∧ s.cap ≤ s.len ∧ 2 * s.cap ≤ s.directoryLen ∧
    (s.t1.len + s.b1.len = s.cap ∧ s.t1.len ≠ 0 ∨
      s.t1.len + s.b1.len ≠ s.cap ∧ s.b1.len = 0 ∧ s.b2.len = 0)

def ArcCache.EvictsPast (s : ArcCache κ V) : Prop :=
  if s.len ≤ s.cap then 2 * s.cap < s.directoryLen
  else s.cap < (if max s.p 1 ≤ s.t1.len then max s.b1.len 1 else s.b1.len) +
    if s.t1.len + 1 - max s.p 1 < s.len - s.cap then max s.b2.len 1 else s.b2.len

/-- **A call after which the directory is past its bound**: a put that spills, and a `resize` to less than
what the ghosts take. -/
def ArcCache.Overgrows : Option (ArcCache κ V) → Instant × Op κ V → Prop
  | some s, (_, .put key _) => s.Spills key
  | some s, (now, .putWithTtl key value ttl) => CacheEntry.withTtl now value ttl ≠ none ∧ s.Spills key
  | some s, (_, .resize newCap) =>
      EvictsPast { s with cap := max newCap 1, p := min s.p (max newCap 1) }
  | _, _ => False

/-! #### One eviction -/

theorem len_after_eviction {ghosts : LinkedMap κ Unit} (absent : ghosts.contains key = false) (full : Prop)
    [Decidable full] : ((if full then ghosts.popFront.2 else ghosts).insert key ()).len =
      if full then max ghosts.len 1 else ghosts.len + 1 := by
  split_ifs
  · rw [len_insert_of_absent (contains_popFront_of_absent absent), len_popFront]
    omega
  · rw [len_insert_of_absent absent]

variable (nodup : s.directory.Nodup)

include nodup

theorem evictT1_sizes (filled : s.t1.len ≠ 0) :
    s.evictT1.t1.len + 1 = s.t1.len ∧ s.evictT1.t2.len = s.t2.len ∧ s.evictT1.b2.len = s.b2.len ∧
      s.evictT1.b1.len = if 2 * s.cap < s.directoryLen then max s.b1.len 1 else s.b1.len + 1 := by
  unfold evictT1
  rcases s.t1.popFront_cases with ⟨_, _, empty⟩ | ⟨key, held, _, here, popped⟩
  · exact absurd empty filled
  · have shorter := len_erase_add_one (contains_of_get here)
    have lists : (s.t1.keys ++ s.t2.keys ++ s.b1.keys ++ s.b2.keys).Nodup := nodup
    have absent : s.b1.contains key = false := by
      have member := (mem_keys_iff s.t1).mpr (contains_of_get here)
      rw [← Bool.not_eq_true, ← mem_keys_iff]
      grind [List.nodup_append]
    rw [popped]
    refine ⟨shorter, rfl, rfl, ?_⟩
    dsimp only
    rw [len_after_eviction absent]
    refine if_congr ?_ rfl rfl
    unfold directoryLen
    dsimp only
    omega

theorem evictT2_sizes (filled : s.t2.len ≠ 0) :
    s.evictT2.t2.len + 1 = s.t2.len ∧ s.evictT2.t1.len = s.t1.len ∧ s.evictT2.b1.len = s.b1.len ∧
      s.evictT2.b2.len = if 2 * s.cap < s.directoryLen then max s.b2.len 1 else s.b2.len + 1 := by
  unfold evictT2
  rcases s.t2.popFront_cases with ⟨_, _, empty⟩ | ⟨key, held, _, here, popped⟩
  · exact absurd empty filled
  · have shorter := len_erase_add_one (contains_of_get here)
    have lists : (s.t1.keys ++ s.t2.keys ++ s.b1.keys ++ s.b2.keys).Nodup := nodup
    have absent : s.b2.contains key = false := by
      have member := (mem_keys_iff s.t2).mpr (contains_of_get here)
      rw [← Bool.not_eq_true, ← mem_keys_iff]
      grind [List.nodup_append]
    rw [popped]
    refine ⟨shorter, rfl, rfl, ?_⟩
    dsimp only
    rw [len_after_eviction absent]
    refine if_congr ?_ rfl rfl
    unfold directoryLen
    dsimp only
    omega

omit nodup

theorem replace_target (s : ArcCache κ V) : s.replace.p = s.p := by
  have first : s.evictT1.p = s.p := by
    unfold evictT1
    split <;> rfl
  have second : s.evictT2.p = s.p := by
    unfold evictT2
    split <;> rfl
  unfold replace
  split_ifs
  all_goals first | exact first | exact second | rfl

include nodup

theorem replace_sizes (filled : s.len ≠ 0) :
    ((max s.p 1 ≤ s.t1.len ∨ s.t2.len = 0) ∧
      s.replace.t1.len + 1 = s.t1.len ∧ s.replace.t2.len = s.t2.len ∧ s.replace.b2.len = s.b2.len ∧
      s.replace.b1.len = if 2 * s.cap < s.directoryLen then max s.b1.len 1 else s.b1.len + 1) ∨
    (s.t1.len < max s.p 1 ∧
      s.replace.t2.len + 1 = s.t2.len ∧ s.replace.t1.len = s.t1.len ∧ s.replace.b1.len = s.b1.len ∧
      s.replace.b2.len = if 2 * s.cap < s.directoryLen then max s.b2.len 1 else s.b2.len + 1) := by
  have which : (max s.p 1 ≤ s.t1.len ∨ s.t2.len = 0) ∧ s.t1.len ≠ 0 ∧ s.replace = s.evictT1 ∨
      s.t1.len < max s.p 1 ∧ s.t2.len ≠ 0 ∧ s.replace = s.evictT2 := by
    unfold ArcCache.len at filled
    unfold replace
    split_ifs with recent frequent last
    · exact .inl ⟨.inl recent.1, by omega, rfl⟩
    · exact .inr ⟨by omega, frequent, rfl⟩
    · exact .inl ⟨.inr (by omega), last, rfl⟩
    · omega
  rcases which with ⟨first, some', same⟩ | ⟨first, some', same⟩
  · rw [same]
    exact .inl ⟨first, evictT1_sizes nodup some'⟩
  · rw [same]
    exact .inr ⟨first, evictT2_sizes nodup some'⟩

theorem replace_directoryLen (within : s.directoryLen ≤ 2 * s.cap) :
    s.replace.directoryLen = s.directoryLen := by
  by_cases empty : s.len = 0
  · have same : s.replace = s := by
      unfold ArcCache.len at empty
      unfold replace
      rw [if_neg (by omega), if_neg (by omega), if_neg (by omega)]
    rw [same]
  · have sizes := replace_sizes nodup empty
    rw [if_neg (by omega), if_neg (by omega)] at sizes
    unfold directoryLen
    omega

/-! #### Puts -/

theorem makeRoom_directoryLen (positive : 1 ≤ s.cap) (within : s.directoryLen ≤ 2 * s.cap)
    (unknown : s.Unknown key) :
    s.makeRoom.directoryLen < 2 * s.cap ↔ ¬ s.Spills key := by
  have first : (directory { s with b1 := s.b1.popFront.2 }).Nodup :=
    Multiset.nodup_of_le (condenses_ghosts s.b1.bag_popFront_le le_rfl).directory nodup
  have second : (directory { s with b2 := s.b2.popFront.2 }).Nodup :=
    Multiset.nodup_of_le (condenses_ghosts le_rfl s.b2.bag_popFront_le).directory nodup
  have fewer : directoryLen { s with b1 := s.b1.popFront.2 } = s.t1.len + s.t2.len + (s.b1.len - 1) + s.b2.len := by
    simp only [directoryLen, len_popFront]
  have fewer' : directoryLen { s with b2 := s.b2.popFront.2 } = s.t1.len + s.t2.len + s.b1.len + (s.b2.len - 1) := by
    simp only [directoryLen, len_popFront]
  have sizes : s.directoryLen = s.t1.len + s.t2.len + s.b1.len + s.b2.len := rfl
  have live : s.len = s.t1.len + s.t2.len := rfl
  unfold makeRoom Spills
  rw [and_iff_right unknown]
  split_ifs
  · omega
  · omega
  · omega
  · rw [replace_directoryLen nodup within]
    omega
  · omega
  · rw [replace_directoryLen second (show _ ≤ 2 * s.cap by omega)]
    omega
  · rw [replace_directoryLen first (show _ ≤ 2 * s.cap by omega)]
    omega
  · rw [replace_directoryLen nodup within]
    omega
  · rw [replace_directoryLen nodup within]
    omega

theorem arc_insert_directoryLen (positive : 1 ≤ s.cap) (within : s.directoryLen ≤ 2 * s.cap) (key : κ)
    (new : CacheEntry V) :
    (insertEntry key new s).2.directoryLen ≤ 2 * (insertEntry key new s).2.cap ↔ ¬ s.Spills key := by
  rcases arc_insert_cases s key new with ⟨known, condenses⟩ | ⟨unknown, done⟩
  · rw [condenses.cap]
    exact iff_of_true (condenses.directoryLen_le.trans within) fun spills => known spills.1
  · have condenses := makeRoom_condenses s
    have absent : s.makeRoom.t1.contains key = false := by
      by_contra inside
      have member : key ∈ s.makeRoom.directory := by
        simp [directory, mem_bag, (Bool.not_eq_false _).mp inside]
      exact unknown_iff.mp unknown (Multiset.mem_of_le condenses.directory member)
    have entered : directoryLen { s.makeRoom with t1 := s.makeRoom.t1.insert key new } =
        s.makeRoom.directoryLen + 1 := by
      unfold directoryLen
      dsimp only
      rw [len_insert_of_absent absent]
      omega
    rw [done, entered, ← makeRoom_directoryLen nodup positive within unknown]
    show _ + 1 ≤ 2 * s.makeRoom.cap ↔ _
    rw [condenses.cap]
    exact Nat.succ_le_iff

/-! #### `resize` -/

theorem evictsPast_replace (positive : 1 ≤ s.cap) (target : s.p ≤ s.cap) (full : s.cap < s.len) :
    s.replace.EvictsPast ↔ s.EvictsPast := by
  have sizes := replace_sizes nodup (by omega)
  have cap := (replace_condenses s).cap
  have same := replace_target s
  unfold EvictsPast directoryLen ArcCache.len at *
  rw [cap, same]
  split_ifs at * <;> omega

omit nodup

theorem arc_resize_directoryLen (disciplined : s.Disciplined) {newCap : ℕ}
    (ends : resize newCap s = some s') : s'.directoryLen ≤ 2 * s'.cap ↔
      ¬ EvictsPast { s with cap := max newCap 1, p := min s.p (max newCap 1) } := by
  let start : ArcCache κ V := { s with cap := max newCap 1, p := min s.p (max newCap 1) }
  let keeps : ArcCache κ V → Prop := fun after =>
    after.Disciplined ∧ 1 ≤ after.cap ∧ (after.EvictsPast ↔ start.EvictsPast)
  have begins : keeps start := ⟨⟨disciplined.nodup, Nat.min_le_right _ _⟩, Nat.le_max_right _ _, Iff.rfl⟩
  obtain ⟨⟨_, _, same⟩, stops⟩ := WhileLoop.rounds_invariant keeps (fun after held goes => by
    obtain ⟨still, positive, same⟩ := held
    have condenses := replace_condenses after
    refine ⟨condenses.disciplined still, condenses.cap ▸ positive, ?_⟩
    rw [evictsPast_replace still.nodup positive still.target (of_decide_eq_true goes), same]) begins ends
  have small : s'.len ≤ s'.cap := not_lt.mp (of_decide_eq_false stops)
  rw [← same, EvictsPast, if_pos small, not_lt]

/-! #### Runs -/

def ArcCache.InBounds (s : ArcCache κ V) : Prop := s.Disciplined ∧ s.Apart ∧ 1 ≤ s.cap

theorem arc_step_directory (bounds : s.InBounds) (within : s.directoryLen ≤ 2 * s.cap)
    (op : Instant × Op κ V) : ∃ s', (cache.step (some s) op).2 = some s' ∧ s'.InBounds ∧
      (s'.directoryLen ≤ 2 * s'.cap ↔ ¬ Overgrows (some s) op) := by
  obtain ⟨disciplined, apart, positive⟩ := bounds
  have inserts : ∀ (key : κ) (new : CacheEntry V), (insertEntry key new s).2.InBounds ∧
      ((insertEntry key new s).2.directoryLen ≤ 2 * (insertEntry key new s).2.cap ↔ ¬ s.Spills key) := by
    intro key new
    obtain ⟨apart', cap, _⟩ := insertEntry_law apart key new
    exact ⟨⟨arc_insert_disciplined disciplined key new, apart', cap ▸ positive⟩,
      arc_insert_directoryLen disciplined.nodup positive within key new⟩
  have condensed : ∀ {s'}, s.Condenses s' → s'.Apart → s'.InBounds ∧ (s'.directoryLen ≤ 2 * s'.cap ↔ ¬ False) := by
    intro s' condenses apart'
    refine ⟨⟨condenses.disciplined disciplined, apart', condenses.cap ▸ positive⟩, iff_of_true ?_ not_false⟩
    rw [condenses.cap]
    exact condenses.directoryLen_le.trans within
  obtain ⟨now, op⟩ := op
  cases op with
  | put key value => exact ⟨_, rfl, inserts key (.new value)⟩
  | putWithTtl key value ttl =>
    cases new : CacheEntry.withTtl now value ttl with
    | none =>
      refine ⟨s, ?_, ⟨disciplined, apart, positive⟩, iff_of_true within fun both => both.1 new⟩
      simp [Cache.step, cache, putWithTtl, insertWithTtl, new]
    | some entry =>
      have added : CacheEntry.withTtl now value ttl ≠ none := by simp [new]
      obtain ⟨bounds, bound⟩ := inserts key entry
      refine ⟨_, ?_, bounds, bound.trans (not_congr (and_iff_right added).symm)⟩
      simp [Cache.step, cache, putWithTtl, insertWithTtl, new]
  | get key =>
    exact ⟨_, rfl, condensed (arc_get_condenses s now key) (arc_get_shrinks apart now key).1.apart⟩
  | peek key | containsKey key => exact ⟨s, rfl, condensed (Condenses.refl s) apart⟩
  | remove key => exact ⟨_, rfl, condensed (arc_remove_condenses s key) (arc_remove_law apart key).1⟩
  | clear =>
    exact ⟨_, rfl, ⟨⟨Multiset.nodup_zero, Nat.zero_le _⟩, arc_empty_apart 0 s.cap, positive⟩,
      iff_of_true (Nat.zero_le _) not_false⟩
  | resize newCap =>
    obtain ⟨s', returns, apart', _, positive', _⟩ := arc_resize_law apart newCap
    have returns' : (cache : Cache κ V (ArcCache κ V)).resize newCap s = some s' := returns
    exact ⟨s', by simp [Cache.step, returns'],
      ⟨arc_keeps_disciplined.resize s newCap s' disciplined returns, apart', positive'⟩,
      arc_resize_directoryLen disciplined returns⟩

end

end OxiStore.Caching
