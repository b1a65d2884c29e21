/-
**Stores whose values are sealed.**
-/

import OxiStore.Lib.Related
import OxiStore.Kv.Maps
import OxiStore.Encrypt.Aead

namespace OxiStore

open ByteString OrdTable StepProg

/-! ### Shared texts -/

section

variable {S C α : Type}

def Call.crypt (program : Crypt C α) : Call (S × C) α :=
  ExceptT.mk (Prog.swap (fun s => (program.exec s.2).1.mapError EncryptError.toStore)
    fun s => (s.1, (program.exec s.2).2))

def Call.looking (look : C → Except EncryptError α) : Call (S × C) α :=
  ExceptT.mk (Prog.read fun s => (look s.2).mapError EncryptError.toStore)

@[simp] theorem Call.exec_crypt (program : Crypt C α) (s : S × C) :
    (Call.crypt program).exec s =
      ((program.exec s.2).1.mapError EncryptError.toStore, s.1, (program.exec s.2).2) := rfl

@[simp] theorem Call.exec_looking (look : C → Except EncryptError α) (s : S × C) :
    (Call.looking look).exec s = ((look s.2).mapError EncryptError.toStore, s) := rfl

def sealedGet (fetch : Call S (Option Bytes)) (decrypt : C → Bytes → Except EncryptError Bytes) :
    Call (S × C) (Option Bytes) := do
  match ← Call.onStore fetch with
  | none => pure none
  | some ct =>
      let pt ← Call.looking fun c => decrypt c ct
      pure (some pt)

def sealedPut (encrypt : Crypt C Bytes) (store : Bytes → Call S α) : Call (S × C) α := do
  let ct ← Call.crypt encrypt
  Call.onStore (store ct)

theorem exec_sealedGet {fetch : Call S (Option Bytes)}
    {decrypt : C → Bytes → Except EncryptError Bytes} {s s' : S} {c : C} {ct : Bytes}
    (fetches : fetch.exec s = (.ok (some ct), s')) :
    (sealedGet fetch decrypt).exec (s, c) =
      (((decrypt c ct).mapError EncryptError.toStore).map some, s', c) := by
  have fetched : (Call.onStore fetch : Call (S × C) (Option Bytes)).exec (s, c) =
      (.ok (some ct), s', c) := by
    rw [Call.exec_onStore, fetches]
  rw [sealedGet, Call.exec_bind_ok fetched]
  dsimp only
  rw [← map_eq_pure_bind, Call.exec_map, Call.exec_looking]

theorem exec_sealedPut {encrypt : Crypt C Bytes} {store : Bytes → Call S α} {s s' : S} {c c' : C}
    {ct : Bytes} {result : Except StoreError α} (encrypts : encrypt.exec c = (.ok ct, c'))
    (stores : (store ct).exec s = (result, s')) :
    (sealedPut encrypt store).exec (s, c) = (result, s', c') := by
  have seals : (Call.crypt encrypt : Call (S × C) Bytes).exec (s, c) = (.ok ct, s, c') := by
    rw [Call.exec_crypt, encrypts]
    rfl
  rw [sealedPut, Call.exec_bind_ok seals, Call.exec_onStore, stores]

def openItem (decrypt : Bytes → Bytes → Except EncryptError Bytes) (item : RangeItem) : RangeItem :=
  match item with
  | .ok (key, ct) => ((decrypt key ct).mapError EncryptError.toStore).map fun pt => (key, pt)
  | .error error => .error error

def openEach (raw : Call S RangeIter) (decrypt : C → Bytes → Bytes → Except EncryptError Bytes) :
    Call (S × C) RangeIter := do
  let rawIter ← Call.onStore raw
  let c ← Call.read Prod.snd
  pure (rawIter.map (openItem (decrypt c)))

def openAll (raw : Call S RangeIter) (decrypt : C → Bytes → Bytes → Except EncryptError Bytes) :
    Call (S × C) RangeIter := do
  let rawItems ← Call.onStore raw
  let c ← Call.read Prod.snd
  let decrypted ← Call.ofExcept (collectItems (rawItems.map (openItem (decrypt c))))
  pure (decrypted.map .ok)

variable (raw : Call S RangeIter) (decrypt : C → Bytes → Bytes → Except EncryptError Bytes)

theorem exec_collect_openAll (s : S × C) :
    (openAll raw decrypt).collect.exec s = (openEach raw decrypt).collect.exec s := by
  unfold openAll openEach Call.collect
  simp only [bind_assoc, Call.exec_bind, Call.exec_onStore, Call.exec_read, Call.exec_ofExcept,
    Call.exec_pure]
  rcases raw.exec s.1 with ⟨error | items, s'⟩
  · rfl
  · dsimp only
    cases collectItems (items.map (openItem (decrypt s.2))) with
    | error error => rfl
    | ok pairs => simp

theorem exec_openEach_state (s : S × C) :
    ((openEach raw decrypt).exec s).2 = ((raw.exec s.1).2, s.2) := by
  unfold openEach
  simp only [Call.exec_bind, Call.exec_onStore, Call.exec_read, Call.exec_pure]
  rcases raw.exec s.1 with ⟨error | items, s'⟩
  all_goals rfl

theorem exec_openAll_state (s : S × C) :
    ((openAll raw decrypt).exec s).2 = ((raw.exec s.1).2, s.2) := by
  unfold openAll
  simp only [Call.exec_bind, Call.exec_onStore, Call.exec_read, Call.exec_ofExcept, Call.exec_pure]
  rcases raw.exec s.1 with ⟨error | items, s'⟩
  · rfl
  · dsimp only
    cases collectItems (items.map (openItem (decrypt s.2))) <;> rfl

end

/-! ### What sealed values stand for -/

/-- **A cipher's states and what sealed values stand for.** -/
structure Codec (C : Type) where
  /-- The cipher can seal. -/
  valid : C → Prop
  /-- Under this key the stored value stands for the plaintext. -/
  stands : C → Bytes → Bytes → Bytes → Prop
  /-- The failures so far. -/
  faults : C → ℕ
  /-- What calls may make of a state. -/
  later : C → C → Prop
  later_refl (c : C) : later c c
  later_trans {c c' c'' : C} : later c c' → later c' c'' → later c c''
  faults_later {c c' : C} : later c c' → faults c ≤ faults c'
  stands_later {c c' : C} {key stored plain : Bytes} :
    later c c' → stands c key stored plain → stands c' key stored plain

def Codec.Encrypts {C : Type} (codec : Codec C) (encrypt : Crypt C Bytes) (key plain : Bytes) : Prop :=
  ∀ c, codec.valid c → codec.later c (encrypt.exec c).2 ∧ codec.valid (encrypt.exec c).2 ∧
    match (encrypt.exec c).1 with
    | .ok ct => codec.stands (encrypt.exec c).2 key ct plain
    | .error _ => codec.faults c < codec.faults (encrypt.exec c).2

structure Wraps (T T' : Type) where
  inner : T' → T
  sound : T' → Prop

section

variable {S T N C T' N' : Type} (V : MapView S T N) (codec : Codec C) (txns : Wraps T T')
  (snaps : Wraps N N')

def sealedView : MapView (S × C) T' N' where
  shows s contents := codec.valid s.2 ∧
    ∃ stored, V.shows s.1 stored ∧ Related (codec.stands s.2) stored contents
  stages s txn changes := txns.sound txn ∧
    ∃ stored, V.stages s.1 (txns.inner txn) stored ∧ RelatedChanges (codec.stands s.2) stored changes
  captures s snap held := snaps.sound snap ∧
    ∃ stored, V.captures s.1 (snaps.inner snap) stored ∧ Related (codec.stands s.2) stored held
  faults s := V.faults s.1 + codec.faults s.2
  later s s' := V.later s.1 s'.1 ∧ codec.later s.2 s'.2
  later_refl s := ⟨V.later_refl s.1, codec.later_refl s.2⟩
  later_trans first second :=
    ⟨V.later_trans first.1 second.1, codec.later_trans first.2 second.2⟩
  faults_later later := Nat.add_le_add (V.faults_later later.1) (codec.faults_later later.2)
  stages_later later := fun ⟨sound, stored, staged, related⟩ =>
    ⟨sound, stored, V.stages_later later.1 staged,
      related.mono fun _ _ _ => codec.stands_later later.2⟩
  captures_later later := fun ⟨sound, stored, captured, related⟩ =>
    ⟨sound, stored, V.captures_later later.1 captured,
      related.mono fun _ _ _ => codec.stands_later later.2⟩

variable {V codec txns snaps} {α : Type} {s : S} {c : C} {stored contents : Contents}
  (valid : codec.valid c) (related : Related (codec.stands c) stored contents)

include valid related

theorem serves_onStore {call : Call S α} {done : α → S → Prop} (inner : V.Serves call s stored done) :
    (sealedView V codec txns snaps).Serves (Call.onStore call) (s, c) contents
      fun value s' => s'.2 = c ∧ done value s'.1 := by
  have exec := Call.exec_onStore call (s, c)
  rcases runs : call.exec s with ⟨error | value, s'⟩
  · rw [runs] at exec
    obtain ⟨later, faulted, shown⟩ := inner.of_error runs
    exact MapView.serves_of_error exec ⟨later, codec.later_refl c⟩
      (Nat.add_lt_add_right faulted _) ⟨valid, stored, shown, related⟩
  · rw [runs] at exec
    obtain ⟨later, ends⟩ := inner.of_ok runs
    exact MapView.serves_of_exec exec ⟨later, codec.later_refl c⟩ ⟨rfl, ends⟩

theorem serves_sealedGet {fetch : Call S (Option Bytes)}
    {decrypt : C → Bytes → Except EncryptError Bytes} {key : Bytes} {found plain : Option Bytes}
    (inner : V.Serves fetch s stored fun value s' => value = found ∧ V.shows s' stored)
    (stands : Option.Rel (codec.stands c key) found plain)
    (opens : ∀ ct pt, codec.stands c key ct pt → decrypt c ct = .ok pt) :
    (sealedView V codec txns snaps).Serves (sealedGet fetch decrypt) (s, c) contents
      fun value s' => value = plain ∧ (sealedView V codec txns snaps).shows s' contents := by
  refine (serves_onStore valid related inner).bind fun value s' _ ends => ?_
  obtain ⟨s', c'⟩ := s'
  obtain ⟨rfl, rfl, shown⟩ := ends
  cases stands with
  | none => exact MapView.serves_pure ⟨rfl, valid, stored, shown, related⟩
  | some holds =>
    rename_i ct pt
    have opened : (Call.looking fun c => decrypt c ct : Call (S × C) Bytes).exec (s', c') =
        (.ok pt, s', c') := by
      rw [Call.exec_looking, opens ct pt holds]
      rfl
    exact MapView.serves_of_exec (Call.exec_bind_ok opened) (MapView.later_refl _ _)
      ⟨rfl, valid, stored, shown, related⟩

theorem serves_sealedPut {encrypt : Crypt C Bytes} {store : Bytes → Call S α} {key plain : Bytes}
    {done : α → Bytes → S → Prop} (shown : V.shows s stored)
    (encrypts : codec.Encrypts encrypt key plain)
    (inner : ∀ ct, V.Serves (store ct) s stored fun value s' => done value ct s') :
    (sealedView V codec txns snaps).Serves (sealedPut encrypt store) (s, c) contents
      fun value s' => ∃ ct, codec.later c s'.2 ∧ codec.valid s'.2 ∧
        codec.stands s'.2 key ct plain ∧ done value ct s'.1 := by
  obtain ⟨later, valid', result⟩ := encrypts c valid
  have exec := Call.exec_crypt (S := S) encrypt (s, c)
  rcases runs : encrypt.exec c with ⟨error | ct, c'⟩
  all_goals
    rw [runs] at later valid' result exec
    have related' := related.mono fun _ _ _ => codec.stands_later later
  · have fails : (sealedPut encrypt store).exec (s, c) = (.error error.toStore, s, c') := by
      rw [sealedPut, Call.exec_bind, exec]
      rfl
    exact MapView.serves_of_error fails ⟨V.later_refl s, later⟩ (Nat.add_lt_add_left result _)
      ⟨valid', stored, shown, related'⟩
  · have seals : (Call.crypt encrypt).exec (s, c) = (.ok ct, s, c') := exec
    have first : (sealedView V codec txns snaps).Serves (Call.crypt encrypt) (s, c) contents
        fun value s' => value = ct ∧ s' = (s, c') :=
      MapView.serves_of_exec seals ⟨V.later_refl s, later⟩ ⟨rfl, rfl⟩
    refine first.bind fun value s' _ ends => ?_
    obtain ⟨rfl, rfl⟩ := ends
    refine (serves_onStore valid' related' (inner value)).mono fun answer s' _ ends => ?_
    obtain ⟨s', c''⟩ := s'
    obtain ⟨rfl, ends⟩ := ends
    exact ⟨value, later, valid', result, ends⟩

variable {decrypt : Bytes → Bytes → Except EncryptError Bytes} {listed plain : List (Bytes × Bytes)}

omit valid related in
theorem map_openItem (stands : RelatedPairs (codec.stands c) listed plain)
    (opens : ∀ key ct pt, codec.stands c key ct pt → decrypt key ct = .ok pt) :
    (listed.map .ok).map (openItem decrypt) = plain.map .ok := by
  induction stands with
  | nil => rfl
  | cons same _ ih =>
    rename_i pair pair' _ _ _
    obtain ⟨keys, holds⟩ := same
    have opened : openItem decrypt (.ok pair) = .ok pair' := by
      simp only [openItem, opens _ _ _ holds]
      exact congrArg Except.ok (Prod.ext keys rfl)
    rw [List.map_cons, List.map_cons, List.map_cons, ih, opened]

omit valid related in
theorem collectItems_openItem {items : RangeIter}
    (succeeds : ∃ pairs, collectItems (items.map (openItem decrypt)) = .ok pairs) :
    ∃ pairs, collectItems items = .ok pairs := by
  rw [collectItems_isOk_iff] at succeeds ⊢
  intro item member
  cases item with
  | ok pair => exact ⟨pair, rfl⟩
  | error error =>
    obtain ⟨pair, impossible⟩ := succeeds _ (List.mem_map_of_mem member)
    cases impossible

theorem serves_openEach {raw : Call S RangeIter} {decrypt : C → Bytes → Bytes → Except EncryptError Bytes}
    (inner : V.Serves raw.collect s stored fun pairs s' => pairs = listed ∧ V.shows s' stored)
    (stands : RelatedPairs (codec.stands c) listed plain)
    (opens : ∀ key ct pt, codec.stands c key ct pt → decrypt c key ct = .ok pt) :
    (sealedView V codec txns snaps).Serves (openEach raw decrypt).collect (s, c) contents
      fun pairs s' => pairs = plain ∧ (sealedView V codec txns snaps).shows s' contents := by
  have same : (openEach raw decrypt).collect.exec (s, c) = (Call.collect (do
      let rawIter ← Call.onStore raw
      pure (rawIter.map (openItem (decrypt c))))).exec (s, c) := by
    simp only [openEach, Call.collect, bind_assoc, Call.exec_bind, Call.exec_onStore, Call.exec_read,
      Call.exec_pure]
    rcases raw.exec s with ⟨error | items, s'⟩
    all_goals rfl
  have collects : (Call.onStore raw).collect.exec (s, c) = (Call.onStore raw.collect).exec (s, c) := by
    simp only [Call.collect, Call.exec_bind, Call.exec_onStore, Call.exec_ofExcept]
    rcases raw.exec s with ⟨error | items, s'⟩
    all_goals rfl
  refine .congr same (MapView.Serves.collect_map _ (fun _ => collectItems_openItem) (.congr collects
    ((serves_onStore valid related inner).mono fun pairs s' _ ends => ?_)))
  obtain ⟨s', c'⟩ := s'
  obtain ⟨rfl, rfl, shown⟩ := ends
  exact ⟨plain, map_openItem stands opens, rfl, valid, stored, shown, related⟩

end

/-! ### Decorators -/

section

variable {S T N C T' N' : Type}

def Fetches (codec : Codec C) (key : Bytes) (call : Call (S × C) (Option Bytes))
    (inner : Call S (Option Bytes)) : Prop :=
  ∃ decrypt, call = sealedGet inner decrypt ∧
    ∀ c ct pt, codec.stands c key ct pt → decrypt c ct = .ok pt

def Yields (codec : Codec C) (call : Call (S × C) RangeIter) (inner : Call S RangeIter) : Prop :=
  ∃ decrypt, (∀ s, call.collect.exec s = (openEach inner decrypt).collect.exec s) ∧
    (∀ s, (call.exec s).2 = ((inner.exec s.1).2, s.2)) ∧
    ∀ c key ct pt, codec.stands c key ct pt → decrypt c key ct = .ok pt

def Wraps.Makes (wraps : Wraps T T') (wrap : T → T') : Prop :=
  ∀ inner, wraps.inner (wrap inner) = inner ∧ wraps.sound (wrap inner)

/-- **A decorator that seals values**: every method is the inner store's, with values sealed on the way
in and opened on the way out. -/
structure Seals (codec : Codec C) (txns : Wraps T T') (snaps : Wraps N N') (inner : KvStore S T N)
    (kv : KvStore (S × C) T' N') : Prop where
  get (key : Bytes) : Fetches codec key (kv.get key) (inner.get key)
  contains (key : Bytes) : kv.contains key = Call.onStore (inner.contains key)
  put (key value : Bytes) : ∃ encrypt, kv.put key value = sealedPut encrypt (inner.put key) ∧
    codec.Encrypts encrypt key value
  delete (key : Bytes) : kv.delete key = Call.onStore (inner.delete key)
  range (low high : Bytes) : Yields codec (kv.range low high) (inner.range low high)
  iter : Yields codec kv.iter inner.iter
  flush : kv.flush = Call.onStore inner.flush
  transaction : ∃ wrap, txns.Makes wrap ∧
    ∀ s, kv.transaction.exec s = (wrap <$> Call.onStore inner.transaction).exec s
  txn_get {txn : T'} (sound : txns.sound txn) (key : Bytes) :
    Fetches codec key (kv.txn.get txn key) (inner.txn.get (txns.inner txn) key)
  txn_contains (txn : T') (key : Bytes) :
    kv.txn.contains txn key = Call.onStore (inner.txn.contains (txns.inner txn) key)
  txn_range {txn : T'} (sound : txns.sound txn) (low high : Bytes) :
    Yields codec (kv.txn.range txn low high) (inner.txn.range (txns.inner txn) low high)
  txn_put {txn : T'} (sound : txns.sound txn) (key value : Bytes) : ∃ wrap encrypt, txns.Makes wrap ∧
    kv.txn.put txn key value = wrap <$> sealedPut encrypt (inner.txn.put (txns.inner txn) key) ∧
    codec.Encrypts encrypt key value
  txn_delete {txn : T'} (sound : txns.sound txn) (key : Bytes) : ∃ wrap, txns.Makes wrap ∧
    kv.txn.delete txn key = wrap <$> Call.onStore (inner.txn.delete (txns.inner txn) key)
  txn_commit (txn : T') : kv.txn.commit txn = Call.onStore (inner.txn.commit (txns.inner txn))
  txn_rollback (txn : T') : kv.txn.rollback txn = Call.onStore (inner.txn.rollback (txns.inner txn))
  snapshot : ∃ wrap, snaps.Makes wrap ∧
    ∀ s, kv.snapshot.exec s = (wrap <$> Call.onStore inner.snapshot).exec s
  snap_get {snap : N'} (sound : snaps.sound snap) (key : Bytes) :
    Fetches codec key (kv.snap.get snap key) (inner.snap.get (snaps.inner snap) key)
  snap_contains (snap : N') (key : Bytes) :
    kv.snap.contains snap key = Call.onStore (inner.snap.contains (snaps.inner snap) key) ∨
      kv.snap.contains snap key = Option.isSome <$> kv.snap.get snap key
  snap_range {snap : N'} (sound : snaps.sound snap) (low high : Bytes) :
    Yields codec (kv.snap.range snap low high) (inner.snap.range (snaps.inner snap) low high)
  snap_prefixScan (snap : N') : kv.snap.prefixScan snap = snapPrefixScanByRange (kv.snap.range snap)

variable {V : MapView S T N} {codec : Codec C} {txns : Wraps T T'} {snaps : Wraps N N'} {s : S × C}
  {stored contents : Contents} (valid : codec.valid s.2)
  (related : Related (codec.stands s.2) stored contents)

include valid related

theorem Fetches.serves {key : Bytes} {call : Call (S × C) (Option Bytes)}
    {inner : Call S (Option Bytes)} (fetches : Fetches codec key call inner)
    {found plain : Option Bytes} (stands : Option.Rel (codec.stands s.2 key) found plain)
    (served : V.Serves inner s.1 stored fun value s' => value = found ∧ V.shows s' stored) :
    (sealedView V codec txns snaps).Serves call s contents
      fun value s' => value = plain ∧ (sealedView V codec txns snaps).shows s' contents := by
  obtain ⟨decrypt, rfl, opens⟩ := fetches
  exact serves_sealedGet valid related served stands (opens s.2)

variable {call : Call (S × C) RangeIter}

theorem Yields.serves {inner : Call S RangeIter} (yields : Yields codec call inner)
    {listed plain : List (Bytes × Bytes)} (stands : RelatedPairs (codec.stands s.2) listed plain)
    (served : V.Serves inner.collect s.1 stored fun pairs s' => pairs = listed ∧ V.shows s' stored) :
    (sealedView V codec txns snaps).Serves call.collect s contents
      fun pairs s' => pairs = plain ∧ (sealedView V codec txns snaps).shows s' contents := by
  obtain ⟨decrypt, same, _, opens⟩ := yields
  exact .congr (same s) (serves_openEach valid related served stands (opens s.2))

theorem Yields.quiet {inner : Call S RangeIter} (yields : Yields codec call inner)
    (served : V.later s.1 (inner.exec s.1).2 ∧ V.shows (inner.exec s.1).2 stored) :
    (sealedView V codec txns snaps).later s (call.exec s).2 ∧
      (sealedView V codec txns snaps).shows (call.exec s).2 contents := by
  obtain ⟨decrypt, _, state, _⟩ := yields
  rw [state s]
  exact ⟨⟨served.1, codec.later_refl s.2⟩, valid, stored, served.2, related⟩

theorem serves_reading {α : Type} {call : Call S α} {found : α}
    (served : V.Serves call s.1 stored fun value s' => value = found ∧ V.shows s' stored) :
    (sealedView V codec txns snaps).Serves (Call.onStore call) s contents
      fun value s' => value = found ∧ (sealedView V codec txns snaps).shows s' contents := by
  refine (serves_onStore valid related served).mono fun value s' _ ends => ?_
  obtain ⟨s', c'⟩ := s'
  obtain ⟨rfl, same, shown⟩ := ends
  exact ⟨same, valid, stored, shown, related⟩

theorem serves_writing {α : Type} {call : Call S α} {stored' contents' : Contents}
    (related' : Related (codec.stands s.2) stored' contents')
    (served : V.Serves call s.1 stored fun _ s' => V.shows s' stored') :
    (sealedView V codec txns snaps).Serves (Call.onStore call) s contents
      fun _ s' => (sealedView V codec txns snaps).shows s' contents' := by
  refine (serves_onStore valid related served).mono fun value s' _ ends => ?_
  obtain ⟨s', c'⟩ := s'
  obtain ⟨rfl, shown⟩ := ends
  exact ⟨valid, stored', shown, related'⟩

omit valid related in
theorem Seals.mapLike {inner : KvStore S T N} {kv : KvStore (S × C) T' N'}
    (seals : Seals codec txns snaps inner kv) (like : MapLike V inner) :
    MapLike (sealedView V codec txns snaps) kv where
  get {s contents} shown key := by
    obtain ⟨valid, stored, shown, related⟩ := shown
    exact (seals.get key).serves valid related (related key) (like.get shown key)
  contains {s contents} shown key := by
    obtain ⟨valid, stored, shown, related⟩ := shown
    rw [seals.contains, ← rel_isSome (related key)]
    exact serves_reading valid related (like.contains shown key)
  put {s contents} shown key value := by
    obtain ⟨valid, stored, shown, related⟩ := shown
    obtain ⟨encrypt, same, encrypts⟩ := seals.put key value
    rw [same]
    refine (serves_sealedPut valid related shown encrypts fun ct => like.put shown key ct).mono
      fun _ s' _ ends => ?_
    obtain ⟨ct, later, valid', holds, shown'⟩ := ends
    exact ⟨valid', _, shown', (related.mono fun _ _ _ => codec.stands_later later).insert holds⟩
  delete {s contents} shown key := by
    obtain ⟨valid, stored, shown, related⟩ := shown
    rw [seals.delete]
    exact serves_writing valid related (related.erase key) (like.delete shown key)
  range {s contents} shown low high ordered := by
    obtain ⟨valid, stored, shown, related⟩ := shown
    exact (seals.range low high).serves valid related (related.scan _) (like.range shown ordered)
  range_reversed {s contents} shown low high := by
    obtain ⟨valid, stored, shown, related⟩ := shown
    exact (seals.range low high).quiet valid related (like.range_reversed shown low high)
  iter {s contents} shown := by
    obtain ⟨valid, stored, shown, related⟩ := shown
    exact seals.iter.serves valid related (related.scan _) (like.iter shown)
  flush {s contents} shown := by
    obtain ⟨valid, stored, shown, related⟩ := shown
    rw [seals.flush]
    exact serves_writing valid related related (like.flush shown)
  transaction {s contents} shown := by
    obtain ⟨valid, stored, shown, related⟩ := shown
    obtain ⟨wrap, makes, same⟩ := seals.transaction
    refine .congr (same s) (.map wrap ?_)
    refine (serves_onStore valid related (like.transaction shown)).mono fun txn s' _ ends => ?_
    obtain ⟨s', c'⟩ := s'
    obtain ⟨rfl, begun, shown'⟩ := ends
    refine ⟨⟨(makes txn).2, [], ?_, .nil⟩, valid, stored, shown', related⟩
    rwa [(makes txn).1]
  txn_get {s contents txn changes} shown staged key := by
    obtain ⟨valid, stored, shown, related⟩ := shown
    obtain ⟨sound, batch, staged, amended⟩ := staged
    exact (seals.txn_get sound key).serves valid related (related.amendAll amended key)
      (like.txn_get shown staged key)
  txn_contains {s contents txn changes} shown staged key := by
    obtain ⟨valid, stored, shown, related⟩ := shown
    obtain ⟨sound, batch, staged, amended⟩ := staged
    rw [seals.txn_contains, ← rel_isSome (related.amendAll amended key)]
    exact serves_reading valid related (like.txn_contains shown staged key)
  txn_range {s contents txn changes} shown staged low high ordered := by
    obtain ⟨valid, stored, shown, related⟩ := shown
    obtain ⟨sound, batch, staged, amended⟩ := staged
    exact (seals.txn_range sound low high).serves valid related ((related.amendAll amended).scan _)
      (like.txn_range shown staged ordered)
  txn_range_reversed {s contents txn changes} shown staged low high := by
    obtain ⟨valid, stored, shown, related⟩ := shown
    obtain ⟨sound, batch, staged, amended⟩ := staged
    exact (seals.txn_range sound low high).quiet valid related
      (like.txn_range_reversed shown staged low high)
  txn_put {s contents txn changes} shown staged key value := by
    obtain ⟨valid, stored, shown, related⟩ := shown
    obtain ⟨sound, batch, staged, amended⟩ := staged
    obtain ⟨wrap, encrypt, makes, same, encrypts⟩ := seals.txn_put sound key value
    rw [same]
    refine .map wrap ((serves_sealedPut valid related shown encrypts fun ct =>
      like.txn_put shown staged key ct).mono fun txn' s' _ ends => ?_)
    obtain ⟨ct, later, valid', holds, staged', shown'⟩ := ends
    have carried := amended.mono fun _ _ _ => codec.stands_later later
    refine ⟨⟨(makes txn').2, batch ++ [(key, some ct)], ?_, ?_⟩, valid', stored, shown',
      related.mono fun _ _ _ => codec.stands_later later⟩
    · rwa [(makes txn').1]
    · exact List.rel_append carried (.cons ⟨rfl, .some holds⟩ .nil)
  txn_delete {s contents txn changes} shown staged key := by
    obtain ⟨valid, stored, shown, related⟩ := shown
    obtain ⟨sound, batch, staged, amended⟩ := staged
    obtain ⟨wrap, makes, same⟩ := seals.txn_delete sound key
    rw [same]
    refine .map wrap ((serves_onStore valid related (like.txn_delete shown staged key)).mono
      fun txn' s' _ ends => ?_)
    obtain ⟨s', c'⟩ := s'
    obtain ⟨rfl, staged', shown'⟩ := ends
    refine ⟨⟨(makes txn').2, batch ++ [(key, none)], ?_, ?_⟩, valid, stored, shown', related⟩
    · rwa [(makes txn').1]
    · exact List.rel_append amended (.cons ⟨rfl, .none⟩ .nil)
  txn_commit {s contents txn changes} shown staged := by
    obtain ⟨valid, stored, shown, related⟩ := shown
    obtain ⟨sound, batch, staged, amended⟩ := staged
    rw [seals.txn_commit]
    exact serves_writing valid related (related.amendAll amended) (like.txn_commit shown staged)
  txn_rollback {s contents txn changes} shown staged := by
    obtain ⟨valid, stored, shown, related⟩ := shown
    obtain ⟨sound, batch, staged, amended⟩ := staged
    rw [seals.txn_rollback]
    exact serves_writing valid related related (like.txn_rollback shown staged)
  snapshot {s contents} shown := by
    obtain ⟨valid, stored, shown, related⟩ := shown
    obtain ⟨wrap, makes, same⟩ := seals.snapshot
    refine .congr (same s) (.map wrap ?_)
    refine (serves_onStore valid related (like.snapshot shown)).mono fun snap s' _ ends => ?_
    obtain ⟨s', c'⟩ := s'
    obtain ⟨rfl, taken, shown'⟩ := ends
    refine ⟨⟨(makes snap).2, stored, ?_, related⟩, valid, stored, shown', related⟩
    rwa [(makes snap).1]
  snap_get {s contents held snap} shown captured key := by
    obtain ⟨valid, stored, shown, related⟩ := shown
    obtain ⟨sound, kept, captured, relatedHeld⟩ := captured
    exact (seals.snap_get sound key).serves valid related (relatedHeld key)
      (like.snap_get shown captured key)
  snap_contains {s contents held snap} shown captured key := by
    obtain ⟨valid, stored, shown, related⟩ := shown
    obtain ⟨sound, kept, captured, relatedHeld⟩ := captured
    rcases seals.snap_contains snap key with same | same
    · rw [same, ← rel_isSome (relatedHeld key)]
      exact serves_reading valid related (like.snap_contains shown captured key)
    · rw [same]
      exact ((seals.snap_get sound key).serves valid related (relatedHeld key)
        (like.snap_get shown captured key)).map_eq _
  snap_range {s contents held snap} shown captured low high ordered := by
    obtain ⟨valid, stored, shown, related⟩ := shown
    obtain ⟨sound, kept, captured, relatedHeld⟩ := captured
    exact (seals.snap_range sound low high).serves valid related (relatedHeld.scan _)
      (like.snap_range shown captured ordered)
  snap_range_reversed {s contents held snap} shown captured low high := by
    obtain ⟨valid, stored, shown, related⟩ := shown
    obtain ⟨sound, kept, captured, relatedHeld⟩ := captured
    exact (seals.snap_range sound low high).quiet valid related
      (like.snap_range_reversed shown captured low high)
  snap_prefixScan {s contents held snap} shown captured start := by
    obtain ⟨valid, stored, shown, related⟩ := shown
    obtain ⟨sound, kept, captured, relatedHeld⟩ := captured
    rw [seals.snap_prefixScan]
    refine MapView.serves_snapPrefixScan (fun {low high} ordered => ?_) start
    exact (seals.snap_range sound low high).serves valid related (relatedHeld.scan _)
      (like.snap_range shown captured ordered)

end

end OxiStore
