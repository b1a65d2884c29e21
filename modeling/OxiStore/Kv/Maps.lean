/-
**Stores that behave as a map.**
-/

import OxiStore.Kv.PrefixScans

namespace OxiStore

open ByteString OrdTable Call

abbrev Contents := Table Bytes Bytes

abbrev Changes := List (Bytes × Option Bytes)

/-! ### Scans as lists of pairs -/

section

variable {α : Type}

theorem collectItems_isOk_iff {items : List (Except StoreError α)} :
    (∃ values, collectItems items = .ok values) ↔ ∀ item ∈ items, ∃ value, item = .ok value := by
  simp only [collectItems_eq_ok_iff]
  constructor
  · rintro ⟨values, rfl⟩ item member
    obtain ⟨value, _, rfl⟩ := List.mem_map.mp member
    exact ⟨value, rfl⟩
  · intro all
    induction items with
    | nil => exact ⟨[], rfl⟩
    | cons item items ih =>
      obtain ⟨value, rfl⟩ := all item List.mem_cons_self
      obtain ⟨values, rfl⟩ := ih fun item member => all item (List.mem_cons_of_mem _ member)
      exact ⟨value :: values, rfl⟩

def Call.collect {S : Type} (scan : Call S (List (Except StoreError α))) : Call S (List α) := do
  let items ← scan
  Call.ofExcept (collectItems items)

end

/-! ### Views -/

/-- **How the states, transactions and snapshots of a store are read as maps.** -/
structure MapView (S T N : Type) where
  /-- A reader of the state sees these contents. -/
  shows : S → Contents → Prop
  /-- The transaction has these changes staged. -/
  stages : S → T → Changes → Prop
  /-- The snapshot holds these contents. -/
  captures : S → N → Contents → Prop
  /-- The failures so far. -/
  faults : S → ℕ
  /-- What calls may make of a state. -/
  later : S → S → Prop
  later_refl (s : S) : later s s
  later_trans {s s' s'' : S} : later s s' → later s' s'' → later s s''
  faults_later {s s' : S} : later s s' → faults s ≤ faults s'
  stages_later {s s' : S} {txn : T} {changes : Changes} :
    later s s' → stages s txn changes → stages s' txn changes
  captures_later {s s' : S} {snap : N} {held : Contents} :
    later s s' → captures s snap held → captures s' snap held

namespace MapView

variable {S T N α β : Type} (view : MapView S T N)

def Serves (call : Call S α) (s : S) (contents : Contents) (done : α → S → Prop) : Prop :=
  view.later s (call.exec s).2 ∧
    match (call.exec s).1 with
    | .ok value => done value (call.exec s).2
    | .error _ => view.faults s < view.faults (call.exec s).2 ∧ view.shows (call.exec s).2 contents

variable {view} {call : Call S α} {rest : α → Call S β} {s : S} {contents : Contents} {done : α → S → Prop}
  {s' : S} {value : α}

theorem serves_of_exec (runs : call.exec s = (.ok value, s')) (later : view.later s s')
    (ends : done value s') : view.Serves call s contents done := by
  unfold Serves
  rw [runs]
  exact ⟨later, ends⟩

theorem serves_pure (ends : done value s) :
    view.Serves (pure value) s contents done :=
  serves_of_exec (exec_pure value s) (view.later_refl s) ends

theorem serves_of_error {error : StoreError} (runs : call.exec s = (.error error, s'))
    (later : view.later s s') (faulted : view.faults s < view.faults s') (shown : view.shows s' contents) :
    view.Serves call s contents done := by
  unfold Serves
  rw [runs]
  exact ⟨later, faulted, shown⟩

theorem Serves.congr {call' : Call S α} (same : call.exec s = call'.exec s)
    (serves : view.Serves call' s contents done) : view.Serves call s contents done := by
  unfold Serves at serves ⊢
  rwa [same]

variable (serves : view.Serves call s contents done)

include serves

theorem Serves.of_ok (runs : call.exec s = (.ok value, s')) :
    view.later s s' ∧ done value s' := by
  unfold Serves at serves
  rwa [runs] at serves

theorem Serves.of_error {error : StoreError} (runs : call.exec s = (.error error, s')) :
    view.later s s' ∧ view.faults s < view.faults s' ∧ view.shows s' contents := by
  unfold Serves at serves
  rwa [runs] at serves

theorem Serves.mono {weaker : α → S → Prop}
    (implies : ∀ value s', view.later s s' → done value s' → weaker value s') :
    view.Serves call s contents weaker := by
  rcases runs : call.exec s with ⟨_ | value, s'⟩
  · obtain ⟨later, faulted, shown⟩ := serves.of_error runs
    exact serves_of_error runs later faulted shown
  · obtain ⟨later, ends⟩ := serves.of_ok runs
    exact serves_of_exec runs later (implies value s' later ends)

omit serves

theorem Serves.bind {mid : α → S → Prop} {done : β → S → Prop}
    (first : view.Serves call s contents mid)
    (second : ∀ value s', view.later s s' → mid value s' → view.Serves (rest value) s' contents done) :
    view.Serves (call >>= rest) s contents done := by
  rcases runs : call.exec s with ⟨error | value, s'⟩
  · obtain ⟨later, faulted, shown⟩ := first.of_error runs
    have fails : (call >>= rest).exec s = (.error error, s') := by rw [exec_bind, runs]
    exact serves_of_error fails later faulted shown
  · obtain ⟨later, ends⟩ := first.of_ok runs
    have continues := second value s' later ends
    rcases runs' : (rest value).exec s' with ⟨error | value', s''⟩
    · obtain ⟨later', faulted, shown⟩ := continues.of_error runs'
      exact serves_of_error ((exec_bind_ok runs).trans runs') (view.later_trans later later')
        (lt_of_le_of_lt (view.faults_later later) faulted) shown
    · obtain ⟨later', ends'⟩ := continues.of_ok runs'
      exact serves_of_exec ((exec_bind_ok runs).trans runs') (view.later_trans later later') ends'

theorem Serves.map {done : β → S → Prop} (f : α → β)
    (serves : view.Serves call s contents fun value s' => done (f value) s') :
    view.Serves (f <$> call) s contents done := by
  rw [map_eq_pure_bind]
  exact serves.bind fun value s' _ ends => serves_pure ends

theorem Serves.map_eq {ends : S → Prop} (f : α → β)
    (serves : view.Serves call s contents fun found s' => found = value ∧ ends s') :
    view.Serves (f <$> call) s contents fun reply s' => reply = f value ∧ ends s' :=
  Serves.map f (serves.mono fun _ _ _ read => ⟨congrArg f read.1, read.2⟩)

def ReliableFrom (view : MapView S T N) (s : S) : Prop :=
  ∀ s', view.later s s' → view.faults s' = view.faults s

theorem ReliableFrom.later (reliable : view.ReliableFrom s) (follows : view.later s s') :
    view.ReliableFrom s' := by
  intro s'' follows'
  rw [reliable s'' (view.later_trans follows follows'), reliable s' follows]

include serves in
theorem Serves.exec_ok (reliable : view.ReliableFrom s) :
    ∃ value s', call.exec s = (.ok value, s') ∧ view.later s s' ∧ done value s' := by
  rcases runs : call.exec s with ⟨error | value, s'⟩
  · obtain ⟨later, faulted, _⟩ := serves.of_error runs
    exact absurd faulted (reliable s' later).not_gt
  · exact ⟨value, s', rfl, serves.of_ok runs⟩

theorem Serves.collect_map {scan : Call S (List (Except StoreError α))} {done : List β → S → Prop}
    (items : List (Except StoreError α) → List (Except StoreError β))
    (fails : ∀ yielded, (∃ listed, collectItems (items yielded) = .ok listed) →
      ∃ listed, collectItems yielded = .ok listed)
    (serves : view.Serves scan.collect s contents fun listed s' =>
      ∃ listed', items (listed.map .ok) = listed'.map .ok ∧ done listed' s') :
    view.Serves (collect (do
      let yielded ← scan
      pure (items yielded))) s contents done := by
  rcases runs : scan.exec s with ⟨error | yielded, s'⟩
  · have fails : scan.collect.exec s = (.error error, s') := by rw [collect, exec_bind, runs]
    obtain ⟨later, faulted, shown⟩ := serves.of_error fails
    have fails' : (collect (do
        let yielded ← scan
        pure (items yielded))).exec s = (.error error, s') := by
      rw [collect, bind_assoc, exec_bind, runs]
    exact serves_of_error fails' later faulted shown
  · have collects : scan.collect.exec s = (collectItems yielded, s') := exec_bind_ok runs
    have rearranges : (collect (do
        let yielded ← scan
        pure (items yielded))).exec s = (collectItems (items yielded), s') := by
      rw [collect, bind_assoc, exec_bind_ok runs]
      rfl
    cases collected : collectItems yielded with
    | ok listed =>
      rw [collected] at collects
      obtain ⟨later, listed', yields, ends⟩ := serves.of_ok collects
      rw [collectItems_eq_ok_iff.mp collected, yields, collectItems_ok] at rearranges
      exact serves_of_exec rearranges later ends
    | error error =>
      rw [collected] at collects
      obtain ⟨later, faulted, shown⟩ := serves.of_error collects
      cases rearranged : collectItems (items yielded) with
      | ok listed =>
        obtain ⟨listed', impossible⟩ := fails yielded ⟨listed, rearranged⟩
        simp [collected] at impossible
      | error error' =>
        rw [rearranged] at rearranges
        exact serves_of_error rearranges later faulted shown

end MapView

/-! ### Map-like stores -/

section

variable {S T N : Type}

/-- **A store that is a map key by key**: what `get`, `put` and `delete` do. -/
structure KeyMap (view : MapView S T N) (kv : KvStore S T N) : Prop where
  get {s : S} {contents : Contents} (shown : view.shows s contents) (key : Bytes) :
    view.Serves (kv.get key) s contents fun value s' =>
      value = contents[key]? ∧ view.shows s' contents
  put {s : S} {contents : Contents} (shown : view.shows s contents) (key value : Bytes) :
    view.Serves (kv.put key value) s contents fun _ s' => view.shows s' (contents.insert key value)
  delete {s : S} {contents : Contents} (shown : view.shows s contents) (key : Bytes) :
    view.Serves (kv.delete key) s contents fun _ s' => view.shows s' (contents.erase key)

/-- **A store that behaves as a map**, with its transactions and snapshots. A range that starts behind its end
may do anything but change the store. -/
structure MapLike (view : MapView S T N) (kv : KvStore S T N) : Prop extends KeyMap view kv where
  contains {s : S} {contents : Contents} (shown : view.shows s contents) (key : Bytes) :
    view.Serves (kv.contains key) s contents fun found s' =>
      found = contents[key]?.isSome ∧ view.shows s' contents
  range {s : S} {contents : Contents} (shown : view.shows s contents) {low high : Bytes}
    (ordered : low ≤ high) : view.Serves (kv.range low high).collect s contents fun pairs s' =>
      pairs = scan contents (Within low high) ∧ view.shows s' contents
  range_reversed {s : S} {contents : Contents} (shown : view.shows s contents) (low high : Bytes) :
    view.later s ((kv.range low high).exec s).2 ∧ view.shows ((kv.range low high).exec s).2 contents
  iter {s : S} {contents : Contents} (shown : view.shows s contents) :
    view.Serves kv.iter.collect s contents fun pairs s' =>
      pairs = scan contents Anywhere ∧ view.shows s' contents
  flush {s : S} {contents : Contents} (shown : view.shows s contents) :
    view.Serves kv.flush s contents fun _ s' => view.shows s' contents
  transaction {s : S} {contents : Contents} (shown : view.shows s contents) :
    view.Serves kv.transaction s contents fun txn s' =>
      view.stages s' txn [] ∧ view.shows s' contents
  txn_get {s : S} {contents : Contents} {txn : T} {changes : Changes}
    (shown : view.shows s contents) (staged : view.stages s txn changes) (key : Bytes) :
    view.Serves (kv.txn.get txn key) s contents fun value s' =>
      value = (amendAll contents changes)[key]? ∧ view.shows s' contents
  txn_contains {s : S} {contents : Contents} {txn : T} {changes : Changes}
    (shown : view.shows s contents) (staged : view.stages s txn changes) (key : Bytes) :
    view.Serves (kv.txn.contains txn key) s contents fun found s' =>
      found = (amendAll contents changes)[key]?.isSome ∧ view.shows s' contents
  txn_range {s : S} {contents : Contents} {txn : T} {changes : Changes}
    (shown : view.shows s contents) (staged : view.stages s txn changes) {low high : Bytes}
    (ordered : low ≤ high) :
    view.Serves (kv.txn.range txn low high).collect s contents fun pairs s' =>
      pairs = scan (amendAll contents changes) (Within low high) ∧ view.shows s' contents
  txn_range_reversed {s : S} {contents : Contents} {txn : T} {changes : Changes}
    (shown : view.shows s contents) (staged : view.stages s txn changes) (low high : Bytes) :
    view.later s ((kv.txn.range txn low high).exec s).2 ∧
      view.shows ((kv.txn.range txn low high).exec s).2 contents
  txn_put {s : S} {contents : Contents} {txn : T} {changes : Changes}
    (shown : view.shows s contents) (staged : view.stages s txn changes) (key value : Bytes) :
    view.Serves (kv.txn.put txn key value) s contents fun txn' s' =>
      view.stages s' txn' (changes ++ [(key, some value)]) ∧ view.shows s' contents
  txn_delete {s : S} {contents : Contents} {txn : T} {changes : Changes}
    (shown : view.shows s contents) (staged : view.stages s txn changes) (key : Bytes) :
    view.Serves (kv.txn.delete txn key) s contents fun txn' s' =>
      view.stages s' txn' (changes ++ [(key, none)]) ∧ view.shows s' contents
  txn_commit {s : S} {contents : Contents} {txn : T} {changes : Changes}
    (shown : view.shows s contents) (staged : view.stages s txn changes) :
    view.Serves (kv.txn.commit txn) s contents fun _ s' => view.shows s' (amendAll contents changes)
  txn_rollback {s : S} {contents : Contents} {txn : T} {changes : Changes}
    (shown : view.shows s contents) (staged : view.stages s txn changes) :
    view.Serves (kv.txn.rollback txn) s contents fun _ s' => view.shows s' contents
  snapshot {s : S} {contents : Contents} (shown : view.shows s contents) :
    view.Serves kv.snapshot s contents fun snap s' =>
      view.captures s' snap contents ∧ view.shows s' contents
  snap_get {s : S} {contents held : Contents} {snap : N} (shown : view.shows s contents)
    (captured : view.captures s snap held) (key : Bytes) :
    view.Serves (kv.snap.get snap key) s contents fun value s' =>
      value = held[key]? ∧ view.shows s' contents
  snap_contains {s : S} {contents held : Contents} {snap : N} (shown : view.shows s contents)
    (captured : view.captures s snap held) (key : Bytes) :
    view.Serves (kv.snap.contains snap key) s contents fun found s' =>
      found = held[key]?.isSome ∧ view.shows s' contents
  snap_range {s : S} {contents held : Contents} {snap : N} (shown : view.shows s contents)
    (captured : view.captures s snap held) {low high : Bytes} (ordered : low ≤ high) :
    view.Serves (kv.snap.range snap low high).collect s contents fun pairs s' =>
      pairs = scan held (Within low high) ∧ view.shows s' contents
  snap_range_reversed {s : S} {contents held : Contents} {snap : N} (shown : view.shows s contents)
    (captured : view.captures s snap held) (low high : Bytes) :
    view.later s ((kv.snap.range snap low high).exec s).2 ∧
      view.shows ((kv.snap.range snap low high).exec s).2 contents
  snap_prefixScan {s : S} {contents held : Contents} {snap : N} (shown : view.shows s contents)
    (captured : view.captures s snap held) (start : Bytes) :
    view.Serves (kv.snap.prefixScan snap start).collect s contents fun pairs s' =>
      pairs = scan held (SnapshotLists start) ∧ view.shows s' contents

theorem MapView.serves_snapPrefixScan {view : MapView S T N} {s : S} {contents held : Contents}
    {range : Bytes → Bytes → Call S RangeIter}
    (ranges : ∀ {low high}, low ≤ high → view.Serves (range low high).collect s contents fun pairs s' =>
      pairs = scan held (Within low high) ∧ view.shows s' contents) (start : Bytes) :
    view.Serves (snapPrefixScanByRange range start).collect s contents fun pairs s' =>
      pairs = scan held (SnapshotLists start) ∧ view.shows s' contents := by
  obtain ⟨low, high, ordered, same, inside⟩ := snapPrefixScanByRange_eq range start
  rw [same, ← scan_congr held inside]
  exact ranges ordered

/-! ### The trait's own methods -/

/-- **The store inherits the trait's methods** that are made of others. -/
structure KvStore.Inherits (kv : KvStore S T N) : Prop where
  getMany (listed : List Bytes) : kv.getMany listed = listed.mapM kv.get
  getRef : kv.getRef = kv.get
  rangeRev (low high : Bytes) : kv.rangeRev low high = do
    let items ← kv.range low high
    pure items.reverse
  prefixScan : kv.prefixScan = prefixScanByScans kv.range kv.iter
  batchWrite (pairs : List (Bytes × Bytes)) : kv.batchWrite pairs = do
    let opened ← kv.transaction
    let staged ← pairs.foldlM (fun t pair => kv.txn.put t pair.1 pair.2) opened
    kv.txn.commit staged
  batchDelete (listed : List Bytes) : kv.batchDelete listed = do
    let opened ← kv.transaction
    let staged ← listed.foldlM kv.txn.delete opened
    kv.txn.commit staged
  count : kv.count = do
    let items ← kv.iter
    countItems items
  keys : kv.keys = do
    let items ← kv.iter
    pure (items.map fun item => item.map Prod.fst)
  compareAndSwap : kv.compareAndSwap = compareAndSwapByTxn kv.transaction kv.txn

def KvTxn.change (txn : KvTxn S T) (opened : T) (staged : Bytes × Option Bytes) : Call S T :=
  match staged.2 with
  | some value => txn.put opened staged.1 value
  | none => txn.delete opened staged.1

namespace MapLike

variable {view : MapView S T N} {kv : KvStore S T N} (like : MapLike view kv) (own : kv.Inherits)
  {s : S} {contents : Contents} (shown : view.shows s contents)

include like shown

/-! #### Reads -/

variable (listed : List Bytes)

theorem mapM_get :
    view.Serves (listed.mapM kv.get) s contents fun values s' =>
      values = listed.map (fun key => contents[key]?) ∧ view.shows s' contents := by
  induction listed generalizing s with
  | nil =>
    rw [List.mapM_nil]
    exact MapView.serves_pure ⟨rfl, shown⟩
  | cons key listed ih =>
    rw [List.mapM_cons]
    refine (like.get shown key).bind fun value s' _ read => ?_
    refine (ih read.2).bind fun values s'' _ rest => MapView.serves_pure ⟨?_, rest.2⟩
    rw [read.1, rest.1, List.map_cons]

include own

theorem getMany :
    view.Serves (kv.getMany listed) s contents fun values s' =>
      values = listed.map (fun key => contents[key]?) ∧ view.shows s' contents := by
  rw [own.getMany]
  exact like.mapM_get shown listed

theorem rangeRev {low high : Bytes} (ordered : low ≤ high) :
    view.Serves (kv.rangeRev low high).collect s contents fun pairs s' =>
      pairs = (scan contents (Within low high)).reverse ∧ view.shows s' contents := by
  rw [own.rangeRev]
  refine MapView.Serves.collect_map List.reverse (fun yielded => ?_)
    ((like.range shown ordered).mono fun pairs s' _ read => ⟨pairs.reverse, ?_, ?_, read.2⟩)
  · rw [collectItems_isOk_iff, collectItems_isOk_iff]
    exact fun all item member => all item (List.mem_reverse.mpr member)
  · rw [List.map_reverse]
  · rw [read.1]

theorem prefixScan (start : Bytes) :
    view.Serves (kv.prefixScan start).collect s contents fun pairs s' =>
      pairs = scan contents (StartsWith start) ∧ view.shows s' contents := by
  rw [own.prefixScan]
  unfold prefixScanByScans
  split_ifs with empty
  · have everything : ∀ key, Anywhere key ↔ StartsWith start key := fun key => by
      rw [List.isEmpty_iff.mp empty]
      exact iff_of_true trivial List.nil_prefix
    refine (like.iter shown).mono fun pairs s' _ read => ⟨?_, read.2⟩
    rw [read.1, scan_congr contents everything]
  · cases found : prefixUpperBound start with
    | some high =>
      refine (like.range shown (le_prefixUpperBound found)).mono fun pairs s' _ read => ⟨?_, read.2⟩
      rw [read.1]
      exact scan_congr contents (prefixUpperBound_some_iff found)
    | none =>
      refine MapView.Serves.collect_map _ (fun yielded => ?_) ((like.iter shown).mono
        fun pairs s' _ read => ⟨pairs.filter fun pair => start.isPrefixOf pair.1, ?_, ?_, read.2⟩)
      · rw [collectItems_isOk_iff, collectItems_isOk_iff]
        intro all item member
        cases item with
        | ok pair => exact ⟨pair, rfl⟩
        | error error => exact all _ (List.mem_filter.mpr ⟨member, rfl⟩)
      · rw [List.filter_map]
        rfl
      · rw [read.1]
        refine (((lists_scan contents Anywhere).filter fun key => start.isPrefixOf key).congr
          fun key => ?_).unique (lists_scan contents (StartsWith start))
        rw [if_pos (show Anywhere key from trivial)]
        exact if_congr List.isPrefixOf_iff_prefix rfl rfl

theorem keys :
    view.Serves kv.keys.collect s contents fun listed s' =>
      listed = (scan contents Anywhere).map Prod.fst ∧ view.shows s' contents := by
  rw [own.keys]
  refine MapView.Serves.collect_map (fun items => items.map fun item => item.map Prod.fst)
    (fun yielded => ?_) ?_
  · rw [collectItems_isOk_iff, collectItems_isOk_iff]
    intro all item member
    cases item with
    | ok pair => exact ⟨pair, rfl⟩
    | error error =>
      obtain ⟨key, impossible⟩ := all _ (List.mem_map_of_mem member)
      cases impossible
  · refine (like.iter shown).mono fun pairs s' _ read => ⟨pairs.map Prod.fst, ?_, ?_, read.2⟩
    · rw [List.map_map, List.map_map]
      rfl
    · rw [read.1]

theorem count :
    view.Serves kv.count s contents fun n s' =>
      n = (scan contents Anywhere).length ∧ view.shows s' contents := by
  have same : kv.count.exec s = (List.length <$> kv.iter.collect).exec s := by
    rw [own.count, exec_map, collect, exec_bind, exec_bind]
    rcases kv.iter.exec s with ⟨_ | items, s'⟩
    · rfl
    · exact exec_countItems items s'
  refine MapView.Serves.congr same (MapView.Serves.map _ ?_)
  exact (like.iter shown).mono fun pairs s' _ read => ⟨congrArg List.length read.1, read.2⟩

/-! #### Writes -/

omit own in
theorem stage {txn : T} {changes : Changes} (staged : view.stages s txn changes)
    (change : Bytes × Option Bytes) :
    view.Serves (kv.txn.change txn change) s contents fun txn' s' =>
      view.stages s' txn' (changes ++ [change]) ∧ view.shows s' contents := by
  obtain ⟨key, _ | value⟩ := change
  · exact like.txn_delete shown staged key
  · exact like.txn_put shown staged key value

omit own in
theorem stageAll {txn : T} {changes : Changes} (staged : view.stages s txn changes)
    (batch : Changes) :
    view.Serves (batch.foldlM kv.txn.change txn) s contents fun txn' s' =>
      view.stages s' txn' (changes ++ batch) ∧ view.shows s' contents := by
  induction batch generalizing s txn changes with
  | nil =>
    rw [List.append_nil]
    exact MapView.serves_pure ⟨staged, shown⟩
  | cons change batch ih =>
    rw [List.foldlM_cons]
    refine (like.stage shown staged change).bind fun txn' s' _ done => ?_
    have rest := ih done.2 done.1
    rwa [List.append_assoc] at rest

omit own in
theorem batch (changes : Changes) :
    view.Serves (do
      let opened ← kv.transaction
      let staged ← changes.foldlM kv.txn.change opened
      kv.txn.commit staged) s contents fun _ s' => view.shows s' (amendAll contents changes) := by
  refine (like.transaction shown).bind fun txn s' _ opened => ?_
  refine (like.stageAll opened.2 opened.1 changes).bind fun txn' s'' _ staged => ?_
  exact like.txn_commit staged.2 staged.1

theorem batchWrite (pairs : List (Bytes × Bytes)) :
    view.Serves (kv.batchWrite pairs) s contents fun _ s' =>
      view.shows s' (amendAll contents (pairs.map fun pair => (pair.1, some pair.2))) := by
  have written := like.batch shown (pairs.map fun pair => (pair.1, some pair.2))
  simp only [List.foldlM_map] at written
  rw [own.batchWrite]
  exact written

theorem batchDelete :
    view.Serves (kv.batchDelete listed) s contents fun _ s' =>
      view.shows s' (amendAll contents (listed.map fun key => (key, none))) := by
  have deleted := like.batch shown (listed.map fun key => (key, none))
  simp only [List.foldlM_map] at deleted
  rw [own.batchDelete]
  exact deleted

theorem compareAndSwap (key : Bytes) (expected : Option Bytes) (newValue : Bytes) :
    view.Serves (kv.compareAndSwap key expected newValue) s contents fun swapped s' =>
      swapped = decide (contents[key]? = expected) ∧
        view.shows s' (if contents[key]? = expected then contents.insert key newValue else contents) := by
  rw [own.compareAndSwap]
  unfold compareAndSwapByTxn
  refine (like.transaction shown).bind fun txn s₁ _ opened => ?_
  refine (like.txn_get opened.2 opened.1 key).bind fun current s₂ later read => ?_
  have sees : current = contents[key]? := read.1
  by_cases matching : contents[key]? = expected
  · rw [if_pos (casMatches_iff.mpr (sees.trans matching))]
    have staged := view.stages_later later opened.1
    refine (like.txn_put read.2 staged key newValue).bind fun txn' s₃ _ put => ?_
    refine (like.txn_commit put.2 put.1).bind fun _ s₄ _ committed => MapView.serves_pure ⟨?_, ?_⟩
    · exact (decide_eq_true matching).symm
    · rw [if_pos matching]
      exact committed
  · rw [if_neg fun found => matching (sees.symm.trans (casMatches_iff.mp found))]
    have staged := view.stages_later later opened.1
    refine (like.txn_rollback read.2 staged).bind fun _ s₃ _ dropped => MapView.serves_pure ⟨?_, ?_⟩
    · exact (decide_eq_false matching).symm
    · rw [if_neg matching]
      exact dropped

end MapLike

end

/-! ### Engines as maps -/

section

variable {E T N : Type} [Expiry E]

def Backend.mapView (b : Backend E T N) : MapView (World E) T N where
  shows w contents := ∀ key : Bytes, w.visible key = contents[key]?
  stages _ txn changes := ∃ s ops, txn = b.staged s ops ∧
    changes = ops.map fun op : Bytes × TxnOp => (op.1, op.2.change)
  captures _ snap held := ∃ w, snap = b.captured w ∧ ∀ key : Bytes, w.visible key = held[key]?
  faults _ := 0
  later w w' := w.clock = w'.clock
  later_refl _ := rfl
  later_trans := Eq.trans
  faults_later _ := le_rfl
  stages_later _ staged := staged
  captures_later _ captured := captured

theorem Backend.reliableFrom (b : Backend E T N) (w : World E) : b.mapView.ReliableFrom w :=
  fun _ _ => rfl

theorem Backend.shows_empty (b : Backend E T N) (now : SystemTime) :
    b.mapView.shows ⟨.empty, now⟩ ∅ := by
  intro key
  simp [World.visible, Store.visible, Store.empty]

structure Backend.Live (b : Backend E T N) : Prop where
  staged (s s' : Store E) (ops : List (Bytes × TxnOp)) : b.staged s ops = b.staged s' ops
  txn_contains (txn : T) (key : Bytes) : b.kv.txn.contains txn key = do
    let value ← b.kv.txn.get txn key
    pure value.isSome
  snap_contains (snap : N) (key : Bytes) : b.kv.snap.contains snap key = do
    let value ← b.kv.snap.get snap key
    pure value.isSome
  snap_prefixScan (snap : N) : b.kv.snap.prefixScan snap = snapPrefixScanByRange (b.kv.snap.range snap)

theorem sled_live : sled.Live := ⟨fun _ _ _ => rfl, fun _ _ => rfl, fun _ _ => rfl, fun _ => rfl⟩

variable (b : Backend E T N) {w : World E} {contents : Contents}

theorem listing_eq_scan (shown : ∀ key : Bytes, w.visible key = contents[key]?)
    (inside : Bytes → Prop) [DecidablePred inside] : w.listing inside = scan contents inside := by
  refine (lists_listing w inside).unique ((lists_scan contents inside).congr fun key => ?_)
  rw [shown]

theorem visible_staged (shown : ∀ key : Bytes, w.visible key = contents[key]?)
    (ops : List (Bytes × TxnOp)) (key : Bytes) : (w.onStore (·.stageAll ops)).visible key =
      (amendAll contents (ops.map fun op => (op.1, op.2.change)))[key]? := by
  rw [get_amendAll, latest_map, ← shown]
  show (w.store.stageAll ops).visible w.clock key = _
  rw [Store.visible_stageAll]
  cases latest ops key <;> rfl

variable {b} in
theorem serves_listing {w₀ : World E} {held : Contents} {items : Call (World E) RangeIter}
    (shown : b.mapView.shows w contents) (seen : ∀ key : Bytes, w₀.visible key = held[key]?)
    {inside : Bytes → Prop} [DecidablePred inside]
    (yields : items.exec w = (.ok ((w₀.listing inside).map .ok), w)) :
    b.mapView.Serves items.collect w contents fun pairs w' =>
      pairs = scan held inside ∧ b.mapView.shows w' contents := by
  have collects : items.collect.exec w = (.ok (w₀.listing inside), w) := by
    rw [collect, exec_bind_ok yields, exec_ofExcept, collectItems_ok]
  exact MapView.serves_of_exec collects rfl ⟨listing_eq_scan seen inside, shown⟩

theorem serves_get {α : Type} (shown : b.mapView.shows w contents) (key : Bytes)
    (f : Option Bytes → α) : b.mapView.Serves (f <$> b.kv.get key) w contents fun answer w' =>
      answer = f contents[key]? ∧ b.mapView.shows w' contents := by
  refine MapView.Serves.map f ?_
  have clock : b.mapView.later w (w.evictElapsed key) := (World.evictElapsed_clock w key).symm
  refine MapView.serves_of_exec (b.get_exec key w) clock ⟨congrArg f (shown key), fun other => ?_⟩
  rw [World.visible_evictElapsed, shown]

theorem Backend.keyMap (b : Backend E T N) : KeyMap b.mapView b.kv where
  get {w contents} shown key := by
    have read := serves_get b shown key id
    rwa [id_map] at read
  put {w contents} shown key value := by
    exact MapView.serves_of_exec (b.put_exec key value w) rfl
      (visible_staged shown [(key, .put value)])
  delete {w contents} shown key := by
    exact MapView.serves_of_exec (b.delete_exec key w) rfl (visible_staged shown [(key, .delete)])

theorem Backend.mapLike {b : Backend E T N} (live : b.Live) : MapLike b.mapView b.kv where
  toKeyMap := b.keyMap
  contains {w contents} shown key := by
    rw [b.contains_eq]
    exact serves_get b shown key Option.isSome
  range {w contents} shown low high _ := serves_listing shown shown (b.range_exec low high w)
  range_reversed {w contents} shown low high := by
    rw [b.range_exec]
    exact ⟨rfl, shown⟩
  iter {w contents} shown := serves_listing shown shown (b.iter_exec w)
  flush {w contents} shown := MapView.serves_of_exec (b.flush_exec w) rfl shown
  transaction {w contents} shown :=
    MapView.serves_of_exec (b.transaction_exec w) rfl ⟨⟨w.store, [], rfl, rfl⟩, shown⟩
  txn_get {w contents txn changes} shown staged key := by
    obtain ⟨s, ops, rfl, rfl⟩ := staged
    rw [live.staged s w.store]
    exact MapView.serves_of_exec (b.txn_get_exec ops key w) rfl ⟨visible_staged shown ops key, shown⟩
  txn_contains {w contents txn changes} shown staged key := by
    obtain ⟨s, ops, rfl, rfl⟩ := staged
    rw [live.staged s w.store, live.txn_contains]
    refine MapView.Serves.map Option.isSome ?_
    exact MapView.serves_of_exec (b.txn_get_exec ops key w) rfl
      ⟨congrArg _ (visible_staged shown ops key), shown⟩
  txn_range {w contents txn changes} shown staged low high ordered := by
    obtain ⟨s, ops, rfl, rfl⟩ := staged
    rw [live.staged s w.store]
    exact serves_listing shown (visible_staged shown ops) (b.txn_range_exec ops ordered w)
  txn_range_reversed {w contents txn changes} shown staged low high := by
    obtain ⟨s, ops, rfl, rfl⟩ := staged
    rw [live.staged s w.store]
    rcases le_or_gt low high with ordered | reversed
    · rw [b.txn_range_exec ops ordered]
      exact ⟨rfl, shown⟩
    · rw [b.txn_range_panics ops reversed]
      exact ⟨rfl, shown⟩
  txn_put {w contents txn changes} shown staged key value := by
    obtain ⟨s, ops, rfl, rfl⟩ := staged
    refine MapView.serves_of_exec (b.txn_put_exec s ops key value w) rfl ⟨⟨s, _, rfl, ?_⟩, shown⟩
    rw [List.map_append]
    rfl
  txn_delete {w contents txn changes} shown staged key := by
    obtain ⟨s, ops, rfl, rfl⟩ := staged
    refine MapView.serves_of_exec (b.txn_delete_exec s ops key w) rfl ⟨⟨s, _, rfl, ?_⟩, shown⟩
    rw [List.map_append]
    rfl
  txn_commit {w contents txn changes} shown staged := by
    obtain ⟨s, ops, rfl, rfl⟩ := staged
    rw [live.staged s w.store]
    exact MapView.serves_of_exec (b.txn_commit_exec ops w) rfl (visible_staged shown ops)
  txn_rollback {w contents txn changes} shown staged := by
    obtain ⟨s, ops, rfl, rfl⟩ := staged
    exact MapView.serves_of_exec (b.txn_rollback_exec s ops w) rfl shown
  snapshot {w contents} shown :=
    MapView.serves_of_exec (b.snapshot_exec w) rfl ⟨⟨w, rfl, shown⟩, shown⟩
  snap_get {w contents held snap} shown captured key := by
    obtain ⟨w₀, rfl, seen⟩ := captured
    exact MapView.serves_of_exec (b.snap_get_exec w₀ w key) rfl ⟨seen key, shown⟩
  snap_contains {w contents held snap} shown captured key := by
    obtain ⟨w₀, rfl, seen⟩ := captured
    rw [live.snap_contains]
    refine MapView.Serves.map Option.isSome ?_
    exact MapView.serves_of_exec (b.snap_get_exec w₀ w key) rfl ⟨congrArg _ (seen key), shown⟩
  snap_range {w contents held snap} shown captured low high ordered := by
    obtain ⟨w₀, rfl, seen⟩ := captured
    exact serves_listing shown seen (b.snap_range_exec w₀ w ordered)
  snap_range_reversed {w contents held snap} shown captured low high := by
    obtain ⟨w₀, rfl, seen⟩ := captured
    rw [b.snap_range_quiet]
    exact ⟨rfl, shown⟩
  snap_prefixScan {w contents held snap} shown captured start := by
    obtain ⟨w₀, rfl, seen⟩ := captured
    rw [live.snap_prefixScan]
    exact MapView.serves_snapPrefixScan
      (fun ordered => serves_listing shown seen (b.snap_range_exec w₀ w ordered)) start

end

end OxiStore
