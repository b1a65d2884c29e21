/-
**Lazy eviction against a concurrent `put`.**
-/

import OxiStore.Kv.Ops

namespace OxiStore

open ByteString OrdTable StepProg Call

/-! ### The race -/

inductive Reader where
  | get
  | ttl
  | purgeExpired
deriving DecidableEq

section

variable {E T N : Type}

def Reader.call (kv : KvStore (World E) T N) (key : Bytes) : Reader → Call (World E) Unit
  | .get => (kv.get key).done
  | .ttl => (kv.ttl key).done
  | .purgeExpired => kv.purgeExpired.done

def race (kv : KvStore (World E) T N) (reader : Reader) (key value : Bytes) (w : World E) :
    Pool Bool (World E) (Except StoreError Unit) :=
  { threads := fun puts => if puts then (kv.put key value).prog else (reader.call kv key).prog
    state := w }

def PutSurvives (kv : KvStore (World E) T N) (reader : Reader) (key value : Bytes)
    (clocks : Set SystemTime) (w : World E) : Prop :=
  ∀ (schedule : List (Event Bool SystemTime)) (answer : Except StoreError Unit),
    Pool.EnvOnly (· ∈ clocks) schedule →
    ((race kv reader key value w).run tick schedule).threads true = .pure (.ok ()) →
    ((race kv reader key value w).run tick schedule).threads false = .pure answer →
    ∀ later, ((kv.get key).exec
      (((race kv reader key value w).run tick schedule).state.setClock later)).1 = .ok (some value)

end

/-! ### When nobody sees an elapsed expiry -/

def Apart {E : Type} (key : Bytes) (s t : World E) : Prop :=
  t.store.data[key]? = s.store.data[key]? ∧ t.store.ttl[key]? = s.store.ttl[key]?

variable {key : Bytes}

theorem Apart.refl {E : Type} (s : World E) : Apart key s s := ⟨rfl, rfl⟩

theorem Apart.trans {E : Type} {s t u : World E} (first : Apart key s t) (second : Apart key t u) :
    Apart key s u :=
  ⟨second.1.trans first.1, second.2.trans first.2⟩

theorem apart_evictAll {E : Type} {keys : List Bytes} (absent : key ∉ keys) (w : World E) :
    Apart key w (w.onStore (·.evictAll keys)) := by
  obtain ⟨data, ttl⟩ := w.store.get_evictAll keys key
  exact ⟨data.trans (if_neg absent), ttl.trans (if_neg absent)⟩

section

variable {E T N : Type} [Expiry E] (clocks : Set SystemTime) (key : Bytes)

def Fresh (w : World E) : Prop := ∀ now ∈ clocks, w.store.elapsed now key = false

structure Undisturbed (guarded : World E → Prop) (s t : World E) : Prop where
  clock : s.clock ∈ clocks → t.clock ∈ clocks
  fresh : Fresh clocks key s → Fresh clocks key t
  guard : guarded s → guarded t

def Written (value : Bytes) (w : World E) : Prop :=
  w.store.data[key]? = some value ∧ w.store.ttl[key]? = none

abbrev Harmless {α : Type} (guarded : World E → Prop) (call : Call (World E) α) (w : World E) : Prop :=
  call.prog.Safe (Undisturbed clocks key guarded) (Apart key) (fun _ _ => True) w

variable {clocks key} {guarded : World E → Prop}

theorem Undisturbed.refl (s : World E) : Undisturbed clocks key guarded s s := ⟨id, id, id⟩

theorem Undisturbed.trans {s t u : World E} (first : Undisturbed clocks key guarded s t)
    (second : Undisturbed clocks key guarded t u) : Undisturbed clocks key guarded s u :=
  ⟨second.clock ∘ first.clock, second.fresh ∘ first.fresh, second.guard ∘ first.guard⟩

theorem elapsed_of_ttl_none {s : Store E} (absent : s.ttl[key]? = none) (now : SystemTime) :
    s.elapsed now key = false := by
  unfold Store.elapsed Store.expiry
  rw [absent]
  rfl

variable {w : World E}

theorem survives_of_safe (b : Backend E T N) {reader : Reader} {value : Bytes}
    (ticks : ∀ now s, guarded s → guarded (s.setClock now))
    (reads : Harmless clocks key guarded (reader.call b.kv key) w)
    (puts : (b.kv.put key value).prog.Safe (Apart key) (Undisturbed clocks key guarded)
      (fun _ => Written key value) w) :
    PutSurvives b.kv reader key value clocks w := by
  intro schedule answer moves putDone _ later
  have safe := Pool.safe_run tick
    (fun puts => if puts then Apart key else Undisturbed clocks key guarded)
    (fun puts => if puts then Undisturbed clocks key guarded else Apart key)
    (fun puts _ w => if puts then Written key value w else True)
    (by rintro (_ | _) s
        · exact Undisturbed.refl s
        · exact Apart.refl s)
    (by rintro (_ | _) s t u first second
        · exact Undisturbed.trans first second
        · exact Apart.trans first second)
    (by rintro (_ | _) (_ | _) different s t move
        · exact absurd rfl different
        · exact move
        · exact move
        · exact absurd rfl different)
    (by rintro now inside (_ | _) s
        · exact ⟨fun _ => inside, id, ticks now s⟩
        · exact Apart.refl s)
    schedule moves (race b.kv reader key value w)
    (by rintro (_ | _)
        · exact reads
        · exact puts)
    true
  rw [putDone] at safe
  obtain ⟨data, ttl⟩ : Written key value _ := safe _ (Apart.refl _)
  rw [b.get_exec]
  refine congrArg Except.ok ((Store.visible_of_not_elapsed ?_).trans data)
  exact elapsed_of_ttl_none ttl later

/-! ### The readers -/

theorem safe_done {α : Type} {call : Call (World E) α}
    (safe : Harmless clocks key guarded call w) :
    Harmless clocks key guarded call.done w :=
  safe_bind Undisturbed.refl safe (fun _ _ _ _ _ => trivial) fun _ _ _ _ _ => trivial

theorem safe_entryExpired (entry : E) (inside : w.clock ∈ clocks) :
    (entryExpired entry).prog.Safe (Undisturbed clocks key guarded) (Apart key)
      (fun result t => Undisturbed clocks key guarded w t ∧
        ∃ now ∈ clocks, result = .ok ((Expiry.decode entry).any (isExpired now))) w := by
  unfold entryExpired
  cases Expiry.decode entry with
  | none => exact fun t others => ⟨others, w.clock, inside, rfl⟩
  | some millis =>
    refine safe_read fun t others => ⟨Apart.refl t, fun u later => ?_⟩
    exact ⟨others.trans later, t.clock, others.clock inside, rfl⟩

theorem Fresh.entry (fresh : Fresh clocks key w) {entry : E} (found : w.store.ttl[key]? = some entry)
    {now : SystemTime} (inside : now ∈ clocks) :
    (Expiry.decode entry).any (isExpired now) = false := by
  have live := fresh now inside
  unfold Store.elapsed Store.expiry at live
  rwa [found] at live

theorem safe_collectExpired (entries : List (Bytes × E)) (live : ∀ entry ∈ entries, entry.1 = key →
      ∀ now ∈ clocks, (Expiry.decode entry.2).any (isExpired now) = false) (inside : w.clock ∈ clocks) :
    (collectExpired entries).prog.Safe (Undisturbed clocks key guarded) (Apart key)
      (fun result _ => ∃ keys, result = .ok keys ∧ key ∉ keys) w := by
  induction entries generalizing w with
  | nil => exact fun t others => ⟨[], rfl, List.not_mem_nil⟩
  | cons entry entries ih =>
    obtain ⟨found, entry⟩ := entry
    refine safe_bind Undisturbed.refl (safe_entryExpired entry inside) ?_ ?_
    · rintro expired t ⟨others, now, at_now, tested⟩
      refine safe_bind Undisturbed.refl (ih (fun later member =>
        live later (List.mem_cons_of_mem _ member)) (others.clock inside)) ?_ ?_
      · rintro keys u ⟨collected, same, absent⟩ v _
        obtain rfl := Except.ok.inj same
        refine ⟨_, rfl, ?_⟩
        cases expired with
        | false => exact absent
        | true =>
          intro member
          rcases List.mem_cons.mp member with here | later
          · have dead := live (found, entry) List.mem_cons_self here.symm now at_now
            rw [← Except.ok.inj tested] at dead
            cases dead
          · exact absent later
      · simp
    · simp

theorem Fresh.entries (fresh : Fresh clocks key w) :
    ∀ entry ∈ w.store.ttl.toList, entry.1 = key →
      ∀ now ∈ clocks, (Expiry.decode entry.2).any (isExpired now) = false := by
  rintro ⟨found, entry⟩ member rfl now inside
  exact fresh.entry (((lists_toList w.store.ttl).mem_iff found entry).mp member) inside

theorem safe_purgeCollected (inside : w.clock ∈ clocks) (fresh : Fresh clocks key w) :
    Harmless clocks key guarded purgeCollected w := by
  refine safe_read fun t others => ⟨Apart.refl t, ?_⟩
  refine safe_bind Undisturbed.refl (safe_collectExpired t.store.ttl.toList
    (others.fresh fresh).entries (others.clock inside)) ?_ ?_
  · rintro keys u ⟨collected, same, absent⟩
    obtain rfl := Except.ok.inj same
    cases keys with
    | nil => exact fun _ _ => trivial
    | cons first keys =>
      exact safe_write fun v _ => ⟨apart_evictAll absent v, fun _ _ => trivial⟩
  · simp

namespace Redb

variable {clocks : Set SystemTime} {key : Bytes} {guarded : World UInt64 → Prop} {w : State}

theorem safe_get (inside : w.clock ∈ clocks) (fresh : Fresh clocks key w) :
    Harmless clocks key guarded (get key) w := by
  refine safe_read fun t others => ⟨Apart.refl t, ?_⟩
  dsimp only
  cases found : t.store.ttl[key]? with
  | none => exact fun _ _ => trivial
  | some millis =>
    refine safe_read fun u later => ⟨Apart.refl u, ?_⟩
    have live : isExpired u.clock millis = false :=
      (others.fresh fresh).entry found (later.clock (others.clock inside))
    rw [live]
    exact fun _ _ => trivial

theorem safe_ttl (inside : w.clock ∈ clocks) (holds : guarded w)
    (means : ∀ s, guarded s → s.stored key = true → Fresh clocks key s) :
    Harmless clocks key guarded (ttl key) w := by
  refine safe_read fun t others => ⟨Apart.refl t, ?_⟩
  dsimp only
  cases stored : t.store.data[key]? with
  | none => exact fun _ _ => trivial
  | some value =>
    cases found : t.store.ttl[key]? with
    | none => exact fun _ _ => trivial
    | some millis =>
      have fresh := means t (others.guard holds) (by rw [World.stored, stored]; rfl)
      refine safe_read fun u later => ⟨Apart.refl u, ?_⟩
      have live : isExpired u.clock millis = false :=
        fresh.entry found (later.clock (others.clock inside))
      rw [live]
      refine safe_read fun v last => ⟨Apart.refl v, ?_⟩
      cases v.clock.durationSinceEpoch <;> exact fun _ _ => trivial

end Redb

namespace Sidecar

variable {clocks : Set SystemTime} {key : Bytes} {guarded : World Bytes → Prop} {w : State}

theorem safe_isTtlExpired (inside : w.clock ∈ clocks) (fresh : Fresh clocks key w) :
    (isTtlExpired key).prog.Safe (Undisturbed clocks key guarded) (Apart key)
      (fun result _ => result = .ok false) w := by
  refine safe_read fun t others => ⟨Apart.refl t, ?_⟩
  dsimp only
  cases found : t.store.ttl[key]? with
  | none => exact fun _ _ => rfl
  | some expiryBytes =>
    refine (safe_entryExpired expiryBytes (others.clock inside)).mono fun result u reached => ?_
    obtain ⟨-, now, at_now, rfl⟩ := reached
    rw [(others.fresh fresh).entry found at_now]

variable (evict : Bytes → Call State Unit)

theorem safe_get (inside : w.clock ∈ clocks) (fresh : Fresh clocks key w) :
    Harmless clocks key guarded (get evict key) w := by
  refine safe_bind Undisturbed.refl (safe_isTtlExpired inside fresh) ?_ ?_
  · intro expired t tested
    obtain rfl := Except.ok.inj tested
    exact fun u _ => ⟨Apart.refl u, fun _ _ => trivial⟩
  · simp

theorem safe_ttl (inside : w.clock ∈ clocks) (holds : guarded w)
    (means : ∀ s, guarded s → s.stored key = true → Fresh clocks key s) :
    Harmless clocks key guarded (ttl evict key) w := by
  refine safe_read fun t others => ⟨Apart.refl t, ?_⟩
  split_ifs with missing
  · exact fun _ _ => trivial
  · have fresh := means t (others.guard holds) (by simpa [World.stored] using missing)
    refine safe_read fun u later => ⟨Apart.refl u, ?_⟩
    dsimp only
    cases found : u.store.ttl[key]? with
    | none => exact fun _ _ => trivial
    | some expiryBytes =>
      dsimp only
      cases decoded : decodeExpiry expiryBytes with
      | none => exact fun _ _ => trivial
      | some millis =>
        refine safe_read fun v last => ⟨Apart.refl v, ?_⟩
        have live : (decodeExpiry expiryBytes).any (isExpired v.clock) = false :=
          (later.fresh fresh).entry found (last.clock (later.clock (others.clock inside)))
        rw [decoded] at live
        rw [show isExpired v.clock millis = false from live]
        exact fun x _ => ⟨Apart.refl x, fun _ _ => trivial⟩

end Sidecar

variable {clocks : Set SystemTime}

theorem Sled.safe_purgeEntries {key : Bytes} {guarded : World Bytes → Prop} (entries : List (Bytes × Bytes))
    (live : ∀ entry ∈ entries, entry.1 = key →
      ∀ now ∈ clocks, (Expiry.decode entry.2).any (isExpired now) = false) {w : State}
    (inside : w.clock ∈ clocks) :
    Harmless clocks key guarded (purgeEntries entries) w := by
  induction entries generalizing w with
  | nil => exact fun _ _ => trivial
  | cons entry entries ih =>
    obtain ⟨found, expiryBytes⟩ := entry
    have rest := fun later member => live later (List.mem_cons_of_mem _ member)
    refine safe_bind Undisturbed.refl (safe_entryExpired expiryBytes inside) ?_ ?_
    · rintro expired t ⟨others, now, at_now, tested⟩
      cases expired with
      | false => exact ih rest (others.clock inside)
      | true =>
        have other : found ≠ key := by
          intro same
          have dead := live (found, expiryBytes) List.mem_cons_self same now at_now
          grind
        refine safe_write fun u later =>
          ⟨⟨(get_erase u.store.data found key).trans (if_neg other), rfl⟩, ?_⟩
        refine safe_write fun v last =>
          ⟨⟨rfl, (get_erase v.store.ttl found key).trans (if_neg other)⟩, ?_⟩
        refine safe_bind Undisturbed.refl (ih rest ?_) (fun _ _ _ _ _ => trivial)
          fun _ _ _ _ _ => trivial
        exact last.clock (later.clock (others.clock inside))
    · simp

theorem Sled.safe_purgeExpired {key : Bytes} {guarded : World Bytes → Prop} {w : State}
    (inside : w.clock ∈ clocks) (fresh : Fresh clocks key w) :
    Harmless clocks key guarded purgeExpired w :=
  safe_read fun t others => ⟨Apart.refl t, safe_purgeEntries t.store.ttl.toList
    (others.fresh fresh).entries (others.clock inside)⟩

/-! ### The puts -/

theorem safe_write_put {value : Bytes} (guards : ∀ s, Fresh clocks key s → guarded s) :
    (writeStore (·.write key value) : Call (World E) Unit).prog.Safe (Apart key)
      (Undisturbed clocks key guarded) (fun _ => Written key value) w := by
  intro t _
  have data : (t.store.write key value).data[key]? = some value :=
    (get_insert t.store.data key key value).trans (if_pos rfl)
  have ttl : (t.store.write key value).ttl[key]? = none :=
    (get_erase t.store.ttl key key).trans (if_pos rfl)
  have fresh : Fresh clocks key (t.onStore (·.write key value)) :=
    fun now _ => elapsed_of_ttl_none ttl now
  refine ⟨⟨id, fun _ => fresh, fun _ => guards _ fresh⟩, fun u apart => ?_⟩
  exact ⟨apart.1.trans data, apart.2.trans ttl⟩

theorem Sled.safe_put {key value : Bytes} {w : State} :
    (put key value).prog.Safe (Apart key) (Undisturbed clocks key (Fresh clocks key))
      (fun _ => Written key value) w := by
  refine safe_write fun t _ => ⟨⟨id, id, id⟩, fun u apart => ?_⟩
  have data : u.store.data[key]? = some value :=
    apart.1.trans ((get_insert t.store.data key key value).trans (if_pos rfl))
  have ttl : (u.store.detach key).ttl[key]? = none :=
    (get_erase u.store.ttl key key).trans (if_pos rfl)
  have fresh : Fresh clocks key (u.onStore (·.detach key)) :=
    fun now _ => elapsed_of_ttl_none ttl now
  exact ⟨⟨id, fun _ => fresh, fun _ => fresh⟩, fun v later =>
    ⟨later.1.trans data, later.2.trans ttl⟩⟩

end

/-! ### When the reader has seen an elapsed expiry -/

section

variable {E T N : Type} [Expiry E]

theorem Call.runs_done {S α : Type} {call rest : Call S α} {s t : S}
    (runs : call.prog.Runs s rest.prog t) : call.done.prog.Runs s rest.done.prog t :=
  runs.bind (ExceptT.bindCont fun _ => pure ())

theorem lost_of_window (b : Backend E T N) {reader : Reader} {key value : Bytes}
    {clocks : Set SystemTime} {w u v : World E} {α : Type} (call rest : Call (World E) α)
    (later : Call (World E) Unit) (same : reader.call b.kv key = call.done) {now : SystemTime}
    (inside : now ∈ clocks) (starts : (b.kv.put key value).prog.Runs (w.setClock now) later.prog u)
    (tests : call.prog.Runs u rest.prog v) (ends : (later.exec v).1 = .ok ())
    (evicts : (rest.exec (later.exec v).2).2.store.data[key]? = none) :
    ¬ PutSurvives b.kv reader key value clocks w := by
  intro survives
  let start : Pool Bool (World E) (Except StoreError Unit) :=
    { race b.kv reader key value w with state := w.setClock now }
  let window := (start.set true later.prog u).set false rest.done.prog v
  let returned := window.set true (.pure (later.exec v).1) (later.exec v).2
  let done := returned.set false (.pure (rest.done.exec returned.state).1)
    (rest.done.exec returned.state).2
  have ticked : Pool.Reaches tick (· ∈ clocks) (fun _ => True) (race b.kv reader key value w) start :=
    Pool.reaches_env _ inside
  have started : Pool.Reaches tick (· ∈ clocks) (fun _ => True) start (start.set true later.prog u) :=
    Pool.reaches_stretch start trivial starts
  have tested : Pool.Reaches tick (· ∈ clocks) (fun _ => True) (start.set true later.prog u) window := by
    refine Pool.reaches_stretch _ trivial ?_
    rw [Pool.set_threads_other _ Bool.false_ne_true, Pool.set_state]
    show (reader.call b.kv key).prog.Runs u _ v
    rw [same]
    exact runs_done tests
  have put : Pool.Reaches tick (· ∈ clocks) (fun _ => True) window returned :=
    Pool.reaches_stretch window trivial (later.prog.runs_end v)
  have evicted : Pool.Reaches tick (· ∈ clocks) (fun _ => True) returned done :=
    Pool.reaches_stretch returned trivial (rest.done.prog.runs_end returned.state)
  obtain ⟨schedule, moves, -, reached⟩ := ticked.trans (started.trans (tested.trans (put.trans evicted)))
  have lost := survives schedule (rest.done.exec returned.state).1 moves
  rw [reached] at lost
  have reads := lost (congrArg Prog.pure ends) rfl now
  have gone : done.state.store.data[key]? = none := by
    show (rest.done.exec (later.exec v).2).2.store.data[key]? = none
    rw [exec_done_state]
    exact evicts
  rw [b.get_exec, World.visible_none_of_not_stored] at reads
  · cases reads
  · rw [World.stored, World.setClock_store, gone]
    rfl

end

theorem elapsed_entry {E : Type} [Expiry E] {s : Store E} {now : SystemTime}
    (elapsed : s.elapsed now key = true) :
    ∃ entry, s.ttl[key]? = some entry ∧ (Expiry.decode entry).any (isExpired now) = true := by
  unfold Store.elapsed Store.expiry at elapsed
  grind

theorem get_evict_self {E : Type} (s : Store E) (key : Bytes) : (s.evict key).data[key]? = none :=
  (get_erase s.data key key).trans (if_pos rfl)

theorem get_evictAll_self {E : Type} (s : Store E) {keys : List Bytes} (member : key ∈ keys) :
    (s.evictAll keys).data[key]? = none :=
  (s.get_evictAll keys key).1.trans (if_pos member)

theorem runs_purgeCollected {E : Type} [Expiry E] {w : World E} (elapsed : w.elapsed key = true) :
    purgeCollected.prog.Runs w (do
      writeStore (·.evictAll w.expiredKeys)
      pure w.expiredKeys.length : Call (World E) ℕ).prog w := by
  refine (runs_bind_ok (exec_readStore _ w)).trans ?_
  refine (runs_bind_ok (exec_collectExpired w)).trans ?_
  have filled : w.expiredKeys.isEmpty = false :=
    List.isEmpty_eq_false_iff_exists_mem.mpr ⟨key, mem_expiredKeys.mpr elapsed⟩
  rw [filled]
  exact .stay _ w

namespace Redb

variable {key : Bytes} {w : State}

theorem runs_get (elapsed : w.elapsed key = true) : (get key).prog.Runs w
    (do writeStore (·.evict key); pure none : Call State (Option Bytes)).prog w := by
  obtain ⟨millis, found, expired⟩ := elapsed_entry elapsed
  refine (runs_bind_ok (exec_readStore _ w)).trans ?_
  rw [found]
  refine (runs_bind_ok (exec_systemTimeNow w)).trans ?_
  rw [show isExpired w.clock millis = true from expired]
  exact .stay _ w

theorem runs_ttl (stored : w.stored key = true) (elapsed : w.elapsed key = true) :
    (ttl key).prog.Runs w
      (do writeStore (·.evict key); throw .keyNotFound : Call State (Option Duration)).prog w := by
  obtain ⟨millis, found, expired⟩ := elapsed_entry elapsed
  refine (runs_bind_ok (exec_readStore _ w)).trans ?_
  rw [found, show w.store.data[key]?.isSome = true from stored]
  refine (runs_bind_ok (exec_systemTimeNow w)).trans ?_
  rw [show isExpired w.clock millis = true from expired]
  exact .stay _ w

end Redb

namespace Sidecar

variable {key : Bytes} {w : State}

theorem runs_get (evict : Bytes → Call State Unit) (elapsed : w.elapsed key = true) :
    (get evict key).prog.Runs w (do evict key; pure none : Call State (Option Bytes)).prog w := by
  refine (runs_bind_ok (exec_isTtlExpired key w)).trans ?_
  rw [elapsed]
  exact .stay _ w

theorem runs_ttl (evict : Bytes → Call State Unit) (stored : w.stored key = true)
    (elapsed : w.elapsed key = true) : (ttl evict key).prog.Runs w
      (do evict key; throw .keyNotFound : Call State (Option Duration)).prog w := by
  obtain ⟨expiryBytes, found, expired⟩ := elapsed_entry elapsed
  refine (runs_bind_ok (exec_readStore _ w)).trans ?_
  rw [show w.store.data[key]?.isSome = true from stored]
  refine (runs_bind_ok (exec_readStore _ w)).trans ?_
  rw [found]
  dsimp only
  change (decodeExpiry expiryBytes).any (isExpired w.clock) = true at expired
  cases decoded : decodeExpiry expiryBytes with
  | none => simp [decoded] at expired
  | some millis =>
    rw [decoded] at expired
    refine (runs_bind_ok (exec_systemTimeNow w)).trans ?_
    rw [show isExpired w.clock millis = true from expired]
    exact .stay _ w

end Sidecar

theorem Sled.runs_purgeEntries {expiryBytes : Bytes} (entries : List (Bytes × Bytes))
    (member : (key, expiryBytes) ∈ entries) (w : State)
    (expired : (decodeExpiry expiryBytes).any (isExpired w.clock) = true) :
    ∃ (rest : Call State ℕ) (v : State), (purgeEntries entries).prog.Runs w rest.prog v ∧
      ∀ x, (rest.exec x).2.store.data[key]? = none := by
  induction entries generalizing w with
  | nil => exact absurd member List.not_mem_nil
  | cons entry entries ih =>
    have tested := exec_entryExpired entry.2 w
    change (entryExpired entry.2).exec w =
      (.ok ((decodeExpiry entry.2).any (isExpired w.clock)), w) at tested
    by_cases here : (key, expiryBytes) = entry
    · subst here
      rw [expired] at tested
      refine ⟨_, w, runs_bind_ok tested, fun x => ?_⟩
      rw [if_pos rfl, exec_bind_ok (exec_writeStore _ x),
        exec_bind_ok (exec_writeStore _ _), exec_bind_ok (exec_purgeEntries entries _)]
      refine (Store.get_evictAll _ _ key).1.trans ?_
      split_ifs with again
      · rfl
      · exact get_evict_self x.store key
    · have later := (List.mem_cons.mp member).resolve_left here
      cases dead : (decodeExpiry entry.2).any (isExpired w.clock) with
      | false =>
        rw [dead] at tested
        obtain ⟨rest, v, runs, evicts⟩ := ih later w expired
        exact ⟨rest, v, (runs_bind_ok tested).trans runs, evicts⟩
      | true =>
        rw [dead] at tested
        obtain ⟨rest, v, runs, evicts⟩ :=
          ih later ((w.onStore (·.removeData entry.1)).onStore (·.detach entry.1)) expired
        refine ⟨(do let count ← rest; pure (count + 1)), v, ?_, fun x => ?_⟩
        · refine (runs_bind_ok tested).trans ?_
          refine (runs_bind_ok (exec_writeStore _ w)).trans ?_
          refine (runs_bind_ok (exec_writeStore _ _)).trans ?_
          exact runs.bind _
        · have gone := evicts x
          rw [exec_bind]
          revert gone
          rcases rest.exec x with ⟨error | count, y⟩
          all_goals exact id

/-! ### The race, decided -/

/-- **What endangers a `put`**: the expiry that the key starts with has elapsed at this clock; for
`ttl` on redb and fjall, of a key that is stored. -/
def Engine.Endangers (engine : Engine) (reader : Reader) (w : World engine.Entry) (key : Bytes)
    (now : SystemTime) : Prop :=
  w.store.elapsed now key = true ∧ (reader = .ttl → engine ≠ .sled → w.stored key = true)

def Guarded {E : Type} [Expiry E] (clocks : Set SystemTime) (key : Bytes) (w : World E) : Prop :=
  w.stored key = true → Fresh clocks key w

theorem survives_of_calm (engine : Engine) {reader : Reader} {value : Bytes} {w : World engine.Entry}
    {clocks : Set SystemTime} (inside : w.clock ∈ clocks)
    (calm : ∀ now ∈ clocks, ¬ engine.Endangers reader w key now) :
    PutSurvives engine.backend.kv reader key value clocks w := by
  have fresh : (reader = .ttl → engine = .sled) → Fresh clocks key w := by
    intro plain now at_now
    by_contra elapsed
    exact calm now at_now ⟨Bool.not_eq_false _ ▸ elapsed, fun ttl other => absurd (plain ttl) other⟩
  have guarded : Guarded clocks key w := by
    intro stored now at_now
    by_contra elapsed
    exact calm now at_now ⟨Bool.not_eq_false _ ▸ elapsed, fun _ _ => stored⟩
  cases engine with
  | redb =>
    cases reader with
    | get =>
      exact survives_of_safe redb (fun _ _ => id)
        (safe_done (Redb.safe_get inside (fresh nofun))) (safe_write_put fun _ => id)
    | ttl =>
      exact survives_of_safe redb (fun _ _ => id)
        (safe_done (Redb.safe_ttl inside guarded fun _ => id)) (safe_write_put fun _ new _ => new)
    | purgeExpired =>
      exact survives_of_safe redb (fun _ _ => id)
        (safe_done (safe_purgeCollected inside (fresh nofun))) (safe_write_put fun _ => id)
  | sled =>
    cases reader with
    | get =>
      exact survives_of_safe sled (fun _ _ => id)
        (safe_done (Sidecar.safe_get Sled.evict inside (fresh nofun))) Sled.safe_put
    | ttl =>
      exact survives_of_safe sled (fun _ _ => id)
        (safe_done (Sidecar.safe_ttl Sled.evict inside (fresh fun _ => rfl) fun _ new _ => new))
        Sled.safe_put
    | purgeExpired =>
      exact survives_of_safe sled (fun _ _ => id)
        (safe_done (Sled.safe_purgeExpired inside (fresh nofun))) Sled.safe_put
  | fjall =>
    cases reader with
    | get =>
      exact survives_of_safe fjall (fun _ _ => id)
        (safe_done (Sidecar.safe_get Fjall.evict inside (fresh nofun)))
        (safe_write_put fun _ => id)
    | ttl =>
      exact survives_of_safe fjall (fun _ _ => id)
        (safe_done (Sidecar.safe_ttl Fjall.evict inside guarded fun _ => id))
        (safe_write_put fun _ new _ => new)
    | purgeExpired =>
      have safe : Harmless clocks key (Fresh clocks key) Fjall.purgeExpired w :=
        Fjall.purgeExpired_eq ▸ safe_purgeCollected inside (fresh nofun)
      exact survives_of_safe fjall (fun _ _ => id) (safe_done safe) (safe_write_put fun _ => id)

theorem lost_of_endangered (engine : Engine) {reader : Reader} {value : Bytes} {w : World engine.Entry}
    {clocks : Set SystemTime} {now : SystemTime} (inside : now ∈ clocks)
    (endangered : engine.Endangers reader w key now) :
    ¬ PutSurvives engine.backend.kv reader key value clocks w := by
  obtain ⟨elapsed, stored⟩ := endangered
  have hidden : (w.setClock now).elapsed key = true := elapsed
  cases engine with
  | redb =>
    cases reader with
    | get =>
      exact lost_of_window redb _ _ (Redb.put key value) rfl inside (.stay _ _)
        (Redb.runs_get hidden) rfl (get_evict_self _ key)
    | ttl =>
      exact lost_of_window redb _ _ (Redb.put key value) rfl inside (.stay _ _)
        (Redb.runs_ttl (stored rfl nofun) hidden) rfl (get_evict_self _ key)
    | purgeExpired =>
      exact lost_of_window redb _ _ (Redb.put key value) rfl inside (.stay _ _)
        (runs_purgeCollected hidden) rfl
        (get_evictAll_self _ (mem_expiredKeys.mpr hidden))
  | sled =>
    cases reader with
    | get =>
      exact lost_of_window sled _ _ (Sled.put key value) rfl inside (.stay _ _)
        (Sidecar.runs_get Sled.evict hidden) rfl (get_evict_self _ key)
    | ttl =>
      -- The pair is inserted before `ttl` looks for the key; the sidecar is cleared after it
      -- has read the old expiry.
      have inserted : ((w.setClock now).onStore (·.insertData key value)).stored key = true := by
        have found := get_insert w.store.data key key value
        rw [if_pos rfl] at found
        exact congrArg Option.isSome found
      exact lost_of_window sled _ _ (writeStore (·.detach key)) rfl inside
        (runs_bind_ok (exec_writeStore _ _))
        (Sidecar.runs_ttl Sled.evict inserted hidden) rfl (get_evict_self _ key)
    | purgeExpired =>
      obtain ⟨expiryBytes, found, expired⟩ := elapsed_entry elapsed
      obtain ⟨rest, v, runs, evicts⟩ := Sled.runs_purgeEntries w.store.ttl.toList
        (((lists_toList w.store.ttl).mem_iff key expiryBytes).mpr found) (w.setClock now) expired
      exact lost_of_window sled Sled.purgeExpired rest (Sled.put key value) rfl inside
        (.stay _ _) ((runs_bind_ok (exec_readStore _ (w.setClock now))).trans runs) rfl (evicts _)
  | fjall =>
    cases reader with
    | get =>
      exact lost_of_window fjall _ _ (Fjall.put key value) rfl inside (.stay _ _)
        (Sidecar.runs_get Fjall.evict hidden) rfl (get_evict_self _ key)
    | ttl =>
      exact lost_of_window fjall _ _ (Fjall.put key value) rfl inside (.stay _ _)
        (Sidecar.runs_ttl Fjall.evict (stored rfl nofun) hidden) rfl (get_evict_self _ key)
    | purgeExpired =>
      have runs := runs_purgeCollected hidden
      rw [← Fjall.purgeExpired_eq] at runs
      exact lost_of_window fjall _ _ (Fjall.put key value) rfl inside (.stay _ _) runs rfl
        (get_evictAll_self _ (mem_expiredKeys.mpr hidden))

/-- **A `put` survives a concurrent `get`, `ttl` or `purge_expired` of its key exactly when nothing
endangers it**, on every engine, for every content of the tables and every set of clocks that the
race may show. -/
theorem put_survives_iff (engine : Engine) (reader : Reader) (key value : Bytes)
    (w : World engine.Entry) (clocks : Set SystemTime) (inside : w.clock ∈ clocks) :
    PutSurvives engine.kv reader key value clocks w ↔
      ∀ now ∈ clocks, ¬ engine.Endangers reader w key now := by
  rw [← Engine.backend_kv]
  grind [lost_of_endangered, survives_of_calm]

def World.expiredBeside {E : Type} [Expiry E] : World E :=
  ⟨⟨((∅ : Table Bytes Bytes).insert [106] [97]).insert [107] [97],
    ((∅ : Table Bytes E).insert [106] (Expiry.encode 0)).insert [107] (Expiry.encode 2)⟩,
    .ofMillis 0⟩

theorem put_survives_beside_expired :
    let clocks := {.ofMillis 0, .ofMillis 1}
    PutSurvives Redb.store .get [107] [98] clocks .expiredBeside ∧
      PutSurvives Sled.store .ttl [107] [98] clocks .expiredBeside ∧
      PutSurvives Fjall.store .purgeExpired [107] [98] clocks .expiredBeside := by
  refine ⟨(put_survives_iff .redb .get [107] [98] .expiredBeside _ (.inl rfl)).mpr ?_,
    (put_survives_iff .sled .ttl [107] [98] .expiredBeside _ (.inl rfl)).mpr ?_,
    (put_survives_iff .fjall .purgeExpired [107] [98] .expiredBeside _ (.inl rfl)).mpr ?_⟩ <;>
  · rintro now (rfl | rfl) ⟨elapsed, -⟩ <;> exact absurd elapsed (by decide +kernel)

def Undone {E T N : Type} (kv : KvStore (World E) T N) (reader : Reader) (key value : Bytes)
    (w : World E) (schedule : List (Event Bool SystemTime)) : Prop :=
  ((race kv reader key value w).run tick schedule).threads true = .pure (.ok ()) ∧
    ((race kv reader key value w).run tick schedule).threads false = .pure (.ok ()) ∧
    ((kv.get key).exec ((race kv reader key value w).run tick schedule).state).1 = .ok none

theorem put_undone_by_eviction :
    Undone Redb.store .get [107] [98] .expiredPair
        [.turn false, .turn false, .turn true, .turn false] ∧
      Undone Sled.store .get [107] [98] .expiredPair
        [.turn false, .turn false, .turn true, .turn true, .turn false, .turn false] ∧
      Undone Fjall.store .get [107] [98] .expiredPair
        [.turn false, .turn false, .turn true, .turn false] :=
  ⟨⟨rfl, rfl, rfl⟩, ⟨rfl, rfl, rfl⟩, ⟨rfl, rfl, rfl⟩⟩

end OxiStore
