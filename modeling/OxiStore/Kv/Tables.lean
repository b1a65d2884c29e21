/-
**Named tables of one database.**
-/

import OxiStore.Kv.Ops

namespace OxiStore

open ByteString OrdTable StepProg

/-! ### Databases -/

/-- **A database**: tables by name, and one sidecar, whose name is `__ttl__`. -/
structure Database (E : Type) where
  tables : String → Table Bytes Bytes
  ttl : Table Bytes E

namespace Database

variable {E T N : Type} [Expiry E]

/-- **The data of a store on a name**. redb refuses the sidecar's name; a fjall store opened on it has the
sidecar for its data as well. -/
def data (db : Database E) (name : String) : Table Bytes Bytes :=
  if name = "__ttl__" then db.ttl.map fun _ entry => Expiry.bytes entry else db.tables name

theorem data_of_ne (db : Database E) {name : String} (own : name ≠ "__ttl__") :
    db.data name = db.tables name :=
  if_neg own

def world (db : Database E) (name : String) (now : SystemTime) : World E := ⟨⟨db.data name, db.ttl⟩, now⟩

def commit (db : Database E) (name : String) (s : Store E) : Database E :=
  ⟨Function.update db.tables name s.data, s.ttl⟩

def perform (kv : KvStore (World E) T N) (name : String) (db : Database E) (op : SystemTime × KvOp) :
    Except StoreError Unit × Database E :=
  ((kv.performAt (db.world name op.1) op).1, db.commit name (kv.performAt (db.world name op.1) op).2.store)

end Database

/-! ### Edits and the sidecar -/

def KvOp.setsExpiry (key : Bytes) : KvOp → Prop
  | .putWithTtl other _ _ | .expire other _ => key = other
  | _ => False

section

variable {E : Type}

def Edit.clears : Edit E → Bool
  | .write _ _ | .evict _ | .detach _ => true
  | .writeTtl _ _ _ | .attach _ _ => false

theorem Store.editAll_ttl_kept {s : Store E} (edits : List (Edit E)) {key : Bytes}
    (harmless : ∀ edit ∈ edits, edit.key = key → edit.clears = true ∧ s.ttl[key]? = none) :
    (s.editAll edits).ttl[key]? = s.ttl[key]? := by
  induction edits generalizing s with
  | nil => rfl
  | cons edit edits ih =>
    have step : (s.edit edit).ttl[key]? = s.ttl[key]? := by
      by_cases same : edit.key = key
      · obtain ⟨clears, none⟩ := harmless edit List.mem_cons_self same
        subst same
        cases edit with
        | write changed value | evict changed | detach changed =>
          exact ((get_erase s.ttl changed changed).trans (if_pos rfl)).trans none.symm
        | writeTtl | attach => cases clears
      · exact (s.edit_other same).2
    refine (ih fun later member same => ?_).trans step
    obtain ⟨clears, none⟩ := harmless later (List.mem_cons_of_mem _ member) same
    exact ⟨clears, step.trans none⟩

end

/-! ### Isolation -/

section

variable {E T N : Type} [Expiry E]

/-- **A store on `name` reports the same** from both databases, at every clock. -/
structure SameReports (kv : KvStore (World E) T N) (name : String) (db db' : Database E) :
    Prop where
  get (now : SystemTime) (key : Bytes) :
    ((kv.get key).exec (db'.world name now)).1 = ((kv.get key).exec (db.world name now)).1
  ttl (now : SystemTime) (key : Bytes) :
    ((kv.ttl key).exec (db'.world name now)).1 = ((kv.ttl key).exec (db.world name now)).1
  iter (now : SystemTime) : (kv.iter.exec (db'.world name now)).1 = (kv.iter.exec (db.world name now)).1

/-- **The condition on a step**, of every key that the table `there` holds: the step does not set its
expiry; it does not write, delete or persist the key while the sidecar has an entry for it; and it
does not visit the key for an eviction when its expiry has elapsed. -/
structure LeavesExpiries (there : String) (db : Database E) (op : SystemTime × KvOp) : Prop where
  sets (key : Bytes) (held : (db.data there)[key]?.isSome = true) : ¬ op.2.setsExpiry key
  drops (key : Bytes) (held : (db.data there)[key]?.isSome = true) :
    op.2.stores key ∨ op.2 = .persist key → db.ttl[key]? = none
  visits (key : Bytes) (held : (db.data there)[key]?.isSome = true) :
    op.2.evicts key → (db.world there op.1).elapsed key = false

variable {here there : String} {db : Database E}

theorem LeavesExpiries.harmless {op : SystemTime × KvOp} (leaves : LeavesExpiries there db op)
    {edit : Edit E} (cause : edit.Cause (db.world here op.1) op.2)
    (held : (db.data there)[edit.key]?.isSome = true) :
    edit.clears = true ∧ db.ttl[edit.key]? = none := by
  cases cause with
  | stale evicts elapsed =>
    -- The sidecar is shared, so the expiry has elapsed for `there` as well.
    exact absurd (elapsed.symm.trans (leaves.visits _ held evicts)) (by decide)
  | write stores | delete stores => exact ⟨rfl, leaves.drops _ held (.inl stores)⟩
  | writeTtl same | attach same => exact absurd (by rw [same]; rfl) (leaves.sets _ held)
  | detach same => exact ⟨rfl, leaves.drops _ held (.inr same)⟩

variable (b : Backend E T N)

theorem Backend.sameReports {name : String} {db' : Database E} (table : db'.data name = db.data name)
    (ttl : ∀ key : Bytes, (db.data name)[key]?.isSome = true → db'.ttl[key]? = db.ttl[key]?) :
    SameReports b.kv name db db' := by
  have visible : ∀ now, (db'.world name now).visible = (db.world name now).visible := by
    intro now
    funext key
    cases found : (db.data name)[key]? with
    | none =>
      have gone : (db.world name now).store.data[key]? = none := found
      have gone' : (db'.world name now).store.data[key]? = none :=
        (congrArg (·[key]?) table).trans found
      unfold World.visible Store.visible
      rw [gone, gone', ite_self, ite_self]
    | some value =>
      exact Store.visible_congr (congrArg (·[key]?) table) (ttl key (by rw [found]; rfl))
  refine ⟨fun now key => ?_, fun now key => ?_, fun now => ?_⟩
  · rw [b.get_exec, b.get_exec, visible]
  · rw [b.ttl_exec, b.ttl_exec]
    cases found : (db.data name)[key]? with
    | none =>
      have hidden : (db.world name now).visible key = none := by
        unfold World.visible Store.visible
        rw [show (db.world name now).store.data[key]? = none from found, ite_self]
      rw [World.lifetime_invisible hidden, World.lifetime_invisible (by rw [visible, hidden])]
    | some value =>
      exact World.lifetime_congr rfl (congrArg (·[key]?) table) (ttl key (by rw [found]; rfl))
  · have same : (db'.world name now).listing Anywhere = (db.world name now).listing Anywhere := by
      refine (lists_listing (db'.world name now) Anywhere).unique
        ((lists_listing (db.world name now) Anywhere).congr fun key => ?_)
      rw [visible]
    rw [b.iter_exec, b.iter_exec, same]

def Database.SameAt (name : String) (db db' : Database E) : Prop :=
  db'.data name = db.data name ∧ ∀ key : Bytes, (db.data name)[key]?.isSome = true → db'.ttl[key]? = db.ttl[key]?

theorem Backend.perform_elsewhere (apart : [here, there, "__ttl__"].Nodup) {op : SystemTime × KvOp}
    (leaves : LeavesExpiries there db op) : db.SameAt there (db.perform b.kv here op).2 := by
  have own : there ≠ "__ttl__" := by simp_all
  have different : there ≠ here := by rintro rfl; simp at apart
  refine ⟨?_, fun key held => ?_⟩
  · rw [Database.data_of_ne _ own, Database.data_of_ne _ own]
    exact Function.update_of_ne different _ _
  · have state := b.perform_state op.2 (db.world here op.1)
    show ((b.kv.perform op.2).exec (db.world here op.1)).2.store.ttl[key]? = db.ttl[key]?
    rw [state]
    refine Store.editAll_ttl_kept (s := (db.world here op.1).store) _ fun edit member same => ?_
    subst same
    exact leaves.harmless (b.edits_cause member) held

theorem Backend.run_elsewhere (apart : [here, there, "__ttl__"].Nodup) (db : Database E)
    (ops : List (SystemTime × KvOp))
    (leaves : AlongRun (Database.perform b.kv here) (LeavesExpiries there) db ops) :
    db.SameAt there (afterRun (Database.perform b.kv here) db ops) := by
  refine afterRun_invariant ?_ ⟨rfl, fun _ _ => rfl⟩ leaves
  rintro db' op ⟨table, ttl⟩ first
  obtain ⟨table', ttl'⟩ := b.perform_elsewhere apart first
  rw [table] at table' ttl'
  exact ⟨table', fun key held => (ttl' key held).trans (ttl key held)⟩

end

/-- **Two names of one database are isolated as long as no step meddles with the shared sidecar**: neither
name is the sidecar's own, and in every run through the store on `here` whose steps leave the expiries of
the other table's keys alone, the store on `there` reports the same in every state reached. -/
theorem tables_isolated (engine : Engine) (here there : String) (apart : [here, there, "__ttl__"].Nodup)
    (db : Database engine.Entry) (ops : List (SystemTime × KvOp))
    (leaves : AlongRun (Database.perform engine.kv here) (LeavesExpiries there) db ops) :
    ∀ done, done <+: ops →
      SameReports engine.kv there db (afterRun (Database.perform engine.kv here) db done) := by
  rintro done ⟨rest, rfl⟩
  rw [← Engine.backend_kv] at leaves ⊢
  obtain ⟨table, ttl⟩ := engine.backend.run_elsewhere apart db done (alongRun_append.mp leaves).1
  exact engine.backend.sameReports table ttl

def Database.pairInB {E : Type} : Database E :=
  ⟨fun name => if name = "b" then (∅ : Table Bytes Bytes).insert [107] [118] else ∅, ∅⟩

theorem tables_isolated_put :
    SameReports Redb.store "b" .pairInB (afterRun (Database.perform Redb.store "a") .pairInB
      [(.last, .put [107] [98]), (.last, .putWithTtl [1] [2] (Duration.fromMillis 1))]) := by
  refine tables_isolated .redb "a" "b" (by decide) .pairInB
    [(.last, .put [107] [98]), (.last, .putWithTtl [1] [2] (Duration.fromMillis 1))] ⟨?_, ?_, trivial⟩ _
    List.prefix_rfl
  · exact ⟨fun key held sets => sets, fun key held drops => rfl, fun key held visits => rfl⟩
  · refine ⟨?_, ?_, fun key held visits => visits.elim⟩
    · rintro key held rfl
      exact absurd held (by decide)
    · rintro key held (stores | same)
      · exact stores.elim
      · cases same

theorem expiry_crosses_tables :
    let ops := [(.ofMillis 0, KvOp.putWithTtl [107] [98] (Duration.fromMillis 1))]
    (((Redb.store.get [107]).exec (Database.pairInB.world "b" (.ofMillis 1))).1 = .ok (some [118]) ∧
      ((Redb.store.get [107]).exec
        ((afterRun (Database.perform Redb.store "a") .pairInB ops).world "b" (.ofMillis 1))).1 = .ok none) ∧
    (((Fjall.store.get [107]).exec (Database.pairInB.world "b" (.ofMillis 1))).1 = .ok (some [118]) ∧
      ((Fjall.store.get [107]).exec
        ((afterRun (Database.perform Fjall.store "a") .pairInB ops).world "b" (.ofMillis 1))).1 = .ok none) ∧
    (((Fjall.store.get [107]).exec (Database.pairInB.world "__ttl__" (.ofMillis 0))).1 = .ok none ∧
      ((Fjall.store.get [107]).exec
        ((afterRun (Database.perform Fjall.store "a") .pairInB ops).world "__ttl__" (.ofMillis 0))).1 =
          .ok (some [1, 0, 0, 0, 0, 0, 0, 0])) := by
  refine ⟨⟨?_, ?_⟩, ⟨?_, ?_⟩, ?_, ?_⟩
  all_goals decide

end OxiStore
