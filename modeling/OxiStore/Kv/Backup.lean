/-
**Backup and restore.**
-/

import OxiStore.Kv.Engine

namespace OxiStore

open ByteString OrdTable Store

/-! ### redb -/

namespace Redb

def backup (path : Option String) : Call State (Store UInt64) :=
  match path with
  | some _ => readStore id
  | none => throw (.other "cannot backup an in-memory database")

def restore (path : String) (file : Option (Store UInt64)) : Call State Unit :=
  match file with
  | none => throw (.other ("backup file does not exist: " ++ path))
  | some database => batchWrite database.data.toList

end Redb

/-! ### fjall -/

namespace Fjall

def encodePair (pair : Bytes × Bytes) : Bytes :=
  toLeBytes 4 pair.1.length ++ pair.1 ++ (toLeBytes 4 pair.2.length ++ pair.2)

def backup : Call State Bytes := do
  let items ← readStore (·.data.toList)
  pure (items.flatMap encodePair)

def readExact (length : ℕ) (file : Bytes) : Option (Bytes × Bytes) :=
  if file.length < length then none else some (file.take length, file.drop length)

def readExactOrFail (length : ℕ) (file : Bytes) : Call State (Bytes × Bytes) :=
  match readExact length file with
  | some read => pure read
  | none => throw (.io "failed to fill whole buffer")

def restoreLoop : ℕ → Bytes → Call State Unit
  | 0, _ => pure ()
  | passes + 1, file =>
      match readExact 4 file with
      | none => pure ()
      | some (keyLen, file) => do
          let (key, file) ← readExactOrFail (ofLeBytes keyLen) file
          let (valLen, file) ← readExactOrFail 4 file
          let (value, file) ← readExactOrFail (ofLeBytes valLen) file
          put key value
          restoreLoop passes file

def restoreFromBackup (file : Bytes) : Call State Unit := restoreLoop (file.length + 1) file

def Storable (s : Store Bytes) : Prop :=
  ∀ key value : Bytes, s.data[key]? = some value → key.length < 2 ^ 16 ∧ value.length < 2 ^ 32

theorem readExact_append (read file : Bytes) : readExact read.length (read ++ file) = some (read, file) := by
  unfold readExact
  rw [if_neg (by simp), List.take_left, List.drop_left]

theorem readExactOrFail_append {length : ℕ} {read : Bytes} (file : Bytes)
    (same : read.length = length) :
    readExactOrFail length (read ++ file) = pure (read, file) := by
  unfold readExactOrFail
  rw [← same, readExact_append]

theorem restoreLoop_header (passes : ℕ) {length : ℕ} (fits : length < 2 ^ 32) (file : Bytes) :
    restoreLoop (passes + 1) (toLeBytes 4 length ++ file) = (do
      let (key, file) ← readExactOrFail length file
      let (valLen, file) ← readExactOrFail 4 file
      let (value, file) ← readExactOrFail (ofLeBytes valLen) file
      put key value
      restoreLoop passes file) := by
  have header := readExact_append (toLeBytes 4 length) file
  have keyLen : ofLeBytes (toLeBytes 4 length) = length :=
    (ofLeBytes_toLeBytes ..).trans (Nat.mod_eq_of_lt fits)
  rw [length_toLeBytes] at header
  rw [restoreLoop, header]
  dsimp only
  rw [keyLen]

theorem restoreLoop_encodePair (passes : ℕ) {pair : Bytes × Bytes} (file : Bytes)
    (fits : pair.1.length < 2 ^ 32 ∧ pair.2.length < 2 ^ 32) :
    restoreLoop (passes + 1) (encodePair pair ++ file) =
      (do put pair.1 pair.2; restoreLoop passes file) := by
  obtain ⟨key, value⟩ := pair
  have valLen : ofLeBytes (toLeBytes 4 value.length) = value.length :=
    (ofLeBytes_toLeBytes ..).trans (Nat.mod_eq_of_lt fits.2)
  unfold encodePair
  simp only [List.append_assoc]
  rw [restoreLoop_header passes fits.1, readExactOrFail_append _ rfl]
  show (readExactOrFail _ _ >>= _ : Call State Unit) = _
  rw [readExactOrFail_append _ (length_toLeBytes 4 value.length)]
  show (readExactOrFail _ _ >>= _ : Call State Unit) = _
  rw [valLen, readExactOrFail_append _ rfl]
  rfl

theorem restoreLoop_encoded (passes : ℕ) {pairs : List (Bytes × Bytes)} (enough : pairs.length ≤ passes)
    (fits : ∀ pair ∈ pairs, pair.1.length < 2 ^ 32 ∧ pair.2.length < 2 ^ 32) :
    restoreLoop passes (pairs.flatMap encodePair) = pairs.forM fun pair => put pair.1 pair.2 := by
  induction pairs generalizing passes with
  | nil =>
    cases passes <;> rfl
  | cons pair pairs ih =>
    rw [List.length_cons] at enough
    obtain ⟨passes, rfl⟩ : ∃ fewer, passes = fewer + 1 := ⟨passes - 1, by omega⟩
    rw [List.flatMap_cons, restoreLoop_encodePair passes _ (fits pair List.mem_cons_self),
      ih passes (by omega) fun later member => fits later (List.mem_cons_of_mem _ member)]
    rfl

theorem exec_put (pair : Bytes × Bytes) (w : State) :
    (put pair.1 pair.2).exec w = (.ok (), w.onStore (·.write pair.1 pair.2)) :=
  fjall.put_exec pair.1 pair.2 w

theorem exec_puts (pairs : List (Bytes × Bytes)) (w : State) :
    (pairs.forM fun pair => put pair.1 pair.2 : Call State Unit).exec w =
      (.ok (), w.onStore (·.stageAll (pairs.map fun pair => (pair.1, .put pair.2)))) := by
  induction pairs generalizing w with
  | nil => rfl
  | cons pair pairs ih =>
    show (put pair.1 pair.2 >>= fun _ => pairs.forM _ : Call State Unit).exec w = _
    rw [Call.exec_bind_ok (exec_put pair w), ih]
    rfl

theorem length_encodePair (pair : Bytes × Bytes) :
    (encodePair pair).length = pair.1.length + pair.2.length + 8 := by
  unfold encodePair
  simp only [List.length_append, length_toLeBytes]
  omega

theorem length_le_flatMap_encodePair (pairs : List (Bytes × Bytes)) :
    pairs.length ≤ (pairs.flatMap encodePair).length := by
  induction pairs with
  | nil => exact Nat.le_refl 0
  | cons pair pairs ih =>
    have size := length_encodePair pair
    rw [List.flatMap_cons, List.length_append, List.length_cons]
    omega

theorem exec_restoreFromBackup {s : Store Bytes} (storable : Storable s) (w : State) :
    (restoreFromBackup (s.data.toList.flatMap encodePair)).exec w =
      (.ok (), w.onStore (·.stageAll (s.data.toList.map fun pair => (pair.1, .put pair.2)))) := by
  have passes := length_le_flatMap_encodePair s.data.toList
  unfold restoreFromBackup
  rw [restoreLoop_encoded _ (passes.trans (Nat.le_succ _)) fun pair member => ?_, exec_puts]
  obtain ⟨key, value⟩ := storable pair.1 pair.2 (((lists_toList s.data).mem_iff pair.1 pair.2).mp member)
  exact ⟨by omega, value⟩

end Fjall

/-! ### A file that is cut -/

namespace Fjall

def CutsLength (pairs : List (Bytes × Bytes)) (file : Bytes) : Prop :=
  ∃ done, done <+: pairs ∧ done.flatMap encodePair <+: file ∧
    file.length < (done.flatMap encodePair).length + 4

def Refused (restore : Call State Unit) (w : State) : Prop := ∃ error, (restore.exec w).1 = .error error

theorem cutsLength_cons {pair : Bytes × Bytes} {pairs : List (Bytes × Bytes)} {file : Bytes} :
    CutsLength (pair :: pairs) (encodePair pair ++ file) ↔ CutsLength pairs file := by
  have long := length_encodePair pair
  constructor
  · rintro ⟨done, started, written, short⟩
    rw [List.length_append] at short
    cases done with
    | nil =>
      simp only [List.flatMap_nil, List.length_nil] at short
      omega
    | cons first done =>
      obtain ⟨rfl, started'⟩ := List.cons_prefix_cons.mp started
      rw [List.flatMap_cons] at written short
      rw [List.length_append] at short
      exact ⟨done, started', (List.prefix_append_right_inj _).mp written, by omega⟩
  · rintro ⟨done, started, written, short⟩
    refine ⟨pair :: done, List.cons_prefix_cons.mpr ⟨rfl, started⟩, ?_, ?_⟩
    · rw [List.flatMap_cons]
      exact (List.prefix_append_right_inj _).mpr written
    · rw [List.flatMap_cons, List.length_append, List.length_append]
      omega

theorem readExactOrFail_short {length : ℕ} {file : Bytes} (short : file.length < length) :
    readExactOrFail length file = throw (.io "failed to fill whole buffer") := by
  unfold readExactOrFail readExact
  rw [if_pos short]

theorem take_append_long {first second : Bytes} {length more : ℕ} (same : first.length = length) :
    (first ++ second).take (length + more) = first ++ second.take more := by
  rw [← same, List.take_length_add_append]

theorem restoreLoop_cut (passes : ℕ) {pair : Bytes × Bytes} {count : ℕ}
    (fits : pair.1.length < 2 ^ 32 ∧ pair.2.length < 2 ^ 32) (begun : 4 ≤ count)
    (cut : count < (encodePair pair).length) :
    restoreLoop (passes + 1) ((encodePair pair).take count) = throw (.io "failed to fill whole buffer") := by
  obtain ⟨key, value⟩ := pair
  have valLen : ofLeBytes (toLeBytes 4 value.length) = value.length :=
    (ofLeBytes_toLeBytes ..).trans (Nat.mod_eq_of_lt fits.2)
  rw [length_encodePair] at cut
  dsimp only at cut fits
  obtain ⟨count, rfl⟩ := Nat.exists_eq_add_of_le begun
  unfold encodePair
  simp only [List.append_assoc]
  rw [take_append_long (length_toLeBytes 4 _), restoreLoop_header passes fits.1]
  by_cases inKey : count < key.length
  · rw [readExactOrFail_short ((List.length_take_le count _).trans_lt inKey)]
    rfl
  obtain ⟨count, rfl⟩ := Nat.exists_eq_add_of_le (not_lt.mp inKey)
  rw [take_append_long rfl, readExactOrFail_append _ rfl]
  show (readExactOrFail _ _ >>= _ : Call State Unit) = _
  by_cases inLength : count < 4
  · rw [readExactOrFail_short ((List.length_take_le count _).trans_lt inLength)]
    rfl
  obtain ⟨count, rfl⟩ := Nat.exists_eq_add_of_le (not_lt.mp inLength)
  rw [take_append_long (length_toLeBytes 4 _), readExactOrFail_append _ (length_toLeBytes 4 value.length)]
  show (readExactOrFail _ _ >>= _ : Call State Unit) = _
  rw [valLen, readExactOrFail_short ((List.length_take_le count _).trans_lt (by omega))]
  rfl

theorem restoreLoop_refused_iff {passes : ℕ} {pairs : List (Bytes × Bytes)} {file : Bytes}
    (enough : file.length < passes) (fits : ∀ pair ∈ pairs, pair.1.length < 2 ^ 32 ∧ pair.2.length < 2 ^ 32)
    (cut : file <+: pairs.flatMap encodePair)
    (inside : ∀ done, done <+: pairs → file ≠ done.flatMap encodePair) (w : State) :
    Refused (restoreLoop passes file) w ↔ ¬ CutsLength pairs file := by
  induction pairs generalizing passes file w with
  | nil => exact absurd (List.prefix_nil.mp cut) (inside [] List.nil_prefix)
  | cons pair pairs ih =>
    obtain ⟨passes, rfl⟩ : ∃ fewer, passes = fewer + 1 := ⟨passes - 1, by omega⟩
    rw [List.flatMap_cons] at cut
    have here := fits pair List.mem_cons_self
    rcases List.prefix_or_prefix_of_prefix cut (List.prefix_append _ _) with early | ⟨rest, rfl⟩
    · -- The file ends inside the first record.
      have short : file.length < (encodePair pair).length := by
        refine early.length_le.lt_of_ne fun full => inside [pair] (List.prefix_append [pair] pairs) ?_
        rw [early.eq_of_length full, List.flatMap_singleton]
      have taken := List.prefix_iff_eq_take.mp early
      by_cases begun : 4 ≤ file.length
      · refine iff_of_true ⟨.io "failed to fill whole buffer", ?_⟩ ?_
        · rw [taken, restoreLoop_cut passes here begun short]
          rfl
        · rintro ⟨done, started, written, ends⟩
          cases done with
          | nil => exact absurd ends (by simpa using begun)
          | cons first done =>
            obtain ⟨rfl, -⟩ := List.cons_prefix_cons.mp started
            have size := written.length_le
            rw [List.flatMap_cons, List.length_append] at size
            omega
      · refine iff_of_false ?_ (not_not.mpr ⟨[], List.nil_prefix, List.nil_prefix, by simpa using begun⟩)
        rintro ⟨error, refused⟩
        unfold restoreLoop readExact at refused
        rw [if_pos (not_le.mp begun)] at refused
        cases refused
    · have fewer : rest.length < passes := by
        have size := length_encodePair pair
        rw [List.length_append] at enough
        omega
      have within : ∀ done, done <+: pairs → rest ≠ done.flatMap encodePair := fun done started same =>
        inside (pair :: done) (List.cons_prefix_cons.mpr ⟨rfl, started⟩) (by rw [same, List.flatMap_cons])
      have later := ih fewer (fun later member => fits later (List.mem_cons_of_mem _ member))
        ((List.prefix_append_right_inj _).mp cut) within (w.onStore (·.write pair.1 pair.2))
      rw [cutsLength_cons, ← later]
      unfold Refused
      rw [restoreLoop_encodePair passes _ here, Call.exec_bind_ok (exec_put pair w)]

/-- **The format of a fjall backup.** It is read back as the puts of what was written; and a file that is cut
inside a record is refused exactly if it is not cut inside the record's first length, which is taken for the
end of the file. -/
theorem backup_format_iff {pairs : List (Bytes × Bytes)}
    (fits : ∀ pair ∈ pairs, pair.1.length < 2 ^ 32 ∧ pair.2.length < 2 ^ 32) :
    restoreFromBackup (pairs.flatMap encodePair) = pairs.forM (fun pair => put pair.1 pair.2) ∧
    ∀ file, file <+: pairs.flatMap encodePair →
      (∀ done, done <+: pairs → file ≠ done.flatMap encodePair) →
      ∀ w, Refused (restoreFromBackup file) w ↔ ¬ CutsLength pairs file :=
  ⟨restoreLoop_encoded _ ((length_le_flatMap_encodePair pairs).trans (Nat.le_succ _)) fits,
    fun file cut inside => restoreLoop_refused_iff (Nat.lt_succ_self file.length) fits cut inside⟩

theorem backup_format_of_pair :
    restoreFromBackup [1, 0, 0, 0, 107, 1, 0, 0, 0, 97] =
      [([107], [97])].forM (fun pair => put pair.1 pair.2) ∧
    (Refused (restoreFromBackup [1, 0, 0, 0, 107]) ⟨.empty, .last⟩ ↔
      ¬ CutsLength [([107], [97])] [1, 0, 0, 0, 107]) := by
  obtain ⟨whole, cut⟩ := @backup_format_iff [([107], [97])] (by simp)
  refine ⟨whole, cut [1, 0, 0, 0, 107] ⟨[1, 0, 0, 0, 97], by decide⟩ (fun done started => ?_) _⟩
  rcases List.prefix_cons_iff.mp started with rfl | ⟨none', rfl, nothing⟩
  · decide
  · rw [List.prefix_nil.mp nothing]
    decide

theorem cut_length_restores : [1, 0] <+: [([107], [97])].flatMap encodePair ∧
    (restoreFromBackup [1, 0]).exec ⟨.empty, .last⟩ = (.ok (), ⟨.empty, .last⟩) :=
  ⟨⟨[0, 0, 107, 1, 0, 0, 0, 97], by decide⟩, rfl⟩

end Fjall

/-! ### What a restore owes the source -/

theorem Store.get_stageAll_toList {E : Type} (source target : Store E) (key : Bytes) :
    (target.stageAll (source.data.toList.map fun pair => (pair.1, .put pair.2))).data[key]? =
      (source.data[key]?).or target.data[key]? ∧
    (target.stageAll (source.data.toList.map fun pair => (pair.1, .put pair.2))).ttl[key]? =
      if source.data[key]?.isSome then none else target.ttl[key]? := by
  rw [get_stageAll_data, get_stageAll_ttl, latest_map TxnOp.put, (lists_toList source.data).latest]
  cases source.data[key]? <;> exact ⟨rfl, rfl⟩

section

variable {E : Type} [Expiry E]

/-- **`restored` is `source`, from the time `now` on**: the same visible pairs, and the same expiries
of them. -/
def RestoredAs (source : Store E) (now : SystemTime) (restored : Store E) : Prop :=
  ∀ later, nowEpochMillis now ≤ nowEpochMillis later → ∀ key,
    restored.visible later key = source.visible later key ∧
      (source.visible later key ≠ none → restored.expiry key = source.expiry key)

theorem restoredAs_iff (source target : Store E) (now : SystemTime) :
    RestoredAs source now
        (target.stageAll (source.data.toList.map fun pair => (pair.1, .put pair.2))) ↔
      (∀ key : Bytes, source.data[key]?.isSome = true → source.expiry key = none) ∧
        ∀ key : Bytes, source.data[key]? = none → target.visible now key = none := by
  have entries := source.get_stageAll_toList target
  set restored := target.stageAll (source.data.toList.map fun pair => (pair.1, .put pair.2))
  -- A pair of the source is in the restored store, without an expiry.
  have held : ∀ key value, source.data[key]? = some value →
      restored.expiry key = none ∧ ∀ later, restored.visible later key = some value := by
    intro key value found
    obtain ⟨data, ttl⟩ := entries key
    rw [found] at data ttl
    have lasting : restored.expiry key = none := by
      unfold expiry
      rw [ttl]
      rfl
    refine ⟨lasting, fun later => ?_⟩
    rw [visible_of_not_elapsed (elapsed_of_expiry_none lasting later), data]
    rfl
  -- Any other key shows what it showed in the target.
  have other : ∀ key, source.data[key]? = none → ∀ later,
      restored.visible later key = target.visible later key ∧ source.visible later key = none := by
    intro key missing later
    obtain ⟨data, ttl⟩ := entries key
    rw [missing] at data ttl
    refine ⟨visible_congr data ttl, ?_⟩
    unfold visible
    rw [missing, ite_self]
  constructor
  · intro faithful
    have sameNow := faithful now (UInt64.le_refl _)
    refine ⟨fun key stored => ?_, fun key missing => ?_⟩
    · obtain ⟨value, found⟩ := Option.isSome_iff_exists.mp stored
      obtain ⟨lasting, visible⟩ := held key value found
      obtain ⟨shown, expiry⟩ := sameNow key
      rw [visible] at shown
      rw [← expiry (by rw [← shown]; exact Option.some_ne_none value), lasting]
    · obtain ⟨shown, -⟩ := sameNow key
      obtain ⟨same, absent⟩ := other key missing now
      rw [← same, shown, absent]
  · rintro ⟨lasting, clean⟩ later forward key
    cases found : source.data[key]? with
    | some value =>
      obtain ⟨dropped, visible⟩ := held key value found
      have none : source.expiry key = none := lasting key (by rw [found]; rfl)
      rw [visible, visible_of_not_elapsed (elapsed_of_expiry_none none later), found,
        dropped, none]
      exact ⟨rfl, fun _ => rfl⟩
    | none =>
      obtain ⟨same, absent⟩ := other key found later
      have hidden : target.visible later key = none :=
        World.visible_none_setClock (w := ⟨target, now⟩) forward (clean key found)
      rw [same, absent, hidden]
      exact ⟨rfl, fun shown => absurd rfl shown⟩

end

/-- **When a restored backup is the source.** On redb, for any source and any target, and on fjall,
for any source and a restore into an empty store: exactly when no stored pair of the source has an
expiry and, on redb, the target shows no key that the backup does not have. -/
theorem backup_restore_iff (path copy : String) (source target : World UInt64)
    (keyspaces : World Bytes) (clock : SystemTime) (storable : Fjall.Storable keyspaces.store) :
    (∃ file, (Redb.backup (some path)).exec source = (.ok file, source) ∧
      ∃ restored, (Redb.restore copy (some file)).exec target = (.ok (), restored) ∧
        (RestoredAs source.store target.clock restored.store ↔
          (∀ key : Bytes, source.stored key = true → source.store.expiry key = none) ∧
            ∀ key : Bytes, source.stored key = false → target.visible key = none)) ∧
    ∃ file, Fjall.backup.exec keyspaces = (.ok file, keyspaces) ∧
      ∃ restored, (Fjall.restoreFromBackup file).exec ⟨.empty, clock⟩ = (.ok (), restored) ∧
        (RestoredAs keyspaces.store clock restored.store ↔
          ∀ key : Bytes, keyspaces.stored key = true → keyspaces.store.expiry key = none) := by
  constructor
  · refine ⟨source.store, rfl, _, redb.batchWrite_exec source.store.data.toList target, ?_⟩
    refine (restoredAs_iff source.store target.store target.clock).trans (and_congr Iff.rfl ?_)
    refine forall_congr' fun key => ?_
    unfold World.stored
    rw [Option.isSome_eq_false_iff, Option.isNone_iff_eq_none]
    rfl
  · refine ⟨_, rfl, _, Fjall.exec_restoreFromBackup storable ⟨.empty, clock⟩, ?_⟩
    refine (restoredAs_iff keyspaces.store .empty clock).trans (and_iff_left fun key _ => ?_)
    unfold visible
    exact ite_self _

theorem backup_restore_plain_pair :
    ∃ file, Fjall.backup.exec ⟨Store.empty.write [107] [97], .last⟩ =
        (.ok file, ⟨Store.empty.write [107] [97], .last⟩) ∧
      ∃ restored, (Fjall.restoreFromBackup file).exec ⟨.empty, .last⟩ = (.ok (), restored) ∧
        RestoredAs (Store.empty.write [107] [97]) .last restored.store := by
  have storable : Fjall.Storable (empty.write [107] [97]) := by
    intro key value found
    have pair := get_insert (∅ : Table Bytes Bytes) [107] key [97]
    rw [show ((∅ : Table Bytes Bytes).insert [107] [97])[key]? = some value from found] at pair
    split_ifs at pair with same
    · obtain rfl := Option.some.inj pair
      rw [← same]
      decide
    · cases pair
  obtain ⟨file, saved, restored, loaded, faithful⟩ := (backup_restore_iff "a" "b" ⟨.empty, .last⟩
    ⟨.empty, .last⟩ ⟨empty.write [107] [97], .last⟩ .last storable).2
  refine ⟨file, saved, restored, loaded, faithful.mpr fun key _ => ?_⟩
  exact rfl

theorem restore_revives_expired :
    (((Redb.store.get [107]).exec .expiredPair).1 = .ok none ∧
      ((Redb.store.get [107]).exec ((Redb.restore "copy" (some World.expiredPair.store)).exec
        ⟨.empty, .ofMillis 0⟩).2).1 = .ok (some [97])) ∧
    (((Fjall.store.get [107]).exec .expiredPair).1 = .ok none ∧
      (Fjall.backup.exec .expiredPair).1 = .ok [1, 0, 0, 0, 107, 1, 0, 0, 0, 97] ∧
      ((Fjall.store.get [107]).exec
        ((Fjall.restoreFromBackup [1, 0, 0, 0, 107, 1, 0, 0, 0, 97]).exec
          ⟨.empty, .ofMillis 0⟩).2).1 = .ok (some [97])) ∧
    ((Redb.store.get [120]).exec ((Redb.restore "copy" (some .empty)).exec
      ⟨Store.empty.write [120] [121], .ofMillis 0⟩).2).1 =
        .ok (some [121]) := by
  refine ⟨⟨?_, ?_⟩, ⟨?_, ?_, ?_⟩, ?_⟩
  all_goals decide

end OxiStore
