/-
**The manifest of a partitioned dataset.**
-/

import OxiStore.Lib.Fallible
import OxiStore.Lib.Files
import OxiStore.Lib.Lines
import OxiStore.Lib.Results
import OxiStore.Columnar.Table

namespace OxiStore.Columnar

open ByteString Delimited FileTree Results StepProg List

/-! ### Files -/

def ioText : IoError → String
  | .notFound => "No such file or directory"
  | .alreadyExists => "File exists"
  | .notADirectory => "Not a directory"
  | .isADirectory => "Is a directory"
  | .invalidInput => "file name contained an unexpected NUL byte"
  | .unsupported => "unsupported operation"

abbrev FileCall (α : Type) := Fallible ColumnarError (Files Bytes) α

def ioCall {α : Type} (cwd : UnixPath.Location) (path : Text)
    (call : Target → Files Bytes → Except IoError α × Files Bytes) : FileCall α :=
  .atomic fun files =>
    let done := onPath cwd (UnixPath.Path.parse path) call files
    (done.1.mapError fun error => .io (ioText error), done.2)

theorem exec_ioCall_eq_ok {α : Type} {cwd : UnixPath.Location} {path : Text}
    {call : Target → Files Bytes → Except IoError α × Files Bytes} {files files' : Files Bytes} {value : α} :
    (ioCall cwd path call).exec files = (.ok value, files') ↔
      ∃ place, target cwd (UnixPath.Path.parse path) = .ok place ∧
        call place files = (.ok value, files') := by
  rw [← onPath_eq_ok, ioCall, Fallible.exec_atomic]
  simp only [Prod.ext_iff, mapError_eq_ok]

def writeFile (cwd : UnixPath.Location) (path : Text) (bytes : Bytes) : FileCall Unit :=
  ioCall cwd path fun place files => files.write place bytes

def readFile (cwd : UnixPath.Location) (path : Text) : FileCall Bytes :=
  ioCall cwd path fun place files => (files.read place, files)

def utf8 (text : Text) : Bytes := (String.ofList text).toUTF8.data.toList

def fromUtf8 (bytes : Bytes) : Option Text :=
  (String.fromUTF8? (ByteArray.mk bytes.toArray)).map String.toList

theorem fromUtf8_utf8 (text : Text) : fromUtf8 (utf8 text) = some text := by
  have bytes : ByteArray.mk (utf8 text).toArray = (String.ofList text).toUTF8 := rfl
  have back : String.fromUTF8? (String.ofList text).toUTF8 = some (String.ofList text) :=
    dif_pos (String.ofList text).isValidUTF8
  unfold fromUtf8
  rw [bytes, back, Option.map_some, String.toList_ofList]

/-! ### Datasets and their manifests -/

structure PartitionedDataset where
  root : Text
  partitionColumns : List Text
  compression : CompressionMode

structure ManifestEntry where
  partitionValues : List Text
  relPath : Text
  rowCount : UInt64
deriving DecidableEq

open ManifestEntry

def ManifestEntry.line (entry : ManifestEntry) (vals : Text) : Text :=
  vals ++ '\t' :: (entry.relPath ++ '\t' :: showUsize entry.rowCount)

def headerV1 : Text := "partition_value\trel_path\trow_count".toList

def headerV2 (columns : List Text) : Text := join '\t' (columns ++ ["rel_path".toList, "row_count".toList])

def ManifestEntry.lineV1 (entry : ManifestEntry) : Text := entry.line (entry.partitionValues.headD [])

def ManifestEntry.lineV2 (entry : ManifestEntry) : Text := entry.line (join '\t' entry.partitionValues)

def manifestText (columns : List Text) (entries : List ManifestEntry) : Text :=
  if columns.length ≠ 1 then
    unlines ("manifest_version=2".toList :: headerV2 columns :: entries.map ManifestEntry.lineV2)
  else unlines (headerV1 :: entries.map ManifestEntry.lineV1)

def parseLineV1 (lineIdx : ℕ) (line : Text) : Except ColumnarError ManifestEntry :=
  let parts := splitn 3 '\t' line
  if parts.length ≠ 3 then
    .error (.manifest ("manifest line " ++ toString (lineIdx + 2) ++
      ": expected 3 tab-separated fields, got " ++ toString parts.length))
  else match parseUsize (parts.getD 2 []) with
    | none => .error (.manifest ("manifest line " ++ toString (lineIdx + 2) ++
        ": invalid row_count '" ++ String.ofList (parts.getD 2 []) ++ "'"))
    | some rowCount => .ok ⟨[parts.getD 0 []], parts.getD 1 [], rowCount⟩

def parseLineV2 (nCols lineIdx : ℕ) (line : Text) : Except ColumnarError ManifestEntry :=
  let parts := splitn (nCols + 3) '\t' line
  if parts.length < nCols + 2 then
    .error (.manifest ("v2 manifest line " ++ toString (lineIdx + 3) ++ ": expected " ++
      toString (nCols + 2) ++ " tab-separated fields, got " ++ toString parts.length))
  else match parseUsize (parts.getD (nCols + 1) []) with
    | none => .error (.manifest ("v2 manifest line " ++ toString (lineIdx + 3) ++
        ": invalid row_count '" ++ String.ofList (parts.getD (nCols + 1) []) ++ "'"))
    | some rowCount => .ok ⟨parts.take nCols, parts.getD nCols [], rowCount⟩

def parseLines (parseLine : ℕ → Text → Except ColumnarError ManifestEntry) :
    ℕ → List Text → Except ColumnarError (List ManifestEntry)
  | _, [] => .ok []
  | lineIdx, line :: rest => do
      let entry ← parseLine lineIdx line
      let entries ← parseLines parseLine (lineIdx + 1) rest
      .ok (entry :: entries)

def parseManifest (columns : List Text) (text : Text) :
    Except ColumnarError (List Text × List ManifestEntry) :=
  match lines text with
  | [] => .error (.manifest "manifest.tsv is empty")
  | firstLine :: rest =>
      if "manifest_version=".toList.isPrefixOf firstLine then
        match rest with
        | [] => .error (.manifest "v2 manifest has no header line")
        | headerLine :: rest =>
            let headers := headerLine.splitOn '\t'
            if headers.length < 3 then
              .error (.manifest ("v2 manifest header has only " ++ toString headers.length ++
                " fields (minimum 3)"))
            else do
              let entries ← parseLines (parseLineV2 (headers.length - 2)) 0 rest
              .ok (headers.take (headers.length - 2), entries)
      else do
        let entries ← parseLines parseLineV1 0 rest
        .ok ([columns.headD "partition_value".toList], entries)

namespace PartitionedDataset

variable (dataset : PartitionedDataset) (cwd : UnixPath.Location)

def manifestPath : Text := UnixPath.join dataset.root "manifest.tsv".toList

def writeManifest (entries : List ManifestEntry) : FileCall Unit :=
  writeFile cwd dataset.manifestPath (utf8 (manifestText dataset.partitionColumns entries))

def readManifest : FileCall (List Text × List ManifestEntry) := do
  let bytes ← readFile cwd dataset.manifestPath
  match fromUtf8 bytes with
  | none => throw (.io "stream did not contain valid UTF-8")
  | some text => .ofExcept (parseManifest dataset.partitionColumns text)

end PartitionedDataset

/-! ### Reading lines -/

section

variable {nCols lineIdx : ℕ} {line : Text} {entry : ManifestEntry}

def ReadsV1 (line : Text) (entry : ManifestEntry) : Prop :=
  ∃ value shown, line.splitOn '\t' = [value, entry.relPath, shown] ∧
    parseUsize shown = some entry.rowCount ∧ entry.partitionValues = [value]

/-- **A line of a manifest of so many columns that is read as this entry.** What follows a further tab
is ignored. -/
def ReadsV2 (nCols : ℕ) (line : Text) (entry : ManifestEntry) : Prop :=
  ∃ values shown more, line.splitOn '\t' = values ++ entry.relPath :: shown :: more ∧
    values.length = nCols ∧ parseUsize shown = some entry.rowCount ∧ entry.partitionValues = values

theorem parseLineV1_of_parts {value path shown : Text} (parts : splitn 3 '\t' line = [value, path, shown]) :
    parseLineV1 lineIdx line = .ok entry ↔
      parseUsize shown = some entry.rowCount ∧ entry = ⟨[value], path, entry.rowCount⟩ := by
  unfold parseLineV1
  rw [parts]
  show (match parseUsize shown with
    | none => Except.error _
    | some rowCount => Except.ok (mk [value] path rowCount)) = _ ↔ _
  cases parseUsize shown with
  | none => simp
  | some rowCount =>
    constructor
    · rintro ⟨⟩
      exact ⟨rfl, rfl⟩
    · rintro ⟨counted, same⟩
      rw [same, Option.some.inj counted]

theorem parseLineV1_eq_ok : parseLineV1 lineIdx line = .ok entry ↔ ReadsV1 line entry := by
  have length := length_splitn '\t' line 2
  unfold ReadsV1
  rcases pieces : line.splitOn '\t' with _ | ⟨value, _ | ⟨path, _ | ⟨shown, _ | ⟨further, more⟩⟩⟩⟩
  case cons.cons.cons.nil =>
    have parts : splitn 3 '\t' line = [value, path, shown] := by simp [splitn, pieces]
    rw [parseLineV1_of_parts parts]
    constructor
    · rintro ⟨counted, same⟩
      rw [same]
      exact ⟨value, shown, rfl, counted, rfl⟩
    · rintro ⟨value', shown', same, counted, values⟩
      simp only [cons.injEq, and_true] at same
      obtain ⟨rfl, rfl, rfl⟩ := same
      exact ⟨counted, by rw [← values]⟩
  case cons.cons.cons.cons =>
    -- the third part is the rest of the line with its tabs, which is no count
    have parts : splitn 3 '\t' line = [value, path, join '\t' (shown :: further :: more)] := by
      simp [splitn, pieces, join]
    have tab : '\t' ∈ join '\t' (shown :: further :: more) := by
      rw [join, intercalate_cons_cons]
      simp
    rw [parseLineV1_of_parts parts, parseUsize_eq_none rfl (by decide) tab]
    simp
  all_goals
    rw [pieces] at length
    unfold parseLineV1
    rw [if_pos (by rw [length]; simp)]
    simp

theorem parseLineV2_eq_ok : parseLineV2 nCols lineIdx line = .ok entry ↔ ReadsV2 nCols line entry := by
  have length := length_splitn '\t' line (nCols + 2)
  have front : (splitn (nCols + 3) '\t' line).take nCols = (line.splitOn '\t').take nCols :=
    take_splitn (by omega)
  have path : (splitn (nCols + 3) '\t' line)[nCols]? = (line.splitOn '\t')[nCols]? :=
    getElem?_splitn (by omega)
  have count : (splitn (nCols + 3) '\t' line)[nCols + 1]? = (line.splitOn '\t')[nCols + 1]? :=
    getElem?_splitn (by omega)
  unfold parseLineV2 ReadsV2
  simp only [getD_eq_getElem?_getD, front, path, count, length]
  generalize line.splitOn '\t' = pieces
  constructor
  · intro parsed
    split_ifs at parsed with few
    have long : nCols + 1 < pieces.length := by omega
    have split : pieces = pieces.take nCols ++ pieces[nCols] :: pieces[nCols + 1] :: pieces.drop (nCols + 2) := by
      rw [← drop_eq_getElem_cons, ← drop_eq_getElem_cons, take_append_drop]
    rw [getElem?_eq_getElem long, getElem?_eq_getElem (by omega : nCols < pieces.length)] at parsed
    simp only [Option.getD_some] at parsed
    split at parsed
    · cases parsed
    · next rowCount counted =>
        cases parsed
        exact ⟨_, _, _, split, length_take_of_le (by omega), counted, rfl⟩
  · rintro ⟨values, shown, more, rfl, rfl, counted, same⟩
    rw [if_neg (by simp), getElem?_append_right (by omega), getElem?_append_right (by omega)]
    simp [counted, ← same]

variable {rest : List Text} {entries : List ManifestEntry}

theorem parseLines_eq_ok {parseLine : ℕ → Text → Except ColumnarError ManifestEntry}
    {Reads : Text → ManifestEntry → Prop}
    (reads : ∀ lineIdx line entry, parseLine lineIdx line = .ok entry ↔ Reads line entry) :
    parseLines parseLine lineIdx rest = .ok entries ↔ List.Forall₂ Reads rest entries := by
  induction rest generalizing lineIdx entries with
  | nil =>
    rw [forall₂_nil_left_iff]
    exact ⟨fun ok => (Except.ok.inj ok).symm, fun empty => congrArg Except.ok empty.symm⟩
  | cons line rest ih =>
    unfold parseLines
    rw [bind_eq_ok, forall₂_cons_left_iff]
    constructor
    · rintro ⟨entry, here, later⟩
      obtain ⟨more, later, same⟩ := bind_eq_ok.mp later
      exact ⟨entry, more, (reads ..).mp here, ih.mp later, (Except.ok.inj same).symm⟩
    · rintro ⟨entry, more, here, later, rfl⟩
      refine ⟨entry, (reads ..).mpr here, ?_⟩
      rw [ih.mpr later]
      rfl

theorem parseLines_v1 :
    parseLines parseLineV1 lineIdx rest = .ok entries ↔ List.Forall₂ ReadsV1 rest entries := by
  apply parseLines_eq_ok
  intro _ _ _
  exact parseLineV1_eq_ok

theorem parseLines_v2 :
    parseLines (parseLineV2 nCols) lineIdx rest = .ok entries ↔ List.Forall₂ (ReadsV2 nCols) rest entries := by
  apply parseLines_eq_ok
  intro _ _ _
  exact parseLineV2_eq_ok

end

/-! ### The round trip -/

def Plain (text : Text) : Prop := '\t' ∉ text ∧ '\n' ∉ text

instance (text : Text) : Decidable (Plain text) := inferInstanceAs (Decidable (_ ∧ _))

def ManifestEntry.NoTab (entry : ManifestEntry) : Prop :=
  '\t' ∉ entry.relPath ∧ ∀ value ∈ entry.partitionValues, '\t' ∉ value

/-- **A manifest without tabs and line feeds in its texts.** The name of a single column is not
written. -/
def PlainManifest (columns : List Text) (entries : List ManifestEntry) : Prop :=
  (columns.length ≠ 1 → ∀ column ∈ columns, Plain column) ∧
    ∀ entry ∈ entries, Plain entry.relPath ∧ ∀ value ∈ entry.partitionValues, Plain value

instance (columns : List Text) (entries : List ManifestEntry) : Decidable (PlainManifest columns entries) :=
  inferInstanceAs (Decidable (_ ∧ _))

def MatchingArity (columns : List Text) (entries : List ManifestEntry) : Prop :=
  ∀ entry ∈ entries, entry.partitionValues.length = columns.length

instance (columns : List Text) (entries : List ManifestEntry) : Decidable (MatchingArity columns entries) :=
  inferInstanceAs (Decidable (∀ _ ∈ _, _))

section

variable {entry : ManifestEntry}

theorem ManifestEntry.lineV2_eq_join (some' : entry.partitionValues ≠ []) :
    entry.lineV2 = join '\t' (entry.partitionValues ++ [entry.relPath, showUsize entry.rowCount]) := by
  rw [join_append some' (by simp)]
  simp [lineV2, line, join, intercalate_cons_cons]

theorem ManifestEntry.lineV1_eq (single : entry.partitionValues.length = 1) :
    entry.lineV1 = entry.lineV2 := by
  obtain ⟨value, only⟩ := length_eq_one_iff.mp single
  simp [lineV1, lineV2, only, join]

theorem ManifestEntry.splitOn_lineV2 (some' : entry.partitionValues ≠ []) (noTab : entry.NoTab) :
    entry.lineV2.splitOn '\t' = entry.partitionValues ++ [entry.relPath, showUsize entry.rowCount] := by
  rw [lineV2_eq_join some']
  refine splitOn_intercalate '\t' (fun field member => ?_) (by simp)
  rcases mem_append.mp member with value | rest
  · exact noTab.2 field value
  · rcases mem_cons.mp rest with rfl | rest
    · exact noTab.1
    · obtain rfl := mem_singleton.mp rest
      exact not_mem_showUsize rfl

theorem readsV2_lineV2 (some' : entry.partitionValues ≠ []) (noTab : entry.NoTab) :
    ReadsV2 entry.partitionValues.length entry.lineV2 entry :=
  ⟨_, _, [], splitOn_lineV2 some' noTab, rfl, parseUsize_showUsize _, rfl⟩

theorem readsV1_lineV1 (single : entry.partitionValues.length = 1) (noTab : entry.NoTab) :
    ReadsV1 entry.lineV1 entry := by
  have some' : entry.partitionValues ≠ [] := fun empty => by simp [empty] at single
  have pieces := splitOn_lineV2 some' noTab
  rw [lineV1_eq single]
  obtain ⟨value, only⟩ := length_eq_one_iff.mp single
  rw [only] at pieces
  exact ⟨value, _, pieces, parseUsize_showUsize _, only⟩

theorem noTab_of_readsV2 {nCols : ℕ} {line : Text} (reads : ReadsV2 nCols line entry) : entry.NoTab := by
  obtain ⟨values, shown, more, pieces, _, _, same⟩ := reads
  have piece : ∀ field ∈ entry.relPath :: values, '\t' ∉ field := by
    intro field member
    have listed : field ∈ line.splitOn '\t' := by
      rw [pieces]
      rcases mem_cons.mp member with rfl | member
      · simp
      · exact mem_append_left _ member
    exact not_mem_of_mem_splitOn listed
  rw [ManifestEntry.NoTab, same]
  exact forall_mem_cons.mp piece

theorem readsV2_of_readsV1 {line : Text} (reads : ReadsV1 line entry) : ReadsV2 1 line entry := by
  obtain ⟨value, shown, pieces, counted, same⟩ := reads
  exact ⟨[value], shown, [], pieces, rfl, counted, same⟩

theorem noTab_of_readsV1 {line : Text} (reads : ReadsV1 line entry) : entry.NoTab :=
  noTab_of_readsV2 (readsV2_of_readsV1 reads)

theorem ManifestEntry.newline_not_mem_lineV2 (entry : ManifestEntry) : '\n' ∉ entry.lineV2 ↔
    '\n' ∉ entry.relPath ∧ ∀ value ∈ entry.partitionValues, '\n' ∉ value := by
  have values : '\n' ∈ join '\t' entry.partitionValues ↔ ∃ value ∈ entry.partitionValues, '\n' ∈ value :=
    mem_join (by decide)
  have digits : '\n' ∉ showUsize entry.rowCount := not_mem_showUsize rfl
  simp only [lineV2, line, mem_append, mem_cons, values]
  simp [digits]
  tauto

theorem ManifestEntry.ending_lineV2 (entry : ManifestEntry) : entry.lineV2.getLast? ≠ some '\r' := by
  have some' : showUsize entry.rowCount ≠ [] := Nat.toDigits_ne_nil
  intro ending
  have last : (showUsize entry.rowCount).getLast? = some '\r' := by
    have split : entry.lineV2 = (join '\t' entry.partitionValues ++ '\t' :: (entry.relPath ++ ['\t'])) ++
        showUsize entry.rowCount := by simp [lineV2, line]
    rw [← ending, split, getLast?_append_of_ne_nil _ some']
  exact not_mem_showUsize (by decide) (mem_of_getLast? last)

theorem lines_read {Reads : Text → ManifestEntry → Prop} {entries read : List ManifestEntry}
    (length : read.length = entries.length) :
    List.Forall₂ Reads (((entries.map lineV2).flatMap fun line => line.splitOn '\n').map stripCr) read ↔
      (∀ entry ∈ entries, '\n' ∉ entry.lineV2) ∧
        List.Forall₂ (fun entry => Reads entry.lineV2) entries read := by
  have ending : ∀ line ∈ entries.map lineV2, line.getLast? ≠ some '\r' := by
    simpa using fun entry _ => entry.ending_lineV2
  constructor
  · intro reads
    -- as many entries as lines were written: no line was cut
    have oneLine : ∀ line ∈ entries.map lineV2, '\n' ∉ line := by
      refine uncut_of_length ?_
      rw [length_map, ← length, ← reads.length_eq, length_map]
    rw [map_stripCr_flatMap_splitOn oneLine ending, forall₂_map_left_iff] at reads
    exact ⟨fun entry member => oneLine _ (mem_map_of_mem member), reads⟩
  · rintro ⟨oneLine, reads⟩
    rw [map_stripCr_flatMap_splitOn (by simpa using oneLine) ending, forall₂_map_left_iff]
    exact reads

end

section

variable {columns names : List Text} {entries read : List ManifestEntry}

theorem splitOn_headerV2 (columns : List Text) : (headerV2 columns).splitOn '\t' =
    (columns.flatMap fun column => column.splitOn '\t') ++ ["rel_path".toList, "row_count".toList] := by
  have fixed : (["rel_path".toList, "row_count".toList].flatMap fun name => name.splitOn '\t') =
      ["rel_path".toList, "row_count".toList] := by decide +kernel
  rw [headerV2, splitOn_join (by simp), flatMap_append, fixed]

theorem newline_not_mem_headerV2 : '\n' ∉ headerV2 columns ↔ ∀ column ∈ columns, '\n' ∉ column := by
  have fields : '\n' ∈ headerV2 columns ↔
      ∃ field ∈ columns ++ ["rel_path".toList, "row_count".toList], '\n' ∈ field := mem_join (by decide)
  have fixed : ∀ name ∈ ["rel_path".toList, "row_count".toList], '\n' ∉ name := by decide +kernel
  rw [fields]
  push Not
  rw [forall_mem_append]
  exact and_iff_left fixed

theorem ending_headerV2 (columns : List Text) : (headerV2 columns).getLast? ≠ some '\r' := by
  have ends : ∃ front, headerV2 columns = front ++ "row_count".toList := by
    by_cases none' : columns = []
    · exact ⟨"rel_path\t".toList, by rw [none']; decide +kernel⟩
    · refine ⟨join '\t' columns ++ "\trel_path\t".toList, ?_⟩
      rw [headerV2, join_append none' (by simp), append_assoc]
      refine congrArg _ ?_
      decide +kernel
  obtain ⟨front, split⟩ := ends
  rw [split, getLast?_append_of_ne_nil _ (by decide +kernel)]
  decide +kernel

theorem parseManifest_v1 {column : Text} (arity : MatchingArity [column] entries)
    (length : read.length = entries.length) :
    parseManifest [column] (manifestText [column] entries) = .ok (names, read) ↔ names = [column] ∧
      (∀ entry ∈ entries, '\n' ∉ entry.lineV2) ∧
        List.Forall₂ (fun entry => ReadsV1 entry.lineV2) entries read := by
  have lines : entries.map lineV1 = entries.map lineV2 :=
    map_congr_left fun entry member => lineV1_eq (arity entry member)
  have header : (headerV1.splitOn '\n').map stripCr = [headerV1] := by decide +kernel
  have version : "manifest_version=".toList.isPrefixOf headerV1 = false := by decide +kernel
  unfold manifestText parseManifest
  rw [if_neg (by simp), lines, lines_unlines, flatMap_cons, map_append, header, ← lines_read length]
  simp only [singleton_append, version]
  rw [if_neg Bool.false_ne_true, bind_eq_ok]
  constructor
  · rintro ⟨read, parsed, same⟩
    cases same
    exact ⟨rfl, parseLines_v1.mp parsed⟩
  · rintro ⟨rfl, reads⟩
    exact ⟨read, parseLines_v1.mpr reads, rfl⟩

theorem parseManifest_v2 (several : columns.length ≠ 1) :
    parseManifest columns (manifestText columns entries) = .ok (names, read) ↔
      ∃ headerLine rest,
        ((headerV2 columns :: entries.map lineV2).flatMap fun line => line.splitOn '\n').map
          stripCr = headerLine :: rest ∧
        3 ≤ (headerLine.splitOn '\t').length ∧
        names = (headerLine.splitOn '\t').take ((headerLine.splitOn '\t').length - 2) ∧
        List.Forall₂ (ReadsV2 ((headerLine.splitOn '\t').length - 2)) rest read := by
  have first : ("manifest_version=2".toList.splitOn '\n').map stripCr = ["manifest_version=2".toList] := by
    decide +kernel
  have version : "manifest_version=".toList.isPrefixOf "manifest_version=2".toList = true := by
    decide +kernel
  unfold manifestText parseManifest
  rw [if_pos several, lines_unlines, flatMap_cons, map_append, first]
  simp only [singleton_append, version, if_true]
  generalize ((headerV2 columns :: entries.map lineV2).flatMap fun line =>
    line.splitOn '\n').map stripCr = written
  cases written with
  | nil => simp
  | cons headerLine rest =>
    constructor
    · intro parsed
      dsimp only at parsed
      split_ifs at parsed with few
      obtain ⟨read, parsed, same⟩ := bind_eq_ok.mp parsed
      cases same
      exact ⟨_, _, rfl, not_lt.mp few, rfl, parseLines_v2.mp parsed⟩
    · rintro ⟨headerLine', rest', same, enough, rfl, reads⟩
      obtain ⟨rfl, rfl⟩ := cons.inj same
      dsimp only
      rw [if_neg (not_lt.mpr enough), parseLines_v2.mpr reads]
      rfl

theorem plain_iff (entry : ManifestEntry) : '\n' ∉ entry.lineV2 ∧ entry.NoTab ↔
    Plain entry.relPath ∧ ∀ value ∈ entry.partitionValues, Plain value := by
  rw [newline_not_mem_lineV2]
  unfold ManifestEntry.NoTab Plain
  constructor
  · rintro ⟨⟨pathLine, valueLine⟩, pathTab, valueTab⟩
    exact ⟨⟨pathTab, pathLine⟩, fun value member => ⟨valueTab value member, valueLine value member⟩⟩
  · rintro ⟨⟨pathTab, pathLine⟩, values⟩
    exact ⟨⟨pathLine, fun value member => (values value member).2⟩, pathTab,
      fun value member => (values value member).1⟩

theorem round_trip_v1 {column : Text} (arity : MatchingArity [column] entries) :
    parseManifest [column] (manifestText [column] entries) = .ok ([column], entries) ↔
      PlainManifest [column] entries := by
  rw [parseManifest_v1 arity rfl, and_iff_right rfl, forall₂_same, ← forall₂_and, PlainManifest,
    and_iff_right (by simp)]
  refine forall₂_congr fun entry member => ?_
  rw [← plain_iff]
  refine and_congr_right fun _ => ⟨noTab_of_readsV1, fun noTab => ?_⟩
  rw [← lineV1_eq (arity entry member)]
  exact readsV1_lineV1 (arity entry member) noTab

theorem ending_lines (columns : List Text) (entries : List ManifestEntry) :
    ∀ line ∈ headerV2 columns :: entries.map lineV2, line.getLast? ≠ some '\r' := by
  refine forall_mem_cons.mpr ⟨ending_headerV2 columns, ?_⟩
  simpa using fun entry _ => ending_lineV2 entry

theorem lines_of_parse (several : columns.length ≠ 1)
    (parsed : parseManifest columns (manifestText columns entries) = .ok (names, read))
    (length : read.length = entries.length) :
    (∀ line ∈ headerV2 columns :: entries.map lineV2, '\n' ∉ line) ∧
      names = ((headerV2 columns).splitOn '\t').take (((headerV2 columns).splitOn '\t').length - 2) ∧
      List.Forall₂ (fun entry => ReadsV2 (((headerV2 columns).splitOn '\t').length - 2) entry.lineV2)
        entries read := by
  obtain ⟨headerLine, rest, written, _, named, reads⟩ := (parseManifest_v2 several).mp parsed
  -- as many lines as entries: neither the header nor a line was cut
  have oneLine : ∀ line ∈ headerV2 columns :: entries.map lineV2, '\n' ∉ line := by
    refine uncut_of_length ?_
    have count := congrArg List.length written
    rw [length_map, length_cons, reads.length_eq, length] at count
    rw [count]
    simp
  rw [map_stripCr_flatMap_splitOn oneLine (ending_lines columns entries)] at written
  obtain ⟨rfl, rfl⟩ := cons.inj written
  exact ⟨oneLine, named, forall₂_map_left_iff.mp reads⟩

theorem round_trip_v2 (several : columns.length ≠ 1) (some' : columns ≠ [])
    (arity : MatchingArity columns entries) :
    parseManifest columns (manifestText columns entries) = .ok (columns, entries) ↔
      PlainManifest columns entries := by
  have valued : ∀ entry ∈ entries, entry.partitionValues ≠ [] := by
    intro entry member empty
    have length := arity entry member
    rw [empty] at length
    exact some' (length_eq_zero_iff.mp length.symm)
  constructor
  · intro parsed
    obtain ⟨oneLine, names, reads⟩ := lines_of_parse several parsed rfl
    rw [forall₂_same] at reads
    rw [forall_mem_cons, newline_not_mem_headerV2] at oneLine
    rw [splitOn_headerV2] at names
    have noTab := flatMap_splitOn_eq_iff.mp (by simpa using names.symm)
    refine ⟨fun _ column member => ⟨noTab column member, oneLine.1 column member⟩, fun entry member => ?_⟩
    exact (plain_iff entry).mp
      ⟨oneLine.2 _ (mem_map_of_mem member), noTab_of_readsV2 (reads entry member)⟩
  · rintro ⟨names, plain⟩
    have plainLine := fun entry member => (plain_iff entry).mpr (plain entry member)
    have oneLine : ∀ line ∈ headerV2 columns :: entries.map lineV2, '\n' ∉ line := by
      refine forall_mem_cons.mpr ⟨newline_not_mem_headerV2.mpr fun column member =>
        (names several column member).2, ?_⟩
      simpa using fun entry member => (plainLine entry member).1
    have headers : (headerV2 columns).splitOn '\t' = columns ++ ["rel_path".toList, "row_count".toList] := by
      rw [splitOn_headerV2, flatMap_splitOn_eq_iff.mpr fun column member => (names several column member).1]
    have count : ((headerV2 columns).splitOn '\t').length = columns.length + 2 := by simp [headers]
    refine (parseManifest_v2 several).mpr
      ⟨_, _, map_stripCr_flatMap_splitOn oneLine (ending_lines columns entries), ?_, ?_, ?_⟩
    · have := length_pos_iff.mpr some'
      omega
    · rw [count, headers, Nat.add_sub_cancel, take_left']
      rfl
    · rw [count, Nat.add_sub_cancel, forall₂_map_left_iff, forall₂_same]
      intro entry member
      rw [← arity entry member]
      exact readsV2_lineV2 (valued entry member) (plainLine entry member).2

theorem parseManifest_iff (some' : columns ≠ []) (arity : MatchingArity columns entries) :
    parseManifest columns (manifestText columns entries) = .ok (columns, entries) ↔
      PlainManifest columns entries := by
  by_cases single : columns.length = 1
  · obtain ⟨column, rfl⟩ := length_eq_one_iff.mp single
    exact round_trip_v1 arity
  · exact round_trip_v2 single some' arity

end

/-! ### On the files -/

section

variable {cwd : UnixPath.Location} {files files' : Files Bytes}

theorem readFile_of_writeFile {path : Text} {bytes : Bytes}
    (written : (writeFile cwd path bytes).exec files = (.ok (), files')) :
    (readFile cwd path).exec files' = (.ok bytes, files') := by
  obtain ⟨place, found, done⟩ := exec_ioCall_eq_ok.mp written
  exact exec_ioCall_eq_ok.mpr ⟨place, found, congrArg (·, files') (Files.read_write done)⟩

theorem readManifest_of_writeManifest {dataset : PartitionedDataset} {entries : List ManifestEntry}
    (written : (dataset.writeManifest cwd entries).exec files = (.ok (), files')) :
    (dataset.readManifest cwd).exec files' =
      (parseManifest dataset.partitionColumns (manifestText dataset.partitionColumns entries), files') := by
  unfold PartitionedDataset.readManifest
  rw [Fallible.exec_bind_ok (readFile_of_writeFile written), fromUtf8_utf8]
  rfl

/-- **A manifest is read back as it was written, exactly if no text in it holds a tab or a line feed.** -/
theorem manifest_round_trip_iff {dataset : PartitionedDataset} {entries : List ManifestEntry}
    (some' : dataset.partitionColumns ≠ []) (arity : MatchingArity dataset.partitionColumns entries)
    (written : (dataset.writeManifest cwd entries).exec files = (.ok (), files')) :
    (dataset.readManifest cwd).exec files' = (.ok (dataset.partitionColumns, entries), files') ↔
      PlainManifest dataset.partitionColumns entries := by
  rw [readManifest_of_writeManifest written, ← parseManifest_iff some' arity]
  exact ⟨fun same => (Prod.mk.inj same).1, fun same => congrArg (·, files') same⟩

end

def rootDataset (columns : List Text) : PartitionedDataset := ⟨['/'], columns, .none⟩

theorem writeManifest_rootDataset (columns : List Text) (entries : List ManifestEntry) :
    ∃ files', ((rootDataset columns).writeManifest [] entries).exec Files.empty = (.ok (), files') := by
  have place : target [] (UnixPath.Path.parse (rootDataset columns).manifestPath) =
      .ok ⟨["manifest.tsv".toList], false⟩ := by
    show target [] (UnixPath.Path.parse (UnixPath.join ['/'] "manifest.tsv".toList)) = _
    rfl
  have free : (Files.empty : Files Bytes).node ["manifest.tsv".toList] ≠ some .dir := by
    simp [Files.node_empty]
  have possible : ∃ files', Files.empty.write ⟨["manifest.tsv".toList], false⟩
      (utf8 (manifestText columns entries)) = (.ok (), files') ∧ _ :=
    Files.write_ok (Files.node_nil Files.empty) free
  obtain ⟨files', done, _⟩ := possible
  refine ⟨files', ?_⟩
  unfold PartitionedDataset.writeManifest writeFile
  exact exec_ioCall_eq_ok.mpr ⟨_, place, done⟩

def oneEntry : List ManifestEntry := [⟨[['a']], "c=a/part-0000.parquet".toList, 1⟩]

def twoEntries : List ManifestEntry :=
  [⟨["2024 §".toList], "c=2024_§/part-0000.parquet".toList, 12⟩, ⟨[[]], "c=/part-0000.parquet".toList, 0⟩]

def threeEntries : List ManifestEntry :=
  [⟨[['a'], "x=1/2".toList], "c=a/d=x_1_2/part-0000.parquet".toList, 1⟩,
    ⟨[['a'], []], "c=a/d=/part-0000.parquet".toList, 20⟩,
    ⟨["manifest_version=2".toList, "a\rb".toList], "c=m/d=a/part-0000.parquet".toList, 300⟩]

theorem entries_round_trip :
    (∃ files', ((rootDataset [['c']]).writeManifest [] twoEntries).exec Files.empty = (.ok (), files') ∧
      ((rootDataset [['c']]).readManifest []).exec files' = (.ok ([['c']], twoEntries), files')) ∧
    ∃ files', ((rootDataset [['c'], ['d']]).writeManifest [] threeEntries).exec Files.empty =
        (.ok (), files') ∧
      ((rootDataset [['c'], ['d']]).readManifest []).exec files' =
        (.ok ([['c'], ['d']], threeEntries), files') := by
  obtain ⟨single, writtenV1⟩ := writeManifest_rootDataset [['c']] twoEntries
  obtain ⟨several, writtenV2⟩ := writeManifest_rootDataset [['c'], ['d']] threeEntries
  refine ⟨⟨single, writtenV1, (manifest_round_trip_iff (List.cons_ne_nil _ _) ?_ writtenV1).mpr ?_⟩, several, writtenV2,
    (manifest_round_trip_iff (List.cons_ne_nil _ _) ?_ writtenV2).mpr ?_⟩
  all_goals decide +kernel

theorem tab_in_value_misread :
    (∃ files', ((rootDataset [['c']]).writeManifest [] [⟨["a\tb".toList], ['p'], 1⟩]).exec Files.empty =
        (.ok (), files') ∧
      ((rootDataset [['c']]).readManifest []).exec files' =
        (.error (.manifest "manifest line 2: invalid row_count 'p\t1'"), files')) ∧
    ∃ files', ((rootDataset [['c'], ['d']]).writeManifest []
        [⟨[['a'], "x\tq\t7".toList], ['p'], 1⟩]).exec Files.empty = (.ok (), files') ∧
      ((rootDataset [['c'], ['d']]).readManifest []).exec files' =
        (.ok ([['c'], ['d']], [⟨[['a'], ['x']], ['q'], 7⟩]), files') := by
  constructor
  · obtain ⟨files', written⟩ := writeManifest_rootDataset [['c']] [⟨["a\tb".toList], ['p'], 1⟩]
    refine ⟨files', written, ?_⟩
    rw [readManifest_of_writeManifest written]
    refine congrArg (·, files') ?_
    decide +kernel
  · obtain ⟨files', written⟩ := writeManifest_rootDataset [['c'], ['d']]
      [⟨[['a'], "x\tq\t7".toList], ['p'], 1⟩]
    refine ⟨files', written, ?_⟩
    rw [readManifest_of_writeManifest written]
    refine congrArg (·, files') ?_
    decide +kernel

end OxiStore.Columnar
