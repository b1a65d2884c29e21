/-
**Multipart uploads of the S3 store.**
-/

import Mathlib.Data.List.Sort
import OxiStore.Lib.Results
import OxiStore.Cloud.S3

namespace OxiStore

open ByteString StepProg Xml Cloud Fallible

namespace S3

/-! ### Handles -/

structure S3MultipartUpload where
  key : String
  uploadId : String
  parts : List (UInt32 × String)

abbrev XmlWriter := Forest → Except String Bytes

def describeMultipart {α : Type} (text : String) (result : Except String α) : Except BlobError α :=
  result.mapError fun error => .multipartError (text ++ error)

def parseUploadIdLoop : Bool → List (Except String Event) → Except BlobError String
  | _, [] => .error (.multipartError "CreateMultipartUpload response missing <UploadId>")
  | _, .error error :: _ =>
      .error (.multipartError ("XML parse error in CreateMultipartUpload response: " ++ error))
  | inUploadId, .ok (.start name) :: events => parseUploadIdLoop (inUploadId || name = "UploadId") events
  | true, .ok (.text decoded) :: _ => describeMultipart "XML decode UploadId: " decoded
  | false, .ok (.text _) :: events => parseUploadIdLoop false events
  | _, .ok (.finish _) :: events => parseUploadIdLoop false events
  | inUploadId, .ok .other :: events => parseUploadIdLoop inUploadId events

def parseUploadId (reader : XmlReader) (xml : Bytes) : Except BlobError String :=
  parseUploadIdLoop false (reader xml)

def partElements : List (UInt32 × String) → Forest
  | [] => .nil
  | (num, etag) :: parts =>
      .node "Part" (.text "PartNumber" (toString num.toNat) (.text "ETag" etag .nil)) (partElements parts)

def completeXml (parts : List (UInt32 × String)) : Forest :=
  .node "CompleteMultipartUpload" (partElements parts) .nil

def buildCompleteXml (writer : XmlWriter) (parts : List (UInt32 × String)) : Except BlobError String := do
  let bytes ← describeMultipart "build CompleteMultipartUpload XML: " (writer (completeXml parts))
  describeMultipart "CompleteMultipartUpload XML not UTF-8: " (fromUtf8 bytes)

def S3MultipartUpload.sortedParts (up : S3MultipartUpload) : List (UInt32 × String) :=
  up.parts.insertionSort fun earlier later => earlier.1 ≤ later.1

namespace S3BlobStore

variable {S : Type} (store : S3BlobStore S)

def createMultipartUpload (key : String) : BlobCall S S3MultipartUpload := do
  let url ← Fallible.ofExcept (store.objectUrl key)
  let resp ← store.send .post (url ++ "?uploads") [] []
  if resp.status ≠ 200 then
    throw (.multipartError ("CreateMultipartUpload failed with status " ++ toString resp.status.toNat))
  else do
    let uploadId ← Fallible.ofExcept (parseUploadId store.reader resp.body)
    pure ⟨key, uploadId, []⟩

def sendPart (up : S3MultipartUpload) (partNumber : UInt32) (body : Bytes) :
    BlobCall S InternalResponse := do
  let url ← Fallible.ofExcept (store.objectUrl up.key)
  store.send .put (url ++ "?partNumber=" ++ toString partNumber.toNat ++ "&uploadId=" ++
    percentEncode up.uploadId) body []

def uploadPart (up : S3MultipartUpload) (partNumber : UInt32) (body : Bytes) :
    BlobCall S S3MultipartUpload := do
  let resp ← store.sendPart up partNumber body
  if resp.status ≠ 200 ∧ resp.status ≠ 206 then
    throw (.multipartError ("UploadPart(" ++ toString partNumber.toNat ++ ") failed with status " ++
      toString resp.status.toNat))
  else
    match resp.header "etag" with
    | none => throw (.multipartError ("UploadPart(" ++ toString partNumber.toNat ++ "): missing ETag header"))
    | some etag => pure { up with parts := up.parts ++ [(partNumber, etag)] }

def sendCompletion (url : String) (body : Bytes) : BlobCall S Unit := do
  let resp ← store.send .post url body [("content-type", "application/xml")]
  if resp.status ≠ 200 then
    throw (.multipartError ("CompleteMultipartUpload failed with status " ++ toString resp.status.toNat ++
      ": " ++ fromUtf8Lossy resp.body))
  else pure ()

def complete (writer : XmlWriter) (up : S3MultipartUpload) : BlobCall S Unit := do
  let xml ← Fallible.ofExcept (buildCompleteXml writer up.sortedParts)
  let url ← Fallible.ofExcept (store.objectUrl up.key)
  store.sendCompletion (url ++ "?uploadId=" ++ percentEncode up.uploadId) (asBytes xml)

def abort (up : S3MultipartUpload) : BlobCall S Unit := do
  let url ← Fallible.ofExcept (store.objectUrl up.key)
  let resp ← store.send .delete (url ++ "?uploadId=" ++ percentEncode up.uploadId) [] []
  if resp.status = 200 ∨ resp.status = 204 then pure ()
  else throw (.multipartError ("AbortMultipartUpload failed with status " ++ toString resp.status.toNat))

/-- **The calls of `upload_part` on a handle that succeeded**, in order: each with the part number it was
given and the ETag that the endpoint answered. Anything may happen between two calls; one that fails leaves
the handle as it was. -/
inductive Uploads (up : S3MultipartUpload) : List (UInt32 × String) → S3MultipartUpload → Prop where
  | nothing : Uploads up [] up
  | part {history : List (UInt32 × String)} {before after : S3MultipartUpload} {partNumber : UInt32}
      {body : Bytes} {s s₁ s₂ : S} {resp : InternalResponse} {etag : String}
      (earlier : Uploads up history before)
      (answered : (store.sendPart before partNumber body).exec s = (.ok resp, s₁))
      (returned : resp.header "etag" = some etag)
      (uploaded : (store.uploadPart before partNumber body).exec s = (.ok after, s₂)) :
      Uploads up (history ++ [(partNumber, etag)]) after

end S3BlobStore

/-! ### What the document says -/

def listedParts : Forest → List (List String × List String)
  | .nil => []
  | .text _ _ rest => listedParts rest
  | .empty _ rest => listedParts rest
  | .node name children rest =>
      (if name = "Part" then [(children.contents "PartNumber", children.contents "ETag")]
        else listedParts children) ++ listedParts rest

/-- **A reader that understands the writer**: it finds the document in what was written of it. -/
def XmlWriter.ReadBy (writer : XmlWriter) (read : Bytes → Option Forest) : Prop :=
  ∀ document bytes xml, writer document = .ok bytes → fromUtf8 bytes = .ok xml → read (asBytes xml) = some document

def ListsLast (history : List (UInt32 × String)) (document : Forest) : Prop :=
  ∃ listed : List (UInt32 × String),
    listedParts document = listed.map (fun part => ([toString part.1.toNat], [part.2])) ∧
      listed.Pairwise (fun earlier later => earlier.1 < later.1) ∧
      ∀ partNumber etag, (partNumber, etag) ∈ listed ↔ history.reverse.lookup partNumber = some etag

theorem listedParts_completeXml (parts : List (UInt32 × String)) :
    listedParts (completeXml parts) = parts.map fun part => ([toString part.1.toNat], [part.2]) := by
  show listedParts (partElements parts) ++ [] = _
  rw [List.append_nil]
  induction parts with
  | nil => rfl
  | cons part parts ih =>
    rw [List.map_cons, ← ih]
    rfl

theorem listsLast_completeXml_iff (history parts : List (UInt32 × String)) :
    ListsLast history (completeXml parts) ↔ parts.Pairwise (fun earlier later => earlier.1 < later.1) ∧
      ∀ partNumber etag, (partNumber, etag) ∈ parts ↔ history.reverse.lookup partNumber = some etag := by
  unfold ListsLast
  rw [listedParts_completeXml]
  constructor
  · rintro ⟨listed, same, ascending, last⟩
    have injective : Function.Injective
        fun part : UInt32 × String => ([toString part.1.toNat], [part.2]) := by
      intro part part' equal
      obtain ⟨numbers, etags⟩ := Prod.mk.inj equal
      exact Prod.ext (UInt32.toNat_inj.mp (Nat.repr_inj.mp (List.singleton_inj.mp numbers)))
        (List.singleton_inj.mp etags)
    rw [injective.list_map same]
    exact ⟨ascending, last⟩
  · rintro ⟨ascending, last⟩
    exact ⟨parts, rfl, ascending, last⟩

/-! ### What the handle records -/

section

variable {S : Type} {store : S3BlobStore S}

theorem uploadPart_eq_ok_iff {up after : S3MultipartUpload} {partNumber : UInt32} {body : Bytes} {s s' : S} :
    (store.uploadPart up partNumber body).exec s = (.ok after, s') ↔
      ∃ resp etag, (store.sendPart up partNumber body).exec s = (.ok resp, s') ∧
        (resp.status = 200 ∨ resp.status = 206) ∧ resp.header "etag" = some etag ∧
        after = { up with parts := up.parts ++ [(partNumber, etag)] } := by
  unfold S3BlobStore.uploadPart
  rw [exec_bind_eq_ok]
  constructor
  · rintro ⟨resp, s₁, answered, rest⟩
    by_cases refused : resp.status ≠ 200 ∧ resp.status ≠ 206
    · simp [if_pos refused] at rest
    rw [if_neg refused] at rest
    cases found : resp.header "etag" with
    | none => simp [found] at rest
    | some etag =>
      rw [found] at rest
      cases rest
      exact ⟨resp, etag, answered, by tauto, found, rfl⟩
  · rintro ⟨resp, etag, answered, accepted, found, rfl⟩
    refine ⟨resp, s', answered, ?_⟩
    rw [if_neg (by tauto), found]
    rfl

theorem parts_of_created {key : String} {up : S3MultipartUpload} {s s' : S}
    (created : (store.createMultipartUpload key).exec s = (.ok up, s')) : up.parts = [] := by
  obtain ⟨url, s₁, _, rest⟩ := exec_bind_eq_ok.mp created
  obtain ⟨resp, s₂, _, rest⟩ := exec_bind_eq_ok.mp rest
  by_cases refused : resp.status ≠ 200
  · simp [if_pos refused] at rest
  · rw [if_neg refused] at rest
    obtain ⟨uploadId, s₃, _, rest⟩ := exec_bind_eq_ok.mp rest
    cases rest
    rfl

theorem S3BlobStore.Uploads.parts {up after : S3MultipartUpload} {history : List (UInt32 × String)}
    (uploads : store.Uploads up history after) : after.parts = up.parts ++ history := by
  induction uploads with
  | nothing => exact (List.append_nil _).symm
  | part earlier answered returned uploaded ih =>
    obtain ⟨resp, etag, answered', _, returned', rfl⟩ := uploadPart_eq_ok_iff.mp uploaded
    rw [answered] at answered'
    cases answered'
    rw [returned] at returned'
    cases returned'
    show _ ++ _ = _
    rw [ih, List.append_assoc]

end

/-! ### The completion document -/

theorem mem_iff_lookup_reverse {history : List (UInt32 × String)} (distinct : (history.map Prod.fst).Nodup)
    (partNumber : UInt32) (etag : String) :
    (partNumber, etag) ∈ history ↔ history.reverse.lookup partNumber = some etag := by
  rw [List.lookup_eq_some_iff]
  constructor
  · intro member
    obtain ⟨older, newer, rfl⟩ := List.append_of_mem member
    refine ⟨newer.reverse, older.reverse, by simp, fun part later => ?_⟩
    rw [List.map_append, List.map_cons, List.nodup_append, List.nodup_cons] at distinct
    have apart := distinct.2.1.1
    rw [bne_iff_ne]
    rintro rfl
    exact apart (List.mem_map.mpr ⟨part, List.mem_reverse.mp later, rfl⟩)
  · rintro ⟨newer, older, split, _⟩
    rw [← List.mem_reverse, split]
    exact List.mem_append_right _ List.mem_cons_self

theorem sorted_ascending_iff (history : List (UInt32 × String)) :
    (history.insertionSort fun earlier later => earlier.1 ≤ later.1).Pairwise
        (fun earlier later => earlier.1 < later.1) ↔ (history.map Prod.fst).Nodup := by
  have sorted := List.perm_insertionSort (fun earlier later : UInt32 × String => earlier.1 ≤ later.1) history
  rw [← (sorted.map Prod.fst).nodup_iff, List.Nodup, List.pairwise_map]
  constructor
  · exact List.Pairwise.imp fun less => UInt32.ne_of_lt less
  · intro distinct
    have ascending := List.pairwise_insertionSort
      (fun earlier later : UInt32 × String => earlier.1 ≤ later.1) history
    exact (ascending.and distinct).imp fun both => UInt32.lt_of_le_of_ne both.1 both.2

theorem listsLast_sorted_iff (history : List (UInt32 × String)) :
    ListsLast history (completeXml (history.insertionSort fun earlier later => earlier.1 ≤ later.1)) ↔
      (history.map Prod.fst).Nodup := by
  rw [listsLast_completeXml_iff, sorted_ascending_iff]
  constructor
  · exact And.left
  · intro distinct
    refine ⟨distinct, fun partNumber etag => ?_⟩
    rw [List.mem_insertionSort, mem_iff_lookup_reverse distinct]

theorem read_complete {writer : XmlWriter} {read : Bytes → Option Forest} (readable : writer.ReadBy read)
    {parts : List (UInt32 × String)} {xml : String} (built : buildCompleteXml writer parts = .ok xml) :
    read (asBytes xml) = some (completeXml parts) := by
  unfold buildCompleteXml at built
  obtain ⟨bytes, written, decoded⟩ := Results.bind_eq_ok.mp built
  exact readable _ bytes xml (Results.mapError_eq_ok.mp written) (Results.mapError_eq_ok.mp decoded)

theorem complete_sends {S : Type} {store : S3BlobStore S} {writer : XmlWriter} {up : S3MultipartUpload}
    {xml url : String} (built : buildCompleteXml writer up.sortedParts = .ok xml)
    (addressed : store.objectUrl up.key = .ok url) : store.complete writer up =
      store.sendCompletion (url ++ "?uploadId=" ++ percentEncode up.uploadId) (asBytes xml) := by
  unfold S3BlobStore.complete
  rw [built, addressed]
  rfl

/-- **Completion**: after any calls of `upload_part` on a new handle, the document that `complete` sends
lists every uploaded part once, in strictly ascending order and with the ETag of its last upload, exactly if
no part number was uploaded twice. It is the document of the sorted parts, as the writer writes it. -/
theorem complete_lists_last_iff {S : Type} (store : S3BlobStore S) {key : String}
    {up after : S3MultipartUpload} {s s' : S} {history : List (UInt32 × String)}
    (created : (store.createMultipartUpload key).exec s = (.ok up, s'))
    (uploads : store.Uploads up history after) :
    (ListsLast history (completeXml after.sortedParts) ↔ (history.map Prod.fst).Nodup) ∧
      ∀ writer xml url, buildCompleteXml writer after.sortedParts = .ok xml →
        store.objectUrl after.key = .ok url →
        store.complete writer after =
          store.sendCompletion (url ++ "?uploadId=" ++ percentEncode after.uploadId) (asBytes xml) ∧
        ∀ read, writer.ReadBy read →
          ((∃ document, read (asBytes xml) = some document ∧ ListsLast history document) ↔
            (history.map Prod.fst).Nodup) := by
  have recorded : after.parts = history := by
    rw [uploads.parts, parts_of_created created, List.nil_append]
  have lists : ListsLast history (completeXml after.sortedParts) ↔ (history.map Prod.fst).Nodup := by
    unfold S3MultipartUpload.sortedParts
    rw [recorded, listsLast_sorted_iff]
  refine ⟨lists, fun writer xml url built addressed => ⟨complete_sends built addressed,
    fun read readable => ?_⟩⟩
  rw [read_complete readable built, ← lists]
  simp

/-! ### An endpoint that follows a script -/

def initiated : Forest := .node "InitiateMultipartUploadResult" (.text "UploadId" "u" .nil) .nil

def initiatedText : String :=
  "<InitiateMultipartUploadResult><UploadId>u</UploadId></InitiateMultipartUploadResult>"

def initiatedReader : XmlReader := fun bytes =>
  if bytes = asBytes initiatedText then initiated.events.map .ok else [.error "unexpected document"]

def scripted : S3BlobStore (List HttpResponse) where
  config := ⟨"http://localhost:9000", "b", true, ⟨3, 100, 5000⟩⟩
  client := {
    Request := Unit
    request := fun _ _ => .ok ()
    header := fun _ _ _ => .ok ()
    bearerToken := fun _ _ => .ok ()
    withBody := fun _ _ => ()
    send := fun _ answers => (answers.head?.elim (.error "connection closed") .ok, answers.tail) }
  parseUrl := fun _ => .ok ⟨"http", some "localhost", some 9000⟩
  signRequest := fun _ _ _ _ => pure [("authorization", "AWS4-HMAC-SHA256")]
  sleep := fun _ answers => answers
  reader := initiatedReader
  debugText := id
  ioText := fun _ => ""

def partStored (etag : String) : HttpResponse := ⟨200, [("ETag", some etag)], .ok []⟩

def handle (parts : List (UInt32 × String)) : S3MultipartUpload := ⟨"k", "u", parts⟩

theorem scripted_creates (answers : List HttpResponse) :
    (scripted.createMultipartUpload "k").exec (⟨200, [], .ok (asBytes initiatedText)⟩ :: answers) =
      (.ok (handle []), answers) := by
  have reads : initiatedReader (asBytes initiatedText) = initiated.events.map .ok := if_pos rfl
  have parsed : parseUploadId initiatedReader (asBytes initiatedText) = .ok "u" := by
    unfold parseUploadId
    rw [reads]
    rfl
  have sent (url : String) : (scripted.send .post url [] []).exec
      (⟨200, [], .ok (asBytes initiatedText)⟩ :: answers) = (.ok ⟨200, [], asBytes initiatedText⟩, answers) :=
    rfl
  refine exec_bind_eq_ok.mpr ⟨_, _, rfl, exec_bind_eq_ok.mpr ⟨_, _, sent _, ?_⟩⟩
  refine exec_bind_eq_ok.mpr ⟨"u", answers, ?_, rfl⟩
  exact congrArg (·, answers) parsed

theorem scripted_answers (parts : List (UInt32 × String)) (partNumber : UInt32) (body : Bytes) (etag : String)
    (answers : List HttpResponse) :
    (scripted.sendPart (handle parts) partNumber body).exec (partStored etag :: answers) =
      (.ok ⟨200, [("etag", etag)], []⟩, answers) := by
  have lowered : "ETag".map Char.toLower = "etag" := by decide +kernel
  rw [← lowered]
  rfl

theorem scripted_records {up : S3MultipartUpload} {history : List (UInt32 × String)}
    (earlier : scripted.Uploads up history (handle history)) (partNumber : UInt32) (etag : String) :
    scripted.Uploads up (history ++ [(partNumber, etag)]) (handle (history ++ [(partNumber, etag)])) := by
  have answered := scripted_answers history partNumber [] etag []
  have returned : (⟨200, [("etag", etag)], []⟩ : InternalResponse).header "etag" = some etag := rfl
  exact .part earlier answered returned
    (uploadPart_eq_ok_iff.mpr ⟨_, _, answered, .inl rfl, returned, rfl⟩)

def writesOne (document : Forest) (xml : String) : XmlWriter := fun other =>
  if other = document then .ok (asBytes xml) else .error "another document"

def readsOne (document : Forest) (xml : String) : Bytes → Option Forest := fun bytes =>
  if bytes = asBytes xml then some document else none

theorem readBy_one {document : Forest} {xml : String} (decodes : fromUtf8 (asBytes xml) = .ok xml) :
    (writesOne document xml).ReadBy (readsOne document xml) := by
  intro other bytes xml' written decoded
  unfold writesOne at written
  split_ifs at written with same
  cases written
  rw [decodes] at decoded
  cases decoded
  rw [same]
  exact if_pos rfl

def partXml (number etag : String) : String :=
  "<Part><PartNumber>" ++ number ++ "</PartNumber><ETag>" ++ etag ++ "</ETag></Part>"

def uploadXml (parts : String) : String :=
  "<CompleteMultipartUpload>" ++ parts ++ "</CompleteMultipartUpload>"

def twoParts : String := uploadXml (partXml "1" "a" ++ partXml "2" "b")

def partTwice : String := uploadXml (partXml "1" "a" ++ partXml "1" "b")

theorem complete_lists_two_parts :
    let parts := [(2, "b"), (1, "a")]
    let document := completeXml [(1, "a"), (2, "b")]
    scripted.Uploads (handle []) parts (handle parts) ∧
      scripted.complete (writesOne document twoParts) (handle parts) =
        scripted.sendCompletion ("http://localhost:9000/b/k" ++ "?uploadId=" ++ percentEncode "u")
          (asBytes twoParts) ∧
      ∃ read, readsOne document twoParts (asBytes twoParts) = some read ∧ ListsLast parts read := by
  intro parts document
  have uploads : scripted.Uploads (handle []) parts (handle parts) :=
    scripted_records (scripted_records .nothing 2 "b") 1 "a"
  have decodes : fromUtf8 (asBytes twoParts) = .ok twoParts := by decide +kernel
  have built : buildCompleteXml (writesOne document twoParts) (handle parts).sortedParts = .ok twoParts := by
    decide +kernel
  have addressed : scripted.objectUrl "k" = .ok "http://localhost:9000/b/k" := by decide +kernel
  obtain ⟨sends, reads⟩ :=
    (complete_lists_last_iff scripted (scripted_creates []) uploads).2 _ _ _ built addressed
  exact ⟨uploads, sends, (reads _ (readBy_one decodes)).mpr (by decide)⟩

theorem complete_lists_part_twice :
    let parts := [(1, "a"), (1, "b")]
    scripted.Uploads (handle []) parts (handle parts) ∧
      scripted.complete (writesOne (completeXml parts) partTwice) (handle parts) =
        scripted.sendCompletion ("http://localhost:9000/b/k" ++ "?uploadId=" ++ percentEncode "u")
          (asBytes partTwice) ∧
      listedParts (completeXml parts) = [(["1"], ["a"]), (["1"], ["b"])] ∧
      ¬ ListsLast parts (completeXml parts) := by
  intro parts
  have built : buildCompleteXml (writesOne (completeXml parts) partTwice) (handle parts).sortedParts =
      .ok partTwice := by decide +kernel
  have addressed : scripted.objectUrl "k" = .ok "http://localhost:9000/b/k" := by decide +kernel
  refine ⟨scripted_records (scripted_records .nothing 1 "a") 1 "b", complete_sends built addressed, by decide,
    fun lists => ?_⟩
  obtain ⟨ascending, _⟩ := (listsLast_completeXml_iff _ _).mp lists
  exact absurd ascending (by decide)

end S3

end OxiStore
