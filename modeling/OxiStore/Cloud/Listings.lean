/-
**The XML pages of listings.**
-/

import OxiStore.Lib.Xml
import OxiStore.Cloud.Http

namespace OxiStore

open ByteString Xml Cloud List

abbrev XmlReader := Bytes → List (Except String Event)

def eqIgnoreAsciiCase (first second : String) : Bool :=
  first.toList.map Char.toLower = second.toList.map Char.toLower

/-! ### ListObjectsV2 -/

namespace S3

structure ListPage where
  keys : List String
  isTruncated : Bool
  nextContinuationToken : Option String

def ListPage.add (page : ListPage) (tag text : String) : ListPage :=
  if tag = "Key" then { page with keys := page.keys ++ [text] }
  else if tag = "IsTruncated" then { page with isTruncated := eqIgnoreAsciiCase text "true" }
  else if tag = "NextContinuationToken" then { page with nextContinuationToken := some text }
  else page

def parseLoop : String → ListPage → List (Except String Event) → Except BlobError ListPage
  | _, page, [] => .ok page
  | _, _, .error error :: _ => .error (.other ("XML parse error in ListObjectsV2 response: " ++ error))
  | _, page, .ok (.start name) :: events => parseLoop name page events
  | _, _, .ok (.text (.error error)) :: _ => .error (.other ("XML decode error: " ++ error))
  | currentTag, page, .ok (.text (.ok text)) :: events =>
      parseLoop currentTag (page.add currentTag text) events
  | _, page, .ok (.finish _) :: events => parseLoop "" page events
  | currentTag, page, .ok .other :: events => parseLoop currentTag page events

def parseListObjectsV2Page (reader : XmlReader) (xml : Bytes) : Except BlobError ListPage :=
  parseLoop "" ⟨[], false, none⟩ (reader xml)

end S3

/-! ### ListBlobs -/

namespace Azure

structure Listing where
  names : List String
  nextMarker : Option String

def Listing.add (listing : Listing) (inBlob : Bool) (tag text : String) : Listing :=
  if inBlob ∧ tag = "Name" then { listing with names := listing.names ++ [text] }
  else if tag = "NextMarker" then { listing with nextMarker := some text }
  else listing

def parseLoop : Bool → String → Listing → List (Except String Event) →
    Except BlobError (List String × Option String)
  | _, _, listing, [] => .ok (listing.names, listing.nextMarker)
  | _, _, _, .error error :: _ => .error (.other ("xml parse error: " ++ error))
  | inBlob, _, listing, .ok (.start name) :: events => parseLoop (inBlob || name = "Blob") name listing events
  | inBlob, _, listing, .ok (.finish name) :: events => parseLoop (inBlob && name ≠ "Blob") "" listing events
  | _, _, _, .ok (.text (.error error)) :: _ => .error (.other ("xml decode error: " ++ error))
  | inBlob, currentTag, listing, .ok (.text (.ok text)) :: events =>
      parseLoop inBlob currentTag (listing.add inBlob currentTag text) events
  | inBlob, currentTag, listing, .ok .other :: events => parseLoop inBlob currentTag listing events

def parseListResponse (reader : XmlReader) (body : Bytes) : Except BlobError (List String × Option String) :=
  parseLoop false "" ⟨[], none⟩ (reader body)

end Azure

/-! ### What is read in a stream -/

namespace S3

def pageOf (page : ListPage) (pairs : List (String × String)) : ListPage :=
  pairs.foldl (fun page pair => page.add pair.1 pair.2) page

theorem parseLoop_of_readable {events : List (Except String Event)} {stream : List Event} (tag : String)
    (page : ListPage) (read : readable events = some stream) :
    parseLoop tag page events = .ok (pageOf page (tagged tag stream)) := by
  induction events generalizing tag page stream with
  | nil =>
    cases read
    rfl
  | cons event events ih =>
    rcases event with error | (name | (error | text) | name | _)
    · cases read
    · obtain ⟨rest, found, rfl⟩ := Option.map_eq_some_iff.mp read
      exact ih name page found
    · cases read
    · obtain ⟨rest, found, rfl⟩ := Option.map_eq_some_iff.mp read
      exact ih tag (page.add tag text) found
    · obtain ⟨rest, found, rfl⟩ := Option.map_eq_some_iff.mp read
      exact ih "" page found
    · obtain ⟨rest, found, rfl⟩ := Option.map_eq_some_iff.mp read
      have rest := ih tag page found
      exact rest

theorem parseLoop_of_unreadable {events : List (Except String Event)} (tag : String) (page : ListPage)
    (fails : readable events = none) : ∃ error, parseLoop tag page events = .error error := by
  induction events generalizing tag page with
  | nil => cases fails
  | cons event events ih =>
    rcases event with error | (name | (error | text) | name | _)
    · exact ⟨_, rfl⟩
    · exact ih name page (Option.map_eq_none_iff.mp fails)
    · exact ⟨_, rfl⟩
    · exact ih tag (page.add tag text) (Option.map_eq_none_iff.mp fails)
    · exact ih "" page (Option.map_eq_none_iff.mp fails)
    · exact ih tag page (Option.map_eq_none_iff.mp fails)

theorem parseListObjectsV2Page_eq_ok_iff {reader : XmlReader} {xml : Bytes} {page : ListPage} :
    parseListObjectsV2Page reader xml = .ok page ↔
      ∃ stream, readable (reader xml) = some stream ∧ page = pageOf ⟨[], false, none⟩ (tagged "" stream) := by
  unfold parseListObjectsV2Page
  cases read : readable (reader xml) with
  | none =>
    obtain ⟨error, fails⟩ := parseLoop_of_unreadable "" ⟨[], false, none⟩ read
    rw [fails]
    exact iff_of_false nofun (by rintro ⟨stream, found, _⟩; cases found)
  | some stream =>
    rw [parseLoop_of_readable "" _ read, Except.ok.injEq]
    constructor
    · exact fun same => ⟨stream, rfl, same.symm⟩
    · rintro ⟨stream, found, same⟩
      cases found
      exact same.symm

section

variable (page : ListPage) (tag text : String) (pairs : List (String × String))

theorem keys_add : (page.add tag text).keys = if tag = "Key" then page.keys ++ [text] else page.keys := by
  unfold ListPage.add
  split_ifs <;> rfl

theorem isTruncated_add : (page.add tag text).isTruncated =
    if tag = "IsTruncated" then eqIgnoreAsciiCase text "true" else page.isTruncated := by
  unfold ListPage.add
  split_ifs <;> simp_all

theorem token_add : (page.add tag text).nextContinuationToken =
    if tag = "NextContinuationToken" then some text else page.nextContinuationToken := by
  unfold ListPage.add
  split_ifs <;> simp_all

theorem keys_pageOf : (pageOf page pairs).keys = page.keys ++ texts "Key" pairs := by
  induction pairs generalizing page with
  | nil => exact (append_nil _).symm
  | cons pair pairs ih =>
    rw [pageOf, foldl_cons, ← pageOf, ih, keys_add, texts_cons]
    split_ifs
    · exact append_assoc ..
    · rfl

theorem isTruncated_pageOf : (pageOf page pairs).isTruncated =
    (texts "IsTruncated" pairs).getLast?.elim page.isTruncated (eqIgnoreAsciiCase · "true") := by
  induction pairs generalizing page with
  | nil => rfl
  | cons pair pairs ih =>
    rw [pageOf, foldl_cons, ← pageOf, ih, isTruncated_add, texts_cons]
    split_ifs
    · rw [getLast?_cons]
      cases (texts "IsTruncated" pairs).getLast? <;> rfl
    · rfl

theorem token_pageOf : (pageOf page pairs).nextContinuationToken =
    (texts "NextContinuationToken" pairs).getLast?.or page.nextContinuationToken := by
  induction pairs generalizing page with
  | nil => rfl
  | cons pair pairs ih =>
    rw [pageOf, foldl_cons, ← pageOf, ih, token_add, texts_cons]
    split_ifs
    · rw [getLast?_cons]
      cases (texts "NextContinuationToken" pairs).getLast? <;> rfl
    · rfl

end

end S3

namespace Azure

theorem flag_restored {inBlob : Bool} {name : String} (apart : inBlob = true → name ≠ "Blob") :
    ((inBlob || decide (name = "Blob")) && decide (name ≠ "Blob")) = inBlob := by
  by_cases blob : name = "Blob"
  · cases inBlob with
    | false => simp [blob]
    | true => exact absurd blob (apart rfl)
  · simp [blob]

theorem names_add (listing : Listing) (inBlob : Bool) (tag text : String) :
    (listing.add inBlob tag text).names = listing.names ++ if inBlob ∧ tag = "Name" then [text] else [] := by
  unfold Listing.add
  split_ifs
  · rfl
  · exact (append_nil _).symm
  · exact (append_nil _).symm

theorem parseLoop_textEvents (inBlob : Bool) (tag content : String) (listing : Listing)
    (after : List (Except String Event)) : ∃ nextMarker,
    parseLoop inBlob tag listing ((Forest.textEvents content).map .ok ++ after) =
      parseLoop inBlob tag ⟨listing.names ++
        (if inBlob ∧ tag = "Name" then [content] else []).filterMap delivered, nextMarker⟩ after := by
  unfold Forest.textEvents
  by_cases named : inBlob ∧ tag = "Name"
  · rw [if_pos named]
    cases text : delivered content with
    | none =>
      refine ⟨listing.nextMarker, ?_⟩
      rw [filterMap_cons_none text, filterMap_nil, append_nil]
      rfl
    | some text' =>
      refine ⟨(listing.add inBlob tag text').nextMarker, ?_⟩
      rw [filterMap_cons_some text, filterMap_nil]
      show parseLoop inBlob tag (listing.add inBlob tag text') after = _
      have names := names_add listing inBlob tag text'
      rw [if_pos named] at names
      rw [← names]
  · rw [if_neg named, filterMap_nil, append_nil]
    cases delivered content with
    | none => exact ⟨listing.nextMarker, rfl⟩
    | some text =>
      refine ⟨(listing.add inBlob tag text).nextMarker, ?_⟩
      show parseLoop inBlob tag (listing.add inBlob tag text) after = _
      have names := names_add listing inBlob tag text
      rw [if_neg named, append_nil] at names
      rw [← names]

theorem parseLoop_events (forest : Forest) (inBlob : Bool) (tag : String) (listing : Listing)
    (after : List (Except String Event)) (apart : forest.Apart "Blob" inBlob) : ∃ nextMarker,
    parseLoop inBlob tag listing (forest.events.map .ok ++ after) =
      parseLoop inBlob (forest.tagAfter tag) ⟨listing.names ++
        (forest.contentsIn "Blob" "Name" inBlob).filterMap delivered, nextMarker⟩ after := by
  induction forest generalizing inBlob tag listing after with
  | nil => exact ⟨listing.nextMarker, by rw [Forest.contentsIn, filterMap_nil, append_nil]; rfl⟩
  | text name content rest ih =>
    obtain ⟨other, restApart⟩ := apart
    obtain ⟨marker, here⟩ := parseLoop_textEvents inBlob name content listing
      (.ok (.finish name) :: (rest.events.map .ok ++ after))
    obtain ⟨nextMarker, there⟩ := ih inBlob "" ⟨listing.names ++
      (if inBlob ∧ name = "Name" then [content] else []).filterMap delivered, marker⟩ after restApart
    refine ⟨nextMarker, ?_⟩
    rw [Forest.events, map_cons, cons_append, map_append, append_assoc, map_cons,
      cons_append, parseLoop, decide_eq_false other, Bool.or_false, here, parseLoop,
      decide_eq_true other, Bool.and_true, there, Forest.contentsIn, filterMap_append,
      append_assoc, Forest.tagAfter]
  | empty name rest ih => exact ih inBlob tag listing after apart
  | node name children rest inner ih =>
    obtain ⟨outside, childrenApart, restApart⟩ := apart
    obtain ⟨marker, within⟩ := inner (inBlob || decide (name = "Blob")) name listing
      (.ok (.finish name) :: (rest.events.map .ok ++ after)) childrenApart
    obtain ⟨nextMarker, there⟩ := ih inBlob "" ⟨listing.names ++
      (children.contentsIn "Blob" "Name" (inBlob || decide (name = "Blob"))).filterMap delivered, marker⟩
      after restApart
    refine ⟨nextMarker, ?_⟩
    rw [Forest.events, map_cons, cons_append, map_append, append_assoc, map_cons,
      cons_append, parseLoop, within, parseLoop, flag_restored outside, there, Forest.contentsIn,
      filterMap_append, append_assoc, Forest.tagAfter]

theorem parseListResponse_document {reader : XmlReader} {body : Bytes} {page : Forest}
    (reads : reader body = page.events.map .ok) (apart : page.Apart "Blob" false) : ∃ nextMarker,
    parseListResponse reader body =
      .ok ((page.contentsIn "Blob" "Name" false).filterMap delivered, nextMarker) := by
  obtain ⟨nextMarker, whole⟩ := parseLoop_events page false "" ⟨[], none⟩ [] apart
  rw [append_nil] at whole
  exact ⟨nextMarker, by rw [parseListResponse, reads, whole]; rfl⟩

end Azure

theorem S3.parseListObjectsV2Page_document {reader : XmlReader} {xml : Bytes} {page : Forest}
    (reads : reader xml = page.events.map .ok) : ∃ parsed, S3.parseListObjectsV2Page reader xml = .ok parsed ∧
      parsed.keys = (page.contents "Key").filterMap delivered := by
  have read : readable (reader xml) = some page.events := by rw [reads, page.readable_events]
  refine ⟨_, S3.parseListObjectsV2Page_eq_ok_iff.mpr ⟨page.events, read, rfl⟩, ?_⟩
  rw [S3.keys_pageOf, nil_append, page.texts_events]

/-- **Names through the listing pages**: both parsers give back the names that their page encodes exactly if
no name begins or ends with a blank. -/
theorem listings_parsed_iff {reader : XmlReader} {names : List String} (nonempty : ∀ name ∈ names, name ≠ "")
    {xml body : Bytes} {objects blobs : Forest} (objectsRead : reader xml = objects.events.map .ok)
    (objectsNamed : objects.contents "Key" = names) (blobsRead : reader body = blobs.events.map .ok)
    (blobsApart : blobs.Apart "Blob" false) (blobsNamed : blobs.contentsIn "Blob" "Name" false = names) :
    (((S3.parseListObjectsV2Page reader xml).map S3.ListPage.keys = .ok names) ∧
      (Azure.parseListResponse reader body).map Prod.fst = .ok names) ↔ ∀ name ∈ names, Unpadded name := by
  obtain ⟨parsed, objectsParsed, keys⟩ := S3.parseListObjectsV2Page_document objectsRead
  obtain ⟨nextMarker, blobsParsed⟩ := Azure.parseListResponse_document blobsRead blobsApart
  rw [objectsParsed, blobsParsed, Except.map, Except.map, keys, objectsNamed, blobsNamed, Except.ok.injEq,
    and_self_iff]
  exact delivered_eq_self_iff nonempty

/-! ### Pages of given names -/

def objectEntries : List String → Forest
  | [] => .nil
  | name :: names => .node "Contents" (.text "Key" name .nil) (objectEntries names)

def objectPage (names : List String) : Forest :=
  .node "ListBucketResult" (.text "IsTruncated" "false" (objectEntries names)) .nil

def objectPageText (names : List String) : String :=
  "<ListBucketResult><IsTruncated>false</IsTruncated>" ++
    String.join (names.map fun name => "<Contents><Key>" ++ name ++ "</Key></Contents>") ++
    "</ListBucketResult>"

def blobEntries : List String → Forest
  | [] => .nil
  | name :: names => .node "Blob" (.text "Name" name .nil) (blobEntries names)

def blobPage (names : List String) : Forest :=
  .node "EnumerationResults" (.node "Blobs" (blobEntries names) (.empty "NextMarker" .nil)) .nil

def blobPageText (names : List String) : String :=
  "<EnumerationResults><Blobs>" ++
    String.join (names.map fun name => "<Blob><Name>" ++ name ++ "</Name></Blob>") ++
    "</Blobs><NextMarker/></EnumerationResults>"

def pageReader (names : List String) : XmlReader := fun bytes =>
  if bytes = asBytes (objectPageText names) then (objectPage names).events.map .ok
  else if bytes = asBytes (blobPageText names) then (blobPage names).events.map .ok
  else [.error "unexpected document"]

theorem pageReader_object (names : List String) :
    pageReader names (asBytes (objectPageText names)) = (objectPage names).events.map .ok := if_pos rfl

theorem pageReader_blob {names : List String}
    (differ : asBytes (blobPageText names) ≠ asBytes (objectPageText names)) :
    pageReader names (asBytes (blobPageText names)) = (blobPage names).events.map .ok :=
  (if_neg differ).trans (if_pos rfl)

theorem blobEntries_apart (names : List String) : (blobEntries names).Apart "Blob" false := by
  induction names with
  | nil => trivial
  | cons name names ih => simpa [blobEntries, Forest.Apart] using ih

theorem blobPage_apart (names : List String) : (blobPage names).Apart "Blob" false := by
  simp [blobPage, Forest.Apart, blobEntries_apart]

theorem listings_parsed_inner_blanks :
    let names := ["a b", "logs/2024 06/x", "§"]
    (S3.parseListObjectsV2Page (pageReader names) (asBytes (objectPageText names))).map S3.ListPage.keys =
        .ok names ∧
      (Azure.parseListResponse (pageReader names) (asBytes (blobPageText names))).map Prod.fst = .ok names :=
  (listings_parsed_iff (show ∀ name ∈ ["a b", "logs/2024 06/x", "§"], name ≠ "" by decide)
    (pageReader_object _) rfl (pageReader_blob (by decide +kernel)) (blobPage_apart _) rfl).mpr
      (by decide +kernel)

theorem listings_strip_name :
    let names := [" a", "b"]
    (objectPage names).contents "Key" = names ∧ (blobPage names).contentsIn "Blob" "Name" false = names ∧
      (S3.parseListObjectsV2Page (pageReader names) (asBytes (objectPageText names))).map S3.ListPage.keys =
        .ok ["a", "b"] ∧
      (Azure.parseListResponse (pageReader names) (asBytes (blobPageText names))).map Prod.fst =
        .ok ["a", "b"] := by
  intro names
  obtain ⟨parsed, objectsParsed, keys⟩ := S3.parseListObjectsV2Page_document (pageReader_object names)
  have differ : asBytes (blobPageText names) ≠ asBytes (objectPageText names) := by decide +kernel
  obtain ⟨nextMarker, blobsParsed⟩ :=
    Azure.parseListResponse_document (pageReader_blob differ) (blobPage_apart names)
  refine ⟨rfl, rfl, ?_, ?_⟩
  · rw [objectsParsed, Except.map, keys]
    rfl
  · rw [blobsParsed]
    rfl

end OxiStore
