/-
**`GcsBlobStore::list`.**
-/

import OxiStore.Cloud.Http

namespace OxiStore.Gcs

open ByteString StepProg Cloud List

/-! ### Documents -/

inductive Value where
  | null
  | bool (value : Bool)
  | number (literal : String)
  | string (value : String)
  | array (values : List Value)
  | object (fields : List (String × Value))

namespace Value

def get (key : String) : Value → Option Value
  | .object fields => fields.lookup key
  | _ => none

def index (key : String) (value : Value) : Value := (value.get key).getD .null

def asArray : Value → Option (List Value)
  | .array values => some values
  | _ => none

def asStr : Value → Option String
  | .string value => some value
  | _ => none

end Value

structure ListPage where
  keys : List String
  nextPageToken : Option String

def pageOf (v : Value) : ListPage :=
  match (v.get "items").bind Value.asArray with
  | none => ⟨[], none⟩
  | some items => ⟨items.filterMap fun item => (item.index "name").asStr, (v.index "nextPageToken").asStr⟩

def parseListPage (fromSlice : Bytes → Except String Value) (body : Bytes) : Except BlobError ListPage :=
  (describe "GCS list parse: " (fromSlice body)).map pageOf

/-! ### The store -/

structure GcsBlobStore (S : Type) where
  bucket : String
  endpoint : Option String
  client : HttpClient S
  bearerToken : BlobCall S String
  fromSlice : Bytes → Except String Value

def fromDigit (num radix : ℕ) : Option Char :=
  if num < radix then some (Char.ofNat (if num < 10 then 48 + num else 87 + num)) else none

def gcsPercentEncode (s : String) : String :=
  (asBytes s).foldl (fun out b =>
    if unreserved b then out.push (Char.ofNat b.toNat)
    else ((out.push '%').push ((fromDigit (b >>> 4).toNat 16).getD '0').toUpper).push
      ((fromDigit (b &&& 0xf).toNat 16).getD '0').toUpper) ""

def buildListUrl (endpoint bucket start : String) (pageToken : Option String) : String :=
  let url := endpoint ++ "/storage/v1/b/" ++ bucket ++ "/o?maxResults=1000&prefix=" ++ gcsPercentEncode start
  match pageToken with
  | some token => url ++ "&pageToken=" ++ gcsPercentEncode token
  | none => url

namespace GcsBlobStore

variable {S : Type} (store : GcsBlobStore S)

def storageEndpoint : String := store.endpoint.getD "https://storage.googleapis.com"

def requestPage (start token : String) (pageToken : Option String) : BlobCall S (UInt16 × Bytes) := do
  let url := buildListUrl (trimEndMatches '/' store.storageEndpoint) store.bucket start pageToken
  let request ← Fallible.ofExcept (describe "GCS list build request: " (store.client.request .get url))
  let request ← Fallible.ofExcept (describe "GCS list set auth: " (store.client.bearerToken token request))
  let resp ← store.client.sent "GCS list send: " request
  let body ← Fallible.ofExcept (describe "GCS list read body: " resp.body)
  pure (resp.status, body)

def listLoop (start token : String) : ℕ → Option String → List String → BlobCall S (Option (List String))
  | 0, _, _ => pure none
  | pages + 1, pageToken, keys => do
      let (status, body) ← store.requestPage start token pageToken
      if status ≠ 200 then
        throw (.other ("GCS list returned " ++ toString status.toNat ++ ": " ++ fromUtf8Lossy body))
      else do
        let page ← Fallible.ofExcept (parseListPage store.fromSlice body)
        match page.nextPageToken with
        | some next =>
            if next = "" then pure (some (keys ++ page.keys))
            else listLoop start token pages (some next) (keys ++ page.keys)
        | none => pure (some (keys ++ page.keys))

def list (start : String) (pages : ℕ) : BlobCall S (Option (List String)) := do
  let token ← store.bearerToken
  let keys ← store.listLoop start token pages none []
  pure (keys.map (List.insertionSort (· ≤ ·)))

end GcsBlobStore

/-! ### Chains of pages -/

/-- **A page of a listing**: the names of its items, if it has `items` at all, and the token of the next. -/
structure Page where
  items : Option (List String)
  nextPageToken : Option String

def Page.names (page : Page) : List String := page.items.getD []

/-- **A document that is such a page**: every item has its name, and whatever other fields there are. -/
structure Describes (v : Value) (page : Page) : Prop where
  token : v.get "nextPageToken" = page.nextPageToken.map .string
  absent : page.items = none → v.get "items" = none
  items : ∀ names, page.items = some names → ∃ values, v.get "items" = some (.array values) ∧
    values.map (Value.get "name") = names.map fun name => some (.string name)

def GcsBlobStore.Serves {S : Type} (store : GcsBlobStore S) (start token : String) :
    Option String → List Page → S → Prop
  | _, [], _ => True
  | pageToken, page :: pages, s => ∃ body v s',
      (store.requestPage start token pageToken).exec s = (.ok (200, body), s') ∧
      store.fromSlice body = .ok v ∧ Describes v page ∧ store.Serves start token page.nextPageToken pages s'

def Chained : List Page → Prop
  | [] => False
  | [last] => last.nextPageToken = none
  | page :: next :: pages => (∃ token, page.nextPageToken = some token ∧ token ≠ "") ∧ Chained (next :: pages)

def NothingAfterSilence (pages : List Page) : Prop :=
  ∀ before page after, pages = before ++ page :: after → page.items = none →
    ∀ later ∈ after, later.names = []

theorem names_of_described {v : Value} {page : Page} (describes : Describes v page) {names : List String}
    (named : page.items = some names) : ∃ values, (v.get "items").bind Value.asArray = some values ∧
      (values.filterMap fun item => (item.index "name").asStr) = names := by
  obtain ⟨values, found, each⟩ := describes.items names named
  refine ⟨values, by rw [found]; rfl, ?_⟩
  have composed : (values.filterMap fun item => (item.index "name").asStr) =
      (values.map (Value.get "name")).filterMap fun field => (field.getD .null).asStr := by
    rw [filterMap_map]
    rfl
  rw [composed, each, filterMap_map]
  exact filterMap_some

theorem token_of_described {v : Value} {page : Page} (describes : Describes v page) :
    (v.index "nextPageToken").asStr = page.nextPageToken := by
  rw [Value.index, describes.token]
  cases page.nextPageToken <;> rfl

theorem pageOf_described {v : Value} {page : Page} (describes : Describes v page) :
    pageOf v = if page.items.isSome then ⟨page.names, page.nextPageToken⟩ else ⟨[], none⟩ := by
  unfold pageOf
  cases named : page.items with
  | none =>
    rw [describes.absent named]
    rfl
  | some names =>
    obtain ⟨values, found, same⟩ := names_of_described describes named
    rw [found, if_pos Option.isSome_some, Page.names, named, Option.getD_some,
      ← token_of_described describes, ← same]

/-! ### The loop -/

section

variable {S : Type} {store : GcsBlobStore S} {start token : String} {pages : List Page}

theorem exec_listLoop {pageToken : Option String} {s : S}
    (serves : store.Serves start token pageToken pages s) (chain : Chained pages) {rounds : ℕ}
    (enough : pages.length ≤ rounds) (keys : List String) :
    ∃ s', (store.listLoop start token rounds pageToken keys).exec s =
      (.ok (some (keys ++ (pages.takeWhile fun page => page.items.isSome).flatMap Page.names)), s') := by
  induction pages generalizing pageToken s rounds keys with
  | nil => exact chain.elim
  | cons page pages ih =>
    obtain ⟨body, v, s', asked, parses, describes, later⟩ := serves
    obtain ⟨rounds, rfl⟩ : ∃ fewer, rounds = fewer + 1 :=
      ⟨rounds - 1, by rw [length_cons] at enough; omega⟩
    have parsed : parseListPage store.fromSlice body = .ok (pageOf v) := by
      rw [parseListPage, parses]
      rfl
    have read : (Fallible.ofExcept (parseListPage store.fromSlice body) : BlobCall S ListPage).exec s' =
        (.ok (pageOf v), s') := by
      rw [parsed, Fallible.exec_ofExcept]
    rw [GcsBlobStore.listLoop, Fallible.exec_bind_ok asked]
    dsimp only
    rw [if_neg (not_not_intro rfl), Fallible.exec_bind_ok read, pageOf_described describes]
    cases named : page.items with
    | none =>
      refine ⟨s', ?_⟩
      rw [takeWhile_cons_of_neg (by rw [named]; exact Bool.false_ne_true)]
      rfl
    | some names =>
      rw [takeWhile_cons_of_pos (by rw [named]; rfl), if_pos Option.isSome_some, flatMap_cons,
        ← append_assoc]
      dsimp only
      cases pages with
      | nil =>
        have last : page.nextPageToken = none := chain
        rw [last]
        exact ⟨s', by rw [takeWhile_nil, flatMap_nil, append_nil]; rfl⟩
      | cons next pages =>
        obtain ⟨⟨nextToken, has, nonempty⟩, rest⟩ := chain
        rw [has] at later ⊢
        dsimp only
        rw [if_neg nonempty]
        exact ih later rest (by rw [length_cons] at enough; omega) _

theorem unheard_iff : (pages.dropWhile fun page => page.items.isSome).flatMap Page.names = [] ↔
    NothingAfterSilence pages := by
  constructor
  · rintro nothing before page after rfl silent later member
    have rest : (page :: after).dropWhile (fun page => page.items.isSome) = page :: after :=
      dropWhile_cons_of_neg (by rw [silent]; exact Bool.false_ne_true)
    have unheard : later ∈ (before ++ page :: after).dropWhile fun page => page.items.isSome := by
      rw [dropWhile_append, rest]
      split_ifs
      · exact mem_cons_of_mem page member
      · exact mem_append_right _ (mem_cons_of_mem page member)
    exact flatMap_eq_nil_iff.mp nothing later unheard
  · intro quiet
    have split := takeWhile_append_dropWhile (p := fun page : Page => page.items.isSome) (l := pages)
    cases unheard : pages.dropWhile fun page => page.items.isSome with
    | nil => rfl
    | cons page after =>
      have silent : page.items = none := by
        have some_left : pages.dropWhile (fun page => page.items.isSome) ≠ [] := by
          rw [unheard]
          exact cons_ne_nil page after
        have stops := head_dropWhile_not (fun page : Page => page.items.isSome) some_left
        simpa [unheard] using stops
      rw [unheard] at split
      refine flatMap_eq_nil_iff.mpr fun later member => ?_
      rcases mem_cons.mp member with rfl | after
      · rw [Page.names, silent, Option.getD_none]
      · exact quiet _ _ _ split.symm silent later after

/-- **All names, sorted**: the store returns them exactly if no page with names comes after one without
`items`. -/
theorem list_returns_all_iff {s₀ s : S} (granted : store.bearerToken.exec s₀ = (.ok token, s))
    (serves : store.Serves start token none pages s) (chain : Chained pages) {rounds : ℕ}
    (enough : pages.length ≤ rounds) :
    ((store.list start rounds).exec s₀).1 =
        .ok (some ((pages.flatMap Page.names).insertionSort (· ≤ ·))) ↔ NothingAfterSilence pages := by
  obtain ⟨s', loops⟩ := exec_listLoop serves chain enough []
  have split := takeWhile_append_dropWhile (p := fun page : Page => page.items.isSome) (l := pages)
  have names : pages.flatMap Page.names =
      (pages.takeWhile fun page => page.items.isSome).flatMap Page.names ++
        (pages.dropWhile fun page => page.items.isSome).flatMap Page.names := by
    rw [← flatMap_append, split]
  rw [GcsBlobStore.list, Fallible.exec_bind_ok granted, Fallible.exec_bind_ok loops, ← unheard_iff, names,
    nil_append]
  generalize (pages.takeWhile fun page => page.items.isSome).flatMap Page.names = heard
  generalize (pages.dropWhile fun page => page.items.isSome).flatMap Page.names = unheard
  show Except.ok (some (heard.insertionSort (· ≤ ·))) = _ ↔ _
  constructor
  · intro same
    have lengths := congrArg length (Option.some.inj (Except.ok.inj same))
    rw [length_insertionSort, length_insertionSort, length_append] at lengths
    exact length_eq_zero_iff.mp (by omega)
  · rintro rfl
    rw [append_nil]

end

/-! ### Two pages -/

def pageUrl (pageToken : Option String) : String :=
  buildListUrl (trimEndMatches '/' "https://storage.googleapis.com") "b" "" pageToken

def twoPages (first second : String × Value) : GcsBlobStore Unit where
  bucket := "b"
  endpoint := none
  bearerToken := pure "secret"
  client := {
    Request := String
    request := fun _ url => .ok url
    header := fun _ _ request => .ok request
    bearerToken := fun _ request => .ok request
    withBody := fun _ request => request
    send := fun url _ =>
      (.ok (if url = pageUrl none then ⟨200, [], .ok (asBytes first.1)⟩
        else if url = pageUrl (some "t") then ⟨200, [], .ok (asBytes second.1)⟩
        else ⟨404, [], .ok []⟩), ()) }
  fromSlice := fun body =>
    if body = asBytes first.1 then .ok first.2
    else if body = asBytes second.1 then .ok second.2
    else .error "expected value at line 1 column 1"

def silentPage : String × Value :=
  ("\x7b\"nextPageToken\":\"t\"\x7d", .object [("nextPageToken", .string "t")])

def firstPage : String × Value :=
  ("\x7b\"items\":[\x7b\"name\":\"b\"\x7d],\"nextPageToken\":\"t\"\x7d",
    .object [("items", .array [.object [("name", .string "b")]]), ("nextPageToken", .string "t")])

def lastPage : String × Value :=
  ("\x7b\"items\":[\x7b\"name\":\"a\"\x7d]\x7d",
    .object [("items", .array [.object [("name", .string "a")]])])

theorem describes_silentPage : Describes silentPage.2 ⟨none, some "t"⟩ where
  token := rfl
  absent _ := rfl
  items _ := nofun

theorem describes_firstPage : Describes firstPage.2 ⟨some ["b"], some "t"⟩ where
  token := rfl
  absent := nofun
  items names named := by
    cases named
    exact ⟨_, rfl, rfl⟩

theorem describes_lastPage : Describes lastPage.2 ⟨some ["a"], none⟩ where
  token := rfl
  absent := nofun
  items names named := by
    cases named
    exact ⟨_, rfl, rfl⟩

section

variable {first second : String × Value} {page next : Page}

theorem exec_requestPage_twoPages {pageToken : Option String} {text : String}
    (answers : (if pageUrl pageToken = pageUrl none then ⟨200, [], .ok (asBytes first.1)⟩
      else if pageUrl pageToken = pageUrl (some "t") then ⟨200, [], .ok (asBytes second.1)⟩
      else ⟨404, [], .ok []⟩ : HttpResponse) = ⟨200, [], .ok (asBytes text)⟩) :
    ((twoPages first second).requestPage "" "secret" pageToken).exec () = (.ok (200, asBytes text), ()) := by
  have sent : ((twoPages first second).client.sent "GCS list send: " (pageUrl pageToken)).exec () =
      (.ok ⟨200, [], .ok (asBytes text)⟩, ()) := by
    show (describe "GCS list send: " (.ok (if _ then _ else if _ then _ else _)), ()) = _
    rw [answers]
    rfl
  exact Fallible.exec_bind_ok sent

theorem serves_twoPages (apart : asBytes second.1 ≠ asBytes first.1) (token : page.nextPageToken = some "t")
    (describes : Describes first.2 page) (follows : Describes second.2 next) :
    (twoPages first second).Serves "" "secret" none [page, next] () := by
  have differ : pageUrl (some "t") ≠ pageUrl none := by decide +kernel
  refine ⟨asBytes first.1, first.2, (), exec_requestPage_twoPages (if_pos rfl), if_pos rfl, describes,
    asBytes second.1, second.2, (), ?_, (if_neg apart).trans (if_pos rfl), follows, trivial⟩
  rw [token]
  exact exec_requestPage_twoPages ((if_neg differ).trans (if_pos rfl))

end

theorem list_returns_two_pages :
    let pages := [⟨some ["b"], some "t"⟩, ⟨some ["a"], none⟩]
    (twoPages firstPage lastPage).Serves "" "secret" none pages () ∧ Chained pages ∧
      (((twoPages firstPage lastPage).list "" 2).exec ()).1 = .ok (some ["a", "b"]) := by
  intro pages
  have serves : (twoPages firstPage lastPage).Serves "" "secret" none pages () :=
    serves_twoPages (by decide +kernel) rfl describes_firstPage describes_lastPage
  have chain : Chained pages := ⟨⟨"t", rfl, by decide⟩, rfl⟩
  have returned := (list_returns_all_iff (rfl : (twoPages firstPage lastPage).bearerToken.exec () = _) serves
    chain le_rfl).mpr (unheard_iff.mp rfl)
  exact ⟨serves, chain, returned⟩

theorem list_misses_last_page :
    let pages := [⟨none, some "t"⟩, ⟨some ["a"], none⟩]
    (twoPages silentPage lastPage).Serves "" "secret" none pages () ∧ Chained pages ∧
      (((twoPages silentPage lastPage).list "" 2).exec ()).1 = .ok (some []) := by
  intro pages
  have serves : (twoPages silentPage lastPage).Serves "" "secret" none pages () :=
    serves_twoPages (by decide +kernel) rfl describes_silentPage describes_lastPage
  have chain : Chained pages := ⟨⟨"t", rfl, by decide⟩, rfl⟩
  obtain ⟨s', loops⟩ := exec_listLoop serves chain (show 2 ≤ 2 from le_rfl) []
  refine ⟨serves, chain, ?_⟩
  rw [GcsBlobStore.list, Fallible.exec_bind_ok (rfl : (twoPages silentPage lastPage).bearerToken.exec () = _),
    Fallible.exec_bind_ok loops]
  rfl

end OxiStore.Gcs
