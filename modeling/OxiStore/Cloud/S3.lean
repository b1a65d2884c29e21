/-
**`S3BlobStore`: requests and listings.**
-/

import OxiStore.Cloud.Listings

namespace OxiStore

open ByteString StepProg Xml Cloud

open FileTree (IoError)

def BlobError.display (ioText : IoError → String) : BlobError → String
  | .notFound key => "key not found: " ++ key
  | .alreadyExists key => "key already exists: " ++ key
  | .io error => "I/O error: " ++ ioText error
  | .checksumMismatch message => "checksum mismatch: " ++ message
  | .other message => message
  | .quotaExceeded limitBytes neededBytes => "storage quota exceeded: limit " ++ toString limitBytes.toNat ++
      " bytes, needed " ++ toString neededBytes.toNat ++ " bytes"
  | .multipartError message => "multipart error: " ++ message
  | .retryExhausted attempts lastError =>
      "retry exhausted after " ++ toString attempts.toNat ++ " attempts: " ++ lastError

namespace S3

/-! ### The store -/

structure RetryConfig where
  maxAttempts : UInt32
  baseDelayMs : UInt64
  maxDelayMs : UInt64

structure S3Config where
  endpoint : String
  bucket : String
  pathStyle : Bool
  retryConfig : RetryConfig

structure Url where
  scheme : String
  hostStr : Option String
  port : Option UInt16

structure S3BlobStore (S : Type) where
  config : S3Config
  client : HttpClient S
  parseUrl : String → Except String Url
  signRequest : HttpMethod → String → List (String × String) → Bytes → BlobCall S (List (String × String))
  sleep : UInt64 → S → S
  reader : XmlReader
  debugText : String → String
  ioText : IoError → String

structure InternalResponse where
  status : UInt16
  headers : List (String × String)
  body : Bytes

def InternalResponse.header (resp : InternalResponse) (name : String) : Option String :=
  resp.headers.reverse.lookup name

/-! ### URLs -/

def percentEncode (s : String) : String :=
  String.ofList ((asBytes s).flatMap fun b =>
    if unreserved b || b = 47 then [Char.ofNat b.toNat]
    else '%' :: List.leftpad 2 '0' ((Nat.toDigits 16 b.toNat).map Char.toUpper))

def virtualHost (bucket : String) (parsed : Except String Url) : Except BlobError String := do
  let parsed ← describe "invalid endpoint URL: " parsed
  match parsed.hostStr with
  | none => throw (.other "endpoint URL missing host")
  | some host => pure (parsed.scheme ++ "://" ++ bucket ++ "." ++ host ++
      parsed.port.elim "" fun port => ":" ++ toString port.toNat)

namespace S3BlobStore

variable {S : Type} (store : S3BlobStore S)

def endpoint : String := trimEndMatches '/' store.config.endpoint

def bucketUrl : Except BlobError String :=
  if store.config.pathStyle then pure (store.endpoint ++ "/" ++ store.config.bucket)
  else virtualHost store.config.bucket (store.parseUrl store.endpoint)

def objectUrl (key : String) : Except BlobError String := do
  let base ← store.bucketUrl
  pure (base ++ "/" ++ percentEncode key)

def urlHostHeader (url : String) : Except BlobError String := do
  let parsed ← describe ("parse URL " ++ store.debugText url ++ ": ") (store.parseUrl url)
  match parsed.hostStr with
  | none => throw (.other ("URL has no host: " ++ url))
  | some host =>
      let port := parsed.port.getD (if parsed.scheme = "https" then 443 else 80)
      pure (host ++ ":" ++ toString port.toNat)

def buildListUrl (start : String) (continuationToken : Option String) : Except BlobError String := do
  let base ←
    if store.config.pathStyle then pure (store.endpoint ++ "/" ++ store.config.bucket ++ "?list-type=2")
    else do
      let host ← virtualHost store.config.bucket (store.parseUrl store.endpoint)
      pure (host ++ "/?list-type=2")
  pure (base ++ (if start = "" then "" else "&prefix=" ++ percentEncode start) ++
    continuationToken.elim "" fun token => "&continuation-token=" ++ percentEncode token)

/-! ### Requests -/

def setHeaders : List (String × String) → store.client.Request → Except BlobError store.client.Request
  | [], request => .ok request
  | (name, value) :: headers, request => do
      let request ← describe ("set header " ++ name ++ ": ") (store.client.header name value request)
      setHeaders headers request

def sendOnce (method : HttpMethod) (url : String) (body : Bytes) (extraHeaders : List (String × String)) :
    BlobCall S InternalResponse := do
  let hostHeader ← Fallible.ofExcept (store.urlHostHeader url)
  let signHeaders := ("host", hostHeader) :: extraHeaders
  let signed ← store.signRequest method url signHeaders body
  let request ← Fallible.ofExcept (describe "request builder: " (store.client.request method url))
  let request ← Fallible.ofExcept (store.setHeaders (signHeaders ++ signed) request)
  let resp ← store.client.sent ("HTTP " ++ method.text ++ " " ++ url ++ ": ")
    (store.client.withBody body request)
  let bytes ←
    if method = .head then pure [] else Fallible.ofExcept (describe "read response body: " resp.body)
  pure ⟨resp.status, resp.headers.map fun header => (header.1.map Char.toLower, header.2.getD ""), bytes⟩

def shouldRetryStatus (status : UInt16) : Bool := status = 429 || status = 503

def backoffDelay (config : RetryConfig) (attempt : ℕ) : UInt64 :=
  let baseMs := min (config.baseDelayMs.toNat * 2 ^ min attempt 30) (2 ^ 64 - 1)
  let cappedMs := min baseMs config.maxDelayMs.toNat
  UInt64.ofNat (if attempt % 2 = 0 then cappedMs else min (cappedMs * 3) (2 ^ 64 - 1) / 4)

def sendLoop (method : HttpMethod) (url : String) (body : Bytes) (extraHeaders : List (String × String)) :
    ℕ → ℕ → Option BlobError → BlobCall S InternalResponse
  | 0, _, lastError => throw (.retryExhausted store.config.retryConfig.maxAttempts
      ((lastError.getD (.other "unknown error")).display store.ioText))
  | left + 1, attempt, _ => do
      if attempt > 0 then
        Fallible.atomic fun s => (.ok (), store.sleep (backoffDelay store.config.retryConfig (attempt - 1)) s)
      match ← (store.sendOnce method url body extraHeaders).attempt with
      | .ok resp =>
          if shouldRetryStatus resp.status then
            sendLoop method url body extraHeaders left (attempt + 1)
              (some (.other ("S3 HTTP " ++ toString resp.status.toNat ++ " (retryable)")))
          else pure resp
      | .error error => sendLoop method url body extraHeaders left (attempt + 1) (some error)

def send (method : HttpMethod) (url : String) (body : Bytes) (extraHeaders : List (String × String)) :
    BlobCall S InternalResponse :=
  store.sendLoop method url body extraHeaders store.config.retryConfig.maxAttempts.toNat 0 none

end S3BlobStore

/-! ### Errors -/

structure S3ErrorResponse where
  code : String
  message : String

def S3ErrorResponse.parseLoop : String → S3ErrorResponse → List (Except String Event) → S3ErrorResponse
  | _, resp, [] => resp
  | _, resp, .error _ :: _ => resp
  | _, resp, .ok (.start name) :: events => parseLoop name resp events
  | currentTag, resp, .ok (.text decoded) :: events =>
      let text := decoded.toOption.getD ""
      parseLoop currentTag (if currentTag = "Code" then { resp with code := text }
        else if currentTag = "Message" then { resp with message := text } else resp) events
  | currentTag, resp, .ok (.finish _) :: events => parseLoop currentTag resp events
  | currentTag, resp, .ok .other :: events => parseLoop currentTag resp events

def S3ErrorResponse.parse (reader : XmlReader) (xml : Bytes) : Option S3ErrorResponse :=
  if xml = [] then none
  else
    let resp := parseLoop "" ⟨"", ""⟩ (reader xml)
    if resp.code = "" then none else some resp

def httpErrorToBlobError (reader : XmlReader) (status : UInt16) (body : Bytes) (key : String) : BlobError :=
  match S3ErrorResponse.parse reader body with
  | some error =>
      if status = 404 ∧ (error.code = "NoSuchKey" ∨ error.code = "NoSuchBucket") then .notFound key
      else .other ("S3 error " ++ toString status.toNat ++ " " ++ error.code ++ ": " ++ error.message)
  | none =>
      if status = 404 then .notFound key
      else .other ("S3 HTTP " ++ toString status.toNat ++ " for key " ++ key ++ ": " ++ fromUtf8Lossy body)

/-! ### Listings -/

def ListPage.next (page : ListPage) : Option String :=
  if page.isTruncated then page.nextContinuationToken else none

namespace S3BlobStore

variable {S : Type} (store : S3BlobStore S)

def requestPage (start : String) (continuationToken : Option String) : BlobCall S Bytes := do
  let url ← Fallible.ofExcept (store.buildListUrl start continuationToken)
  let resp ← store.send .get url [] []
  if resp.status ≠ 200 then throw (httpErrorToBlobError store.reader resp.status resp.body start)
  else pure resp.body

def listLoop (start : String) : ℕ → Option String → List String → BlobCall S (Option (List String))
  | 0, _, _ => pure none
  | pages + 1, continuationToken, allKeys => do
      let body ← store.requestPage start continuationToken
      let page ← Fallible.ofExcept (parseListObjectsV2Page store.reader body)
      match page.next with
      -- A truncated page without a token stops the loop as a complete one does.
      | none => pure (some (allKeys ++ page.keys))
      | some next => listLoop start pages (some next) (allKeys ++ page.keys)

def list (start : String) (pages : ℕ) : BlobCall S (Option (List String)) :=
  store.listLoop start pages none []

def textsIn (name : String) (body : Bytes) : List String :=
  texts name (tagged "" ((readable (store.reader body)).getD []))

def keysIn (body : Bytes) : List String := store.textsIn "Key" body

def SaysComplete (body : Bytes) : Prop :=
  ∃ text, (store.textsIn "IsTruncated" body).getLast? = some text ∧ eqIgnoreAsciiCase text "false"

def SaysTruncated (body : Bytes) : Prop :=
  ∃ text, (store.textsIn "IsTruncated" body).getLast? = some text ∧ eqIgnoreAsciiCase text "true"

def tokenIn (body : Bytes) : Option String := (store.textsIn "NextContinuationToken" body).getLast?

/-- **A page that says whether there is more**, and where. -/
def Telling (body : Bytes) : Prop :=
  store.SaysComplete body ∨ (store.SaysTruncated body ∧ (store.tokenIn body).isSome)

def Readable (body : Bytes) : Prop := (readable (store.reader body)).isSome

/-- **What the endpoint answers**, to requests each with the token that the page before names. -/
inductive Answers (start : String) : Option String → S → List Bytes → Prop where
  | one {token : Option String} {s s' : S} {body : Bytes}
      (asked : (store.requestPage start token).exec s = (.ok body, s')) : Answers start token s [body]
  | more {token : Option String} {s s' : S} {body : Bytes} {next : String} {bodies : List Bytes}
      (asked : (store.requestPage start token).exec s = (.ok body, s'))
      (named : store.tokenIn body = some next) (rest : Answers start (some next) s' bodies) :
      Answers start token s (body :: bodies)

/-- **The pages that a listing asks for until it stops**, from a token and a state of the world. -/
inductive Consumes (start : String) : Option String → S → List Bytes → Prop where
  | last {token : Option String} {s s' : S} {body : Bytes} {page : ListPage}
      (asked : (store.requestPage start token).exec s = (.ok body, s'))
      (parsed : parseListObjectsV2Page store.reader body = .ok page) (stops : page.next = none) :
      Consumes start token s [body]
  | more {token : Option String} {s s' : S} {body : Bytes} {page : ListPage} {next : String}
      {bodies : List Bytes} (asked : (store.requestPage start token).exec s = (.ok body, s'))
      (parsed : parseListObjectsV2Page store.reader body = .ok page) (goes : page.next = some next)
      (rest : Consumes start (some next) s' bodies) : Consumes start token s (body :: bodies)

end S3BlobStore

section

variable {S : Type} {store : S3BlobStore S} {start : String} {page : ListPage}

variable {body : Bytes}

theorem parsed_fields (parsed : parseListObjectsV2Page store.reader body = .ok page) :
    page.keys = store.keysIn body ∧
      page.isTruncated = (store.textsIn "IsTruncated" body).getLast?.elim false (eqIgnoreAsciiCase · "true") ∧
      page.nextContinuationToken = (store.textsIn "NextContinuationToken" body).getLast? := by
  obtain ⟨stream, read, rfl⟩ := parseListObjectsV2Page_eq_ok_iff.mp parsed
  unfold S3BlobStore.keysIn S3BlobStore.textsIn
  rw [read, Option.getD_some, keys_pageOf, isTruncated_pageOf, token_pageOf, List.nil_append, Option.or_none]
  exact ⟨rfl, rfl, rfl⟩

theorem goes_on {next : String} (parsed : parseListObjectsV2Page store.reader body = .ok page)
    (goes : page.next = some next) :
    store.SaysTruncated body ∧ store.tokenIn body = some next := by
  obtain ⟨_, truncated, token⟩ := parsed_fields parsed
  unfold ListPage.next at goes
  split_ifs at goes with said
  rw [said] at truncated
  refine ⟨?_, token.symm.trans goes⟩
  cases last : (store.textsIn "IsTruncated" body).getLast? with
  | none => simp [last] at truncated
  | some text =>
    rw [last] at truncated
    exact ⟨text, last, truncated.symm⟩

theorem goes_of_truncated {next : String} (parsed : parseListObjectsV2Page store.reader body = .ok page)
    (said : store.SaysTruncated body) (named : store.tokenIn body = some next) : page.next = some next := by
  obtain ⟨_, truncated, token⟩ := parsed_fields parsed
  obtain ⟨text, last, said⟩ := said
  rw [last, Option.elim_some, said] at truncated
  rw [ListPage.next, if_pos truncated, token]
  exact named

theorem telling_of_goes {next : String} (parsed : parseListObjectsV2Page store.reader body = .ok page)
    (goes : page.next = some next) :
    store.Telling body :=
  .inr ⟨(goes_on parsed goes).1, Option.isSome_of_eq_some (goes_on parsed goes).2⟩

theorem complete_of_stops (parsed : parseListObjectsV2Page store.reader body = .ok page)
    (stops : page.next = none) (telling : store.Telling body) : store.SaysComplete body := by
  rcases telling with complete | ⟨truncated, has⟩
  · exact complete
  · obtain ⟨next, named⟩ := Option.isSome_iff_exists.mp has
    rw [goes_of_truncated parsed truncated named] at stops
    cases stops

theorem parsed_of_readable (readable : store.Readable body) :
    ∃ page, parseListObjectsV2Page store.reader body = .ok page := by
  obtain ⟨stream, read⟩ := Option.isSome_iff_exists.mp readable
  exact ⟨_, parseListObjectsV2Page_eq_ok_iff.mpr ⟨stream, read, rfl⟩⟩

theorem readable_of_parsed (parsed : parseListObjectsV2Page store.reader body = .ok page) :
    store.Readable body := by
  obtain ⟨stream, read, _⟩ := parseListObjectsV2Page_eq_ok_iff.mp parsed
  exact Option.isSome_of_eq_some read

variable {token : Option String} {bodies : List Bytes}

theorem consumes_unique {s : S} {bodies' : List Bytes} (first : store.Consumes start token s bodies)
    (second : store.Consumes start token s bodies') :
    bodies = bodies' := by
  induction first generalizing bodies' with
  | last asked parsed stops =>
    cases second with
    | last asked' parsed' stops' =>
      rw [asked] at asked'
      cases asked'
      rfl
    | more asked' parsed' goes' rest' =>
      rw [asked] at asked'
      cases asked'
      rw [parsed] at parsed'
      cases parsed'
      simp [stops] at goes'
  | more asked parsed goes rest ih =>
    cases second with
    | last asked' parsed' stops' =>
      rw [asked] at asked'
      cases asked'
      rw [parsed] at parsed'
      cases parsed'
      simp [goes] at stops'
    | more asked' parsed' goes' rest' =>
      rw [asked] at asked'
      cases asked'
      rw [parsed] at parsed'
      cases parsed'
      rw [goes] at goes'
      cases goes'
      rw [ih rest']

theorem exec_listLoop_iff (pages : ℕ) (token : Option String) (allKeys keys : List String) (s : S) :
    (∃ s', (store.listLoop start pages token allKeys).exec s = (.ok (some keys), s')) ↔
      ∃ bodies, store.Consumes start token s bodies ∧ bodies.length ≤ pages ∧
        keys = allKeys ++ bodies.flatMap store.keysIn := by
  induction pages generalizing token allKeys s with
  | zero =>
    refine iff_of_false ?_ ?_
    · rintro ⟨s', returns⟩
      cases returns
    · rintro ⟨bodies, consumes, few, _⟩
      cases consumes <;> simp at few
  | succ pages ih =>
    rw [S3BlobStore.listLoop]
    constructor
    · rintro ⟨s'', returns⟩
      obtain ⟨body, s', asked, rest⟩ := Fallible.exec_bind_eq_ok.mp returns
      obtain ⟨page, s₁, read, rest⟩ := Fallible.exec_bind_eq_ok.mp rest
      obtain ⟨parsed, rfl⟩ := Prod.mk.inj read
      have fields := parsed_fields parsed
      cases goes : page.next with
      | none =>
        rw [goes] at rest
        cases rest
        refine ⟨[body], .last asked parsed goes, by simp, ?_⟩
        rw [List.flatMap_cons, List.flatMap_nil, List.append_nil, fields.1]
      | some next =>
        rw [goes] at rest
        obtain ⟨bodies, consumes, few, same⟩ := (ih (some next) (allKeys ++ page.keys) s').mp ⟨s'', rest⟩
        refine ⟨body :: bodies, .more asked parsed goes consumes, Nat.succ_le_succ few, ?_⟩
        rw [same, List.flatMap_cons, ← fields.1, List.append_assoc]
    · rintro ⟨bodies, consumes, few, rfl⟩
      cases consumes with
      | @last _ _ s' body page asked parsed stops =>
        refine ⟨s', ?_⟩
        have read : (Fallible.ofExcept (parseListObjectsV2Page store.reader body) :
            BlobCall S ListPage).exec s' = (.ok page, s') := by
          rw [parsed, Fallible.exec_ofExcept]
        rw [Fallible.exec_bind_ok asked, Fallible.exec_bind_ok read, stops, List.flatMap_cons,
          List.flatMap_nil, List.append_nil, (parsed_fields parsed).1]
        rfl
      | @more _ _ s' body page next bodies asked parsed goes rest =>
        have read : (Fallible.ofExcept (parseListObjectsV2Page store.reader body) :
            BlobCall S ListPage).exec s' = (.ok page, s') := by
          rw [parsed, Fallible.exec_ofExcept]
        have same : allKeys ++ (body :: bodies).flatMap store.keysIn =
            allKeys ++ page.keys ++ bodies.flatMap store.keysIn := by
          rw [List.flatMap_cons, (parsed_fields parsed).1, List.append_assoc]
        obtain ⟨s'', returns⟩ := (ih (some next) (allKeys ++ page.keys) s').mpr
          ⟨bodies, rest, Nat.le_of_succ_le_succ few, same⟩
        refine ⟨s'', ?_⟩
        rw [Fallible.exec_bind_ok asked, Fallible.exec_bind_ok read, goes]
        exact returns

theorem last_complete {s : S} (consumes : store.Consumes start token s bodies)
    (telling : ∀ body ∈ bodies, store.Telling body) :
    ∃ last, bodies.getLast? = some last ∧ store.SaysComplete last := by
  induction consumes with
  | @last _ _ _ body _ asked parsed stops =>
    exact ⟨body, rfl, complete_of_stops parsed stops (telling body List.mem_cons_self)⟩
  | @more _ _ _ body _ _ bodies asked parsed goes rest ih =>
    obtain ⟨last, final, complete⟩ :=
      ih fun body' member => telling body' (List.mem_cons_of_mem body member)
    exact ⟨last, by rw [List.getLast?_cons, final, Option.getD_some], complete⟩

theorem telling_of_last {s : S} {last : Bytes} (consumes : store.Consumes start token s bodies)
    (final : bodies.getLast? = some last) (complete : store.SaysComplete last) :
    ∀ body ∈ bodies, store.Telling body := by
  induction consumes with
  | @last _ _ _ body _ asked parsed stops =>
    cases final
    intro body' member
    rw [List.mem_singleton.mp member]
    exact .inl complete
  | @more _ _ _ body _ _ bodies asked parsed goes rest ih =>
    have final' : bodies.getLast? = some last := by
      obtain ⟨newest, found⟩ : ∃ newest, bodies.getLast? = some newest := by
        cases rest <;> exact ⟨_, List.getLast?_cons⟩
      rw [List.getLast?_cons, found, Option.getD_some] at final
      rw [found, final]
    intro body' member
    rcases List.mem_cons.mp member with rfl | later
    · exact telling_of_goes parsed goes
    · exact ih final' body' later

theorem telling_or_consumes {s : S} (answers : store.Answers start token s bodies)
    (readable : ∀ body ∈ bodies, store.Readable body)
    (truncated : ∀ body ∈ bodies.dropLast, store.SaysTruncated body) :
    (∀ body ∈ bodies, store.Telling body) ∨ store.Consumes start token s bodies := by
  induction answers with
  | @one _ _ _ body asked =>
    obtain ⟨page, parsed⟩ := parsed_of_readable (readable body List.mem_cons_self)
    cases goes : page.next with
    | none => exact .inr (.last asked parsed goes)
    | some next => exact .inl (List.forall_mem_singleton.mpr (telling_of_goes parsed goes))
  | @more _ _ _ body next bodies asked named rest ih =>
    obtain ⟨page, parsed⟩ := parsed_of_readable (readable body List.mem_cons_self)
    have nonempty : bodies ≠ [] := by cases rest <;> exact List.cons_ne_nil _ _
    rw [List.dropLast_cons_of_ne_nil nonempty, List.forall_mem_cons] at truncated
    have goes := goes_of_truncated parsed truncated.1 named
    rcases ih (List.forall_mem_cons.mp readable).2 truncated.2 with telling | consumes
    · exact .inl (List.forall_mem_cons.mpr ⟨telling_of_goes parsed goes, telling⟩)
    · exact .inr (.more asked parsed goes consumes)

theorem answers_of_consumes {s : S} (consumes : store.Consumes start token s bodies) :
    store.Answers start token s bodies ∧ (∀ body ∈ bodies, store.Readable body) ∧
      ∀ body ∈ bodies.dropLast, store.SaysTruncated body := by
  induction consumes with
  | last asked parsed stops =>
    exact ⟨.one asked, List.forall_mem_singleton.mpr (readable_of_parsed parsed), nofun⟩
  | more asked parsed goes rest ih =>
    obtain ⟨answers, readable, truncated⟩ := ih
    obtain ⟨said, named⟩ := goes_on parsed goes
    refine ⟨.more asked named answers, List.forall_mem_cons.mpr ⟨readable_of_parsed parsed, readable⟩, ?_⟩
    rw [List.dropLast_cons_of_ne_nil (by cases rest <;> exact List.cons_ne_nil _ _)]
    exact List.forall_mem_cons.mpr ⟨said, truncated⟩

/-- **No silent truncation**: whatever the endpoint answers, a listing that returns has consumed pages of
which the last said that the listing is not truncated, and returns their keys in order, exactly if the
endpoint's readable pages, up to the first that does not say it is truncated, say whether there is more, and
where. -/
theorem list_complete_iff (store : S3BlobStore S) (start : String) (pages : ℕ) (s : S) :
    (∀ keys s', (store.list start pages).exec s = (.ok (some keys), s') →
      ∃ bodies last, store.Consumes start none s bodies ∧ bodies.getLast? = some last ∧
        store.SaysComplete last ∧ keys = bodies.flatMap store.keysIn) ↔
    ∀ bodies, store.Answers start none s bodies → bodies.length ≤ pages →
      (∀ body ∈ bodies, store.Readable body) → (∀ body ∈ bodies.dropLast, store.SaysTruncated body) →
        ∀ body ∈ bodies, store.Telling body := by
  constructor
  · intro safe bodies answers few readable truncated
    rcases telling_or_consumes answers readable truncated with telling | consumes
    · exact telling
    obtain ⟨s', returns⟩ := (exec_listLoop_iff pages none [] _ s).mpr ⟨bodies, consumes, few, rfl⟩
    obtain ⟨bodies', last, consumes', final, complete, _⟩ := safe _ s' returns
    rw [consumes_unique consumes consumes']
    exact telling_of_last consumes' final complete
  · intro telling keys s' returns
    obtain ⟨bodies, consumes, few, same⟩ := (exec_listLoop_iff pages none [] keys s).mp ⟨s', returns⟩
    obtain ⟨answers, readable, truncated⟩ := answers_of_consumes consumes
    obtain ⟨last, final, complete⟩ :=
      last_complete consumes (telling bodies answers few readable truncated)
    exact ⟨bodies, last, consumes, final, complete, same⟩

end

/-! ### A page that breaks off -/

def brokenPage : Forest :=
  .node "ListBucketResult" (.text "IsTruncated" "true" (.node "Contents" (.text "Key" "a" .nil) .nil)) .nil

def brokenPageText : String :=
  "<ListBucketResult><IsTruncated>true</IsTruncated><Contents><Key>a</Key></Contents></ListBucketResult>"

def brokenPageReader : XmlReader := fun bytes =>
  if bytes = asBytes brokenPageText then brokenPage.events.map .ok else [.error "unexpected document"]

def brokenEndpoint : S3BlobStore Unit where
  config := ⟨"http://localhost:9000", "b", true, ⟨3, 100, 5000⟩⟩
  client := {
    Request := Unit
    request := fun _ _ => .ok ()
    header := fun _ _ _ => .ok ()
    bearerToken := fun _ _ => .ok ()
    withBody := fun _ _ => ()
    send := fun _ _ => (.ok ⟨200, [], .ok (asBytes brokenPageText)⟩, ()) }
  parseUrl := fun _ => .ok ⟨"http", some "localhost", some 9000⟩
  signRequest := fun _ _ _ _ => pure [("authorization", "AWS4-HMAC-SHA256")]
  sleep := fun _ _ => ()
  reader := brokenPageReader
  debugText := id
  ioText := fun _ => ""

theorem list_returns_truncated :
    (brokenEndpoint.list "" 2).exec () = (.ok (some ["a"]), ()) ∧
      brokenEndpoint.Consumes "" none () [asBytes brokenPageText] ∧
      brokenEndpoint.SaysTruncated (asBytes brokenPageText) ∧
      ¬ brokenEndpoint.SaysComplete (asBytes brokenPageText) := by
  have asked : (brokenEndpoint.requestPage "" none).exec () = (.ok (asBytes brokenPageText), ()) := rfl
  have reads : brokenPageReader (asBytes brokenPageText) = brokenPage.events.map .ok := if_pos rfl
  have read : readable (brokenPageReader (asBytes brokenPageText)) = some brokenPage.events := by
    rw [reads, brokenPage.readable_events]
  have parsed := parseListObjectsV2Page_eq_ok_iff.mpr ⟨brokenPage.events, read, rfl⟩
  have consumes : brokenEndpoint.Consumes "" none () [asBytes brokenPageText] := .last asked parsed rfl
  have said : brokenEndpoint.textsIn "IsTruncated" (asBytes brokenPageText) = ["true"] := by
    show texts "IsTruncated" (tagged "" ((readable (brokenPageReader (asBytes brokenPageText))).getD [])) = _
    rw [read]
    rfl
  have keys : brokenEndpoint.keysIn (asBytes brokenPageText) = ["a"] := by
    show texts "Key" (tagged "" ((readable (brokenPageReader (asBytes brokenPageText))).getD [])) = _
    rw [read]
    rfl
  have returned : ["a"] = [] ++ [asBytes brokenPageText].flatMap brokenEndpoint.keysIn := by
    rw [List.flatMap_cons, keys]
    rfl
  refine ⟨?_, consumes, ⟨"true", by rw [said]; rfl, rfl⟩, ?_⟩
  · obtain ⟨_, returns⟩ := (exec_listLoop_iff 2 none [] ["a"] ()).mpr ⟨_, consumes, by simp, returned⟩
    exact returns
  · rintro ⟨text, last, complete⟩
    rw [said] at last
    cases last
    exact absurd complete (by decide)

end S3

end OxiStore
