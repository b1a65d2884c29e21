/-
**Presigned URLs of the S3 store.**
-/

import OxiStore.Core.Time
import OxiStore.Lib.Results
import OxiStore.Cloud.S3

namespace OxiStore

open StepProg Cloud Results

namespace S3

/-! ### Signing -/

structure PresignSigner (S : Type) where
  SigningParams : Type
  SignableRequest : Type
  buildParams : Duration → S → Except String SigningParams
  signableRequest : HttpMethod → String → List (String × String) → Except String SignableRequest
  sign : SignableRequest → SigningParams → Except String (List (String × String))

def queryString (params : List (String × String)) : String :=
  "&".intercalate (params.map fun param => param.1 ++ "=" ++ percentEncode param.2)

namespace S3BlobStore

variable {S : Type} (store : S3BlobStore S)

def presignHeaders (key : String) (contentType : Option String) :
    Except BlobError (String × List (String × String)) := do
  let uri ← store.objectUrl key
  let hostHeader ← store.urlHostHeader uri
  pure (uri, ("host", hostHeader) :: contentType.toList.map fun ct => ("content-type", ct))

def presignImpl (signer : PresignSigner S) (method : HttpMethod) (key : String) (ttl : Duration)
    (contentType : Option String) : BlobCall S String := do
  let (uri, headers) ← Fallible.ofExcept (store.presignHeaders key contentType)
  let signingParams ← Fallible.atomic fun s =>
    (describe "presign: sigv4 params build: " (signer.buildParams ttl s), s)
  let signable ← Fallible.ofExcept
    (describe "presign: signable request: " (signer.signableRequest method uri headers))
  let params ← Fallible.ofExcept (describe "presign: signing failed: " (signer.sign signable signingParams))
  pure (if params = [] then uri else uri ++ "?" ++ queryString params)

def presignGet (signer : PresignSigner S) (key : String) (ttl : Duration) : BlobCall S String :=
  store.presignImpl signer .get key ttl none

def presignPut (signer : PresignSigner S) (key : String) (ttl : Duration) (contentType : Option String) :
    BlobCall S String :=
  store.presignImpl signer .put key ttl contentType

def signedHost (key : String) (contentType : Option String) : Option String :=
  (store.presignHeaders key contentType).toOption.bind fun request => request.2.lookup "host"

end S3BlobStore

/-! ### URLs -/

def portSuffix (port : Option UInt16) : String := port.elim "" fun port => ":" ++ toString port.toNat

/-- **The `Host` header of a client that follows a URL**: its host, and its port unless that is the default
of its scheme. -/
def standardHost (url : Url) : Option String := url.hostStr.map fun host => host ++ portSuffix url.port

def Url.IsWeb (url : Url) : Prop := url.scheme = "http" ∨ url.scheme = "https"

def endsAuthority (c : Char) : Bool := c = '/' || c = '\\' || c = '?' || c = '#'

/-- **What the URL Standard says of a parser**, as far as scheme, host and port go. -/
structure ParsesUrls (parseUrl : String → Except String Url) : Prop where
  /-- A slash or a question mark ends the authority, so that what follows it does not matter. -/
  ended : ∀ {text separator rest : String} {url url' : Url}, parseUrl text = .ok url → url.IsWeb →
    separator = "/" ∨ separator = "?" → parseUrl (text ++ separator ++ rest) = .ok url' → url' = url
  /-- A label before a parsed host leaves scheme and port as they are. -/
  labelled : ∀ {text label host rest : String} {url url' : Url}, parseUrl text = .ok url → url.IsWeb →
    url.hostStr = some host → (∀ c ∈ label.toList, ¬ endsAuthority c) →
    parseUrl (url.scheme ++ "://" ++ label ++ "." ++ host ++ portSuffix url.port ++ "/" ++ rest) = .ok url' →
    url'.scheme = url.scheme ∧ url'.port = url.port

section

variable {S : Type} {store : S3BlobStore S}

theorem urlHostHeader_eq_ok {uri header : String} (named : store.urlHostHeader uri = .ok header) :
    ∃ url host, store.parseUrl uri = .ok url ∧ url.hostStr = some host ∧
      header = host ++ portSuffix (some (url.port.getD (if url.scheme = "https" then 443 else 80))) := by
  obtain ⟨⟨scheme, hostStr, port⟩, described, rest⟩ := bind_eq_ok.mp named
  have read := mapError_eq_ok.mp described
  cases hostStr with
  | none => cases rest
  | some host =>
    cases rest
    exact ⟨_, host, read, rfl, String.append_assoc⟩

theorem virtualHost_eq_ok {bucket base : String} {url : Url}
    (located : virtualHost bucket (.ok url) = .ok base) :
    ∃ host, url.hostStr = some host ∧
      base = url.scheme ++ "://" ++ bucket ++ "." ++ host ++ portSuffix url.port := by
  obtain ⟨scheme, hostStr, port⟩ := url
  cases hostStr with
  | none => cases located
  | some host =>
    cases located
    exact ⟨host, rfl, rfl⟩

theorem objectUrl_port (parses : ParsesUrls store.parseUrl) {endpoint url : Url} {key uri : String}
    (parsed : store.parseUrl store.endpoint = .ok endpoint) (web : endpoint.IsWeb)
    (plain : store.config.pathStyle = true ∨ ∀ c ∈ store.config.bucket.toList, ¬ endsAuthority c)
    (located : store.objectUrl key = .ok uri) (read : store.parseUrl uri = .ok url) :
    url.IsWeb ∧ url.port = endpoint.port := by
  obtain ⟨base, found, same⟩ := bind_eq_ok.mp located
  cases same
  unfold S3BlobStore.bucketUrl at found
  by_cases style : store.config.pathStyle = true
  · rw [if_pos style] at found
    cases found
    rw [String.append_assoc, String.append_assoc] at read
    rw [parses.ended parsed web (.inl rfl) read]
    exact ⟨web, rfl⟩
  · rw [if_neg style, parsed] at found
    obtain ⟨host, named, rfl⟩ := virtualHost_eq_ok found
    obtain ⟨scheme, port⟩ := parses.labelled parsed web named (plain.resolve_left style) read
    exact ⟨by rwa [Url.IsWeb, scheme], port⟩

theorem append_portSuffix_inj (host : String) (port : Option UInt16) (standard : UInt16) :
    host ++ portSuffix (some (port.getD standard)) = host ++ portSuffix port ↔ port.isSome := by
  rw [String.append_right_inj]
  cases port with
  | none =>
    refine iff_of_false (fun same => ?_) (by simp)
    have longer := congrArg String.length same
    simp [portSuffix] at longer
  | some port => simp

theorem presignImpl_eq_ok {signer : PresignSigner S} {method : HttpMethod} {key url : String} {ttl : Duration}
    {contentType : Option String} {s s' : S}
    (presigned : (store.presignImpl signer method key ttl contentType).exec s = (.ok url, s')) :
    ∃ uri header, store.objectUrl key = .ok uri ∧ store.urlHostHeader uri = .ok header ∧
      store.signedHost key contentType = some header ∧ (url = uri ∨ ∃ query, url = uri ++ "?" ++ query) := by
  obtain ⟨⟨uri, headers⟩, s₁, signs, rest⟩ := Fallible.exec_bind_eq_ok.mp presigned
  obtain ⟨signingParams, s₂, _, rest⟩ := Fallible.exec_bind_eq_ok.mp rest
  obtain ⟨signable, s₃, _, rest⟩ := Fallible.exec_bind_eq_ok.mp rest
  obtain ⟨params, s₄, _, rest⟩ := Fallible.exec_bind_eq_ok.mp rest
  have returned : (if params = [] then uri else uri ++ "?" ++ queryString params) = url :=
    Except.ok.inj (Prod.mk.inj rest).1
  have signs : store.presignHeaders key contentType = .ok (uri, headers) := (Prod.mk.inj signs).1
  obtain ⟨uri', located, same⟩ := bind_eq_ok.mp signs
  obtain ⟨header, named, same⟩ := bind_eq_ok.mp same
  cases same
  refine ⟨uri, header, located, named, ?_, ?_⟩
  · rw [S3BlobStore.signedHost, signs]
    rfl
  · split_ifs at returned
    · exact .inl returned.symm
    · exact .inr ⟨_, returned.symm⟩

end

/-- **The host of a presigned URL**: for every web endpoint, in both styles, and for every key, method,
content type and lifetime, the host that is signed is the one a client derives from the URL that is returned
exactly if the endpoint names a port that is not the default of its scheme. -/
theorem presign_host_iff {S : Type} (store : S3BlobStore S) (signer : PresignSigner S)
    (parses : ParsesUrls store.parseUrl) {method : HttpMethod} {key url : String} {ttl : Duration}
    {contentType : Option String} {s s' : S} {endpoint target : Url}
    (parsed : store.parseUrl store.endpoint = .ok endpoint) (web : endpoint.IsWeb)
    (plain : store.config.pathStyle = true ∨ ∀ c ∈ store.config.bucket.toList, ¬ endsAuthority c)
    (presigned : (store.presignImpl signer method key ttl contentType).exec s = (.ok url, s'))
    (followed : store.parseUrl url = .ok target) :
    store.signedHost key contentType = standardHost target ↔ endpoint.port.isSome := by
  obtain ⟨uri, header, located, named, signed, shape⟩ := presignImpl_eq_ok presigned
  obtain ⟨object, host, read, hosted, rfl⟩ := urlHostHeader_eq_ok named
  obtain ⟨object_web, port⟩ := objectUrl_port parses parsed web plain located read
  have same : target = object := by
    rcases shape with rfl | ⟨query, rfl⟩
    · rw [read] at followed
      exact (Except.ok.inj followed).symm
    · exact parses.ended read object_web (.inr rfl) followed
  rw [signed, same, standardHost, hosted, Option.map_some, Option.some_inj, append_portSuffix_inj, port]

def storeAt (address : String) (url : Url) : S3BlobStore Unit where
  config := ⟨address, "b", true, ⟨3, 100, 5000⟩⟩
  client := {
    Request := Unit
    request := fun _ _ => .ok ()
    header := fun _ _ _ => .ok ()
    bearerToken := fun _ _ => .ok ()
    withBody := fun _ _ => ()
    send := fun _ _ => (.error "connection refused", ()) }
  parseUrl := fun _ => .ok url
  signRequest := fun _ _ _ _ => pure []
  sleep := fun _ _ => ()
  reader := fun _ => []
  debugText := id
  ioText := fun _ => ""

def zeroSigner : PresignSigner Unit where
  SigningParams := Unit
  SignableRequest := Unit
  buildParams := fun _ _ => .ok ()
  signableRequest := fun _ _ _ => .ok ()
  sign := fun _ _ => .ok [("X-Amz-Signature", "0")]

def presignedAt (address : String) : String :=
  trimEndMatches '/' address ++ "/" ++ "b" ++ "/" ++ percentEncode "k" ++ "?" ++
    queryString [("X-Amz-Signature", "0")]

theorem storeAt_parses (address : String) (url : Url) : ParsesUrls (storeAt address url).parseUrl := by
  have only {text : String} {url' : Url} (parsed : (storeAt address url).parseUrl text = .ok url') :
      url' = url := (Except.ok.inj parsed).symm
  constructor
  · intro text separator rest first second parsed _ _ parsed'
    rw [only parsed, only parsed']
  · intro text label host rest first second parsed _ _ _ parsed'
    rw [only parsed, only parsed']
    exact ⟨rfl, rfl⟩

theorem storeAt_presigns (address scheme host : String) (port : Option UInt16) :
    ((storeAt address ⟨scheme, some host, port⟩).presignGet zeroSigner "k" (.fromMillis 60000)).exec () =
      (.ok (presignedAt address), ()) := rfl

theorem presign_host_localhost :
    (storeAt "http://localhost:9000" ⟨"http", some "localhost", some 9000⟩).signedHost "k" none =
      standardHost ⟨"http", some "localhost", some 9000⟩ :=
  (presign_host_iff _ zeroSigner (storeAt_parses _ _) rfl (.inl rfl) (.inl rfl)
    (storeAt_presigns _ _ _ _) rfl).mpr rfl

def secureStore : S3BlobStore Unit :=
  storeAt "https://s3.example.com" ⟨"https", some "s3.example.com", none⟩

theorem presign_host_default_port :
    (secureStore.presignGet zeroSigner "k" (.fromMillis 60000)).exec () =
        (.ok (presignedAt "https://s3.example.com"), ()) ∧
      secureStore.signedHost "k" none = some "s3.example.com:443" ∧
      (secureStore.parseUrl (presignedAt "https://s3.example.com")).toOption.bind standardHost =
        some "s3.example.com" :=
  ⟨storeAt_presigns _ _ _ _, by decide +kernel, by decide +kernel⟩

end S3

end OxiStore
