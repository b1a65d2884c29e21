/-
**What the remote stores share.**
-/

import OxiStore.Blob.Store

namespace OxiStore.Cloud

open ByteString

/-! ### The client -/

inductive HttpMethod where
  | get
  | put
  | post
  | delete
  | head
  | patch
deriving DecidableEq

def HttpMethod.text : HttpMethod → String
  | .get => "GET"
  | .put => "PUT"
  | .post => "POST"
  | .delete => "DELETE"
  | .head => "HEAD"
  | .patch => "PATCH"

structure HttpResponse where
  status : UInt16
  headers : List (String × Option String)
  body : Except String Bytes

/-- **What the stores use of `oxihttp-client`**: errors are their texts. -/
structure HttpClient (S : Type) where
  Request : Type
  request : HttpMethod → String → Except String Request
  header : String → String → Request → Except String Request
  bearerToken : String → Request → Except String Request
  withBody : Bytes → Request → Request
  send : Request → S → Except String HttpResponse × S

def describe {α : Type} (text : String) (result : Except String α) : Except BlobError α :=
  result.mapError fun error => .other (text ++ error)

def HttpClient.sent {S : Type} (client : HttpClient S) (text : String) (request : client.Request) :
    BlobCall S HttpResponse :=
  .atomic fun s => (describe text (client.send request s).1, (client.send request s).2)

/-! ### Texts -/

def trimEndMatches (last : Char) (text : String) : String :=
  String.ofList (text.toList.reverse.dropWhile (· = last)).reverse

def asBytes (text : String) : Bytes := text.toUTF8.data.toList

def unreserved (byte : UInt8) : Bool :=
  (65 ≤ byte && byte ≤ 90) || (97 ≤ byte && byte ≤ 122) || (48 ≤ byte && byte ≤ 57) || byte = 45 ||
    byte = 95 || byte = 46 || byte = 126

def replacement : Char := Char.ofNat 0xFFFD

structure Begun where
  bits : ℕ
  ahead : List (ℕ × ℕ)

def beginChar (byte : ℕ) : List Char × Option Begun :=
  if byte < 0x80 then ([Char.ofNat byte], none)
  else if byte < 0xC2 then ([replacement], none)
  else if byte < 0xE0 then ([], some ⟨byte - 0xC0, [(0x80, 0xBF)]⟩)
  else if byte < 0xF0 then
    ([], some ⟨byte - 0xE0,
      [(if byte = 0xE0 then 0xA0 else 0x80, if byte = 0xED then 0x9F else 0xBF), (0x80, 0xBF)]⟩)
  else if byte < 0xF5 then
    ([], some ⟨byte - 0xF0,
      [(if byte = 0xF0 then 0x90 else 0x80, if byte = 0xF4 then 0x8F else 0xBF), (0x80, 0xBF), (0x80, 0xBF)]⟩)
  else ([replacement], none)

def lossyFrom : Option Begun → List ℕ → List Char
  | none, [] => []
  | some _, [] => [replacement]
  | none, byte :: bytes => (beginChar byte).1 ++ lossyFrom (beginChar byte).2 bytes
  | some ⟨_, []⟩, byte :: bytes => (beginChar byte).1 ++ lossyFrom (beginChar byte).2 bytes
  | some ⟨bits, (low, high) :: ahead⟩, byte :: bytes =>
      if low ≤ byte ∧ byte ≤ high then
        if ahead = [] then Char.ofNat (bits * 64 + (byte - 0x80)) :: lossyFrom none bytes
        else lossyFrom (some ⟨bits * 64 + (byte - 0x80), ahead⟩) bytes
      else replacement :: ((beginChar byte).1 ++ lossyFrom (beginChar byte).2 bytes)

def fromUtf8Lossy (bytes : Bytes) : String := String.ofList (lossyFrom none (bytes.map UInt8.toNat))

def utf8Error : ℕ → ℕ → Option Begun → List ℕ → Option String
  | _, _, none, [] => none
  | began, _, some _, [] => some ("incomplete utf-8 byte sequence from index " ++ toString began)
  | began, _, none, byte :: bytes =>
      if byte < 0x80 then utf8Error (began + 1) 0 none bytes
      else if (beginChar byte).2.isSome then utf8Error began 1 (beginChar byte).2 bytes
      else some ("invalid utf-8 sequence of 1 bytes from index " ++ toString began)
  | began, _, some ⟨_, []⟩, _ :: _ => some ("incomplete utf-8 byte sequence from index " ++ toString began)
  | began, length, some ⟨bits, (low, high) :: ahead⟩, byte :: bytes =>
      if low ≤ byte ∧ byte ≤ high then
        if ahead = [] then utf8Error (began + length + 1) 0 none bytes
        else utf8Error began (length + 1) (some ⟨bits, ahead⟩) bytes
      else some ("invalid utf-8 sequence of " ++ toString length ++ " bytes from index " ++ toString began)

def fromUtf8 (bytes : Bytes) : Except String String :=
  match utf8Error 0 0 none (bytes.map UInt8.toNat) with
  | none => .ok (fromUtf8Lossy bytes)
  | some error => .error error

end OxiStore.Cloud
