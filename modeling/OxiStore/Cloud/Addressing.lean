/-
**The URLs of objects.**
-/

import OxiStore.Cloud.S3
import OxiStore.Cloud.Gcs

namespace OxiStore.Addressing

open ByteString Cloud Function

/-! ### The Azure store's encoder -/

def Azure.hexNibble (n : UInt8) : Char :=
  if n < 10 then Char.ofNat (48 + n).toNat else Char.ofNat (65 + n - 10).toNat

def Azure.percentEncode (s : String) : String :=
  (asBytes s).foldl (fun out byte =>
    if unreserved byte || byte = 47 then out.push (Char.ofNat byte.toNat)
    else ((out.push '%').push (hexNibble (byte >>> 4))).push (hexNibble (byte &&& 0x0f))) ""

/-! ### The URLs -/

structure AzureConfig where
  accountName : String
  container : String
  endpoint : Option String

def AzureConfig.baseUrl (config : AzureConfig) : String :=
  config.endpoint.getD ("https://" ++ config.accountName ++ ".blob.core.windows.net")

def AzureConfig.blobUrl (config : AzureConfig) (key : String) : String :=
  config.baseUrl ++ "/" ++ config.container ++ "/" ++ Azure.percentEncode key

section

variable {S : Type} (store : OxiStore.Gcs.GcsBlobStore S)

def Gcs.objectUrl (key : String) (altMedia : Bool) : String :=
  trimEndMatches '/' store.storageEndpoint ++ "/storage/v1/b/" ++ store.bucket ++ "/o/" ++
    (Gcs.gcsPercentEncode key ++ if altMedia then "?alt=media" else "")

def Gcs.uploadUrl (key : String) : String :=
  trimEndMatches '/' store.storageEndpoint ++ "/upload/storage/v1/b/" ++ store.bucket ++
    "/o?uploadType=media&name=" ++ Gcs.gcsPercentEncode key

end

/-! ### Decoding -/

def hexValue (digit : Char) : Option ℕ :=
  if '0' ≤ digit ∧ digit ≤ '9' then some (digit.toNat - 48)
  else if 'A' ≤ digit ∧ digit ≤ 'F' then some (digit.toNat - 55)
  else if 'a' ≤ digit ∧ digit ≤ 'f' then some (digit.toNat - 87)
  else none

def triplet (high low : Char) : Option UInt8 := do
  let first ← hexValue high
  let second ← hexValue low
  pure (UInt8.ofNat (16 * first + second))

def percentDecode : List Char → Bytes
  | [] => []
  | char :: high :: low :: rest =>
      match if char = '%' then triplet high low else none with
      | some byte => byte :: percentDecode rest
      | none => String.utf8EncodeChar char ++ percentDecode (high :: low :: rest)
  | char :: rest => String.utf8EncodeChar char ++ percentDecode rest

def plain (slashes : Bool) (char : Char) : Bool :=
  char.isAlphanum || char = '-' || char = '_' || char = '.' || char = '~' || (slashes && char = '/')

inductive Escaped (slashes : Bool) : List Char → Prop where
  | nil : Escaped slashes []
  | plain {char : Char} {rest : List Char} (here : plain slashes char) (tail : Escaped slashes rest) :
      Escaped slashes (char :: rest)
  | triplet {high low : Char} {rest : List Char} (here : (triplet high low).isSome)
      (tail : Escaped slashes rest) : Escaped slashes ('%' :: high :: low :: rest)

def separators : List Char := ['?', '#', '&', '=', ';', '+']

/-- **A good encoder**: it can be decoded, and writes no separator. -/
structure Addresses (slashes : Bool) (encode : String → String) : Prop where
  decodes : ∀ key, percentDecode (encode key).toList = asBytes key
  escaped : ∀ key, Escaped slashes (encode key).toList
  separates : ∀ key, ∀ char ∈ (encode key).toList, char ∉ separators

/-! ### One byte -/

def escape (slashes : Bool) (byte : UInt8) : List Char :=
  if unreserved byte || (slashes && byte = 47) then [Char.ofNat byte.toNat]
  else ['%', Azure.hexNibble (byte >>> 4), Azure.hexNibble (byte &&& 0x0f)]

theorem escape_plain : ∀ slashes byte, (unreserved byte || (slashes && decide (byte = 47))) = true →
    plain slashes (Char.ofNat byte.toNat) ∧ Char.ofNat byte.toNat ≠ '%' ∧
      String.utf8EncodeChar (Char.ofNat byte.toNat) = [byte] := by
  decide +kernel

theorem triplet_digits : ∀ byte : UInt8,
    triplet (Azure.hexNibble (byte >>> 4)) (Azure.hexNibble (byte &&& 0x0f)) = some byte := by
  decide +kernel

theorem percentDecode_char {char : Char} (other : char ≠ '%') (rest : List Char) :
    percentDecode (char :: rest) = String.utf8EncodeChar char ++ percentDecode rest := by
  cases rest with
  | nil => rfl
  | cons high rest =>
    cases rest with
    | nil => rfl
    | cons low rest => rw [percentDecode, if_neg other]

theorem percentDecode_escape (slashes : Bool) (byte : UInt8) (rest : List Char) :
    percentDecode (escape slashes byte ++ rest) = byte :: percentDecode rest := by
  unfold escape
  split_ifs with kept
  · obtain ⟨_, other, bytes⟩ := escape_plain slashes byte kept
    rw [List.singleton_append, percentDecode_char other, bytes, List.singleton_append]
  · show percentDecode ('%' :: Azure.hexNibble (byte >>> 4) :: Azure.hexNibble (byte &&& 0x0f) :: rest) = _
    rw [percentDecode, if_pos rfl, triplet_digits]

theorem Escaped.escape {slashes : Bool} {rest : List Char} (tail : Escaped slashes rest) (byte : UInt8) :
    Escaped slashes (escape slashes byte ++ rest) := by
  unfold Addressing.escape
  split_ifs with kept
  · exact .plain (escape_plain slashes byte kept).1 tail
  · exact .triplet (Option.isSome_of_eq_some (triplet_digits byte)) tail

/-! ### Whole keys -/

theorem asBytes_injective : Injective asBytes := fun _ _ same =>
  String.toByteArray_inj.mp (ByteArray.ext (Array.toList_inj.mp same))

theorem addresses_of_escape {slashes : Bool} {encode : String → String}
    (encodes : ∀ key, (encode key).toList = (asBytes key).flatMap (escape slashes)) :
    Addresses slashes encode := by
  refine ⟨fun key => ?_, fun key => ?_, fun key char written => ?_⟩
  · rw [encodes]
    induction asBytes key with
    | nil => rfl
    | cons byte bytes ih => rw [List.flatMap_cons, percentDecode_escape, ih]
  · rw [encodes]
    induction asBytes key with
    | nil => exact .nil
    | cons byte bytes ih => exact ih.escape byte
  · have apart : ∀ slashes byte, (escape slashes byte).all fun char => !separators.contains char := by
      decide +kernel
    rw [encodes] at written
    obtain ⟨byte, _, here⟩ := List.mem_flatMap.mp written
    simpa using List.all_eq_true.mp (apart slashes byte) char here

theorem Addresses.injective {slashes : Bool} {encode : String → String}
    (addresses : Addresses slashes encode) : Injective encode := by
  intro first second same
  apply asBytes_injective
  rw [← addresses.decodes, same, addresses.decodes]

theorem foldl_pushes {add : String → UInt8 → String} {code : UInt8 → List Char}
    (adds : ∀ out byte, (add out byte).toList = out.toList ++ code byte) (bytes : Bytes) (out : String) :
    (bytes.foldl add out).toList = out.toList ++ bytes.flatMap code := by
  induction bytes generalizing out with
  | nil => exact (List.append_nil _).symm
  | cons byte bytes ih => rw [List.foldl_cons, ih, adds, List.append_assoc, List.flatMap_cons]

theorem S3.percentEncode_escapes (key : String) :
    (S3.percentEncode key).toList = (asBytes key).flatMap (escape true) := by
  have code : ∀ b : UInt8, (if unreserved b || b = 47 then [Char.ofNat b.toNat]
      else '%' :: List.leftpad 2 '0' ((Nat.toDigits 16 b.toNat).map Char.toUpper)) = escape true b := by
    decide +kernel
  unfold S3.percentEncode
  rw [String.toList_ofList, funext code]

theorem Azure.percentEncode_escapes (key : String) :
    (Azure.percentEncode key).toList = (asBytes key).flatMap (escape true) := by
  refine foldl_pushes (fun out byte => ?_) (asBytes key) ""
  unfold escape
  rw [Bool.true_and]
  split_ifs
  · exact String.toList_push _
  · simp

theorem Gcs.gcsPercentEncode_escapes (key : String) :
    (Gcs.gcsPercentEncode key).toList = (asBytes key).flatMap (escape false) := by
  have digits : ∀ b : UInt8,
      ((Gcs.fromDigit (b >>> 4).toNat 16).getD '0').toUpper = Azure.hexNibble (b >>> 4) ∧
      ((Gcs.fromDigit (b &&& 0xf).toNat 16).getD '0').toUpper = Azure.hexNibble (b &&& 0x0f) := by
    decide +kernel
  refine foldl_pushes (fun out b => ?_) (asBytes key) ""
  unfold escape
  rw [Bool.false_and, Bool.or_false, (digits b).1, (digits b).2]
  split_ifs
  · exact String.toList_push _
  · simp

/-- **Objects have addresses of their own**, in all three stores. -/
theorem object_addressing :
    Addresses true S3.percentEncode ∧ Addresses true Azure.percentEncode ∧
    Addresses false Gcs.gcsPercentEncode ∧
    Azure.percentEncode = S3.percentEncode ∧
    (∀ key, (Gcs.gcsPercentEncode key).toList = (S3.percentEncode key).toList.flatMap fun char =>
      if char = '/' then ['%', '2', 'F'] else [char]) ∧
    (∀ (S : Type) (store : OxiStore.S3.S3BlobStore S),
      (∃ error, store.bucketUrl = .error error) ∨ Injective store.objectUrl) ∧
    (∀ config : AzureConfig, Injective config.blobUrl) ∧
    (∀ (S : Type) (store : OxiStore.Gcs.GcsBlobStore S),
      Injective2 (Gcs.objectUrl store) ∧ Injective (Gcs.uploadUrl store)) := by
  have s3 := addresses_of_escape S3.percentEncode_escapes
  have azure := addresses_of_escape Azure.percentEncode_escapes
  have gcs := addresses_of_escape Gcs.gcsPercentEncode_escapes
  refine ⟨s3, azure, gcs, funext fun key => ?_, fun key => ?_, fun S store => ?_,
    fun config key key' same => ?_,
    fun S store => ⟨fun key key' alt alt' same => ?_, fun key key' same => ?_⟩⟩
  · apply String.toList_injective
    rw [Azure.percentEncode_escapes, S3.percentEncode_escapes]
  · have slash : ∀ byte : UInt8, ((escape true byte).flatMap fun char =>
        if char = '/' then ['%', '2', 'F'] else [char]) = escape false byte := by
      decide +kernel
    rw [Gcs.gcsPercentEncode_escapes, S3.percentEncode_escapes, List.flatMap_assoc, funext slash]
  · cases based : store.bucketUrl with
    | error error => exact .inl ⟨error, rfl⟩
    | ok base =>
      refine .inr fun key key' same => s3.injective ?_
      have urls : ∀ key, store.objectUrl key = .ok (base ++ "/" ++ S3.percentEncode key) := fun key => by
        unfold OxiStore.S3.S3BlobStore.objectUrl
        rw [based]
        rfl
      rw [urls, urls] at same
      exact (String.append_right_inj _).mp (Except.ok.inj same)
  · exact azure.injective ((String.append_right_inj _).mp same)
  · have ends := (String.append_right_inj _).mp same
    have query : ∀ key key', Gcs.gcsPercentEncode key ++ "?alt=media" ≠ Gcs.gcsPercentEncode key' ++ "" := by
      intro key key' same
      refine gcs.separates key' '?' ?_ (by decide)
      rw [String.append_empty] at same
      rw [← same, String.toList_append]
      exact List.mem_append_right _ (by decide)
    cases alt <;> cases alt'
    · exact ⟨gcs.injective ((String.append_left_inj _).mp ends), rfl⟩
    · exact absurd ends.symm (query key' key)
    · exact absurd ends (query key key')
    · exact ⟨gcs.injective ((String.append_left_inj _).mp ends), rfl⟩
  · exact gcs.injective ((String.append_right_inj _).mp same)

end OxiStore.Addressing
