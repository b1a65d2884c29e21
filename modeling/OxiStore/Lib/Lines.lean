/-
**Lines and separated fields.**
-/

import Mathlib.Data.Nat.Digits.Lemmas
import Mathlib.Tactic

namespace Delimited

open List

abbrev Text := List Char

/-! ### Cutting at a separator -/

section

variable {sep : Char} {text : Text}

def splitn (limit : ℕ) (sep : Char) (text : Text) : List Text :=
  let pieces := text.splitOn sep
  if pieces.length ≤ limit then pieces
  else pieces.take (limit - 1) ++ [[sep].intercalate (pieces.drop (limit - 1))]

def join (sep : Char) (fields : List Text) : Text := [sep].intercalate fields

theorem splitOn_cons (char : Char) : (char :: text).splitOn sep =
    if char = sep then [] :: text.splitOn sep else (text.splitOn sep).modifyHead (char :: ·) := by
  rw [splitOn_cons_eq_if_modifyHead]
  simp

theorem not_mem_of_mem_splitOn {piece : Text} (member : piece ∈ text.splitOn sep) : sep ∉ piece := by
  induction text generalizing piece with
  | nil => simp_all
  | cons char text ih =>
    rw [splitOn_cons] at member
    split_ifs at member with cut
    · rcases mem_cons.mp member with rfl | member
      · exact not_mem_nil
      · exact ih member
    · cases pieces : text.splitOn sep with
      | nil => exact absurd pieces (splitOn_ne_nil sep text)
      | cons first rest =>
        rw [pieces, modifyHead_cons] at member
        rcases mem_cons.mp member with rfl | member
        · refine not_mem_cons_of_ne_of_not_mem (Ne.symm cut) (ih ?_)
          rw [pieces]
          exact mem_cons_self
        · refine ih ?_
          rw [pieces]
          exact mem_cons_of_mem _ member

theorem length_splitOn (sep : Char) (text : Text) : (text.splitOn sep).length = text.count sep + 1 := by
  induction text with
  | nil => simp
  | cons char text ih =>
    rw [splitOn_cons]
    by_cases cut : char = sep
    · simp [cut, ih]
    · simp [cut, ih, length_modifyHead]

theorem splitOn_join {fields : List Text} (some' : fields ≠ []) :
    (join sep fields).splitOn sep = fields.flatMap fun field => field.splitOn sep := by
  unfold join
  induction fields with
  | nil => exact absurd rfl some'
  | cons field fields ih =>
    cases fields with
    | nil => simp
    | cons next fields =>
      rw [intercalate_cons_cons, append_assoc, singleton_append,
        splitOn_append_cons_self, ih (by simp)]
      rfl

theorem join_append {front back : List Text} (some' : front ≠ []) (more : back ≠ []) :
    join sep (front ++ back) = join sep front ++ sep :: join sep back := by
  unfold join
  induction front with
  | nil => exact absurd rfl some'
  | cons field front ih =>
    cases front with
    | nil =>
      obtain ⟨next, back, rfl⟩ := exists_cons_of_ne_nil more
      simp [intercalate_cons_cons]
    | cons next front =>
      have rest := ih (by simp)
      simp only [cons_append] at rest
      simp [intercalate_cons_cons, rest]

theorem mem_join {fields : List Text} {char : Char} (other : char ≠ sep) :
    char ∈ join sep fields ↔ ∃ field ∈ fields, char ∈ field := by
  unfold join
  induction fields with
  | nil => simp
  | cons field fields ih =>
    cases fields with
    | nil => simp
    | cons next fields =>
      rw [intercalate_cons_cons, exists_mem_cons_iff, ← ih]
      simp [other]

theorem flatMap_splitOn_eq_iff {fields : List Text} :
    (fields.flatMap fun field => field.splitOn sep) = fields ↔ ∀ field ∈ fields, sep ∉ field := by
  constructor
  · intro same field member
    rw [← same] at member
    obtain ⟨_, _, piece⟩ := mem_flatMap.mp member
    exact not_mem_of_mem_splitOn piece
  · intro uncut
    have pieces : (fields.flatMap fun field => field.splitOn sep) = fields.flatMap fun field => [field] :=
      flatMap_congr fun field member => splitOn_eq_singleton (uncut field member)
    rw [pieces, flatMap_singleton']

theorem uncut_of_length {fields : List Text}
    (length : (fields.flatMap fun field => field.splitOn sep).length ≤ fields.length) :
    ∀ field ∈ fields, sep ∉ field := by
  induction fields with
  | nil => simp
  | cons field fields ih =>
    have atLeast : fields.length ≤ (fields.flatMap fun field => field.splitOn sep).length := by
      rw [length_flatMap, ← length_map (fun field : Text => (field.splitOn sep).length)]
      refine length_le_sum_of_one_le _ fun count member => ?_
      obtain ⟨field, _, rfl⟩ := mem_map.mp member
      rw [length_splitOn]
      omega
    rw [flatMap_cons, length_append, length_splitOn, length_cons] at length
    have here : field.count sep = 0 := by omega
    exact forall_mem_cons.mpr ⟨count_eq_zero.mp here, ih (by omega)⟩

theorem length_splitn (sep : Char) (text : Text) (limit : ℕ) :
    (splitn (limit + 1) sep text).length = min (text.splitOn sep).length (limit + 1) := by
  unfold splitn
  dsimp only
  split_ifs with short
  · omega
  · rw [length_append, length_take, length_singleton]
    omega

theorem getElem?_splitn {limit place : ℕ} (early : place < limit) :
    (splitn (limit + 1) sep text)[place]? = (text.splitOn sep)[place]? := by
  unfold splitn
  dsimp only
  split_ifs with short
  · rfl
  · rw [getElem?_append_left (by simp; omega), Nat.add_sub_cancel, getElem?_take_of_lt early]

theorem take_splitn {limit count : ℕ} (few : count ≤ limit) :
    (splitn (limit + 1) sep text).take count = (text.splitOn sep).take count := by
  apply ext_getElem?
  intro place
  by_cases inside : place < count
  · rw [getElem?_take_of_lt inside, getElem?_take_of_lt inside, getElem?_splitn (by omega)]
  · rw [getElem?_take_eq_none (by omega), getElem?_take_eq_none (by omega)]

end

/-! ### Lines -/

section

def stripCr (line : Text) : Text := if line.getLast? = some '\r' then line.dropLast else line

def lines (text : Text) : List Text :=
  let pieces := text.splitOn '\n'
  let last := pieces.getLast?.getD []
  pieces.dropLast.map stripCr ++ if last = [] then [] else [last]

def unlines (written : List Text) : Text := written.flatMap fun line => line ++ ['\n']

theorem splitOn_unlines (written : List Text) :
    (unlines written).splitOn '\n' = (written.flatMap fun line => line.splitOn '\n') ++ [[]] := by
  induction written with
  | nil => simp [unlines]
  | cons line written ih =>
    unfold unlines at ih ⊢
    rw [flatMap_cons, append_assoc, singleton_append, splitOn_append_cons_self, ih,
      flatMap_cons, append_assoc]

theorem lines_unlines (written : List Text) :
    lines (unlines written) = (written.flatMap fun line => line.splitOn '\n').map stripCr := by
  unfold lines
  rw [splitOn_unlines]
  simp

theorem map_stripCr_flatMap_splitOn {written : List Text} (oneLine : ∀ line ∈ written, '\n' ∉ line)
    (ending : ∀ line ∈ written, line.getLast? ≠ some '\r') :
    (written.flatMap fun line => line.splitOn '\n').map stripCr = written := by
  induction written with
  | nil => rfl
  | cons line written ih =>
    have first : stripCr line = line := if_neg (ending line mem_cons_self)
    rw [flatMap_cons, splitOn_eq_singleton (oneLine line mem_cons_self),
      singleton_append, map_cons, first]
    rw [ih (fun line member => oneLine line (mem_cons_of_mem _ member))
      (fun line member => ending line (mem_cons_of_mem _ member))]

end

/-! ### Counts -/

def parseUsize (text : Text) : Option UInt64 :=
  let digits := match text with
    | '+' :: digits => digits
    | _ => text
  if digits = [] ∨ digits.any (fun char => !char.isDigit) then none
  else if Nat.ofDigitChars 10 digits 0 < 2 ^ 64 then some (UInt64.ofNat (Nat.ofDigitChars 10 digits 0))
  else none

def showUsize (count : UInt64) : Text := Nat.toDigits 10 count.toNat

theorem isDigit_of_mem_showUsize {count : UInt64} {char : Char} (member : char ∈ showUsize count) :
    char.isDigit = true :=
  Nat.isDigit_of_mem_toDigits (by omega) (by omega) member

theorem not_mem_showUsize {count : UInt64} {char : Char} (other : char.isDigit = false) :
    char ∉ showUsize count := by
  intro member
  simp [isDigit_of_mem_showUsize member] at other

theorem parseUsize_showUsize (count : UInt64) : parseUsize (showUsize count) = some count := by
  have some' : showUsize count ≠ [] := Nat.toDigits_ne_nil
  have plain : (match showUsize count with
      | '+' :: digits => digits
      | _ => showUsize count) = showUsize count := by
    split
    · next digits shown =>
        exact absurd (shown ▸ mem_cons_self : '+' ∈ showUsize count) (not_mem_showUsize rfl)
    · rfl
  have digits : ¬ (showUsize count = [] ∨ (showUsize count).any (fun char => !char.isDigit) = true) := by
    rintro (empty | other)
    · exact some' empty
    · obtain ⟨char, member, other⟩ := any_eq_true.mp other
      simp [isDigit_of_mem_showUsize member] at other
  have value : Nat.ofDigitChars 10 (showUsize count) 0 = count.toNat :=
    Nat.ofDigitChars_toDigits (by omega) (by omega)
  unfold parseUsize
  simp only [plain]
  rw [if_neg digits, value, if_pos count.toNat_lt]
  simp

theorem parseUsize_eq_none {text : Text} {char : Char} (other : char.isDigit = false)
    (noSign : char ≠ '+') (member : char ∈ text) : parseUsize text = none := by
  have inside : char ∈ (match text with
      | '+' :: digits => digits
      | _ => text) := by
    split
    · next digits => exact (mem_cons.mp member).resolve_left noSign
    · exact member
  unfold parseUsize
  dsimp only
  refine if_pos (Or.inr (any_eq_true.mpr ⟨char, inside, ?_⟩))
  rw [other]
  rfl

end Delimited
