/-
**XML as a reader delivers it.**
-/

import Mathlib.Data.List.DropRight
import Mathlib.Data.List.Basic

namespace Xml

open List

/-! ### Events -/

inductive Event where
  | start (name : String)
  | text (content : Except String String)
  | finish (name : String)
  | other

def readable : List (Except String Event) → Option (List Event)
  | [] => some []
  | .error _ :: _ => none
  | .ok (.text (.error _)) :: _ => none
  | .ok event :: events => (readable events).map (event :: ·)

theorem readable_map_ok {events : List Event} (decodes : ∀ error, Event.text (.error error) ∉ events) :
    readable (events.map .ok) = some events := by
  induction events with
  | nil => rfl
  | cons event events ih =>
    have rest := ih fun error member => decodes error (mem_cons_of_mem event member)
    cases event with
    | start name => rw [map_cons, readable, rest, Option.map_some]; nofun
    | text content =>
      cases content with
      | error error => exact absurd mem_cons_self (decodes error)
      | ok text => rw [map_cons, readable, rest, Option.map_some]; nofun
    | finish name | other => rw [map_cons, readable, rest, Option.map_some]; nofun

/-- **The texts of a stream**, each with the name of the element that was opened last and not closed. -/
def tagged : String → List Event → List (String × String)
  | _, [] => []
  | _, .start name :: events => tagged name events
  | tag, .text (.ok content) :: events => (tag, content) :: tagged tag events
  | tag, .text (.error _) :: events => tagged tag events
  | _, .finish _ :: events => tagged "" events
  | tag, .other :: events => tagged tag events

def texts (name : String) (pairs : List (String × String)) : List String :=
  (pairs.filter fun pair => pair.1 = name).map Prod.snd

theorem texts_cons (name tag content : String) (pairs : List (String × String)) :
    texts name ((tag, content) :: pairs) =
      if tag = name then content :: texts name pairs else texts name pairs := by
  unfold texts
  rw [filter_cons]
  by_cases same : tag = name
  all_goals simp [same]

/-! ### Blanks -/

def isBlank (c : Char) : Bool := c = ' ' || c = '\t' || c = '\n' || c = '\r'

def strip (text : String) : String := String.ofList ((text.toList.dropWhile isBlank).rdropWhile isBlank)

def Unpadded (text : String) : Prop :=
  (∀ c ∈ text.toList.head?, ¬ isBlank c) ∧ ∀ c ∈ text.toList.getLast?, ¬ isBlank c

theorem strip_eq_self_iff (text : String) : strip text = text ↔ Unpadded text := by
  unfold strip Unpadded
  rw [← String.toList_inj, String.toList_ofList]
  generalize text.toList = chars
  have front : chars.dropWhile isBlank = chars ↔ ∀ c ∈ chars.head?, ¬ isBlank c := by
    cases chars with
    | nil => simp
    | cons first rest =>
      rw [dropWhile_eq_self_iff]
      simp
  have back : chars.rdropWhile isBlank = chars ↔ ∀ c ∈ chars.getLast?, ¬ isBlank c := by
    rw [rdropWhile_eq_self_iff]
    rcases eq_nil_or_concat' chars with rfl | ⟨older, last, rfl⟩
    all_goals simp
  rw [← front, ← back]
  constructor
  · intro same
    have shorter := (dropWhile_suffix isBlank (l := chars)).length_le
    have shortest := ( rdropWhile_prefix isBlank (l := chars.dropWhile isBlank)).length_le
    rw [same] at shortest
    have whole : chars.dropWhile isBlank = chars :=
      (dropWhile_suffix isBlank).eq_of_length (le_antisymm shorter shortest)
    exact ⟨whole, by rwa [whole] at same⟩
  · rintro ⟨whole, same⟩
    rw [whole, same]

instance (text : String) : Decidable (Unpadded text) := decidable_of_iff _ (strip_eq_self_iff text)

def delivered (content : String) : Option String :=
  if strip content = "" then none else some (strip content)

theorem delivered_eq_self_iff {names : List String} (nonempty : ∀ name ∈ names, name ≠ "") :
    names.filterMap delivered = names ↔ ∀ name ∈ names, Unpadded name := by
  induction names with
  | nil => simp
  | cons name names ih =>
    have rest := ih fun other member => nonempty other (mem_cons_of_mem name member)
    rw [forall_mem_cons, ← rest, ← strip_eq_self_iff]
    by_cases gone : strip name = ""
    · have dropped : delivered name = none := if_pos gone
      rw [filterMap_cons_none dropped]
      refine iff_of_false (fun same => ?_) (fun both => ?_)
      · have longer := congrArg length same
        have fewer := length_filterMap_le delivered names
        rw [length_cons] at longer
        omega
      · exact nonempty name mem_cons_self (both.1.symm.trans gone)
    · have kept : delivered name = some (strip name) := if_neg gone
      rw [filterMap_cons_some kept, cons.injEq]

/-! ### Documents -/

/-- **Elements next to each other**: each has a text or elements inside, or is written as an empty tag. -/
inductive Forest where
  | nil
  | text (name content : String) (rest : Forest)
  | empty (name : String) (rest : Forest)
  | node (name : String) (children rest : Forest)
deriving DecidableEq

namespace Forest

def textEvents (content : String) : List Event := (delivered content).toList.map fun text => .text (.ok text)

def events : Forest → List Event
  | .nil => []
  | .text name content rest => .start name :: (textEvents content ++ .finish name :: rest.events)
  | .empty _ rest => .other :: rest.events
  | .node name children rest => .start name :: (children.events ++ .finish name :: rest.events)

def leaves : Forest → List (String × String)
  | .nil => []
  | .text name content rest => (name, content) :: rest.leaves
  | .empty _ rest => rest.leaves
  | .node _ children rest => children.leaves ++ rest.leaves

def contents (name : String) (forest : Forest) : List String := texts name forest.leaves

def tagAfter : String → Forest → String
  | tag, .nil => tag
  | _, .text _ _ rest => tagAfter "" rest
  | tag, .empty _ rest => tagAfter tag rest
  | _, .node _ _ rest => tagAfter "" rest

def deliveredLeaf (leaf : String × String) : Option (String × String) := (delivered leaf.2).map (leaf.1, ·)

theorem tagged_textEvents (tag content : String) (after : List Event) :
    tagged tag (textEvents content ++ after) =
      (deliveredLeaf (tag, content)).toList ++ tagged tag after := by
  unfold textEvents deliveredLeaf
  cases delivered content <;> rfl

variable (forest : Forest)

theorem tagged_append (tag : String) (after : List Event) :
    tagged tag (forest.events ++ after) =
      forest.leaves.filterMap deliveredLeaf ++ tagged (forest.tagAfter tag) after := by
  induction forest generalizing tag after with
  | nil => rfl
  | text name content rest ih =>
    rw [events, cons_append, append_assoc, cons_append, tagged, tagged_textEvents, tagged,
      ih, leaves, filterMap_cons, tagAfter]
    cases deliveredLeaf (name, content) <;> rfl
  | empty name rest ih => exact ih tag after
  | node name children rest inner ih =>
    rw [events, cons_append, append_assoc, cons_append, tagged, inner, tagged, ih, leaves,
      filterMap_append, append_assoc, tagAfter]

theorem tagged_events (tag : String) :
    tagged tag forest.events = forest.leaves.filterMap deliveredLeaf := by
  have whole := tagged_append forest tag []
  rwa [append_nil, tagged, append_nil] at whole

theorem texts_events (name : String) :
    texts name (tagged "" forest.events) = (forest.contents name).filterMap delivered := by
  rw [tagged_events, contents]
  induction forest.leaves with
  | nil => rfl
  | cons leaf leaves ih =>
    obtain ⟨tag, content⟩ := leaf
    rw [texts_cons, filterMap_cons, deliveredLeaf]
    by_cases same : tag = name
    · rw [if_pos same, filterMap_cons]
      cases delivered content with
      | none => exact ih
      | some text => rw [Option.map_some, texts_cons, if_pos same, ih]
    · rw [if_neg same]
      cases delivered content with
      | none => exact ih
      | some text => rw [Option.map_some, texts_cons, if_neg same, ih]

theorem decodes (error : String) : Event.text (.error error) ∉ forest.events := by
  have leaf (content : String) : Event.text (.error error) ∉ textEvents content := by
    unfold textEvents
    cases delivered content <;> simp
  induction forest with
  | nil => simp [events]
  | text name content rest ih => simp [events, leaf, ih]
  | empty name rest ih => simp [events, ih]
  | node name children rest inner ih => simp [events, inner, ih]

theorem readable_events : readable (forest.events.map .ok) = some forest.events :=
  readable_map_ok forest.decodes

/-! ### Elements inside others -/

def contentsIn (outer name : String) : Bool → Forest → List String
  | _, .nil => []
  | inside, .text tag content rest =>
      (if inside ∧ tag = name then [content] else []) ++ contentsIn outer name inside rest
  | inside, .empty _ rest => contentsIn outer name inside rest
  | inside, .node tag children rest =>
      contentsIn outer name (inside || tag = outer) children ++ contentsIn outer name inside rest

def Apart (outer : String) : Bool → Forest → Prop
  | _, .nil => True
  | inside, .text tag _ rest => tag ≠ outer ∧ Apart outer inside rest
  | inside, .empty _ rest => Apart outer inside rest
  | inside, .node tag children rest =>
      (inside = true → tag ≠ outer) ∧ Apart outer (inside || tag = outer) children ∧ Apart outer inside rest

end Forest

end Xml
