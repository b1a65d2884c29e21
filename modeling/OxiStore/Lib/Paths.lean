/-
**Unix paths.**
-/

import Mathlib
import OxiStore.Lib.Lines

namespace UnixPath

open List

abbrev Name := List Char

abbrev Location := List Name

inductive Component where
  | rootDir
  | curDir
  | parentDir
  | normal (name : Name)
deriving DecidableEq

/-! ### Texts -/

def hasRoot (text : List Char) : Bool := text.head? = some '/'

def segments (text : List Char) : List Name := text.splitOn '/'

def component (segment : Name) : Option Component :=
  if segment = [] ∨ segment = ['.'] then none
  else if segment = ['.', '.'] then some .parentDir
  else some (.normal segment)

def leading (text : List Char) : List Component :=
  if hasRoot text then [.rootDir]
  else if (segments text).head? = some ['.'] then [.curDir]
  else []

def components (text : List Char) : List Component := leading text ++ (segments text).filterMap component

def join (base text : List Char) : List Char :=
  if hasRoot text then text
  else if base = [] ∨ base.getLast? = some '/' then base ++ text
  else base ++ '/' :: text

def endsAsDir (text : List Char) : Bool :=
  (segments text).getLast? = some [] ∨ (segments text).getLast? = some ['.']

/-! ### Names -/

def rsplitAtDot (name : Name) : Option Name × Option Name :=
  match name.reverse.span (· ≠ '.') with
  | (_, []) => (none, some name)
  | (_, [_]) => (some name, none)
  | (after, _ :: before) => (some before.reverse, some after.reverse)

def stem (name : Name) : Name :=
  match rsplitAtDot name with
  | (some before, _) => before
  | (none, _) => name

def extension (name : Name) : Option Name :=
  match rsplitAtDot name with
  | (some _, after) => after
  | (none, _) => none

def withNameExtension (name ext : Name) : Name := if ext = [] then stem name else stem name ++ '.' :: ext

section

variable {front ext name : Name}

theorem rsplitAtDot_append (nonempty : front ≠ []) (dotless : '.' ∉ ext) :
    rsplitAtDot (front ++ '.' :: ext) = (some front, some ext) := by
  have reversed : (front ++ '.' :: ext).reverse = ext.reverse ++ '.' :: front.reverse := by simp
  have others : ∀ char ∈ ext.reverse, decide (char ≠ '.') = true := by
    intro char member
    rw [decide_eq_true_iff]
    rintro rfl
    exact dotless (mem_reverse.mp member)
  have cut : (front ++ '.' :: ext).reverse.span (· ≠ '.') = (ext.reverse, '.' :: front.reverse) := by
    rw [reversed, span_eq_takeWhile_dropWhile, takeWhile_append_of_pos others,
      dropWhile_append_of_pos others]
    simp
  obtain ⟨last, rest, same⟩ := exists_cons_of_ne_nil (reverse_ne_nil_iff.mpr nonempty)
  unfold rsplitAtDot
  rw [cut, same]
  dsimp only
  rw [← same, reverse_reverse, reverse_reverse]

theorem stem_append (nonempty : front ≠ []) (dotless : '.' ∉ ext) : stem (front ++ '.' :: ext) = front := by
  rw [stem, rsplitAtDot_append nonempty dotless]

theorem stem_spec (name : Name) : (∃ rest, name = stem name ++ rest) ∧ (name ≠ [] → stem name ≠ []) := by
  have whole : (name.reverse.span (· ≠ '.')).1 ++ (name.reverse.span (· ≠ '.')).2 = name.reverse := by
    rw [span_eq_takeWhile_dropWhile]
    exact takeWhile_append_dropWhile
  unfold stem rsplitAtDot
  generalize name.reverse.span (· ≠ '.') = cut at whole
  rcases cut with ⟨after, rest⟩
  cases rest with
  | nil => exact ⟨⟨[], by simp⟩, id⟩
  | cons dot before =>
    cases before with
    | nil => exact ⟨⟨[], by simp⟩, id⟩
    | cons last before =>
      refine ⟨⟨dot :: after.reverse, ?_⟩, by simp⟩
      have reversed := congrArg reverse whole
      simpa using reversed.symm

theorem withNameExtension_eq (name : Name) (some : ext ≠ []) :
    withNameExtension name ext = stem name ++ '.' :: ext := if_neg some

theorem withNameExtension_twice (nonempty : name ≠ []) (some : ext ≠ []) (dotless : '.' ∉ ext) :
    withNameExtension (withNameExtension name ext) ext = withNameExtension name ext := by
  have front : stem (withNameExtension name ext) = stem name := by
    rw [withNameExtension_eq name some, stem_append ((stem_spec name).2 nonempty) dotless]
  rw [withNameExtension_eq _ some, front, withNameExtension_eq name some]

theorem eq_of_extension (has : extension name = some ext) : name = stem name ++ '.' :: ext := by
  have whole : (name.reverse.span (· ≠ '.')).1 ++ (name.reverse.span (· ≠ '.')).2 = name.reverse := by
    rw [span_eq_takeWhile_dropWhile]
    exact takeWhile_append_dropWhile
  have dotted : ∀ char ∈ (name.reverse.span (· ≠ '.')).2.head?, char = '.' := by
    intro char first
    rw [span_eq_takeWhile_dropWhile] at first
    have stops := head?_dropWhile_not (fun char : Char => decide (char ≠ '.')) name.reverse
    rw [Option.mem_def.mp first] at stops
    simpa using stops
  unfold extension rsplitAtDot at has
  unfold stem rsplitAtDot
  generalize name.reverse.span (· ≠ '.') = cut at whole dotted has
  rcases cut with ⟨after, rest⟩
  cases rest with
  | nil => cases has
  | cons dot before =>
    cases before with
    | nil => cases has
    | cons last before =>
      cases has
      have reversed := congrArg reverse whole
      rw [dotted dot rfl] at reversed
      simpa using reversed.symm

theorem withNameExtension_of_extension (has : extension name = some ext) (given : ext ≠ []) :
    withNameExtension name ext = name := by
  rw [withNameExtension_eq name given, ← eq_of_extension has]

theorem mem_withNameExtension {char : Char} (member : char ∈ withNameExtension name ext) :
    char ∈ name ∨ char = '.' ∨ char ∈ ext := by
  obtain ⟨⟨rest, whole⟩, -⟩ := stem_spec name
  have inName : char ∈ stem name → char ∈ name := fun front => by
    rw [whole]
    exact mem_append_left _ front
  unfold withNameExtension at member
  split_ifs at member with none
  · exact .inl (inName member)
  · rcases mem_append.mp member with front | back
    · exact .inl (inName front)
    · exact .inr (mem_cons.mp back)

end

/-! ### Paths -/

structure Path where
  components : List Component
  dirForm : Bool
deriving DecidableEq

namespace Path

def parse (text : List Char) : Path := ⟨UnixPath.components text, endsAsDir text⟩

def parent (path : Path) : Option Path :=
  match path.components.getLast? with
  | none => none
  | some .rootDir => none
  | some _ => some ⟨path.components.dropLast, false⟩

def fileName (path : Path) : Option Name :=
  match path.components.getLast? with
  | some (.normal name) => some name
  | _ => none

def withExtension (path : Path) (ext : Name) : Path :=
  match path.fileName with
  | none => path
  | some name => ⟨path.components.dropLast ++ [.normal (withNameExtension name ext)], false⟩

variable {path : Path} {front : List Component} {name : Name}

theorem parent_of_components (same : path.components = front ++ [.normal name]) :
    path.parent = some ⟨front, false⟩ := by
  simp [parent, same]

theorem withExtension_of_components (same : path.components = front ++ [.normal name]) (ext : Name) :
    path.withExtension ext = ⟨front ++ [.normal (withNameExtension name ext)], false⟩ := by
  simp [withExtension, fileName, same]

end Path

theorem ne_nil_of_normal {text name : List Char} (member : .normal name ∈ components text) : name ≠ [] := by
  have inner : .normal name ∈ (segments text).filterMap component := by
    unfold components leading at member
    split_ifs at member with rooted dotted
    all_goals simpa using member
  obtain ⟨segment, -, same⟩ := mem_filterMap.mp inner
  unfold component at same
  split_ifs at same with skipped dots
  · cases same
  · cases same
    exact fun empty => skipped (.inl empty)

/-! ### Locations -/

def enter (location : Location) : Component → Location
  | .rootDir => []
  | .curDir => location
  | .parentDir => location.tail
  | .normal name => name :: location

def locate (cwd : Location) (components : List Component) : Location := components.foldl enter cwd

def names (components : List Component) : List Name :=
  components.filterMap fun
    | .normal name => some name
    | _ => none

theorem names_concat (front : List Component) (name : Name) :
    names (front ++ [.normal name]) = names front ++ [name] := filterMap_append

theorem locate_append (cwd : Location) (first second : List Component) :
    locate cwd (first ++ second) = locate (locate cwd first) second := foldl_append

theorem locate_concat (cwd : Location) (front : List Component) (name : Name) :
    locate cwd (front ++ [.normal name]) = name :: locate cwd front := locate_append ..

theorem locate_of_descending (cwd : Location) {components : List Component}
    (noRoot : .rootDir ∉ components) (noParent : .parentDir ∉ components) :
    locate cwd components = (names components).reverse ++ cwd := by
  induction components generalizing cwd with
  | nil => rfl
  | cons component components ih =>
    rw [mem_cons, not_or] at noRoot noParent
    show locate (enter cwd component) components = _
    rw [ih _ noRoot.2 noParent.2]
    cases component with
    | rootDir => exact absurd rfl noRoot.1
    | parentDir => exact absurd rfl noParent.1
    | curDir => rfl
    | normal name => simp [enter, names]

/-! ### Joined texts -/

section

variable {base text : List Char}

theorem components_of_root (rooted : hasRoot text = true) :
    components text = .rootDir :: (segments text).filterMap component := by
  rw [components, leading, if_pos rooted, singleton_append]

theorem segments_append (first second : List Char) :
    segments (first ++ '/' :: second) = segments first ++ segments second := by
  exact splitOn_append_cons_self ..

theorem segments_ne_nil (text : List Char) : segments text ≠ [] := splitOn_ne_nil _ _

variable (relative : hasRoot text = false)

include relative in
theorem join_eq_append (nonempty : base ≠ []) :
    ∃ front, join base text = front ++ '/' :: text ∧
      (segments base = segments front ∨ segments base = segments front ++ [[]]) := by
  unfold join
  rw [if_neg (by rw [relative]; exact Bool.false_ne_true)]
  by_cases slash : base.getLast? = some '/'
  · rw [if_pos (.inr slash)]
    obtain ⟨front, rfl⟩ := getLast?_eq_some_iff.mp slash
    exact ⟨front, by simp, .inr (segments_append front [])⟩
  · rw [if_neg (by simp [nonempty, slash])]
    exact ⟨base, rfl, .inl rfl⟩

theorem join_nil (text : List Char) : join [] text = text := by
  simp [join]

include relative

theorem filterMap_segments_join (nonempty : base ≠ []) :
    (segments (join base text)).filterMap component =
      (segments base).filterMap component ++ (segments text).filterMap component := by
  obtain ⟨front, joined, same⟩ := join_eq_append relative nonempty
  rw [joined, segments_append, filterMap_append]
  rcases same with same | same
  · rw [same]
  · rw [same, filterMap_append]
    simp [component]

theorem leading_join (nonempty : base ≠ []) :
    leading (join base text) = leading base := by
  have head : (join base text).head? = base.head? := by
    unfold join
    rw [if_neg (by rw [relative]; exact Bool.false_ne_true)]
    split_ifs with slash
    all_goals exact head?_append_of_ne_nil _ nonempty
  have first : (segments (join base text)).head? = (segments base).head? := by
    obtain ⟨front, joined, same⟩ := join_eq_append relative nonempty
    rw [joined, segments_append]
    have some := segments_ne_nil front
    rcases same with same | same
    · rw [same, head?_append_of_ne_nil _ some]
    · rw [same, head?_append_of_ne_nil _ some, head?_append_of_ne_nil _ some]
  unfold leading hasRoot
  rw [head, first]

theorem components_join (nonempty : base ≠ []) :
    components (join base text) = components base ++ (segments text).filterMap component := by
  rw [components, leading_join relative nonempty, filterMap_segments_join relative nonempty,
    ← append_assoc, components]

theorem endsAsDir_join (nonempty : base ≠ []) :
    endsAsDir (join base text) = endsAsDir text := by
  obtain ⟨front, joined, -⟩ := join_eq_append relative nonempty
  have last : (segments (join base text)).getLast? = (segments text).getLast? := by
    rw [joined, segments_append, getLast?_append_of_ne_nil _ (segments_ne_nil text)]
  unfold endsAsDir
  rw [last]

omit relative

theorem nil_mem_segments (rooted : hasRoot text = true) : [] ∈ segments text := by
  cases text with
  | nil => cases rooted
  | cons char rest =>
    obtain rfl : char = '/' := by simpa [hasRoot] using rooted
    have cut := segments_append [] rest
    rw [nil_append] at cut
    rw [cut]
    exact mem_append_left _ (mem_singleton_self _)

theorem components_ne_nil (nonempty : text ≠ []) : components text ≠ [] := by
  intro none
  obtain ⟨noLead, noMore⟩ := append_eq_nil_iff.mp none
  unfold leading at noLead
  split_ifs at noLead with rooted dotted
  have whole : ['/'].intercalate (segments text) = text := intercalate_splitOn '/'
  obtain ⟨first, rest, cut⟩ := exists_cons_of_ne_nil (segments_ne_nil text)
  have skipped : component first = Option.none := by
    refine forall_none_of_filterMap_eq_nil noMore first ?_
    rw [cut]
    exact mem_cons_self
  rw [cut] at whole
  rw [cut] at dotted
  -- The first piece is skipped and is no dot, so it is empty and what follows it is a slash.
  have empty : first = [] := by
    unfold component at skipped
    split_ifs at skipped with skip dots
    exact skip.resolve_right fun dot => dotted (by rw [dot]; rfl)
  subst empty
  cases rest with
  | nil => exact nonempty whole.symm
  | cons second rest =>
    rw [intercalate_cons_cons] at whole
    exact rooted (by rw [← whole]; rfl)

theorem names_components (text : List Char) :
    names (components text) = names ((segments text).filterMap component) := by
  unfold components leading
  split_ifs with rooted dotted
  all_goals rfl

theorem rootDir_not_mem_filterMap (segments : List Name) :
    .rootDir ∉ segments.filterMap component := by
  intro member
  obtain ⟨segment, -, root⟩ := mem_filterMap.mp member
  unfold component at root
  split_ifs at root with dot dots
  all_goals cases root

include relative

theorem rootDir_not_mem_components : .rootDir ∉ components text := by
  unfold components leading
  rw [if_neg (by rw [relative]; exact Bool.false_ne_true)]
  split_ifs with dotted
  all_goals simpa using rootDir_not_mem_filterMap (segments text)

theorem locate_components (cwd : Location) :
    locate cwd (components text) = locate cwd ((segments text).filterMap component) := by
  unfold components leading
  rw [if_neg (by rw [relative]; exact Bool.false_ne_true)]
  split_ifs
  all_goals rfl

omit relative

theorem locate_join_eq (cwd : Location) (base text : List Char) :
    locate cwd (components (join base text)) = locate (locate cwd (components base)) (components text) := by
  by_cases rooted : hasRoot text = true
  · rw [join, if_pos rooted, components_of_root rooted]
    rfl
  · have relative := (Bool.not_eq_true _).mp rooted
    by_cases empty : base = []
    · subst empty
      rw [join_nil]
      rfl
    · rw [components_join relative empty, locate_append, locate_components relative _]

include relative in
theorem locate_join (cwd : Location) (noParent : .parentDir ∉ components text) :
    locate cwd (components (join base text)) =
      (names (components text)).reverse ++ locate cwd (components base) := by
  rw [locate_join_eq, locate_of_descending _ (rootDir_not_mem_components relative) noParent]

theorem locate_of_root (cwd : Location) (rooted : hasRoot text = true)
    (noParent : .parentDir ∉ components text) :
    locate cwd (components text) = (names (components text)).reverse := by
  have noParent' : .parentDir ∉ (segments text).filterMap component := fun member =>
    noParent (mem_append_right _ member)
  rw [names_components, components_of_root rooted]
  show locate [] _ = _
  rw [locate_of_descending _ (rootDir_not_mem_filterMap _) noParent', append_nil]

end

end UnixPath
