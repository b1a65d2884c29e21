/-
**Paging through an ascending list.**
-/

import OxiStore.Lib.Fallible

namespace Paging

open StepProg

variable {α κ : Type} [LinearOrder κ] (key : α → κ)

def past (cursor : Option κ) (entry : α) : Bool := cursor.all (· < key entry)

def page (all : List α) (cursor : Option κ) (limit : ℕ) : List α := (all.filter (past key cursor)).take limit

def cursorAfter (seen : List α) : Option κ := seen.getLast?.map key

variable {key} {seen rest : List α}

theorem filter_past (ascending : (seen ++ rest).Pairwise fun first second => key first < key second) :
    (seen ++ rest).filter (past key (cursorAfter key seen)) = rest := by
  rcases List.eq_nil_or_concat' seen with rfl | ⟨older, last, rfl⟩
  · exact List.filter_eq_self.mpr fun entry _ => rfl
  · have cursor : cursorAfter key (older ++ [last]) = some (key last) := by
      rw [cursorAfter, List.getLast?_concat, Option.map_some]
    have later := (List.pairwise_append.mp ascending).2.2
    have earlier := (List.pairwise_append.mp (List.pairwise_append.mp ascending).1).2.2
    rw [cursor, List.filter_append, List.filter_eq_nil_iff.mpr, List.nil_append, List.filter_eq_self.mpr]
    · intro entry member
      exact decide_eq_true (later last (List.mem_append_right _ (List.mem_singleton_self last)) entry member)
    · intro entry member
      rcases List.mem_append.mp member with old | own
      · have before := earlier entry old last (List.mem_singleton_self last)
        simp only [past, Option.all_some, decide_eq_true_eq]
        exact before.not_gt
      · rw [List.mem_singleton.mp own]
        simp [past]

theorem page_after (ascending : (seen ++ rest).Pairwise fun first second => key first < key second)
    (limit : ℕ) : page key (seen ++ rest) (cursorAfter key seen) limit = rest.take limit := by
  rw [page, filter_past ascending]

variable {ε S : Type} (key)

def collect (request : Option κ → Fallible ε S (List α)) :
    ℕ → Option κ → List α → Fallible ε S (Option (List α))
  | 0, _, _ => pure none
  | pages + 1, cursor, gathered => do
      let entries ← request cursor
      match entries.getLast? with
      | none => pure (some gathered)
      | some last => collect request pages (some (key last)) (gathered ++ entries)

variable {key} {request : Option κ → Fallible ε S (List α)} {s : S} {limit : ℕ} {all : List α}

theorem exec_collect_after (serves : ∀ cursor, (request cursor).exec s = (.ok (page key all cursor limit), s))
    (ascending : all.Pairwise fun first second => key first < key second) (positive : 1 ≤ limit) (pages : ℕ)
    (split : seen ++ rest = all) (enough : rest.length < pages) :
    (collect key request pages (cursorAfter key seen) seen).exec s = (.ok (some all), s) := by
  -- Each page takes some of the rest, so the rest is gone before the pages are.
  induction pages generalizing seen rest with
  | zero => omega
  | succ pages ih =>
    have served := serves (cursorAfter key seen)
    rw [← split, page_after (split ▸ ascending)] at served
    rw [collect, Fallible.exec_bind_ok served]
    rcases List.eq_nil_or_concat' (rest.take limit) with nothing | ⟨older, last, some_left⟩
    · have gone : rest = [] := by
        rcases List.take_eq_nil_iff.mp nothing with zero | gone
        · omega
        · exact gone
      rw [nothing, ← split, gone, List.append_nil]
      rfl
    · have next : cursorAfter key (seen ++ rest.take limit) = some (key last) := by
        rw [some_left, ← List.append_assoc, cursorAfter, List.getLast?_concat, Option.map_some]
      have fewer : (rest.drop limit).length < pages := by
        have left : rest ≠ [] := by
          rintro rfl
          simp at some_left
        have length := List.length_pos_iff.mpr left
        rw [List.length_drop]
        omega
      have onwards : (seen ++ rest.take limit) ++ rest.drop limit = all := by
        rw [List.append_assoc, List.take_append_drop, split]
      have ends := ih onwards fewer
      rw [next] at ends
      rw [some_left] at ends ⊢
      rw [List.getLast?_concat]
      exact ends

theorem exec_collect (serves : ∀ cursor, (request cursor).exec s = (.ok (page key all cursor limit), s))
    (ascending : all.Pairwise fun first second => key first < key second) (positive : 1 ≤ limit) {pages : ℕ}
    (enough : all.length < pages) : (collect key request pages none []).exec s = (.ok (some all), s) :=
  exec_collect_after serves ascending positive pages (List.nil_append all) enough

end Paging
