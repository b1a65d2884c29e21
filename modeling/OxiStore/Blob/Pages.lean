/-
**Listing page by page.**
-/

import OxiStore.Lib.Paging
import OxiStore.Blob.Memory

namespace OxiStore

open OrdTable StepProg

/-- **A state with these entries**: they ascend, `list` gives their keys, and `head` the entry of a key. -/
structure Catalogues {S : Type} (list : String → BlobCall S (List String))
    (head : String → BlobCall S BlobMeta) (s : S) (entries : List BlobMeta) : Prop where
  ascending : entries.Pairwise fun first second => first.key < second.key
  list (start : String) :
    (list start).exec s = (.ok ((entries.map BlobMeta.key).filter (startsWith start)), s)
  head (entry : BlobMeta) (member : entry ∈ entries) : (head entry.key).exec s = (.ok entry, s)

def matching (start : String) (entries : List BlobMeta) : List BlobMeta :=
  entries.filter fun entry => startsWith start entry.key

theorem matching_ascending {entries : List BlobMeta}
    (ascending : entries.Pairwise fun first second => first.key < second.key) (start : String) :
    (matching start entries).Pairwise fun first second => first.key < second.key :=
  ascending.filter _

section

variable {S : Type} {list : String → BlobCall S (List String)} {head : String → BlobCall S BlobMeta} {s : S}
  {entries : List BlobMeta}

theorem exec_listMetaPageLoop (heads : ∀ entry ∈ entries, (head entry.key).exec s = (.ok entry, s))
    (startAfter : Option String) (limit : ℕ) (metas : List BlobMeta) :
    (listMetaPageLoop head startAfter limit (entries.map BlobMeta.key) metas).exec s =
      (.ok (metas ++ Paging.page BlobMeta.key entries startAfter (limit - metas.length)), s) := by
  induction entries generalizing metas with
  | nil =>
    rw [Paging.page, List.filter_nil, List.take_nil, List.append_nil]
    rfl
  | cons entry entries ih =>
    have rest := ih fun other member => heads other (List.mem_cons_of_mem _ member)
    have skips : startAfter.any (entry.key ≤ ·) = !Paging.past BlobMeta.key startAfter entry := by
      cases startAfter with
      | none => rfl
      | some cursor =>
        rw [Option.any_some, Paging.past, Option.all_some, ← decide_not]
        exact decide_eq_decide.mpr not_lt.symm
    rw [List.map_cons, listMetaPageLoop, skips, Paging.page, List.filter_cons]
    cases Paging.past BlobMeta.key startAfter entry with
    | false => exact rest metas
    | true =>
      rw [if_neg (by simp), if_pos rfl]
      by_cases full : metas.length ≥ limit
      · rw [if_pos full, Nat.sub_eq_zero_of_le full, List.take_zero, List.append_nil]
        rfl
      · have room : limit - metas.length = limit - (metas ++ [entry]).length + 1 := by
          rw [List.length_append, List.length_singleton]
          omega
        rw [if_neg full, Fallible.exec_bind_ok (heads entry List.mem_cons_self), rest, room,
          List.take_succ_cons, Paging.page, List.append_assoc, List.singleton_append]

theorem exec_listMetaPageByHeads (catalogue : Catalogues list head s entries) (start : String)
    (startAfter : Option String) (limit : ℕ) :
    (listMetaPageByHeads list head start startAfter limit).exec s =
      (.ok (Paging.page BlobMeta.key (matching start entries) startAfter limit), s) := by
  have heads : ∀ entry ∈ matching start entries, (head entry.key).exec s = (.ok entry, s) :=
    fun entry member => catalogue.head entry (List.mem_filter.mp member).1
  have keys : (entries.map BlobMeta.key).filter (startsWith start) =
      (matching start entries).map BlobMeta.key := by
    rw [List.filter_map]
    rfl
  rw [listMetaPageByHeads, Fallible.exec_bind_ok (catalogue.list start), keys, exec_listMetaPageLoop heads]
  rfl

end

def blobMetas (blobs : Blobs) : List BlobMeta := blobs.toList.map fun entry => BlobMeta.ofBlob entry.1 entry.2

theorem BlobStore.MapLike.catalogues {S : Type} {store : BlobStore S} {contents : S → Blobs}
    (like : store.MapLike contents) (s : S) :
    Catalogues store.list store.head s (blobMetas (contents s)) where
  ascending := List.pairwise_map.mpr (lists_toList (contents s)).ascending
  list start := by
    rw [like.list, Fallible.exec_atomic, blobMetas, List.map_map, ← Std.ExtTreeMap.map_fst_toList_eq_keys]
    rfl
  head entry member := by
    obtain ⟨⟨key, data⟩, held, rfl⟩ := List.mem_map.mp member
    exact (like.head key).exec_some (((lists_toList (contents s)).mem_iff key data).mp held)

theorem Memory.exec_listMetaPage (state : MemoryState) (start : String) (startAfter : Option String)
    (limit : ℕ) : (Memory.listMetaPage start startAfter limit).exec state =
      (.ok (Paging.page BlobMeta.key (matching start (blobMetas state.map)) startAfter limit), state) := by
  unfold Memory.listMetaPage matching blobMetas Paging.page
  rw [Fallible.exec_atomic, List.filter_map, List.filter_map, List.map_take]
  rfl

/-- **A client that asks for page after page gets exactly these entries**, ascending, with one page more than
there are entries at the most. -/
def PagedExactly {S : Type} (request : Option String → BlobCall S (List BlobMeta)) (s : S)
    (entries : List BlobMeta) : Prop :=
  entries.Pairwise (fun first second => first.key < second.key) ∧
    ∀ pages, entries.length < pages →
      (Paging.collect BlobMeta.key request pages none []).exec s = (.ok (some entries), s)

/-- **Pagination is exact.** -/
theorem pages_exact {S : Type} {list : String → BlobCall S (List String)}
    {head : String → BlobCall S BlobMeta} {s : S} {entries : List BlobMeta}
    (catalogue : Catalogues list head s entries) (state : MemoryState) (start : String) (limit : ℕ)
    (positive : 1 ≤ limit) :
    PagedExactly (fun startAfter => listMetaPageByHeads list head start startAfter limit) s
      (matching start entries) ∧
    PagedExactly (fun startAfter => Memory.listMetaPage start startAfter limit) state
      (matching start (blobMetas state.map)) ∧
    (entries = blobMetas state.map → ∀ startAfter,
      ((listMetaPageByHeads list head start startAfter limit).exec s).1 =
        ((Memory.listMetaPage start startAfter limit).exec state).1) := by
  refine ⟨⟨?_, fun pages enough => ?_⟩, ⟨?_, fun pages enough => ?_⟩, fun same startAfter => ?_⟩
  · exact matching_ascending catalogue.ascending start
  · exact Paging.exec_collect (fun startAfter => exec_listMetaPageByHeads catalogue start startAfter limit)
      (matching_ascending catalogue.ascending start) positive enough
  · exact matching_ascending (Memory.mapLike.catalogues state).ascending start
  · exact Paging.exec_collect (fun startAfter => Memory.exec_listMetaPage state start startAfter limit)
      (matching_ascending (Memory.mapLike.catalogues state).ascending start) positive enough
  · rw [exec_listMetaPageByHeads catalogue, Memory.exec_listMetaPage, same]

def Memory.threeBlobs : MemoryState :=
  ⟨(((∅ : Blobs).insert "b" [3]).insert "a/2" [2]).insert "a/1" [1], 3, none⟩

theorem pages_of_threeBlobs :
    Catalogues Memory.list Memory.head Memory.threeBlobs (blobMetas Memory.threeBlobs.map) ∧
    (Paging.collect BlobMeta.key (fun startAfter => listMetaPageByHeads Memory.list Memory.head "a/"
      startAfter 1) 3 none []).exec Memory.threeBlobs =
        (.ok (some (matching "a/" (blobMetas Memory.threeBlobs.map))), Memory.threeBlobs) ∧
    (matching "a/" (blobMetas Memory.threeBlobs.map)).map BlobMeta.key = ["a/1", "a/2"] :=
  ⟨Memory.mapLike.catalogues Memory.threeBlobs, (pages_exact (Memory.mapLike.catalogues Memory.threeBlobs)
    Memory.threeBlobs "a/" 1 (by decide)).1.2 3 (by decide +kernel), by decide +kernel⟩

end OxiStore
