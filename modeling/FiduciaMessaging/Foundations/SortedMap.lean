import Mathlib.Data.List.Perm.Basic
import Mathlib.Data.List.Nodup
import Mathlib.Order.Lattice

/-! An ordered map as the list of its entries by increasing key; an insertion replaces the
entry of an equal key. -/
namespace SortedMap

variable {K V : Type} [LinearOrder K]

def insert (k : K) (v : V) : List (K × V) → List (K × V)
  | [] => [(k, v)]
  | (k', v') :: rest =>
    if k < k' then (k, v) :: (k', v') :: rest
    else if k = k' then (k, v) :: rest
    else (k', v') :: insert k v rest

def remove (k : K) (map : List (K × V)) : List (K × V) := map.filter (fun entry => entry.1 != k)

/- Entries collected in the order they come. -/
def ofList (entries : List (K × V)) : List (K × V) :=
  entries.foldl (fun map entry => insert entry.1 entry.2 map) []

def Sorted (entries : List (K × V)) : Prop := entries.Pairwise (fun a b => a.1 < b.1)

variable {k : K} {v : V} {map entries : List (K × V)}

theorem insert_perm (fresh : k ∉ map.map Prod.fst) : (insert k v map).Perm ((k, v) :: map) := by
  induction map with
  | nil => exact List.Perm.refl _
  | cons entry rest ih =>
    obtain ⟨k', v'⟩ := entry
    obtain ⟨different, later⟩ := not_or.mp (mt List.mem_cons.mpr fresh)
    unfold insert
    split
    · exact List.Perm.refl _
    · exact ((ih later).cons (k', v')).trans (List.Perm.swap _ _ _)

theorem insert_last (last : ∀ entry ∈ map, entry.1 < k) : insert k v map = map ++ [(k, v)] := by
  induction map with
  | nil => rfl
  | cons entry rest ih =>
    have below := last entry List.mem_cons_self
    unfold insert
    rw [if_neg (lt_asymm below), if_neg (ne_of_gt below),
      ih (fun entry member => last entry (List.mem_cons_of_mem _ member))]
    rfl

theorem mem_insert {entry : K × V} (member : entry ∈ insert k v map) :
    entry = (k, v) ∨ entry ∈ map := by
  induction map with
  | nil => exact .inl (List.mem_singleton.mp member)
  | cons first rest ih =>
    unfold insert at member
    split at member
    · exact List.mem_cons.mp member
    · split at member
      · exact (List.mem_cons.mp member).imp id (List.mem_cons_of_mem _)
      · rcases List.mem_cons.mp member with rfl | later
        · exact .inr List.mem_cons_self
        · exact (ih later).imp id (List.mem_cons_of_mem _)

theorem insert_sorted (sorted : Sorted map) : Sorted (insert k v map) := by
  induction map with
  | nil => exact List.pairwise_singleton _ _
  | cons first rest ih =>
    obtain ⟨least, sorted⟩ := List.pairwise_cons.mp sorted
    unfold insert
    split
    · rename_i below
      refine List.pairwise_cons.mpr ⟨?_, List.pairwise_cons.mpr ⟨least, sorted⟩⟩
      intro entry member
      rcases List.mem_cons.mp member with rfl | later
      · exact below
      · exact lt_trans below (least entry later)
    · rename_i above
      split
      · rename_i same
        exact List.pairwise_cons.mpr ⟨fun entry later => same ▸ least entry later, sorted⟩
      · rename_i different
        refine List.pairwise_cons.mpr ⟨?_, ih sorted⟩
        intro entry member
        rcases mem_insert member with rfl | later
        · exact lt_of_le_of_ne (not_lt.mp above) (Ne.symm different)
        · exact least entry later

theorem mem_remove {entry : K × V} : entry ∈ remove k map ↔ entry ∈ map ∧
    entry.1 ≠ k := by
  rw [remove, List.mem_filter, bne_iff_ne]

theorem remove_sorted (sorted : Sorted map) : Sorted (remove k map) :=
  sorted.sublist List.filter_sublist

/-- A sorted map holds one entry for a key. -/
theorem Sorted.functional {first second : K × V} (sorted : Sorted map) (here : first ∈ map)
    (there : second ∈ map) (same : first.1 = second.1) : first = second := by
  have distinct : (map.map Prod.fst).Nodup := List.pairwise_map.mpr (sorted.imp ne_of_lt)
  exact List.inj_on_of_nodup_map distinct here there same

theorem foldl_insert_sorted (sorted : Sorted map) :
    Sorted (entries.foldl (fun map entry => insert entry.1 entry.2 map) map) := by
  induction entries generalizing map with
  | nil => exact sorted
  | cons entry rest ih => exact ih (insert_sorted sorted)

theorem ofList_sorted : Sorted (ofList entries) := foldl_insert_sorted List.Pairwise.nil

theorem foldl_insert_perm (distinct : ((map ++ entries).map Prod.fst).Nodup) :
    (entries.foldl (fun map entry => insert entry.1 entry.2 map) map).Perm (map ++ entries) := by
  induction entries generalizing map with
  | nil => rw [List.append_nil]; exact List.Perm.refl _
  | cons entry rest ih =>
    have moved : (map ++ entry :: rest).Perm (entry :: map ++ rest) := List.perm_middle
    have fresh : entry.1 ∉ map.map Prod.fst := by
      have distinct' := (moved.map Prod.fst).nodup_iff.mp distinct
      intro member
      rw [List.cons_append, List.map_cons, List.map_append] at distinct'
      exact (List.nodup_cons.mp distinct').1 (List.mem_append_left _ member)
    have grown := insert_perm (v := entry.2) fresh
    have whole : (insert entry.1 entry.2 map ++ rest).Perm (map ++ entry :: rest) :=
      (grown.append_right rest).trans moved.symm
    exact (ih ((whole.map Prod.fst).nodup_iff.mpr distinct)).trans whole

/-- Collecting entries with distinct keys only puts them in order. -/
theorem ofList_perm (distinct : (entries.map Prod.fst).Nodup) : (ofList entries).Perm entries :=
  foldl_insert_perm distinct

theorem foldl_insert_append (sorted : Sorted (map ++ entries)) :
    entries.foldl (fun map entry => insert entry.1 entry.2 map) map = map ++ entries := by
  induction entries generalizing map with
  | nil => exact (List.append_nil map).symm
  | cons entry rest ih =>
    have last : ∀ before ∈ map, before.1 < entry.1 :=
      fun before member => (List.pairwise_append.mp sorted).2.2 before member entry
        List.mem_cons_self
    rw [List.foldl_cons, insert_last last, ih] <;> rw [List.append_assoc]
    · rfl
    · exact sorted

/-- Entries that are in order already are the map they make. -/
theorem ofList_of_sorted (sorted : Sorted entries) : ofList entries = entries :=
  foldl_insert_append sorted

end SortedMap
