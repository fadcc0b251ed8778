import Mathlib.Data.List.Dedup
import Mathlib.Data.List.Nodup

/-! The distinct elements of a sequence of uses, the last used first. A cache that keeps
the most recently used ones holds an initial part of this list. -/
namespace Recency

variable {K L : Type} [DecidableEq K] [DecidableEq L]

def recent (uses : List K) : List K := uses.dedup.reverse

variable {uses later : List K} {x y : K} {m : Nat}

theorem mem_recent : x ∈ recent uses ↔ x ∈ uses := by
  rw [recent, List.mem_reverse, List.mem_dedup]

theorem recent_length (uses : List K) : (recent uses).length = uses.dedup.length :=
  List.length_reverse

theorem dedup_concat (uses : List K) (x : K) : (uses ++ [x]).dedup = uses.dedup.erase x ++ [x] := by
  induction uses with
  | nil => simp
  | cons y uses ih =>
    have last : y ∈ uses ++ [x] ↔ y ∈ uses ∨ y = x := by simp
    rw [List.cons_append]
    by_cases again : y ∈ uses
    · rw [List.dedup_cons_of_mem again, List.dedup_cons_of_mem (last.mpr (.inl again)), ih]
    · rw [List.dedup_cons_of_notMem again]
      by_cases same : y = x
      · have absent : y ∉ uses.dedup := mt List.mem_dedup.mp again
        rw [List.dedup_cons_of_mem (last.mpr (.inr same)), ih, ← same, List.erase_cons_head,
          List.erase_of_not_mem absent]
      · rw [List.dedup_cons_of_notMem (mt last.mp (not_or.mpr ⟨again, same⟩)), ih,
          List.erase_cons_tail (by simpa using same)]
        rfl

/-- A use moves its element to the front. -/
theorem recent_concat (uses : List K) (x : K) :
    recent (uses ++ [x]) = x :: (recent uses).erase x := by
  unfold recent
  rw [dedup_concat, List.reverse_append, List.reverse_singleton, List.singleton_append,
    (List.nodup_dedup uses).erase_eq_filter,
    (List.nodup_reverse.mpr (List.nodup_dedup uses)).erase_eq_filter, List.filter_reverse]

theorem take_erase_of_mem {xs : List K} (here : x ∈ xs.take m) :
    (xs.erase x).take (m - 1) = (xs.take m).erase x := by
  have length : ((xs.take m).erase x).length = (xs.take m).length - 1 :=
    List.length_erase_of_mem here
  conv_lhs => rw [← List.take_append_drop m xs, List.erase_append_left _ here]
  rcases Nat.le_total m xs.length with long | short
  · rw [List.length_take_of_le long] at length
    rw [List.take_append_of_le_length (Nat.le_of_eq length.symm),
      List.take_of_length_le (Nat.le_of_eq length)]
  · rw [List.drop_eq_nil_of_le short, List.append_nil]
    apply List.take_of_length_le
    rw [length]
    exact Nat.sub_le_sub_right (List.length_take_le _ _) 1

theorem take_erase_of_notMem {xs : List K} (absent : x ∉ xs.take m) :
    (xs.erase x).take m = xs.take m := by
  conv_lhs => rw [← List.take_append_drop m xs, List.erase_append_right _ absent]
  rcases Nat.le_total m xs.length with long | short
  · have length := List.length_take_of_le long
    rw [List.take_append_of_le_length (Nat.le_of_eq length.symm),
      List.take_of_length_le (Nat.le_of_eq length)]
  · rw [List.drop_eq_nil_of_le short, List.erase_nil, List.append_nil,
      List.take_take, Nat.min_self]

/-- A use of one of the first `m` keeps the others of them. -/
theorem take_recent_hit (here : x ∈ (recent uses).take m) :
    (recent (uses ++ [x])).take m = x :: ((recent uses).take m).erase x := by
  have positive : m ≠ 0 := by
    rintro rfl
    rw [List.take_zero] at here
    cases here
  obtain ⟨n, rfl⟩ := Nat.exists_eq_succ_of_ne_zero positive
  rw [recent_concat, List.take_succ_cons]
  exact congrArg (x :: ·) (take_erase_of_mem here)

/-- A use of any other element drops the last of the first `m + 1`. -/
theorem take_recent_miss (missing : x ∉ (recent uses).take (m + 1)) :
    (recent (uses ++ [x])).take (m + 1) = x :: (recent uses).take m := by
  have absent : x ∉ (recent uses).take m :=
    fun member => missing (List.take_subset_take_left _ (Nat.le_succ m) member)
  rw [recent_concat, List.take_succ_cons, take_erase_of_notMem absent]

/-- What a stretch of uses touched comes before everything older. -/
theorem recent_prefix (uses later : List K) : recent later <+: recent (uses ++ later) := by
  unfold recent
  rw [List.reverse_prefix, List.dedup_append]
  exact List.suffix_union_right uses later.dedup

/-- An element stays among the first `m` while at most `m` distinct ones were used since. -/
theorem mem_take_recent (here : x ∈ later) (few : later.dedup.length ≤ m) :
    x ∈ (recent (uses ++ later)).take m := by
  obtain ⟨older, whole⟩ := recent_prefix uses later
  have length : (recent later).length ≤ m := recent_length later ▸ few
  rw [← whole, List.take_append, List.take_of_length_le length]
  exact List.mem_append_left _ (mem_recent.mpr here)

/-- A renaming that keeps the elements in use apart keeps their order of use. -/
theorem recent_map {f : K → L} (apart : ∀ x ∈ uses, ∀ y ∈ uses, f x = f y → x = y) :
    recent (uses.map f) = (recent uses).map f := by
  unfold recent
  rw [List.map_reverse]
  apply congrArg List.reverse
  induction uses with
  | nil => rfl
  | cons x uses ih =>
    have rest := ih (fun y inside z inside' =>
      apart y (List.mem_cons_of_mem _ inside) z (List.mem_cons_of_mem _ inside'))
    have again : f x ∈ uses.map f ↔ x ∈ uses := by
      constructor
      · intro member
        obtain ⟨y, inside, same⟩ := List.mem_map.mp member
        rw [apart x List.mem_cons_self y (List.mem_cons_of_mem _ inside) same.symm]
        exact inside
      · exact List.mem_map_of_mem
    rw [List.map_cons]
    by_cases used : x ∈ uses
    · rw [List.dedup_cons_of_mem (again.mpr used), List.dedup_cons_of_mem used, rest]
    · rw [List.dedup_cons_of_notMem (mt again.mp used), List.dedup_cons_of_notMem used, rest,
        List.map_cons]

end Recency
