import Mathlib.Data.List.Pairwise

/-! Rows that open transactions have inserted and not committed. An insert yields to
a conflicting row its transaction can see and waits for one it cannot, so what is
committed and what is drafted never clash. -/
namespace Drafts

variable {R K Tx : Type} [DecidableEq Tx]

structure Draft (Tx R : Type) where
  writer : Tx
  row : R

inductive Outcome where
  | waits | yields | inserts

/-- `INSERT .. ON CONFLICT DO NOTHING` of a row that clashes with `clashes`, where `taken`
says whether a committed row is among them. -/
def serve (clashes : R → Bool) (taken : Bool) (tx : Tx) (drafts : List (Draft Tx R)) : Outcome :=
  if drafts.any (fun d => d.writer != tx && clashes d.row) then .waits
  else if taken || drafts.any (fun d => clashes d.row) then .yields
  else .inserts

def own (tx : Tx) (drafts : List (Draft Tx R)) : List (Draft Tx R) :=
  drafts.filter (fun d => d.writer == tx)

def others (tx : Tx) (drafts : List (Draft Tx R)) : List (Draft Tx R) :=
  drafts.filter (fun d => d.writer != tx)

variable {tx : Tx} {drafts : List (Draft Tx R)} {d : Draft Tx R}
  {clashes : R → Bool} {taken : Bool}

@[simp] theorem mem_own : d ∈ own tx drafts ↔ d ∈ drafts ∧ d.writer = tx := by
  simp [own]

@[simp] theorem mem_others : d ∈ others tx drafts ↔ d ∈ drafts ∧ d.writer ≠ tx := by
  simp [others]

theorem serve_yields (served : serve clashes taken tx drafts = .yields) :
    taken = true ∨ ∃ d ∈ own tx drafts, clashes d.row = true := by
  unfold serve at served
  split at served
  · contradiction
  · rename_i ready
    split at served
    · rename_i found
      rcases Bool.or_eq_true_iff.mp found with committed | drafted
      · exact .inl committed
      · obtain ⟨d, member, clash⟩ := List.any_eq_true.mp drafted
        refine .inr ⟨d, mem_own.mpr ⟨member, ?_⟩, clash⟩
        by_contra other
        exact ready (List.any_eq_true.mpr ⟨d, member, by simp [other, clash]⟩)
    · contradiction

theorem serve_inserts (served : serve clashes taken tx drafts = .inserts) :
    taken = false ∧ ∀ d ∈ drafts, clashes d.row = false := by
  unfold serve at served
  split at served
  · contradiction
  · split at served
    · contradiction
    · rename_i free
      simpa using free

/-- No draft clashes with a committed key, nor with another draft. -/
structure Apart (clash : K → K → Bool) (key : R → K) (committed : List K)
    (drafts : List (Draft Tx R)) : Prop where
  clear : ∀ d ∈ drafts, ∀ k ∈ committed, clash k (key d.row) = false
  among : drafts.Pairwise (fun a b => clash (key a.row) (key b.row) = false)

section Apart

variable {clash : K → K → Bool} {key : R → K} {committed after : List K}
  (apart : Apart clash key committed drafts)

omit [DecidableEq Tx] in
include apart in
theorem Apart.insert {row : R} (free : ∀ k ∈ committed, clash k (key row) = false)
    (alone : ∀ d ∈ drafts, clash (key d.row) (key row) = false) :
    Apart clash key committed (drafts ++ [⟨tx, row⟩]) where
  clear := by
    intro d member k inside
    rcases List.mem_append.mp member with old | new
    · exact apart.clear d old k inside
    · rw [List.mem_singleton.mp new]
      exact free k inside
  among := by
    refine List.pairwise_append.mpr ⟨apart.among, List.pairwise_singleton _ _, ?_⟩
    intro d member new single
    rw [List.mem_singleton.mp single]
    exact alone d member

omit [DecidableEq Tx] in
include apart in
/-- Other keys may be committed, if they clash with no draft. -/
theorem Apart.committing (clear : ∀ k ∈ after, k ∈ committed ∨
    ∀ d ∈ drafts, clash k (key d.row) = false) : Apart clash key after drafts where
  clear := by
    intro d member k inside
    rcases clear k inside with old | new
    · exact apart.clear d member k old
    · exact new d member
  among := apart.among

include apart in
theorem Apart.drop (tx : Tx) : Apart clash key committed (others tx drafts) where
  clear := fun d member k inside => apart.clear d (mem_others.mp member).1 k inside
  among := apart.among.sublist List.filter_sublist

include apart in
/-- A transaction's drafts become committed keys all at once. -/
theorem Apart.commit (symmetric : ∀ a b, clash a b = clash b a) (tx : Tx) :
    Apart clash key (committed ++ (own tx drafts).map (fun d => key d.row)) (others tx drafts) := by
  refine (apart.drop tx).committing ?_
  intro k inside
  rcases List.mem_append.mp inside with old | new
  · exact .inl old
  · right
    obtain ⟨d, mine, rfl⟩ := List.mem_map.mp new
    intro e theirs
    obtain ⟨inside, writer⟩ := mem_own.mp mine
    obtain ⟨inside', writer'⟩ := mem_others.mp theirs
    have different : d ≠ e := fun same => writer' (same ▸ writer)
    have mirror : Std.Symm (fun a b : Draft Tx R => clash (key a.row) (key b.row) = false) :=
      ⟨fun _ _ free => (symmetric _ _).trans free⟩
    exact apart.among.forall inside inside' different

end Apart

end Drafts
