import FiduciaMessaging.Outbox.Relay
import FiduciaMessaging.Foundations.Recency
import FiduciaMessaging.Foundations.SortedMap
import Mathlib.Data.Finset.Card
import Mathlib.Data.List.AList

/-! The in-memory inbox, a bounded guard that forgets the least recently used key. Two maps
hold it: the tick at which a key was last used, and the key used at a tick. -/
namespace FiduciaMessaging

open Recency

structure Inbox where
  seen : AList (fun _ : String => Nat)
  order : List (Nat × String)
  nextTick : Nat
  capacity : Nat
  capacity_pos : 1 ≤ capacity

namespace Inbox

/-- `DEFAULT_INBOX_CAPACITY`. -/
def defaultCapacity : Nat := 100000

def withCapacity (capacity : Nat) : Inbox where
  seen := ∅
  order := []
  nextTick := 0
  capacity := max capacity 1
  capacity_pos := le_max_right _ _

def new : Inbox := withCapacity defaultCapacity

def len (inbox : Inbox) : Nat := inbox.seen.keys.length

def isEmpty (inbox : Inbox) : Bool := inbox.len == 0

/- `while self.seen.len() > self.capacity`, with `pop_first` on the ordered map. -/
def evict (capacity : Nat) (seen : AList (fun _ : String => Nat)) :
    List (Nat × String) → AList (fun _ : String => Nat) × List (Nat × String)
  | [] => (seen, [])
  | (tick, evicted) :: rest =>
    if seen.keys.length > capacity then evict capacity (seen.erase evicted) rest
    else (seen, (tick, evicted) :: rest)

section External

variable [External]

def acceptForTenant (inbox : Inbox) (tenantId : Option Uuid) (key : String) : Inbox × Bool :=
  let id := tenantScopedDedupId tenantId key
  let tick := inbox.nextTick
  let nextTick := (tick + 1) % 2 ^ 64
  let seen := inbox.seen.insert id tick
  match inbox.seen.lookup id with
  -- accepted before: its recency is refreshed
  | some previous =>
    let order := SortedMap.insert tick id (SortedMap.remove previous inbox.order)
    ({ inbox with seen := seen, order := order, nextTick := nextTick }, false)
  | none =>
    let (seen, order) := evict inbox.capacity seen (SortedMap.insert tick id inbox.order)
    ({ inbox with seen := seen, order := order, nextTick := nextTick }, true)

def accept (inbox : Inbox) (key : String) : Inbox × Bool := inbox.acceptForTenant none key

def containsForTenant (inbox : Inbox) (tenantId : Option Uuid) (key : String) : Bool :=
  (inbox.seen.lookup (tenantScopedDedupId tenantId key)).isSome

def contains (inbox : Inbox) (key : String) : Bool := inbox.containsForTenant none key

end External

/- The two maps are inverse to each other, the ticks in the order of use. -/
structure Linked (seen : AList (fun _ : String => Nat)) (order : List (Nat × String)) : Prop where
  sorted : SortedMap.Sorted order
  keys : order.map Prod.snd = seen.keys.reverse
  ticks : ∀ entry ∈ order, seen.lookup entry.2 = some entry.1

section Linked

variable {seen : AList (fun _ : String => Nat)} {order : List (Nat × String)} {id : String}
  {tick previous : Nat} {entry : Nat × String}

theorem Linked.mem_order (linked : Linked seen order) (found : seen.lookup id = some tick) :
    (tick, id) ∈ order := by
  have known : id ∈ seen.keys.reverse := by
    rw [List.mem_reverse, ← AList.mem_keys, ← AList.lookup_isSome, found]
    rfl
  rw [← linked.keys] at known
  obtain ⟨entry, inside, rfl⟩ := List.mem_map.mp known
  have same := linked.ticks entry inside
  rw [found] at same
  exact Option.some.inj same ▸ inside

theorem Linked.unseen (linked : Linked seen order) (missing : seen.lookup id = none) :
    ∀ entry ∈ order, entry.2 ≠ id := by
  rintro entry inside rfl
  rw [linked.ticks entry inside] at missing
  cases missing

/-- A refresh takes the stale tick out, and no other. -/
theorem Linked.refresh (linked : Linked seen order) (found : seen.lookup id = some previous)
    (newest : ∀ entry ∈ order, entry.1 < tick) :
    Linked (seen.insert id tick) (SortedMap.insert tick id (SortedMap.remove previous order)) := by
  have stale := linked.mem_order found
  have kept : ∀ entry ∈ order, (entry.1 != previous) = (entry.2 != id) := by
    intro entry inside
    rw [Bool.eq_iff_iff, bne_iff_ne, bne_iff_ne, not_iff_not]
    constructor
    · intro same
      exact congrArg Prod.snd (linked.sorted.functional inside stale same)
    · intro same
      have tick := linked.ticks entry inside
      rw [same, found] at tick
      exact (Option.some.inj tick).symm
  have last : ∀ entry ∈ SortedMap.remove previous order, entry.1 < tick :=
    fun entry inside => newest entry (SortedMap.mem_remove.mp inside).1
  constructor
  · exact SortedMap.insert_sorted (SortedMap.remove_sorted linked.sorted)
  · have others : (SortedMap.remove previous order).map Prod.snd =
        (seen.keys.erase id).reverse := by
      rw [SortedMap.remove, List.filter_congr kept, seen.keys_nodup.erase_eq_filter,
        ← List.filter_reverse, ← linked.keys, List.filter_map]
      rfl
    rw [SortedMap.insert_last last, AList.keys_insert, List.map_append, others, List.reverse_cons]
    rfl
  · intro entry inside
    rcases SortedMap.mem_insert inside with rfl | old
    · exact AList.lookup_insert seen
    · obtain ⟨before, fresh⟩ := SortedMap.mem_remove.mp old
      have other : entry.2 ≠ id := by
        rw [← bne_iff_ne, ← kept entry before, bne_iff_ne]
        exact fresh
      rw [AList.lookup_insert_ne other]
      exact linked.ticks entry before

theorem Linked.add (linked : Linked seen order) (missing : seen.lookup id = none)
    (newest : ∀ entry ∈ order, entry.1 < tick) :
    Linked (seen.insert id tick) (SortedMap.insert tick id order) := by
  have absent : id ∉ seen.keys := AList.lookup_eq_none.mp missing
  constructor
  · exact SortedMap.insert_sorted linked.sorted
  · rw [SortedMap.insert_last newest, AList.keys_insert, List.erase_of_not_mem absent,
      List.map_append, linked.keys, List.reverse_cons]
    rfl
  · intro entry inside
    rcases SortedMap.mem_insert inside with rfl | old
    · exact AList.lookup_insert seen
    · rw [AList.lookup_insert_ne (linked.unseen missing entry old)]
      exact linked.ticks entry old

/-- The first tick belongs to the key used longest ago. -/
theorem Linked.pop {rest : List (Nat × String)} (linked : Linked seen ((tick, id) :: rest)) :
    Linked (seen.erase id) rest ∧ seen.keys = (seen.erase id).keys ++ [id] := by
  have keys : seen.keys = (rest.map Prod.snd).reverse ++ [id] := by
    rw [← List.reverse_cons, ← List.map_cons (f := Prod.snd) (a := (tick, id)), linked.keys,
      List.reverse_reverse]
  have absent : id ∉ (rest.map Prod.snd).reverse := by
    intro member
    have distinct := seen.keys_nodup
    rw [keys] at distinct
    exact (List.nodup_append.mp distinct).2.2 id member id List.mem_cons_self rfl
  have erased : (seen.erase id).keys = (rest.map Prod.snd).reverse := by
    rw [AList.keys_erase, keys, List.erase_append_right _ absent, List.erase_cons_head,
      List.append_nil]
  refine ⟨⟨(List.pairwise_cons.mp linked.sorted).2, ?_, ?_⟩, ?_⟩
  · rw [erased, List.reverse_reverse]
  · intro entry inside
    have other : entry.2 ≠ id := by
      intro same
      exact absent (List.mem_reverse.mpr (List.mem_map.mpr ⟨entry, inside, same⟩))
    rw [AList.lookup_erase_ne other]
    exact linked.ticks entry (List.mem_cons_of_mem _ inside)
  · rw [erased, keys]

/-- The loop keeps the keys last used, up to the capacity. -/
theorem Linked.evicts (linked : Linked seen order) (capacity : Nat) :
    Linked (evict capacity seen order).1 (evict capacity seen order).2 ∧
      (evict capacity seen order).1.keys = seen.keys.take capacity ∧
      ∀ entry ∈ (evict capacity seen order).2, entry ∈ order := by
  induction order generalizing seen with
  | nil =>
    have none_ : seen.keys = [] := by
      rw [← List.reverse_eq_nil_iff, ← linked.keys]
      rfl
    refine ⟨linked, ?_, fun _ inside => inside⟩
    change seen.keys = seen.keys.take capacity
    rw [none_, List.take_nil]
  | cons first rest ih =>
    obtain ⟨tick, evicted⟩ := first
    unfold evict
    split
    · rename_i full
      obtain ⟨popped, keys⟩ := linked.pop
      obtain ⟨linked', taken, older⟩ := ih popped
      have room : capacity ≤ (seen.erase evicted).keys.length := by
        rw [keys, List.length_append] at full
        exact Nat.le_of_lt_succ full
      refine ⟨linked', ?_, fun entry inside => List.mem_cons_of_mem _ (older entry inside)⟩
      rw [taken, keys, List.take_append_of_le_length room]
    · rename_i fits
      exact ⟨linked, (List.take_of_length_le (Nat.not_lt.mp fits)).symm, fun _ inside => inside⟩

end Linked

/- The inbox after accepting these dedup ids, in this order. -/
structure Tracks (inbox : Inbox) (ids : List String) : Prop where
  linked : Linked inbox.seen inbox.order
  keys : inbox.seen.keys = (recent ids).take inbox.capacity
  newest : ∀ entry ∈ inbox.order, entry.1 < inbox.nextTick
  ticked : inbox.nextTick = ids.length

theorem tracks_withCapacity (capacity : Nat) : Tracks (withCapacity capacity) [] where
  linked := ⟨List.Pairwise.nil, rfl, nofun⟩
  keys := List.take_nil.symm
  newest := nofun
  ticked := rfl

inductive Call where
  | accept (key : String)
  | acceptForTenant (tenantId : Option Uuid) (key : String)
  | contains (key : String)
  | containsForTenant (tenantId : Option Uuid) (key : String)

def Call.pair : Call → Option Uuid × String
  | .accept key => (none, key)
  | .acceptForTenant tenantId key => (tenantId, key)
  | .contains key => (none, key)
  | .containsForTenant tenantId key => (tenantId, key)

def Call.accepts : Call → Bool
  | .accept _ => true
  | .acceptForTenant _ _ => true
  | _ => false

/- The pairs given to the accept calls, in order. -/
def accepted (calls : List Call) : List (Option Uuid × String) :=
  (calls.filter Call.accepts).map Call.pair

/- The pairs accepted most recently, up to the bound the inbox was built with. -/
def window (capacity : Nat) (calls : List Call) : List (Option Uuid × String) :=
  (recent (accepted calls)).take (max capacity 1)

section Calls

variable [External] {inbox : Inbox} {ids : List String} {call : Call} {calls : List Call}

def dedupId (pair : Option Uuid × String) : String := tenantScopedDedupId pair.1 pair.2

def serve (inbox : Inbox) : Call → Inbox × Bool
  | .accept key => inbox.accept key
  | .acceptForTenant tenantId key => inbox.acceptForTenant tenantId key
  | .contains key => (inbox, inbox.contains key)
  | .containsForTenant tenantId key => (inbox, inbox.containsForTenant tenantId key)

def after (inbox : Inbox) (calls : List Call) : Inbox :=
  calls.foldl (fun inbox call => (inbox.serve call).1) inbox

/- The answers of a stretch of calls, beside the calls. -/
def answers (inbox : Inbox) : List Call → List (Call × Bool)
  | [] => []
  | call :: rest => (call, (inbox.serve call).2) :: answers (inbox.serve call).1 rest

/-- An accept call answers whether its id was among those kept, and makes it the newest. -/
theorem Tracks.accept (tracks : Tracks inbox ids) (room : ids.length + 1 < 2 ^ 64)
    (tenantId : Option Uuid) (key : String) :
    let id := tenantScopedDedupId tenantId key
    Tracks (inbox.acceptForTenant tenantId key).1 (ids ++ [id]) ∧
      (inbox.acceptForTenant tenantId key).1.capacity = inbox.capacity ∧
      ((inbox.acceptForTenant tenantId key).2 = false ↔
        id ∈ (recent ids).take inbox.capacity) := by
  intro id
  have next : (inbox.nextTick + 1) % 2 ^ 64 = (ids ++ [id]).length := by
    rw [tracks.ticked, Nat.mod_eq_of_lt room, List.length_append]
    rfl
  have advanced : inbox.nextTick < (inbox.nextTick + 1) % 2 ^ 64 := by
    rw [next, tracks.ticked, List.length_append]
    exact Nat.lt_succ_self _
  have older {order : List (Nat × String)} (inside : ∀ entry ∈ order, entry ∈ inbox.order) :
      ∀ entry ∈ SortedMap.insert inbox.nextTick id order,
        entry.1 < (inbox.nextTick + 1) % 2 ^ 64 := by
    intro entry member
    rcases SortedMap.mem_insert member with rfl | old
    · exact advanced
    · exact lt_trans (tracks.newest entry (inside entry old)) advanced
  obtain ⟨n, capacity⟩ := Nat.exists_eq_succ_of_ne_zero (Nat.ne_of_gt inbox.capacity_pos)
  unfold acceptForTenant
  cases found : inbox.seen.lookup id with
  | some previous =>
    have here : id ∈ (recent ids).take inbox.capacity := by
      rw [← tracks.keys, ← AList.mem_keys, ← AList.lookup_isSome, found]
      rfl
    simp only [id, found]
    refine ⟨⟨?_, ?_, ?_, next⟩, trivial, by simp only [true_iff]; exact here⟩
    · exact tracks.linked.refresh found tracks.newest
    · change (inbox.seen.insert id inbox.nextTick).keys = _
      rw [AList.keys_insert, tracks.keys, take_recent_hit here]
    · exact older (fun entry inside => (SortedMap.mem_remove.mp inside).1)
  | none =>
    have missing : id ∉ (recent ids).take inbox.capacity := by
      rw [← tracks.keys]
      exact AList.lookup_eq_none.mp found
    obtain ⟨linked, kept, left_⟩ :=
      (tracks.linked.add found tracks.newest).evicts inbox.capacity
    simp only [id, found]
    refine ⟨⟨linked, ?_, ?_, next⟩,
      trivial, by simp only [Bool.true_eq_false, false_iff]; exact missing⟩
    · change (evict _ _ _).1.keys = _
      rw [kept, AList.keys_insert, List.erase_of_not_mem (AList.lookup_eq_none.mp found),
        tracks.keys]
      change _ = (recent (ids ++ [id])).take inbox.capacity
      rw [capacity] at missing ⊢
      rw [take_recent_miss missing, List.take_succ_cons, List.take_take,
        Nat.min_eq_left (Nat.le_succ n)]
    · intro entry inside
      exact older (fun _ member => member) entry (left_ entry inside)

theorem Tracks.serve (tracks : Tracks inbox ids) (room : ids.length + 1 < 2 ^ 64) (call : Call) :
    Tracks (inbox.serve call).1 (ids ++ (accepted [call]).map dedupId) ∧
      (inbox.serve call).1.capacity = inbox.capacity := by
  have same : Tracks inbox (ids ++ []) := (List.append_nil ids).symm ▸ tracks
  cases call with
  | accept key =>
    obtain ⟨next, capacity, _⟩ := tracks.accept room none key
    exact ⟨next, capacity⟩
  | acceptForTenant tenantId key =>
    obtain ⟨next, capacity, _⟩ := tracks.accept room tenantId key
    exact ⟨next, capacity⟩
  | contains key => exact ⟨same, rfl⟩
  | containsForTenant tenantId key => exact ⟨same, rfl⟩

omit [External] in
theorem accepted_append (calls later : List Call) :
    accepted (calls ++ later) = accepted calls ++ accepted later := by
  rw [accepted, List.filter_append, List.map_append]
  rfl

omit [External] in
theorem accepted_length (calls : List Call) : (accepted calls).length ≤ calls.length := by
  rw [accepted, List.length_map]
  exact List.length_filter_le _ _

omit [External] in
theorem mem_accepted {pair : Option Uuid × String} (member : pair ∈ accepted calls) :
    ∃ call ∈ calls, call.pair = pair := by
  obtain ⟨call, kept, same⟩ := List.mem_map.mp member
  exact ⟨call, (List.mem_filter.mp kept).1, same⟩

theorem tracks_after (calls : List Call) (tracks : Tracks inbox ids)
    (room : ids.length + calls.length < 2 ^ 64) :
    Tracks (inbox.after calls) (ids ++ (accepted calls).map dedupId) ∧
      (inbox.after calls).capacity = inbox.capacity := by
  induction calls generalizing inbox ids with
  | nil => exact ⟨(List.append_nil ids).symm ▸ tracks, rfl⟩
  | cons call rest ih =>
    rw [List.length_cons] at room
    obtain ⟨next, capacity⟩ := tracks.serve (by omega) call
    have fewer := accepted_length [call]
    have left_ : (ids ++ (accepted [call]).map dedupId).length + rest.length < 2 ^ 64 := by
      rw [List.length_append, List.length_map]
      rw [List.length_singleton] at fewer
      omega
    obtain ⟨later, capacity'⟩ := ih next left_
    refine ⟨?_, capacity'.trans capacity⟩
    rw [← List.singleton_append, accepted_append, List.map_append, ← List.append_assoc]
    exact later

/- The ids of the pairs that occur in the calls are different. -/
def Separate (calls : List Call) : Prop :=
  ∀ call ∈ calls, ∀ other ∈ calls, dedupId call.pair = dedupId other.pair →
    call.pair = other.pair

/-- Among the pairs in use, the ids kept are those of the pairs in the window. -/
theorem mem_window (capacity : Nat) (separate : Separate (calls ++ [call])) :
    dedupId call.pair ∈ (recent ((accepted calls).map dedupId)).take (max capacity 1) ↔
      call.pair ∈ window capacity calls := by
  have apart {pair other : Option Uuid × String} (here : pair ∈ accepted calls)
      (there : other ∈ accepted calls ∨ other = call.pair)
      (same : dedupId pair = dedupId other) :
      pair = other := by
    obtain ⟨first, inside, rfl⟩ := mem_accepted here
    rcases there with used | rfl
    · obtain ⟨second, inside', rfl⟩ := mem_accepted used
      exact separate _ (List.mem_append_left _ inside) _ (List.mem_append_left _ inside') same
    · exact separate _ (List.mem_append_left _ inside) _
        (List.mem_append_right _ List.mem_cons_self) same
  rw [recent_map (fun x here y there => apart here (.inl there)), ← List.map_take]
  constructor
  · intro member
    obtain ⟨pair, inside, same⟩ := List.mem_map.mp member
    rw [← apart (mem_recent.mp (List.mem_of_mem_take inside)) (.inr rfl) same]
    exact inside
  · exact List.mem_map_of_mem

theorem after_append (inbox : Inbox) (calls later : List Call) :
    inbox.after (calls ++ later) = (inbox.after calls).after later := List.foldl_append

theorem answers_append (inbox : Inbox) (calls later : List Call) :
    inbox.answers (calls ++ later) = inbox.answers calls ++ (inbox.after calls).answers later := by
  induction calls generalizing inbox with
  | nil => rfl
  | cons call rest ih => exact congrArg ((call, (inbox.serve call).2) :: ·) (ih _)

theorem answers_calls (inbox : Inbox) (calls : List Call) :
    (inbox.answers calls).map Prod.fst = calls := by
  induction calls generalizing inbox with
  | nil => rfl
  | cons call rest ih => exact congrArg (call :: ·) (ih _)

/- An accept call that let the pair through. -/
def admits (pair : Option Uuid × String) (answered : Call × Bool) : Bool :=
  answered.1.accepts && answered.1.pair == pair && answered.2

/-- An accept call refuses exactly the pairs of the window, and a membership test reports
them without changing the inbox. -/
theorem serve_answers {capacity : Nat} (short : (calls ++ [call]).length < 2 ^ 64)
    (separate : Separate (calls ++ [call])) :
    (call.accepts = true → ((((withCapacity capacity).after calls).serve call).2 = false ↔
      call.pair ∈ window capacity calls)) ∧
    (call.accepts = false → ((((withCapacity capacity).after calls).serve call).2 = true ↔
        call.pair ∈ window capacity calls) ∧
      (((withCapacity capacity).after calls).serve call).1 =
        (withCapacity capacity).after calls) := by
  rw [List.length_append, List.length_singleton] at short
  obtain ⟨tracks, bound⟩ := tracks_after calls (tracks_withCapacity capacity)
    (by rw [List.length_nil]; omega)
  rw [List.nil_append] at tracks
  have room : ((accepted calls).map dedupId).length + 1 < 2 ^ 64 := by
    have fewer := accepted_length calls
    rw [List.length_map]
    omega
  have kept := mem_window capacity separate
  have refuses (tenantId : Option Uuid) (key : String) := (tracks.accept room tenantId key).2.2
  have reports (tenantId : Option Uuid) (key : String) :
      ((withCapacity capacity).after calls).containsForTenant tenantId key = true ↔
        tenantScopedDedupId tenantId key ∈
          (recent ((accepted calls).map dedupId)).take (max capacity 1) := by
    rw [containsForTenant, AList.lookup_isSome, AList.mem_keys, tracks.keys, bound]
    rfl
  rw [bound] at refuses
  cases call with
  | accept key => exact ⟨fun _ => (refuses none key).trans kept, nofun⟩
  | acceptForTenant tenantId key => exact ⟨fun _ => (refuses tenantId key).trans kept, nofun⟩
  | contains key => exact ⟨nofun, fun _ => ⟨(reports none key).trans kept, rfl⟩⟩
  | containsForTenant tenantId key =>
    exact ⟨nofun, fun _ => ⟨(reports tenantId key).trans kept, rfl⟩⟩

theorem admitted_accepted {pair : Option Uuid × String}
    (some_ : 0 < (inbox.answers calls).countP (admits pair)) : pair ∈ accepted calls := by
  obtain ⟨answered, inside, admitted⟩ := List.countP_pos_iff.mp some_
  simp only [admits, Bool.and_eq_true, beq_iff_eq] at admitted
  have call := List.mem_map_of_mem (f := Prod.fst) inside
  rw [answers_calls] at call
  exact List.mem_map.mpr ⟨answered.1,
    List.mem_filter.mpr ⟨call, admitted.1.1⟩, admitted.1.2⟩

/-- A stretch that accepts few enough distinct pairs lets each of them through once at most. -/
theorem stretch_admits_once {capacity : Nat} {before stretch : List Call}
    (short : (before ++ stretch).length < 2 ^ 64) (separate : Separate (before ++ stretch))
    (few : (accepted stretch).dedup.length ≤ max capacity 1) (pair : Option Uuid × String) :
    (((withCapacity capacity).after before).answers stretch).countP (admits pair) ≤ 1 := by
  induction stretch using List.reverseRecOn with
  | nil => exact Nat.zero_le 1
  | append_singleton stretch call ih =>
    rw [← List.append_assoc] at short separate
    have fewer : (accepted stretch).dedup.length ≤
        (accepted (stretch ++ [call])).dedup.length := by
      rw [← List.card_toFinset, ← List.card_toFinset, accepted_append, List.toFinset_append]
      exact Finset.card_le_card Finset.subset_union_left
    have once := ih (by rw [List.length_append] at short; omega)
      (fun c here d there => separate c (List.mem_append_left _ here) d
        (List.mem_append_left _ there))
      (fewer.trans few)
    rw [answers_append, List.countP_append]
    rcases Nat.eq_zero_or_pos
      ((((withCapacity capacity).after before).answers stretch).countP (admits pair)) with
      none_ | some_
    · rw [none_, Nat.zero_add]
      exact List.countP_le_length
    · -- the pair was let through before, and is still in the window
      have recently : pair ∈ window capacity (before ++ stretch) := by
        rw [window, accepted_append]
        exact mem_take_recent (admitted_accepted some_) (fewer.trans few)
      have refused : admits pair (call,
          ((((withCapacity capacity).after before).after stretch).serve call).2) = false := by
        rw [← after_append]
        cases accepts : call.accepts with
        | false => simp [admits, accepts]
        | true =>
          by_cases same : call.pair = pair
          · have answer := ((serve_answers short separate).1 accepts).mpr (same ▸ recently)
            simp [admits, answer]
          · simp [admits, same]
      change _ + List.countP (admits pair) [(call, _)] ≤ 1
      rw [List.countP_singleton, refused]
      exact once

/-- The inbox keeps the distinct pairs accepted last, up to its capacity. An accept call
refuses exactly these and a membership test reports them; a stretch of no more distinct
pairs than the capacity lets each through once at most. -/
theorem inbox_is_lru (capacity : Nat) (short : calls.length < 2 ^ 64) (separate : Separate calls) :
    (∀ before call rest, calls = before ++ call :: rest →
      let inbox := (withCapacity capacity).after before
      (call.accepts = true → ((inbox.serve call).2 = false ↔
        call.pair ∈ window capacity before)) ∧
      (call.accepts = false → ((inbox.serve call).2 = true ↔
        call.pair ∈ window capacity before) ∧
        (inbox.serve call).1 = inbox)) ∧
    ((withCapacity capacity).after calls).len =
      min (max capacity 1) (accepted calls).dedup.length ∧
    ∀ before stretch rest, calls = before ++ stretch ++ rest →
      (accepted stretch).dedup.length ≤ max capacity 1 → ∀ pair,
        (((withCapacity capacity).after before).answers stretch).countP (admits pair) ≤ 1 := by
  refine ⟨?_, ?_, ?_⟩
  · intro before call rest whole
    rw [← List.singleton_append, ← List.append_assoc] at whole
    subst whole
    apply serve_answers
    · rw [List.length_append] at short
      exact lt_of_le_of_lt (Nat.le_add_right _ _) short
    · intro c here d there
      exact separate c (List.mem_append_left _ here) d (List.mem_append_left _ there)
  · obtain ⟨tracks, bound⟩ := tracks_after calls (tracks_withCapacity capacity)
      (by rw [List.length_nil]; omega)
    have names : recent ((accepted calls).map dedupId) = (recent (accepted calls)).map dedupId := by
      apply recent_map
      intro pair here other there same
      obtain ⟨first, inside, rfl⟩ := mem_accepted here
      obtain ⟨second, inside', rfl⟩ := mem_accepted there
      exact separate first inside second inside' same
    rw [len, tracks.keys, bound, List.nil_append, names, List.length_take, List.length_map,
      recent_length]
    rfl
  · intro before stretch rest whole few pair
    subst whole
    refine stretch_admits_once ?_ ?_ few pair
    · rw [List.length_append] at short
      exact lt_of_le_of_lt (Nat.le_add_right _ _) short
    · intro c here d there
      exact separate c (List.mem_append_left _ here) d (List.mem_append_left _ there)

end Calls

end Inbox

section Sample

attribute [local instance] Sample.external

/- With room for one key the second evicts the first, which is then accepted again. -/
theorem inbox_is_lru_single :
    let calls : List Inbox.Call := [.accept "order-1", .accept "order-2", .accept "order-1"]
    (((Inbox.withCapacity 0).after (calls.take 2)).serve (.accept "order-1")).2 = true ∧
      ((Inbox.withCapacity 0).after calls).len = 1 := by
  intro calls
  have different : Inbox.dedupId (none, "order-1") ≠ Inbox.dedupId (none, "order-2") := by
    decide +kernel
  have separate : Inbox.Separate calls := by
    intro call here other there same
    simp only [calls, List.mem_cons, List.not_mem_nil, or_false] at here there
    rcases here with rfl | rfl | rfl <;> rcases there with rfl | rfl | rfl
    all_goals first | rfl | exact absurd same different | exact absurd same.symm different
  obtain ⟨served, length, _⟩ := Inbox.inbox_is_lru 0 (by decide) separate
  constructor
  · have forgotten : (none, "order-1") ∉ Inbox.window 0 (calls.take 2) := by decide
    exact Bool.eq_true_of_not_eq_false
      (mt ((served (calls.take 2) (.accept "order-1") [] rfl).1 rfl).mp forgotten)
  · exact length.trans (by decide)

end Sample

end FiduciaMessaging
