import Mathlib.Data.List.Induction
import SmallLisp.Proofs.Cursor

/-!
# Walks of a cursor

A walk starts with a cursor before some input and performs operations on it, one after the other,
in any order (`Cursor.walk`).  Along with the cursor it keeps what has been dropped so far.

Two facts hold at the start and are kept by every operation, so they hold at every point of every
walk: the cursor is at most one step beyond its buffer (`Cursor.Placed`), and no item is lost or
doubled (`Operation.dropped_append_items`).  `walk_refines` draws the consequences: a cursor is a
position in the input that has not been dropped, and how much of that is buffered makes no
difference to a step.
-/

namespace SmallLisp.Cursor

variable {α : Type}

/-! ### Operations -/

/-- What can be done with a cursor. -/
inductive Operation (α : Type) where
  | next
  | peek
  | current
  | atEnd
  | seek (p : Int)
  | accept (item : α)
  | acceptAny (items : List α)
  | skipAny (items : List α)
  | skipUntilAny (items : List α)
  | passed
  | extract
  | discard

namespace Operation

/-- The cursor after an operation. -/
def perform [BEq α] : Operation α → Cursor α → Cursor α
  | next, c => c.next.2
  | peek, c => c.peek.2
  | current, c => c
  | atEnd, c => c.atEnd.2
  | seek p, c => (c.seek p).2
  | accept item, c => (c.accept item).2
  | acceptAny items, c => (c.acceptAny items).2
  | skipAny items, c => (c.skipAny items).2
  | skipUntilAny items, c => (c.skipUntilAny items).2
  | passed, c => c
  | extract, c => c.extract.2
  | discard, c => c.discard

/-- The items that an operation drops, which are those that it hands over if it does. -/
def dropped : Operation α → Cursor α → List α
  | extract, c => c.extract.1.toList
  | discard, c => c.passed.toList
  | _, _ => []

end Operation

/-- What operations on a cursor before some input have dropped, and the cursor after them. -/
def walk [BEq α] (input : List α) (operations : List (Operation α)) : List α × Cursor α :=
  operations.foldl (fun w operation =>
    (w.1 ++ operation.dropped w.2, operation.perform w.2)) ([], ofList input)

/-! ### The place of a cursor -/

theorem Placed.peek {c : Cursor α} (h : c.Placed) : c.peek.2.Placed := by
  have hsize := size_peek c
  have htaken := taken_peek c
  unfold Placed at *
  omega

theorem placed_seek {c : Cursor α} (h : c.Placed) (p : Int) : (c.seek p).2.Placed := by
  unfold seek
  split_ifs with hp
  · unfold Placed
    simp only
    omega
  · exact h

section
variable [BEq α]

theorem placed_acceptAny (set : List α) (c : Cursor α) : (c.acceptAny set).2.Placed := by
  rcases hacc : c.acceptAny set with ⟨_ | a, c'⟩
  · rw [(of_acceptAny_none hacc).2]
    exact placed_seek (placed_next c) c.position
  · have hnext := placed_next c
    rw [(of_acceptAny_some hacc).1] at hnext
    exact hnext

theorem placed_skipAny (set : List α) (c : Cursor α) : (c.skipAny set).2.Placed := by
  fun_induction skipAny set c with
  | case1 c a c' hacc ih => exact ih
  | case2 c c' hacc =>
    have hc' := placed_acceptAny set c
    rw [hacc] at hc'
    exact hc'

theorem placed_skipUntilAny {c : Cursor α} (h : c.Placed) (set : List α) :
    (c.skipUntilAny set).2.Placed := by
  fun_induction skipUntilAny set c with
  | case1 c a c' hpeek ha =>
    have hc' := h.peek
    rw [hpeek] at hc'
    exact hc'
  | case2 c a c' hpeek ha ih => exact ih (placed_next c')
  | case3 c c' hpeek =>
    have hc' := h.peek
    rw [hpeek] at hc'
    exact hc'

/-- Every operation keeps a cursor in place. -/
theorem Operation.placed_perform {c : Cursor α} (h : c.Placed) (operation : Operation α) :
    (operation.perform c).Placed := by
  cases operation with
  | next => exact placed_next c
  | peek => exact h.peek
  | current => exact h
  | atEnd => exact h.peek
  | seek p => exact placed_seek h p
  | accept item => exact placed_acceptAny [item] c
  | acceptAny items => exact placed_acceptAny items c
  | skipAny items => exact placed_skipAny items c
  | skipUntilAny items => exact placed_skipUntilAny h items
  | passed => exact h
  | extract => exact Nat.zero_le _
  | discard => exact Nat.zero_le _

end

/-! ### The items of a cursor -/

section
variable [BEq α]

theorem items_acceptAny (set : List α) (c : Cursor α) : (c.acceptAny set).2.items = c.items := by
  rcases hacc : c.acceptAny set with ⟨_ | a, c'⟩
  · rw [(of_acceptAny_none hacc).2, items_seek, items_next]
  · have hnext := items_next c
    rw [(of_acceptAny_some hacc).1] at hnext
    exact hnext

/-- An operation drops items from the front and keeps the others. -/
theorem Operation.dropped_append_items {c : Cursor α} (h : c.Placed) (operation : Operation α) :
    operation.dropped c ++ (operation.perform c).items = c.items := by
  cases operation with
  | next => exact items_next c
  | peek => exact (moves_peek c).items_eq
  | current => rfl
  | atEnd => exact (moves_peek c).items_eq
  | seek p => exact items_seek p c
  | accept item => exact items_acceptAny [item] c
  | acceptAny items => exact items_acceptAny items c
  | skipAny items => exact (moves_skipAny items h).2.items_eq
  | skipUntilAny items => exact (moves_skipUntilAny items c).2.items_eq
  | passed => rfl
  | extract => exact passed_append_items_discard c
  | discard => exact passed_append_items_discard c

/-! ### Walks -/

theorem walk_concat (input : List α) (operations : List (Operation α)) (operation : Operation α) :
    walk input (operations ++ [operation])
      = ((walk input operations).1 ++ operation.dropped (walk input operations).2,
        operation.perform (walk input operations).2) := by
  rw [walk, List.foldl_append]
  rfl

/-- At every point of a walk the cursor is in place, and what has been dropped is the input up to
the items of the cursor. -/
theorem walk_invariant (input : List α) (operations : List (Operation α)) :
    (walk input operations).2.Placed ∧
      (walk input operations).1 ++ (walk input operations).2.items = input := by
  induction operations using List.reverseRecOn with
  | nil => exact ⟨Nat.zero_le _, rfl⟩
  | append_singleton operations operation ih =>
    obtain ⟨hplaced, hitems⟩ := ih
    rw [walk_concat]
    refine ⟨operation.placed_perform hplaced, ?_⟩
    rw [List.append_assoc, operation.dropped_append_items hplaced, hitems]

end

/-! ### Steps and positions -/

/-- A step goes to the next position, up to the end. -/
theorem position_next (c : Cursor α) :
    c.next.2.position = min (c.position + 1) c.items.length := by
  rw [length_items, position, position, taken_next]
  omega

/-- A step yields the item at the position that it goes to. -/
theorem fst_next_eq_getElem? (c : Cursor α) :
    c.next.1 = c.items[c.next.2.position.toNat]? := by
  have hplace : c.next.2.position.toNat = min c.taken c.items.length := by
    rw [position_next, position]
    omega
  rw [fst_next, ahead, List.head?_drop, hplace]
  by_cases hc : c.taken ≤ c.items.length
  · rw [Nat.min_eq_left hc]
  · -- Beyond the end there is as little as at the end.
    rw [List.getElem?_eq_none (by omega), List.getElem?_eq_none (by omega)]

/-- **A cursor is a position in what is left of the input**: after any operations its position lies
between `-1` and the end of its buffer, and no item is lost or doubled.  A step goes on by one
position, up to the end, and yields the item there, whatever part of the stream is buffered; and
going back from a step, as where nothing is accepted, never fails. -/
theorem walk_refines [BEq α] (input : List α) (operations : List (Operation α)) :
    match walk input operations with
    | (dropped, c) =>
      (-1 ≤ c.position ∧ c.position ≤ c.buffer.size) ∧
        dropped ++ c.buffer.toList ++ c.unread = input ∧
        (c.next.2.position = min (c.position + 1) (c.buffer.toList ++ c.unread).length ∧
          c.next.1 = (c.buffer.toList ++ c.unread)[c.next.2.position.toNat]?) ∧
        ∀ set, (c.acceptAny set).1 = none →
          c.next.2.seek c.position = (true, (c.acceptAny set).2) := by
  obtain ⟨hplaced, hitems⟩ := walk_invariant input operations
  generalize walk input operations = w at hplaced hitems
  obtain ⟨dropped, c⟩ := w
  refine ⟨⟨?_, ?_⟩, ?_, ⟨position_next c, fst_next_eq_getElem? c⟩, ?_⟩
  · unfold position
    omega
  · have htaken : c.taken ≤ c.buffer.size + 1 := hplaced
    unfold position
    omega
  · rw [List.append_assoc]
    exact hitems
  · intro set hset
    have hacc : c.acceptAny set = (none, (c.acceptAny set).2) := Prod.ext hset rfl
    rw [(of_acceptAny_none hacc).2, seek_next hplaced]

end SmallLisp.Cursor
