import Mathlib.Data.List.TakeWhile
import SmallLisp.Cursor

/-!
# Cursors as lists

A cursor is a list, `Cursor.items`, with a place in it.  Which part of the list is buffered already
makes no difference to what a step yields: `fst_next` says that it is the first item of
`Cursor.ahead`, the part of the list behind the place.

`Moves c n c'` says that `c'` is `c` after `n` items, with the list unchanged.  The loops over sets
of items move by the longest run of such items: `moves_skipAny` and `moves_skipUntilAny`.  Where a
cursor stands inside its buffer (`Settled`), what it hands over and what it keeps are the two
halves of the list (`passed_eq_take`, `items_discard`).

An item that is not accepted is stepped to and gone back from.  A cursor that is at most one step
beyond its buffer (`Placed`) comes back to where it was (`seek_next`).  From anywhere else it may not
get there, but what lies ahead is the same (`next_seek_next`).
-/

namespace SmallLisp.Cursor

variable {α : Type}

/-- All items of a cursor, buffered and unread. -/
def items (c : Cursor α) : List α := c.buffer.toList ++ c.unread

/-- The items that lie ahead of a cursor. -/
def ahead (c : Cursor α) : List α := c.items.drop c.taken

/-- Whether a cursor stands inside its buffer. -/
def Settled (c : Cursor α) : Prop := c.taken ≤ c.buffer.size

/-- Whether a cursor is at most one step beyond its buffer. -/
def Placed (c : Cursor α) : Prop := c.taken ≤ c.buffer.size + 1

/-- Going `n` items ahead. -/
structure Moves (c : Cursor α) (n : ℕ) (c' : Cursor α) : Prop where
  items_eq : c'.items = c.items
  taken_eq : c'.taken = c.taken + n
  settled : c.Settled → c'.Settled

/-! ### Steps -/

theorem length_items (c : Cursor α) : c.items.length = c.total := by
  simp [items, total]

theorem fill_append (goal : ℕ) (buffer : Array α) (unread : List α) :
    (fill goal buffer unread).1.toList ++ (fill goal buffer unread).2
      = buffer.toList ++ unread := by
  induction unread generalizing buffer with
  | nil => rfl
  | cons a rest ih =>
    rw [fill]
    split
    · rw [ih, Array.toList_push, List.append_assoc, List.singleton_append]
    · rfl

theorem items_next (c : Cursor α) : c.next.2.items = c.items :=
  fill_append ..

theorem buffer_fill (goal : ℕ) (buffer : Array α) (unread : List α) :
    buffer.toList <+: (fill goal buffer unread).1.toList := by
  induction unread generalizing buffer with
  | nil => exact List.prefix_rfl
  | cons a rest ih =>
    rw [fill]
    split
    · refine List.IsPrefix.trans ?_ (ih (buffer.push a))
      rw [Array.toList_push]
      exact List.prefix_append ..
    · exact List.prefix_rfl

/-- A step adds to the buffer and takes nothing out of it. -/
theorem buffer_next (c : Cursor α) : c.buffer.toList <+: c.next.2.buffer.toList :=
  buffer_fill ..

/-- A step yields the first item ahead, whatever part of the stream is buffered. -/
theorem fst_next (c : Cursor α) : c.next.1 = c.ahead.head? := by
  have hitems := items_next c
  have htaken := taken_next c
  have hsize := size_next c
  have hlen := length_items c
  rw [ahead, List.head?_drop, ← hitems]
  show c.next.2.current? = _
  rw [current?, if_neg (by omega)]
  by_cases h : c.taken < c.total
  · -- The step is inside the buffer, which it fills as far as it goes.
    have hplace : c.next.2.taken - 1 = c.taken := by omega
    have hlt : c.taken < c.next.2.buffer.toList.length := by
      rw [Array.length_toList]; omega
    rw [hplace, items, List.getElem?_append_left hlt, Array.getElem?_toList]
  · have hout : c.next.2.buffer.size ≤ c.next.2.taken - 1 := by
      have : c.buffer.size ≤ c.total := Nat.le_add_right ..
      omega
    rw [Array.getElem?_eq_none hout, List.getElem?_eq_none]
    rw [hitems, hlen]
    omega

/-- A step with an item ahead goes there. -/
theorem moves_next {c : Cursor α} {a : α} {rest : List α} (h : c.ahead = a :: rest) :
    Moves c 1 c.next.2 := by
  have hlt : c.taken < c.total := by
    rw [← isSome_next, fst_next, h]; rfl
  refine ⟨items_next c, ?_, fun _ => ?_⟩
  · rw [taken_next]; omega
  · rw [Settled, taken_next, size_next]; omega

/-- Looking ahead moves by nothing. -/
theorem moves_peek (c : Cursor α) : Moves c 0 c.peek.2 := by
  refine ⟨items_next c, rfl, fun h => ?_⟩
  rw [Settled, taken_peek, size_peek]
  exact Nat.le_trans h (Nat.le_max_left ..)

namespace Moves

variable {c c' c'' : Cursor α} {m n : ℕ}

theorem trans (h : Moves c m c') (h' : Moves c' n c'') : Moves c (m + n) c'' := by
  refine ⟨h'.items_eq.trans h.items_eq, ?_, fun hs => h'.settled (h.settled hs)⟩
  rw [h'.taken_eq, h.taken_eq, Nat.add_assoc]

theorem ahead_eq (h : Moves c n c') : c'.ahead = c.ahead.drop n := by
  rw [ahead, ahead, h.items_eq, h.taken_eq, List.drop_drop]

end Moves

theorem ahead_of_next_some {c c' : Cursor α} {a : α} (h : c.next = (some a, c')) :
    c.ahead = a :: c'.ahead := by
  obtain ⟨rest, hrest⟩ : ∃ rest, c.ahead = a :: rest := by
    rw [← List.head?_eq_some_iff, ← fst_next, h]
  have hahead := (moves_next hrest).ahead_eq
  rw [h, hrest] at hahead
  rw [hrest, hahead]
  rfl

theorem ahead_of_next_none {c c' : Cursor α} (h : c.next = (none, c')) :
    c.ahead = [] ∧ c'.ahead = [] := by
  have hout := isSome_next c
  have htaken := taken_next c
  rw [h] at hout htaken
  simp only [Option.isSome_none, Bool.false_eq_true, false_iff] at hout
  have hitems : c'.items = c.items := by rw [← items_next c, h]
  rw [ahead, ahead, List.drop_eq_nil_iff, List.drop_eq_nil_iff, hitems, length_items]
  simp only at htaken
  omega

/-- Looking ahead yields the first item ahead, and moves by nothing. -/
theorem peek_eq {c c' : Cursor α} {o : Option α} (h : c.peek = (o, c')) :
    c.ahead.head? = o ∧ Moves c 0 c' := by
  have hmoves := moves_peek c
  rw [h] at hmoves
  refine ⟨?_, hmoves⟩
  rw [← fst_next, ← fst_peek, h]

theorem fill_fill (goal : ℕ) (buffer : Array α) (unread : List α) :
    fill goal (fill goal buffer unread).1 (fill goal buffer unread).2
      = fill goal buffer unread := by
  induction unread generalizing buffer with
  | nil => rfl
  | cons a rest ih =>
    by_cases h : buffer.size < goal
    · rw [fill, if_pos h, ih]
    · simp only [fill, if_neg h]

/-- A step after looking ahead is the step that was looked at. -/
theorem next_peek (c : Cursor α) : c.peek.2.next = c.next := by
  simp only [peek, next, fill_fill]

/-- What lies ahead is what the steps from here yield. -/
theorem ahead_congr {c c' : Cursor α} (h : c'.next = c.next) : c'.ahead = c.ahead := by
  rcases hnext : c.next with ⟨_ | a, d⟩
  · rw [(ahead_of_next_none hnext).1, (ahead_of_next_none (h.trans hnext)).1]
  · rw [ahead_of_next_some hnext, ahead_of_next_some (h.trans hnext)]

theorem fst_atEnd (c : Cursor α) : c.atEnd.1 = c.ahead.isEmpty := by
  show c.next.1.isNone = _
  rw [fst_next]
  cases c.ahead <;> rfl

/-! ### Going back from a step -/

theorem placed_next (c : Cursor α) : c.next.2.Placed := by
  have htaken := taken_next c
  have hsize := size_next c
  unfold Placed
  omega

theorem items_seek (p : Int) (c : Cursor α) : (c.seek p).2.items = c.items := by
  unfold seek
  split_ifs <;> rfl

/-- Going back from a step leads to where looking ahead leads, if the position is one to go to. -/
theorem seek_position_next {c : Cursor α} (h : c.position ≤ c.next.2.buffer.size) :
    c.next.2.seek c.position = (true, c.peek.2) := by
  have hinside : -1 ≤ c.position ∧ c.position ≤ c.next.2.buffer.size :=
    ⟨by unfold position; omega, h⟩
  have htaken : (c.position + 1).toNat = c.taken := by
    unfold position
    omega
  rw [seek, if_pos hinside, htaken]
  rfl

theorem seek_next {c : Cursor α} (h : c.Placed) :
    c.next.2.seek c.position = (true, c.peek.2) := by
  have hsize := size_next c
  refine seek_position_next ?_
  unfold Placed at h
  unfold position
  omega

/-- At the end of the stream a step leads nowhere. -/
theorem next_of_unread {c : Cursor α} (hunread : c.unread = [])
    (htaken : c.taken = c.buffer.size + 1) : c.next = (c.current?, c) := by
  obtain ⟨buffer, unread, taken⟩ := c
  simp only at hunread htaken
  subst hunread htaken
  simp [next, fill]

/-- A step that is gone back from can be taken again. -/
theorem next_seek_next (c : Cursor α) : (c.next.2.seek c.position).2.next = c.next := by
  by_cases h : c.position ≤ c.next.2.buffer.size
  · rw [seek_position_next h]
    exact c.next_peek
  · -- The cursor was beyond the end, and the step has led to the end.
    have hfar : ¬(c.taken : Int) - 1 ≤ c.next.2.buffer.size := h
    have hsize := size_next c
    have htaken := taken_next c
    have htotal : c.next.2.buffer.size + c.next.2.unread.length = c.total := total_next c
    have hunread : c.next.2.unread = [] := List.length_eq_zero_iff.1 (by omega)
    have hend : c.next.2.taken = c.next.2.buffer.size + 1 := by omega
    rw [seek, if_neg fun hinside => h hinside.2]
    exact next_of_unread hunread hend

/-! ### Runs of items -/

theorem drop_length_takeWhile (p : α → Bool) (l : List α) :
    l.drop (l.takeWhile p).length = l.dropWhile p := by
  induction l with
  | nil => rfl
  | cons a l ih => by_cases h : p a = true <;> simp [h, ih]

theorem take_length_takeWhile (p : α → Bool) (l : List α) :
    l.take (l.takeWhile p).length = l.takeWhile p :=
  (List.prefix_iff_eq_take.mp (List.takeWhile_prefix p)).symm

/-- A run is empty if the first item is not in it. -/
theorem takeWhile_eq_nil {p : α → Bool} {l : List α} (h : ∀ a ∈ l.head?, p a = false) :
    l.takeWhile p = [] := by
  cases l with
  | nil => rfl
  | cons a l => rw [List.takeWhile_cons_of_neg (by simpa using h a rfl)]

/-! ### Steps over sets of items -/

section
variable [BEq α]

theorem acceptAny_of_contains {set : List α} {c : Cursor α} {a : α} {rest : List α}
    (h : c.ahead = a :: rest) (ha : set.contains a = true) :
    c.acceptAny set = (some a, c.next.2) := by
  have hfst : c.next.1 = some a := by rw [fst_next, h]; rfl
  have hnext : c.next = (some a, c.next.2) := Prod.ext hfst rfl
  rw [acceptAny, hnext]
  simp [ha]

/-- What is not in the set is stepped to and gone back from. -/
theorem acceptAny_of_not_contains {set : List α} {c : Cursor α}
    (h : ∀ a ∈ c.ahead.head?, set.contains a = false) :
    c.acceptAny set = (none, (c.next.2.seek c.position).2) := by
  rw [← fst_next] at h
  rw [acceptAny]
  rcases hn : c.next with ⟨_ | a, c'⟩
  · rfl
  · have ha : set.contains a = false := h a (by rw [hn]; rfl)
    simp only [ha, Bool.false_eq_true, ↓reduceIte]

/-- What is accepted comes next and is in the set. -/
theorem of_acceptAny_some {set : List α} {c c' : Cursor α} {a : α}
    (h : c.acceptAny set = (some a, c')) : c.next = (some a, c') ∧ set.contains a = true := by
  have hn : c.acceptAny set = c.next := acceptAny_of_isSome (by rw [h]; rfl)
  have hnext : c.next = (some a, c') := hn.symm.trans h
  refine ⟨hnext, ?_⟩
  by_contra hnot
  have hhead : ∀ b ∈ c.ahead.head?, set.contains b = false := by
    rw [← fst_next, hnext]
    rintro b ⟨⟩
    simpa using hnot
  rw [acceptAny_of_not_contains hhead] at h
  cases h

/-- Where nothing is accepted, nothing of the set comes next, and the cursor has gone back. -/
theorem of_acceptAny_none {set : List α} {c c' : Cursor α} (h : c.acceptAny set = (none, c')) :
    (∀ a ∈ c.ahead.head?, set.contains a = false) ∧ c' = (c.next.2.seek c.position).2 := by
  have hnot : ∀ a ∈ c.ahead.head?, set.contains a = false := by
    intro a ha
    obtain ⟨rest, hrest⟩ := List.head?_eq_some_iff.mp ha
    by_contra hin
    rw [acceptAny_of_contains hrest (by simpa using hin)] at h
    cases h
  rw [acceptAny_of_not_contains hnot] at h
  exact ⟨hnot, (Prod.mk.inj h).2.symm⟩

/-- Skipping goes past the longest run of items of the set, and tells whether it is empty. -/
theorem moves_skipAny (set : List α) {c : Cursor α} (h : c.Placed) :
    (c.skipAny set).1 = !(c.ahead.takeWhile set.contains).isEmpty ∧
      Moves c (c.ahead.takeWhile set.contains).length (c.skipAny set).2 := by
  fun_induction skipAny set c with
  | case1 c a c' hacc ih =>
    obtain ⟨hnext, ha⟩ := of_acceptAny_some hacc
    obtain rfl : c' = c.next.2 := by rw [hnext]
    obtain ⟨rest, hrest⟩ : ∃ rest, c.ahead = a :: rest := ⟨_, ahead_of_next_some hnext⟩
    -- The run is `a` and the run that the loop goes past from there on.
    have hstep := moves_next hrest
    have hmoves := hstep.trans (ih (placed_next c)).2
    rw [hstep.ahead_eq, hrest] at hmoves
    rw [hrest, List.takeWhile_cons_of_pos ha]
    refine ⟨rfl, ?_⟩
    rw [List.length_cons, Nat.add_comm]
    exact hmoves
  | case2 c c' hacc =>
    -- Nothing is accepted, so the run is empty, and the cursor is back where it was.
    obtain ⟨hnot, rfl⟩ := of_acceptAny_none hacc
    rw [takeWhile_eq_nil hnot, seek_next h]
    exact ⟨rfl, moves_peek c⟩

/-- Going on until an item of the set goes past the longest run of other items. -/
theorem moves_skipUntilAny (set : List α) (c : Cursor α) :
    (c.skipUntilAny set).1 = !(c.ahead.takeWhile fun a => !set.contains a).isEmpty ∧
      Moves c (c.ahead.takeWhile fun a => !set.contains a).length (c.skipUntilAny set).2 := by
  fun_induction skipUntilAny set c with
  | case1 c a c' hpeek ha =>
    -- An item of the set ends the run before it has begun.
    obtain ⟨hfst, hlook⟩ := peek_eq hpeek
    obtain ⟨rest, hrest⟩ := List.head?_eq_some_iff.mp hfst
    rw [hrest, List.takeWhile_cons_of_neg (by simpa using ha)]
    exact ⟨rfl, hlook⟩
  | case2 c a c' hpeek ha ih =>
    obtain ⟨hfst, hlook⟩ := peek_eq hpeek
    obtain ⟨rest, hrest⟩ := List.head?_eq_some_iff.mp hfst
    have hrest' : c'.ahead = a :: rest := by rw [hlook.ahead_eq, List.drop_zero, hrest]
    have hstep := hlook.trans (moves_next hrest')
    have hmoves := hstep.trans ih.2
    rw [hstep.ahead_eq, hrest] at hmoves
    rw [hrest, List.takeWhile_cons_of_pos (by simpa using ha)]
    refine ⟨rfl, ?_⟩
    rw [List.length_cons, Nat.add_comm]
    simpa using hmoves
  | case3 c c' hpeek =>
    obtain ⟨hfst, hlook⟩ := peek_eq hpeek
    rw [List.head?_eq_none_iff.mp hfst]
    exact ⟨rfl, hlook⟩

end

/-! ### What has been walked past -/

theorem toList_passed (c : Cursor α) : c.passed.toList = c.buffer.toList.take c.taken := by
  rw [passed, Array.toList_extract, List.extract_eq_take_drop, List.drop_zero, Nat.sub_zero]

theorem toList_buffer_discard (c : Cursor α) :
    c.discard.buffer.toList = c.buffer.toList.drop c.taken := by
  rw [discard, Array.toList_extract, List.extract_eq_take_drop, List.take_of_length_le]
  simp

/-- What a cursor hands over is the first part of the list. -/
theorem passed_eq_take {c : Cursor α} (h : c.Settled) : c.passed.toList = c.items.take c.taken := by
  rw [toList_passed, items,
    List.take_append_of_le_length (by rw [Array.length_toList]; exact h)]

/-- What a cursor keeps when it drops the first part is the second. -/
theorem items_discard {c : Cursor α} (h : c.Settled) : c.discard.items = c.ahead := by
  rw [ahead, items, items, toList_buffer_discard,
    List.drop_append_of_le_length (by rw [Array.length_toList]; exact h)]
  rfl

/-- What a cursor hands over and what it keeps are all its items, settled or not. -/
theorem passed_append_items_discard (c : Cursor α) :
    c.passed.toList ++ c.discard.items = c.items := by
  rw [items, toList_passed, toList_buffer_discard, ← List.append_assoc, List.take_append_drop]
  rfl

/-- At the start of its list a cursor has everything ahead. -/
theorem ahead_of_taken {c : Cursor α} (h : c.taken = 0) : c.ahead = c.items := by
  rw [ahead, h, List.drop_zero]

theorem settled_of_taken {c : Cursor α} (h : c.taken = 0) : c.Settled := by
  rw [Settled, h]; exact Nat.zero_le _

theorem placed_of_taken {c : Cursor α} (h : c.taken = 0) : c.Placed := by
  rw [Placed, h]; exact Nat.zero_le _

end SmallLisp.Cursor
