/-!
# Cursors

A cursor walks over a stream of items.  Items move from the unread stream into a buffer as the
cursor comes to them, so that it can look ahead, go back to any buffered place, and finally hand
over or drop all that it has walked past.

The place of a cursor is the number of items taken from the front of its buffer, `taken`; one
step beyond the last buffered item is also a place.  Seen from outside, `position` counts from
`-1`, the place before the first item.

The facts here serve termination: no operation loses an item (`total_next`), a step moves by one
until the end (`taken_next`), and a step yields an item exactly when one is left
(`isSome_next`).
-/

namespace SmallLisp

/-- A walk over a stream of items. -/
structure Cursor (α : Type) where
  /-- Items that have been pulled from the stream and not dropped since. -/
  buffer : Array α
  /-- The stream from here on. -/
  unread : List α
  /-- How many items the cursor has walked past, counted from the front of the buffer. -/
  taken : Nat

namespace Cursor

variable {α : Type}

/-- A cursor before the first of the given items. -/
def ofList (items : List α) : Cursor α :=
  ⟨#[], items, 0⟩

/-- A cursor before the first character of a text. -/
def ofString (text : String) : Cursor Char :=
  ofList text.toList

/-- The index of the current item, `-1` before the first. -/
def position (c : Cursor α) : Int :=
  (c.taken : Int) - 1

/-- The item that the cursor came past last. -/
def current? (c : Cursor α) : Option α :=
  if c.taken = 0 then none else c.buffer[c.taken - 1]?

/-- How many items there are, buffered and unread. -/
def total (c : Cursor α) : Nat :=
  c.buffer.size + c.unread.length

/-- How many items lie ahead of the cursor. -/
def remaining (c : Cursor α) : Nat :=
  c.total - c.taken

/-! ### Steps -/

/-- Moves items from the stream to the buffer until it holds `goal` items or the stream ends. -/
def fill (goal : Nat) (buffer : Array α) : List α → Array α × List α
  | [] => (buffer, [])
  | a :: rest => if buffer.size < goal then fill goal (buffer.push a) rest else (buffer, a :: rest)

/-- Goes to the next item and returns it; at the end of the stream the cursor stops one step
beyond the last item. -/
def next (c : Cursor α) : Option α × Cursor α :=
  let (buffer, unread) := fill (c.taken + 1) c.buffer c.unread
  let c' : Cursor α := ⟨buffer, unread, min (c.taken + 1) (buffer.size + 1)⟩
  (c'.current?, c')

/-- The item that `next` would return, without going there. -/
def peek (c : Cursor α) : Option α × Cursor α :=
  let (item, c') := c.next
  (item, { c' with taken := c.taken })

/-- Whether nothing is left to read. -/
def atEnd (c : Cursor α) : Bool × Cursor α :=
  let (item, c') := c.peek
  (item.isNone, c')

/-- Goes to a position between `-1` and one step beyond the buffer; refuses any other. -/
def seek (p : Int) (c : Cursor α) : Bool × Cursor α :=
  if -1 ≤ p ∧ p ≤ c.buffer.size then (true, { c with taken := (p + 1).toNat }) else (false, c)

/-! ### What has been walked past -/

/-- The buffered items that the cursor has walked past. -/
def passed (c : Cursor α) : Array α :=
  c.buffer.extract 0 c.taken

/-- Drops the items that the cursor has walked past; what follows becomes the start. -/
def discard (c : Cursor α) : Cursor α :=
  { c with buffer := c.buffer.extract c.taken c.buffer.size, taken := 0 }

/-- Hands over the items that the cursor has walked past and drops them. -/
def extract (c : Cursor α) : Array α × Cursor α :=
  (c.passed, c.discard)

/-- Hands over the characters that the cursor has walked past, as a text. -/
def extractString (c : Cursor Char) : String × Cursor Char :=
  (String.ofList c.passed.toList, c.discard)

/-! ### Sizes -/

theorem total_fill (goal : Nat) (buffer : Array α) (unread : List α) :
    (fill goal buffer unread).1.size + (fill goal buffer unread).2.length
      = buffer.size + unread.length := by
  induction unread generalizing buffer with
  | nil => rfl
  | cons a rest ih =>
    rw [fill]
    split
    · rw [ih, Array.size_push, List.length_cons]; omega
    · rfl

theorem size_fill (goal : Nat) (buffer : Array α) (unread : List α) :
    (fill goal buffer unread).1.size
      = max buffer.size (min goal (buffer.size + unread.length)) := by
  induction unread generalizing buffer with
  | nil => simp only [fill, List.length_nil]; omega
  | cons a rest ih =>
    rw [fill]
    split
    · rw [ih, Array.size_push, List.length_cons]; omega
    · simp only [List.length_cons]; omega

/-- A step keeps every item. -/
theorem total_next (c : Cursor α) : c.next.2.total = c.total :=
  total_fill ..

/-- A step moves by one, up to one place beyond the last item. -/
theorem taken_next (c : Cursor α) : c.next.2.taken = min (c.taken + 1) (c.total + 1) := by
  have hs := size_fill (c.taken + 1) c.buffer c.unread
  simp only [next, total]
  omega

theorem size_next (c : Cursor α) :
    c.next.2.buffer.size = max c.buffer.size (min (c.taken + 1) c.total) :=
  size_fill ..

/-- A step yields an item exactly when one lies ahead. -/
theorem isSome_next (c : Cursor α) : c.next.1.isSome = true ↔ c.taken < c.total := by
  have hn : c.next.1 = c.next.2.current? := rfl
  have ht := taken_next c
  have hs := size_next c
  rw [hn, current?]
  split
  · simp only [Option.isSome_none, Bool.false_eq_true, false_iff]; omega
  · have hb : c.buffer.size ≤ c.total := Nat.le_add_right ..
    rw [isSome_getElem?]
    omega

@[simp] theorem fst_peek (c : Cursor α) : c.peek.1 = c.next.1 := rfl

theorem taken_peek (c : Cursor α) : c.peek.2.taken = c.taken := rfl

theorem total_peek (c : Cursor α) : c.peek.2.total = c.total :=
  total_next c

theorem size_peek (c : Cursor α) :
    c.peek.2.buffer.size = max c.buffer.size (min (c.taken + 1) c.total) :=
  size_next c

/-- Going to a position keeps every item. -/
theorem total_seek (p : Int) (c : Cursor α) : (c.seek p).2.total = c.total := by
  unfold seek
  split <;> rfl

/-- Dropping what has been walked past keeps all the rest. -/
theorem total_discard (c : Cursor α) : c.discard.total = c.total - min c.taken c.buffer.size := by
  simp only [total, discard, Array.size_extract]
  omega

/-- A step that yields an item leaves one item fewer ahead. -/
theorem remaining_next_lt {c : Cursor α} (h : c.next.1.isSome = true) :
    c.next.2.remaining < c.remaining := by
  rw [isSome_next] at h
  rw [remaining, remaining, total_next, taken_next]
  omega

/-- Looking ahead and then taking the step is no different from taking the step. -/
theorem remaining_next_peek_lt {c : Cursor α} (h : c.next.1.isSome = true) :
    c.peek.2.next.2.remaining < c.remaining := by
  rw [isSome_next] at h
  rw [remaining, remaining, total_next, taken_next, total_peek, taken_peek]
  omega

/-! ### Steps over sets of items -/

variable [BEq α]

/-- Goes to the next item, and back again unless it is one of `items`. -/
def acceptAny (items : List α) (c : Cursor α) : Option α × Cursor α :=
  match c.next with
  | (some a, c') => if items.contains a then (some a, c') else (none, (c'.seek c.position).2)
  | (none, c') => (none, (c'.seek c.position).2)

/-- Goes to the next item, and back again unless it is `item`. -/
def accept (item : α) (c : Cursor α) : Option α × Cursor α :=
  c.acceptAny [item]

/-- An accepted item is the next one, and accepting it is stepping to it. -/
theorem acceptAny_of_isSome {items : List α} {c : Cursor α}
    (h : (c.acceptAny items).1.isSome = true) : c.acceptAny items = c.next := by
  unfold acceptAny at h ⊢
  rcases hn : c.next with ⟨_ | a, c'⟩
  · simp [hn] at h
  · simp only [hn] at h
    by_cases hm : items.contains a = true
    · simp [hm]
    · simp only [hm, Bool.false_eq_true, if_false, Option.isSome_none] at h

/-- Goes past all items of `items` that come next; tells whether there were any. -/
def skipAny (items : List α) (c : Cursor α) : Bool × Cursor α :=
  match _h : c.acceptAny items with
  | (some _, c') => (true, (skipAny items c').2)
  | (none, c') => (false, c')
termination_by c.remaining
decreasing_by
  have hs : (c.acceptAny items).1.isSome = true := by rw [_h]; rfl
  have hn := acceptAny_of_isSome hs
  rw [hn] at hs
  rw [show c' = c.next.2 by rw [← hn, _h]]
  exact remaining_next_lt hs

/-- Goes on while the next item is not one of `items`; tells whether it went anywhere. -/
def skipUntilAny (items : List α) (c : Cursor α) : Bool × Cursor α :=
  match _h : c.peek with
  | (some a, c') =>
    if items.contains a then (false, c') else (true, (skipUntilAny items c'.next.2).2)
  | (none, c') => (false, c')
termination_by c.remaining
decreasing_by
  rw [show c' = c.peek.2 by rw [_h]]
  exact remaining_next_peek_lt (by rw [← fst_peek, _h]; rfl)

end Cursor

end SmallLisp
