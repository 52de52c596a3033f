import Mathlib.Order.Bounds.Basic
import SmallLisp.Proofs.Walk

/-!
# Longest runs

The two loops of a cursor go past a run of items: `skipAny` past items of a set, `skipUntilAny`
past items that are not in it.  Where the run ends depends on the items ahead and not on what is
buffered, even for a cursor that has been sent beyond its buffer.

A loop repeats one round, and nothing in the round counts how often (`Loop`).  It ends because every
round but the last takes an item off those ahead, so that there are as many rounds as the run has
items (`loop_skipAny`, `loop_skipUntilAny`).  A round of `skipAny` goes back from a step that went
too far, which never fails on a walk.

`maximal_munch` puts this together with where the loops end (`moves_skipAny`, `moves_skipUntilAny`).
-/

namespace SmallLisp.Cursor

variable {α : Type}

/-! ### Runs -/

/-- Whether the first `n` items of a list are there and pass a test. -/
def IsRun (test : α → Bool) (items : List α) (n : ℕ) : Prop :=
  n ≤ items.length ∧ ∀ a ∈ items.take n, test a = true

theorem isRun_length_takeWhile (test : α → Bool) (items : List α) :
    IsRun test items (items.takeWhile test).length := by
  refine ⟨(List.takeWhile_prefix test).length_le, ?_⟩
  rw [take_length_takeWhile]
  exact fun a ha => List.mem_takeWhile_imp ha

theorem IsRun.le_length_takeWhile {test : α → Bool} {items : List α} {n : ℕ}
    (h : IsRun test items n) : n ≤ (items.takeWhile test).length := by
  obtain ⟨hn, htest⟩ := h
  rw [← List.take_append_drop n items, List.takeWhile_append_of_pos htest, List.length_append,
    List.length_take_of_le hn]
  exact Nat.le_add_right ..

/-- `takeWhile` takes the longest run. -/
theorem isGreatest_isRun (test : α → Bool) (items : List α) :
    IsGreatest {n | IsRun test items n} (items.takeWhile test).length :=
  ⟨isRun_length_takeWhile test items, fun _ hn => IsRun.le_length_takeWhile hn⟩

/-! ### Loops -/

/-- A loop that repeats a round for as long as the round says so.  It comes to an end after `n`
rounds that say so and one that does not. -/
inductive Loop (round : Cursor α → Bool × Cursor α) : Cursor α → ℕ → Cursor α → Prop
  | stop {c c' : Cursor α} (last : round c = (false, c')) : Loop round c 0 c'
  | go {c c' c'' : Cursor α} {n : ℕ} (first : round c = (true, c')) (rest : Loop round c' n c'') :
      Loop round c (n + 1) c''

section
variable [BEq α]

/-- A round of `skipAny`: a step, and back again unless it has come to an item of the set. -/
def skipRound (set : List α) (c : Cursor α) : Bool × Cursor α :=
  match c.next with
  | (some a, c') => if set.contains a then (true, c') else (false, (c'.seek c.position).2)
  | (none, c') => (false, (c'.seek c.position).2)

/-- A round of `skipUntilAny`: a look ahead, and a step unless an item of the set comes next. -/
def untilRound (set : List α) (c : Cursor α) : Bool × Cursor α :=
  match c.peek with
  | (some a, c') => if set.contains a then (false, c') else (true, c'.next.2)
  | (none, c') => (false, c')

/-- A round of `skipAny` goes on if an item is accepted. -/
theorem skipRound_eq (set : List α) (c : Cursor α) :
    skipRound set c = ((c.acceptAny set).1.isSome, (c.acceptAny set).2) := by
  unfold skipRound acceptAny
  rcases c.next with ⟨_ | a, c'⟩
  · rfl
  · simp only
    split_ifs <;> rfl

/-- Skipping is a loop that has a round for every item of the run. -/
theorem loop_skipAny (set : List α) (c : Cursor α) :
    Loop (skipRound set) c (c.ahead.takeWhile set.contains).length (c.skipAny set).2 := by
  fun_induction skipAny set c with
  | case1 c a c' hacc ih =>
    obtain ⟨hnext, ha⟩ := of_acceptAny_some hacc
    have hround : skipRound set c = (true, c') := by
      rw [skipRound_eq, hacc]
      rfl
    rw [ahead_of_next_some hnext, List.takeWhile_cons_of_pos ha, List.length_cons]
    exact .go hround ih
  | case2 c c' hacc =>
    have hround : skipRound set c = (false, c') := by
      rw [skipRound_eq, hacc]
      rfl
    rw [takeWhile_eq_nil (of_acceptAny_none hacc).1]
    exact .stop hround

/-- Going on until an item of the set is a loop that has a round for every item of the run. -/
theorem loop_skipUntilAny (set : List α) (c : Cursor α) :
    Loop (untilRound set) c (c.ahead.takeWhile fun a => !set.contains a).length
      (c.skipUntilAny set).2 := by
  fun_induction skipUntilAny set c with
  | case1 c a c' hpeek ha =>
    have hround : untilRound set c = (false, c') := by
      rw [untilRound, hpeek]
      exact if_pos ha
    rw [takeWhile_eq_nil (by simpa [(peek_eq hpeek).1] using ha)]
    exact .stop hround
  | case2 c a c' hpeek ha ih =>
    have hround : untilRound set c = (true, c'.next.2) := by
      rw [untilRound, hpeek]
      exact if_neg ha
    -- The step after the look ahead takes the item that was looked at.
    have hnext : c.next = (some a, c'.next.2) := by
      obtain rfl : c' = c.peek.2 := by rw [hpeek]
      have hfst : c.next.1 = some a := by rw [← fst_peek, hpeek]
      rw [next_peek]
      exact Prod.ext hfst rfl
    rw [ahead_of_next_some hnext, List.takeWhile_cons_of_pos (by simpa using ha), List.length_cons]
    exact .go hround ih
  | case3 c c' hpeek =>
    have hround : untilRound set c = (false, c') := by
      rw [untilRound, hpeek]
    rw [takeWhile_eq_nil (by simp [(peek_eq hpeek).1])]
    exact .stop hround

end

/-! ### Maximal munch -/

/-- What a loop comes to that goes past the longest run of items that pass a test, which has `n`
items: a flag and a cursor. -/
structure Munches (test : α → Bool) (round : Cursor α → Bool × Cursor α) (c : Cursor α) (n : ℕ)
    (result : Bool × Cursor α) : Prop where
  longest : IsGreatest {m | IsRun test (c.items.drop (c.position + 1).toNat) m} n
  loop : Loop round c n result.2
  position_eq : result.2.position = c.position + n
  items_eq : result.2.items = c.items
  moved_iff : result.1 = true ↔ 0 < n

/-- A loop munches if it has a round for every item that `takeWhile` takes from those ahead, and
moves by these. -/
theorem munches_of_moves {test : α → Bool} {round : Cursor α → Bool × Cursor α} {c : Cursor α}
    {result : Bool × Cursor α} (hloop : Loop round c (c.ahead.takeWhile test).length result.2)
    (hmoves : result.1 = !(c.ahead.takeWhile test).isEmpty ∧
      Moves c (c.ahead.takeWhile test).length result.2) :
    Munches test round c (c.ahead.takeWhile test).length result := by
  obtain ⟨hflag, hmoves⟩ := hmoves
  have htaken : (c.position + 1).toNat = c.taken := by
    unfold position
    omega
  refine ⟨?_, hloop, ?_, hmoves.items_eq, ?_⟩
  · rw [htaken]
    exact isGreatest_isRun test c.ahead
  · have hplace := hmoves.taken_eq
    unfold position
    omega
  · rw [hflag, List.length_pos_iff]
    cases c.ahead.takeWhile test <;> simp

/-- **Maximal munch**: wherever a walk has led a cursor, both loops come to an end.  Skipping goes
past the longest run of items of the set, and going on until an item of the set past the longest run
of other items, up to the end if there is none of the set ahead.  Either loses no item and tells
whether it has moved. -/
theorem maximal_munch [BEq α] (input : List α) (operations : List (Operation α)) (set : List α) :
    match walk input operations with
    | (_, c) =>
      (∃ n, Munches set.contains (skipRound set) c n (c.skipAny set)) ∧
        ∃ n, Munches (fun a => !set.contains a) (untilRound set) c n (c.skipUntilAny set) ∧
          ((∀ a ∈ c.ahead, set.contains a = false) → n = c.ahead.length) := by
  have hplaced := (walk_invariant input operations).1
  generalize walk input operations = w at hplaced
  obtain ⟨_, c⟩ := w
  refine ⟨⟨_, munches_of_moves (loop_skipAny set c) (moves_skipAny set hplaced)⟩, _,
    munches_of_moves (loop_skipUntilAny set c) (moves_skipUntilAny set c), fun hnone => ?_⟩
  rw [List.takeWhile_eq_self_iff.2]
  simpa using hnone

/-- A cursor that was sent one step beyond its buffer, which is empty: the first blank is behind it
though it has never been read, and one blank is skipped. -/
theorem maximal_munch_beyond : ∃ c : Cursor Char, walk [' ', ' ', 'x'] [.seek 0] = ([], c) ∧
    c.buffer.size = 0 ∧ c.position = 0 ∧ (c.skipAny [' ']).1 = true ∧
      (c.skipAny [' ']).2.position = 1 := by
  obtain ⟨⟨n, hskip⟩, -⟩ := maximal_munch [' ', ' ', 'x'] [.seek 0] [' ']
  have hrun : IsGreatest {m | IsRun [' '].contains [' ', 'x'] m} 1 :=
    isGreatest_isRun [' '].contains [' ', 'x']
  obtain rfl := hskip.longest.unique hrun
  exact ⟨_, rfl, rfl, rfl, hskip.moved_iff.2 Nat.one_pos, hskip.position_eq⟩

end SmallLisp.Cursor
