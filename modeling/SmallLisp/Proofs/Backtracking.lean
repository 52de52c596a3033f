import SmallLisp.Proofs.Walk

/-!
# Going back

Looking ahead fills the buffer of a cursor, and where a cursor may go depends on how much of the
stream is buffered.  Going to the end of the buffer while more is unread would even skip an item.
None of this shows as long as a cursor goes back only to positions that it has been at since it last
dropped items (`Bookmarked.Disciplined`).

Such a position stays backed by the buffer, or by the end of the stream (`Cursor.Backs`).  A cursor
at a backed place is no more than a place in a list, `Cursor.place`: what an operation answers, and
the place that it leads to, can be told from the list and the number of items taken
(`Operation.answer_eq`, `Operation.place_perform`).  So two cursors at one place answer alike,
whatever they have buffered, and looking ahead leads to the same place.

`Bookmarked.backtracking` draws the consequences for whole runs.
-/

namespace SmallLisp.Cursor

variable {α : Type}

/-! ### Answers -/

/-- What an operation on a cursor answers. -/
inductive Answer (α : Type) where
  | item (a : Option α)
  | flag (b : Bool)
  | items (as : List α)
  | position (p : Int)
  | silent

/-- Whether an operation drops what the cursor has walked past. -/
def Operation.drops : Operation α → Bool
  | extract => true
  | discard => true
  | _ => false

/-- The answer of an operation. -/
def Operation.answer [BEq α] : Operation α → Cursor α → Answer α
  | next, c => .item c.next.1
  | peek, c => .item c.peek.1
  | current, c => .item c.current?
  | atEnd, c => .flag c.atEnd.1
  | seek p, c => .flag (c.seek p).1
  | accept item, c => .item (c.accept item).1
  | acceptAny items, c => .item (c.acceptAny items).1
  | skipAny items, c => .flag (c.skipAny items).1
  | skipUntilAny items, c => .flag (c.skipUntilAny items).1
  | passed, c => .items c.passed.toList
  | extract, c => .items c.extract.1.toList
  | discard, _ => .silent

/-! ### Backed places -/

/-- Whether a place is backed: it lies in the buffer, or it is the end of the stream. -/
def Backs (c : Cursor α) (n : ℕ) : Prop :=
  n ≤ c.buffer.size ∨ (n = c.buffer.size + 1 ∧ c.unread = [])

/-- A cursor that has the same items and has buffered as many at least. -/
structure Fuller (c c' : Cursor α) : Prop where
  items_eq : c'.items = c.items
  size_le : c.buffer.size ≤ c'.buffer.size

namespace Fuller

variable {c c' c'' : Cursor α}

theorem refl (c : Cursor α) : Fuller c c := ⟨rfl, Nat.le_refl _⟩

theorem trans (h : Fuller c c') (h' : Fuller c' c'') : Fuller c c'' :=
  ⟨h'.items_eq.trans h.items_eq, Nat.le_trans h.size_le h'.size_le⟩

theorem next (c : Cursor α) : Fuller c c.next.2 := by
  refine ⟨c.items_next, ?_⟩
  rw [size_next]
  exact Nat.le_max_left ..

theorem peek (c : Cursor α) : Fuller c c.peek.2 := ⟨(next c).items_eq, (next c).size_le⟩

theorem seek (p : Int) (c : Cursor α) : Fuller c (c.seek p).2 := by
  unfold Cursor.seek
  split_ifs
  · exact ⟨rfl, Nat.le_refl _⟩
  · exact refl c

section
variable [BEq α]

theorem acceptAny (set : List α) (c : Cursor α) : Fuller c (c.acceptAny set).2 := by
  rcases hacc : c.acceptAny set with ⟨_ | a, d⟩
  · rw [(of_acceptAny_none hacc).2]
    exact (next c).trans (seek ..)
  · obtain rfl : d = c.next.2 := by rw [(of_acceptAny_some hacc).1]
    exact next c

theorem skipAny (set : List α) (c : Cursor α) : Fuller c (c.skipAny set).2 := by
  fun_induction Cursor.skipAny set c with
  | case1 c a d hacc ih =>
    have hstep := acceptAny set c
    rw [hacc] at hstep
    exact hstep.trans ih
  | case2 c d hacc =>
    have hstep := acceptAny set c
    rw [hacc] at hstep
    exact hstep

theorem skipUntilAny (set : List α) (c : Cursor α) : Fuller c (c.skipUntilAny set).2 := by
  fun_induction Cursor.skipUntilAny set c with
  | case1 c a d hpeek ha =>
    have hstep := peek c
    rw [hpeek] at hstep
    exact hstep
  | case2 c a d hpeek ha ih =>
    have hstep := peek c
    rw [hpeek] at hstep
    exact hstep.trans ((next d).trans ih)
  | case3 c d hpeek =>
    have hstep := peek c
    rw [hpeek] at hstep
    exact hstep

/-- All operations but those that drop items go on with the same items. -/
theorem perform {operation : Operation α} (h : operation.drops = false) (c : Cursor α) :
    Fuller c (operation.perform c) := by
  cases operation with
  | next => exact next c
  | peek => exact peek c
  | current => exact refl c
  | atEnd => exact peek c
  | seek p => exact seek p c
  | accept item => exact acceptAny [item] c
  | acceptAny items => exact acceptAny items c
  | skipAny items => exact skipAny items c
  | skipUntilAny items => exact skipUntilAny items c
  | passed => exact refl c
  | extract => cases h
  | discard => cases h

end

end Fuller

namespace Backs

variable {c c' : Cursor α} {n : ℕ}

/-- A backed place stays backed while nothing is dropped. -/
theorem mono (h : c.Backs n) (hc : Fuller c c') : c'.Backs n := by
  have hsize := hc.size_le
  rcases h with h | ⟨h, hend⟩
  · exact Or.inl (Nat.le_trans h hsize)
  · -- All items were buffered, so they still are.
    have htotal := congrArg List.length hc.items_eq
    rw [length_items, length_items, total, total, hend, List.length_nil] at htotal
    right
    refine ⟨by omega, ?_⟩
    rw [← List.length_eq_zero_iff]
    omega

theorem placed (h : c.Backs c.taken) : c.Placed := by
  unfold Backs at h
  unfold Placed
  omega

/-- A step leads to a backed place. -/
theorem next (c : Cursor α) : c.next.2.Backs c.next.2.taken := by
  have htaken := taken_next c
  have hsize := size_next c
  have htotal := total_next c
  rw [total] at htotal
  by_cases h : c.taken < c.total
  · left
    omega
  · have hle : c.buffer.size ≤ c.total := Nat.le_add_right ..
    right
    refine ⟨by omega, ?_⟩
    rw [← List.length_eq_zero_iff]
    omega

/-- A cursor can go to a backed place. -/
theorem seek_eq (h : c.Backs n) : c.seek (n - 1) = (true, { c with taken := n }) := by
  have hinside : -1 ≤ (n : Int) - 1 ∧ (n : Int) - 1 ≤ c.buffer.size := by
    unfold Backs at h
    omega
  have htaken : ((n : Int) - 1 + 1).toNat = n := by omega
  rw [seek, if_pos hinside, htaken]

/-- Going on over items that lie ahead leads from a backed place to a backed one. -/
theorem of_moves (h : c.Backs c.taken) (hmoves : Moves c n c') (hn : n ≤ c.ahead.length)
    (hc : Fuller c c') : c'.Backs c'.taken := by
  rcases h with h | ⟨h, hend⟩
  · exact Or.inl (hmoves.settled h)
  · -- At the end of the stream there is nothing to go over.
    have hzero : n = 0 := by
      rw [ahead, List.length_drop, length_items, total, hend, List.length_nil] at hn
      omega
    subst hzero
    rw [hmoves.taken_eq, Nat.add_zero]
    exact mono (Or.inr ⟨h, hend⟩) hc

theorem toList_passed (h : c.Backs c.taken) : c.passed.toList = c.items.take c.taken := by
  rcases h with h | ⟨-, hend⟩
  · exact passed_eq_take h
  · rw [Cursor.toList_passed, items, hend, List.append_nil]

theorem items_discard (h : c.Backs c.taken) : c.discard.items = c.ahead := by
  rcases h with h | ⟨-, hend⟩
  · exact Cursor.items_discard h
  · have hunread : c.discard.unread = [] := hend
    rw [items, toList_buffer_discard, hunread, ahead, items, hend, List.append_nil, List.append_nil]

theorem current?_eq (h : c.Backs c.taken) :
    c.current? = if c.taken = 0 then none else c.items[c.taken - 1]? := by
  unfold current?
  split_ifs with hzero
  · rfl
  · rw [items, ← Array.getElem?_toList]
    rcases h with h | ⟨-, hend⟩
    · have hlt : c.taken - 1 < c.buffer.toList.length := by
        rw [Array.length_toList]
        omega
      rw [List.getElem?_append_left hlt]
    · rw [hend, List.append_nil]

end Backs

/-! ### Places -/

/-- A place in a list: the list, and how many of its items have been taken. -/
structure Place (α : Type) where
  items : List α
  taken : ℕ

/-- The place of a cursor. -/
def place (c : Cursor α) : Place α := ⟨c.items, c.taken⟩

theorem Moves.place_eq {c c' : Cursor α} {n : ℕ} (h : Moves c n c') :
    c'.place = ⟨c.items, c.taken + n⟩ := by
  rw [place, h.items_eq, h.taken_eq]

section
variable [BEq α]

namespace Place

/-- The items behind a place. -/
def ahead (w : Place α) : List α := w.items.drop w.taken

/-- The next item, if it is in a set. -/
def accepted (w : Place α) (set : List α) : Option α := w.ahead.head?.filter set.contains

/-- What an operation answers at a place. -/
def answer (w : Place α) : Operation α → Answer α
  | .next => .item w.ahead.head?
  | .peek => .item w.ahead.head?
  | .current => .item (if w.taken = 0 then none else w.items[w.taken - 1]?)
  | .atEnd => .flag w.ahead.isEmpty
  | .seek _ => .flag true
  | .accept item => .item (w.accepted [item])
  | .acceptAny items => .item (w.accepted items)
  | .skipAny items => .flag !(w.ahead.takeWhile items.contains).isEmpty
  | .skipUntilAny items => .flag !(w.ahead.takeWhile fun a => !items.contains a).isEmpty
  | .passed => .items (w.items.take w.taken)
  | .extract => .items (w.items.take w.taken)
  | .discard => .silent

/-- The place that an operation leads to. -/
def perform (w : Place α) : Operation α → Place α
  | .next => ⟨w.items, min (w.taken + 1) (w.items.length + 1)⟩
  | .seek p => ⟨w.items, (p + 1).toNat⟩
  | .accept item => ⟨w.items, w.taken + (w.accepted [item]).toList.length⟩
  | .acceptAny items => ⟨w.items, w.taken + (w.accepted items).toList.length⟩
  | .skipAny items => ⟨w.items, w.taken + (w.ahead.takeWhile items.contains).length⟩
  | .skipUntilAny items =>
    ⟨w.items, w.taken + (w.ahead.takeWhile fun a => !items.contains a).length⟩
  | .extract => ⟨w.ahead, 0⟩
  | .discard => ⟨w.ahead, 0⟩
  | _ => w

end Place

/-- An accepted item is the next one, and the cursor moves by it. -/
theorem moves_acceptAny (set : List α) {c : Cursor α} (h : c.Placed) :
    (c.acceptAny set).1 = c.place.accepted set ∧
      Moves c (c.place.accepted set).toList.length (c.acceptAny set).2 := by
  have haccepted : c.place.accepted set = c.ahead.head?.filter set.contains := rfl
  rcases hacc : c.acceptAny set with ⟨_ | a, d⟩
  · obtain ⟨hnot, rfl⟩ := of_acceptAny_none hacc
    have hnone : c.place.accepted set = none := by
      rw [haccepted, Option.filter_eq_none_iff]
      exact fun a ha => by simp [hnot a ha]
    rw [hnone, seek_next h]
    exact ⟨rfl, moves_peek c⟩
  · obtain ⟨hnext, ha⟩ := of_acceptAny_some hacc
    have hahead := ahead_of_next_some hnext
    have hsome : c.place.accepted set = some a := by
      rw [haccepted, hahead, List.head?_cons, Option.filter_some, if_pos ha]
    obtain rfl : d = c.next.2 := by rw [hnext]
    rw [hsome]
    exact ⟨rfl, moves_next hahead⟩

theorem length_accepted_le (set : List α) (c : Cursor α) :
    (c.place.accepted set).toList.length ≤ c.ahead.length := by
  have haccepted : c.place.accepted set = c.ahead.head?.filter set.contains := rfl
  rw [haccepted]
  cases c.ahead with
  | nil => exact Nat.le_refl 0
  | cons a rest =>
    rw [List.head?_cons, Option.filter_some, List.length_cons]
    split_ifs <;> simp

variable {c : Cursor α} {operation : Operation α}

/-- An operation leads to a backed place, if it starts from one and goes to none that is not. -/
theorem Operation.backs_perform (h : c.Backs c.taken)
    (hseek : ∀ p, operation = .seek p → ∃ n : ℕ, p = n - 1 ∧ c.Backs n) :
    (operation.perform c).Backs (operation.perform c).taken := by
  cases operation with
  | next => exact Backs.next c
  | peek => exact h.mono (.peek c)
  | current => exact h
  | atEnd => exact h.mono (.peek c)
  | seek p =>
    obtain ⟨n, rfl, hn⟩ := hseek p rfl
    show (c.seek _).2.Backs (c.seek _).2.taken
    rw [hn.seek_eq]
    exact hn
  | accept item =>
    exact h.of_moves (moves_acceptAny [item] h.placed).2 (length_accepted_le [item] c)
      (.acceptAny [item] c)
  | acceptAny items =>
    exact h.of_moves (moves_acceptAny items h.placed).2 (length_accepted_le items c) (.acceptAny items c)
  | skipAny items =>
    exact h.of_moves (moves_skipAny items h.placed).2 (List.takeWhile_sublist _).length_le
      (.skipAny items c)
  | skipUntilAny items =>
    exact h.of_moves (moves_skipUntilAny items c).2 (List.takeWhile_sublist _).length_le
      (.skipUntilAny items c)
  | passed => exact h
  | extract => exact Or.inl (Nat.zero_le _)
  | discard => exact Or.inl (Nat.zero_le _)

/-- At a backed place, the list and the place in it tell what an operation answers. -/
theorem Operation.answer_eq (h : c.Backs c.taken)
    (hseek : ∀ p, operation = .seek p → ∃ n : ℕ, p = n - 1 ∧ c.Backs n) :
    operation.answer c = c.place.answer operation := by
  cases operation with
  | next => exact congrArg Answer.item c.fst_next
  | peek => exact congrArg Answer.item c.fst_next
  | current => exact congrArg Answer.item h.current?_eq
  | atEnd => exact congrArg Answer.flag c.fst_atEnd
  | seek p =>
    obtain ⟨n, rfl, hn⟩ := hseek p rfl
    show Answer.flag (c.seek _).1 = _
    rw [hn.seek_eq]
    rfl
  | accept item => exact congrArg Answer.item (moves_acceptAny [item] h.placed).1
  | acceptAny items => exact congrArg Answer.item (moves_acceptAny items h.placed).1
  | skipAny items => exact congrArg Answer.flag (moves_skipAny items h.placed).1
  | skipUntilAny items => exact congrArg Answer.flag (moves_skipUntilAny items c).1
  | passed => exact congrArg Answer.items h.toList_passed
  | extract => exact congrArg Answer.items h.toList_passed
  | discard => rfl

/-- And they tell the place that the operation leads to. -/
theorem Operation.place_perform (h : c.Backs c.taken)
    (hseek : ∀ p, operation = .seek p → ∃ n : ℕ, p = n - 1 ∧ c.Backs n) :
    (operation.perform c).place = c.place.perform operation := by
  cases operation with
  | next =>
    show c.next.2.place = _
    rw [place, c.items_next, taken_next, ← length_items]
    rfl
  | peek => exact (moves_peek c).place_eq
  | current => rfl
  | atEnd => exact (moves_peek c).place_eq
  | seek p =>
    obtain ⟨n, rfl, hn⟩ := hseek p rfl
    have htaken : ((n : Int) - 1 + 1).toNat = n := by omega
    show (c.seek _).2.place = (⟨c.items, _⟩ : Place α)
    rw [hn.seek_eq, htaken]
    rfl
  | accept item => exact (moves_acceptAny [item] h.placed).2.place_eq
  | acceptAny items => exact (moves_acceptAny items h.placed).2.place_eq
  | skipAny items => exact (moves_skipAny items h.placed).2.place_eq
  | skipUntilAny items => exact (moves_skipUntilAny items c).2.place_eq
  | passed => rfl
  | extract =>
    show (⟨c.discard.items, 0⟩ : Place α) = _
    rw [h.items_discard]
    rfl
  | discard =>
    show (⟨c.discard.items, 0⟩ : Place α) = _
    rw [h.items_discard]
    rfl

/-! ### Bookmarks -/

/-- What can be asked of a cursor: its position, or an operation. -/
inductive Request (α : Type) where
  | position
  | operation (o : Operation α)

/-- A cursor, and the positions that it has told since it last dropped items. -/
structure Bookmarked (α : Type) where
  cursor : Cursor α
  marks : List Int

namespace Bookmarked

/-- A cursor over a list that has told nothing yet. -/
def ofList (input : List α) : Bookmarked α := ⟨.ofList input, []⟩

/-- The answer to a request. -/
def answer (m : Bookmarked α) : Request α → Answer α
  | .position => .position m.cursor.position
  | .operation o => o.answer m.cursor

/-- What a request leads to. -/
def perform (m : Bookmarked α) : Request α → Bookmarked α
  | .position => { m with marks := m.cursor.position :: m.marks }
  | .operation o => ⟨o.perform m.cursor, if o.drops then [] else m.marks⟩

/-- What a run of requests leads to. -/
def after (m : Bookmarked α) (requests : List (Request α)) : Bookmarked α :=
  requests.foldl perform m

/-- The answers to a run of requests. -/
def answers (m : Bookmarked α) : List (Request α) → List (Answer α)
  | [] => []
  | request :: rest => m.answer request :: (m.perform request).answers rest

/-- Whether a request goes to no position but a bookmark. -/
def Allows (m : Bookmarked α) (request : Request α) : Prop :=
  ∀ p, request = .operation (.seek p) → p ∈ m.marks

/-- Whether a run of requests goes to bookmarks only. -/
def Disciplined (m : Bookmarked α) : List (Request α) → Prop
  | [] => True
  | request :: rest => m.Allows request ∧ (m.perform request).Disciplined rest

/-- Requests that only look ahead: a peek, a test for the end, and asking for an item that is not
accepted. -/
inductive LooksAhead (m : Bookmarked α) : Request α → Prop
  | peek : LooksAhead m (.operation .peek)
  | atEnd : LooksAhead m (.operation .atEnd)
  | accept {item : α} (h : (m.cursor.accept item).1 = none) :
    LooksAhead m (.operation (.accept item))
  | acceptAny {items : List α} (h : (m.cursor.acceptAny items).1 = none) :
    LooksAhead m (.operation (.acceptAny items))

/-- Whether the place of the cursor and its bookmarks are backed. -/
structure Tracked (m : Bookmarked α) : Prop where
  backs : m.cursor.Backs m.cursor.taken
  marks : ∀ p ∈ m.marks, ∃ n : ℕ, p = n - 1 ∧ m.cursor.Backs n

variable {m m' : Bookmarked α} {request : Request α} {requests rest : List (Request α)}

theorem after_append (m : Bookmarked α) (requests rest : List (Request α)) :
    m.after (requests ++ rest) = (m.after requests).after rest := List.foldl_append

theorem disciplined_append :
    m.Disciplined (requests ++ rest) ↔
      m.Disciplined requests ∧ (m.after requests).Disciplined rest := by
  induction requests generalizing m with
  | nil => exact (iff_of_eq (true_and _)).symm
  | cons request requests ih => exact (and_congr_right fun _ => ih).trans and_assoc.symm

omit [BEq α] in
theorem tracked_ofList (input : List α) : (ofList input).Tracked :=
  ⟨Or.inl (Nat.zero_le _), fun _ hp => absurd hp List.not_mem_nil⟩

namespace Tracked

/-- A request that goes to no position but a bookmark keeps all places backed. -/
theorem perform (h : m.Tracked) (hrequest : m.Allows request) : (m.perform request).Tracked := by
  cases request with
  | position =>
    refine ⟨h.backs, fun p hp => ?_⟩
    rcases List.mem_cons.1 hp with rfl | hp
    · exact ⟨_, rfl, h.backs⟩
    · exact h.marks p hp
  | operation o =>
    refine ⟨o.backs_perform h.backs fun p hp => h.marks p (hrequest p (hp ▸ rfl)), fun p hp => ?_⟩
    cases hdrops : o.drops with
    | true =>
      rw [Bookmarked.perform, hdrops] at hp
      cases hp
    | false =>
      rw [Bookmarked.perform, hdrops] at hp
      obtain ⟨n, hn, hback⟩ := h.marks p hp
      exact ⟨n, hn, hback.mono (.perform hdrops m.cursor)⟩

theorem after (h : m.Tracked) (hrequests : m.Disciplined requests) :
    (m.after requests).Tracked := by
  induction requests generalizing m with
  | nil => exact h
  | cons request requests ih => exact ih (h.perform hrequests.1) hrequests.2

/-- Two cursors at one place answer a request alike, and it leads both to one place. -/
theorem answer_eq (h : m.Tracked) (h' : m'.Tracked) (hplace : m.cursor.place = m'.cursor.place)
    (hrequest : m.Allows request) (hrequest' : m'.Allows request) :
    m.answer request = m'.answer request ∧
      (m.perform request).cursor.place = (m'.perform request).cursor.place := by
  cases request with
  | position =>
    have htaken : m.cursor.taken = m'.cursor.taken := congrArg Place.taken hplace
    refine ⟨?_, hplace⟩
    rw [answer, answer, position, position, htaken]
  | operation o =>
    have hseek : ∀ p, o = .seek p → ∃ n : ℕ, p = n - 1 ∧ m.cursor.Backs n :=
      fun p hp => h.marks p (hrequest p (congrArg _ hp))
    have hseek' : ∀ p, o = .seek p → ∃ n : ℕ, p = n - 1 ∧ m'.cursor.Backs n :=
      fun p hp => h'.marks p (hrequest' p (congrArg _ hp))
    constructor
    · calc o.answer m.cursor
        _ = m.cursor.place.answer o := o.answer_eq h.backs hseek
        _ = m'.cursor.place.answer o := by rw [hplace]
        _ = o.answer m'.cursor := (o.answer_eq h'.backs hseek').symm
    · calc (o.perform m.cursor).place
        _ = m.cursor.place.perform o := o.place_perform h.backs hseek
        _ = m'.cursor.place.perform o := by rw [hplace]
        _ = (o.perform m'.cursor).place := (o.place_perform h'.backs hseek').symm

/-- So they answer alike to a whole run. -/
theorem answers_eq (h : m.Tracked) (h' : m'.Tracked) (hplace : m.cursor.place = m'.cursor.place)
    (hrequests : m.Disciplined requests) (hrequests' : m'.Disciplined requests) :
    m.answers requests = m'.answers requests := by
  induction requests generalizing m m' with
  | nil => rfl
  | cons request requests ih =>
    obtain ⟨hanswer, hplace⟩ := h.answer_eq h' hplace hrequests.1 hrequests'.1
    rw [answers, answers, hanswer,
      ih (h.perform hrequests.1) (h'.perform hrequests'.1) hplace hrequests.2 hrequests'.2]

/-- With the same bookmarks they may go to the same positions. -/
theorem disciplined (h : m.Tracked) (h' : m'.Tracked) (hplace : m.cursor.place = m'.cursor.place)
    (hmarks : m.marks = m'.marks) (hrequests : m.Disciplined requests) :
    m'.Disciplined requests := by
  induction requests generalizing m m' with
  | nil => trivial
  | cons request requests ih =>
    have hrequest' : m'.Allows request := fun p hp => hmarks ▸ hrequests.1 p hp
    have hnext := (h.answer_eq h' hplace hrequests.1 hrequest').2
    refine ⟨hrequest', ih (h.perform hrequests.1) (h'.perform hrequest') hnext ?_ hrequests.2⟩
    cases request with
    | position =>
      have htaken : m.cursor.taken = m'.cursor.taken := congrArg Place.taken hplace
      rw [Bookmarked.perform, Bookmarked.perform, position, position, htaken, hmarks]
    | operation o => rw [Bookmarked.perform, Bookmarked.perform, hmarks]

/-- A bookmark can be gone to. -/
theorem answer_seek (h : m.Tracked) {p : Int} (hp : p ∈ m.marks) :
    m.answer (.operation (.seek p)) = .flag true := by
  have hseek : ∀ q, (.seek p : Operation α) = .seek q → ∃ n : ℕ, q = n - 1 ∧ m.cursor.Backs n := by
    rintro _ ⟨⟩
    exact h.marks p hp
  exact Operation.answer_eq h.backs hseek

/-- So every step back in a run succeeds. -/
theorem getElem?_answers (h : m.Tracked) (hrequests : m.Disciplined requests) {i : ℕ} {p : Int}
    (hi : requests[i]? = some (.operation (.seek p))) :
    (m.answers requests)[i]? = some (.flag true) := by
  induction requests generalizing m i with
  | nil => cases hi
  | cons request requests ih =>
    cases i with
    | zero =>
      cases hi
      exact congrArg some (h.answer_seek (hrequests.1 p rfl))
    | succ i => exact ih (h.perform hrequests.1) hrequests.2 hi

end Tracked

/-- Requests that drop nothing go on with the same items. -/
theorem fuller_after (h : ∀ o, .operation o ∈ requests → o.drops = false) :
    Fuller m.cursor (m.after requests).cursor := by
  induction requests generalizing m with
  | nil => exact .refl _
  | cons request requests ih =>
    refine Fuller.trans ?_ (ih fun o ho => h o (List.mem_cons_of_mem _ ho))
    cases request with
    | position => exact .refl _
    | operation o => exact .perform (h o List.mem_cons_self) m.cursor

/-- Looking ahead leads to the same place, and goes to no position. -/
theorem LooksAhead.perform (h : m.LooksAhead request) (hplaced : m.cursor.Placed) :
    m.Allows request ∧ (m.perform request).cursor.place = m.cursor.place ∧
      (m.perform request).marks = m.marks := by
  cases h with
  | peek => exact ⟨nofun, (moves_peek m.cursor).place_eq, rfl⟩
  | atEnd => exact ⟨nofun, (moves_peek m.cursor).place_eq, rfl⟩
  | @accept item h =>
    obtain ⟨haccepted, hmoves⟩ := moves_acceptAny [item] hplaced
    rw [← haccepted, show (m.cursor.acceptAny [item]).1 = none from h] at hmoves
    exact ⟨nofun, hmoves.place_eq, rfl⟩
  | @acceptAny items h =>
    obtain ⟨haccepted, hmoves⟩ := moves_acceptAny items hplaced
    rw [← haccepted, h] at hmoves
    exact ⟨nofun, hmoves.place_eq, rfl⟩

/-- Looking ahead, put in anywhere, keeps to the discipline and changes no other answer. -/
theorem Tracked.eraseIdx_answers (h : m.Tracked) {before : List (Request α)}
    (hlook : (m.after before).LooksAhead request) (hrequests : m.Disciplined (before ++ rest)) :
    m.Disciplined (before ++ request :: rest) ∧
      (m.answers (before ++ request :: rest)).eraseIdx before.length
        = m.answers (before ++ rest) := by
  induction before generalizing m with
  | nil =>
    obtain ⟨hallows, hplace, hmarks⟩ := hlook.perform h.backs.placed
    have h' := h.perform hallows
    have hrest := h.disciplined h' hplace.symm hmarks.symm hrequests
    exact ⟨⟨hallows, hrest⟩, h'.answers_eq h hplace hrest hrequests⟩
  | cons first before ih =>
    obtain ⟨hdisciplined, hanswers⟩ := ih (h.perform hrequests.1) hlook hrequests.2
    exact ⟨⟨hrequests.1, hdisciplined⟩, congrArg (m.answer first :: ·) hanswers⟩

/-- Going back to a position, the cursor answers as when it told it. -/
theorem Tracked.answers_seek (h : m.Tracked) {p : Int} (hp : m.cursor.position = p)
    (hkeeps : ∀ o, .operation o ∈ requests → o.drops = false)
    (hrequests : m.Disciplined (requests ++ [.operation (.seek p)]))
    (hrest : (m.after (requests ++ [.operation (.seek p)])).Disciplined rest)
    (hrest' : m.Disciplined rest) :
    (m.after (requests ++ [.operation (.seek p)])).answers rest = m.answers rest := by
  obtain ⟨hbefore, hallows, -⟩ := disciplined_append.1 hrequests
  have h' := h.after hbefore
  have htaken : (p + 1).toNat = m.cursor.taken := by
    rw [← hp, position]
    omega
  have hplace : (m.after (requests ++ [.operation (.seek p)])).cursor.place = m.cursor.place := by
    rw [after_append]
    calc (Operation.perform (.seek p) (m.after requests).cursor).place
      _ = ⟨(m.after requests).cursor.items, (p + 1).toNat⟩ :=
        Operation.place_perform h'.backs fun q hq => h'.marks q (hallows q (congrArg _ hq))
      _ = m.cursor.place := by rw [(fuller_after hkeeps).items_eq, htaken, place]
  exact (h.after hrequests).answers_eq h hplace hrest hrest'

/-- **Going back is transparent** in every run that goes back only to positions that the cursor has
told since it last dropped items.  Every such step back succeeds.  After it, the cursor answers to
any further run as it would have answered to it when it told the position, as long as that run is
disciplined from both.  And looking ahead, put in anywhere, keeps to the discipline and changes no
other answer. -/
theorem backtracking (input : List α) {requests : List (Request α)}
    (h : (ofList input).Disciplined requests) :
    (∀ (i : ℕ) (p : Int), requests[i]? = some (.operation (.seek p)) →
      ((ofList input).answers requests)[i]? = some (.flag true)) ∧
    (∀ before between p more,
      requests = before ++ .position :: between ++ [.operation (.seek p)] →
      ((ofList input).after before).cursor.position = p →
      (∀ o, .operation o ∈ between → o.drops = false) →
      ((ofList input).after requests).Disciplined more →
      ((ofList input).after (before ++ [.position])).Disciplined more →
      ((ofList input).after requests).answers more
        = ((ofList input).after (before ++ [.position])).answers more) ∧
    (∀ before rest look, requests = before ++ rest →
      ((ofList input).after before).LooksAhead look →
      (ofList input).Disciplined (before ++ look :: rest) ∧
        ((ofList input).answers (before ++ look :: rest)).eraseIdx before.length
          = (ofList input).answers requests) := by
  have htracked := tracked_ofList input
  refine ⟨fun i p hi => htracked.getElem?_answers h hi, ?_, ?_⟩
  · intro before between p more hsplit hposition hkeeps hmore hmore'
    have hregroup :
        requests = (before ++ [.position]) ++ (between ++ [.operation (.seek p)]) := by
      rw [hsplit, List.append_assoc, List.append_assoc, List.singleton_append, List.cons_append]
    rw [hregroup] at h hmore ⊢
    obtain ⟨hbefore, hbetween⟩ := disciplined_append.1 h
    -- Telling the position does not change it.
    have hmoment : ((ofList input).after (before ++ [.position])).cursor.position = p := by
      rw [after_append]
      exact hposition
    rw [after_append] at hmore ⊢
    exact (htracked.after hbefore).answers_seek hmoment hkeeps hbetween hmore hmore'
  · rintro before rest look rfl hlook
    exact htracked.eraseIdx_answers hlook h

/-- Over three items: past the first, whose position is told, on beyond the end, and back. -/
def thereAndBack : List (Request Char) :=
  [.operation .next, .position, .operation .next, .operation .next, .operation .next,
    .operation (.seek 0)]

theorem backtracking_thereAndBack :
    (ofList ['a', 'b', 'c']).Disciplined thereAndBack ∧
      ((ofList ['a', 'b', 'c']).answers thereAndBack)[5]? = some (.flag true) ∧
      ((ofList ['a', 'b', 'c']).after thereAndBack).answers [.operation .current, .operation .next]
        = [.item (some 'a'), .item (some 'b')] ∧
      ((ofList ['a', 'b', 'c']).answers
        (thereAndBack.take 2 ++ .operation .peek :: thereAndBack.drop 2)).eraseIdx 2
        = (ofList ['a', 'b', 'c']).answers thereAndBack := by
  have hdisciplined : (ofList ['a', 'b', 'c']).Disciplined thereAndBack :=
    ⟨nofun, nofun, nofun, nofun, nofun, fun _ hp => by cases hp; decide, trivial⟩
  obtain ⟨hseek, hback, hlook⟩ := backtracking ['a', 'b', 'c'] hdisciplined
  refine ⟨hdisciplined, hseek 5 0 rfl, ?_, (hlook _ _ _ rfl .peek).2⟩
  have hkeeps : ∀ o, Request.operation o ∈ List.replicate 3 (.operation (.next : Operation Char)) →
      o.drops = false := by
    intro o ho
    cases List.eq_of_mem_replicate ho
    rfl
  exact hback [.operation .next] (List.replicate 3 (.operation .next)) 0 _ rfl rfl hkeeps
    ⟨nofun, nofun, trivial⟩ ⟨nofun, nofun, trivial⟩

end Bookmarked

end

end SmallLisp.Cursor
