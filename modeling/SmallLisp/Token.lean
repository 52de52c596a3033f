import SmallLisp.Cursor

/-!
# Tokens

A token is a parenthesis by itself, or a longest run of characters that are neither
parentheses nor one of the four blanks.  Any text has tokens; whether they balance is the
reader's concern.

The cursor that yields tokens drops each one as it hands it over, so it grows shorter with every
token (`total_nextToken_lt`), and `tokenize` collects them all.
-/

namespace SmallLisp

/-- Characters that are tokens by themselves. -/
def parens : List Char := ['(', ')']

/-- Characters that separate tokens and belong to none. -/
def blanks : List Char := [' ', '\n', '\r', '\t']

/-- Characters that end a run. -/
def breaks : List Char := parens ++ blanks

namespace Cursor

/-- Goes past the blanks that come next and drops them; tells whether there were any. -/
def skipBlanks (c : Cursor Char) : Bool × Cursor Char :=
  let (skipped, c') := c.skipAny blanks
  (skipped, c'.discard)

/-- Takes the next token, if there is one. -/
def nextToken (c : Cursor Char) : Option String × Cursor Char :=
  match c.skipBlanks.2.acceptAny parens with
  | (some _, c') => (some c'.extractString.1, c'.extractString.2)
  | (none, c') =>
    match c'.skipUntilAny breaks with
    | (true, c'') => (some c''.extractString.1, c''.extractString.2)
    | (false, c'') => (none, c'')

/-! ### A token shortens the cursor -/

section
variable {α : Type} [BEq α]

theorem total_acceptAny (items : List α) (c : Cursor α) :
    (c.acceptAny items).2.total = c.total := by
  have h := total_next c
  unfold acceptAny
  rcases hn : c.next with ⟨_ | a, c'⟩
  · rw [hn] at h
    exact (total_seek ..).trans h
  · rw [hn] at h
    simp only
    split
    · exact h
    · exact (total_seek ..).trans h

theorem total_skipAny (items : List α) (c : Cursor α) : (c.skipAny items).2.total = c.total := by
  fun_induction skipAny items c with
  | case1 c a c' h ih => rw [ih, show c' = (c.acceptAny items).2 by rw [h], total_acceptAny]
  | case2 c c' h => rw [show c' = (c.acceptAny items).2 by rw [h], total_acceptAny]

/-- Going on keeps every item, never goes back and never drops a buffered item. -/
theorem mono_skipUntilAny (items : List α) (c : Cursor α) :
    (c.skipUntilAny items).2.total = c.total ∧
      min c.taken (c.total + 1) ≤ (c.skipUntilAny items).2.taken ∧
      c.buffer.size ≤ (c.skipUntilAny items).2.buffer.size := by
  fun_induction skipUntilAny items c with
  | case1 c a c' h hm =>
    rw [show c' = c.peek.2 by rw [h], total_peek, taken_peek, size_peek]
    omega
  | case2 c a c' h hm ih =>
    have hc : c' = c.peek.2 := by rw [h]
    rw [hc, total_next, taken_next, size_next, total_peek, taken_peek, size_peek] at ih
    simp only [hc]
    omega
  | case3 c c' h =>
    rw [show c' = c.peek.2 by rw [h], total_peek, taken_peek, size_peek]
    omega

/-- A cursor that has gone on stands on a buffered item. -/
theorem pos_of_skipUntilAny {items : List α} {c c' : Cursor α}
    (h : c.skipUntilAny items = (true, c')) : 0 < c'.taken ∧ 0 < c'.buffer.size := by
  unfold skipUntilAny at h
  split at h
  · rename_i a c₁ hp
    split at h
    · simp at h
    · have hc : c' = (skipUntilAny items c₁.next.2).2 := by
        simpa using (congrArg Prod.snd h).symm
      have hsome : c.next.1.isSome = true := by rw [← fst_peek, hp]; rfl
      have hmono := mono_skipUntilAny items c₁.next.2
      rw [isSome_next] at hsome
      rw [taken_next, size_next, show c₁ = c.peek.2 by rw [hp], total_peek, taken_peek,
        size_peek] at hmono
      rw [hc, show c₁ = c.peek.2 by rw [hp]]
      omega
  · simp at h

end

theorem total_skipBlanks (c : Cursor Char) : c.skipBlanks.2.total ≤ c.total := by
  have h := total_skipAny blanks c
  simp only [skipBlanks, total_discard]
  omega

/-- Every token taken leaves fewer characters. -/
theorem total_nextToken_lt {c c' : Cursor Char} {t : String} (h : c.nextToken = (some t, c')) :
    c'.total < c.total := by
  have hb := total_skipBlanks c
  unfold nextToken at h
  rcases ha : c.skipBlanks.2.acceptAny parens with ⟨_ | a, d⟩
  · have hd : d.total = c.skipBlanks.2.total := by
      rw [← total_acceptAny parens c.skipBlanks.2, ha]
    rcases hu : d.skipUntilAny breaks with ⟨_ | _, e⟩
    · simp [ha, hu] at h
    · have hpos := pos_of_skipUntilAny hu
      have hmono := mono_skipUntilAny breaks d
      have he : c' = e.discard := by
        simp only [ha, hu, extractString, Prod.mk.injEq] at h
        exact h.2.symm
      rw [hu] at hmono
      rw [he, total_discard]
      have : e.buffer.size ≤ e.total := Nat.le_add_right ..
      simp only at hmono
      omega
  · have hs : (c.skipBlanks.2.acceptAny parens).1.isSome = true := by rw [ha]; rfl
    have hn := acceptAny_of_isSome hs
    rw [hn, isSome_next] at hs
    have hd : d = c.skipBlanks.2.next.2 := by rw [← hn, ha]
    have he : c' = d.discard := by
      simp only [ha, extractString, Prod.mk.injEq] at h
      exact h.2.symm
    rw [he, total_discard, hd, total_next, taken_next, size_next]
    omega

/-- All tokens from the cursor on. -/
def tokens (c : Cursor Char) : List String :=
  match _h : c.nextToken with
  | (some t, c') => t :: c'.tokens
  | (none, _) => []
termination_by c.total
decreasing_by
  exact total_nextToken_lt _h

end Cursor

/-- The tokens of a text. -/
def tokenize (source : String) : List String :=
  (Cursor.ofString source).tokens

end SmallLisp
