import SmallLisp.Proofs.Cursor
import SmallLisp.Token

/-!
# Tokens of a list of characters

`splitTokens` cuts a list of characters into tokens without a cursor: blanks are dropped, a
parenthesis is a token, and any other token is a longest run without breaks.  `tokenize_eq` says
that `tokenize` is this function.

Its equations are all that the reader of tokens needs: `splitTokens_blank`, `splitTokens_paren`,
and `splitTokens_word` for a word (`IsWord`) before the end or before a break (`BreaksOff`).
Conversely every token is a parenthesis or a word (`isToken_of_mem_splitTokens`).
-/

namespace SmallLisp

/-- Characters of which words are made. -/
def isWordChar (a : Char) : Bool := !breaks.contains a

/-- The first token of some characters and the characters behind it. -/
def firstToken? (cs : List Char) : Option (List Char × List Char) :=
  match cs.dropWhile blanks.contains with
  | [] => none
  | a :: rest =>
    if parens.contains a then some ([a], rest)
    else some ((a :: rest).takeWhile isWordChar, (a :: rest).dropWhile isWordChar)

/-- What follows the blanks starts a word unless it is a parenthesis. -/
theorem isWordChar_of_dropWhile {cs tail : List Char} {a : Char}
    (h : cs.dropWhile blanks.contains = a :: tail) (ha : ¬parens.contains a = true) :
    isWordChar a = true := by
  have hblank := List.head?_dropWhile_not blanks.contains cs
  simp_all [isWordChar, breaks]

theorem length_lt_of_firstToken? {cs word rest : List Char}
    (h : firstToken? cs = some (word, rest)) : rest.length < cs.length := by
  have hdrop : (cs.dropWhile blanks.contains).length ≤ cs.length :=
    (List.dropWhile_sublist _).length_le
  unfold firstToken? at h
  split at h
  · simp at h
  · rename_i a tail hcs
    rw [hcs, List.length_cons] at hdrop
    split at h
    · simp only [Option.some.injEq, Prod.mk.injEq] at h
      rw [← h.2]
      omega
    · -- The word has a character at least, the one behind the blanks.
      rename_i hparen
      have hword := isWordChar_of_dropWhile hcs hparen
      have htail : (tail.dropWhile isWordChar).length ≤ tail.length :=
        (List.dropWhile_sublist _).length_le
      rw [List.dropWhile_cons_of_pos hword] at h
      simp only [Option.some.injEq, Prod.mk.injEq] at h
      rw [← h.2]
      omega

/-- The tokens of some characters. -/
def splitTokens (cs : List Char) : List String :=
  match _h : firstToken? cs with
  | some (word, rest) => String.ofList word :: splitTokens rest
  | none => []
termination_by cs.length
decreasing_by exact length_lt_of_firstToken? _h

/-! ### The cursor yields these tokens -/

namespace Cursor

theorem skipBlanks_spec {c : Cursor Char} (h : c.taken = 0) :
    c.skipBlanks.2.taken = 0 ∧ c.skipBlanks.2.items = c.items.dropWhile blanks.contains := by
  have hmoves := (moves_skipAny blanks (placed_of_taken h)).2
  refine ⟨rfl, ?_⟩
  show (c.skipAny blanks).2.discard.items = _
  rw [items_discard (hmoves.settled (settled_of_taken h)), hmoves.ahead_eq, ahead_of_taken h,
    drop_length_takeWhile]

/-- What a cursor that has gone `n` items from the start hands over, and what it keeps. -/
theorem extractString_spec {c c' : Cursor Char} {n : ℕ} (h : c.taken = 0) (hm : Moves c n c') :
    c'.extractString.1 = String.ofList (c.items.take n) ∧
      c'.extractString.2.taken = 0 ∧ c'.extractString.2.items = c.items.drop n := by
  have hsettled := hm.settled (settled_of_taken h)
  refine ⟨?_, rfl, ?_⟩
  · show String.ofList c'.passed.toList = _
    rw [passed_eq_take hsettled, hm.items_eq, hm.taken_eq, h, Nat.zero_add]
  · show c'.discard.items = _
    rw [items_discard hsettled, hm.ahead_eq, ahead_of_taken h]

/-- The run of a word in a cursor at its start. -/
theorem skipUntilAny_breaks_spec {c : Cursor Char} (h : c.taken = 0) :
    (c.skipUntilAny breaks).1 = !(c.items.takeWhile isWordChar).isEmpty ∧
      Moves c (c.items.takeWhile isWordChar).length (c.skipUntilAny breaks).2 := by
  rw [← ahead_of_taken h]
  exact moves_skipUntilAny breaks c

theorem nextToken_of_accept {c d : Cursor Char} {a : Char}
    (h : c.skipBlanks.2.acceptAny parens = (some a, d)) :
    c.nextToken = (some d.extractString.1, d.extractString.2) := by
  simp only [nextToken, h]

theorem nextToken_of_skip {c d e : Cursor Char} {found : Bool}
    (h : c.skipBlanks.2.acceptAny parens = (none, d)) (h' : d.skipUntilAny breaks = (found, e)) :
    c.nextToken = if found then (some e.extractString.1, e.extractString.2) else (none, e) := by
  cases found <;> simp [nextToken, h, h']

/-- The next token of a cursor is the first token of its characters, and the cursor keeps what is
behind it, which is nothing where there is no token. -/
theorem nextToken_spec {c : Cursor Char} (h : c.taken = 0) :
    c.nextToken.1 = (firstToken? c.items).map (fun p => String.ofList p.1) ∧
      c.nextToken.2.taken = 0 ∧
      c.nextToken.2.items = ((firstToken? c.items).map Prod.snd).getD [] := by
  obtain ⟨htaken, hitems⟩ := skipBlanks_spec h
  have hahead := ahead_of_taken htaken
  have hpeek := moves_peek c.skipBlanks.2
  have hback := seek_next (placed_of_taken htaken)
  have htaken' : c.skipBlanks.2.peek.2.taken = 0 := htaken
  unfold firstToken?
  rw [← hitems]
  rcases hcs : c.skipBlanks.2.items with _ | ⟨a, tail⟩
  · -- Nothing is left: there is no parenthesis, and no run.
    have hhead : ∀ b ∈ c.skipBlanks.2.ahead.head?, parens.contains b = false := by
      rw [hahead, hcs]
      rintro b ⟨⟩
    have hnone := acceptAny_of_not_contains hhead
    rw [hback] at hnone
    obtain ⟨hrun, hmoves⟩ := skipUntilAny_breaks_spec htaken'
    rw [hpeek.items_eq, hcs] at hrun hmoves
    rw [nextToken_of_skip hnone (Prod.eta _).symm, hrun]
    refine ⟨rfl, ?_, ?_⟩
    · exact hmoves.taken_eq.trans htaken'
    · exact hmoves.items_eq.trans (hpeek.items_eq.trans hcs)
  by_cases hparen : parens.contains a = true
  · -- The parenthesis is accepted, and handed over by itself.
    rw [hcs] at hahead
    obtain ⟨hfst, htaken'', hitems''⟩ := extractString_spec htaken (moves_next hahead)
    rw [hcs] at hfst hitems''
    rw [nextToken_of_accept (acceptAny_of_contains hahead hparen)]
    simp only [hparen, ↓reduceIte, Option.map_some, Option.getD_some]
    exact ⟨congrArg some hfst, htaken'', hitems''⟩
  · -- The first character starts a run, for it is neither blank nor a parenthesis.
    have hword := isWordChar_of_dropWhile (hitems.symm.trans hcs) hparen
    have hhead : ∀ b ∈ c.skipBlanks.2.ahead.head?, parens.contains b = false := by
      rw [hahead, hcs]
      rintro b ⟨⟩
      simpa using hparen
    have hnone := acceptAny_of_not_contains hhead
    rw [hback] at hnone
    obtain ⟨hrun, hmoves⟩ := skipUntilAny_breaks_spec htaken'
    obtain ⟨hfst, htaken'', hitems''⟩ := extractString_spec htaken' hmoves
    rw [hpeek.items_eq, hcs] at hrun hfst hitems''
    rw [take_length_takeWhile] at hfst
    rw [drop_length_takeWhile] at hitems''
    rw [List.takeWhile_cons_of_pos hword] at hrun
    rw [nextToken_of_skip hnone (Prod.eta _).symm, hrun]
    simp only [hparen, Bool.false_eq_true, ↓reduceIte, List.isEmpty_cons, Bool.not_false,
      Option.map_some, Option.getD_some]
    exact ⟨congrArg some hfst, htaken'', hitems''⟩

/-- The tokens of a cursor are the tokens of its characters. -/
theorem tokens_eq {c : Cursor Char} (h : c.taken = 0) : c.tokens = splitTokens c.items := by
  -- Both recursions go from a token to the characters behind it.
  generalize hn : c.items.length = n
  induction n using Nat.strong_induction_on generalizing c with
  | _ n ih =>
  obtain ⟨hfst, htaken, hitems⟩ := nextToken_spec h
  rw [tokens, splitTokens]
  rcases ht : firstToken? c.items with _ | ⟨word, rest⟩
  · rw [ht] at hfst
    split <;> simp_all
  · rw [ht] at hfst hitems
    have hlt := length_lt_of_firstToken? ht
    split
    · rename_i t c' hnext
      rw [hnext] at hfst htaken hitems
      simp only [Option.map_some, Option.some.injEq, Option.getD_some] at hfst hitems
      have hrest : c'.tokens = splitTokens c'.items := by
        refine ih rest.length ?_ htaken ?_
        · omega
        · rw [hitems]
      rw [hfst, hrest, hitems]
    · simp_all

end Cursor

/-- Cutting a text into tokens needs no cursor. -/
theorem tokenize_eq (source : String) : tokenize source = splitTokens source.toList := by
  rw [tokenize, Cursor.tokens_eq rfl]
  rfl

/-! ### Equations -/

/-- Characters that make up a token other than a parenthesis. -/
def IsWord (word : List Char) : Prop := word ≠ [] ∧ ∀ a ∈ word, isWordChar a = true

theorem isWord_of_all {word : List Char} (hne : word ≠ []) (h : word.all isWordChar = true) :
    IsWord word :=
  ⟨hne, List.all_eq_true.1 h⟩

/-- Characters that end a word before them. -/
def BreaksOff (rest : List Char) : Prop := ∀ a ∈ rest.head?, isWordChar a = false

theorem splitTokens_of_none {cs : List Char} (h : firstToken? cs = none) : splitTokens cs = [] := by
  rw [splitTokens]
  split <;> simp_all

theorem splitTokens_of_some {cs word rest : List Char} (h : firstToken? cs = some (word, rest)) :
    splitTokens cs = String.ofList word :: splitTokens rest := by
  rw [splitTokens]
  split <;> simp_all

@[simp] theorem splitTokens_nil : splitTokens [] = [] :=
  splitTokens_of_none rfl

theorem splitTokens_blank {a : Char} (h : blanks.contains a = true) (cs : List Char) :
    splitTokens (a :: cs) = splitTokens cs := by
  have hfirst : firstToken? (a :: cs) = firstToken? cs := by
    rw [firstToken?, firstToken?, List.dropWhile_cons_of_pos h]
  rcases hcs : firstToken? cs with _ | ⟨word, rest⟩
  · rw [splitTokens_of_none hcs, splitTokens_of_none (hfirst.trans hcs)]
  · rw [splitTokens_of_some hcs, splitTokens_of_some (hfirst.trans hcs)]

theorem splitTokens_paren {a : Char} (h : parens.contains a = true) (cs : List Char) :
    splitTokens (a :: cs) = String.ofList [a] :: splitTokens cs := by
  have hblank : ¬blanks.contains a = true := by
    intro hb
    simp only [parens, blanks, List.contains_iff_mem, List.mem_cons] at h hb
    rcases h with rfl | rfl | h <;> simp_all
  apply splitTokens_of_some
  rw [firstToken?, List.dropWhile_cons_of_neg hblank]
  simp only [h, ↓reduceIte]

/-- A word before the end or a break is a token. -/
theorem splitTokens_word {word rest : List Char} (hw : IsWord word) (hr : BreaksOff rest) :
    splitTokens (word ++ rest) = String.ofList word :: splitTokens rest := by
  obtain ⟨hne, hall⟩ := hw
  have hrest : rest.takeWhile isWordChar = [] ∧ rest.dropWhile isWordChar = rest := by
    rcases rest with _ | ⟨b, rest⟩
    · exact ⟨rfl, rfl⟩
    · have hb : isWordChar b = false := hr b rfl
      simp [hb]
  rcases word with _ | ⟨a, word⟩
  · exact absurd rfl hne
  have ha : isWordChar a = true := hall a (List.mem_cons_self ..)
  obtain ⟨hparen, hblank⟩ : a ∉ parens ∧ a ∉ blanks := by
    simpa [isWordChar, breaks] using ha
  apply splitTokens_of_some
  rw [firstToken?, List.cons_append, List.dropWhile_cons_of_neg (by simpa using hblank)]
  simp only [List.contains_iff_mem, hparen, ↓reduceIte]
  rw [← List.cons_append, List.takeWhile_append_of_pos hall, List.dropWhile_append_of_pos hall,
    hrest.1, hrest.2, List.append_nil]

/-- The first token is a parenthesis or a word. -/
theorem isToken_of_firstToken? {cs word rest : List Char} (h : firstToken? cs = some (word, rest)) :
    (∃ a, parens.contains a = true ∧ word = [a]) ∨ IsWord word := by
  unfold firstToken? at h
  split at h
  · simp at h
  · rename_i a tail hcs
    split at h
    · rename_i hparen
      simp only [Option.some.injEq, Prod.mk.injEq] at h
      exact Or.inl ⟨a, hparen, h.1.symm⟩
    · rename_i hparen
      have hword := isWordChar_of_dropWhile hcs hparen
      simp only [Option.some.injEq, Prod.mk.injEq] at h
      rw [← h.1]
      refine Or.inr ⟨?_, fun b hb => List.mem_takeWhile_imp hb⟩
      rw [List.takeWhile_cons_of_pos hword]
      exact List.cons_ne_nil _ _

/-- Every token is a parenthesis or a word. -/
theorem isToken_of_mem_splitTokens {cs : List Char} {t : String} (h : t ∈ splitTokens cs) :
    t = "(" ∨ t = ")" ∨ IsWord t.toList := by
  fun_induction splitTokens cs with
  | case1 cs word rest hfirst ih =>
    rcases List.mem_cons.mp h with rfl | hmem
    · rcases isToken_of_firstToken? hfirst with ⟨a, ha, rfl⟩ | hword
      · simp only [parens, List.contains_iff_mem, List.mem_cons, List.not_mem_nil, or_false] at ha
        rcases ha with rfl | rfl
        · exact Or.inl rfl
        · exact Or.inr (Or.inl rfl)
      · exact Or.inr (Or.inr (by rwa [String.toList_ofList]))
    · exact ih hmem
  | case2 => simp at h

end SmallLisp
