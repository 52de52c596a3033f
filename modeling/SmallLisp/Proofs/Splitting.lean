import Mathlib.Logic.Function.Iterate
import Mathlib.Tactic.Common
import SmallLisp.Proofs.Token

/-!
# Tokens by splitting

The tokens of a text are found in two passes: `spaced` puts a space on each side of every
parenthesis, and `pieces` splits what comes of it at the blanks and drops the empty pieces.
`tokenize_eq_pieces` says that `tokenize` does this, and that a cursor hands over these tokens one
by one and then nothing any more.

Both ways of cutting follow the same shapes of a list of characters (`chars_induction`): a blank, a
parenthesis or a word is taken off its front.  Splitting makes it plain where a text can be cut in
two without cutting a token: at a blank (`splitTokens_append_blank`) and at a parenthesis
(`splitTokens_append_paren`).
-/

namespace SmallLisp

/-! ### The two passes -/

/-- Characters with a space on each side of every parenthesis. -/
def spaced (cs : List Char) : List Char :=
  cs.flatMap fun a => if a = '(' ∨ a = ')' then [' ', a, ' '] else [a]

/-- Characters between which a text is split. -/
def isSeparator (a : Char) : Bool := a == ' ' || a == '\t' || a == '\n' || a == '\r'

/-- The pieces of some characters between separators, without the empty ones. -/
def pieces (cs : List Char) : List (List Char) :=
  (cs.splitOnP isSeparator).filter fun piece => !piece.isEmpty

/-! ### Kinds of characters -/

theorem isSeparator_eq (a : Char) : isSeparator a = blanks.contains a := by
  rw [Bool.eq_iff_iff]
  simp only [isSeparator, blanks, Bool.or_eq_true, beq_iff_eq, List.contains_iff_mem,
    List.mem_cons, List.not_mem_nil, or_false]
  tauto

theorem isParen_iff (a : Char) : a = '(' ∨ a = ')' ↔ parens.contains a = true := by
  simp [parens]

theorem isWordChar_iff (a : Char) :
    isWordChar a = true ↔ parens.contains a = false ∧ blanks.contains a = false := by
  simp [isWordChar, breaks]

theorem blanks_of_parens {a : Char} (h : parens.contains a = true) :
    blanks.contains a = false := by
  rcases (isParen_iff a).2 h with rfl | rfl <;> rfl

theorem parens_of_blanks {a : Char} (h : blanks.contains a = true) :
    parens.contains a = false := by
  by_contra hparen
  cases h.symm.trans (blanks_of_parens (by simpa using hparen))

/-! ### Spacing -/

@[simp] theorem spaced_nil : spaced [] = [] := rfl

theorem spaced_append (cs cs' : List Char) : spaced (cs ++ cs') = spaced cs ++ spaced cs' :=
  List.flatMap_append

theorem spaced_paren {a : Char} (h : parens.contains a = true) (cs : List Char) :
    spaced (a :: cs) = ' ' :: a :: ' ' :: spaced cs := by
  rw [spaced, List.flatMap_cons, if_pos ((isParen_iff a).2 h)]
  rfl

theorem spaced_of_not_paren {a : Char} (h : parens.contains a = false) (cs : List Char) :
    spaced (a :: cs) = a :: spaced cs := by
  rw [spaced, List.flatMap_cons, if_neg (by rw [isParen_iff, h]; simp)]
  rfl

/-- Words have no parentheses to be spaced. -/
theorem spaced_word {word : List Char} (h : ∀ a ∈ word, isWordChar a = true) :
    spaced word = word := by
  induction word with
  | nil => rfl
  | cons a word ih =>
    rw [List.forall_mem_cons] at h
    rw [spaced_of_not_paren ((isWordChar_iff a).1 h.1).1, ih h.2]

/-- What ends a word starts with a separator, once it is spaced. -/
theorem isSeparator_of_breaksOff {rest : List Char} (h : BreaksOff rest) :
    ∀ a ∈ (spaced rest).head?, isSeparator a = true := by
  rcases rest with _ | ⟨b, rest⟩
  · rintro a ⟨⟩
  · by_cases hparen : parens.contains b = true
    · rw [spaced_paren hparen]
      rintro a ⟨⟩
      rfl
    · have hparen : parens.contains b = false := by simpa using hparen
      rw [spaced_of_not_paren hparen]
      rintro a ⟨⟩
      rw [isSeparator_eq]
      by_contra hblank
      have hb : isWordChar b = true := (isWordChar_iff b).2 ⟨hparen, by simpa using hblank⟩
      cases hb.symm.trans (h b rfl)

/-! ### Pieces -/

@[simp] theorem pieces_nil : pieces [] = [] := rfl

/-- A text is split at a separator. -/
theorem pieces_append_cons {a : Char} (h : isSeparator a = true) (cs cs' : List Char) :
    pieces (cs ++ a :: cs') = pieces cs ++ pieces cs' := by
  rw [pieces, List.splitOnP_append_cons cs cs' h, List.filter_append]
  rfl

theorem pieces_cons {a : Char} (h : isSeparator a = true) (cs : List Char) :
    pieces (a :: cs) = pieces cs :=
  pieces_append_cons h [] cs

theorem pieces_eq_singleton {piece : List Char} (hne : piece ≠ [])
    (h : ∀ a ∈ piece, isSeparator a = false) : pieces piece = [piece] := by
  rw [pieces, List.splitOnP_eq_singleton h]
  simp [hne]

/-- A piece before the end or before a separator. -/
theorem pieces_append {piece rest : List Char} (hne : piece ≠ [])
    (h : ∀ a ∈ piece, isSeparator a = false) (hrest : ∀ a ∈ rest.head?, isSeparator a = true) :
    pieces (piece ++ rest) = piece :: pieces rest := by
  rcases rest with _ | ⟨b, rest⟩
  · rw [List.append_nil, pieces_eq_singleton hne h, pieces_nil]
  · have hb : isSeparator b = true := hrest b rfl
    rw [pieces_append_cons hb, pieces_eq_singleton hne h, pieces_cons hb, List.singleton_append]

/-! ### Both cut off the same tokens -/

/-- Induction on characters, by what is taken off their front. -/
@[elab_as_elim]
theorem chars_induction {P : List Char → Prop} (nil : P [])
    (blank : ∀ a cs, blanks.contains a = true → P cs → P (a :: cs))
    (paren : ∀ a cs, parens.contains a = true → P cs → P (a :: cs))
    (word : ∀ word rest, IsWord word → BreaksOff rest → P rest → P (word ++ rest))
    (cs : List Char) : P cs := by
  induction hn : cs.length using Nat.strong_induction_on generalizing cs with
  | _ n ih =>
  rcases cs with _ | ⟨a, cs⟩
  · exact nil
  have hcs : P cs := ih cs.length (by rw [← hn, List.length_cons]; omega) cs rfl
  by_cases hblank : blanks.contains a = true
  · exact blank a cs hblank hcs
  by_cases hparen : parens.contains a = true
  · exact paren a cs hparen hcs
  · -- The word that the first character starts ends at a break.
    have ha : isWordChar a = true :=
      (isWordChar_iff a).2 ⟨by simpa using hparen, by simpa using hblank⟩
    have hlt : ((a :: cs).dropWhile isWordChar).length < n := by
      have htail : (cs.dropWhile isWordChar).length ≤ cs.length :=
        (List.dropWhile_sublist _).length_le
      rw [List.dropWhile_cons_of_pos ha, ← hn, List.length_cons]
      omega
    have hword : IsWord ((a :: cs).takeWhile isWordChar) := by
      refine ⟨?_, fun b hb => List.mem_takeWhile_imp hb⟩
      rw [List.takeWhile_cons_of_pos ha]
      exact List.cons_ne_nil _ _
    have hrest : BreaksOff ((a :: cs).dropWhile isWordChar) := by
      intro b hb
      have hstop := List.head?_dropWhile_not isWordChar (a :: cs)
      rw [hb] at hstop
      exact hstop
    have hsplit := word _ _ hword hrest (ih _ hlt _ rfl)
    rwa [List.takeWhile_append_dropWhile] at hsplit

theorem splitTokens_eq_pieces (cs : List Char) :
    splitTokens cs = (pieces (spaced cs)).map String.ofList := by
  induction cs using chars_induction with
  | nil => simp
  | blank a cs ha ih =>
    rw [splitTokens_blank ha, spaced_of_not_paren (parens_of_blanks ha),
      pieces_cons ((isSeparator_eq a).trans ha), ih]
  | paren a cs ha ih =>
    -- The space behind the parenthesis ends the piece.
    have hsep : ∀ b ∈ [a], isSeparator b = false := by
      rw [List.forall_mem_singleton, isSeparator_eq]
      exact blanks_of_parens ha
    have hpiece : pieces ([a] ++ ' ' :: spaced cs) = [a] :: pieces (spaced cs) := by
      rw [pieces_append (List.cons_ne_nil _ _) hsep (by rintro b ⟨⟩; rfl), pieces_cons rfl]
    rw [List.singleton_append] at hpiece
    rw [splitTokens_paren ha, spaced_paren ha, pieces_cons rfl, hpiece, List.map_cons, ih]
  | word word rest hword hrest ih =>
    obtain ⟨hne, hall⟩ := hword
    have hsep : ∀ a ∈ word, isSeparator a = false := by
      intro a ha
      rw [isSeparator_eq]
      exact ((isWordChar_iff a).1 (hall a ha)).2
    rw [splitTokens_word ⟨hne, hall⟩ hrest, spaced_append, spaced_word hall,
      pieces_append hne hsep (isSeparator_of_breaksOff hrest), List.map_cons, ih]

/-! ### Texts put together -/

/-- No token goes across a blank. -/
theorem splitTokens_append_blank {a : Char} (h : blanks.contains a = true) (cs cs' : List Char) :
    splitTokens (cs ++ a :: cs') = splitTokens cs ++ splitTokens cs' := by
  have hsep : isSeparator a = true := (isSeparator_eq a).trans h
  rw [splitTokens_eq_pieces, spaced_append, spaced_of_not_paren (parens_of_blanks h),
    pieces_append_cons hsep, List.map_append, ← splitTokens_eq_pieces, ← splitTokens_eq_pieces]

/-- No token goes across a parenthesis, which is one by itself. -/
theorem splitTokens_append_paren {a : Char} (h : parens.contains a = true) (cs cs' : List Char) :
    splitTokens (cs ++ a :: cs') = splitTokens cs ++ String.ofList [a] :: splitTokens cs' := by
  -- The space before the parenthesis separates it from what it follows.
  have hspace : isSeparator ' ' = true := rfl
  have hpieces : pieces (spaced cs ++ spaced (a :: cs'))
      = pieces (spaced cs) ++ pieces (spaced (a :: cs')) := by
    rw [spaced_paren h, pieces_append_cons hspace, pieces_cons hspace]
  rw [splitTokens_eq_pieces, spaced_append, hpieces, List.map_append, ← splitTokens_eq_pieces,
    ← splitTokens_eq_pieces, splitTokens_paren h]

/-! ### The cursor hands them over -/

namespace Cursor

/-- A token is handed over, and the others are left. -/
theorem splitTokens_nextToken {c : Cursor Char} (h : c.taken = 0) :
    c.nextToken.1 = (splitTokens c.items).head? ∧ c.nextToken.2.taken = 0 ∧
      splitTokens c.nextToken.2.items = (splitTokens c.items).tail := by
  obtain ⟨hfst, htaken, hitems⟩ := nextToken_spec h
  rw [hfst, hitems]
  rcases hfirst : firstToken? c.items with _ | ⟨word, rest⟩
  · rw [splitTokens_of_none hfirst]
    exact ⟨rfl, htaken, splitTokens_nil⟩
  · rw [splitTokens_of_some hfirst]
    exact ⟨rfl, htaken, rfl⟩

/-- However many tokens have been asked for, the next one that is handed over is the next one of the
characters. -/
theorem nextToken_iterate {c : Cursor Char} (h : c.taken = 0) (n : ℕ) :
    ((fun c => c.nextToken.2)^[n] c).nextToken.1 = (splitTokens c.items)[n]? := by
  induction n generalizing c with
  | zero => rw [Function.iterate_zero_apply, (splitTokens_nextToken h).1, List.head?_eq_getElem?]
  | succ n ih =>
    obtain ⟨-, htaken, htail⟩ := splitTokens_nextToken h
    rw [Function.iterate_succ_apply, ih htaken, htail, List.getElem?_tail]

end Cursor

/-- **Tokens are the pieces of the spaced text**: they are what splitting at blanks leaves of a text
with spaces around its parentheses, and a cursor hands them over in order, and then nothing however
often it is asked. -/
theorem tokenize_eq_pieces (source : String) :
    tokenize source = (pieces (spaced source.toList)).map String.ofList ∧
      ∀ n, ((fun c => c.nextToken.2)^[n] (Cursor.ofString source)).nextToken.1
        = (tokenize source)[n]? := by
  rw [tokenize_eq]
  exact ⟨splitTokens_eq_pieces _, fun n => Cursor.nextToken_iterate rfl n⟩

end SmallLisp
