import SmallLisp.Proofs.Reader
import SmallLisp.Proofs.Splitting
import SmallLisp.Session

/-!
# Blank lines and lines without tokens

A script leaves out its blank lines before it reads any, and what is blank there is not what is
blank between tokens: a line is blank if it is all white space, of which there are twenty-five
characters, and tokens end at four of them only.

The tokens of a line hold all of its characters but those four (`flatMap_splitTokens`).  So a line
without tokens is blank, but a blank line may have tokens, and these are then left out unread.  A
script interprets the lines that have a token with something else in it than white space, and
differs from interpreting all lines that have a token exactly at lines of white space that are not
made of the four alone (`runScript_reads_visible`).
-/

namespace SmallLisp

/-! ### What tokens are made of -/

/-- Tokens hold all characters but the blanks, in their order. -/
theorem flatMap_splitTokens (cs : List Char) :
    (splitTokens cs).flatMap String.toList = cs.filter fun a => !blanks.contains a := by
  induction cs using chars_induction with
  | nil => simp
  | blank a cs ha ih => rw [splitTokens_blank ha, ih, List.filter_cons_of_neg (by rw [ha]; decide)]
  | paren a cs ha ih =>
    have hblank := blanks_of_parens ha
    rw [splitTokens_paren ha, List.flatMap_cons, ih, List.filter_cons_of_pos (by rw [hblank]; rfl),
      String.toList_ofList, List.singleton_append]
  | word word rest hword hrest ih =>
    have hkept : (word.filter fun a => !blanks.contains a) = word := by
      rw [List.filter_eq_self]
      intro a ha
      rw [((isWordChar_iff a).1 (hword.2 a ha)).2]
      rfl
    rw [splitTokens_word hword hrest, List.flatMap_cons, ih, List.filter_append, hkept,
      String.toList_ofList]

/-- There are no tokens in blanks, and only there. -/
theorem tokenize_eq_nil_iff {line : String} :
    tokenize line = [] ↔ ∀ a ∈ line.toList, a ∈ blanks := by
  rw [tokenize_eq]
  constructor
  · intro hnil a ha
    have hmem := flatMap_splitTokens line.toList
    rw [hnil, List.flatMap_nil, eq_comm, List.filter_eq_nil_iff] at hmem
    simpa using hmem a ha
  · intro hall
    revert hall
    induction line.toList with
    | nil => exact fun _ => splitTokens_nil
    | cons a cs ih =>
      intro hall
      obtain ⟨ha, hcs⟩ := List.forall_mem_cons.1 hall
      rw [splitTokens_blank (List.contains_iff_mem.2 ha)]
      exact ih hcs

/-- The blanks between tokens are white space. -/
theorem isWhiteSpace_of_mem_blanks {a : Char} (h : a ∈ blanks) : Text.isWhiteSpace a = true := by
  have hall : blanks.all Text.isWhiteSpace = true := rfl
  exact List.all_eq_true.1 hall a h

/-! ### Lines that are left out -/

/-- Whether a line has a token with something else in it than white space. -/
def hasVisibleToken (line : String) : Bool := (tokenize line).any fun t => !Text.isBlank t

/-- A line is blank unless one of its tokens is not. -/
theorem isBlank_eq (line : String) : Text.isBlank line = !hasVisibleToken line := by
  have htokens : hasVisibleToken line
      = (line.toList.filter fun a => !blanks.contains a).any fun a => !Text.isWhiteSpace a := by
    unfold hasVisibleToken Text.isBlank
    rw [← flatMap_splitTokens, List.any_flatMap, tokenize_eq]
    congr 1
    funext t
    rw [List.not_all_eq_any_not]
  have hblanks : ((line.toList.filter fun a => !blanks.contains a).any fun a =>
      !Text.isWhiteSpace a) = line.toList.any fun a => !Text.isWhiteSpace a := by
    rw [List.any_filter]
    congr 1
    funext a
    by_cases ha : a ∈ blanks
    · simp [ha, isWhiteSpace_of_mem_blanks ha]
    · simp [ha]
  rw [htokens, hblanks, ← List.not_all_eq_any_not, Bool.not_not]
  rfl

/-- **Which lines a script reads**: it interprets one after the other the lines that have a token
with something else in it than white space.  Such a line has a token, but a line that has a token
may not be such a line; this happens exactly if it is made of white space, and not only of the
blanks between tokens. -/
theorem runScript_reads_visible (depth : ℕ) (f : FrameId) (source : String) :
    runScript depth f source
        = ((Text.lines source).filter hasVisibleToken).mapM
          (fun line => (interpret depth f line).run) ∧
      ∀ line, ((hasVisibleToken line = true ↔ tokenize line ≠ []) ↔
        ¬((∀ a ∈ line.toList, Text.isWhiteSpace a = true) ∧ ∃ a ∈ line.toList, a ∉ blanks)) := by
  constructor
  · unfold runScript scriptLines
    simp only [isBlank_eq, Bool.not_not]
  · intro line
    have hblank : hasVisibleToken line = false ↔
        ∀ a ∈ line.toList, Text.isWhiteSpace a = true := by
      rw [← List.all_eq_true, ← Text.isBlank, isBlank_eq, Bool.not_eq_true']
    have hnone : tokenize line ≠ [] ↔ ∃ a ∈ line.toList, a ∉ blanks := by
      rw [ne_eq, tokenize_eq_nil_iff]
      push Not
      rfl
    rw [← hblank, ← hnone]
    cases hvisible : hasVisibleToken line with
    | false => simp
    | true =>
      have htokens : tokenize line ≠ [] := by
        intro hnil
        rw [hasVisibleToken, hnil] at hvisible
        cases hvisible
      simp [htokens]

/-- A no-break space is a token and has a value, but a script that has it for a line leaves it
out. -/
theorem noBreakSpace_not_read : Text.lines "\u00a0" = ["\u00a0"] ∧ tokenize "\u00a0" = ["\u00a0"] ∧
    (interpret 1 Store.empty.root.1 "\u00a0").run.run' Store.empty.root.2
      = some (.ok (some "\u00a0")) ∧
    (runScript 1 Store.empty.root.1 "\u00a0").run' Store.empty.root.2 = some [] := by
  decide +kernel

end SmallLisp
