import Mathlib.Tactic.Common
import SmallLisp.Text.Lines

/-!
# Lines of a text

No line holds a line feed (`not_mem_of_mem_lines`), and any such lines are the lines of some text:
put together with a carriage return and a line feed after each, they come apart again
(`lines_join`).  A line feed alone would not do, since it takes along a carriage return that ends
the line.  For the same reason the lines of two texts with a line feed between them are not quite
those of the one and then those of the other: the first text has to be given its line feed
(`lines_append_feed`).
-/

namespace SmallLisp.Text

variable {line cs l : List Char}

theorem linesFrom_cons {c : Char} (hc : c ≠ '\n') :
    linesFrom line (c :: cs) = linesFrom (c :: line) cs := by
  rw [linesFrom]
  exact hc

theorem dropReturn_cons {c : Char} (hc : c ≠ '\r') : dropReturn (c :: line) = c :: line := by
  rw [dropReturn]
  exact fun _ h => hc (List.cons.inj h).1

theorem not_mem_dropReturn (h : '\n' ∉ line) : '\n' ∉ dropReturn line := by
  unfold dropReturn
  split
  · exact fun hmem => h (List.mem_cons_of_mem _ hmem)
  · exact h

theorem not_mem_of_mem_linesFrom (hline : '\n' ∉ line) (hl : l ∈ linesFrom line cs) :
    '\n' ∉ l := by
  induction cs generalizing line with
  | nil =>
    unfold linesFrom at hl
    split_ifs at hl
    · cases hl
    · rw [List.mem_singleton.1 hl, List.mem_reverse]
      exact hline
  | cons c cs ih =>
    by_cases hc : c = '\n'
    · -- The line ends here: it is `line`, or else one of those behind it.
      subst hc
      rcases List.mem_cons.1 hl with rfl | hl
      · rw [List.mem_reverse]
        exact not_mem_dropReturn hline
      · exact ih (List.not_mem_nil) hl
    · rw [linesFrom_cons hc] at hl
      refine ih ?_ hl
      rintro (_ | ⟨_, hmem⟩)
      · exact hc rfl
      · exact hline hmem

theorem not_mem_of_mem_lines {text s : String} (h : s ∈ lines text) : '\n' ∉ s.toList := by
  obtain ⟨l, hl, rfl⟩ := List.mem_map.1 h
  rw [String.toList_ofList]
  exact not_mem_of_mem_linesFrom List.not_mem_nil hl

/-- Characters without a line feed go on with a line. -/
theorem linesFrom_append_of_not_mem (hl : '\n' ∉ l) :
    linesFrom line (l ++ cs) = linesFrom (l.reverse ++ line) cs := by
  induction l generalizing line with
  | nil => rfl
  | cons c l ih =>
    obtain ⟨hc, hl⟩ := not_or.1 fun hmem => hl (List.mem_cons.2 hmem)
    rw [List.cons_append, linesFrom_cons (Ne.symm hc), ih hl, List.reverse_cons, List.append_assoc]
    rfl

/-- A line that ends in a carriage return and a line feed. -/
theorem linesFrom_append (hl : '\n' ∉ l) :
    linesFrom line (l ++ '\r' :: '\n' :: cs) = (line.reverse ++ l) :: linesFrom [] cs := by
  rw [linesFrom_append_of_not_mem hl, linesFrom_cons (by decide)]
  simp [linesFrom, dropReturn]

/-- A line that ends in a line feed alone. -/
theorem linesFrom_feed (hl : '\n' ∉ l) (hreturn : l.getLast? ≠ some '\r') :
    linesFrom [] (l ++ '\n' :: cs) = l :: linesFrom [] cs := by
  have hkeep : dropReturn l.reverse = l.reverse := by
    unfold dropReturn
    split
    · next heq => simp [← List.head?_reverse, heq] at hreturn
    · rfl
  rw [linesFrom_append_of_not_mem hl, List.append_nil, linesFrom, hkeep, List.reverse_reverse]

/-- A line that has no ending. -/
theorem linesFrom_unended (hne : l ≠ []) (hl : '\n' ∉ l) : linesFrom [] l = [l] := by
  have happend : linesFrom [] (l ++ []) = linesFrom (l.reverse ++ []) [] :=
    linesFrom_append_of_not_mem hl
  rw [List.append_nil, List.append_nil] at happend
  rw [happend, linesFrom, if_neg (by simpa using hne), List.reverse_reverse]

/-- No line goes across a line feed. -/
theorem linesFrom_append_feed {cs' : List Char} :
    linesFrom line (cs ++ '\n' :: cs') = linesFrom line (cs ++ ['\n']) ++ linesFrom [] cs' := by
  induction cs generalizing line with
  | nil => rfl
  | cons c cs ih =>
    by_cases hc : c = '\n'
    · subst hc
      simp [linesFrom, ih]
    · rw [List.cons_append, List.cons_append, linesFrom_cons hc, linesFrom_cons hc, ih]

theorem lines_append_feed (a b : String) :
    lines (a ++ "\n" ++ b) = lines (a ++ "\n") ++ lines b := by
  have hfeed : (a ++ "\n" ++ b).toList = a.toList ++ '\n' :: b.toList := by simp
  have hfeed' : (a ++ "\n").toList = a.toList ++ ['\n'] := by simp
  rw [lines, hfeed, linesFrom_append_feed, List.map_append, lines, lines, hfeed']

/-- Lines put together come apart again. -/
theorem lines_join {ls : List String} (h : ∀ s ∈ ls, '\n' ∉ s.toList) :
    lines (String.ofList (ls.flatMap fun s => s.toList ++ ['\r', '\n'])) = ls := by
  unfold lines
  rw [String.toList_ofList]
  induction ls with
  | nil => rfl
  | cons s ls ih =>
    rw [List.forall_mem_cons] at h
    rw [List.flatMap_cons, List.append_assoc, List.cons_append, List.cons_append, List.nil_append,
      linesFrom_append h.1, List.map_cons, ih h.2, List.reverse_nil, List.nil_append,
      String.ofList_toList]

end SmallLisp.Text
