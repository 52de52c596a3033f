import SmallLisp.Proofs.Reader
import SmallLisp.Proofs.Splitting
import SmallLisp.Proofs.Text.Lines
import SmallLisp.Session

/-!
# Scripts put together

Two texts with a line feed between them are one script, which runs like the first and then the
second (`runScript_append`).  This is not plain from the lines: if the first text ends in a carriage
return, its last line loses it to the line feed, and if the first text ends in a line feed or is
empty, there is one more line.

What a line comes to depends on its tokens only (`interpret_eq`).  A carriage return at the end of a
line is in no token and is blank, and the line that is one too many is blank as well, so the lines
that are not blank have the same tokens with and without the line feed (`scriptTokens_append_feed`).
-/

namespace SmallLisp

/-! ### Lines as tokens -/

/-- Reads an expression from tokens, evaluates it in a frame and writes its value. -/
def interpretTokens (depth : ℕ) (f : FrameId) (tokens : List String) : Action (Option String) := do
  return (← eval depth f (← ofExcept (parseTokens tokens))).map Value.text

theorem interpret_eq (depth : ℕ) (f : FrameId) (source : String) :
    interpret depth f source = interpretTokens depth f (tokenize source) := by
  unfold interpret evalText interpretTokens
  rw [parse_eq, bind_assoc]

/-- The tokens of the lines of a text that are not blank. -/
def scriptTokens (source : String) : List (List String) := (scriptLines source).map tokenize

theorem runScript_eq (depth : ℕ) (f : FrameId) (source : String) :
    runScript depth f source
      = (scriptTokens source).mapM fun tokens => (interpretTokens depth f tokens).run := by
  rw [scriptTokens, List.mapM_map, runScript]
  congr 1
  funext line
  rw [interpret_eq]
  rfl

/-! ### The last line -/

/-- The tokens of the lines that are not blank, of lines given by their characters. -/
def lineTokens (ls : List (List Char)) : List (List String) :=
  (ls.filter fun l => !l.all Text.isWhiteSpace).map splitTokens

theorem scriptTokens_eq (source : String) :
    scriptTokens source = lineTokens (Text.linesFrom [] source.toList) := by
  have htokens : tokenize ∘ String.ofList = splitTokens := by
    funext l
    simp [tokenize_eq]
  have hblank : (fun line => !Text.isBlank line) ∘ String.ofList
      = fun l => !l.all Text.isWhiteSpace := by
    funext l
    simp [Text.isBlank]
  rw [scriptTokens, scriptLines, Text.lines, List.filter_map, List.map_map, htokens, hblank]
  rfl

theorem lineTokens_singleton (l : List Char) :
    lineTokens [l] = if l.all Text.isWhiteSpace then [] else [splitTokens l] := by
  unfold lineTokens
  by_cases hl : l.all Text.isWhiteSpace = true
  · simp [hl]
  · simp [hl]

theorem lineTokens_cons (l : List Char) (ls : List (List Char)) :
    lineTokens (l :: ls) = lineTokens [l] ++ lineTokens ls := by
  rw [← List.singleton_append, lineTokens, List.filter_append, List.map_append]
  rfl

/-- A carriage return at the end of a line can be left out. -/
theorem lineTokens_dropReturn (line : List Char) :
    lineTokens [(Text.dropReturn line).reverse] = lineTokens [line.reverse] := by
  unfold Text.dropReturn
  split
  · rename_i cs
    have hreturn : splitTokens (cs.reverse ++ ['\r']) = splitTokens cs.reverse := by
      rw [splitTokens_append_blank (by decide), splitTokens_nil, List.append_nil]
    have hblank : (cs.reverse ++ ['\r']).all Text.isWhiteSpace
        = cs.reverse.all Text.isWhiteSpace := by
      rw [List.all_append, show ['\r'].all Text.isWhiteSpace = true by decide, Bool.and_true]
    rw [List.reverse_cons, lineTokens_singleton, lineTokens_singleton, hblank, hreturn]
  · rfl

/-- A line feed at the end of a text makes no difference but to blank lines. -/
theorem lineTokens_append_feed (line cs : List Char) :
    lineTokens (Text.linesFrom line (cs ++ ['\n'])) = lineTokens (Text.linesFrom line cs) := by
  induction cs generalizing line with
  | nil =>
    have hlast : lineTokens (Text.linesFrom line ['\n']) = lineTokens [line.reverse] :=
      lineTokens_dropReturn line
    rw [List.nil_append, hlast, Text.linesFrom]
    cases line with
    | nil => rfl
    | cons c line => rfl
  | cons c cs ih =>
    by_cases hc : c = '\n'
    · subst hc
      rw [List.cons_append, Text.linesFrom, Text.linesFrom, lineTokens_cons, ih, ← lineTokens_cons]
    · rw [List.cons_append, Text.linesFrom_cons hc, Text.linesFrom_cons hc, ih]

/-! ### Two texts -/

/-- With a line feed between two texts, the lines of both that are not blank keep their tokens. -/
theorem scriptTokens_append_feed (a b : String) :
    scriptTokens (a ++ "\n" ++ b) = scriptTokens a ++ scriptTokens b := by
  have hfirst : scriptTokens (a ++ "\n") = scriptTokens a := by
    have hfeed : (a ++ "\n").toList = a.toList ++ ['\n'] := by simp
    rw [scriptTokens_eq, hfeed, lineTokens_append_feed, ← scriptTokens_eq]
  rw [← hfirst]
  simp only [scriptTokens, scriptLines, Text.lines_append_feed, List.filter_append,
    List.map_append]

/-- **Scripts compose**: two texts with a line feed between them come to what the first comes to and
then what the second comes to in the store that the first leaves, whatever their lines end in and
whichever of them fail. -/
theorem runScript_append (depth : ℕ) (f : FrameId) (a b : String) :
    runScript depth f (a ++ "\n" ++ b) = do
      let first ← runScript depth f a
      let second ← runScript depth f b
      return first ++ second := by
  simp only [runScript_eq, scriptTokens_append_feed, List.mapM_append]

end SmallLisp
