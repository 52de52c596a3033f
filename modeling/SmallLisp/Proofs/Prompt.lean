import Mathlib.Data.List.Induction
import Mathlib.Data.List.ReduceOption
import Mathlib.Tactic.Common
import SmallLisp.Arguments
import SmallLisp.Proofs.Text.Lines

/-!
# The prompt and files

A text can be given to the program as a file or at the prompt, and comes to the same: every line
that is not blank is interpreted in turn, and what the lines come to is a `transcript` that both
ways of running share.  Each line puts out what it has `printed`, and failures go to the other
output as a `complaint`; the prompt shows itself before every line and at the end, and that is all
there is between the two (`run_prompt_and_file`).

A file is cut into lines and the blank ones are left out before any is interpreted (`runFile_eq`);
the prompt takes lines one at a time and looks at each (`promptLoop_eq`).  How the lines come to the
prompt is up to the line reader.  All that is assumed of it is `Feeds`: at every call it shows the
prompt, and returns the next line without its ending or else reports the end of the input.  A line
reader can do this for every text, and in one way only (`feeds_iff`).
-/

namespace SmallLisp.CommandLine

/-! ### What lines come to -/

/-- What a line comes to, which is nothing if it is blank. -/
def follow (depth : ℕ) (f : FrameId) (line : String) : Run (Option LineResult) :=
  if Text.isBlank line then return none else return some (← (interpret depth f line).run)

/-- What lines come to, one after the other. -/
def followLines (depth : ℕ) (f : FrameId) (lines : List String) :
    Run (List (Option LineResult)) :=
  lines.mapM (follow depth f)

/-- What the lines of a text come to in a new session, if all of them come to an end. -/
def transcript (depth : ℕ) (text : String) : Option (List (Option LineResult)) :=
  (followLines depth Store.empty.root.1 (Text.lines text)).run' Store.empty.root.2

/-- What a line puts out. -/
def printed : Option LineResult → String
  | some (.ok (some text)) => text ++ "\n"
  | _ => ""

/-- What is said of a line that fails. -/
def complaint : Option LineResult → String
  | some (.error x) => "Error: " ++ x.message ++ "\n"
  | _ => ""

theorem ofResult_eq (r : LineResult) : ofResult r = ⟨0, printed (some r), complaint (some r)⟩ := by
  rcases r with x | _ | text <;> rfl

/-- Reports that end well, one after the other. -/
theorem Report.concat_map {α : Type} (out err : α → String) (as : List α) :
    concat (as.map fun a => ⟨0, out a, err a⟩)
      = ⟨0, String.join (as.map out), String.join (as.map err)⟩ := by
  induction as using List.reverseRecOn with
  | nil => rfl
  | append_singleton as a ih =>
    unfold concat at ih ⊢
    rw [List.map_append, List.foldl_append, ih]
    simp [append]

/-! ### Files -/

/-- Leaving out the blank lines first leaves out what they would have come to. -/
theorem runScript_eq_followLines (depth : ℕ) (f : FrameId) (source : String) :
    runScript depth f source = List.reduceOption <$> followLines depth f (Text.lines source) := by
  unfold runScript scriptLines followLines
  induction Text.lines source with
  | nil => simp
  | cons line lines ih =>
    by_cases hblank : Text.isBlank line = true
    · simp [follow, hblank, ih]
    · simp [follow, hblank, ih]

/-- Lines that have come to nothing put out nothing. -/
theorem join_map_reduceOption {out : Option LineResult → String} (hout : out none = "")
    (outcomes : List (Option LineResult)) :
    String.join (outcomes.reduceOption.map fun r => out (some r))
      = String.join (outcomes.map out) := by
  induction outcomes with
  | nil => rfl
  | cons o outcomes ih =>
    cases o with
    | none => simp [hout, ih]
    | some r => simp [ih]

theorem runFile_eq {host : Host} {path source : String} (depth : ℕ) (f : FrameId)
    (h : host.readFile path = some source) :
    runFile depth f host path = (fun outcomes => ⟨0, String.join (outcomes.map printed),
        String.join (outcomes.map complaint)⟩) <$> followLines depth f (Text.lines source) := by
  have hreport (outcomes : List (Option LineResult)) :
      Report.concat (outcomes.reduceOption.map ofResult)
        = ⟨0, String.join (outcomes.map printed), String.join (outcomes.map complaint)⟩ := by
    rw [funext ofResult_eq, Report.concat_map, join_map_reduceOption rfl,
      join_map_reduceOption rfl]
  unfold runFile
  simp only [h]
  rw [runScript_eq_followLines]
  simp [hreport]

/-! ### The line reader -/

/-- What the calls of a line reader come to that is fed a text: each shows the prompt, and they
return the lines without their endings and then report the end of the input. -/
inductive Feeds (prompt : String) : List Char → List Call → Prop
  | finished : Feeds prompt [] [⟨prompt, .endOfInput⟩]
  /-- The last line need not have an ending. -/
  | unended {line : List Char} (hne : line ≠ []) (hline : '\n' ∉ line) :
      Feeds prompt line [⟨prompt, .line (.ofList line)⟩, ⟨prompt, .endOfInput⟩]
  | feed {line cs : List Char} {calls : List Call} (hline : '\n' ∉ line)
      (hreturn : line.getLast? ≠ some '\r') (rest : Feeds prompt cs calls) :
      Feeds prompt (line ++ '\n' :: cs) (⟨prompt, .line (.ofList line)⟩ :: calls)
  | returnFeed {line cs : List Char} {calls : List Call} (hline : '\n' ∉ line)
      (rest : Feeds prompt cs calls) :
      Feeds prompt (line ++ '\r' :: '\n' :: cs) (⟨prompt, .line (.ofList line)⟩ :: calls)

/-- The calls that return the given lines and then report the end of the input. -/
def callsFor (prompt : String) (lines : List String) : List Call :=
  lines.map (fun line => ⟨prompt, .line line⟩) ++ [⟨prompt, .endOfInput⟩]

theorem callsFor_cons (prompt line : String) (lines : List String) :
    callsFor prompt (line :: lines) = ⟨prompt, .line line⟩ :: callsFor prompt lines := rfl

/-- A line reader that is fed a text returns the lines of that text. -/
theorem Feeds.eq_callsFor {prompt : String} {cs : List Char} {calls : List Call}
    (h : Feeds prompt cs calls) :
    calls = callsFor prompt ((Text.linesFrom [] cs).map String.ofList) := by
  induction h with
  | finished => rfl
  | unended hne hline =>
    rw [Text.linesFrom_unended hne hline]
    rfl
  | feed hline hreturn _ ih =>
    rw [Text.linesFrom_feed hline hreturn, List.map_cons, callsFor_cons, ih]
  | returnFeed hline _ ih =>
    rw [Text.linesFrom_append hline, List.map_cons, callsFor_cons, ih]
    rfl

/-- Any text can be fed to a line reader. -/
theorem feeds_linesFrom (prompt : String) {line : List Char} (hline : '\n' ∉ line)
    (cs : List Char) :
    Feeds prompt (line.reverse ++ cs)
      (callsFor prompt ((Text.linesFrom line cs).map String.ofList)) := by
  induction cs generalizing line with
  | nil =>
    cases line with
    | nil => exact .finished
    | cons c line =>
      rw [List.append_nil]
      exact .unended (by simp) (by rwa [List.mem_reverse])
  | cons c cs ih =>
    by_cases hc : c = '\n'
    · -- The line ends here, and a carriage return that came last belongs to the ending.
      subst hc
      rw [Text.linesFrom, List.map_cons, callsFor_cons]
      have hrest := @ih [] List.not_mem_nil
      cases line with
      | nil => exact .feed List.not_mem_nil (by simp) hrest
      | cons d line =>
        by_cases hd : d = '\r'
        · subst hd
          have hline' : '\n' ∉ line := fun hmem => hline (List.mem_cons_of_mem _ hmem)
          rw [List.reverse_cons, List.append_assoc]
          exact .returnFeed (by rwa [List.mem_reverse]) hrest
        · rw [Text.dropReturn_cons hd]
          exact .feed (by rwa [List.mem_reverse]) (by simpa using hd) hrest
    · rw [Text.linesFrom_cons hc]
      have hrest := @ih (c :: line) (List.not_mem_cons_of_ne_of_not_mem (Ne.symm hc) hline)
      rwa [List.reverse_cons, List.append_assoc] at hrest

theorem feeds_iff {prompt text : String} {calls : List Call} :
    Feeds prompt text.toList calls ↔ calls = callsFor prompt (Text.lines text) := by
  refine ⟨Feeds.eq_callsFor, ?_⟩
  rintro rfl
  exact feeds_linesFrom prompt List.not_mem_nil text.toList

/-! ### The prompt -/

theorem answer_eq (depth : ℕ) (f : FrameId) (line : String) :
    answer depth f line = (fun o => ⟨0, printed o, complaint o⟩) <$> follow depth f line := by
  unfold answer follow
  by_cases hblank : Text.isBlank line = true
  · simp [hblank, printed, complaint, Report.success]
  · simp [hblank, ofResult_eq]

/-- The prompt takes a line and goes on. -/
theorem promptLoop_line (depth : ℕ) (f : FrameId) (prompt line : String) (calls : List Call) :
    promptLoop depth f (⟨prompt, .line line⟩ :: calls) = do
      let o ← follow depth f line
      let report ← promptLoop depth f calls
      return ⟨report.code, prompt ++ printed o ++ report.out, complaint o ++ report.err⟩ := by
  simp [promptLoop, promptStep, answer_eq, Report.append, Report.success]

/-- The prompt goes over lines as a file does, and shows itself before each and at the end. -/
theorem promptLoop_eq (depth : ℕ) (f : FrameId) (prompt : String) (lines : List String) :
    promptLoop depth f (callsFor prompt lines) = (fun outcomes =>
        ⟨0, String.join (outcomes.map fun o => prompt ++ printed o) ++ prompt,
          String.join (outcomes.map complaint)⟩) <$> followLines depth f lines := by
  induction lines with
  | nil => simp [callsFor, promptLoop, promptStep, followLines, Report.append, Report.success]
  | cons line lines ih =>
    rw [callsFor_cons, promptLoop_line, ih]
    simp [followLines, String.append_assoc]

/-! ### Both -/

theorem run'_map {α β : Type} (g : α → β) (x : Run α) (s : Store) :
    (g <$> x).run' s = (x.run' s).map g := by
  show ((g <$> x).run s).map Prod.fst = ((x.run s).map Prod.fst).map g
  rw [StateT.run_map, Option.map_eq_map, Option.map_map, Option.map_map]
  rfl

/-- **The prompt and a file agree**: a text comes to one transcript, whether it is in a file or fed
to the line reader.  A file puts out what the lines have printed, and the prompt does the same with
itself before each line and at the end.  Both complain of the same lines, and both end well. -/
theorem run_prompt_and_file (depth : ℕ) (host : Host) (text : String) :
    (∀ args path, host.arguments args = .matched (some path) → host.readFile path = some text →
      run depth host args = (transcript depth text).map fun outcomes =>
        ⟨0, String.join (outcomes.map printed), String.join (outcomes.map complaint)⟩) ∧
    (∀ args calls, host.arguments args = .matched none → host.lineReader = .ok calls →
      Feeds promptText text.toList (calls promptText) →
      run depth host args = (transcript depth text).map fun outcomes =>
        ⟨0, String.join (outcomes.map fun o => promptText ++ printed o) ++ promptText,
          String.join (outcomes.map complaint)⟩) := by
  constructor
  · intro args path hargs hread
    simp only [run, hargs]
    rw [runFile_eq depth _ hread, run'_map]
    rfl
  · intro args calls hargs hreader hfeeds
    simp only [run, hargs, runPrompt, hreader]
    rw [feeds_iff.1 hfeeds, promptLoop_eq, run'_map]
    rfl

/-- A text with both kinds of line endings, a blank line and a line that fails. -/
def mixedText : String := "(define x 2)\r\n \n(* x x)\n(car x)"

/-- A host with that text in a file and ready to be typed. -/
def mixedHost : Host where
  arguments := arguments
  readFile path := if path = "square" then some mixedText else none
  lineReader := .ok fun prompt => callsFor prompt (Text.lines mixedText)

theorem run_prompt_and_file_mixed :
    arguments ["-i", "square"] = .matched (some "square") ∧ arguments [] = .matched none ∧
      Feeds promptText mixedText.toList (callsFor promptText (Text.lines mixedText)) ∧
      run 3 mixedHost ["-i", "square"]
        = some ⟨0, "4\n", "Error: syntax error: invalid procedure input\n"⟩ ∧
      run 3 mixedHost []
        = some ⟨0, "lispy> lispy> lispy> 4\nlispy> lispy> ",
          "Error: syntax error: invalid procedure input\n"⟩ := by
  have htranscript : transcript 3 mixedText
      = some [some (.ok none), none, some (.ok (some "4")), some (.error .invalidInput)] := by
    decide +kernel
  have hargs : arguments ["-i", "square"] = .matched (some "square") := by decide +kernel
  have hfeeds : Feeds promptText mixedText.toList (callsFor promptText (Text.lines mixedText)) :=
    feeds_iff.2 rfl
  obtain ⟨hfile, hprompt⟩ := run_prompt_and_file 3 mixedHost mixedText
  rw [htranscript] at hfile hprompt
  exact ⟨hargs, rfl, hfeeds, hfile _ _ hargs rfl, hprompt [] _ rfl rfl hfeeds⟩

end SmallLisp.CommandLine
