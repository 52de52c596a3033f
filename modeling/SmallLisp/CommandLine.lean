import SmallLisp.Session

/-!
# The command line

The program runs the lines of a file, or prompts for lines and runs each as it comes.
`CommandLine.run` is all of it, as a function of the arguments and of a `Host`: what is made of the
arguments, what the files hold, and what the line reader behind the prompt does are given from
outside.

A file and the prompt treat lines alike.  The prompt goes on from line to line by `promptStep`, until
the line reader has no more of them.
-/

namespace SmallLisp.CommandLine

/-! ### Reports -/

/-- What a run leaves: the exit code and the two outputs. -/
structure Report where
  code : Nat
  out : String
  err : String
deriving DecidableEq, Repr

namespace Report

/-- A run that ends well with some output. -/
def success (out : String) : Report := ⟨0, out, ""⟩

/-- A run that is given up, and why. -/
def failure (reason : String) : Report := ⟨1, "", reason ++ "\n"⟩

/-- One report after another; the exit code is the later one's. -/
def append (a b : Report) : Report := ⟨b.code, a.out ++ b.out, a.err ++ b.err⟩

/-- Reports one after another. -/
def concat (reports : List Report) : Report := reports.foldl append (success "")

end Report

/-- What the result of a line leaves. -/
def ofResult : LineResult → Report
  | .ok (some text) => .success (text ++ "\n")
  | .ok none => .success ""
  | .error e => ⟨0, "", "Error: " ++ e.message ++ "\n"⟩

/-! ### The host -/

/-- What is made of the arguments. -/
inductive Parsed where
  /-- They ask for a run, of the file at a path if there is one. -/
  | matched (input : Option String)
  /-- They ask for something else or make no sense, and the program has ended by now. -/
  | ended (report : Report)
deriving DecidableEq, Repr

/-- What the line reader returns. -/
inductive Reading where
  | line (text : String)
  | interrupted
  | endOfInput
  | failed (description : String)
deriving DecidableEq, Repr

/-- One call of the line reader. -/
structure Call where
  /-- What it writes before it returns. -/
  shown : String
  reading : Reading
deriving DecidableEq, Repr

/-- What the program finds around it. -/
structure Host where
  arguments : List String → Parsed
  /-- The text of the file at a path, if it can be read. -/
  readFile : String → Option String
  /-- The line reader, unless it cannot be opened: its calls in their order, all with the prompt
  that is given.  What it remembers of the lines is its own affair. -/
  lineReader : Except String (String → List Call)

/-! ### Runs -/

/-- What the prompt shows. -/
def promptText : String := "lispy> "

/-- Runs the lines of a file. -/
def runFile (depth : Nat) (f : FrameId) (host : Host) (path : String) : Run Report :=
  match host.readFile path with
  | some source => do return .concat ((← runScript depth f source).map ofResult)
  | none => return .failure ("No input file found with name '" ++ path ++ "'")

/-- Answers a line. -/
def answer (depth : Nat) (f : FrameId) (line : String) : Run Report :=
  if Text.isBlank line then return .success ""
  else return ofResult (← (interpret depth f line).run)

/-- What the prompt does with what the line reader returns, and whether it goes on. -/
def promptStep (depth : Nat) (f : FrameId) : Reading → Run (Report × Bool)
  | .line text => do return (← answer depth f text, true)
  | .interrupted => return (.success "", false)
  | .endOfInput => return (.success "", false)
  | .failed description => return (.failure ("Readline err: " ++ description), false)

/-- Goes on from call to call.  There is no outcome if the prompt waits for a call that is not
there. -/
def promptLoop (depth : Nat) (f : FrameId) : List Call → Run Report
  | [] => fun _ => none
  | call :: calls => do
    let (report, more) ← promptStep depth f call.reading
    let report := (Report.success call.shown).append report
    if more then return report.append (← promptLoop depth f calls) else return report

/-- Prompts for lines. -/
def runPrompt (depth : Nat) (f : FrameId) (host : Host) : Run Report :=
  match host.lineReader with
  | .ok calls => promptLoop depth f (calls promptText)
  | .error reason => return .failure reason

/-- The whole program. -/
def run (depth : Nat) (host : Host) (args : List String) : Option Report :=
  let (f, s) := Store.empty.root
  match host.arguments args with
  | .ended report => some report
  | .matched (some path) => (runFile depth f host path).run' s
  | .matched none => (runPrompt depth f host).run' s

end SmallLisp.CommandLine
