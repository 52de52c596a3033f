import SmallLisp.Arguments

/-!
# The program

Connects `SmallLisp.CommandLine` to the world.  The prompt takes the same steps here as there, with
the lines of the standard input one by one.
-/

namespace SmallLisp.CommandLine

/-- How deeply evaluations may be nested, more than any machine's stack allows. -/
def maxDepth : Nat := 1000000000000

/-- Writes a report. -/
def Report.write (r : Report) : IO Unit := do
  IO.print r.out
  IO.eprint r.err
  (← IO.getStdout).flush

/-- Shows the prompt and reads a line. -/
def readLine (prompt : String) : IO Reading := do
  (Report.success prompt).write
  try
    match Text.lines (← (← IO.getStdin).getLine) with
    | [] => return .endOfInput
    | line :: _ => return .line line
  catch e => return .failed (toString e)

/-- Goes on from line to line. -/
partial def readLoop (f : FrameId) (s : Store) : IO UInt32 := do
  match promptStep maxDepth f (← readLine promptText) s with
  | some ((report, more), s') => do
    report.write
    if more then readLoop f s' else return report.code.toUInt32
  | none => return 1

/-- The text of the file that is asked for, if it can be read. -/
def readInput? : Parsed → IO (Option String)
  | .matched (some path) => do
    try return some (← IO.FS.readFile path)
    catch _ => return none
  | _ => return none

/-- Runs the program. -/
def start (args : List String) : IO UInt32 := do
  if arguments args = .matched none then
    let (f, s) := Store.empty.root
    readLoop f s
  else
    -- Without the prompt there is nothing to ask the line reader for.
    let source ← readInput? (arguments args)
    match run maxDepth ⟨arguments, fun _ => source, .ok fun _ => []⟩ args with
    | some report => do
      report.write
      return report.code.toUInt32
    | none => return 1

end SmallLisp.CommandLine

/-- The program. -/
def main (args : List String) : IO UInt32 :=
  SmallLisp.CommandLine.start args
