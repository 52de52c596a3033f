import SmallLisp.CommandLine

/-!
# Arguments

How the arguments are taken when the program is started.  `CommandLine.run` would do with any other
way, as long as that tells files from the prompt.

The arguments name at most one file, by an option that comes in a short and a long form and has its
value attached, after an equals sign or in the next argument; other options print a help text or the
version.  The options that print act where they stand, before any later argument is looked at;
whether there is at most one file is settled at the end.
-/

namespace SmallLisp.CommandLine

/-! ### Texts -/

/-- The version text. -/
def versionText : String := "lispy 0.1.0\n"

/-- The help text. -/
def helpText : String :=
  versionText ++
  "A small lisp interpreter\n" ++
  "\n" ++
  "USAGE:\n" ++
  "    lispy [OPTIONS]\n" ++
  "\n" ++
  "OPTIONS:\n" ++
  "    -h, --help            Print help information\n" ++
  "    -i, --input <FILE>    Run each line of FILE instead of starting the prompt\n" ++
  "    -V, --version         Print version information\n"

/-- What a wrong use of the command line comes to. -/
def misuse : Parsed := .ended ⟨2, "", ""⟩

/-! ### One argument -/

/-- What one argument is. -/
inductive Argument where
  | help
  | version
  /-- The option for the file, with the path if that is part of the same argument. -/
  | input (path : Option String)
  | unknown
  /-- No option. -/
  | plain
deriving DecidableEq, Repr

/-- The name of a long option, and the value after an equals sign. -/
def splitValue (cs : List Char) : String × Option String :=
  let name := String.ofList (cs.takeWhile (· != '='))
  match cs.dropWhile (· != '=') with
  | [] => (name, none)
  | _ :: value => (name, some (String.ofList value))

/-- A long option. -/
def longOption (cs : List Char) : Argument :=
  match splitValue cs with
  | ("input", path) => .input path
  | ("help", none) => .help
  | ("version", none) => .version
  | _ => .unknown

/-- A short option with what is attached to it. -/
def shortOption (c : Char) (attached : List Char) : Argument :=
  match c, attached with
  | 'h', _ => .help
  | 'V', _ => .version
  | 'i', [] => .input none
  | 'i', '=' :: path => .input (some (String.ofList path))
  | 'i', path => .input (some (String.ofList path))
  | _, _ => .unknown

/-- What an argument is. -/
def classify (arg : String) : Argument :=
  match arg.toList with
  | '-' :: '-' :: cs => longOption cs
  | '-' :: c :: cs => shortOption c cs
  | _ => .plain

/-! ### All arguments -/

/-- What is made of the arguments in the end, given the files that were named, the last one first;
a file that was announced and not named is `none`. -/
def conclude : List (Option String) → Parsed
  | [] => .matched none
  | [some path] => .matched (some path)
  | _ => misuse

/-- What is made of the arguments, given the files named so far, the last one first. -/
def argumentsFrom (files : List (Option String)) : List String → Parsed
  | [] => conclude files
  | arg :: rest =>
    if arg = "--" then
      -- Whatever follows is no option, and there is no place for it.
      if rest.isEmpty then conclude files else misuse
    else
      match classify arg with
      | .help => .ended (.success helpText)
      | .version => .ended (.success versionText)
      | .unknown => misuse
      | .input path => argumentsFrom (path :: files) rest
      | .plain =>
        match files with
        | none :: earlier => argumentsFrom (some arg :: earlier) rest
        | _ => misuse

/-- What is made of the arguments. -/
def arguments (args : List String) : Parsed :=
  argumentsFrom [] args

end SmallLisp.CommandLine
