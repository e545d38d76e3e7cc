/-
  What the command line can ask for, and what a run leaves behind.
-/

namespace CedarSchema

/-- How results and failures are shown: in words, or as JSON. -/
inductive OutputMode
  | text | json
  deriving DecidableEq, Repr

/-- What holds for every command. The output mode is text if none is asked for. -/
structure Options where
  output : OutputMode := .text
  quiet : Bool := false
  verbose : Bool := false
  deriving DecidableEq, Repr

/-- What to do with the canonical text of a file. -/
inductive FormatMode
  | print
  /-- Compare it with the file. -/
  | check
  /-- Put it in place of the file. -/
  | write
  deriving DecidableEq, Repr

/-- What can be done with a file; each command reads one. -/
inductive Command
  | check
  | format (mode : FormatMode)
  | resolve
  | json
  | fromJson
  | validate
  deriving DecidableEq, Repr

/-- A command line that has been understood. -/
structure Invocation where
  options : Options
  command : Command
  file : String
  deriving DecidableEq, Repr

/-- What a run shows, and the new content of the file if the run changes it. -/
structure Outcome where
  code : Nat := 0
  out : String := ""
  /-- What goes to the error stream, but for the log: lines with the time of day, which `--verbose`
  or the environment asks for. -/
  err : String := ""
  written : Option String := none
  deriving DecidableEq, Repr

end CedarSchema
