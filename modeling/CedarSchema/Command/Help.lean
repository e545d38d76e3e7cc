import CedarSchema.Command.Arguments
import CedarSchema.Text.Separated

/-
  What help shows: what its topic is for, how it is called, and tables of what it can be given. The
  second column of a table begins two blanks behind the longest entry of the first.
-/

namespace CedarSchema

/-! ## Tables -/

/-- A table with a title, one row a line. -/
structure HelpTable where
  title : String
  rows : List (String × String)

namespace HelpTable

/-- The length of the longest entry of the first column. -/
def width (t : HelpTable) : Nat := t.rows.foldl (fun w row => max w row.1.length) 0

/-- One row, its first column filled up with blanks. -/
def line (width : Nat) (row : String × String) : String :=
  "  " ++ row.1 ++ String.ofList (List.replicate (width - row.1.length) ' ') ++ "  " ++ row.2

/-- The title and the rows, each on a line. -/
def text (t : HelpTable) : String :=
  Text.join "\n" ((t.title ++ ":") :: t.rows.map (line t.width))

end HelpTable

/-! ## Options -/

/-- The row of a flag in a table of options. -/
def Flag.helpRow : Flag → String × String
  | quiet => ("    --quiet", "Suppress non-essential output")
  | verbose =>
    ("-v, --verbose", "Log resolver and parser activity to stderr (RUST_LOG overrides)")
  | check => ("    --check", "Exit non-zero if the file is not already canonical")
  | write => ("    --write", "Rewrite the file in place")
  | help => ("-h, --help", "Print help")
  | version => ("-V, --version", "Print version")

/-- The row of the output option. -/
def outputHelpRow : String × String :=
  ("    --output <OUTPUT>",
    "Output format (text or json) [default: text] [possible values: text, json]")

/-- The options of a topic in the order they are listed in. -/
def Topic.optionRows : Topic → List (String × String)
  | program => outputHelpRow :: [Flag.quiet, .verbose, .help, .version].map Flag.helpRow
  | command (.format _) =>
    Flag.check.helpRow :: outputHelpRow ::
      [Flag.quiet, .write, .verbose, .help].map Flag.helpRow
  | command _ => outputHelpRow :: [Flag.quiet, .verbose, .help].map Flag.helpRow
  | help => []

/-! ## Topics -/

/-- What a command is for. -/
def Command.about : Command → String
  | check => "Parse and resolve a schema file"
  | format _ => "Print a schema file in canonical layout"
  | resolve => "Print the resolved schema as JSON"
  | json => "Convert a schema file to the JSON schema format"
  | fromJson => "Convert a JSON-format schema to schema source text"
  | validate => "Validate a JSON-format schema against the formal JSON Schema"

/-- The word that calls a command. -/
def Command.name : Command → String
  | check => "check"
  | format _ => "format"
  | resolve => "resolve"
  | json => "json"
  | fromJson => "from-json"
  | validate => "validate"

/-- What the file of a command is. -/
def Command.fileAbout : Command → String
  | fromJson => "Path to the JSON schema file"
  | validate => "Path to the JSON schema file"
  | _ => "Path to the schema source file"

namespace Topic

/-- What a topic is for. -/
def about : Topic → String
  | program => "Authorization schema toolchain"
  | command c => c.about
  | help => "Print this message or the help of the given subcommand(s)"

/-- How a topic is called. -/
def usage : Topic → String
  | program => "Usage: cschema [OPTIONS] <COMMAND>"
  | command c => "Usage: cschema " ++ c.name ++ " [OPTIONS] <FILE>"
  | help => "Usage: cschema help [COMMAND]..."

/-- The tables of a topic in the order they are shown in. -/
def tables : Topic → List HelpTable
  | program => [
    ⟨"Commands",
      commandNames.map (fun (name, c) => (name, c.about)) ++ [("help", help.about)]⟩,
    ⟨"Options", program.optionRows⟩]
  | command c => [
    ⟨"Arguments", [("<FILE>", c.fileAbout)]⟩,
    ⟨"Options", (command c).optionRows⟩]
  | help => [⟨"Arguments", [("[COMMAND]...", "Print help for the subcommand(s)")]⟩]

/-- The help on a topic. -/
def text (t : Topic) : String :=
  Text.join "\n\n" (t.about :: t.usage :: t.tables.map HelpTable.text) ++ "\n"

end Topic

end CedarSchema
