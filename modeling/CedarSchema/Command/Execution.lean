import CedarSchema.Command.Help
import CedarSchema.Compile
import CedarSchema.Document.Reader
import CedarSchema.Document.Validity
import CedarSchema.Document.Writer
import CedarSchema.Json.Writer
import CedarSchema.Resolved.Writer
import CedarSchema.Schema.Printer

/-
  What each command does with the content of its file. A run that fails shows nothing but its
  failure and changes nothing.
-/

namespace CedarSchema

/-! ## Reports -/

namespace Options

/-- A failure of the file. For machines it is reported even if all else is suppressed. -/
def failure (o : Options) (file : String) (e : SchemaError) : Outcome where
  code := 1
  err :=
    match o.output with
    | .json => (e.toJson file).pretty ++ "\n"
    | .text => if o.quiet then "" else "error: " ++ e.text file ++ "\n"

/-- A failure that has a message and nothing else. -/
def complaint (o : Options) (message : String) : Outcome where
  code := 1
  err :=
    if o.quiet then ""
    else match o.output with
      | .text => message ++ "\n"
      | .json => (Json.ofMembers [("error", .string message)]).text ++ "\n"

/-- A success that is worth a word, in one wording for people and one for machines. -/
def confirmation (o : Options) (text json : String) : Outcome where
  out :=
    if o.quiet then ""
    else match o.output with
      | .text => text ++ "\n"
      | .json => json ++ "\n"

end Options

/-- The content of a file, or the reason why it cannot be read. -/
abbrev Content := Except String ByteArray

namespace Content

/-- The bytes of the file. -/
def bytes (c : Content) : Except SchemaError ByteArray := c.mapError .unreadable

/-- The schema that the file spells. -/
def schema (c : Content) : Except SchemaError Schema := do
  (Schema.parseBytes (← c.bytes)).mapError .parse

/-- The schema that the file spells, as it is written and resolved. -/
def compiled (c : Content) : Except SchemaError (Schema × ResolvedSchema) := do
  compile (← c.bytes)

/-- The schema whose document the file holds. -/
def document (c : Content) : Except SchemaError Schema := do
  (Schema.ofDocumentBytes (← c.bytes)).mapError .document

/-- The content as text, or the reason why there is none. -/
def text (c : Content) : Except String String := do
  match Text.decodeUtf8 (← c) with
  | .ok text => return text
  | .error _ => throw "stream did not contain valid UTF-8"

end Content

/-! ## Commands -/

/-- A command whose failures are those of the file. -/
def Options.onFile {α : Type} (o : Options) (file : String) (result : Except SchemaError α)
    (run : α → Outcome) : Outcome :=
  match result with
  | .ok a => run a
  | .error e => o.failure file e

/-- The line that tells people how much a schema declares. -/
def Tally.text (c : Tally) : String :=
  "  " ++ toString c.namespaces ++ " namespace(s), " ++
    toString c.entityTypes ++ " entity type(s), " ++
    toString c.enums ++ " enum(s), " ++
    toString c.actions ++ " action(s), " ++
    toString c.commonTypes ++ " common type(s)"

/-- The report for machines on a file that holds a valid schema. -/
def Tally.toJson (file : String) (c : Tally) : Json :=
  .ofMembers [
    ("valid", .bool true),
    ("file", .string file),
    ("namespaces", .ofNat c.namespaces),
    ("entityTypes", .ofNat c.entityTypes),
    ("enums", .ofNat c.enums),
    ("actions", .ofNat c.actions),
    ("commonTypes", .ofNat c.commonTypes)]

/-- Says whether the schema of the file is valid, and how much it declares. -/
def runCheck (o : Options) (file : String) (content : Content) : Outcome :=
  o.onFile file content.compiled fun (schema, resolved) =>
    let counts := Counts.of schema resolved
    o.confirmation (file ++ ": ok\n" ++ counts.text) (counts.toJson file).pretty

/-- Whether the content is the given text. -/
def Content.isText (c : Content) (text : String) : Bool :=
  match c.text with
  | .ok current => current = text
  | .error _ => false

/-- Prints the canonical text of the schema of the file, compares the file with it or puts it in
place of the file. -/
def runFormat (o : Options) (mode : FormatMode) (file : String) (content : Content) : Outcome :=
  o.onFile file content.schema fun schema =>
    let text := schema.format
    let canonical := content.isText text
    match mode with
    | .print => { out := text }
    | .check =>
      if canonical then o.confirmation (file ++ ": ok") "\x7b\"formatted\": true\x7d"
      else o.complaint (file ++ ": not in canonical format")
    | .write =>
      if canonical then o.confirmation (file ++ ": unchanged") "\x7b\"changed\": false\x7d"
      else { o.confirmation (file ++ ": formatted") "\x7b\"changed\": true\x7d" with
        written := some text }

/-- Prints what the schema of the file resolves to. -/
def runResolve (o : Options) (file : String) (content : Content) : Outcome :=
  o.onFile file content.compiled fun (_, resolved) => { out := resolved.toJson.pretty ++ "\n" }

/-- Prints the document of the schema of the file. -/
def runJson (o : Options) (file : String) (content : Content) : Outcome :=
  o.onFile file content.schema fun schema => { out := schema.document.pretty ++ "\n" }

/-- Prints the canonical text of the schema whose document the file holds. -/
def runFromJson (o : Options) (file : String) (content : Content) : Outcome :=
  o.onFile file content.document fun schema => { out := schema.format }

/-- The report on a document that has not the published format. -/
def invalidDocument (o : Options) : Outcome where
  code := 1
  err :=
    let reason := "the document does not have the published format"
    match o.output with
    | .text => if o.quiet then "" else "invalid schema document\n  - " ++ reason ++ "\n"
    | .json =>
      (Json.ofMembers [("valid", .bool false), ("errors", .ofStrings [reason])]).pretty ++ "\n"

/-- Says whether the file holds a document of the published format. -/
def runValidate (o : Options) (file : String) (content : Content) : Outcome :=
  match content.text with
  | .error reason => o.complaint ("error reading file '" ++ file ++ "': " ++ reason)
  | .ok text =>
    match Json.read? text with
    | none =>
      o.complaint ("error parsing JSON in '" ++ file ++ "': " ++ DocumentError.notJson.message)
    | some j =>
      if Document.isValid j then o.confirmation "valid" "\x7b\"valid\": true\x7d"
      else invalidDocument o

/-- What an invocation does if its file has the given content. -/
def Invocation.execute (i : Invocation) (content : Content) : Outcome :=
  match i.command with
  | .check => runCheck i.options i.file content
  | .format mode => runFormat i.options mode i.file content
  | .resolve => runResolve i.options i.file content
  | .json => runJson i.options i.file content
  | .fromJson => runFromJson i.options i.file content
  | .validate => runValidate i.options i.file content

/-! ## Runs that reach no command -/

/-- What a request for the version is answered with. -/
def versionText : String := "cschema 0.1.0\n"

/-- What is said of words that are no command line. -/
def usageText : String :=
  "error: wrong usage\n\n" ++ Topic.program.usage ++ "\n\nFor more information, try '--help'.\n"

/-- What a run shows if its words are no invocation of a command. -/
def Refusal.outcome : Refusal → Outcome
  | .usage => { code := 2, err := usageText }
  | .version => { out := versionText }
  | .help topic => { out := topic.text }

end CedarSchema
