import CedarSchema.Command

/-
  Reading the words of a command line: options, a command, options again with one file among them.
  Two hyphens alone end the options. An option may be given before and after the command, where the
  later value counts, but only once in each place. A request for help or for the version is met as
  soon as it is read, whatever follows it.
-/

namespace CedarSchema

/-- What options are given to and help is given on: the program, one of its commands, or the word
that asks for help. -/
inductive Topic
  | program
  | command (c : Command)
  | help
  deriving DecidableEq, Repr

/-- Why words are no invocation. -/
inductive Refusal
  | usage
  /-- The version is asked for. -/
  | version
  /-- Help is asked for. -/
  | help (topic : Topic)
  deriving DecidableEq, Repr

/-- Options without a value, those of all topics together. -/
inductive Flag
  | quiet | verbose | check | write | version | help
  deriving DecidableEq, Repr

namespace Flag

/-- The flag with a long name. -/
def ofName? : String → Option Flag
  | "quiet" => some quiet
  | "verbose" => some verbose
  | "check" => some check
  | "write" => some write
  | "version" => some version
  | "help" => some help
  | _ => none

/-- The flag with a letter of its own. -/
def ofLetter? : Char → Option Flag
  | 'v' => some verbose
  | 'V' => some version
  | 'h' => some help
  | _ => none

end Flag

/-- The flags a topic knows; any other is refused there. -/
def Topic.allowedFlags : Topic → List Flag
  | program => [.quiet, .verbose, .help, .version]
  | command (.format _) => [.quiet, .verbose, .help, .check, .write]
  | command _ => [.quiet, .verbose, .help]
  | help => []

/-- One word of a command line. -/
inductive Word
  | plain
  /-- Two hyphens alone. -/
  | separator
  | long (name : String) (value : Option String)
  | letters (cs : List Char)

/-- A single hyphen alone is a plain word, and so is the empty text. -/
def Word.ofText (text : String) : Word :=
  match text.toList with
  | ['-', '-'] => separator
  | '-' :: '-' :: cs =>
    long (String.ofList (cs.takeWhile (· ≠ '=')))
      (match cs.dropWhile (· ≠ '=') with
        | _ :: value => some (String.ofList value)
        | [] => none)
  | '-' :: c :: cs => letters (c :: cs)
  | _ => plain

/-! ## Options -/

/-- The options given in one place. A value that is a word of its own is looked at with the next
option or at the end. -/
structure Given where
  output : Option OutputMode := none
  flags : List Flag := []
  pending : Option String := none

namespace Given

/-- Takes the value of the output option, which may be given once. -/
def takeOutput (g : Given) (value : String) : Except Refusal Given :=
  if g.output.isSome then .error .usage
  else match value with
    | "text" => .ok { g with output := some .text }
    | "json" => .ok { g with output := some .json }
    | _ => .error .usage

/-- The options with the value that was left to be looked at. -/
def settle (g : Given) : Except Refusal Given :=
  match g.pending with
  | some value => { g with pending := none }.takeOutput value
  | none => .ok g

/-- Takes a flag, which may be given once; help and version end the reading. -/
def takeFlag (topic : Topic) (g : Given) (f : Flag) : Except Refusal Given := do
  let g ← g.settle
  if f ∉ topic.allowedFlags then throw .usage
  else if f = .version then throw .version
  else if f = .help then throw (.help topic)
  else if f ∈ g.flags then throw .usage
  else return { g with flags := f :: g.flags }

/-- Takes a flag by its long name. -/
def takeNamed (topic : Topic) (g : Given) (name : String) : Except Refusal Given :=
  match Flag.ofName? name with
  | some f => g.takeFlag topic f
  | none => .error .usage

/-- Takes a flag by its letter. -/
def takeLetter (topic : Topic) (g : Given) (c : Char) : Except Refusal Given :=
  match Flag.ofLetter? c with
  | some f => g.takeFlag topic f
  | none => .error .usage

/-- Reads options up to the first word that is none. -/
def takeAll (topic : Topic) (g : Given) :
    List String → Except Refusal (Given × List String)
  | [] => .ok (g, [])
  | word :: rest =>
    match Word.ofText word with
    | .plain => .ok (g, word :: rest)
    | .separator => .ok (g, word :: rest)
    | .letters cs => do
      let g ← cs.foldlM (takeLetter topic) g
      takeAll topic g rest
    | .long "output" (some value) => do
      let g ← (← g.settle).takeOutput value
      takeAll topic g rest
    | .long "output" none =>
      match rest with
      | [] => .error .usage
      | value :: rest =>
        match Word.ofText value with
        | .plain => do
          let g ← g.settle
          takeAll topic { g with pending := some value } rest
        | _ => .error .usage
    | .long name none => do
      let g ← g.takeNamed topic name
      takeAll topic g rest
    | .long _ (some _) => .error .usage

end Given

/-- The options given before the command and after it together. -/
def Options.ofGiven (before after : Given) : Options where
  output := (after.output <|> before.output).getD .text
  quiet := .quiet ∈ before.flags ++ after.flags
  verbose := .verbose ∈ before.flags ++ after.flags

/-! ## Commands -/

/-- The names of the commands; what is done by format depends on its flags. -/
def commandNames : List (String × Command) :=
  [("check", .check), ("format", .format .print), ("resolve", .resolve), ("json", .json),
    ("from-json", .fromJson), ("validate", .validate)]

namespace Command

/-- The command that a word names; flags may still change it. -/
def ofName? (name : String) : Option Command := commandNames.lookup name

/-- The command that is meant when some flags follow its name. -/
def withFlags (flags : List Flag) : Command → Except Refusal Command
  | format _ =>
    if .check ∈ flags then
      if .write ∈ flags then .error .usage else .ok (format .check)
    else .ok (format (if .write ∈ flags then .write else .print))
  | c => .ok c

end Command

/-- Reads what follows the name of a command: options and one file. -/
def Command.arguments (c : Command) (words : List String) : Except Refusal (Given × String) := do
  let (given, rest) ← Given.takeAll (.command c) {} words
  let (given, file) ← match rest with
    | ["--", file] => pure (given, file)
    | "--" :: _ => throw .usage
    | "" :: _ => throw .usage
    | file :: rest => do
      match ← given.takeAll (.command c) rest with
      | (given, []) => pure (given, file)
      | (given, ["--"]) => pure (given, file)
      | _ => throw .usage
    | [] => throw .usage
  if file = "" then throw .usage else return (← given.settle, file)

/-- What is refused, or explained, when words follow the one that asks for help. -/
def Refusal.ofHelp : List String → Refusal
  | [] => help .program
  | ["help"] => help .help
  | [name] =>
    match Command.ofName? name with
    | some c => help (.command c)
    | none => usage
  | _ => usage

/-- The invocation that the words of a command line spell. -/
def Invocation.ofWords (words : List String) : Except Refusal Invocation := do
  let (before, rest) ← Given.takeAll .program {} words
  match rest with
  | "help" :: rest => throw (.ofHelp rest)
  | name :: rest =>
    match Command.ofName? name with
    | some c =>
      let (after, file) ← c.arguments rest
      let before ← before.settle
      let command ← c.withFlags after.flags
      return ⟨.ofGiven before after, command, file⟩
    | none => throw .usage
  | [] => throw .usage

end CedarSchema
