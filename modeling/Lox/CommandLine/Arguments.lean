import Lox.Session

/-!
Command line arguments: a command with its file, and options that may stand before or after
the command. Arguments are judged from left to right, and the first that asks for help or
cannot be accepted decides.
-/

namespace Lox.CommandLine

/-- What to do with which file. -/
inductive Command where
  | tokenize (file : String) (json : Bool)
  | evaluate (file : String)
  | run (file : String)
  | repl
  deriving DecidableEq, Repr

/-- A command with the options that every command has. -/
structure Invocation where
  command : Command
  log : Bool
  allowUnused : Bool
  maxDepth : Nat
  deriving DecidableEq, Repr

/-- What the arguments ask for. -/
inductive Request where
  | perform (invocation : Invocation)
  /-- A text that is shown instead. -/
  | inform (text : String)
  /-- Arguments that make no sense. -/
  | misuse
  deriving DecidableEq, Repr

/-- The names of commands. -/
inductive CommandName where
  | tokenize
  | evaluate
  | run
  | repl
  deriving DecidableEq, Repr

namespace CommandName

/-- Every command. -/
def all : List CommandName := [.tokenize, .evaluate, .run, .repl]

/-- The word that a command is called by. -/
def word : CommandName → String
  | .tokenize => "tokenize"
  | .evaluate => "evaluate"
  | .run => "run"
  | .repl => "repl"

/-- What a command does, in one line. -/
def summary : CommandName → String
  | .tokenize => "Tokenizes input from a file, printing each token"
  | .evaluate => "Evaluates input from a file as a single expression and prints the result"
  | .run => "Runs input from a file as a Lox program"
  | .repl => "Starts an interactive prompt"

/-- The command that a word calls. -/
def ofWord? (word : String) : Option CommandName := all.find? fun name => name.word = word

/-- The command works on a file. -/
def takesFile (name : CommandName) : Bool := name ≠ .repl

end CommandName

/-- The name and number of the program's release. -/
def versionText : String := "rox 0.1.0\n"

/-- The options of every command, as help lists them. -/
def optionLines : List String :=
  [ "      --log            Enable logging to app.log",
    "      --allow-unused   Do not treat unused local variables as errors",
    "      --max-depth <N>  Maximum call depth before a run aborts with \"Stack overflow.\" " ++
      s!"[default: {Config.defaultMaxDepth}]",
    "  -h, --help           Print help" ]

/-- The option of the tokenizing command, as its help lists it. -/
def jsonLine : String := "      --json           Print the tokens as a JSON array"

/-- Lines of text. -/
def ofLines (lines : List String) : String := String.join (lines.map (· ++ "\n"))

/-- The word that asks for the help of a command. -/
def helpWord : String := "help"

/-- What that word does, in one line. -/
def helpSummary : String := "Print this message or the help of the given subcommand(s)"

/-- The help for the program as a whole. -/
def generalHelp : String :=
  ofLines <|
    ["Lox language interpreter", "", "Usage: rox [OPTIONS] <COMMAND>", "", "Commands:"] ++
    CommandName.all.map (fun name =>
      "  " ++ name.word ++ String.ofList (List.replicate (10 - name.word.length) ' ') ++
        name.summary) ++
    ["  help      " ++ helpSummary, "", "Options:"] ++
    optionLines ++ ["  -V, --version        Print version"]

/-- The help for one command. -/
def commandHelp (name : CommandName) : String :=
  let file := if name.takesFile then " <FILENAME>" else ""
  ofLines <|
    [name.summary, "", "Usage: rox " ++ name.word ++ " [OPTIONS]" ++ file, ""] ++
    (if name.takesFile then ["Arguments:", "  <FILENAME>  ", ""] else []) ++ ["Options:"] ++
    (if name = .tokenize then [jsonLine] else []) ++ optionLines

/-- The help for the word `help` itself. -/
def helpHelp : String :=
  ofLines
    [ helpSummary, "", "Usage: rox help [COMMAND]...", "", "Arguments:",
      "  [COMMAND]...  Print help for the subcommand(s)" ]

/-- A limit that an option may set: a decimal number, perhaps after a plus sign, of at most
sixty-four bits. -/
def limit? (text : String) : Option Nat :=
  let digits :=
    match text.toList with
    | '+' :: digits => digits
    | digits => digits
  if digits.isEmpty || !digits.all Char.isDigit then none
  else
    let value := digits.foldl (fun value digit => value * 10 + (digit.toNat - '0'.toNat)) 0
    if value < Nat.pow 2 64 then some value else none

/-- The options and the file found at one place: before the command, or after it. -/
structure Options where
  log : Bool
  allowUnused : Bool
  maxDepth : Option Nat
  json : Bool
  file : Option String
  deriving DecidableEq, Repr

/-- No option is given. -/
def Options.unset : Options := ⟨false, false, none, false, none⟩

/-- What one argument is. -/
inductive Word where
  /-- `--`, after which no argument is an option. -/
  | separator
  /-- `--NAME` or `--NAME=VALUE`. -/
  | long (name : String) (value : Option String)
  /-- `-X`, perhaps with more letters. -/
  | short (letter : Char)
  | plain (text : String)
  deriving DecidableEq, Repr

/-- Tells what an argument is. -/
def Word.of (argument : String) : Word :=
  match argument.toList with
  | ['-', '-'] => .separator
  | '-' :: '-' :: rest =>
    let name := rest.takeWhile (· ≠ '=')
    match rest.drop name.length with
    | [] => .long (String.ofList name) none
    | _ :: value => .long (String.ofList name) (some (String.ofList value))
  | '-' :: letter :: _ => .short letter
  | _ => .plain argument

/-- A place for options: in front of the command, or behind one. -/
abbrev Place := Option CommandName

/-- The help that is shown at a place. -/
def Place.help (place : Place) : String :=
  match place with
  | some name => commandHelp name
  | none => generalHelp

/-- Sets a flag that may be given once, without a value. -/
def Options.flag? (options : Options) (place : Place) (name : String) : Option Options :=
  if name = "log" then if options.log then none else some { options with log := true }
  else if name = "allow-unused" then
    if options.allowUnused then none else some { options with allowUnused := true }
  else if name = "json" && place = some .tokenize then
    if options.json then none else some { options with json := true }
  else none

/-- Sets the depth limit, which may be given once. -/
def Options.depth? (options : Options) (text : String) : Option Options :=
  match limit? text, options.maxDepth with
  | some value, none => some { options with maxDepth := some value }
  | _, _ => none

/-- Sets the file, which may be given once and has a name. -/
def Options.file? (options : Options) (name : CommandName) (text : String) : Option Options :=
  match options.file with
  | none =>
    if name.takesFile && text ≠ "" then some { options with file := some text } else none
  | some _ => none

/-- The invocation that a command and the options before and after it amount to. Of two depth
limits, the one after the command counts. -/
def invocation? (name : CommandName) (before after : Options) : Option Invocation :=
  let command? : Option Command :=
    match name, after.file with
    | .repl, _ => some .repl
    | .tokenize, some file => some (.tokenize file after.json)
    | .evaluate, some file => some (.evaluate file)
    | .run, some file => some (.run file)
    | _, none => none
  command?.map fun command =>
    { command
      log := before.log || after.log
      allowUnused := before.allowUnused || after.allowUnused
      maxDepth := (after.maxDepth <|> before.maxDepth).getD Config.defaultMaxDepth }

/-- The request of a command whose arguments are over. -/
def Request.ofCommand (name : CommandName) (before after : Options) : Request :=
  match invocation? name before after with
  | some invocation => .perform invocation
  | none => .misuse

/-- Files after the separator. -/
def readFiles (name : CommandName) (before : Options) : Options → List String → Request
  | after, [] => .ofCommand name before after
  | after, text :: rest =>
    match after.file? name text with
    | some after => readFiles name before after rest
    | none => .misuse

/-- The arguments after the word `help`. -/
def readHelp : List String → Request
  | [] => .inform generalHelp
  | [word] =>
    if word = helpWord then .inform helpHelp
    else
      match CommandName.ofWord? word with
      | some name => .inform (commandHelp name)
      | none => .misuse
  | _ => .misuse

/-- The arguments go on with a command. -/
def startsCommand : List String → Bool
  | [] => false
  | word :: _ => word = helpWord || (CommandName.ofWord? word).isSome

/-- The request that is left when an option in front of the command has a wrong value: a
command that is asked for help gives it all the same. -/
def Request.withFlaw : Request → Request
  | .inform text => .inform text
  | .perform _ | .misuse => .misuse

/-- Reads the arguments from a place on. `before` holds what stood in front of the command, and
`found` what was found at this place. -/
def readArguments (place : Place) (before found : Options) : List String → Request
  | [] =>
    match place with
    | some name => .ofCommand name before found
    | none => .misuse
  | argument :: rest =>
    match Word.of argument with
    | .separator =>
      match place with
      | some name => readFiles name before found rest
      | none => .misuse
    | .long "help" none => .inform place.help
    | .long "version" none =>
      if place = none then .inform versionText else .misuse
    | .long "max-depth" (some text) =>
      match found.depth? text with
      | some found => readArguments place before found rest
      | none => .misuse
    | .long "max-depth" none =>
      match rest with
      | [] => .misuse
      | text :: rest =>
        match found.depth? text with
        | some found => readArguments place before found rest
        | none =>
          if place = none && Word.of text = .plain text && startsCommand rest then
            (readArguments place before found rest).withFlaw
          else .misuse
    | .long name none =>
      match found.flag? place name with
      | some found => readArguments place before found rest
      | none => .misuse
    | .long _ (some _) => .misuse
    | .short letter =>
      if letter = 'h' then .inform place.help
      else if letter = 'V' && place = none then .inform versionText
      else .misuse
    | .plain text =>
      match place with
      | some name =>
        match found.file? name text with
        | some found => readArguments place before found rest
        | none => .misuse
      | none =>
        if text = helpWord then readHelp rest
        else
          match CommandName.ofWord? text with
          | some name => readArguments (some name) found .unset rest
          | none => .misuse

/-- What the arguments of the program ask for. -/
def Request.ofArguments (arguments : List String) : Request :=
  readArguments none .unset .unset arguments

end Lox.CommandLine
