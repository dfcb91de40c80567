/-!
# Command lines

From the words of a command line to a request. The first word that is not an option names the
command; what follows belongs to it. An option is spelled `--name value` or `--name=value` and may
be given once; only the configuration may be given in front of the command and again behind it,
where the latter counts. A word after `--` is never an option, and neither is a single `-`.

Words are taken in order. A value is looked at when the next word but its own has come (`settle`),
so a request for help is answered unless something before it was wrong; what is missing is noticed
at the end.
-/

namespace Enclaves.Console

/-- A command with its arguments. Paths are not empty; other texts may be. -/
inductive Command where
  | measure (loader runtime app : String)
  | platformDigest (image : String)
  | demo (out : Option String)
  | inspect (report : String)
  | verify (report publicKey nonce loader runtime subject : String)
      (root platform : Option String)
  deriving DecidableEq, Repr

/-- What a command line asks for. -/
inductive Request where
  | run (config : Option String) (command : Command)
  | help
  | version
  deriving DecidableEq, Repr

/-- Why a command line asks for nothing that can be done. -/
inductive UsageFault where
  | unknownArgument (word : String)
  | unknownCommand (word : String)
  | noCommand
  | repeated (name : String)
  | noValue (name : String)
  | emptyValue (name : String)
  | needlessValue (name : String)
  | missing (name : String)
  deriving DecidableEq, Repr

def UsageFault.message : UsageFault → String
  | .unknownArgument word => s!"unexpected argument '{word}' found"
  | .unknownCommand word => s!"unrecognized subcommand '{word}'"
  | .noCommand => "a subcommand is required but none was provided"
  | .repeated name => s!"the argument '{name}' cannot be used multiple times"
  | .noValue name => s!"a value is required for '{name}' but none was supplied"
  | .emptyValue name => s!"a value is required for '{name}' but none was supplied"
  | .needlessValue name => s!"unexpected value for '{name}' found"
  | .missing name => s!"the required argument '{name}' was not provided"

/-- What ends the reading of a command line early. -/
inductive Stop where
  | help
  | version
  | fault (fault : UsageFault)
  deriving DecidableEq, Repr

/-- The arguments that a command takes, or that may stand in front of all commands. -/
structure Parameters where
  /-- Its options; `config` is one everywhere. -/
  options : List String
  /-- Its arguments without a name on the command line. -/
  places : List String
  /-- Whether the version can be asked for here. -/
  tellsVersion : Bool
  deriving DecidableEq, Repr

namespace Parameters

def atTop : Parameters := ⟨["config"], [], true⟩

def measure : Parameters := ⟨["config", "loader", "runtime", "app"], [], false⟩
def platformDigest : Parameters := ⟨["config", "image"], [], false⟩
def demo : Parameters := ⟨["config", "out"], [], false⟩
def inspect : Parameters := ⟨["config"], ["report"], false⟩

def verify : Parameters where
  options :=
    ["config", "public-key", "nonce", "loader", "runtime", "subject", "root", "platform"]
  places := ["report"]
  tellsVersion := false

end Parameters

/-- The arguments that are texts rather than paths. -/
def textual : List String := ["public-key", "nonce", "subject", "platform"]

/-! ## Words -/

/-- A word by what it looks like. -/
inductive Word where
  | plain
  | escape
  | long (name : String) (value : Option String)
  | short (letter : Char)
  deriving DecidableEq, Repr

/-- A word by its first characters. -/
def classify (word : String) : Word :=
  match word.toList with
  | '-' :: '-' :: [] => .escape
  | '-' :: '-' :: name =>
    let value := name.dropWhile (· ≠ '=')
    .long (String.ofList (name.takeWhile (· ≠ '=')))
      (if value.isEmpty then none else some (String.ofList value.tail))
  | '-' :: letter :: _ => .short letter
  | _ => .plain

/-! ## Arguments of one level -/

/-- What has been read: the arguments that are settled, one that still is to be, which may lack its
value, and the places not taken. -/
structure Scan where
  values : List (String × String)
  waiting : Option (String × Option String)
  places : List String
  deriving DecidableEq, Repr

namespace Scan

def start (parameters : Parameters) : Scan := ⟨[], none, parameters.places⟩

/-- Settle the argument that is waiting. -/
def settle (s : Scan) : Except Stop Scan :=
  match s.waiting with
  | none => .ok s
  | some (name, none) => .error (.fault (.noValue name))
  | some (name, some value) =>
    if value.isEmpty ∧ name ∉ textual then .error (.fault (.emptyValue name))
    else if (s.values.lookup name).isSome then .error (.fault (.repeated name))
    else .ok { s with values := (name, value) :: s.values, waiting := none }

/-- Stop, unless what came before was wrong. -/
def stop (s : Scan) (reason : Stop) : Except Stop Scan :=
  match s.settle with
  | .error fault => .error fault
  | .ok _ => .error reason

/-- A word that looks like an option. -/
def takeOption (parameters : Parameters) (s : Scan) (word : String) : Except Stop Scan :=
  match classify word with
  | .long name value =>
    if name = "help" ∨ (name = "version" ∧ parameters.tellsVersion) then
      match value with
      | some _ => .error (.fault (.needlessValue name))
      | none => s.stop (if name = "help" then .help else .version)
    else if name ∈ parameters.options then
      match s.settle with
      | .error fault => .error fault
      | .ok s =>
        let s := { s with waiting := some (name, value) }
        if value.isSome then s.settle else .ok s
    else .error (.fault (.unknownArgument word))
  | .short letter =>
    if letter = 'h' then s.stop .help
    else if letter = 'V' ∧ parameters.tellsVersion then s.stop .version
    else .error (.fault (.unknownArgument word))
  | _ => .error (.fault (.unknownArgument word))

/-- A word in the next free place. -/
def takePlace (s : Scan) (word : String) : Except Stop Scan :=
  match s.settle with
  | .error fault => .error fault
  | .ok s =>
    match s.places with
    | [] => .error (.fault (.unknownArgument word))
    | place :: rest => .ok { s with waiting := some (place, some word), places := rest }

/-- A word that is not an option: the value that is waited for, else an argument in its place. -/
def takePlain (s : Scan) (word : String) : Except Stop Scan :=
  match s.waiting with
  | some (name, none) => .ok { s with waiting := some (name, some word) }
  | _ => s.takePlace word

/-- The words of a command; `escaped` says that `--` has come. -/
def words (parameters : Parameters) : (escaped : Bool) → Scan → List String → Except Stop Scan
  | _, s, [] => s.settle
  | true, s, word :: rest =>
    match s.takePlace word with
    | .error reason => .error reason
    | .ok s => words parameters true s rest
  | false, s, word :: rest =>
    match classify word with
    | .escape => words parameters true s rest
    | .plain =>
      match s.takePlain word with
      | .error reason => .error reason
      | .ok s => words parameters false s rest
    | _ =>
      match s.takeOption parameters word with
      | .error reason => .error reason
      | .ok s => words parameters false s rest

/-- An argument that must be there. -/
def required (s : Scan) (name : String) : Except Stop String :=
  match s.values.lookup name with
  | some value => .ok value
  | none => .error (.fault (.missing name))

def optional (s : Scan) (name : String) : Option String := s.values.lookup name

end Scan

/-! ## Commands -/

/-- The commands, by their names. -/
def commandNames : List String := ["measure", "platform-digest", "demo", "inspect", "verify"]

/-- The arguments that a named command takes. -/
def parametersOf (name : String) : Parameters :=
  if name = "measure" then .measure
  else if name = "platform-digest" then .platformDigest
  else if name = "demo" then .demo
  else if name = "inspect" then .inspect
  else .verify

/-- A named command from its arguments. -/
def commandOf (name : String) (s : Scan) : Except Stop Command :=
  if name = "measure" then do
    return .measure (← s.required "loader") (← s.required "runtime") (← s.required "app")
  else if name = "platform-digest" then do
    return .platformDigest (← s.required "image")
  else if name = "demo" then
    return .demo (s.optional "out")
  else if name = "inspect" then do
    return .inspect (← s.required "report")
  else do
    return .verify (← s.required "report") (← s.required "public-key") (← s.required "nonce")
      (← s.required "loader") (← s.required "runtime") (← s.required "subject")
      (s.optional "root") (s.optional "platform")

/-- A command and the words behind it; `top` is what stood in front. -/
def command (top : Scan) (name : String) (rest : List String) : Except Stop Request := do
  let parameters := parametersOf name
  let s ← (Scan.start parameters).words parameters false rest
  let command ← commandOf name s
  let top ← top.settle
  return .run ((s.optional "config").or (top.optional "config")) command

/-- The command that explains the others, and the words behind it. -/
def explain : List String → Except Stop Request
  | [] => .ok .help
  | [name] =>
    if name ∈ "help" :: commandNames then .ok .help
    else .error (.fault (.unknownCommand name))
  | _ :: word :: _ => .error (.fault (.unknownCommand word))

/-- The words up to the command, and the command. -/
def request (top : Scan) : List String → Except Stop Request
  | [] =>
    match top.settle with
    | .error reason => .error reason
    | .ok _ => .error (.fault .noCommand)
  | word :: rest =>
    match classify word, top.waiting with
    | .plain, some (name, none) => request { top with waiting := some (name, some word) } rest
    | .plain, _ =>
      if word ∈ commandNames then command top word rest
      else if word = "help" then explain rest
      else .error (.fault (.unknownCommand word))
    | .escape, _ => .error (.fault .noCommand)
    | _, _ =>
      match top.takeOption .atTop word with
      | .error reason => .error reason
      | .ok top => request top rest

/-- What a command line asks for. -/
def parse (words : List String) : Except UsageFault Request :=
  match request (Scan.start .atTop) words with
  | .ok request => .ok request
  | .error .help => .ok .help
  | .error .version => .ok .version
  | .error (.fault fault) => .error fault

end Enclaves.Console
