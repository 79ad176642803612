import RecordRelay.Text.Split

/-! An invocation names a settings file, may name peers, and ends with a command: `ring`, or `route`
with the values of identification keys. Options come with their value behind a space, behind an
equals sign or, in the short form, right behind the letter. An option is taken up when the next one
comes or the arguments end, so of two mistakes in one invocation the one that is noticed first is
reported. -/
namespace RecordRelay.CommandLine

/-- Why arguments are refused. To be asked for help counts too. -/
inductive UsageError where
  | missingRequiredArgument
  | missingSubcommand
  /-- There are no arguments at all. -/
  | nothingAsked
  | invalidSubcommand
  | unknownArgument
  | displayHelp
  /-- The value of an option is missing. -/
  | invalidValue
  /-- An option is given twice. -/
  | argumentConflict
  /-- A flag is given a value. -/
  | tooManyValues
  deriving DecidableEq, Repr

def UsageError.message : UsageError → String
  | missingRequiredArgument => "a required argument is missing"
  | missingSubcommand => "a command is missing"
  | nothingAsked => "nothing is asked for"
  | invalidSubcommand => "there is no such command"
  | unknownArgument => "there is no such argument"
  | displayHelp => "help is asked for"
  | invalidValue => "the value of an option is missing"
  | argumentConflict => "an option is given twice"
  | tooManyValues => "a flag takes no value"

def usage : String :=
  "\n".intercalate
    ["Inspect how a peer forwarder configuration partitions keys.",
      "",
      "Usage: peer-forwarder [OPTIONS] --config <CONFIG> <COMMAND>",
      "",
      "Commands:",
      "  ring   List peers with their virtual nodes and share of the key space",
      "  route  Show which peer owns a record with the given key values (--key <KEY>, repeatable)",
      "  help   Print this message or the help of the given subcommand(s)",
      "",
      "Options:",
      "  -c, --config <CONFIG>        Peer forwarder configuration file (YAML)",
      "      --endpoints <ENDPOINTS>  Peer addresses, overriding the configured discovery",
      "  -h, --help                   Print help"]

inductive Command where
  /-- The peers with their shares. -/
  | ring
  /-- Where a record with key values belongs. -/
  | route (keys : List String)
  deriving DecidableEq, Repr

structure Invocation where
  /-- The path of the settings file. -/
  settingsPath : String
  /-- The peers, where they are not those of the settings. -/
  endpoints : Option (List String)
  command : Command
  deriving DecidableEq, Repr

/-- The options with a value. -/
inductive Opt where
  | config
  | endpoints
  | key
  deriving DecidableEq

/-- What the name of an option stands for. -/
inductive Flag where
  | help
  | valued (option : Opt)

/-- The options that a command knows, by their long names and by their letters. Every command knows
how to ask for help. -/
structure Options where
  long : List (String × Opt)
  short : List (Char × Opt)

namespace Options

def common : Options := ⟨[("config", .config), ("endpoints", .endpoints)], [('c', .config)]⟩

def ring : Options := ⟨[], []⟩

def route : Options := ⟨[("key", .key)], []⟩

def long? (options : Options) (name : String) : Option Flag :=
  if name = "help" then some .help
  else (options.long.find? fun entry => entry.1 = name).map fun entry => .valued entry.2

def short? (options : Options) (letter : Char) : Option Flag :=
  if letter = 'h' then some .help
  else (options.short.find? fun entry => entry.1 = letter).map fun entry => .valued entry.2

end Options

structure Taken where
  config : Option String
  endpoints : List String
  keys : List String

namespace Taken

def nothing : Taken := ⟨none, [], []⟩

/-- Takes up the value of an option. The settings file is named once and not empty; endpoints are
separated by commas. -/
def take (taken : Taken) (option : Opt) (value : String) : Except UsageError Taken :=
  match option with
  | .config =>
    if taken.config.isSome then .error .argumentConflict
    else if value.isEmpty then .error .invalidValue
    else .ok { taken with config := some value }
  | .endpoints =>
    .ok { taken with endpoints := taken.endpoints ++ Text.split (· == ',') value }
  | .key => .ok { taken with keys := taken.keys ++ [value] }

end Taken

/-- An option that has not been taken up yet, with its value if that is known. -/
abbrev Pending := Option (Opt × Option String)

/-- How far arguments have been read. -/
structure Progress where
  taken : Taken
  pending : Pending

namespace Progress

def start : Progress := ⟨.nothing, none⟩

/-- Takes up the option that is pending. It has to have a value. -/
def settle (progress : Progress) : Except UsageError Progress :=
  match progress.pending with
  | none => .ok progress
  | some (_, none) => .error .invalidValue
  | some (option, some value) => do return ⟨← progress.taken.take option value, none⟩

/-- Reads an option, with the value that is attached to it. -/
def valued (progress : Progress) (option : Opt) (value : Option String) :
    Except UsageError Progress := do
  let progress ← progress.settle
  match value with
  | some value => return ⟨← progress.taken.take option value, none⟩
  | none => return { progress with pending := some (option, none) }

def help (progress : Progress) : Except UsageError Progress := do
  let _ ← progress.settle
  throw .displayHelp

def long (progress : Progress) (options : Options) (text : List Char) :
    Except UsageError Progress :=
  let (name, value) := match Text.splitAtFirst? '=' text with
    | some (name, value) => (name, some (String.ofList value))
    | none => (text, none)
  match options.long? (String.ofList name) with
  | none => .error .unknownArgument
  | some .help => if value.isSome then .error .tooManyValues else progress.help
  | some (.valued option) => progress.valued option value

def short (progress : Progress) (options : Options) (letter : Char) (rest : List Char) :
    Except UsageError Progress :=
  match options.short? letter with
  | none => .error .unknownArgument
  | some .help => progress.help
  | some (.valued option) =>
    match rest with
    | [] => progress.valued option none
    | '=' :: value => progress.valued option (some (String.ofList value))
    | value => progress.valued option (some (String.ofList value))

end Progress

/-- What ends the reading of options: the arguments, or something that is no option. -/
inductive Stop where
  | atEnd
  /-- A word that is not the value of an option, with the arguments behind it. -/
  | atWord (word : String) (rest : List String)
  /-- A word behind two hyphens, after which there are no options. -/
  | behindHyphens (word : String)

/-- Reads options up to the first word that is none. -/
def readOptions (options : Options) (progress : Progress) :
    List String → Except UsageError (Progress × Stop)
  | [] => .ok (progress, .atEnd)
  | argument :: rest =>
    match argument.toList with
    | ['-', '-'] =>
      .ok (progress, match rest with
        | [] => .atEnd
        | word :: _ => .behindHyphens word)
    | '-' :: '-' :: text => do readOptions options (← progress.long options text) rest
    | '-' :: letter :: text => do readOptions options (← progress.short options letter text) rest
    | _ =>
      match progress.pending with
      | some (option, none) =>
        readOptions options { progress with pending := some (option, some argument) } rest
      | _ => .ok (progress, .atWord argument rest)

def commandNames : List String := ["ring", "route"]

/-- Reads the arguments of a command, which are options only. -/
def readCommand (name : String) (arguments : List String) : Except UsageError Command := do
  let options := if name = "route" then Options.route else Options.ring
  let (progress, stop) ← readOptions options .start arguments
  match stop with
  | .atEnd =>
    let progress ← progress.settle
    if name ≠ "route" then return .ring
    else if progress.taken.keys.isEmpty then throw .missingRequiredArgument
    else return .route progress.taken.keys
  | _ => throw .unknownArgument

/-- What comes of asking for help on a command. -/
def helpOn : List String → UsageError
  | [] | ["ring"] | ["route"] | ["help"] => .displayHelp
  | _ => .invalidSubcommand

def asksForAnything (taken : Taken) : Bool := taken.config.isSome || !taken.endpoints.isEmpty

def parse (arguments : List String) : Except UsageError Invocation := do
  let (progress, stop) ← readOptions .common .start arguments
  match stop with
  | .atWord "help" rest => throw (helpOn rest)
  | .atWord word rest =>
    if !commandNames.contains word then throw .invalidSubcommand
    let command ← readCommand word rest
    let taken := (← progress.settle).taken
    match taken.config with
    | none => throw .missingRequiredArgument
    | some path =>
      let endpoints := if taken.endpoints.isEmpty then none else some taken.endpoints
      return ⟨path, endpoints, command⟩
  | .behindHyphens word =>
    if commandNames.contains word || word = "help" then throw .unknownArgument
    else throw .invalidSubcommand
  | .atEnd =>
    if asksForAnything (← progress.settle).taken then throw .missingSubcommand
    else throw .nothingAsked

end RecordRelay.CommandLine
