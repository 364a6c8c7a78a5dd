import MusicString.Config
import MusicString.Event.Yaml
import MusicString.Pattern

/-!
# The command line

The program reads a pattern and writes its events as YAML.  `CommandLine.parse` reads the arguments
and `CommandLine.execute` does the work; both are functions of texts, and files are read in between.
-/

namespace MusicString.CommandLine

/-- What the arguments ask for. -/
structure Options where
  pattern : String
  /-- The path of a configuration. -/
  config : Option String := none
  /-- Definitions, each a name, an equals sign and a text. -/
  defines : List String := []
  noStandardDictionary : Bool := false

/-- The options read so far. -/
structure Draft where
  pattern : Option String := none
  config : Option String := none
  defines : List String := []
  noStandardDictionary : Bool := false

/-- What a list of arguments amounts to. -/
inductive Request
  /-- The arguments are refused. -/
  | refused
  | help
  | version
  | run (options : Options)

/-- The options that take a value. -/
inductive Setting
  | config
  | define

/-- What a single argument is. -/
inductive Argument
  | pattern (text : String)
  | setting (setting : Setting) (value : Option String)
  | noStandardDictionary
  | help
  | version
  | endOfOptions
  | unknown

/-- A long option with its value, if one follows an equals sign. -/
def longOption (name : String) (value : Option String) : Argument :=
  match name, value with
  | "config", value => .setting .config value
  | "define", value => .setting .define value
  | "no-standard-dictionary", none => .noStandardDictionary
  | "help", none => .help
  | "version", none => .version
  | _, _ => .unknown

/-- The value that follows the letter of a short option, where an equals sign may stand between. -/
def attachedValue : List Char → Option String
  | [] => none
  | '=' :: value => some (String.ofList value)
  | value => some (String.ofList value)

/-- A short option. -/
def shortOption (letter : Char) (rest : List Char) : Argument :=
  match letter with
  | 'c' => .setting .config (attachedValue rest)
  | 'D' => .setting .define (attachedValue rest)
  | 'h' => .help
  | 'V' => .version
  | _ => .unknown

/-- A text up to its first equals sign, and what follows that if there is one. -/
def splitAtEquals : List Char → List Char × Option (List Char)
  | [] => ([], none)
  | c :: rest =>
    if c = '=' then ([], some rest)
    else
      let (before, after) := splitAtEquals rest
      (c :: before, after)

/-- What an argument is, before the end of options. -/
def Argument.ofText (s : String) : Argument :=
  match s.toList with
  | ['-', '-'] => .endOfOptions
  | '-' :: '-' :: rest =>
    let (name, value) := splitAtEquals rest
    longOption (String.ofList name) (value.map String.ofList)
  | '-' :: letter :: rest => shortOption letter rest
  | _ => .pattern s

/-- Whether an argument cannot be the value of the option before it. -/
def looksLikeOption (s : String) : Bool :=
  match s.toList with
  | '-' :: _ :: _ => true
  | _ => false

/-- Sets the pattern, of which there can be only one. -/
def Draft.setPattern (p : Draft) (s : String) : Option Draft :=
  if p.pattern.isSome then none else some { p with pattern := some s }

/-- Gives an option its value; there can be only one configuration, and its path is not empty. -/
def Draft.set (p : Draft) : Setting → String → Option Draft
  | .config, path =>
    if p.config.isSome || path = "" then none else some { p with config := some path }
  | .define, definition => some { p with defines := p.defines ++ [definition] }

/-- The request of complete options. -/
def Draft.finish (p : Draft) : Request :=
  match p.pattern with
  | none => .refused
  | some pattern => .run { p with pattern }

/-- Reads arguments none of which is an option. -/
def parsePatterns : Draft → List String → Request
  | p, [] => p.finish
  | p, arg :: rest =>
    match p.setPattern arg with
    | some p => parsePatterns p rest
    | none => .refused

/-- Reads arguments, given the options read so far. -/
def parseFrom : Draft → List String → Request
  | p, [] => p.finish
  | p, arg :: rest =>
    match Argument.ofText arg with
    | .unknown => .refused
    | .help => .help
    | .version => .version
    | .endOfOptions => parsePatterns p rest
    | .pattern text =>
      match p.setPattern text with
      | some p => parseFrom p rest
      | none => .refused
    | .noStandardDictionary =>
      if p.noStandardDictionary then .refused
      else parseFrom { p with noStandardDictionary := true } rest
    | .setting setting (some value) =>
      match p.set setting value with
      | some p => parseFrom p rest
      | none => .refused
    | .setting setting none =>
      match rest with
      | [] => .refused
      | value :: rest =>
        if looksLikeOption value then .refused
        else
          match p.set setting value with
          | some p => parseFrom p rest
          | none => .refused

/-- Reads the arguments of the program. -/
def parse (args : List String) : Request :=
  parseFrom { } args

/-- What the program leaves: an exit code and what it wrote. -/
structure Outcome where
  code : Nat
  stdout : String := ""
  stderr : String := ""

/-- What the program does instead of its work if the version is asked for. -/
def versionOutcome : Outcome :=
  { code := 0, stdout := "notestream 0.1.0\n" }

/-- The name and the entry that a definition on the command line denotes. -/
def definition? (s : String) : Option (String × Entry) :=
  match splitAtEquals s.toList with
  | (name, some text) =>
    if name = [] then none else (Definition.parse? text).map (String.ofList name, ·)
  | (_, none) => none

/-- Adds definitions in order, up to the first that denotes nothing. -/
def define {σ : Type} (env : Environment σ) : List String → Except String (Environment σ)
  | [] => .ok env
  | s :: rest =>
    match definition? s with
    | some (name, entry) => define (env.define name entry) rest
    | none => .error s

/-- The configuration to use: that of the path given, or that of the home directory, or stock. -/
def Options.configuration (o : Options) (file home : Option String) : Except ConfigError Config :=
  match o.config with
  | some _ => Config.load file
  | none => .ok ((Config.load? home).getD { })

/-- The outcome of a pattern in an environment that records its events, the latest first. -/
def runPattern (pattern : String) (env : Environment (List Event)) : Outcome :=
  match Pattern.parse pattern env with
  | .ok _ env => { code := 0, stdout := renderEvents env.state.reverse }
  | .error e env =>
    { code := 1, stdout := renderEvents env.state.reverse, stderr := "error: " ++ e.text ++ "\n" }

/--
The outcome of a run, given the text of the configuration whose path the options hold and of the one
in the home directory, where a file that is missing has no text.
-/
def execute (o : Options) (file home : Option String) : Except ConfigError Outcome := do
  let config ← o.configuration file home
  let config :=
    if o.noStandardDictionary then { config with standardDictionary := false } else config
  match define (config.environment []) o.defines with
  | .error s =>
    return { code := 2, stderr := s!"invalid definition '{s}', expected NAME=VALUE\n" }
  | .ok env =>
    let (_, env) := env.addListener (.recorder fun e log => e :: log)
    return runPattern o.pattern env

end MusicString.CommandLine
