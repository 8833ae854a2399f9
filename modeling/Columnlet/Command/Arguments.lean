import Columnlet.Key
import Columnlet.Text.Digits

/-!
The arguments of the command line. Options have long names and take a value, as the next word or
behind an equals sign, or are flags; each is given at most once. Some of them can be preset by the
environment. Options of the whole stand before the command, those of a command behind it.
-/

namespace Columnlet.Command

/-- What to do. -/
inductive Action where
  | get (key : Key) (hex : Bool)
  | inspect
  | misses (limit : Nat)
  deriving DecidableEq, Repr

/-- A command line that says what to do. -/
structure Invocation where
  configPath : String
  metrics : Bool
  action : Action
  deriving DecidableEq, Repr

/-- What a command line comes to. -/
inductive Request where
  | run (invocation : Invocation)
  | version
  | help
  | unusable
  deriving DecidableEq, Repr

/-- Presets of options. -/
structure Environment where
  configPath : Option String := none
  logLevel : Option String := none
  logJson : Option String := none
  deriving DecidableEq, Repr

/-! ## Numbers -/

/-- The number below 2 to the 64 that a word spells, after an optional plus sign. -/
def word64? (word : String) : Option Nat := do
  let n ← match word.toList with
    | '+' :: cs => Text.number? 10 cs
    | cs => Text.number? 10 cs
  if n < UInt64.size then return n else none

/-- The number below 2 to the 16 that a word spells, after an optional sign; zero may have a minus
sign. -/
def word16? (word : String) : Option Nat := do
  match word.toList with
  | '-' :: cs => if (← Text.number? 10 cs) = 0 then return 0 else none
  | _ =>
    let n ← word64? word
    if n < UInt16.size then return n else none

/-! ## Options -/

/-- An option by its long name; a flag takes no value. -/
structure Choice where
  name : String
  isFlag : Bool

/-- Options that were given, with their values; a flag has an empty one. -/
abbrev Given := List (String × String)

/-- What reading options comes to, up to a word that is no option. -/
inductive Scan where
  | words (given : Given) (rest : List String)
  | version
  | help
  | unusable

/-- The long name of an option and the value behind its equals sign, of a word that begins with
two dashes. -/
def splitOption (cs : List Char) : String × Option String :=
  let name := cs.takeWhile (· != '=')
  match cs.drop name.length with
  | [] => (String.ofList name, none)
  | _ :: value => (String.ofList name, some (String.ofList value))

/-- Whether a word begins like an option, so that it cannot be the value of one. -/
def looksLikeOption (word : String) : Bool :=
  match word.toList with
  | '-' :: _ :: _ => true
  | _ => false

/-- Read options up to a word that is none. A value is refused as soon as it is read if `accepts`
says so. Only the whole, not a command, tells its version. -/
def scan (choices : List Choice) (accepts : String → String → Bool) (whole : Bool) (given : Given) :
    List String → Scan
  | [] => .words given []
  | word :: rest =>
    match word.toList with
    | ['-', '-'] => if rest.isEmpty && !whole then .words given [] else .unusable
    | '-' :: '-' :: cs =>
      let (name, attached) := splitOption cs
      if name = "help" ∧ attached = none then .help
      else if name = "version" ∧ attached = none ∧ whole then .version
      else
        match choices.find? (·.name = name) with
        | none => .unusable
        | some choice =>
          if given.any (·.1 = name) then .unusable
          else
            match choice.isFlag, attached, rest with
            | true, none, rest => scan choices accepts whole (given ++ [(name, "")]) rest
            | true, some _, _ => .unusable
            | false, some value, rest =>
              if accepts name value then scan choices accepts whole (given ++ [(name, value)]) rest
              else .unusable
            | false, none, [] => .unusable
            | false, none, value :: rest =>
              if !looksLikeOption value && accepts name value then
                scan choices accepts whole (given ++ [(name, value)]) rest
              else .unusable
    | '-' :: 'h' :: _ => .help
    | '-' :: 'V' :: _ => if whole then .version else .unusable
    | '-' :: _ :: _ => .unusable
    | _ => .words given (word :: rest)

/-! ## Commands -/

/-- The options of `get`. -/
def getChoices : List Choice :=
  [⟨"file-id", false⟩, ⟨"row-group", false⟩, ⟨"column", false⟩, ⟨"hex", true⟩]

/-- Whether an option of a command can have a value. -/
def acceptsNumber (name value : String) : Bool :=
  if name = "row-group" || name = "column" then (word16? value).isSome else (word64? value).isSome

/-- The action of `get` with its options. -/
def getAction? (given : Given) : Option Action := do
  let fileId ← (given.lookup "file-id").bind word64?
  let rowGroup ← (given.lookup "row-group").bind word16?
  let column ← (given.lookup "column").bind word16?
  return .get ⟨.ofNat fileId, .ofNat rowGroup, .ofNat column⟩ (given.lookup "hex").isSome

/-- The action of `misses` with its options. -/
def missesAction? (given : Given) : Option Action :=
  match given.lookup "limit" with
  | none => some (.misses 1000)
  | some limit => (word64? limit).map .misses

/-- A command by its name: its options, and the action that they make. -/
def command? : String → Option (List Choice × (Given → Option Action))
  | "get" => some (getChoices, getAction?)
  | "inspect" => some ([], fun _ => some .inspect)
  | "misses" => some ([⟨"limit", false⟩], missesAction?)
  | _ => none

/-- Whether help can be given on the words behind `help`: on the whole or on one command. -/
def helpKnows : List String → Bool
  | [] => true
  | [name] => name = "help" || (command? name).isSome
  | _ => false

/-- The options of the whole. -/
def wholeChoices : List Choice :=
  [⟨"config", false⟩, ⟨"log-level", false⟩, ⟨"log-json", true⟩, ⟨"metrics", true⟩]

/-- Whether an option of the whole can have a value. -/
def acceptsText (name value : String) : Bool := name ≠ "config" || value ≠ ""

/-- The value of an option, or what the environment presets, or a default. -/
def choose (given : Given) (name : String) (preset : Option String) (default : String) : String :=
  ((given.lookup name).or preset).getD default

/-- Whether the presets can stand where no option replaces them. -/
def presetsUsable (given : Given) (env : Environment) : Bool :=
  choose given "config" env.configPath "colcache.yaml" ≠ "" &&
    ((given.lookup "log-json").isSome || ["true", "false"].contains (env.logJson.getD "false"))

/-- Read a command line. -/
def parse (args : List String) (env : Environment) : Request :=
  match scan wholeChoices acceptsText true [] args with
  | .version => .version
  | .help => .help
  | .unusable | .words _ [] => .unusable
  | .words given (name :: rest) =>
    match command? name with
    | none => if name = "help" && helpKnows rest then .help else .unusable
    | some (choices, action?) =>
      match scan choices acceptsNumber false [] rest with
      | .words own [] =>
        match action? own with
        | some action =>
          if presetsUsable given env then
            .run {
              configPath := choose given "config" env.configPath "colcache.yaml"
              metrics := (given.lookup "metrics").isSome
              action }
          else .unusable
        | none => .unusable
      | .help => .help
      | _ => .unusable

end Columnlet.Command
