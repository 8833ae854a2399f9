import Columnlet.Bus.Reader
import Columnlet.Command.Arguments
import Columnlet.Metrics.Registry
import Columnlet.Reader
import Columnlet.Text.Json

/-!
What the command line does to the files, and what it prints: fetch a columnlet, show the header
of an index, or print the reports of misses. A command that opens the miss bus for writing keeps
the reports in it, whatever the settings say.
-/

namespace Columnlet.Command

/-- How a run ends: with a refusal of the arguments, with a code and what it printed, or in the
middle of an operation. -/
inductive Result where
  | usage
  | finished (code : Nat) (stdout : Bytes) (stderr : String)
  | stopped (cause : Overflow)
  deriving DecidableEq, Repr

/-- The version of the cache. -/
def version : String := "0.1.0"

/-- The name and the version of the command line. -/
def versionLine : String := "columnlet-cache " ++ version ++ "\n"

/-- How to use the command line. -/
def helpText : String :=
  "Usage: colcache [--config FILE] [--log-level LEVEL] [--log-json] [--metrics] COMMAND\n\n" ++
  "Commands:\n" ++
  "  get --file-id N --row-group N --column N [--hex]\n" ++
  "  inspect\n" ++
  "  misses [--limit N]\n"

/-! ## Actions -/

/-- What an action printed, and the counts of its reads. -/
structure Printed where
  stdout : Bytes := []
  stderr : String := ""
  counters : Counters := {}

/-- The settings with the reports in the miss bus kept. -/
def keepReports (config : Config) : Config :=
  { Settings.ofConfig config with busAppend := true }.toConfig

/-- What a read prints. -/
def printOutcome (key : Key) (hex : Bool) (counters : Counters) : Outcome → Printed
  | .hit payload =>
    { stdout := if hex then Bytes.ofText (Bytes.hex payload ++ "\n") else payload, counters }
  | .miss => { stderr := key.text ++ ": not cached\n", counters }
  | .unavailable reason =>
    { stderr := key.text ++ ": unavailable (" ++ reason.message ++ ")\n", counters }

/-- Fetch a columnlet. -/
def runGet (config : Config) (key : Key) (hex : Bool) : Attempt Files Printed := do
  let reader : Reader Unit ← Reader.openWith (keepReports config) none
  let (outcome, s) := reader.read key { files := ← get, counters := {}, own := () }
  set s.files
  return printOutcome key hex s.counters outcome

/-- The header of an index with the settings it was found by. -/
def inspection (config : Config) (header : Header) : Text.Json :=
  .object [
    ("content", .text config.content.path),
    ("content_size", .number config.content.size.toNat),
    ("coordinator", .object [
      ("reader_count", .number header.readers.toNat),
      ("rw_flag", .number header.writerFlag.toNat)]),
    ("format", .text config.format.name),
    ("index", .text config.index.path),
    ("index_size", .number config.index.size.toNat)]

/-- Show the header of the index. -/
def runInspect (config : Config) : Attempt Files Printed := do
  let mapping ← Files.openMapping config.index.path config.index.size.toNat
  let coordinator ← Attempt.ofExcept (Coordinator.ofMapping mapping)
  let header := coordinator.state (← get)
  return { stdout := Bytes.ofText ((inspection config header).render 0 ++ "\n") }

/-- The line of a report: its key, or its bytes if they spell none. -/
def reportLine (record : Bytes) : String :=
  match Key.ofBytes? record with
  | some key => key.text ++ "\n"
  | none => Bytes.hex record ++ "\n"

/-- Print the reports of misses, up to a count. -/
def runMisses (config : Config) (limit : Nat) : Attempt Files Printed := do
  match config.missChannel with
  | none => throw (.config .noMissChannel)
  | some bus =>
    let reader ← BusReader.openFile bus.path bus.fileSize bus.recordSize
    let (records, _, files) := reader.drain 0 limit (← get)
    set files
    return { stdout := Bytes.ofText (String.join (records.map reportLine)) }

/-- Do what an action says. -/
def runAction (config : Config) : Action → Attempt Files Printed
  | .get key hex => runGet config key hex
  | .inspect => runInspect config
  | .misses limit => runMisses config limit

/-! ## Runs -/

/-- Announce all counts to a registry that has none yet. -/
def announce : Except Error Registry :=
  match (Registry.register 0).perform {} with
  | (.ok (), registry) => .ok registry
  | (.error e, _) => .error e

/-- Run an invocation: what it printed, with the text of the counts at the end if it asks so. -/
def runInvocation (i : Invocation) : Attempt Files Printed := do
  let config ← Attempt.ofExcept (Config.ofFile (← get) i.configPath)
  let registry ← Attempt.ofExcept (if i.metrics then announce else .ok {})
  let printed ← runAction config i.action
  return { printed with stderr := printed.stderr ++ registry.expose fun _ => printed.counters }

/-- Run a command line on the files. -/
def run (args : List String) (env : Environment) (files : Files) : Result × Files :=
  match parse args env with
  | .unusable => (.usage, files)
  | .version => (.finished 0 (Bytes.ofText versionLine) "", files)
  | .help => (.finished 0 (Bytes.ofText helpText) "", files)
  | .run invocation =>
    match runInvocation invocation files with
    | .ok printed files => (.finished 0 printed.stdout printed.stderr, files)
    | .error (.overflow cause) files => (.stopped cause, files)
    | .error e files => (.finished 1 [] ("Error: " ++ e.report ++ "\n"), files)

end Columnlet.Command
