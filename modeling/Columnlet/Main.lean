import Columnlet.Command.Run

/-!
The command line on the files of the machine. The files that an invocation names are read, the
run is computed on them, and those that it changed are written back.
-/

namespace Columnlet.Command

/-- The files of an invocation: its configuration, and what the configuration names. -/
def namedFiles (config : Config) : List String :=
  [config.index.path, config.content.path] ++ (config.missChannel.map (·.path)).toList

/-- The name of what is at a location. -/
def nameOf : Location → String
  | [] => "."
  | [""] => "/"
  | l => "/".intercalate l

/-- The locations that words lead through from a directory. -/
def passed (dir : Location) : List String → List Location
  | [] => []
  | word :: words => dir.step word :: passed (dir.step word) words

/-- The files with what the machine has at a location: a directory, a file or nothing. -/
def loadAt (files : Files) (l : Location) : IO Files := do
  try
    let _ ← IO.FS.realPath (nameOf l ++ "/.")
    return { files with directories := l :: files.directories }
  catch _ =>
    try
      let bytes := (← IO.FS.readBinFile (nameOf l)).data
      return files.put l (.ofBytes bytes.toList bytes.size)
    catch _ => return files

/-- The files with those of the machine that a name leads through. -/
def loadFile (files : Files) (name : String) : IO Files :=
  (passed (Location.start name) (Location.words name)).foldlM loadAt files

/-- Write the file of a name back if a run changed it. -/
def storeFile (before after : Files) (name : String) : IO Unit := do
  match after.locate name with
  | .error _ => return
  | .ok l =>
    let file := after.file l
    if after.get? l = before.get? l then return
    let bytes := file.length.fold (fun i _ bytes => bytes.push (file.memory.get i)) ByteArray.empty
    IO.FS.writeBinFile (nameOf l) bytes

/-- Run a command line on the files of the machine. -/
def runOnMachine (args : List String) (env : Environment) : IO Result := do
  match parse args env with
  | .run invocation =>
    let files ← loadFile Files.empty invocation.configPath
    let names := match Config.ofFile files invocation.configPath with
      | .ok config => namedFiles config
      | .error _ => []
    let before ← names.foldlM loadFile files
    let (result, after) := run args env before
    names.forM (storeFile before after)
    return result
  | _ => return (run args env Files.empty).1

end Columnlet.Command

open Columnlet.Command in
/-- The command line. -/
def main (args : List String) : IO UInt32 := do
  let env : Environment := {
    configPath := ← IO.getEnv "COLCACHE_CONFIG"
    logLevel := ← IO.getEnv "LOG_LEVEL"
    logJson := ← IO.getEnv "LOG_JSON" }
  match ← runOnMachine args env with
  | .usage =>
    (← IO.getStderr).putStr helpText
    return 2
  | .finished code stdout stderr =>
    (← IO.getStdout).write ⟨stdout.toArray⟩
    (← IO.getStderr).putStr stderr
    return code.toUInt32
  | .stopped cause =>
    (← IO.getStderr).putStr (cause.message ++ "\n")
    return 101
