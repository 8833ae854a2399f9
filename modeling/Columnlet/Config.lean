import Columnlet.Attempt
import Columnlet.Files
import Columnlet.Format
import Columnlet.Index.Lookup
import Columnlet.Key
import Columnlet.Yaml.Document

/-!
The settings of a reader: where its index, its content and its miss bus are and how large, and
the layout of both. They are checked before any file is touched.
-/

namespace Columnlet

/-- Where a region is, and its size. -/
structure RegionConfig where
  path : String
  size : UInt64
  deriving DecidableEq, Repr

/-- The longest payload of a miss record unless told otherwise: that of a key. -/
def defaultRecordSize : UInt64 := UInt64.ofNat Key.width

/-- Where a miss bus is, its size, and whether its records are kept when it is opened. -/
structure BusConfig where
  path : String
  fileSize : UInt64
  recordSize : UInt64 := defaultRecordSize
  append : Bool := false
  deriving DecidableEq, Repr

/-- The settings of a reader. -/
structure Config where
  index : RegionConfig
  content : RegionConfig
  missChannel : Option BusConfig := none
  format : Format := .current
  deriving DecidableEq, Repr

namespace Config

/-- Insist on a condition. -/
def insist (condition : Bool) (cause : ConfigError) : Except ConfigError Unit :=
  if condition then .ok () else .error cause

/-- Check the settings; of several faults the first in this order is told. -/
def validate (c : Config) : Except ConfigError Unit := do
  insist (c.content.path ≠ "") .contentPathEmpty
  insist (0 < c.content.size) .contentSizeZero
  insist (c.index.path ≠ "") .indexPathEmpty
  insist (0 < c.index.size) .indexSizeZero
  insist (Index.minSize ≤ c.index.size.toNat) .indexSizeSmall
  match c.missChannel with
  | none => return
  | some bus =>
    insist (bus.path ≠ "") .busPathEmpty
    insist (0 < bus.fileSize) .busSizeZero
    insist (0 < bus.recordSize) .recordSizeZero

/-! ## From text -/

open Yaml in
/-- The settings of a region in a document. -/
def regionOfNode? (d : Document) (node : Node) : Option RegionConfig := do
  let fields ← d.fields? node
  return {
    path := (← (← Node.required? fields "path").scalar?).text
    size := ← (← (← Node.required? fields "size").scalar?).number?
  }

open Yaml in
/-- The settings of a miss bus in a document. -/
def busOfNode? (d : Document) (node : Node) : Option BusConfig := do
  let fields ← d.fields? node
  return {
    path := (← (← Node.required? fields "path").scalar?).text
    fileSize := ← (← (← Node.required? fields "file_size").scalar?).number?
    recordSize := ← match ← Node.field? fields "record_size" with
      | none => some defaultRecordSize
      | some node => node.scalar?.bind Scalar.number?
    append := ← match ← Node.field? fields "append" with
      | none => some false
      | some node => node.scalar?.bind Scalar.bool?
  }

open Yaml in
/-- The settings of a miss bus in a document, where a scalar may say that there is none. -/
def missChannelOfNode? (d : Document) (node : Node) : Option (Option BusConfig) := do
  let isNull ← match node with
    | .scalar s => s.isNull?
    | _ => some false
  if isNull then return none else (busOfNode? d node).map some

open Yaml in
/-- The settings in a document. Fields of other names are let be. -/
def ofDocument? (d : Document) : Option Config := do
  let fields ← d.fields? d.root
  return {
    index := ← regionOfNode? d (← Node.required? fields "index")
    content := ← regionOfNode? d (← Node.required? fields "content")
    missChannel := ← match ← Node.field? fields "miss_channel" with
      | none => some none
      | some node => missChannelOfNode? d node
    format := ← match ← Node.field? fields "format" with
      | none => some .current
      | some node => (node.scalar?.bind Scalar.choice?).bind Format.ofName?
  }

/-- The settings in a text, checked. -/
def ofText (text : String) : Except Error Config :=
  match (Yaml.parse? text).bind ofDocument? with
  | none => .error .configText
  | some config =>
    match config.validate with
    | .error cause => .error (.config cause)
    | .ok () => .ok config

/-- The settings in the text of a file, checked. -/
def ofFile (files : Files) (name : String) : Except Error Config :=
  match files.readText name with
  | .error cause => .error (.file cause)
  | .ok text => ofText text

end Config

/-! ## Settings given one by one -/

/-- Settings given one by one. Those of a miss bus count once its path is given. -/
structure Settings where
  contentPath : String := ""
  contentSize : UInt64 := 0
  indexPath : String := ""
  indexSize : UInt64 := 0
  busPath : Option String := none
  busFileSize : UInt64 := 0
  busRecordSize : Option UInt64 := none
  busAppend : Bool := false
  format : Format := .current
  deriving DecidableEq, Repr

namespace Settings

/-- The settings that a configuration gives. -/
def ofConfig (c : Config) : Settings :=
  let regions : Settings := {
    contentPath := c.content.path
    contentSize := c.content.size
    indexPath := c.index.path
    indexSize := c.index.size
    format := c.format
  }
  match c.missChannel with
  | none => regions
  | some bus => { regions with
      busPath := some bus.path
      busFileSize := bus.fileSize
      busRecordSize := some bus.recordSize
      busAppend := bus.append }

/-- The configuration that the settings amount to. -/
def toConfig (s : Settings) : Config where
  index := ⟨s.indexPath, s.indexSize⟩
  content := ⟨s.contentPath, s.contentSize⟩
  missChannel := s.busPath.map fun path => {
    path
    fileSize := s.busFileSize
    recordSize := s.busRecordSize.getD defaultRecordSize
    append := s.busAppend
  }
  format := s.format

theorem toConfig_ofConfig (c : Config) : (ofConfig c).toConfig = c := by
  obtain ⟨index, content, bus, format⟩ := c
  cases bus <;> rfl

end Settings

end Columnlet
