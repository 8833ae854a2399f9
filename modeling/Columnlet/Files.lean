import Columnlet.Attempt
import Columnlet.Files.Location
import Columnlet.Region

/-!
The files of a working directory, and windows onto them. Two windows onto one file share its
memory, under whatever names they were opened: a window is read from the files and written back to
them, so a change through one is seen through the other. Opening a window creates the file and
lengthens it, and never shortens it.
-/

namespace Columnlet

/-- A file: its length, and the memory that holds its bytes. What a window writes behind the end
stays in the memory and is part of the file once that is long enough. -/
structure File where
  length : Nat := 0
  memory : Memory := .blank
  deriving DecidableEq, Repr

namespace File

/-- The file of a given length that begins with given bytes and goes on with zeros. -/
def ofBytes (bytes : Bytes) (length : Nat) : File := ⟨length, Memory.ofBytes (bytes.take length)⟩

/-- The bytes of a range, if it lies inside the file. -/
def read? (file : File) (offset width : Nat) : Option Bytes :=
  if offset + width ≤ file.length then some (file.memory.read offset width) else none

/-- All bytes of a file. -/
def toBytes (file : File) : Bytes := file.memory.read 0 file.length

/-- A file lengthened to a least length. -/
def lengthen (file : File) (length : Nat) : File := { file with length := max file.length length }

end File

/-- A window onto a file: the name it was opened by, where the file is, and how many bytes from
its start on are shared. -/
structure Mapping where
  path : String
  location : Location
  size : Nat
  deriving DecidableEq, Repr

/-- Files by where they are, and the directories that may hold files besides those that are
always there. -/
structure Files where
  entries : List (Location × File)
  directories : List Location

namespace Files

/-- A working directory without files. -/
def empty : Files := ⟨[], []⟩

/-- An association list with one key given a value. -/
def putEntry {α β : Type} [BEq α] (key : α) (value : β) : List (α × β) → List (α × β)
  | [] => [(key, value)]
  | (k, w) :: rest => if k == key then (k, value) :: rest else (k, w) :: putEntry key value rest

theorem lookup_putEntry {α β : Type} [BEq α] [LawfulBEq α] (key other : α) (value : β)
    (entries : List (α × β)) :
    (putEntry key value entries).lookup other =
      if other == key then some value else entries.lookup other := by
  induction entries with
  | nil => cases h : other == key <;> simp [putEntry, List.lookup_cons, h]
  | cons entry rest ih =>
    obtain ⟨k, w⟩ := entry
    cases hk : k == key with
    | true =>
      obtain rfl := eq_of_beq hk
      cases h : other == k <;> simp [putEntry, List.lookup_cons, h]
    | false =>
      cases ho : other == k with
      | true =>
        obtain rfl := eq_of_beq ho
        simp [putEntry, hk]
      | false => simpa [putEntry, hk, List.lookup_cons, ho] using ih

/-- The file at a location. -/
def get? (files : Files) (l : Location) : Option File := files.entries.lookup l

/-- The files with one of them replaced, or with one more. -/
def put (files : Files) (l : Location) (file : File) : Files :=
  { files with entries := putEntry l file files.entries }

theorem get?_put (files : Files) (l other : Location) (file : File) :
    (files.put l file).get? other = if other = l then some file else files.get? other := by
  simpa [get?, put] using lookup_putEntry l other file files.entries

/-! ## Finding files -/

/-- The most bytes of a word in a name. -/
def maxWord : Nat := 255

/-- The most bytes of a name. -/
def maxName : Nat := 4095

/-- Whether there is a directory at a location. -/
def hasDirectory (files : Files) (l : Location) : Bool :=
  l.isGiven || files.directories.contains l

/-- Go on from a directory through words that lead to directories. -/
def walk (files : Files) (dir : Location) : List String → Except FileError Location
  | [] => .ok dir
  | word :: words =>
    let next := dir.step word
    if Location.isDots word then files.walk next words
    else if maxWord < word.utf8ByteSize then .error .nameTooLong
    else if files.hasDirectory next then files.walk next words
    else if (files.get? next).isSome then .error .notDirectory
    else .error .notFound

/-- The directory that a name leads to without its last word, and that word. -/
def approach (files : Files) (name : String) : Except FileError (Location × String) :=
  if name.toList.contains '\x00' then .error .nulInName
  else if maxName < name.utf8ByteSize then .error .nameTooLong
  else if name = "" then .error .notFound
  else
    let words := Location.words name
    (files.walk (Location.start name) words.dropLast).map fun dir => (dir, words.getLast?.getD ".")

/-- Where a file of a given name is, or where it would be created. -/
def locate (files : Files) (name : String) : Except FileError Location := do
  let (dir, word) ← files.approach name
  let l := dir.step word
  if Location.isDots word || Location.endsWithSlash name then throw .isDirectory
  if maxWord < word.utf8ByteSize then throw .nameTooLong
  if files.hasDirectory l then throw .isDirectory
  return l

/-- The file of a given name. -/
def find (files : Files) (name : String) : Except FileError File := do
  let (dir, word) ← files.approach name
  let l := dir.step word
  if Location.isDots word then throw .isDirectory
  if maxWord < word.utf8ByteSize then throw .nameTooLong
  if files.hasDirectory l then throw .isDirectory
  match files.get? l with
  | none => throw .notFound
  | some file => if Location.endsWithSlash name then throw .notDirectory else return file

/-- The least length of a file for whose text there is no room. -/
def textBound : Nat := 1 <<< 40

/-- The text of a file. -/
def readText (files : Files) (name : String) : Except FileError String := do
  let file ← files.find name
  if textBound ≤ file.length then throw .textTooLong
  match Bytes.text? file.toBytes with
  | none => throw .notText
  | some text => return text

/-- Write a file anew. -/
def create (name : String) (file : File) : Attempt Files Unit := do
  let files ← get
  match files.locate name with
  | .error cause => throw (.file cause)
  | .ok l => set (files.put l file)

/-! ## Windows -/

/-- The file at a location, an empty one if there is none yet. -/
def file (files : Files) (l : Location) : File := (files.get? l).getD {}

/-- The least length that no file can have. -/
def lengthBound : Nat := 1 <<< 63

/-- The most bytes that a window can show. A program has addresses of 47 bits and stands behind two
thirds of them, so no wider range of them is free. -/
def widestWindow : Nat := (1 <<< 47) / 3 * 2

/-- Open a window of `size` bytes, creating the file or lengthening it as needed. A window that
proves too wide has lengthened the file all the same. -/
def openMapping (path : String) (size : Nat) : Attempt Files Mapping := do
  if size = 0 then throw (.config (.regionSizeZero path))
  let files ← get
  match files.locate path with
  | .error cause => throw (.file cause)
  | .ok l =>
    if lengthBound ≤ size then
      set (files.put l (files.file l))
      throw (.file .lengthOutOfRange)
    set (files.put l ((files.file l).lengthen size))
    if widestWindow < size then throw (.file .outOfMemory)
    return ⟨path, l, size⟩

/-- The region that a window shows. -/
def view (files : Files) (m : Mapping) : Region m.size := ⟨(files.file m.location).memory⟩

/-- The files with a region written back through its window. -/
def commit (files : Files) (m : Mapping) (r : Region m.size) : Files :=
  files.put m.location { files.file m.location with memory := r.memory }

theorem view_commit (files : Files) (m other : Mapping) (r : Region m.size) :
    (files.commit m r).view other =
      if other.location = m.location then ⟨r.memory⟩ else files.view other := by
  unfold commit view file
  rw [get?_put]
  split <;> rfl

end Files

namespace Mapping

/-- Run a computation on the region of a window, and write the region back. -/
def attempt {α : Type} (m : Mapping) (a : Attempt (Region m.size) α) : Attempt Files α :=
  fun files =>
    match a (files.view m) with
    | .ok x r => .ok x (files.commit m r)
    | .error e r => .error e (files.commit m r)

/-- What a function of the region of a window yields. -/
def observe {α : Type} (m : Mapping) (f : Region m.size → α) (files : Files) : α := f (files.view m)

/-- Change the region of a window. -/
def modify (m : Mapping) (f : Region m.size → Region m.size) (files : Files) : Files :=
  files.commit m (f (files.view m))

/-- Insist that a window shows a least count of bytes. -/
def require (m : Mapping) (size : Nat) : Except Error Unit :=
  if m.size < size then .error (.regionTooSmall m.path size m.size) else .ok ()

/-- Insist that a window shows a word, at an offset that is a multiple of its width. -/
def requireWord (m : Mapping) (width offset : Nat) (cause : ConfigError) : Except Error Unit :=
  if offset % width = 0 ∧ offset + width ≤ m.size then .ok () else .error (.config cause)

end Mapping

end Columnlet
