import Columnlet.Files

/-!
Miss buses: files of records of one size, to which several processes add and from which others
read. A bus starts with its limit, the offset of the next free record. A record is a commit word,
a rollback word, a length and the payload, with zeros up to a multiple of eight bytes, so that
every commit word stands at a multiple of its width. All words have their least significant byte
first.
-/

namespace Columnlet

/-- A miss bus: a window onto its file, and the longest payload of a record. -/
structure Bus where
  mapping : Mapping
  recordSize : UInt64
  deriving DecidableEq, Repr

namespace Bus

variable {n : Nat}

/-- The bytes in front of the first record. -/
def headerSize : Nat := 8

/-- The bytes of a record in front of its payload. -/
def recordHeaderSize : Nat := 12

/-- How far the rollback word is into a record. -/
def rollbackField : Nat := 4

/-- How far the length is into a record. -/
def lengthField : Nat := 8

/-- The bytes from one record to the next: header and payload, rounded up to a multiple of eight. -/
def strideOf (recordSize : UInt64) : Nat := (recordHeaderSize + recordSize.toNat + 7) / 8 * 8

/-- The bytes from one record of a bus to the next. -/
def stride (b : Bus) : Nat := strideOf b.recordSize

/-- The bytes that a record has for its payload. -/
def payloadRoom (stride : Nat) : Nat := stride - recordHeaderSize

/-- The bytes of a one in a word of 32 bits. -/
def one : Bytes := Bytes.littleEndian 4 1

/-! ## The limit -/

/-- The offset of the next free record. -/
def limitIn (r : Region n) : UInt64 := .ofNat ((r.aligned? 8 0).getD 0)

/-- A region with its limit replaced; a region without room for one stays as it is. -/
def setLimit (r : Region n) (limit : Nat) : Region n :=
  (r.write? 0 (Bytes.littleEndian 8 limit)).getD r

/-! ## Opening -/

/-- A result of arithmetic, which has to be a number of 64 bits. -/
def counted (cause : Overflow) (result : Nat) : Except Error Nat :=
  if result < UInt64.size then .ok result else .error (.overflow cause)

/-- The end of the first record, counted in 64 bits from the size of its payload on. -/
def firstEnd (recordSize : UInt64) : Except Error Nat := do
  let total ← counted .add (recordHeaderSize + recordSize.toNat)
  let stride ← counted .multiply ((total + 7) / 8 * 8)
  counted .add (headerSize + stride)

/-- Insist that a window shows the limit and one record. -/
def checkRoom (mapping : Mapping) (recordSize : UInt64) : Except Error Unit := do
  mapping.require (← firstEnd recordSize)
  mapping.requireWord 8 0 (.busMisaligned mapping.path)

/-- Open the file of a bus. A bus without room for a record has its file all the same. -/
def openFile (path : String) (fileSize recordSize : UInt64) : Attempt Files Bus := do
  if recordSize = 0 then throw (.config .recordSizeZero)
  let mapping ← Files.openMapping path fileSize.toNat
  Attempt.ofExcept (checkRoom mapping recordSize)
  return { mapping, recordSize }

/-- The number of records that a bus can hold. -/
def capacity (b : Bus) : Nat := (b.mapping.size - headerSize) / b.stride

/-- The number of records reserved so far. With a limit in front of the first record, the count
stops at the subtraction. -/
def size (b : Bus) (files : Files) : Except Error Nat :=
  let limit := (limitIn (files.view b.mapping)).toNat
  if limit < headerSize then .error (.overflow .subtract)
  else .ok ((limit - headerSize) / b.stride)

end Bus

end Columnlet
