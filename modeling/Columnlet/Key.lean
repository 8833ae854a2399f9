import Columnlet.Bytes

/-!
Keys of columnlets: one column of one row group of one data file. A key is written as sixteen
bytes, so that the order of keys is the order of their byte strings.
-/

namespace Columnlet

/-- A columnlet: a column of a row group of a data file. -/
structure Key where
  fileId : UInt64
  rowGroup : UInt16
  column : UInt16
  deriving DecidableEq, Repr

namespace Key

/-- The width of a written key. -/
def width : Nat := 16

/-- Keys are ordered by file, then row group, then column. -/
instance : Ord Key where
  compare a b :=
    (compare a.fileId b.fileId).then <|
      (compare a.rowGroup b.rowGroup).then (compare a.column b.column)

/-- Eight bytes of file and four each of row group and column, most significant byte first. -/
def toBytes (k : Key) : Bytes :=
  Bytes.bigEndian 8 k.fileId.toNat ++ Bytes.bigEndian 4 k.rowGroup.toNat ++
    Bytes.bigEndian 4 k.column.toNat

@[simp] theorem length_toBytes (k : Key) : k.toBytes.length = width := by
  simp [toBytes, width]

/-- The key that sixteen bytes spell; row group and column have to fit in sixteen bits. -/
def ofBytes? (bs : Bytes) : Option Key :=
  if bs.length = width then
    let rowGroup := Bytes.bigNat ((bs.drop 8).take 4)
    let column := Bytes.bigNat (bs.drop 12)
    if rowGroup < UInt16.size ∧ column < UInt16.size then
      some ⟨.ofNat (Bytes.bigNat (bs.take 8)), .ofNat rowGroup, .ofNat column⟩
    else none
  else none

/-- The three numbers of a key in decimal, with colons between them. -/
def text (k : Key) : String :=
  toString k.fileId.toNat ++ ":" ++ toString k.rowGroup.toNat ++ ":" ++ toString k.column.toNat

end Key

end Columnlet
