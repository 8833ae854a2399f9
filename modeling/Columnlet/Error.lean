import Columnlet.Text.Quoted

/-!
The ways in which an operation on the cache fails. Each is a cause with its data; `message` words
it for a reader and `report` writes it as a value, with the names of its parts.
-/

namespace Columnlet

/-- Why a named file cannot be used. -/
inductive FileError where
  | notFound
  | outOfMemory
  | notDirectory
  | isDirectory
  | nameTooLong
  | nulInName
  | notText
  | lengthOutOfRange
  | textTooLong
  deriving DecidableEq, Repr

namespace FileError

/-- What is wrong with the file, without a number for it. -/
def reason : FileError → String
  | notFound => "No such file or directory"
  | outOfMemory => "Cannot allocate memory"
  | notDirectory => "Not a directory"
  | isDirectory => "Is a directory"
  | nameTooLong => "File name too long"
  | nulInName => "file name contained an unexpected NUL byte"
  | notText => "stream did not contain valid UTF-8"
  | lengthOutOfRange => "number too large to fit in target type"
  | textTooLong => "out of memory"

/-- The number that the operating system has for the failure, if it is one of its own. -/
def number? : FileError → Option Nat
  | notFound => some 2
  | outOfMemory => some 12
  | notDirectory => some 20
  | isDirectory => some 21
  | nameTooLong => some 36
  | nulInName | notText | lengthOutOfRange | textTooLong => none

/-- The kind of the failure, in a word. -/
def kind : FileError → String
  | notFound => "NotFound"
  | outOfMemory | textTooLong => "OutOfMemory"
  | notDirectory => "NotADirectory"
  | isDirectory => "IsADirectory"
  | nameTooLong => "InvalidFilename"
  | nulInName | lengthOutOfRange => "InvalidInput"
  | notText => "InvalidData"

/-- The reason in words, and the number if there is one. -/
def message (e : FileError) : String :=
  match e.number? with
  | some n => e.reason ++ " (os error " ++ toString n ++ ")"
  | none => e.reason

/-- The failure as a value: its number if there is one, its kind and its reason. A number out of
range has a name of its own in place of the reason, and want of room for a text only its kind. -/
def report (e : FileError) : String :=
  let kind := "kind: " ++ e.kind
  let tail := kind ++ ", message: " ++ Text.quote e.reason ++ " \x7d"
  match e, e.number? with
  | .lengthOutOfRange, _ => "Custom \x7b " ++ kind ++ ", error: TryFromIntError(PosOverflow) \x7d"
  | .textTooLong, _ => "Kind(" ++ e.kind ++ ")"
  | _, some n => "Os \x7b code: " ++ toString n ++ ", " ++ tail
  | _, none => "Error \x7b " ++ tail

end FileError

/-- What is wrong with the settings of a reader, a region or a bus. -/
inductive ConfigError where
  | contentPathEmpty
  | contentSizeZero
  | indexPathEmpty
  | indexSizeZero
  | indexSizeSmall
  | busPathEmpty
  | busSizeZero
  | recordSizeZero
  | regionSizeZero (path : String)
  | headerMisaligned (path : String)
  | busMisaligned (path : String)
  | busNotCleared (path : String)
  | limitOffGrid (path : String) (limit recordSize : UInt64)
  | recordMisaligned (record : Nat)
  | noMissChannel
  deriving DecidableEq, Repr

/-- What is wrong, in words; a path stands in quotes. -/
def ConfigError.message : ConfigError → String
  | contentPathEmpty | busPathEmpty => "location should not be empty"
  | contentSizeZero => "size should be positive"
  | indexPathEmpty => "index location should not be empty"
  | indexSizeZero => "index size should be positive"
  | indexSizeSmall => "index size should hold the header and a root node"
  | busSizeZero => "message queue file size should be positive"
  | recordSizeZero => "message queue record size should be positive"
  | regionSizeZero path => "region " ++ Text.quote path ++ ": size should be positive"
  | headerMisaligned path =>
    "index region " ++ Text.quote path ++ " is not aligned for header access"
  | busMisaligned path => "miss bus " ++ Text.quote path ++ " is not aligned for header access"
  | busNotCleared path => "miss bus " ++ Text.quote path ++ " cannot be cleared"
  | limitOffGrid path limit recordSize =>
    "miss bus " ++ Text.quote path ++ " has limit " ++ toString limit.toNat ++
      " inconsistent with record size " ++ toString recordSize.toNat
  | recordMisaligned record => "miss bus record at " ++ toString record ++ " misaligned"
  | noMissChannel => "no miss channel configured"

/-- What a walk through an index met that cannot be part of one. -/
inductive Malformation where
  | pastEnd (width : Nat)
  | counterPastEnd
  deriving DecidableEq, Repr

/-- What a walk met, in words. -/
def Malformation.message : Malformation → String
  | pastEnd width => toString width ++ " bytes past end of region"
  | counterPastEnd => "counter out of range"

/-- Why a set of keys has no encoding, or no place. -/
inductive BuildError where
  | tooManyChildren (depth count : Nat)
  | childTooFar (offset : Nat)
  | noRoom
  deriving DecidableEq, Repr

/-- Why there is no encoding, in words. -/
def BuildError.message : BuildError → String
  | tooManyChildren depth count =>
    "node at depth " ++ toString depth ++ " needs " ++ toString count ++
      " children, at most 255 are encodable"
  | childTooFar offset => "child offset " ++ toString offset ++ " exceeds 56 bits"
  | noRoom => "trie does not fit in region"

/-- An operation on numbers of 64 bits whose result is none. -/
inductive Overflow where
  | add
  | multiply
  | subtract
  deriving DecidableEq, Repr

/-- What has happened, in words. -/
def Overflow.message : Overflow → String
  | add => "attempt to add with overflow"
  | multiply => "attempt to multiply with overflow"
  | subtract => "attempt to subtract with overflow"

/-- The causes for which an operation on the cache fails. An overflow is told to nobody: the program
stops there. -/
inductive Error where
  | file (cause : FileError)
  | config (cause : ConfigError)
  | configText
  | regionTooSmall (path : String) (required actual : Nat)
  | malformedIndex (offset : Nat) (cause : Malformation)
  | contentOutOfBounds (offset : UInt64) (length : UInt32) (regionSize : Nat)
  | indexBuild (cause : BuildError)
  | channelFull
  | channelClosed
  | recordTooLarge (length recordSize : Nat)
  | duplicateCollector
  | overflow (cause : Overflow)
  deriving DecidableEq, Repr

namespace Error

/-- An error in a sentence. -/
def message : Error → String
  | file cause => "I/O error: " ++ cause.message
  | config cause => "Configuration error: " ++ cause.message
  | configText => "Failed to parse configuration"
  | regionTooSmall path required actual =>
    "Region " ++ Text.quote path ++ " too small: need " ++ toString required ++ " bytes, have " ++
      toString actual
  | malformedIndex offset cause =>
    "Malformed index at offset " ++ toString offset ++ ": " ++ cause.message
  | contentOutOfBounds offset length regionSize =>
    "Content entry at offset " ++ toString offset.toNat ++ " (length " ++ toString length.toNat ++
      ") exceeds region of " ++ toString regionSize ++ " bytes"
  | indexBuild cause => "Index build failed: " ++ cause.message
  | channelFull => "Miss channel is full"
  | channelClosed => "Miss channel is closed"
  | recordTooLarge length recordSize =>
    "Record of " ++ toString length ++ " bytes exceeds record size " ++ toString recordSize
  | duplicateCollector =>
    "Metrics error: Duplicate metrics collector registration attempted"
  | overflow cause => cause.message

/-- An error as a value: the name of its kind, and its parts in order. -/
def report : Error → String
  | file cause => "Io(" ++ cause.report ++ ")"
  | config cause => "Config(" ++ Text.quote cause.message ++ ")"
  | configText => "ConfigParse"
  | regionTooSmall path required actual =>
    "RegionTooSmall \x7b path: " ++ Text.quote path ++ ", required: " ++ toString required ++
      ", actual: " ++ toString actual ++ " \x7d"
  | malformedIndex offset cause =>
    "MalformedIndex \x7b offset: " ++ toString offset ++ ", reason: " ++
      Text.quote cause.message ++ " \x7d"
  | contentOutOfBounds offset length regionSize =>
    "ContentOutOfBounds \x7b offset: " ++ toString offset.toNat ++ ", length: " ++
      toString length.toNat ++ ", region_len: " ++ toString regionSize ++ " \x7d"
  | indexBuild cause => "IndexBuild(" ++ Text.quote cause.message ++ ")"
  | channelFull => "ChannelFull"
  | channelClosed => "ChannelClosed"
  | recordTooLarge length recordSize =>
    "RecordTooLarge \x7b len: " ++ toString length ++ ", record_size: " ++
      toString recordSize ++ " \x7d"
  | duplicateCollector => "Metrics(AlreadyReg)"
  | overflow cause => cause.message

end Error

end Columnlet
