import FunctionInventory.Data.MessagePack
import FunctionInventory.Data.Sha256
import FunctionInventory.FileSystem
import FunctionInventory.Log
import FunctionInventory.Record.Validation

/-!
# The cache of analysis results

Results are kept under a key made of language and content. The cache is a file in a
directory of its own; a file that is missing, outdated or damaged counts as none.
-/
namespace FunctionInventory

/-- A text with a lone surrogate, where only well-formed text has bytes. -/
inductive EncodingError where
  | surrogate
deriving DecidableEq, Repr, Inhabited

/-- The key of a content in a language: the digest of both, with a null character
between them. -/
def contentKey (content language : Text) : Except EncodingError Text :=
  match Text.encodeStrict? language with
  | some l => .ok (hexText (Sha256.digest (l ++ 0 :: Text.encode content)))
  | none => .error .surrogate

/-- Why results cannot be stored. -/
inductive StoreError where
  | encoding (e : EncodingError)
  | nesting (e : NestingError)
deriving DecidableEq, Inhabited

structure Cache where
  directory : Path
  entries : List (Value × Value) := []
  dirty : Bool := false
deriving Inhabited

namespace Cache

def version : Text := "1.0"

def fileName : Text := "analysis_cache.msgpack"

def path (c : Cache) : Path := c.directory / fileName

def size (c : Cache) : Nat := c.entries.length

/-- The records that a stored entry stands for, if all of them are valid. -/
def recordsOf? (limits : Limits) (entry : Value) : Option (List FunctionRecord) := do
  let parts ← entry.elements?
  parts.mapM fun v => match FunctionRecord.check limits.data v with
    | .ok r => some r
    | .error _ => none

/-- The records stored for a content in a language. An entry that is no list of records
is passed over. -/
def get (limits : Limits) (c : Cache) (content language : Text) :
    ExceptT EncodingError Logged (Option (List FunctionRecord)) := do
  let key ← (contentKey content language : Except _ _)
  match Value.find? (.text key) c.entries with
  | none | some .null => return none
  | some entry =>
    match recordsOf? limits entry with
    | some records => return some records
    | none =>
      Logged.note .warning (("  Discarding invalid analysis cache entry: " : Text) ++ unspecified)
      return none

/-- Stores the records of a content in a language. -/
def put (limits : Limits) (c : Cache) (content language : Text) (records : List FunctionRecord) :
    Except StoreError Cache := do
  let data ← (FunctionRecord.dumpAll limits.data .camelCase records).mapError .nesting
  let key ← (contentKey content language).mapError .encoding
  return { c with
    entries := Value.put (.text key) (.list data) c.entries
    dirty := true }

/-- Sets an entry as it is, without noting a change. -/
def setEntry (c : Cache) (key : Text) (entry : Value) : Cache :=
  { c with entries := Value.put (.text key) entry c.entries }

/-- The pair that a value with two elements stands for. -/
def pairOf? (v : Value) : Option (Value × Value) :=
  match v.elements? with
  | some [key, value] => if key.isKey then some (key, value) else none
  | _ => none

/-- The members of a map, or of a sequence of pairs. -/
def membersOf? : Value → Option (List (Value × Value))
  | .map ms => some ms
  | v => do
    let pairs ← (← v.elements?).mapM pairOf?
    return pairs.foldl (fun ms (k, w) => Value.put k w ms) []

/-- What a cache file holds. -/
inductive Content where
  | damaged
  | outdated
  | current (entries : List (Value × Value))

/-- The content of a cache file. -/
def contentOf (bytes : List UInt8) : Content :=
  match MessagePack.read? bytes with
  | some (.map ms) =>
    match Value.find? (.text "version") ms with
    | some (.text v) =>
      if v = version then
        match (Value.find? (.text "entries") ms).bind membersOf? with
        | some entries => .current entries
        | none => .damaged
      else .outdated
    | _ => .outdated
  | _ => .damaged

/-- The value that is written to the cache file. -/
def toValue (c : Cache) : Value := .object [("version", .text version), ("entries", .map c.entries)]

/-- The bytes that are written to the cache file. -/
def encode (limits : Limits) (c : Cache) : Except MessagePack.Unwritable (List UInt8) :=
  MessagePack.write (limits.packing + 1) c.toValue

/-- Why the system refuses a step of loading or saving, apart from what the file tree forbids. -/
structure Refusals where
  reading : Option Text := none
  directory : Option Text := none
  opening : Option Text := none
  writing : Option Text := none

/-- Why a file that is there cannot be read. -/
inductive ReadError where
  | file (e : FileError)
  | refused (message : Text)
deriving DecidableEq, Inhabited

def ReadError.message : ReadError → Text
  | file e => e.message
  | refused message => message

/-- The bytes of a file that the system may refuse to read. -/
def readUnder (refusal : Option Text) (disk : FileSystem) (p : Path) :
    Except ReadError (List UInt8) :=
  match refusal with
  | some message => .error (.refused message)
  | none => (disk.read p).mapError .file

/-- Takes the entries from the cache file. -/
def loadUnder (refusals : Refusals) (c : Cache) (disk : FileSystem) :
    ExceptT ReadError Logged Cache := do
  if !disk.pathExists c.path then return c
  match contentOf (← (readUnder refusals.reading disk c.path : Except _ _)) with
  | .outdated =>
    Logged.note .info ("  Analysis cache version mismatch, ignoring cache" : Text)
    return c
  | .damaged =>
    Logged.note .warning (("  Failed to load analysis cache: " : Text) ++ unspecified)
    return { c with entries := [] }
  | .current entries =>
    Logged.note .info
      (("  Loaded analysis cache with " ++ toString entries.length ++ " entries" : String) : Text)
    return { c with entries }

/-- Loads where the system refuses nothing. -/
def load (c : Cache) (disk : FileSystem) : ExceptT ReadError Logged Cache := loadUnder {} c disk

/-- The outcome of saving: the cache and the file tree, and why the entries could not be
written, if so. -/
structure Saved where
  cache : Cache
  disk : FileSystem
  unwritable : Option MessagePack.Unwritable := none

/-- The outcome of a step that the system may refuse, with the message if it fails. -/
def attempt (refusal : Option Text) (r : Except FileError FileSystem) : Except Text FileSystem :=
  match refusal with
  | some message => .error message
  | none => r.mapError FileError.message

/-- Writes the cache file if anything changed. The file is emptied first, so that it stays
empty if the entries cannot be written. -/
def saveUnder (limits : Limits) (refusals : Refusals) (c : Cache) (disk : FileSystem) :
    Logged Saved := do
  if !c.dirty then return ⟨c, disk, none⟩
  let warn (message : Text) : Logged Unit :=
    Logged.note .warning (("  Failed to save analysis cache: " : Text) ++ message)
  match attempt refusals.directory (disk.makeDirectories c.directory) with
  | .error message =>
    warn message
    return ⟨c, disk, none⟩
  | .ok made =>
    match attempt refusals.opening (made.write c.path []) with
    | .error message =>
      warn message
      return ⟨c, made, none⟩
    | .ok emptied =>
      match c.encode limits with
      | .error e => return ⟨c, emptied, some e⟩
      | .ok bytes =>
        match attempt refusals.writing (emptied.write c.path bytes) with
        | .error message =>
          warn message
          return ⟨c, emptied, none⟩
        | .ok full =>
          Logged.note .info (("  Saved analysis cache with " ++ toString c.size ++
            " entries (msgpack)" : String) : Text)
          return ⟨{ c with dirty := false }, full, none⟩

/-- Saves where the system refuses nothing. -/
def save (limits : Limits) (c : Cache) (disk : FileSystem) : Logged Saved :=
  saveUnder limits {} c disk

end Cache

end FunctionInventory
