import Mrml.Common.Lines
import Mrml.Git.LooseObject
import Mrml.Git.Tree

/-!
# Commits and references

Model of the names of objects in hexadecimal (`crates/mrml-git/src/sha1.rs`, lines 125–165), of
`Commit::parse` of `object.rs`, and of the references of `repository.rs`: `HEAD`, a file for each
reference, and the packed references.
-/

namespace Mrml.Git

open Text

/-! ## Names of objects -/

/-- `decode_hex` (`sha1.rs`, lines 158–165). -/
def decodeHex (byte : UInt8) : Option UInt8 :=
  if 0x30 ≤ byte ∧ byte ≤ 0x39 then some (byte - 0x30)
  else if 0x61 ≤ byte ∧ byte ≤ 0x66 then some (byte - 0x61 + 10)
  else if 0x41 ≤ byte ∧ byte ≤ 0x46 then some (byte - 0x41 + 10)
  else none

/-- The loop of `ObjectId::parse` (lines 131–135). Neither check fails, as digits are at
most 15. -/
def decodePairs : List UInt8 → Option (List UInt8)
  | high :: low :: rest => do
    let high ← decodeHex high
    let low ← decodeHex low
    return (high * 16 + low) :: (← decodePairs rest)
  | _ => some []

namespace ObjectId

/-- `ObjectId::parse` (lines 126–137). -/
def parse (hex : Text) : Option ObjectId := do
  guard (hex.asBytes.length = 40)
  return ⟨arrayAt (← decodePairs hex.asBytes) 0 20⟩

/-- `HEX[digit]` (line 140). -/
def hexDigit (digit : UInt8) : Char :=
  if digit < 10 then Char.ofNat (0x30 + digit.toNat) else Char.ofNat (0x61 + (digit.toNat - 10))

/-- The digits of a byte (lines 143–144). -/
def hexPair (byte : UInt8) : Text := [hexDigit (byte >>> 4), hexDigit (byte &&& 15)]

/-- `ObjectId::to_hex` (lines 139–147). -/
def toHex (id : ObjectId) : Text := id.bytes.toList.flatMap hexPair

theorem toNat_digits (byte : UInt8) : (byte >>> 4).toNat < 16 ∧ (byte &&& 15).toNat < 16 ∧
    (byte >>> 4) * 16 + (byte &&& 15) = byte := by
  revert byte
  decide +kernel

end ObjectId

/-! ## Commits -/

/-- `Commit` (`object.rs`, lines 22–27). -/
structure Commit where
  tree : ObjectId
  parents : List ObjectId
  author : Text
  message : Text
deriving DecidableEq

namespace Commit

/-- What `Commit::parse` knows after some of the headers (lines 132–134). -/
structure Headers where
  tree : Option ObjectId
  parents : List ObjectId
  author : Option Text

/-- One header (lines 136–138). -/
def readHeader (headers : Headers) (line : Text) : Except ObjectError Headers :=
  if let some value := stripPrefix "tree ".toList line then
    .ok { headers with tree := ObjectId.parse value }
  else if let some value := stripPrefix "parent ".toList line then do
    return { headers with
      parents := headers.parents ++ [← okOr (ObjectId.parse value) .invalidHeader] }
  else if let some value := stripPrefix "author ".toList line then
    .ok { headers with author := some value }
  else .ok headers

/-- `Commit::parse` (lines 129–141). -/
def parse (contents : List UInt8) : Except ObjectError Commit := do
  let text ← okOr (fromUtf8 contents) ObjectError.invalidHeader
  let (headers, message) ← okOr (splitOnceText "\n\n".toList text) ObjectError.invalidHeader
  let headers ← (lines headers).foldlM readHeader ⟨none, [], none⟩
  let tree ← okOr headers.tree ObjectError.invalidHeader
  let author ← okOr headers.author ObjectError.invalidHeader
  return ⟨tree, headers.parents, author, message⟩

end Commit

/-! ## Repositories -/

/-- `validate_reference` (`repository.rs`, lines 2626–2644). -/
def validateReference (reference : Text) : Except RepositoryError Unit :=
  refuseIf (¬"refs/".toList <+: reference ∨ reference.getLast? = some '/' ∨
    "..".toList <:+: reference ∨ "@\x7b".toList <:+: reference ∨
    reference.any ("\\ ~^:?*[".toList.contains ·) ∨
    (reference.splitOn '/').any (fun part => part.isEmpty || part.head? == some '.' ||
      part.getLast? == some '.' || ".lock".toList.isSuffixOf part) ∨
    reference.any isControl) .invalidReference

/-- `Repository` (line 96): the objects, and the files of its directory by their path in it. -/
structure Repository where
  store : Store
  files : Text → Option (List UInt8)

namespace Repository

variable (repo : Repository)

/-- `read_file_text_bounded` (`crates/mrml-runtime/src/file.rs`, line 56), of a file of the
directory. -/
def readFileTextBounded (path : Text) (limit : ℕ) : Except RepositoryError Text := do
  let bytes ← okOr (repo.files path) (RepositoryError.file .openFailed)
  refuseIf (bytes.length > limit) (RepositoryError.file .readFailed)
  okOr (fromUtf8 bytes) (RepositoryError.file .invalidUtf8)

/-- What `packed_references` knows after some of the lines (lines 426–427). -/
structure Packed where
  output : List (Text × ObjectId)
  canPeel : Bool

/-- One line of the packed references (lines 428–451). -/
def readPacked (packed : Packed) (line : Text) : Except RepositoryError Packed :=
  if line.isEmpty ∨ line.head? = some '#' then .ok { packed with canPeel := false }
  else if let some hex := stripPrefix "^".toList line then do
    refuseIf (!packed.canPeel || (ObjectId.parse hex).isNone) RepositoryError.invalidReference
    return { packed with canPeel := false }
  else do
    let (hex, reference) ← okOr (splitOnce ' ' line) RepositoryError.invalidReference
    validateReference reference
    let id ← okOr (ObjectId.parse hex) RepositoryError.invalidReference
    refuseIf (packed.output.length ≥ maxWorktreeEntries ||
      packed.output.any (·.1 == reference)) RepositoryError.invalidReference
    return ⟨packed.output ++ [(reference, id)], "refs/tags/".toList.isPrefixOf reference⟩

/-- `packed_references` (lines 420–454). -/
def packedReferences : Except RepositoryError (List (Text × ObjectId)) :=
  if repo.files "packed-refs".toList = none then .ok []
  else do
    let text ← repo.readFileTextBounded "packed-refs".toList (64 * 1024 * 1024)
    return (← (lines text).foldlM readPacked ⟨[], false⟩).output

/-- `read_reference` (lines 404–418). -/
def readReference (reference : Text) : Except RepositoryError (Option ObjectId) := do
  validateReference reference
  if (repo.files reference).isSome then do
    let value ← repo.readFileTextBounded reference 4096
    return some (← okOr (ObjectId.parse (trim value)) RepositoryError.invalidReference)
  else
    return ((← repo.packedReferences).find? (·.1 == reference)).map (·.2)

/-- `head` (lines 167–177). -/
def head : Except RepositoryError (Option ObjectId) := do
  let head ← repo.readFileTextBounded "HEAD".toList 4096
  if let some reference := stripPrefix "ref: ".toList (trim head) then do
    validateReference reference
    repo.readReference reference
  else return some (← okOr (ObjectId.parse (trim head)) RepositoryError.invalidHead)

/-- `read_commit` (lines 456–462). -/
def readCommit (id : ObjectId) : Except RepositoryError Commit := do
  let object ← repo.store.readObject id
  refuseIf (object.kind ≠ .commit) RepositoryError.invalidReference
  (Commit.parse object.contents).mapError RepositoryError.object

end Repository

end Mrml.Git
