import Mrml.Common.Reader
import Mrml.Common.Text

/-!
# Fields of SSH messages

Model of `BinaryReader` and `BinaryWriter` of `crates/mrml-ssh/src/protocol.rs`. A writer is
the bytes that it appends.

Results:
* `reads_byte`, `reads_boolean`, `reads_u32`, `reads_string`, `reads_text`: each field is read
  back from the bytes that the writer appends for it.
-/

namespace Mrml.Ssh

/-- `ProtocolError` (lines 10–21). -/
inductive ProtocolError
  | truncated
  | length
  | invalidUtf8
  | invalidIdentification
  | invalidNameList
  | noCommonAlgorithm
  | invalidPublicKey
  | invalidPacket
  | entropy
  | authentication
deriving DecidableEq

/-- `MAX_STRING` (line 5). -/
def maxString : ℕ := 1024 * 1024

/-! ## Reading -/

/-- `BinaryReader` (lines 51–54): the bytes from the cursor on. -/
abbrev BinaryReader (α : Type) := Reader ProtocolError α

namespace BinaryReader

/-- `BinaryReader::take` (lines 89–94). -/
def take (len : ℕ) : BinaryReader (List UInt8) := Reader.take len .truncated

/-- `BinaryReader::byte` (lines 59–63). -/
def byte : BinaryReader UInt8 := do return byteAt (← take 1) 0

/-- `BinaryReader::boolean` (line 64). -/
def boolean : BinaryReader Bool := do return (← byte) != 0

/-- `BinaryReader::u32` (lines 65–68). -/
def u32 : BinaryReader UInt32 := do return UInt32.ofNat (beNat (← take 4))

/-- `BinaryReader::string` (lines 69–73). -/
def string : BinaryReader (List UInt8) := do
  let length ← u32
  Reader.lift (refuseIf (length.toNat > maxString) ProtocolError.length)
  take length.toNat

/-- `BinaryReader::text` (lines 74–76). -/
def text : BinaryReader Text := do
  let bytes ← string
  Reader.lift (okOr (Text.fromUtf8 bytes) .invalidUtf8)

end BinaryReader

/-! ## Writing -/

namespace BinaryWriter

/-- `BinaryWriter::boolean` (line 102). -/
def boolean (value : Bool) : List UInt8 := [if value then 1 else 0]

/-- `BinaryWriter::u32` (line 103). -/
def u32 (value : UInt32) : List UInt8 := beBytes 4 value.toNat

/-- A string: its length as a `u32`, and its bytes. -/
def stringBytes (value : List UInt8) : List UInt8 := beBytes 4 value.length ++ value

/-- `BinaryWriter::string` (lines 104–109). -/
def string (value : List UInt8) : Except ProtocolError (List UInt8) := do
  refuseIf (value.length > maxString ∨ value.length > 2 ^ 32 - 1) ProtocolError.length
  return stringBytes value

theorem string_eq_ok {value bytes : List UInt8} :
    string value = .ok bytes ↔ value.length ≤ maxString ∧ bytes = stringBytes value := by
  have hmax : maxString ≤ 2 ^ 32 - 1 := by decide
  constructor
  · intro h
    obtain ⟨_, hrefuse, h⟩ := bind_eq_ok.mp h
    have hnot := refuseIf_eq_ok.mp hrefuse
    exact ⟨by omega, (Except.ok.inj h).symm⟩
  · rintro ⟨hlength, rfl⟩
    rw [string, refuseIf_of_not (by omega)]
    rfl

end BinaryWriter

/-! ## Round trips of the fields -/

namespace BinaryReader

theorem reads_byte (value : UInt8) : Reads byte [value] value := by
  have htake : Reads (take 1) [value] [value] := Reads.take ProtocolError.truncated rfl
  exact htake.map (byteAt · 0)

theorem reads_boolean (value : Bool) : Reads boolean (BinaryWriter.boolean value) value := by
  have h := (reads_byte (if value then 1 else 0)).map (· != 0)
  cases value <;> exact h

theorem reads_u32 (value : UInt32) : Reads u32 (BinaryWriter.u32 value) value := by
  have hvalue := value.toNat_lt
  have h := (Reads.take ProtocolError.truncated (length_beBytes 4 value.toNat)).map
    (UInt32.ofNat <| beNat ·)
  rw [beNat_beBytes, Nat.mod_eq_of_lt (by omega), UInt32.ofNat_toNat] at h
  exact h

/-- What `string` does after a length that fits in a `u32`. -/
theorem reads_string {value : List UInt8} (h : value.length ≤ maxString) :
    Reads string (BinaryWriter.stringBytes value) value := by
  have hmax : maxString < 2 ^ 32 := by decide
  have hlength : (UInt32.ofNat value.length).toNat = value.length := by
    rw [UInt32.toNat_ofNat']
    omega
  have hu32 : Reads u32 (beBytes 4 value.length) (UInt32.ofNat value.length) := by
    have hread := reads_u32 (UInt32.ofNat value.length)
    rwa [BinaryWriter.u32, hlength] at hread
  refine hu32.bind ?_
  have hlift : Reads (Reader.lift (refuseIf ((UInt32.ofNat value.length).toNat > maxString)
      ProtocolError.length)) [] () := Reads.lift (refuseIf_of_not (by omega))
  exact hlift.bind (Reads.take ProtocolError.truncated hlength.symm)

theorem reads_text {value : Text} (h : value.asBytes.length ≤ maxString) :
    Reads text (BinaryWriter.stringBytes value.asBytes) value := by
  have hlift : Reads (Reader.lift (okOr (Text.fromUtf8 value.asBytes) ProtocolError.invalidUtf8))
      [] value := Reads.lift (by rw [Text.fromUtf8_asBytes, okOr_some])
  have hbind := Reads.bind (f := fun bytes => Reader.lift (okOr (Text.fromUtf8 bytes)
    ProtocolError.invalidUtf8)) (reads_string h) hlift
  rw [List.append_nil] at hbind
  exact hbind

/-- A longer string is refused. -/
theorem string_of_long {value rest : List UInt8} (h : maxString < value.length)
    (hfits : value.length < 2 ^ 32) :
    string (BinaryWriter.stringBytes value ++ rest) = .error .length := by
  have hlength : (UInt32.ofNat value.length).toNat = value.length := by
    rw [UInt32.toNat_ofNat']
    omega
  have hread := (reads_u32 (UInt32.ofNat value.length)).1 (value ++ rest)
  rw [BinaryWriter.u32, hlength, ← List.append_assoc] at hread
  have hrefuse : refuseIf ((UInt32.ofNat value.length).toNat > maxString) ProtocolError.length =
      .error .length := if_pos (by omega)
  rw [string, BinaryWriter.stringBytes, Reader.bind_apply, hread, ok_bind]
  dsimp only
  rw [Reader.bind_apply, Reader.lift_of_error hrefuse]
  rfl

end BinaryReader

end Mrml.Ssh
