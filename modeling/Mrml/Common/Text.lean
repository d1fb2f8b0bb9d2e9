import Mathlib

/-!
# UTF-8 text

A `str` is the list of its characters. `asBytes` is its UTF-8 encoding and `fromUtf8` the
checked decoding (`core::str::from_utf8`).

Results:
* `fromUtf8_asBytes`, `asBytes_of_fromUtf8`: encoding and decoding undo each other.
* `asBytes_injective`: texts with the same bytes are the same.
* `mem_asBytes_of_ascii`: an ASCII byte of the encoding is a character of the text.
-/

namespace Mrml

/-- The characters of a `str`. -/
abbrev Text := List Char

namespace Text

/-- `str::as_bytes`. -/
def asBytes (text : Text) : List UInt8 := text.flatMap String.utf8EncodeChar

/-- `core::str::from_utf8`. -/
def fromUtf8 (bytes : List UInt8) : Option Text :=
  bytes.toByteArray.utf8Decode?.map Array.toList

/-- `char::is_control`: the general category `Cc`. -/
def isControl (c : Char) : Bool := c.toNat < 0x20 || (0x7f ≤ c.toNat && c.toNat ≤ 0x9f)

@[simp] theorem asBytes_nil : asBytes [] = [] := rfl

@[simp] theorem asBytes_cons (c : Char) (text : Text) :
    asBytes (c :: text) = String.utf8EncodeChar c ++ asBytes text := rfl

@[simp] theorem asBytes_append (text text' : Text) :
    asBytes (text ++ text') = asBytes text ++ asBytes text' := List.flatMap_append

theorem fromUtf8_asBytes (text : Text) : fromUtf8 (asBytes text) = some text := by
  have h : (asBytes text).toByteArray.utf8Decode? = some text.toArray :=
    List.utf8Decode?_utf8Encode
  rw [fromUtf8, h]
  rfl

theorem asBytes_injective : Function.Injective asBytes := by
  intro text text' h
  have hdecode := fromUtf8_asBytes text
  rw [h, fromUtf8_asBytes] at hdecode
  exact (Option.some.inj hdecode).symm

theorem asBytes_inj {text text' : Text} : asBytes text = asBytes text' ↔ text = text' :=
  asBytes_injective.eq_iff

theorem utf8EncodeChar_of_ascii {c : Char} (h : c.toNat ≤ 0x7f) :
    String.utf8EncodeChar c = [UInt8.ofNat c.toNat] := if_pos h

theorem asBytes_of_ascii {text : Text} (h : ∀ c ∈ text, c.toNat ≤ 0x7f) :
    asBytes text = text.map fun c => UInt8.ofNat c.toNat := by
  induction text with
  | nil => rfl
  | cons c text ih =>
    obtain ⟨hc, htext⟩ := List.forall_mem_cons.mp h
    rw [asBytes_cons, utf8EncodeChar_of_ascii hc, ih htext]
    rfl

/-- The encoding of a character: one byte if it is ASCII, else bytes from `0x80` on. -/
theorem mem_utf8EncodeChar {c : Char} {b : UInt8} (h : b ∈ String.utf8EncodeChar c) :
    (c.toNat ≤ 0x7f ∧ b = UInt8.ofNat c.toNat) ∨ 0x80 ≤ b.toNat := by
  unfold String.utf8EncodeChar at h
  change b ∈ (if c.toNat ≤ 0x7f then _ else _) at h
  split_ifs at h with h1
  · exact .inl ⟨h1, List.mem_singleton.mp h⟩
  all_goals
    simp only [List.mem_cons, List.not_mem_nil, or_false] at h
    right
  · obtain rfl | rfl := h <;> rw [UInt8.toNat_ofNat'] <;> omega
  · obtain rfl | rfl | rfl := h <;> rw [UInt8.toNat_ofNat'] <;> omega
  · obtain rfl | rfl | rfl | rfl := h <;> rw [UInt8.toNat_ofNat'] <;> omega

/-- An ASCII byte of a text is one of its characters. -/
theorem mem_asBytes_of_ascii {text : Text} {b : UInt8} (hb : b.toNat < 0x80)
    (h : b ∈ asBytes text) : Char.ofNat b.toNat ∈ text := by
  obtain ⟨c, hc, hmem⟩ := List.mem_flatMap.mp h
  rcases mem_utf8EncodeChar hmem with ⟨hascii, rfl⟩ | hhigh
  · have hnat : (UInt8.ofNat c.toNat).toNat = c.toNat := by
      rw [UInt8.toNat_ofNat']
      omega
    rw [hnat, Char.ofNat_toNat]
    exact hc
  · omega

/-- A text whose bytes start with those of another starts with that text. -/
theorem prefix_of_asBytes {text text' : Text} {rest : List UInt8}
    (h : asBytes text ++ rest = asBytes text') : text <+: text' := by
  have hencode : text.utf8Encode ++ rest.toByteArray = text'.utf8Encode := by
    show (asBytes text).toByteArray ++ rest.toByteArray = (asBytes text').toByteArray
    rw [← h, List.toByteArray_append]
  exact List.isPrefix_of_utf8Encode_append_eq_utf8Encode _ hencode

end Text

end Mrml
