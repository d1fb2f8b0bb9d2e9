import Mrml.Git.Inflate
import Mrml.Git.Object

/-!
# Loose objects

Models of `encode_loose_object` and `decode_loose_object` (`crates/mrml-git/src/object.rs`, lines
60–111), and of what `read_object` does with a loose object (`repository.rs`, lines 210–217).

Results:
* `storedStream_storedLoop`: the encoder writes a stream of stored blocks.
* `parseUsize_toDigits`: a decimal number reads back.
* `decode_plain`: a header with its body is split again.
* `loose_object_round_trip`: an object that fits the inflate limit reads back under its name.
-/

namespace Mrml.Git

open Inflate

/-- `str::split_once`. -/
def splitOnce (separator : Char) (text : Text) : Option (Text × Text) :=
  match text.span (· ≠ separator) with
  | (_, []) => none
  | (before, _ :: after) => some (before, after)

/-- `str::parse::<usize>`: digits, with or without a plus sign before them. -/
def parseUsize (text : Text) : Option ℕ :=
  let digits := if text.head? = some '+' then text.tail else text
  if digits = [] then none
  else digits.foldlM (fun value c =>
    if c.isDigit ∧ 10 * value + (c.toNat - '0'.toNat) < 2 ^ 64 then
      some (10 * value + (c.toNat - '0'.toNat))
    else none) 0

/-- The match on the name of a kind (lines 97–103). -/
def kindOf (name : Text) : Option ObjectKind :=
  if name = "blob".toList then some .blob
  else if name = "tree".toList then some .tree
  else if name = "commit".toList then some .commit
  else if name = "tag".toList then some .tag
  else none

/-- The loop of the encoder (lines 74–86). `!(length as u16)` is `65535 - length`. -/
def storedLoop (plain : List UInt8) (offset : ℕ) : List UInt8 :=
  if _h : offset < plain.length ∨ (plain.length = 0 ∧ offset = 0) then
    let length := min (plain.length - offset) 65535
    let finalBlock := decide (offset + length = plain.length)
    let written := (bif finalBlock then 1 else 0) :: (leBytes 2 length ++
      (leBytes 2 (65535 - length) ++ slice plain offset length))
    if _hlast : finalBlock then written else written ++ storedLoop plain (offset + length)
  else []
termination_by plain.length - offset
decreasing_by
  simp only [finalBlock, decide_eq_true_eq] at _hlast
  omega

/-- `encode_loose_object` (lines 60–90). -/
def encodeLooseObject (kind : ObjectKind) (contents : List UInt8) : ObjectId × List UInt8 :=
  let object : Object := ⟨kind, contents⟩
  let plain := object.header ++ contents
  (object.id, [0x78, 0x01] ++ storedLoop plain 0 ++ beBytes 4 (adler plain))

/-- `decode_loose_object` (lines 91–111). -/
def decodeLooseObject (source : List UInt8) : Except ObjectError Object := do
  let plain ← (inflateZlib source).mapError fun _ => .invalidBlock
  let nul ← okOr (plain.findIdx? (· == 0)) .invalidHeader
  let header ← okOr (Text.fromUtf8 (plain.take nul)) .invalidHeader
  let (kind, size) ← okOr (splitOnce ' ' header) .invalidHeader
  let kind ← okOr (kindOf kind) .invalidHeader
  let size ← okOr (parseUsize size) .invalidHeader
  refuseIf (size ≠ plain.length - nul - 1) .sizeMismatch
  return ⟨kind, plain.drop (nul + 1)⟩

/-- What `read_object` does with the bytes of a loose object (`repository.rs`, lines 211–216). -/
def readLooseObject (id : ObjectId) (encoded : List UInt8) : Except RepositoryError Object := do
  let object ← (decodeLooseObject encoded).mapError .object
  let (computed, _) := encodeLooseObject object.kind object.contents
  refuseIf (computed ≠ id) .invalidHead
  return object

/-! ## The stream -/

/-- The encoder writes a stream of stored blocks. -/
theorem storedStream_storedLoop (plain : List UInt8) {offset : ℕ}
    (h : offset < plain.length ∨ (plain.length = 0 ∧ offset = 0)) :
    StoredStream (plain.drop offset) (storedLoop plain offset) := by
  fun_induction storedLoop plain offset with
  | case1 offset _ length finalBlock written hlast =>
    have hend : offset + length = plain.length := of_decide_eq_true hlast
    have hchunk : slice plain offset length = plain.drop offset :=
      List.take_of_length_le (by rw [List.length_drop]; omega)
    have hlength : (plain.drop offset).length = length := by
      rw [List.length_drop]
      omega
    have hwritten : written = storedBlock true (plain.drop offset) := by
      simp only [written, hlast, storedBlock, hlength, hchunk, cond_true, if_true]
    rw [hwritten]
    exact .last (by omega)
  | case2 offset _ length finalBlock written hlast ih =>
    have hmore : finalBlock = false := Bool.not_eq_true _ ▸ hlast
    have hend : offset + length ≠ plain.length := of_decide_eq_false hmore
    have hlength : (slice plain offset length).length = length := length_slice (by omega)
    have hwritten : written = storedBlock false (slice plain offset length) := by
      simp only [written, hmore, storedBlock, hlength, cond_false, Bool.false_eq_true, if_false]
    have hsplit : plain.drop offset = slice plain offset length ++ plain.drop (offset + length) := by
      rw [slice, ← List.drop_drop, List.take_append_drop]
    rw [hwritten, hsplit]
    exact .more (by omega) (ih (by omega))
  | case3 offset hend => exact absurd h hend

/-! ## The header -/

/-- Digits are parsed unless their value does not fit. -/
theorem parseUsize_eq {digits : Text} (hne : digits ≠ []) (hdigits : ∀ c ∈ digits, c.isDigit = true) :
    parseUsize digits =
      if Nat.ofDigitChars 10 digits 0 < 2 ^ 64 then some (Nat.ofDigitChars 10 digits 0) else none := by
  -- no value on the way is larger than the number
  have hle (digits : Text) (value : ℕ) : value ≤ Nat.ofDigitChars 10 digits value := by
    rw [Nat.ofDigitChars_eq_ofDigitChars_zero]
    exact (Nat.le_mul_of_pos_left _ (by positivity)).trans (Nat.le_add_right _ _)
  have hfold (digits : Text) (value : ℕ) (hdigits : ∀ c ∈ digits, c.isDigit = true)
      (hvalue : value < 2 ^ 64) :
      digits.foldlM (fun value c =>
        if c.isDigit ∧ 10 * value + (c.toNat - '0'.toNat) < 2 ^ 64 then
          some (10 * value + (c.toNat - '0'.toNat))
        else none) value =
      if Nat.ofDigitChars 10 digits value < 2 ^ 64 then some (Nat.ofDigitChars 10 digits value)
      else none := by
    induction digits generalizing value with
    | nil =>
      rw [Nat.ofDigitChars_nil, if_pos hvalue]
      rfl
    | cons c digits ih =>
      obtain ⟨hc, hdigits⟩ := List.forall_mem_cons.mp hdigits
      rw [Nat.ofDigitChars_cons, List.foldlM_cons]
      by_cases hnext : 10 * value + (c.toNat - '0'.toNat) < 2 ^ 64
      · rw [if_pos ⟨hc, hnext⟩]
        exact ih _ hdigits hnext
      · rw [if_neg fun hboth => hnext hboth.2, if_neg]
        · rfl
        · exact fun hlt => hnext ((hle digits _).trans_lt hlt)
  have hplus : digits.head? ≠ some '+' := by
    intro hhead
    exact absurd (hdigits '+' (List.mem_of_mem_head? hhead)) (by decide)
  rw [parseUsize, if_neg hplus, if_neg hne, hfold digits 0 hdigits (by positivity)]

theorem parseUsize_toDigits {n : ℕ} (h : n < 2 ^ 64) : parseUsize (Nat.toDigits 10 n) = some n := by
  have hdigit : ∀ c ∈ Nat.toDigits 10 n, c.isDigit = true := fun c hc =>
    Nat.isDigit_of_mem_toDigits (by decide) (by decide) hc
  rw [parseUsize_eq Nat.toDigits_ne_nil hdigit, Nat.ofDigitChars_ten_toDigits, if_pos h]

theorem kindOf_name (kind : ObjectKind) : kindOf kind.name = some kind := by
  cases kind <;> decide

theorem splitOnce_append {separator : Char} {before after : Text} (h : separator ∉ before) :
    splitOnce separator (before ++ separator :: after) = some (before, after) := by
  have hspan : (before ++ separator :: after).span (· ≠ separator) =
      (before, separator :: after) := by
    rw [List.span_eq_takeWhile_dropWhile, List.takeWhile_append_of_pos, List.dropWhile_append_of_pos]
    · simp
    · intro c hc
      simpa using fun heq : c = separator => h (heq ▸ hc)
    · intro c hc
      simpa using fun heq : c = separator => h (heq ▸ hc)
  unfold splitOnce
  rw [hspan]

/-- The text of a header. -/
def headerText (kind : ObjectKind) (length : ℕ) : Text :=
  kind.name ++ ' ' :: Nat.toDigits 10 length

theorem nul_notMem_headerText (kind : ObjectKind) (length : ℕ) :
    (0 : UInt8) ∉ (headerText kind length).asBytes := by
  intro hmem
  have hchar : Char.ofNat 0 ∈ headerText kind length := Text.mem_asBytes_of_ascii (by decide) hmem
  rcases List.mem_append.mp hchar with hname | hrest
  · revert hname
    cases kind <;> decide
  · rcases List.mem_cons.mp hrest with heq | hdigit
    · exact absurd heq (by decide)
    · exact absurd (Nat.isDigit_of_mem_toDigits (by decide) (by decide) hdigit) (by decide)

/-- A header with its body is split again. -/
theorem decode_plain {source : List UInt8} {kind : ObjectKind} {contents : List UInt8}
    (hsource : inflateZlib source = .ok ((⟨kind, contents⟩ : Object).header ++ contents))
    (hlength : contents.length < 2 ^ 64) : decodeLooseObject source = .ok ⟨kind, contents⟩ := by
  have hplain : (⟨kind, contents⟩ : Object).header ++ contents =
      (headerText kind contents.length).asBytes ++ 0 :: contents := by
    rw [Object.header, List.append_assoc]
    rfl
  have hspace : ' ' ∉ kind.name := by
    cases kind <;> decide
  have hdrop : ((headerText kind contents.length).asBytes ++ 0 :: contents).drop
      ((headerText kind contents.length).asBytes.length + 1) = contents := by
    rw [← List.drop_drop, List.drop_left]
    rfl
  have hsize : ((headerText kind contents.length).asBytes ++ 0 :: contents).length -
      (headerText kind contents.length).asBytes.length - 1 = contents.length := by
    rw [List.length_append, List.length_cons]
    omega
  unfold decodeLooseObject
  rw [mapError_eq_ok.mpr hsource, ok_bind, hplain, findIdx?_append_cons (nul_notMem_headerText kind _),
    okOr_some, ok_bind, List.take_left, Text.fromUtf8_asBytes, okOr_some, ok_bind, headerText, splitOnce_append hspace,
    okOr_some, ok_bind]
  dsimp only
  rw [kindOf_name, okOr_some, ok_bind, parseUsize_toDigits hlength, okOr_some, ok_bind]
  rw [headerText] at hdrop hsize
  rw [hsize, refuseIf_of_not (not_not.mpr rfl), ok_bind, hdrop]
  rfl

/-- **Main theorem.** An object whose header and body fit the inflate limit reads back from its
    loose encoding, and `read_object` accepts it under the name that the encoder gives it. -/
theorem loose_object_round_trip (kind : ObjectKind) (contents : List UInt8)
    (hfits : (⟨kind, contents⟩ : Object).header.length + contents.length ≤ 512 * 1024 * 1024) :
    decodeLooseObject (encodeLooseObject kind contents).2 = .ok ⟨kind, contents⟩ ∧
      readLooseObject (encodeLooseObject kind contents).1 (encodeLooseObject kind contents).2 =
        .ok ⟨kind, contents⟩ := by
  have hstart : 0 < ((⟨kind, contents⟩ : Object).header ++ contents).length ∨
      ((⟨kind, contents⟩ : Object).header ++ contents).length = 0 ∧ 0 = 0 := by omega
  have hstream := storedStream_storedLoop _ hstart
  rw [List.drop_zero] at hstream
  have hinflate := inflateZlib_stored hstream (by rwa [List.length_append])
  have hdecode : decodeLooseObject (encodeLooseObject kind contents).2 = .ok ⟨kind, contents⟩ :=
    decode_plain hinflate (by omega)
  refine ⟨hdecode, ?_⟩
  unfold readLooseObject
  rw [mapError_eq_ok.mpr hdecode, ok_bind]
  dsimp only
  rw [refuseIf_of_not (not_not.mpr rfl), ok_bind]
  rfl

theorem loose_object_round_trip_blob :
    decodeLooseObject (encodeLooseObject .blob [0, 32, 10]).2 = .ok ⟨.blob, [0, 32, 10]⟩ ∧
      readLooseObject (encodeLooseObject .blob [0, 32, 10]).1
        (encodeLooseObject .blob [0, 32, 10]).2 = .ok ⟨.blob, [0, 32, 10]⟩ :=
  loose_object_round_trip .blob [0, 32, 10] (by decide)

end Mrml.Git
