import Mrml.Git.Object

/-!
# The numbers of a pack

Models of the three decoders of `crates/mrml-git/src/pack.rs`: the object size of `parse_pack`
(lines 74–92), its offset distance (lines 98–107) and `delta_varint` (lines 317–333). `usize` has
64 bits. A decoder reads from the bytes that are left of its source, up to its end.

Results:
* `encoding_unique`: a byte string begins with at most one encoding.
* `deltaLoop_eq_ok`, `distanceLoop_eq_ok`: what the loops return is what the bytes denote modulo
  `2^64`.
* `objectSize_exact_iff`, `deltaVarint_exact_iff`, `offsetDistance_exact_iff`: when it is what the
  bytes denote.
-/

namespace Mrml.Git

namespace Varint

/-! ## The decoders -/

/-- `usize::checked_shl`, which drops the high bits. -/
def checkedShl (value : UInt64) (shift : ℕ) : Option UInt64 :=
  if shift < 64 then some (value <<< UInt64.ofNat shift) else none

/-- The group of bits of one byte (lines 81–89 and 321–326). -/
def addGroup (value : UInt64) (shift : ℕ) (byte : UInt8) : Except PackError UInt64 := do
  refuseIf (shift ≥ 64) .tooLarge
  let bits ← okOr (checkedShl (byte &&& 0x7f).toUInt64 shift) .tooLarge
  return value ||| bits

/-- The loop of the object size (lines 81–90). -/
def sizeLoop (size : UInt64) (shift : ℕ) (header : UInt8) (source : List UInt8) :
    Except PackError (UInt64 × List UInt8) :=
  if header &&& 0x80 = 0 then .ok (size, source)
  else
    match source with
    | [] => .error .truncated
    | byte :: rest => do
      let size ← addGroup size shift byte
      sizeLoop size (shift + 7) byte rest

/-- The size of an object (lines 76–90). The bits above the first four of the first byte are its
    type. -/
def objectSize : List UInt8 → Except PackError (UInt64 × List UInt8)
  | [] => .error .truncated
  | first :: rest => sizeLoop (first &&& 15).toUInt64 4 first rest

/-- One more byte of a distance (lines 101–105). -/
def addDistance (distance : UInt64) (byte : UInt8) : Except PackError UInt64 :=
  okOr ((checkedAdd64 distance 1).bind fun value => (checkedShl value 7).bind fun value =>
    checkedAdd64 value (byte &&& 0x7f).toUInt64) .delta

/-- The loop of the offset distance (lines 99–106). -/
def distanceLoop (distance : UInt64) (byte : UInt8) (source : List UInt8) :
    Except PackError (UInt64 × List UInt8) :=
  if byte &&& 0x80 = 0 then .ok (distance, source)
  else
    match source with
    | [] => .error .truncated
    | byte :: rest => do
      let distance ← addDistance distance byte
      distanceLoop distance byte rest

/-- The distance of an offset delta to its base (lines 97–106). -/
def offsetDistance : List UInt8 → Except PackError (UInt64 × List UInt8)
  | [] => .error .truncated
  | byte :: rest => distanceLoop (byte &&& 0x7f).toUInt64 byte rest

/-- The loop of `delta_varint`. -/
def deltaLoop (value : UInt64) (shift : ℕ) : List UInt8 → Except PackError (UInt64 × List UInt8)
  | [] => .error .truncated
  | byte :: rest => do
    let value ← addGroup value shift byte
    if byte &&& 0x80 = 0 then return (value, rest)
    deltaLoop value (shift + 7) rest

/-- `delta_varint` (lines 317–333). -/
def deltaVarint (source : List UInt8) : Except PackError (UInt64 × List UInt8) :=
  deltaLoop 0 0 source

/-! ## What the bytes denote -/

/-- Every byte but the last one has the continuation bit. -/
inductive Encoding : List UInt8 → Prop
  | last {byte : UInt8} (h : byte.toNat < 0x80) : Encoding [byte]
  | more {byte : UInt8} {bytes : List UInt8} (h : 0x80 ≤ byte.toNat) (rest : Encoding bytes) :
      Encoding (byte :: bytes)

/-- The seven bits of a byte that belong to the number. -/
def payload (byte : UInt8) : ℕ := byte.toNat % 128

/-- Groups of seven bits, the lowest first. -/
def deltaValue (bytes : List UInt8) : ℕ := Nat.ofDigits 128 (bytes.map payload)

/-- The four low bits of the first byte, then groups of seven bits. -/
def sizeValue : List UInt8 → ℕ
  | [] => 0
  | first :: rest => first.toNat % 16 + 16 * deltaValue rest

/-- The distance of some bytes, and of more bytes after them: groups of seven bits, the highest
    first, where every group before the last one counts one more. -/
def distanceFrom (distance : ℕ) : List UInt8 → ℕ
  | [] => distance
  | byte :: rest => distanceFrom (128 * (distance + 1) + payload byte) rest

/-- The distance that the bytes of an offset delta denote. -/
def distanceValue : List UInt8 → ℕ
  | [] => 0
  | byte :: rest => distanceFrom (payload byte) rest

/-- Whatever the decoder returns for the source is what the encoding in front of it denotes. -/
def Exact (decode : List UInt8 → Except PackError (UInt64 × List UInt8))
    (value : List UInt8 → ℕ) (source : List UInt8) : Prop :=
  ∀ number rest, decode source = .ok (number, rest) →
    ∃ bytes, Encoding bytes ∧ source = bytes ++ rest ∧ number.toNat = value bytes

/-- A byte string begins with at most one encoding. -/
theorem encoding_unique {bytes bytes' rest rest' : List UInt8} (h : Encoding bytes)
    (h' : Encoding bytes') (heq : bytes ++ rest = bytes' ++ rest') :
    bytes = bytes' ∧ rest = rest' := by
  induction h generalizing bytes' with
  | last hlast =>
    cases h' with
    | last => simpa using heq
    | more hmore =>
      obtain ⟨rfl, -⟩ := List.cons.inj heq
      omega
  | more hmore _ ih =>
    cases h' with
    | last hlast =>
      obtain ⟨rfl, -⟩ := List.cons.inj heq
      omega
    | more _ hrest =>
      obtain ⟨rfl, htail⟩ := List.cons.inj heq
      obtain ⟨rfl, rfl⟩ := ih hrest htail
      exact ⟨rfl, rfl⟩

/-! ## One byte -/

theorem toNat_payload (byte : UInt8) : (byte &&& 0x7f).toUInt64.toNat = payload byte := by
  have hmask : (0x7f : UInt8).toNat = 2 ^ 7 - 1 := rfl
  rw [UInt8.toNat_toUInt64, UInt8.toNat_and, hmask, Nat.and_two_pow_sub_one_eq_mod]
  rfl

theorem payload_lt (byte : UInt8) : payload byte < 128 := Nat.mod_lt _ (by decide)

theorem and_continuation (byte : UInt8) : byte &&& 0x80 = 0 ↔ byte.toNat < 0x80 := by
  have hbyte := byte.toNat_lt
  have hmask : (0x80 : UInt8).toNat = 2 ^ 7 := rfl
  rw [← UInt8.toNat_inj, UInt8.toNat_and, hmask, Nat.and_two_pow, UInt8.toNat_zero,
    Nat.mul_eq_zero, Bool.toNat_eq_zero, Nat.testBit_eq_decide_div_mod_eq, decide_eq_false_iff_not]
  omega

theorem checkedShl_eq_some {value result : UInt64} {shift : ℕ} :
    checkedShl value shift = some result ↔
      shift < 64 ∧ result.toNat = value.toNat * 2 ^ shift % 2 ^ 64 := by
  unfold checkedShl
  split_ifs with hshift
  · have hmod : (UInt64.ofNat shift).toNat % 64 = shift := by
      rw [UInt64.toNat_ofNat', Nat.mod_eq_of_lt (by omega : shift < 2 ^ 64),
        Nat.mod_eq_of_lt hshift]
    rw [Option.some_inj, ← UInt64.toNat_inj, UInt64.toNat_shiftLeft, hmod, Nat.shiftLeft_eq,
      and_iff_right hshift]
    exact eq_comm
  · simp [hshift]

/-- Bits above those of a number are added to it. The bits from `2 ^ 64` on are lost. -/
theorem or_shifted {value group shift : ℕ} (hshift : shift < 64) (hvalue : value < 2 ^ shift) :
    value ||| group * 2 ^ shift % 2 ^ 64 = (value + 2 ^ shift * group) % 2 ^ 64 := by
  have hsplit : 2 ^ 64 = 2 ^ shift * 2 ^ (64 - shift) := by
    rw [← pow_add, Nat.add_sub_cancel' hshift.le]
  have hlow : (value + 2 ^ shift * group) % 2 ^ shift = value := by
    rw [Nat.add_mul_mod_self_left, Nat.mod_eq_of_lt hvalue]
  have hhigh : (value + 2 ^ shift * group) / 2 ^ shift = group := by
    rw [Nat.add_mul_div_left _ _ (by positivity), Nat.div_eq_of_lt hvalue, Nat.zero_add]
  have hsum : (value + 2 ^ shift * group) % (2 ^ shift * 2 ^ (64 - shift)) =
      value + 2 ^ shift * (group % 2 ^ (64 - shift)) := by
    rw [Nat.mod_mul, hlow, hhigh]
  rw [hsplit, hsum, Nat.mul_comm group, Nat.mul_mod_mul_left, Nat.or_comm,
    ← Nat.two_pow_add_eq_or_of_lt hvalue, Nat.add_comm]

/-- A group is put above the bits that are there. -/
theorem addGroup_eq_ok {value result : UInt64} {shift : ℕ} {byte : UInt8}
    (hvalue : shift < 64 → value.toNat < 2 ^ shift) :
    addGroup value shift byte = .ok result ↔
      shift < 64 ∧ result.toNat = (value.toNat + 2 ^ shift * payload byte) % 2 ^ 64 := by
  have hor {bits : UInt64} (hshift : shift < 64)
      (hbits : bits.toNat = payload byte * 2 ^ shift % 2 ^ 64) :
      (value ||| bits).toNat = (value.toNat + 2 ^ shift * payload byte) % 2 ^ 64 := by
    rw [UInt64.toNat_or, hbits, or_shifted hshift (hvalue hshift)]
  unfold addGroup
  simp only [bind_eq_ok, refuseIf_eq_ok, okOr_eq_ok, checkedShl_eq_some, toNat_payload]
  constructor
  · rintro ⟨_, -, bits, ⟨hshift, hbits⟩, hresult⟩
    obtain rfl := Except.ok.inj hresult
    exact ⟨hshift, hor hshift hbits⟩
  · rintro ⟨hshift, hresult⟩
    have hbits : (UInt64.ofNat (payload byte * 2 ^ shift)).toNat =
        payload byte * 2 ^ shift % 2 ^ 64 := UInt64.toNat_ofNat'
    refine ⟨(), by omega, _, ⟨hshift, hbits⟩, congrArg _ (UInt64.toNat_inj.mp ?_)⟩
    rw [hor hshift hbits, hresult]

/-! ## Groups from the lowest -/

theorem deltaValue_cons (byte : UInt8) (bytes : List UInt8) :
    deltaValue (byte :: bytes) = payload byte + 128 * deltaValue bytes := by
  rw [deltaValue, List.map_cons, Nat.ofDigits_cons]
  rfl

theorem deltaValue_append_singleton (bytes : List UInt8) (byte : UInt8) :
    deltaValue (bytes ++ [byte]) = deltaValue bytes + 128 ^ bytes.length * payload byte := by
  rw [deltaValue, List.map_append, Nat.ofDigits_append, List.length_map, List.map_singleton,
    Nat.ofDigits_singleton]
  rfl

theorem deltaValue_lt (bytes : List UInt8) : deltaValue bytes < 128 ^ bytes.length := by
  rw [← List.length_map (f := payload)]
  refine Nat.ofDigits_lt_base_pow_length (by decide) fun digit hdigit => ?_
  obtain ⟨byte, -, rfl⟩ := List.mem_map.mp hdigit
  exact payload_lt byte

/-- **Run lemma.** The loop reads one encoding whose last group begins inside the word, and
    returns what it denotes modulo `2 ^ 64`. -/
theorem deltaLoop_eq_ok {value result : UInt64} {shift : ℕ} {source rest : List UInt8}
    (hvalue : shift < 64 → value.toNat < 2 ^ shift) :
    deltaLoop value shift source = .ok (result, rest) ↔
      ∃ bytes, Encoding bytes ∧ source = bytes ++ rest ∧ shift + 7 * bytes.length < 64 + 7 ∧
        result.toNat = (value.toNat + 2 ^ shift * deltaValue bytes) % 2 ^ 64 := by
  induction source generalizing value shift with
  | nil =>
    constructor
    · nofun
    · rintro ⟨bytes, hencoding, hsource, -⟩
      cases hencoding <;> exact absurd hsource.symm (List.cons_ne_nil _ _)
  | cons byte source ih =>
    unfold deltaLoop
    rw [bind_eq_ok]
    simp only [addGroup_eq_ok hvalue]
    -- a group that ends inside the word leaves the higher bits free
    have hnext {value₁ : UInt64} (hshift : shift < 64)
        (hvalue₁ : value₁.toNat = (value.toNat + 2 ^ shift * payload byte) % 2 ^ 64) :
        shift + 7 < 64 → value₁.toNat < 2 ^ (shift + 7) := by
      intro _
      have hbelow := hvalue hshift
      have hpayload := payload_lt byte
      rw [hvalue₁, pow_add]
      refine (Nat.mod_le _ _).trans_lt ?_
      nlinarith
    constructor
    · rintro ⟨value₁, ⟨hshift, hvalue₁⟩, h⟩
      split_ifs at h with hlast
      · obtain ⟨rfl, rfl⟩ := Prod.mk.inj (Except.ok.inj h)
        refine ⟨[byte], .last ((and_continuation byte).mp hlast), rfl, ?_, ?_⟩
        · rw [List.length_singleton]
          omega
        · rw [hvalue₁, deltaValue, List.map_singleton, Nat.ofDigits_singleton]
      · obtain ⟨bytes, hencoding, rfl, hlength, hresult⟩ := (ih (hnext hshift hvalue₁)).mp h
        refine ⟨byte :: bytes, .more ?_ hencoding, rfl, ?_, ?_⟩
        · rw [and_continuation] at hlast
          omega
        · rw [List.length_cons]
          omega
        · rw [hresult, hvalue₁, Nat.mod_add_mod, deltaValue_cons, pow_add]
          congr 1
          ring
    · rintro ⟨bytes, hencoding, hsource, hlength, hresult⟩
      have hshift : shift < 64 := by
        cases hencoding <;> simp only [List.length_cons, List.length_nil] at hlength <;> omega
      have hvalue₁ : (UInt64.ofNat (value.toNat + 2 ^ shift * payload byte)).toNat =
          (value.toNat + 2 ^ shift * payload byte) % 2 ^ 64 := UInt64.toNat_ofNat'
      refine ⟨_, ⟨hshift, hvalue₁⟩, ?_⟩
      cases hencoding with
      | last hlast =>
        obtain ⟨rfl, rfl⟩ := List.cons.inj hsource
        rw [if_pos ((and_continuation _).mpr hlast)]
        rw [deltaValue, List.map_singleton, Nat.ofDigits_singleton] at hresult
        exact congrArg (fun value => Except.ok (value, source))
          (UInt64.toNat_inj.mp (hvalue₁.trans hresult.symm))
      | more hmore hencoding =>
        obtain ⟨rfl, rfl⟩ := List.cons.inj hsource
        rw [if_neg (by rw [and_continuation]; omega)]
        refine (ih (hnext hshift hvalue₁)).mpr ⟨_, hencoding, rfl, ?_, ?_⟩
        · rw [List.length_cons] at hlength
          omega
        · rw [hresult, hvalue₁, Nat.mod_add_mod, deltaValue_cons, pow_add]
          congr 1
          ring

/-- A source that begins with `k` bytes that continue the number and a last byte whose group is
    too large for what is left of the word. -/
def Overlong (k limit : ℕ) (source : List UInt8) : Prop :=
  ∃ front last rest, source = front ++ last :: rest ∧ front.length = k ∧
    (∀ byte ∈ front, 0x80 ≤ byte.toNat) ∧ limit ≤ last.toNat ∧ last.toNat < 0x80

theorem encoding_iff {bytes : List UInt8} :
    Encoding bytes ↔ ∃ front last, bytes = front ++ [last] ∧
      (∀ byte ∈ front, 0x80 ≤ byte.toNat) ∧ last.toNat < 0x80 := by
  constructor
  · intro h
    induction h with
    | last hlast => exact ⟨[], _, rfl, nofun, hlast⟩
    | more hmore _ ih =>
      obtain ⟨front, last, rfl, hfront, hlast⟩ := ih
      exact ⟨_ :: front, last, rfl, List.forall_mem_cons.mpr ⟨hmore, hfront⟩, hlast⟩
  · rintro ⟨front, last, rfl, hfront, hlast⟩
    induction front with
    | nil => exact .last hlast
    | cons byte front ih =>
      obtain ⟨hbyte, hfront⟩ := List.forall_mem_cons.mp hfront
      exact .more hbyte (ih hfront)

theorem payload_of_lt {byte : UInt8} (h : byte.toNat < 0x80) : payload byte = byte.toNat :=
  Nat.mod_eq_of_lt h

section Word

variable {value : UInt64} {shift k limit : ℕ}

/-- The value of an encoding that is not overlong fits a word. -/
theorem value_lt_of_not_overlong (hvalue : value.toNat < 2 ^ shift)
    (hword : 2 ^ shift * (128 ^ k * limit) = 2 ^ 64) (hlimit : 0 < limit)
    {bytes rest : List UInt8} (hencoding : Encoding bytes) (hlength : bytes.length ≤ k + 1)
    (hshort : ¬ Overlong k limit (bytes ++ rest)) :
    value.toNat + 2 ^ shift * deltaValue bytes < 2 ^ 64 := by
  have hbound : deltaValue bytes + 1 ≤ 128 ^ k * limit := by
    by_cases hk : bytes.length ≤ k
    · calc deltaValue bytes + 1 ≤ 128 ^ bytes.length := deltaValue_lt bytes
        _ ≤ 128 ^ k := Nat.pow_le_pow_right (by decide) hk
        _ ≤ 128 ^ k * limit := Nat.le_mul_of_pos_right _ hlimit
    · obtain ⟨front, last, rfl, hfront, hlast⟩ := encoding_iff.mp hencoding
      rw [List.length_append, List.length_singleton] at hlength hk
      have hlen : front.length = k := by omega
      have hsmall : last.toNat < limit := by
        by_contra hlarge
        exact hshort ⟨front, last, rest, by simp, hlen, hfront, not_lt.mp hlarge, hlast⟩
      have hlow := deltaValue_lt front
      rw [hlen] at hlow
      calc deltaValue (front ++ [last]) + 1
          = deltaValue front + 1 + 128 ^ k * last.toNat := by
            rw [deltaValue_append_singleton, hlen, payload_of_lt hlast]
            ring
        _ ≤ 128 ^ k + 128 ^ k * last.toNat := Nat.add_le_add_right hlow _
        _ = 128 ^ k * (last.toNat + 1) := by ring
        _ ≤ 128 ^ k * limit := Nat.mul_le_mul_left _ hsmall
  calc value.toNat + 2 ^ shift * deltaValue bytes
      < 2 ^ shift + 2 ^ shift * deltaValue bytes := Nat.add_lt_add_right hvalue _
    _ = 2 ^ shift * (deltaValue bytes + 1) := by ring
    _ ≤ 2 ^ shift * (128 ^ k * limit) := Nat.mul_le_mul_left _ hbound
    _ = 2 ^ 64 := hword

/-- The value of an overlong encoding does not fit a word. -/
theorem le_value_of_overlong (value : UInt64) (hword : 2 ^ shift * (128 ^ k * limit) = 2 ^ 64)
    {front : List UInt8} {last : UInt8} (hlength : front.length = k) (hlast : last.toNat < 0x80)
    (hlarge : limit ≤ last.toNat) :
    2 ^ 64 ≤ value.toNat + 2 ^ shift * deltaValue (front ++ [last]) := by
  calc 2 ^ 64 = 2 ^ shift * (128 ^ k * limit) := hword.symm
    _ ≤ 2 ^ shift * (128 ^ k * last.toNat) :=
      Nat.mul_le_mul_left _ (Nat.mul_le_mul_left _ hlarge)
    _ ≤ 2 ^ shift * deltaValue (front ++ [last]) := by
      rw [deltaValue_append_singleton, hlength, payload_of_lt hlast]
      exact Nat.mul_le_mul_left _ (Nat.le_add_left _ _)
    _ ≤ value.toNat + 2 ^ shift * deltaValue (front ++ [last]) := Nat.le_add_left _ _

/-- The loop returns what the encoding denotes, unless the last group that begins in the word
    does not fit it. -/
theorem deltaLoop_exact_iff (hvalue : value.toNat < 2 ^ shift)
    (hword : 2 ^ shift * (128 ^ k * limit) = 2 ^ 64) (hlimit : 0 < limit)
    (hlast : shift + 7 * k < 64) (hnext : 64 ≤ shift + 7 * (k + 1)) (source : List UInt8) :
    (∀ number rest, deltaLoop value shift source = .ok (number, rest) →
      ∃ bytes, Encoding bytes ∧ source = bytes ++ rest ∧
        number.toNat = value.toNat + 2 ^ shift * deltaValue bytes) ↔
    ¬ Overlong k limit source := by
  constructor
  · rintro hexact ⟨front, last, rest, rfl, hlength, hfront, hlarge, hend⟩
    have hencoding := encoding_iff.mpr ⟨front, last, rfl, hfront, hend⟩
    have hsource : front ++ last :: rest = (front ++ [last]) ++ rest := by simp
    have hread := (deltaLoop_eq_ok fun _ => hvalue).mpr
      ⟨front ++ [last], hencoding, hsource, by rw [List.length_append, List.length_singleton]; omega,
        UInt64.toNat_ofNat'⟩
    obtain ⟨bytes, hencoding', hsource', hnumber⟩ := hexact _ _ hread
    obtain ⟨rfl, -⟩ := encoding_unique hencoding hencoding' (hsource.symm.trans hsource')
    have hover := le_value_of_overlong value hword hlength hend hlarge
    have hfits := UInt64.toNat_lt (UInt64.ofNat
      (value.toNat + 2 ^ shift * deltaValue (front ++ [last])))
    omega
  · intro hshort number rest hread
    obtain ⟨bytes, hencoding, rfl, hlength, hnumber⟩ := (deltaLoop_eq_ok fun _ => hvalue).mp hread
    refine ⟨bytes, hencoding, rfl, ?_⟩
    rw [hnumber, Nat.mod_eq_of_lt]
    exact value_lt_of_not_overlong hvalue hword hlimit hencoding (by omega) hshort

end Word

/-- `delta_varint` is exact unless its tenth byte is the last one and has more than one bit. -/
theorem deltaVarint_exact_iff (source : List UInt8) :
    Exact deltaVarint deltaValue source ↔ ¬ Overlong 9 2 source := by
  have hiff := @deltaLoop_exact_iff 0 0 9 2 (by decide) (by decide) (by decide) (by decide)
    (by decide) source
  have hvalue (bytes : List UInt8) :
      (0 : UInt64).toNat + 2 ^ 0 * deltaValue bytes = deltaValue bytes := by
    rw [UInt64.toNat_zero, Nat.zero_add, pow_zero, Nat.one_mul]
  simp only [hvalue] at hiff
  exact hiff

/-- After a byte that continues the number, the loop of the object size is the loop of
    `delta_varint`. -/
theorem sizeLoop_eq {size : UInt64} {shift : ℕ} {header : UInt8} {source : List UInt8}
    (h : 0x80 ≤ header.toNat) :
    sizeLoop size shift header source = deltaLoop size shift source := by
  have hmore {byte : UInt8} (hbyte : 0x80 ≤ byte.toNat) : byte &&& 0x80 ≠ 0 := by
    rw [Ne, and_continuation]
    omega
  induction source generalizing size shift header with
  | nil => rw [sizeLoop, if_neg (hmore h), deltaLoop]
  | cons byte source ih =>
    rw [sizeLoop, if_neg (hmore h), deltaLoop]
    refine bind_congr fun size => ?_
    by_cases hbyte : 0x80 ≤ byte.toNat
    · rw [ih hbyte, if_neg (hmore hbyte)]
    · have hlast : byte &&& 0x80 = 0 := by
        rw [and_continuation]
        omega
      rw [if_pos hlast]
      unfold sizeLoop
      exact if_pos hlast

theorem toNat_lowBits (byte : UInt8) : (byte &&& 15).toUInt64.toNat = byte.toNat % 16 := by
  have hmask : (15 : UInt8).toNat = 2 ^ 4 - 1 := rfl
  rw [UInt8.toNat_toUInt64, UInt8.toNat_and, hmask, Nat.and_two_pow_sub_one_eq_mod]

/-- The object size is exact unless its tenth byte is the last one and has more than four bits. -/
theorem objectSize_exact_iff (source : List UInt8) :
    Exact objectSize sizeValue source ↔ ¬ Overlong 9 16 source := by
  match source with
  | [] =>
    refine iff_of_true nofun ?_
    rintro ⟨front, last, rest, h, -⟩
    exact absurd h.symm (List.append_ne_nil_of_right_ne_nil _ (List.cons_ne_nil _ _))
  | first :: source =>
    have hlow : (first &&& 15).toUInt64.toNat < 2 ^ 4 := by
      rw [toNat_lowBits]
      omega
    by_cases hfirst : 0x80 ≤ first.toNat
    · have hiff := @deltaLoop_exact_iff (first &&& 15).toUInt64 4 8 16 hlow (by decide)
        (by decide) (by decide) (by decide) source
      have hover : Overlong 9 16 (first :: source) ↔ Overlong 8 16 source := by
        constructor
        · rintro ⟨_ | ⟨byte, front⟩, last, rest, h, hlength, hfront, hlast⟩
          · cases hlength
          · obtain ⟨rfl, rfl⟩ := List.cons.inj h
            exact ⟨front, last, rest, rfl, Nat.succ.inj hlength,
              (List.forall_mem_cons.mp hfront).2, hlast⟩
        · rintro ⟨front, last, rest, rfl, hlength, hfront, hlast⟩
          exact ⟨first :: front, last, rest, rfl, congrArg Nat.succ hlength,
            List.forall_mem_cons.mpr ⟨hfirst, hfront⟩, hlast⟩
      have hloop : objectSize (first :: source) = deltaLoop (first &&& 15).toUInt64 4 source :=
        sizeLoop_eq hfirst
      rw [hover, ← hiff, Exact, hloop]
      refine forall₂_congr fun number rest => imp_congr_right fun _ => ?_
      constructor
      · rintro ⟨bytes, hencoding, hsource, hnumber⟩
        cases hencoding with
        | last hlast =>
          obtain ⟨rfl, -⟩ := List.cons.inj hsource
          omega
        | more _ hencoding =>
          obtain ⟨rfl, rfl⟩ := List.cons.inj hsource
          exact ⟨_, hencoding, rfl, by rw [hnumber, toNat_lowBits]; rfl⟩
      · rintro ⟨bytes, hencoding, rfl, hnumber⟩
        exact ⟨first :: bytes, .more hfirst hencoding, rfl, by
          rw [hnumber, toNat_lowBits]; rfl⟩
    · have hlast := not_le.mp hfirst
      refine iff_of_true ?_ ?_
      · intro number rest h
        have hread : objectSize (first :: source) = .ok ((first &&& 15).toUInt64, source) := by
          show sizeLoop _ 4 first source = _
          unfold sizeLoop
          rw [if_pos ((and_continuation first).mpr hlast)]
        obtain ⟨rfl, rfl⟩ := Prod.mk.inj (Except.ok.inj (hread.symm.trans h))
        exact ⟨[first], .last hlast, rfl, by rw [toNat_lowBits]; rfl⟩
      · rintro ⟨_ | ⟨byte, front⟩, last, rest, h, hlength, hfront, -⟩
        · cases hlength
        · obtain ⟨rfl, -⟩ := List.cons.inj h
          exact hfirst (List.forall_mem_cons.mp hfront).1

/-! ## Groups from the highest -/

/-- A byte is refused after a distance that has no successor in the word. -/
theorem addDistance_eq_ok {distance result : UInt64} {byte : UInt8} :
    addDistance distance byte = .ok result ↔
      distance.toNat + 1 < 2 ^ 64 ∧
        result.toNat = (128 * (distance.toNat + 1) + payload byte) % 2 ^ 64 := by
  have hpayload := payload_lt byte
  unfold addDistance
  simp only [okOr_eq_ok, Option.bind_eq_some_iff, checkedAdd64_eq_some, checkedShl_eq_some,
    toNat_payload, UInt64.toNat_one]
  constructor
  · rintro ⟨next, hnext, shifted, ⟨-, hshifted⟩, hresult⟩
    have hfits := next.toNat_lt
    rw [hresult, hshifted, hnext]
    omega
  · rintro ⟨hfits, hresult⟩
    refine ⟨UInt64.ofNat (distance.toNat + 1), ?_,
      UInt64.ofNat ((distance.toNat + 1) * 2 ^ 7), ⟨by decide, ?_⟩, ?_⟩
    · rw [UInt64.toNat_ofNat', Nat.mod_eq_of_lt hfits]
    · rw [UInt64.toNat_ofNat', UInt64.toNat_ofNat', Nat.mod_eq_of_lt hfits]
    · rw [hresult, UInt64.toNat_ofNat']
      omega

/-- Before the last byte the distance is, up to what the word has lost, the last one of a word. -/
def Exhausts (distance : ℕ) (bytes : List UInt8) : Prop :=
  ∃ front last, bytes = front ++ last ∧ last ≠ [] ∧ (distanceFrom distance front + 1) % 2 ^ 64 = 0

theorem not_exhausts_nil {distance : ℕ} : ¬ Exhausts distance [] := by
  rintro ⟨front, last, hbytes, hne, -⟩
  exact hne (List.append_eq_nil_iff.mp hbytes.symm).2

theorem exhausts_cons {distance : ℕ} {byte : UInt8} {bytes : List UInt8} :
    Exhausts distance (byte :: bytes) ↔ (distance + 1) % 2 ^ 64 = 0 ∨
      Exhausts (128 * (distance + 1) + payload byte) bytes := by
  constructor
  · rintro ⟨_ | ⟨first, front⟩, last, hbytes, hlast, hexhausted⟩
    · exact .inl hexhausted
    · obtain ⟨rfl, rfl⟩ := List.cons.inj hbytes
      exact .inr ⟨front, last, rfl, hlast, hexhausted⟩
  · rintro (hexhausted | ⟨front, last, rfl, hlast, hexhausted⟩)
    · exact ⟨[], byte :: bytes, rfl, List.cons_ne_nil _ _, hexhausted⟩
    · exact ⟨byte :: front, last, rfl, hlast, hexhausted⟩

theorem encoding_cons_of_lt {byte : UInt8} {bytes : List UInt8} (h : byte.toNat < 0x80) :
    Encoding (byte :: bytes) ↔ bytes = [] := by
  constructor
  · intro hencoding
    cases hencoding with
    | last => rfl
    | more hmore => omega
  · rintro rfl
    exact .last h

theorem encoding_cons_of_le {byte : UInt8} {bytes : List UInt8} (h : 0x80 ≤ byte.toNat) :
    Encoding (byte :: bytes) ↔ Encoding bytes := by
  constructor
  · intro hencoding
    cases hencoding with
    | last hlast => omega
    | more _ hencoding => exact hencoding
  · exact .more h

/-- **Run lemma.** The loop reads one encoding and returns what it denotes modulo `2 ^ 64`, as
    long as no distance on the way is the last one of a word. -/
theorem distanceLoop_eq_ok {distance result : UInt64} {value : ℕ} {byte : UInt8}
    {source rest : List UInt8} (hvalue : distance.toNat = value % 2 ^ 64) :
    distanceLoop distance byte source = .ok (result, rest) ↔
      ∃ bytes, Encoding (byte :: bytes) ∧ source = bytes ++ rest ∧ ¬ Exhausts value bytes ∧
        result.toNat = distanceFrom value bytes % 2 ^ 64 := by
  induction source generalizing distance value byte with
  | nil =>
    unfold distanceLoop
    by_cases hlast : byte.toNat < 0x80
    · rw [if_pos ((and_continuation byte).mpr hlast)]
      simp only [encoding_cons_of_lt hlast]
      constructor
      · intro h
        obtain ⟨rfl, rfl⟩ := Prod.mk.inj (Except.ok.inj h)
        exact ⟨[], rfl, rfl, not_exhausts_nil, hvalue⟩
      · rintro ⟨bytes, rfl, rfl, -, hresult⟩
        rw [UInt64.toNat_inj.mp (hvalue.trans hresult.symm)]
    · rw [if_neg (mt (and_continuation byte).mp hlast)]
      simp only [encoding_cons_of_le (not_lt.mp hlast)]
      constructor
      · nofun
      · rintro ⟨bytes, hencoding, hsource, -⟩
        cases hencoding <;> exact absurd hsource.symm (List.cons_ne_nil _ _)
  | cons next source ih =>
    unfold distanceLoop
    by_cases hlast : byte.toNat < 0x80
    · rw [if_pos ((and_continuation byte).mpr hlast)]
      simp only [encoding_cons_of_lt hlast]
      constructor
      · intro h
        obtain ⟨rfl, rfl⟩ := Prod.mk.inj (Except.ok.inj h)
        exact ⟨[], rfl, rfl, not_exhausts_nil, hvalue⟩
      · rintro ⟨bytes, rfl, rfl, -, hresult⟩
        rw [UInt64.toNat_inj.mp (hvalue.trans hresult.symm)]
    · rw [if_neg (mt (and_continuation byte).mp hlast)]
      simp only [encoding_cons_of_le (not_lt.mp hlast), bind_eq_ok, addDistance_eq_ok]
      have hnext {distance₁ : UInt64}
          (h : distance₁.toNat = (128 * (distance.toNat + 1) + payload next) % 2 ^ 64) :
          distance₁.toNat = (128 * (value + 1) + payload next) % 2 ^ 64 := by
        rw [h, hvalue]
        omega
      have hexhausts : (value + 1) % 2 ^ 64 = 0 ↔ ¬ distance.toNat + 1 < 2 ^ 64 := by
        rw [hvalue]
        omega
      constructor
      · rintro ⟨distance₁, ⟨hfits, hdistance₁⟩, h⟩
        obtain ⟨bytes, hencoding, rfl, hbefore, hresult⟩ := (ih (hnext hdistance₁)).mp h
        refine ⟨next :: bytes, hencoding, rfl, ?_, hresult⟩
        rw [exhausts_cons, not_or, hexhausts]
        exact ⟨not_not.mpr hfits, hbefore⟩
      · rintro ⟨bytes, hencoding, hsource, hbefore, hresult⟩
        obtain ⟨bytes, rfl⟩ : ∃ tail, bytes = next :: tail := by
          cases hencoding <;> exact ⟨_, by rw [(List.cons.inj hsource).1]⟩
        rw [exhausts_cons, not_or, hexhausts, not_not] at hbefore
        have hdistance₁ : (UInt64.ofNat (128 * (distance.toNat + 1) + payload next)).toNat =
            (128 * (distance.toNat + 1) + payload next) % 2 ^ 64 := UInt64.toNat_ofNat'
        exact ⟨_, ⟨hbefore.1, hdistance₁⟩, (ih (hnext hdistance₁)).mpr
          ⟨bytes, hencoding, (List.cons.inj hsource).2, hbefore.2, hresult⟩⟩

/-- A source that begins with the encoding of a distance of more than a word, none of whose
    distances before the last byte is, up to what the word has lost, the last one of a word. -/
def Wraps (source : List UInt8) : Prop :=
  ∃ byte bytes rest, source = byte :: bytes ++ rest ∧ Encoding (byte :: bytes) ∧
    2 ^ 64 ≤ distanceValue (byte :: bytes) ∧ ¬ Exhausts (payload byte) bytes

/-- The offset distance is exact unless it is one of more than a word that meets no overflow of
    `checked_add` on the way. -/
theorem offsetDistance_exact_iff (source : List UInt8) :
    Exact offsetDistance distanceValue source ↔ ¬ Wraps source := by
  have hfirst (byte : UInt8) :
      (byte &&& 0x7f).toUInt64.toNat = payload byte % 2 ^ 64 := by
    have hpayload := payload_lt byte
    rw [toNat_payload, Nat.mod_eq_of_lt (by omega)]
  constructor
  · rintro hexact ⟨byte, bytes, rest, rfl, hencoding, hlarge, hbefore⟩
    have hread : offsetDistance (byte :: bytes ++ rest) =
        .ok (UInt64.ofNat (distanceValue (byte :: bytes)), rest) :=
      (distanceLoop_eq_ok (hfirst byte)).mpr
        ⟨bytes, hencoding, rfl, hbefore, UInt64.toNat_ofNat'⟩
    obtain ⟨bytes', hencoding', hsource, hnumber⟩ := hexact _ _ hread
    obtain ⟨rfl, -⟩ := encoding_unique hencoding hencoding' hsource
    have hfits := UInt64.toNat_lt (UInt64.ofNat (distanceValue (byte :: bytes)))
    omega
  · intro hshort number rest hread
    match source with
    | [] => cases hread
    | byte :: source =>
      obtain ⟨bytes, hencoding, rfl, hbefore, hnumber⟩ :=
        (distanceLoop_eq_ok (hfirst byte)).mp hread
      refine ⟨byte :: bytes, hencoding, rfl, ?_⟩
      have hsmall : distanceFrom (payload byte) bytes < 2 ^ 64 := by
        by_contra hlarge
        exact hshort ⟨byte, bytes, rest, rfl, hencoding, not_lt.mp hlarge, hbefore⟩
      rw [hnumber, Nat.mod_eq_of_lt hsmall]
      rfl

/-! ## The three decoders -/

/-- **Main theorem.** The decoders of a pack return what the bytes denote, or fail, unless the
    tenth byte of a size is the last one and has more than the bits that are left of the word, or
    the distance is one of more than a word that meets no overflow of `checked_add` on the way. -/
theorem varints_exact_iff (source : List UInt8) :
    (Exact objectSize sizeValue source ↔ ¬ Overlong 9 16 source) ∧
    (Exact offsetDistance distanceValue source ↔ ¬ Wraps source) ∧
    (Exact deltaVarint deltaValue source ↔ ¬ Overlong 9 2 source) :=
  ⟨objectSize_exact_iff source, offsetDistance_exact_iff source, deltaVarint_exact_iff source⟩

/-- A size, a distance and a delta size of `2 ^ 64 + 1` are read as `1`. -/
theorem varints_not_exact :
    (¬ ∀ source, Exact objectSize sizeValue source) ∧
    (¬ ∀ source, Exact offsetDistance distanceValue source) ∧
    (¬ ∀ source, Exact deltaVarint deltaValue source) := by
  refine ⟨fun h => ?_, fun h => ?_, fun h => ?_⟩
  · refine (objectSize_exact_iff _).mp
      (h [0xb1, 0x80, 0x80, 0x80, 0x80, 0x80, 0x80, 0x80, 0x80, 0x10]) ?_
    exact ⟨[0xb1, 0x80, 0x80, 0x80, 0x80, 0x80, 0x80, 0x80, 0x80], 0x10, [], rfl, rfl, by simp,
      by decide, by decide⟩
  · refine (offsetDistance_exact_iff _).mp
      (h [0x80, 0xfe, 0xfe, 0xfe, 0xfe, 0xfe, 0xfe, 0xfe, 0xff, 0x01]) ?_
    refine ⟨0x80, [0xfe, 0xfe, 0xfe, 0xfe, 0xfe, 0xfe, 0xfe, 0xff, 0x01], [], rfl, ?_, by decide,
      ?_⟩
    · exact encoding_iff.mpr ⟨[0x80, 0xfe, 0xfe, 0xfe, 0xfe, 0xfe, 0xfe, 0xfe, 0xff], 0x01, rfl,
        by simp, by decide⟩
    · simp [exhausts_cons, not_exhausts_nil, payload]
  · refine (deltaVarint_exact_iff _).mp
      (h [0x81, 0x80, 0x80, 0x80, 0x80, 0x80, 0x80, 0x80, 0x80, 0x02]) ?_
    exact ⟨[0x81, 0x80, 0x80, 0x80, 0x80, 0x80, 0x80, 0x80, 0x80], 0x02, [], rfl, rfl, by simp,
      by decide, by decide⟩

end Varint

end Mrml.Git
