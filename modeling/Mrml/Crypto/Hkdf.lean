import Mrml.Common.Bytes
import Mrml.Crypto.Sha256

/-!
# HKDF

Model of `crates/mrml-crypto/src/hkdf.rs` for outputs and labels within its limits, which all
callers keep.
-/

namespace Mrml.Crypto

/-- `hkdf_extract` (lines 3–5). -/
def hkdfExtract (salt input : List UInt8) : List UInt8 := hmacSha256 salt [input]

/-- The loop of `hkdf_expand` (lines 13–18): this many chunks of 32 bytes. -/
def expandLoop (secret info : List UInt8) : ℕ → ℕ → List UInt8 → List UInt8
  | 0, _, _ => []
  | chunks + 1, index, previous =>
    let previous := hmacSha256 secret [previous, info, [UInt8.ofNat (index + 1)]]
    previous ++ expandLoop secret info chunks (index + 1) previous

/-- `hkdf_expand` (lines 7–20) into an output of `len` bytes. -/
def hkdfExpand (secret info : List UInt8) (len : ℕ) : List UInt8 :=
  (expandLoop secret info ((len + 31) / 32) 0 []).take len

/-- The prefix of every label (line 23). -/
def labelPrefix : List UInt8 := "tls13 ".toList.map fun c => UInt8.ofNat c.toNat

/-- `hkdf_expand_label` (lines 22–43) into an output of `len` bytes. -/
def hkdfExpandLabel (secret label context : List UInt8) (len : ℕ) : List UInt8 :=
  let info := beBytes 2 len ++ UInt8.ofNat (labelPrefix.length + label.length) ::
    (labelPrefix ++ label ++ UInt8.ofNat context.length :: context)
  hkdfExpand secret info len

theorem length_expandLoop (secret info : List UInt8) (chunks index : ℕ) (previous : List UInt8) :
    (expandLoop secret info chunks index previous).length = 32 * chunks := by
  induction chunks generalizing index previous with
  | zero => rfl
  | succ chunks ih =>
    rw [expandLoop, List.length_append, length_hmacSha256, ih]
    omega

@[simp] theorem length_hkdfExpandLabel (secret label context : List UInt8) (len : ℕ) :
    (hkdfExpandLabel secret label context len).length = len := by
  rw [hkdfExpandLabel, hkdfExpand, List.length_take, length_expandLoop]
  omega

end Mrml.Crypto
