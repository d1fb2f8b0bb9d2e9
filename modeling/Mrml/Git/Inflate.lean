import Mrml.Common.Bytes
import Mrml.Common.Checked

/-!
# DEFLATE streams

Model of `crates/mrml-git/src/inflate.rs`: the bit reader, the three kinds of blocks and the zlib
framing. A step of a loop reads at least one bit, and the loops recurse on the bits that are left.

Results:
* `adler_sums_fit`: the sums of `adler` stay in `u32`.
* `block_stored`: a stored block is read back.
* `inflateZlib_stored`: a stream of stored blocks is accepted with its checksum.
-/

namespace Mrml.Git

/-- `InflateError` (lines 19–28). -/
inductive InflateError
  | truncated
  | header
  | block
  | code
  | distance
  | tooLarge
  | checksum
deriving DecidableEq

namespace Inflate

/-! ## Bits -/

/-- `Bits` (lines 29–34): the source, the next byte, and the `n` bits of `v` that are left of the
    bytes before. At most 23 bits are held. -/
structure Bits where
  s : List UInt8
  p : ℕ
  v : ℕ
  n : ℕ

/-- A step that reads bits. -/
abbrev Reading (α : Type) := StateT Bits (Except InflateError) α

/-- A step that fails or does not read. -/
def lift {α : Type} (x : Except InflateError α) : Reading α := fun b => do return (← x, b)

namespace Bits

/-- `Bits::new` (lines 36–43). -/
def new (s : List UInt8) : Bits := ⟨s, 0, 0, 0⟩

/-- The bits that are not read yet. -/
def remaining (b : Bits) : ℕ := 8 * (b.s.length - b.p) + b.n

/-- The loop of `Bits::read` (lines 45–50). -/
def refill (b : Bits) (n : ℕ) : Except InflateError Bits :=
  if b.n < n then
    match b.s[b.p]? with
    | none => .error .truncated
    | some byte =>
      refill { b with p := b.p + 1, v := b.v ||| byte.toNat <<< b.n, n := b.n + 8 } n
  else .ok b
termination_by n - b.n

theorem remaining_refill {b b' : Bits} {n : ℕ} (h : refill b n = .ok b') :
    b'.remaining = b.remaining ∧ n ≤ b'.n := by
  fun_induction refill b n with
  | case1 b _ _ => cases h
  | case2 b hlt byte hbyte ih =>
    obtain ⟨hremaining, hn⟩ := ih h
    have hp := (List.getElem?_eq_some_iff.mp hbyte).1
    refine ⟨?_, hn⟩
    rw [hremaining, remaining, remaining]
    dsimp only
    omega
  | case3 b hle =>
    obtain rfl := Except.ok.inj h
    exact ⟨rfl, not_lt.mp hle⟩

end Bits

/-- `Bits::read` (lines 44–56). -/
def read (n : ℕ) : Reading ℕ := fun b => do
  let b ← b.refill n
  let mask := if n = 0 then 0 else 1 <<< n - 1
  return (b.v &&& mask, { b with v := b.v >>> n, n := b.n - n })

/-- `Bits::align` (lines 57–60). -/
def align : Reading Unit := fun b => .ok ((), { b with v := 0, n := 0 })

/-- The step takes at least `k` bits. -/
def Takes {α : Type} (k : ℕ) (x : Reading α) : Prop :=
  ∀ b a b', x b = .ok (a, b') → b'.remaining + k ≤ b.remaining

section Takes

variable {α β : Type} {k m : ℕ}

theorem bind_apply (x : Reading α) (f : α → Reading β) (b : Bits) :
    (x >>= f) b = x b >>= fun result => f result.1 result.2 := rfl

theorem bind_of_eq {x : Reading α} {f : α → Reading β} {b b' : Bits} {a : α}
    (h : x b = .ok (a, b')) : (x >>= f) b = f a b' := by
  rw [bind_apply, h, ok_bind]

theorem lift_of_eq {x : Except InflateError α} {a : α} (h : x = .ok a) (b : Bits) :
    lift x b = .ok (a, b) := by
  rw [lift, h]
  rfl

theorem Takes.bind {x : Reading α} {f : α → Reading β} (hx : Takes k x)
    (hf : ∀ a, Takes m (f a)) : Takes (k + m) (x >>= f) := by
  intro b c b' h
  rw [bind_apply, bind_eq_ok] at h
  obtain ⟨⟨a, b₁⟩, hxb, hfb⟩ := h
  have hfirst := hx b a b₁ hxb
  have hsecond := hf a b₁ c b' hfb
  omega

theorem Takes.mono {x : Reading α} (h : Takes k x) (hle : m ≤ k) : Takes m x := by
  intro b a b' hb
  have hk := h b a b' hb
  omega

theorem takes_pure (a : α) : Takes 0 (pure a : Reading α) := by
  intro b a' b' h
  obtain ⟨-, rfl⟩ := Prod.mk.inj (Except.ok.inj h)
  exact le_rfl

theorem takes_lift (x : Except InflateError α) : Takes 0 (lift x) := by
  intro b a b' h
  obtain ⟨_, -, h⟩ := bind_eq_ok.mp h
  obtain ⟨-, rfl⟩ := Prod.mk.inj (Except.ok.inj h)
  exact le_rfl

/-- A read takes its bits. -/
theorem takes_read (n : ℕ) : Takes n (read n) := by
  intro b a b' h
  obtain ⟨b₁, hb₁, h⟩ := bind_eq_ok.mp h
  obtain ⟨-, rfl⟩ := Prod.mk.inj (Except.ok.inj h)
  obtain ⟨hremaining, hn⟩ := Bits.remaining_refill hb₁
  rw [← hremaining, Bits.remaining, Bits.remaining]
  dsimp only
  omega

theorem takes_align : Takes 0 align := by
  intro b a b' h
  obtain ⟨-, rfl⟩ := Prod.mk.inj (Except.ok.inj h)
  rw [Bits.remaining, Bits.remaining]
  dsimp only
  omega

end Takes

/-! ## Huffman codes -/

/-- `Huff` (lines 62–65). -/
structure Huff where
  count : List ℕ
  symbols : List ℕ

/-- `Huff::build` (lines 67–99). -/
def Huff.build (lengths : List ℕ) : Except InflateError Huff := do
  let count ← lengths.foldlM (fun (count : List ℕ) n =>
    if n > 15 then .error .code else .ok (count.modify n (· + 1))) (List.replicate 16 0)
  refuseIf (count.getD 0 0 = lengths.length) .code
  let _ ← (count.drop 1).foldlM (fun (left : ℤ) n =>
    if 2 * left - n < 0 then .error .code else .ok (2 * left - n)) 1
  let off := (List.range' 1 14).foldl (fun (off : List ℕ) n =>
    off.set (n + 1) (off.getD n 0 + count.getD n 0)) (List.replicate 16 0)
  let filled := lengths.zipIdx.foldl (fun (state : List ℕ × List ℕ) entry =>
    if entry.1 ≠ 0 then
      (state.1.set (state.2.getD entry.1 0) entry.2,
        state.2.set entry.1 (state.2.getD entry.1 0 + 1))
    else state) (List.replicate (lengths.length - count.getD 0 0) 0, off)
  return ⟨count, filled.1⟩

/-- The loop of `Huff::decode` (lines 102–117) for the lengths from `n` on. -/
def Huff.decodeFrom (huff : Huff) : ℕ → ℕ → ℕ → ℕ → ℕ → Reading ℕ
  | 0, _, _, _, _ => lift (.error .code)
  | fuel + 1, n, code, first, index => do
    let bit ← read 1
    let code := code ||| bit
    let count := huff.count.getD n 0
    if code < first + count then lift (okOr huff.symbols[index + code - first]? .code)
    else huff.decodeFrom fuel (n + 1) (code <<< 1) ((first + count) <<< 1) (index + count)

/-- `Huff::decode` (lines 100–118). The code lengths are `1..=15`. -/
def Huff.decode (huff : Huff) : Reading ℕ := huff.decodeFrom 15 1 0 0 0

theorem takes_decodeFrom (huff : Huff) (fuel n code first index : ℕ) :
    Takes 1 (huff.decodeFrom fuel n code first index) := by
  induction fuel generalizing n code first index with
  | zero => nofun
  | succ fuel ih =>
    unfold Huff.decodeFrom
    refine (takes_read 1).bind (m := 0) fun bit => ?_
    dsimp only
    split_ifs
    · exact takes_lift _
    · exact (ih _ _ _ _).mono (Nat.zero_le 1)

/-- A symbol takes at least one bit. -/
theorem takes_decode (huff : Huff) : Takes 1 huff.decode := takes_decodeFrom huff _ _ _ _ _

/-! ## Blocks -/

/-- `room` (lines 175–181). -/
def room (out : List UInt8) (n : ℕ) : Except InflateError Unit :=
  refuseIf (out.length + n > 512 * 1024 * 1024) .tooLarge

/-- `for _ in 0..n { out.push(b.read(8)? as u8) }`. -/
def pushBytes : ℕ → List UInt8 → Reading (List UInt8)
  | 0, out => pure out
  | n + 1, out => do
    let byte ← read 8
    pushBytes n (out ++ [UInt8.ofNat byte])

/-- `stored` (lines 182–193). `!n & 65535` of a number of 16 bits is `65535 - n`. -/
def stored (out : List UInt8) : Reading (List UInt8) := do
  align
  let n ← read 16
  let complement ← read 16
  lift (refuseIf (complement ≠ 65535 - n) .block)
  lift (room out n)
  pushBytes n out

/-- `fixed` (lines 194–201). -/
def fixed : Except InflateError (Huff × Huff) := do
  let literals ← Huff.build (List.replicate 144 8 ++ List.replicate 112 9 ++
    List.replicate 24 7 ++ List.replicate 8 8)
  let distances ← Huff.build (List.replicate 32 5)
  return (literals, distances)

/-- `order` (lines 209–211). -/
def order : List ℕ := [16, 17, 18, 0, 8, 7, 9, 6, 10, 5, 11, 4, 12, 3, 13, 2, 14, 1, 15]

/-- `for i in 0..nc { cl[order[i]] = b.read(3)? as u8 }`. -/
def readOrder (nc : ℕ) : Reading (List ℕ) :=
  (order.take nc).foldlM (fun cl index => do return cl.set index (← read 3)) (List.replicate 19 0)

/-- `repeat` (lines 245–253). -/
def repeatLength (lengths : List ℕ) (x n total : ℕ) : Except InflateError (List ℕ) := do
  refuseIf (lengths.length + n > total) .code
  return lengths ++ List.replicate n x

/-- One turn of the loop over the code lengths (lines 219–235). -/
def lengthStep (ch : Huff) (total : ℕ) (lengths : List ℕ) : Reading (List ℕ) := do
  let v ← ch.decode
  if v ≤ 15 then return lengths ++ [v]
  else if v = 16 then do
    let p ← lift (okOr lengths.getLast? .code)
    let n ← read 2
    lift (repeatLength lengths p (n + 3) total)
  else if v = 17 then do
    let n ← read 3
    lift (repeatLength lengths 0 (n + 3) total)
  else if v = 18 then do
    let n ← read 7
    lift (repeatLength lengths 0 (n + 11) total)
  else lift (.error .code)

theorem takes_lengthStep (ch : Huff) (total : ℕ) (lengths : List ℕ) :
    Takes 1 (lengthStep ch total lengths) := by
  have hread (n x more : ℕ) :
      Takes 0 (read n >>= fun k => lift (repeatLength lengths x (k + more) total)) :=
    ((takes_read n).bind (m := 0) fun _ => takes_lift _).mono (Nat.zero_le _)
  refine (takes_decode ch).bind (m := 0) fun v => ?_
  split_ifs
  · exact takes_pure _
  · exact (takes_lift _).bind (m := 0) fun p => hread 2 p 3
  · exact hread 3 0 3
  · exact hread 7 0 11
  · exact takes_lift _

/-- The loop over the code lengths (lines 218–236). -/
def readLengths (ch : Huff) (total : ℕ) (lengths : List ℕ) (b : Bits) :
    Except InflateError (List ℕ × Bits) :=
  if lengths.length < total then
    match _h : lengthStep ch total lengths b with
    | .error error => .error error
    | .ok (lengths, b') => readLengths ch total lengths b'
  else .ok (lengths, b)
termination_by b.remaining
decreasing_by exact Nat.lt_of_succ_le (takes_lengthStep ch total _ b _ b' _h)

/-- `dynamic` (lines 202–244). -/
def dynamic : Reading (Huff × Huff) := do
  let nl := (← read 5) + 257
  let nd := (← read 5) + 1
  let nc := (← read 4) + 4
  lift (refuseIf (nl > 286 ∨ nd > 30) .code)
  let cl ← readOrder nc
  let ch ← lift (Huff.build cl)
  let lengths ← readLengths ch (nl + nd) []
  lift (refuseIf (lengths.getD 256 0 = 0) .code)
  let literals ← lift (Huff.build (lengths.take nl))
  let distances ← lift (Huff.build (lengths.drop nl))
  return (literals, distances)

/-- `LB` (lines 3–6). -/
def lengthBase : List ℕ :=
  [3, 4, 5, 6, 7, 8, 9, 10, 11, 13, 15, 17, 19, 23, 27, 31, 35, 43, 51, 59, 67, 83, 99, 115, 131,
    163, 195, 227, 258]

/-- `LE` (lines 7–9). -/
def lengthExtra : List ℕ :=
  [0, 0, 0, 0, 0, 0, 0, 0, 1, 1, 1, 1, 2, 2, 2, 2, 3, 3, 3, 3, 4, 4, 4, 4, 5, 5, 5, 5, 0]

/-- `DB` (lines 10–13). -/
def distanceBase : List ℕ :=
  [1, 2, 3, 4, 5, 7, 9, 13, 17, 25, 33, 49, 65, 97, 129, 193, 257, 385, 513, 769, 1025, 1537,
    2049, 3073, 4097, 6145, 8193, 12289, 16385, 24577]

/-- `DE` (lines 14–17). -/
def distanceExtra : List ℕ :=
  [0, 0, 0, 0, 1, 1, 2, 2, 3, 3, 4, 4, 5, 5, 6, 6, 7, 7, 8, 8, 9, 9, 10, 10, 11, 11, 12, 12, 13,
    13]

/-- `for _ in 0..n { out.push(out[out.len() - distance]) }`. -/
def copyBack (distance : ℕ) : ℕ → List UInt8 → List UInt8
  | 0, out => out
  | n + 1, out => copyBack distance n (out ++ [out.getD (out.length - distance) 0])

/-- A match (lines 267–281). -/
def copyMatch (d : Huff) (i : ℕ) (out : List UInt8) : Reading (List UInt8) := do
  let n := lengthBase.getD i 0 + (← read (lengthExtra.getD i 0))
  let ds ← d.decode
  lift (refuseIf (ds ≥ 30) .distance)
  let distance := distanceBase.getD ds 0 + (← read (distanceExtra.getD ds 0))
  lift (refuseIf (distance = 0 ∨ distance > out.length) .distance)
  lift (room out n)
  return copyBack distance n out

/-- One turn of the loop of `compressed` (lines 260–284): whether the block goes on. -/
def compressedStep (l d : Huff) (out : List UInt8) : Reading (Bool × List UInt8) := do
  let v ← l.decode
  if v ≤ 255 then do
    lift (room out 1)
    return (true, out ++ [UInt8.ofNat v])
  else if v = 256 then return (false, out)
  else if v ≤ 285 then do
    let out ← copyMatch d (v - 257) out
    return (true, out)
  else lift (.error .code)

theorem takes_copyMatch (d : Huff) (i : ℕ) (out : List UInt8) : Takes 0 (copyMatch d i out) := by
  refine ((takes_read _).mono (Nat.zero_le _)).bind (m := 0) fun _ => ?_
  refine ((takes_decode d).mono (Nat.zero_le _)).bind (m := 0) fun _ => ?_
  refine (takes_lift _).bind (m := 0) fun _ => ?_
  refine ((takes_read _).mono (Nat.zero_le _)).bind (m := 0) fun _ => ?_
  refine (takes_lift _).bind (m := 0) fun _ => ?_
  exact (takes_lift _).bind (m := 0) fun _ => takes_pure _

theorem takes_compressedStep (l d : Huff) (out : List UInt8) :
    Takes 1 (compressedStep l d out) := by
  refine (takes_decode l).bind (m := 0) fun v => ?_
  split_ifs
  · exact (takes_lift _).bind (m := 0) fun _ => takes_pure _
  · exact takes_pure _
  · exact (takes_copyMatch _ _ _).bind (m := 0) fun _ => takes_pure _
  · exact takes_lift _

/-- `compressed` (lines 254–285). -/
def compressed (l d : Huff) (out : List UInt8) (b : Bits) :
    Except InflateError (List UInt8 × Bits) :=
  match _h : compressedStep l d out b with
  | .error error => .error error
  | .ok ((true, out), b') => compressed l d out b'
  | .ok ((false, out), b') => .ok (out, b')
termination_by b.remaining
decreasing_by exact Nat.lt_of_succ_le (takes_compressedStep l d _ b _ b' _h)

/-- One turn of the loop of `inflate_raw` (lines 156–172): whether the block is the last one. -/
def block (out : List UInt8) : Reading (Bool × List UInt8) := do
  let last ← read 1
  let kind ← read 2
  match kind with
  | 0 => do
    let out ← stored out
    return (decide (last ≠ 0), out)
  | 1 => do
    let (l, d) ← lift fixed
    let out ← compressed l d out
    return (decide (last ≠ 0), out)
  | 2 => do
    let (l, d) ← dynamic
    let out ← compressed l d out
    return (decide (last ≠ 0), out)
  | _ => lift (.error .block)

theorem takes_pushBytes (n : ℕ) (out : List UInt8) : Takes 0 (pushBytes n out) := by
  induction n generalizing out with
  | zero => exact takes_pure _
  | succ n ih => exact ((takes_read 8).mono (Nat.zero_le _)).bind (m := 0) fun _ => ih _

theorem takes_stored (out : List UInt8) : Takes 0 (stored out) := by
  refine takes_align.bind (m := 0) fun _ => ?_
  refine ((takes_read 16).mono (Nat.zero_le _)).bind (m := 0) fun _ => ?_
  refine ((takes_read 16).mono (Nat.zero_le _)).bind (m := 0) fun _ => ?_
  refine (takes_lift _).bind (m := 0) fun _ => ?_
  exact (takes_lift _).bind (m := 0) fun _ => takes_pushBytes _ _

theorem takes_compressed (l d : Huff) (out : List UInt8) : Takes 0 (compressed l d out) := by
  intro b result b' h
  fun_induction compressed l d out b with
  | case1 => cases h
  | case2 out b out' b₁ hstep ih =>
    have hfirst := takes_compressedStep l d out b _ b₁ hstep
    have hrest := ih h
    omega
  | case3 out b out' b₁ hstep =>
    obtain ⟨-, rfl⟩ := Prod.mk.inj (Except.ok.inj h)
    have hfirst := takes_compressedStep l d out b _ b₁ hstep
    omega

theorem takes_readLengths (ch : Huff) (total : ℕ) (lengths : List ℕ) :
    Takes 0 (readLengths ch total lengths) := by
  intro b result b' h
  fun_induction readLengths ch total lengths b with
  | case1 => cases h
  | case2 lengths b hlt lengths' b₁ hstep ih =>
    have hfirst := takes_lengthStep ch total lengths b _ b₁ hstep
    have hrest := ih h
    omega
  | case3 lengths b hle =>
    obtain ⟨-, rfl⟩ := Prod.mk.inj (Except.ok.inj h)
    exact le_rfl

theorem takes_readOrder (nc : ℕ) : Takes 0 (readOrder nc) := by
  have hfold (indices cl : List ℕ) : Takes 0 (indices.foldlM
      (fun cl index => do return cl.set index (← read 3) : List ℕ → ℕ → Reading (List ℕ)) cl) := by
    induction indices generalizing cl with
    | nil => exact takes_pure _
    | cons index indices ih =>
      rw [List.foldlM_cons]
      refine Takes.bind (k := 0) (m := 0) ?_ fun cl => ih cl
      exact ((takes_read 3).mono (Nat.zero_le _)).bind (m := 0) fun _ => takes_pure _
  exact hfold _ _

theorem takes_dynamic : Takes 0 dynamic := by
  refine ((takes_read 5).mono (Nat.zero_le _)).bind (m := 0) fun _ => ?_
  refine ((takes_read 5).mono (Nat.zero_le _)).bind (m := 0) fun _ => ?_
  refine ((takes_read 4).mono (Nat.zero_le _)).bind (m := 0) fun _ => ?_
  refine (takes_lift _).bind (m := 0) fun _ => ?_
  refine (takes_readOrder _).bind (m := 0) fun _ => ?_
  refine (takes_lift _).bind (m := 0) fun _ => ?_
  refine (takes_readLengths _ _ _).bind (m := 0) fun _ => ?_
  refine (takes_lift _).bind (m := 0) fun _ => ?_
  refine (takes_lift _).bind (m := 0) fun _ => ?_
  exact (takes_lift _).bind (m := 0) fun _ => takes_pure _

/-- A block takes at least the bit that says whether it is the last one. -/
theorem takes_block (out : List UInt8) : Takes 1 (block out) := by
  have hafter {x : Reading (List UInt8)} (last : Bool) (hx : Takes 0 x) :
      Takes 0 (x >>= fun out => pure (last, out)) := hx.bind (m := 0) fun _ => takes_pure _
  refine (takes_read 1).bind (m := 0) fun last => ?_
  refine ((takes_read 2).mono (Nat.zero_le _)).bind (m := 0) fun kind => ?_
  split
  · exact hafter _ (takes_stored out)
  · exact (takes_lift _).bind (m := 0) fun _ => hafter _ (takes_compressed _ _ _)
  · exact takes_dynamic.bind (m := 0) fun _ => hafter _ (takes_compressed _ _ _)
  · exact takes_lift _

/-- The loop of `inflate_raw`. -/
def blocks (out : List UInt8) (b : Bits) : Except InflateError (List UInt8 × Bits) :=
  match _h : block out b with
  | .error error => .error error
  | .ok ((true, out), b') => .ok (out, b')
  | .ok ((false, out), b') => blocks out b'
termination_by b.remaining
decreasing_by exact Nat.lt_of_succ_le (takes_block _ b _ b' _h)

/-- `inflate_raw` (lines 153–174): the output, and the number of bytes that were read. -/
def inflateRaw (source : List UInt8) : Except InflateError (List UInt8 × ℕ) := do
  let (out, b) ← blocks [] (Bits.new source)
  return (out, b.p)

/-! ## The checksum -/

/-- One byte of the sums of `adler`. -/
def adlerByte (sums : ℕ × ℕ) (byte : UInt8) : ℕ × ℕ :=
  (sums.1 + byte.toNat, sums.2 + (sums.1 + byte.toNat))

/-- `s.chunks(n)`. -/
def chunks (n : ℕ) (s : List UInt8) : List (List UInt8) :=
  if _h : s = [] ∨ n = 0 then [] else s.take n :: chunks n (s.drop n)
termination_by s.length
decreasing_by
  rw [not_or] at _h
  have hpos := List.length_pos_iff.mpr _h.1
  rw [List.length_drop]
  omega

/-- One chunk of `adler`. -/
def adlerChunk (sums : ℕ × ℕ) (chunk : List UInt8) : ℕ × ℕ :=
  let sums := chunk.foldl adlerByte sums
  (sums.1 % 65521, sums.2 % 65521)

/-- `adler` (lines 286–297), and `adler32` of `object.rs` and `pack.rs`. -/
def adler (s : List UInt8) : ℕ :=
  let sums := (chunks 5552 s).foldl adlerChunk (1, 0)
  sums.2 <<< 16 ||| sums.1

/-! ## The zlib framing -/

/-- `inflate_zlib_prefix` (lines 127–151): the output, and the number of bytes that were read. -/
def inflateZlibPrefix (source : List UInt8) : Except InflateError (List UInt8 × ℕ) := do
  refuseIf (source.length < 6) .truncated
  let h := beNat (slice source 0 2)
  refuseIf (h % 31 ≠ 0 ∨ byteAt source 0 &&& 15 ≠ 8 ∨ byteAt source 0 >>> 4 > 7 ∨
    byteAt source 1 &&& 0x20 ≠ 0) .header
  let (out, rawConsumed) ← inflateRaw (source.drop 2)
  let checksumStart := 2 + rawConsumed
  refuseIf (source.length < checksumStart + 4) .truncated
  refuseIf (adler out ≠ beNat (slice source checksumStart 4)) .checksum
  return (out, checksumStart + 4)

/-- `inflate_zlib` (lines 119–125). -/
def inflateZlib (source : List UInt8) : Except InflateError (List UInt8) := do
  let (output, consumed) ← inflateZlibPrefix source
  refuseIf (consumed ≠ source.length) .header
  return output

/-! ## The sums of the checksum -/

theorem adler_bound (bytes : List UInt8) (sums : ℕ × ℕ) :
    (bytes.foldl adlerByte sums).1 ≤ sums.1 + 255 * bytes.length ∧
      2 * (bytes.foldl adlerByte sums).2 ≤
        2 * sums.2 + 2 * bytes.length * sums.1 + 255 * bytes.length * (bytes.length + 1) := by
  induction bytes generalizing sums with
  | nil => simp
  | cons byte bytes ih =>
    obtain ⟨hfirst, hsecond⟩ := ih (adlerByte sums byte)
    have hbyte : byte.toNat ≤ 255 := by
      have hlt := byte.toNat_lt
      omega
    have hone : (adlerByte sums byte).1 = sums.1 + byte.toNat := rfl
    have htwo : (adlerByte sums byte).2 = sums.2 + (sums.1 + byte.toNat) := rfl
    rw [hone] at hfirst
    rw [hone, htwo] at hsecond
    rw [List.foldl_cons, List.length_cons]
    have hweight := Nat.mul_le_mul_left (bytes.length + 1) hbyte
    constructor
    · omega
    · nlinarith

/-- Within a chunk of `adler` no sum leaves `u32`. -/
theorem adler_fits {sums : ℕ × ℕ} (hfirst : sums.1 < 65521) (hsecond : sums.2 < 65521)
    {bytes : List UInt8} (hlength : bytes.length ≤ 5552) :
    (bytes.foldl adlerByte sums).1 < 2 ^ 32 ∧ (bytes.foldl adlerByte sums).2 < 2 ^ 32 := by
  obtain ⟨hone, htwo⟩ := adler_bound bytes sums
  have hsquare : bytes.length * (bytes.length + 1) ≤ 5552 * 5553 :=
    Nat.mul_le_mul hlength (by omega)
  have hproduct : bytes.length * sums.1 ≤ 5552 * 65520 := Nat.mul_le_mul hlength (by omega)
  have hsum : 2 * (bytes.foldl adlerByte sums).2 ≤
      2 * sums.2 + 2 * (bytes.length * sums.1) + 255 * (bytes.length * (bytes.length + 1)) := by
    calc 2 * (bytes.foldl adlerByte sums).2
        ≤ 2 * sums.2 + 2 * bytes.length * sums.1 + 255 * bytes.length * (bytes.length + 1) := htwo
      _ = 2 * sums.2 + 2 * (bytes.length * sums.1) +
          255 * (bytes.length * (bytes.length + 1)) := by ring
  constructor <;> omega

/-- The chunks of `adler` are short enough. -/
theorem length_of_mem_chunks {n : ℕ} {s chunk : List UInt8} (h : chunk ∈ chunks n s) :
    chunk.length ≤ n := by
  fun_induction chunks n s with
  | case1 => cases h
  | case2 s _ ih =>
    rcases List.mem_cons.mp h with rfl | h
    · exact List.length_take_le n s
    · exact ih h

theorem adlerChunks_lt (parts : List (List UInt8)) {sums : ℕ × ℕ}
    (h : sums.1 < 65521 ∧ sums.2 < 65521) :
    (parts.foldl adlerChunk sums).1 < 65521 ∧ (parts.foldl adlerChunk sums).2 < 65521 := by
  induction parts generalizing sums with
  | nil => exact h
  | cons part parts ih => exact ih ⟨Nat.mod_lt _ (by decide), Nat.mod_lt _ (by decide)⟩

theorem adler_lt (s : List UInt8) : adler s < 256 ^ 4 := by
  obtain ⟨hfirst, hsecond⟩ := @adlerChunks_lt (chunks 5552 s) (1, 0) (by decide)
  refine Nat.or_lt_two_pow (n := 32) ?_ (by omega)
  rw [Nat.shiftLeft_eq]
  omega

/-- **Main theorem.** Whatever `adler` has read, no sum has left `u32`. -/
theorem adler_sums_fit {s chunk bytes : List UInt8} {before rest : List (List UInt8)}
    (h : chunks 5552 s = before ++ chunk :: rest) (hbytes : bytes <+: chunk) :
    (bytes.foldl adlerByte (before.foldl adlerChunk (1, 0))).1 < 2 ^ 32 ∧
      (bytes.foldl adlerByte (before.foldl adlerChunk (1, 0))).2 < 2 ^ 32 := by
  have hmem : chunk ∈ chunks 5552 s := by simp [h]
  obtain ⟨hfirst, hsecond⟩ := @adlerChunks_lt before (1, 0) (by decide)
  exact adler_fits hfirst hsecond (hbytes.length_le.trans (length_of_mem_chunks hmem))

theorem adler_sums_fit_two : ([255].foldl adlerByte (1, 0)).1 < 2 ^ 32 ∧
    ([255].foldl adlerByte (1, 0)).2 < 2 ^ 32 :=
  have h : chunks 5552 [255, 7] = [] ++ [255, 7] :: [] := by simp [chunks]
  adler_sums_fit h ⟨[7], rfl⟩

/-! ## Reading at a byte boundary -/

theorem refill_of_le {b : Bits} {n : ℕ} (h : n ≤ b.n) : b.refill n = .ok b := by
  unfold Bits.refill
  rw [if_neg (by omega)]

theorem refill_of_lt {b : Bits} {n : ℕ} {byte : UInt8} (h : b.n < n) (hbyte : b.s[b.p]? = some byte) :
    b.refill n =
      Bits.refill { b with p := b.p + 1, v := b.v ||| byte.toNat <<< b.n, n := b.n + 8 } n := by
  rw [Bits.refill, if_pos h, hbyte]

/-- The reader at the byte `p`. -/
def Bits.start (s : List UInt8) (p : ℕ) : Bits := ⟨s, p, 0, 0⟩

theorem read_byte {s : List UInt8} {p n : ℕ} {byte : UInt8} (hbyte : s[p]? = some byte)
    (hpos : 0 < n) (hn : n ≤ 8) :
    read n (Bits.start s p) =
      .ok (byte.toNat % 2 ^ n, ⟨s, p + 1, byte.toNat / 2 ^ n, 8 - n⟩) := by
  have hrefill : (Bits.start s p).refill n = .ok ⟨s, p + 1, byte.toNat, 8⟩ := by
    rw [refill_of_lt hpos hbyte]
    simp only [Bits.start, Nat.zero_or, Nat.shiftLeft_zero, Nat.zero_add]
    exact refill_of_le hn
  unfold read
  rw [hrefill, ok_bind, if_neg (by omega)]
  simp only [Nat.one_shiftLeft, Nat.and_two_pow_sub_one_eq_mod, Nat.shiftRight_eq_div_pow]
  rfl

/-- A read of bits that are held. -/
theorem read_held {b : Bits} {n : ℕ} (hpos : 0 < n) (hn : n ≤ b.n) :
    read n b = .ok (b.v % 2 ^ n, { b with v := b.v / 2 ^ n, n := b.n - n }) := by
  unfold read
  rw [refill_of_le hn, ok_bind, if_neg (by omega)]
  simp only [Nat.one_shiftLeft, Nat.and_two_pow_sub_one_eq_mod, Nat.shiftRight_eq_div_pow]
  rfl

theorem read_word {s : List UInt8} {p : ℕ} {low high : UInt8} (hlow : s[p]? = some low)
    (hhigh : s[p + 1]? = some high) :
    read 16 (Bits.start s p) = .ok (low.toNat + 256 * high.toNat, Bits.start s (p + 2)) := by
  have hl := low.toNat_lt
  have hh := high.toNat_lt
  have hword : low.toNat ||| high.toNat <<< 8 = low.toNat + 256 * high.toNat := by
    rw [Nat.or_comm, Nat.shiftLeft_eq, Nat.mul_comm, ← Nat.two_pow_add_eq_or_of_lt hl]
    omega
  have hrefill : (Bits.start s p).refill 16 =
      .ok ⟨s, p + 2, low.toNat + 256 * high.toNat, 16⟩ := by
    have hempty : (Bits.start s p).n < 16 := (by decide : 0 < 16)
    rw [refill_of_lt hempty hlow]
    simp only [Bits.start, Nat.zero_or, Nat.shiftLeft_zero, Nat.zero_add]
    rw [refill_of_lt (by simp) hhigh]
    simp only [hword]
    exact refill_of_le le_rfl
  unfold read
  rw [hrefill, ok_bind, if_neg (by omega)]
  simp only [Nat.one_shiftLeft, Nat.and_two_pow_sub_one_eq_mod, Nat.shiftRight_eq_div_pow]
  rw [Nat.mod_eq_of_lt (by omega), Nat.div_eq_of_lt (by omega)]
  rfl

theorem getElem?_of_drop {s rest : List UInt8} {p : ℕ} {byte : UInt8}
    (h : s.drop p = byte :: rest) : s[p]? = some byte ∧ s.drop (p + 1) = rest := by
  constructor
  · have hget := congrArg (fun l => l[0]?) h
    simpa using hget
  · rw [← List.drop_drop, h]
    rfl

theorem pushBytes_eq {s chunk rest : List UInt8} {p : ℕ} (out : List UInt8)
    (h : s.drop p = chunk ++ rest) :
    pushBytes chunk.length out (Bits.start s p) =
      .ok (out ++ chunk, Bits.start s (p + chunk.length)) := by
  induction chunk generalizing p out with
  | nil =>
    rw [List.append_nil]
    rfl
  | cons byte chunk ih =>
    obtain ⟨hbyte, hrest⟩ := getElem?_of_drop h
    have hlt := byte.toNat_lt
    have hread : read 8 (Bits.start s p) = .ok (byte.toNat, Bits.start s (p + 1)) := by
      rw [read_byte hbyte (by decide) le_rfl, Nat.mod_eq_of_lt hlt, Nat.div_eq_of_lt hlt]
      rfl
    rw [List.length_cons, pushBytes, bind_apply, hread, ok_bind]
    dsimp only
    rw [ih _ hrest, UInt8.ofNat_toNat, List.append_assoc, List.singleton_append]
    congr 3
    omega

theorem read_leBytes {s rest : List UInt8} {p n : ℕ} (hn : n < 256 ^ 2)
    (h : s.drop p = leBytes 2 n ++ rest) :
    read 16 (Bits.start s p) = .ok (n, Bits.start s (p + 2)) ∧ s.drop (p + 2) = rest := by
  obtain ⟨hlow, hnext⟩ := getElem?_of_drop h
  obtain ⟨hhigh, hrest⟩ := getElem?_of_drop hnext
  refine ⟨?_, hrest⟩
  rw [read_word hlow hhigh]
  have hvalue := leNat_leBytes 2 n
  rw [Nat.mod_eq_of_lt hn] at hvalue
  exact congrArg (fun value => Except.ok (value, Bits.start s (p + 2))) hvalue

/-! ## Stored blocks -/

/-- The bytes of a stored block, the last one of its stream or not. -/
def storedBlock (last : Bool) (chunk : List UInt8) : List UInt8 :=
  (if last then 1 else 0) :: (leBytes 2 chunk.length ++ (leBytes 2 (65535 - chunk.length) ++ chunk))

theorem length_storedBlock (last : Bool) (chunk : List UInt8) :
    (storedBlock last chunk).length = 5 + chunk.length := by
  rw [storedBlock, List.length_cons, List.length_append, List.length_append, length_leBytes,
    length_leBytes]
  omega

theorem stored_eq {s chunk rest out : List UInt8} {p v n : ℕ} (hlength : chunk.length ≤ 65535)
    (hroom : out.length + chunk.length ≤ 512 * 1024 * 1024)
    (h : s.drop p = leBytes 2 chunk.length ++ (leBytes 2 (65535 - chunk.length) ++
      (chunk ++ rest))) :
    stored out ⟨s, p, v, n⟩ = .ok (out ++ chunk, Bits.start s (p + 4 + chunk.length)) := by
  obtain ⟨hsize, hnext⟩ := read_leBytes (by omega) h
  obtain ⟨hcomplement, hnext⟩ := read_leBytes (by omega) hnext
  have halign : align ⟨s, p, v, n⟩ = .ok ((), Bits.start s p) := rfl
  have hfits : room out chunk.length = .ok () := refuseIf_of_not (not_lt.mpr hroom)
  unfold stored
  rw [bind_of_eq halign, bind_of_eq hsize, bind_of_eq hcomplement,
    bind_of_eq (lift_of_eq (refuseIf_of_not (not_not.mpr rfl)) _), bind_of_eq (lift_of_eq hfits _)]
  exact pushBytes_eq out hnext

/-- A stored block is read back. -/
theorem block_stored {s chunk rest out : List UInt8} {p : ℕ} (last : Bool)
    (hlength : chunk.length ≤ 65535) (hroom : out.length + chunk.length ≤ 512 * 1024 * 1024)
    (h : s.drop p = storedBlock last chunk ++ rest) :
    block out (Bits.start s p) =
      .ok ((last, out ++ chunk), Bits.start s (p + (storedBlock last chunk).length)) := by
  obtain ⟨hfirst, hnext⟩ := getElem?_of_drop h
  have hlast : read 1 (Bits.start s p) = .ok (last.toNat, ⟨s, p + 1, 0, 7⟩) := by
    rw [read_byte hfirst Nat.one_pos (by decide)]
    cases last <;> rfl
  have hkind : read 2 ⟨s, p + 1, 0, 7⟩ = .ok (0, ⟨s, p + 1, 0, 5⟩) := by
    have hheld : 2 ≤ (⟨s, p + 1, 0, 7⟩ : Bits).n := (by decide : 2 ≤ 7)
    rw [read_held Nat.two_pos hheld, Nat.zero_mod, Nat.zero_div]
    rfl
  have hbody : s.drop (p + 1) = leBytes 2 chunk.length ++ (leBytes 2 (65535 - chunk.length) ++
      (chunk ++ rest)) := by
    rw [hnext, List.append_eq, List.append_assoc, List.append_assoc]
  have hstored : stored out ⟨s, p + 1, 0, 5⟩ = _ := stored_eq hlength hroom hbody
  unfold block
  rw [bind_of_eq hlast, bind_of_eq hkind]
  show (stored out >>= fun out => pure (decide (last.toNat ≠ 0), out)) _ = _
  rw [bind_of_eq hstored, length_storedBlock]
  have hflag : decide (last.toNat ≠ 0) = last := by cases last <;> rfl
  have hend : p + 1 + 4 + chunk.length = p + (5 + chunk.length) := by omega
  rw [hflag, hend]
  rfl

/-- A stream of stored blocks, the last one of which says so. -/
inductive StoredStream : List UInt8 → List UInt8 → Prop
  | last {chunk : List UInt8} (h : chunk.length ≤ 65535) :
      StoredStream chunk (storedBlock true chunk)
  | more {chunk plain stream : List UInt8} (h : chunk.length ≤ 65535)
      (rest : StoredStream plain stream) :
      StoredStream (chunk ++ plain) (storedBlock false chunk ++ stream)

/-- **Run lemma.** A stream of stored blocks is read to its end. -/
theorem blocks_stored {s plain stream rest out : List UInt8} {p : ℕ}
    (hstream : StoredStream plain stream)
    (hroom : out.length + plain.length ≤ 512 * 1024 * 1024) (h : s.drop p = stream ++ rest) :
    blocks out (Bits.start s p) = .ok (out ++ plain, Bits.start s (p + stream.length)) := by
  induction hstream generalizing out p with
  | last hlength =>
    rw [blocks, block_stored true hlength hroom h]
  | @more chunk plain stream hlength _ ih =>
    rw [List.length_append] at hroom
    rw [List.append_assoc] at h
    have hnext : s.drop (p + (storedBlock false chunk).length) = stream ++ rest := by
      rw [← List.drop_drop, h, List.drop_left]
    rw [blocks, block_stored false hlength (by omega) h]
    dsimp only
    rw [ih (by rw [List.length_append]; omega) hnext, List.append_assoc, List.length_append,
      Nat.add_assoc]

/-- A zlib stream of stored blocks with its checksum is read back. -/
theorem inflateZlib_stored {plain stream : List UInt8} (hstream : StoredStream plain stream)
    (hroom : plain.length ≤ 512 * 1024 * 1024) :
    inflateZlib ([0x78, 0x01] ++ stream ++ beBytes 4 (adler plain)) = .ok plain := by
  obtain ⟨checksum, hchecksum⟩ : ∃ checksum, checksum = beBytes 4 (adler plain) := ⟨_, rfl⟩
  rw [← hchecksum]
  have hfour : checksum.length = 4 := by rw [hchecksum, length_beBytes]
  have hraw : inflateRaw (stream ++ checksum) = .ok (plain, stream.length) := by
    have hblocks : blocks [] (Bits.start (stream ++ checksum) 0) =
        .ok ([] ++ plain, Bits.start (stream ++ checksum) (0 + stream.length)) :=
      blocks_stored hstream (by rwa [List.length_nil, Nat.zero_add]) rfl
    rw [Nat.zero_add] at hblocks
    unfold inflateRaw
    rw [show Bits.new (stream ++ checksum) = Bits.start (stream ++ checksum) 0 from rfl, hblocks]
    rfl
  have hlength : ([0x78, 0x01] ++ stream ++ checksum).length = 2 + stream.length + 4 := by
    rw [List.length_append, List.length_append, hfour]
    rfl
  have hslice : slice ([0x78, 0x01] ++ stream ++ checksum) (2 + stream.length) 4 = checksum := by
    have hdrop : ([0x78, 0x01] ++ stream ++ checksum).drop (2 + stream.length) = checksum :=
      List.drop_left' (List.length_append.trans rfl)
    rw [slice, hdrop, ← hfour, List.take_length]
  have hsum : beNat checksum = adler plain := by
    rw [hchecksum, beNat_beBytes, Nat.mod_eq_of_lt (adler_lt plain)]
  have hread : inflateZlibPrefix ([0x78, 0x01] ++ stream ++ checksum) =
      .ok (plain, 2 + stream.length + 4) := by
    unfold inflateZlibPrefix
    have hheader : slice ([0x78, 0x01] ++ stream ++ checksum) 0 2 = [0x78, 0x01] := rfl
    have hone : byteAt ([0x78, 0x01] ++ stream ++ checksum) 0 = 0x78 := rfl
    have htwo : byteAt ([0x78, 0x01] ++ stream ++ checksum) 1 = 0x01 := rfl
    have hrest : ([0x78, 0x01] ++ stream ++ checksum).drop 2 = stream ++ checksum := rfl
    rw [hheader, hone, htwo, hrest, hlength, refuseIf_of_not (by omega), ok_bind]
    dsimp only
    rw [refuseIf_of_not (by decide), ok_bind, hraw, ok_bind]
    dsimp only
    rw [refuseIf_of_not (by omega), ok_bind, hslice, hsum, refuseIf_of_not (not_not.mpr rfl), ok_bind]
    rfl
  unfold inflateZlib
  rw [hread, ok_bind]
  dsimp only
  rw [hlength, refuseIf_of_not (not_not.mpr rfl)]
  rfl

end Inflate

end Mrml.Git
