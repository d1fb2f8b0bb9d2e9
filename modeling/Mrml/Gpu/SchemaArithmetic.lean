import Mrml.Gpu.Schema

/-!
# The arithmetic of the executor schemas

A schema multiplies numbers that the guest chooses. Most products are checked. The plain ones are
of numbers whose product a check has bounded before, except `max_keys * 4` in the schema of
attention (`crates/mrml-kernel/src/virtual_gpu.rs`, line 3486), which is computed before a launch
with too many keys is refused.

Results:
* `safe_positiveI32Scalar_bind` and its companions: the rules for the arguments of a kernel.
* `executorSchema_safe_iff`: where a plain operator overflows.
* `executorSchema_arithmetic`: what this means for the decision.
-/

namespace Mrml.Gpu.Dispatch

open Calc

variable {β : Type} {d : Dispatch} {index : ℕ} {value : ℤ} {streaming : Bool}

/-! ## Arguments -/

/-- The scalar at `index` is a positive `i32`. -/
def PositiveI32 (d : Dispatch) (index : ℕ) (value : ℤ) : Prop :=
  ∃ bits, d.scalars[index]? = some ⟨.i32, bits⟩ ∧ value = bits.toNat ∧ 0 < value ∧ value ≤ maxI32

/-- The scalar at `index` is an `i32` that is not negative. -/
def NonnegativeI32 (d : Dispatch) (index : ℕ) (value : ℤ) : Prop :=
  ∃ bits, d.scalars[index]? = some ⟨.i32, bits⟩ ∧ value = bits.toNat ∧ value ≤ maxI32

/-- The scalar at `index` is a finite positive `f32`. -/
def PositiveF32 (d : Dispatch) (index : ℕ) : Prop :=
  ∃ bits, d.scalars[index]? = some ⟨.f32, bits⟩ ∧ IsFiniteF32 bits ∧ ¬ NonpositiveF32 bits

theorem PositiveI32.bounds (h : d.PositiveI32 index value) : 1 ≤ value ∧ value ≤ 2147483647 := by
  obtain ⟨bits, -, -, hpos, hle⟩ := h
  exact ⟨hpos, hle⟩

theorem NonnegativeI32.bounds (h : d.NonnegativeI32 index value) :
    0 ≤ value ∧ value ≤ 2147483647 := by
  obtain ⟨bits, -, rfl, hle⟩ := h
  exact ⟨Int.natCast_nonneg _, hle⟩

theorem PositiveI32.fitsIn (h : d.PositiveI32 index value) : FitsIn 31 value :=
  ⟨by have := h.bounds; omega, by have := h.bounds; omega⟩

theorem NonnegativeI32.fitsIn (h : d.NonnegativeI32 index value) : FitsIn 31 value :=
  ⟨h.bounds.1, by have := h.bounds; omega⟩

/-- `positive_i32_scalar` goes through for the positive scalars. -/
theorem positiveI32_iff {scalar : ScalarArg} (h : d.scalars[index]? = some scalar) :
    ¬ (scalar.kind ≠ .i32 ∨ scalar.bits = 0 ∨ (scalar.bits.toNat : ℤ) > maxI32) ↔
      d.PositiveI32 index scalar.bits.toNat := by
  have hpos : 0 < scalar.bits.toNat ↔ scalar.bits ≠ 0 := by
    rw [Nat.pos_iff_ne_zero, ne_eq, ← UInt32.toNat_zero, UInt32.toNat_inj]
  simp only [not_or, ne_eq, not_not, not_lt]
  constructor
  · rintro ⟨hkind, hne, hle⟩
    exact ⟨scalar.bits, by rw [h, ← hkind], rfl, Int.natCast_pos.mpr (hpos.mpr hne), hle⟩
  · rintro ⟨bits, hbits, -, hpositive, hle⟩
    obtain rfl := Option.some.inj (h.symm.trans hbits)
    exact ⟨rfl, hpos.mp (Int.natCast_pos.mp hpositive), hle⟩

theorem nonnegativeI32_iff {scalar : ScalarArg} (h : d.scalars[index]? = some scalar) :
    ¬ (scalar.kind ≠ .i32 ∨ (scalar.bits.toNat : ℤ) > maxI32) ↔
      d.NonnegativeI32 index scalar.bits.toNat := by
  simp only [not_or, ne_eq, not_not, not_lt]
  constructor
  · rintro ⟨hkind, hle⟩
    exact ⟨scalar.bits, by rw [h, ← hkind], rfl, hle⟩
  · rintro ⟨bits, hbits, -, hle⟩
    obtain rfl := Option.some.inj (h.symm.trans hbits)
    exact ⟨rfl, hle⟩

theorem positiveF32_iff {scalar : ScalarArg} (h : d.scalars[index]? = some scalar) :
    ¬ (scalar.kind ≠ .f32 ∨ ¬ IsFiniteF32 scalar.bits ∨ NonpositiveF32 scalar.bits) ↔
      d.PositiveF32 index := by
  simp only [not_or, ne_eq, not_not]
  constructor
  · rintro ⟨hkind, hfinite, hpositive⟩
    exact ⟨scalar.bits, by rw [h, ← hkind], hfinite, hpositive⟩
  · rintro ⟨bits, hbits, hfinite, hpositive⟩
    obtain rfl := Option.some.inj (h.symm.trans hbits)
    exact ⟨rfl, hfinite, hpositive⟩

@[simp] theorem safe_access_bind {f : BufferAccess → Calc GpuError β} :
    Safe (d.access index >>= f) ↔ ∀ access, d.accesses[index]? = some access → Safe (f access) :=
  safe_okOr_bind

@[simp] theorem safe_access : Safe (d.access index) := by
  unfold access Calc.okOr
  split
  · exact safe_fail _
  · exact safe_pure _

@[simp] theorem safe_positiveI32Scalar_bind {f : ℤ → Calc GpuError β} :
    Safe (d.positiveI32Scalar index >>= f) ↔
      ∀ value, d.PositiveI32 index value → 0 < value → FitsIn 31 value → Safe (f value) := by
  simp only [positiveI32Scalar, bind_assoc, safe_okOr_bind, safe_refuse_bind, safe_pure_bind]
  constructor
  · intro h value hvalue
    obtain ⟨bits, hbits, rfl, -⟩ := id hvalue
    exact fun _ _ => h _ hbits ((positiveI32_iff hbits).mpr hvalue)
  · intro h scalar hscalar haccepted
    have hvalue := (positiveI32_iff hscalar).mp haccepted
    exact h _ hvalue hvalue.bounds.1 hvalue.fitsIn

@[simp] theorem safe_nonnegativeI32Scalar_bind {f : ℤ → Calc GpuError β} :
    Safe (d.nonnegativeI32Scalar index >>= f) ↔
      ∀ value, d.NonnegativeI32 index value → FitsIn 31 value → Safe (f value) := by
  simp only [nonnegativeI32Scalar, bind_assoc, safe_okOr_bind, safe_refuse_bind, safe_pure_bind]
  constructor
  · intro h value hvalue
    obtain ⟨bits, hbits, rfl, -⟩ := id hvalue
    exact fun _ => h _ hbits ((nonnegativeI32_iff hbits).mpr hvalue)
  · intro h scalar hscalar haccepted
    have hvalue := (nonnegativeI32_iff hscalar).mp haccepted
    exact h _ hvalue hvalue.fitsIn

@[simp] theorem safe_positiveF32Scalar_bind {f : Unit → Calc GpuError β} :
    Safe (d.positiveF32Scalar index >>= f) ↔ (d.PositiveF32 index → Safe (f ())) := by
  simp only [positiveF32Scalar, bind_assoc, safe_okOr_bind, safe_refuse_bind]
  constructor
  · intro h hvalue
    obtain ⟨bits, hbits, -⟩ := id hvalue
    exact h _ hbits ((positiveF32_iff hbits).mpr hvalue)
  · intro h scalar hscalar haccepted
    exact h ((positiveF32_iff hscalar).mp haccepted)

/-- The batch of a kernel is its scalar, or 1. -/
def BatchI32 (d : Dispatch) (batched : Bool) (index : ℕ) (value : ℤ) : Prop :=
  if batched then d.PositiveI32 index value else value = 1

@[simp] theorem safe_batchScalar_bind {batched : Bool} {f : ℤ → Calc GpuError β} :
    Safe (d.batchScalar batched index >>= f) ↔
      ∀ value, d.BatchI32 batched index value → 0 < value → FitsIn 31 value → Safe (f value) := by
  unfold batchScalar BatchI32
  cases batched with
  | true => simp
  | false => simp [FitsIn]

@[simp] theorem safe_rmsNormAccesses : Safe d.rmsNormAccesses := by
  unfold rmsNormAccesses
  split_ifs <;> simp

/-- The dimensions of a mixture-of-experts kernel are `i32` values. -/
theorem safe_moeDimensions_bind {specialized : Bool} {first second : ℕ}
    {f : ℤ × ℤ × ℤ × ℤ → Calc GpuError β}
    (h : ∀ dimension expertDimension active batch, FitsIn 31 dimension →
      FitsIn 31 expertDimension → Safe (f (dimension, expertDimension, active, batch))) :
    Safe (d.moeDimensions specialized first second >>= f) := by
  unfold moeDimensions
  cases specialized with
  | true =>
    simp only [if_true, bind_assoc, safe_refuse_bind, safe_pure_bind]
    exact fun _ => h _ _ _ _ (by decide) (by decide)
  | false =>
    simp only [Bool.false_eq_true, if_false, bind_assoc, safe_refuse_bind,
      safe_positiveI32Scalar_bind, safe_pure_bind]
    exact fun _ _ _ _ hdimension _ _ _ hexpert _ _ _ _ _ _ _ _ => h _ _ _ _ hdimension hexpert

/-! ## Schemas without an overflow -/

/-- The bytes of so many words. -/
theorem fitsIn_words {n : ℤ} (h : FitsIn 32 n) : FitsIn 64 (n * 4) := by
  unfold FitsIn at *
  omega

theorem fitsIn_words_i32 {n : ℤ} (h : FitsIn 31 n) : FitsIn 64 (n * 4) := by
  unfold FitsIn at *
  omega

/-- The bytes of a row of quantised blocks. -/
theorem fitsIn_row {n : ℤ} (h : FitsIn 31 n) : FitsIn 64 (n / 32 * 18) := by
  unfold FitsIn at *
  omega

theorem validateQuantizedGemvSchema_safe (quantizedBlockBytes rowsPerGridBlock
    threadsPerBlock : ℤ) : Safe (d.validateQuantizedGemvSchema quantizedBlockBytes
      rowsPerGridBlock threadsPerBlock) := by
  simp [validateQuantizedGemvSchema]

theorem validateQkvQ4Schema_safe (batched : Bool) : Safe (d.validateQkvQ4Schema batched) := by
  simp +contextual [validateQkvQ4Schema, fitsIn_row, fitsIn_words]

theorem validateGegluQ4Schema_safe (batched : Bool) : Safe (d.validateGegluQ4Schema batched) := by
  simp +contextual [validateGegluQ4Schema, fitsIn_words]

theorem validateGemmQ40F32Schema_safe : Safe d.validateGemmQ40F32Schema := by
  simp [validateGemmQ40F32Schema]

theorem validateThreeF32ElementwiseSchema_safe : Safe d.validateThreeF32ElementwiseSchema := by
  simp [validateThreeF32ElementwiseSchema]

theorem validateEmbeddingF32Schema_safe : Safe d.validateEmbeddingF32Schema := by
  simp [validateEmbeddingF32Schema]

theorem validateEmbeddingQ80Schema_safe : Safe d.validateEmbeddingQ80Schema := by
  simp [validateEmbeddingQ80Schema]

theorem validateRmsNormF32Schema_safe : Safe d.validateRmsNormF32Schema := by
  refine safe_refuse_bind.mpr fun _ => safe_access_bind.mpr fun _ _ => ?_
  refine safe_bind safe_rmsNormAccesses fun _ => ?_
  simp

theorem validateRopeF32Schema_safe : Safe d.validateRopeF32Schema := by
  simp [validateRopeF32Schema]

theorem validateRouterLogitsSchema_safe : Safe d.validateRouterLogitsSchema := by
  simp +contextual [validateRouterLogitsSchema, fitsIn_words]

theorem validateRouterTop8Schema_safe : Safe d.validateRouterTop8Schema := by
  simp +contextual [validateRouterTop8Schema, fitsIn_words]

theorem validatePrepareFfnSchema_safe : Safe d.validatePrepareFfnSchema := by
  simp +contextual [validatePrepareFfnSchema, checkF32Accesses, fitsIn_words,
    fitsIn_words_i32]

theorem validateFinishFfnSchema_safe : Safe d.validateFinishFfnSchema := by
  simp +contextual [validateFinishFfnSchema, checkF32Accesses, fitsIn_words,
    fitsIn_words_i32]

theorem validateVocabTopkSchema_safe (generic : Bool) :
    Safe (d.validateVocabTopkSchema generic) := by
  simp +contextual [validateVocabTopkSchema, fitsIn_words, fitsIn_words_i32]

theorem validateMoeGateSchema_safe (selection : ValidatedExpertSelection) (specialized : Bool) :
    Safe (d.validateMoeGateSchema selection specialized) := by
  refine safe_moeDimensions_bind fun dimension expertDimension active batch hdimension _ => ?_
  simp +contextual [fitsIn_row hdimension, fitsIn_words]

theorem validateMoeDownSchema_safe (selection : ValidatedExpertSelection) (variant : UInt8) :
    Safe (d.validateMoeDownSchema selection variant) := by
  have hexperts : FitsIn 32 selection.experts.toNat := by
    have := selection.experts.toNat_lt
    constructor <;> omega
  refine safe_moeDimensions_bind fun dimension expertDimension active batch _ hexpert => ?_
  simp +contextual [fitsIn_row hexpert, fitsIn_words hexperts, fitsIn_words]

theorem moeExecutorSchema_safe (selection : ValidatedExpertSelection) :
    Safe (d.moeExecutorSchema selection) := by
  unfold moeExecutorSchema
  split
  · exact validateMoeGateSchema_safe selection false
  · exact validateMoeGateSchema_safe selection true
  · exact validateMoeDownSchema_safe selection 0
  · exact validateMoeDownSchema_safe selection 1
  · exact validateMoeDownSchema_safe selection 2
  · exact safe_fail _

/-- The number of the other members of a batch. -/
theorem fitsIn_pred {n : ℤ} (hpos : 0 < n) (h : FitsIn 31 n) : FitsIn 32 (n - 1) := by
  unfold FitsIn at *
  omega

theorem safe_checkPositions_bind {start batch : ℤ} {f : Unit → Calc GpuError β} (hpos : 0 < batch)
    (hbatch : FitsIn 31 batch) (hf : Safe (f ())) : Safe (checkPositions start batch >>= f) := by
  refine safe_bind ?_ fun _ => hf
  simp [checkPositions, fitsIn_pred hpos hbatch]

theorem bytesPerHead_safe {headDimension format : ℤ} (h : FitsIn 31 headDimension) :
    Safe (bytesPerHead headDimension format) := by
  unfold FitsIn at h
  unfold bytesPerHead
  split_ifs
  · exact safe_op.mpr ⟨by omega, by omega⟩
  · exact safe_op.mpr ⟨by omega, by omega⟩
  · exact safe_op.mpr ⟨by omega, by omega⟩
  · exact safe_fail _

theorem postprocessCacheBytes_safe {cacheCapacity kvHeads headDimension format : ℤ}
    (h : FitsIn 31 headDimension) :
    Safe (postprocessCacheBytes cacheCapacity kvHeads headDimension format) :=
  safe_bind (bytesPerHead_safe h) fun _ => by simp

theorem validateQkvPostprocessSchema_safe : Safe d.validateQkvPostprocessSchema := by
  refine safe_refuse_bind.mpr fun _ => ?_
  iterate 5 refine safe_access_bind.mpr fun _ _ => ?_
  iterate 2 refine safe_nonnegativeI32Scalar_bind.mpr fun _ _ _ => ?_
  iterate 2 refine safe_positiveI32Scalar_bind.mpr fun _ _ _ _ => ?_
  refine safe_positiveI32Scalar_bind.mpr fun headDimension hdimension _ hfits => ?_
  refine safe_positiveF32Scalar_bind.mpr fun _ => ?_
  refine safe_positiveI32Scalar_bind.mpr fun batch _ hpos hbatch => ?_
  refine safe_positiveI32Scalar_bind.mpr fun _ _ _ _ => ?_
  iterate 2 refine safe_nonnegativeI32Scalar_bind.mpr fun _ _ _ => ?_
  refine safe_refuse_bind.mpr fun _ => ?_
  iterate 2 refine safe_checkPositions_bind hpos hbatch ?_
  iterate 3 refine safe_check_bind.mpr fun _ => ?_
  refine safe_check_bind.mpr fun helements => ?_
  refine safe_op_bind.mpr ⟨fitsIn_words_i32 hfits, ?_⟩
  iterate 2 refine safe_bind (postprocessCacheBytes_safe hfits) fun _ => ?_
  refine safe_op_bind.mpr ⟨fitsIn_words helements, ?_⟩
  simp

/-! ## Attention -/

/-- The bytes of a cache whose elements are counted in 32 bits. -/
theorem attentionCacheBytes_safe (format : ℤ) {cacheCapacity kvHeads headDimension : ℤ}
    (hheads : FitsIn 32 (cacheCapacity * kvHeads)) (hdimension : FitsIn 31 headDimension)
    (helements : FitsIn 32 (cacheCapacity * kvHeads * headDimension)) :
    Safe (attentionCacheBytes (cacheCapacity * kvHeads * headDimension) cacheCapacity kvHeads
      headDimension format) := by
  have hblocks : cacheCapacity * kvHeads * (headDimension / 32) ≤
      cacheCapacity * kvHeads * headDimension :=
    mul_le_mul_of_nonneg_left (by unfold FitsIn at hdimension; omega) hheads.1
  have hnonneg : 0 ≤ cacheCapacity * kvHeads * (headDimension / 32) :=
    mul_nonneg hheads.1 (Int.ediv_nonneg hdimension.1 (by decide))
  unfold FitsIn at hheads helements
  unfold attentionCacheBytes
  split_ifs
  · exact safe_op.mpr ⟨by omega, by omega⟩
  · simp only [safe_op_bind, safe_op, FitsIn]
    exact ⟨⟨hheads.1, by omega⟩, ⟨hnonneg, by omega⟩, by omega, by omega⟩
  · simp only [safe_op_bind, safe_op, FitsIn]
    exact ⟨⟨hheads.1, by omega⟩, ⟨hnonneg, by omega⟩, by omega, by omega⟩
  · exact safe_fail _


/-- A launch of attention over at least 2^30 keys that passes every check before its shared memory
    is computed. -/
structure ManyKeys (d : Dispatch) (cacheStart batch heads kvHeads headDimension queryStride window
    cacheCapacity kFormat vFormat : ℤ) : Prop where
  shape : d.accesses.length = 4 ∧ d.scalars.length = 11 ∧ d.block.ints = (128, 1, 1)
  start : d.NonnegativeI32 0 cacheStart
  members : d.PositiveI32 1 batch
  queryHeads : d.PositiveI32 2 heads
  cacheHeads : d.PositiveI32 3 kvHeads
  dimension : d.PositiveI32 4 headDimension
  stride : d.PositiveI32 5 queryStride
  scale : d.PositiveF32 6
  limit : d.NonnegativeI32 7 window
  capacity : d.PositiveI32 8 cacheCapacity
  formats : d.NonnegativeI32 9 kFormat ∧ d.NonnegativeI32 10 vFormat
  positions : cacheStart + batch ≤ maxI32
  even : headDimension % 2 = 0
  groups : heads % kvHeads = 0
  width : heads * headDimension ≤ queryStride
  power : IsPowerOfTwo cacheCapacity
  output : FitsIn 32 (batch * (heads * headDimension))
  query : FitsIn 32 ((batch - 1) * queryStride + heads * headDimension)
  cache : FitsIn 32 (cacheCapacity * kvHeads * headDimension)
  keys : 2 ^ 30 ≤ cacheStart + batch
  unlimited : window = 0 ∨ 2 ^ 30 ≤ window

/-- The launches of plain attention with too many keys. -/
def PlainAttentionOverflows (d : Dispatch) : Prop :=
  d.kernel.id = 20 ∧ ∃ cacheStart batch heads kvHeads headDimension queryStride window
    cacheCapacity kFormat vFormat, d.ManyKeys cacheStart batch heads kvHeads headDimension
      queryStride window cacheCapacity kFormat vFormat

section Rules

variable {P : Prop} {e : GpuError}

theorem safeUnless_positiveI32Scalar_bind {f : ℤ → Calc GpuError β}
    (h : ∀ value, d.PositiveI32 index value → SafeUnless P e (f value)) :
    SafeUnless P e (d.positiveI32Scalar index >>= f) := by
  rw [positiveI32Scalar, bind_assoc]
  refine safeUnless_okOr_bind fun scalar hscalar => ?_
  rw [bind_assoc]
  exact safeUnless_refuse_bind fun haccepted => h _ ((positiveI32_iff hscalar).mp haccepted)

theorem safeUnless_nonnegativeI32Scalar_bind {f : ℤ → Calc GpuError β}
    (h : ∀ value, d.NonnegativeI32 index value → SafeUnless P e (f value)) :
    SafeUnless P e (d.nonnegativeI32Scalar index >>= f) := by
  rw [nonnegativeI32Scalar, bind_assoc]
  refine safeUnless_okOr_bind fun scalar hscalar => ?_
  rw [bind_assoc]
  refine safeUnless_refuse_bind fun haccepted => h _ ((nonnegativeI32_iff hscalar).mp haccepted)

theorem safeUnless_positiveF32Scalar_bind {f : Unit → Calc GpuError β}
    (h : d.PositiveF32 index → SafeUnless P e (f ())) :
    SafeUnless P e (d.positiveF32Scalar index >>= f) := by
  rw [positiveF32Scalar, bind_assoc]
  refine safeUnless_okOr_bind fun scalar hscalar => ?_
  exact safeUnless_refuse_bind fun haccepted => h ((positiveF32_iff hscalar).mp haccepted)

/-- The shared memory of plain attention may overflow. -/
theorem safeUnless_expectedShared_bind {keys : ℤ} {f : ℤ → Calc GpuError β}
    (hf : ∀ expected, Safe (f expected))
    (hover : streaming = false → ¬ FitsIn 32 (keys * 4) →
      P ∧ ∀ expected, (f expected).release = .error e ∧ (f expected).integers = .error e) :
    SafeUnless P e (expectedShared streaming keys >>= f) := by
  unfold expectedShared
  cases streaming with
  | true => exact .inl (hf 0)
  | false =>
    refine safeUnless_op_bind (fun _ => .inl (hf _)) fun hfits => ?_
    obtain ⟨hP, hrefused⟩ := hover rfl hfits
    exact ⟨hP, (hrefused _).1, (hrefused _).2⟩

end Rules

/-- The number of keys is too large for the product exactly from 2^30 on. -/
theorem maxKeys_overflow_iff {stop window : ℤ} (hstop : 0 < stop ∧ stop ≤ maxI32)
    (hwindow : 0 ≤ window ∧ window ≤ 2147483647) :
    ¬ FitsIn 32 (maxKeys stop window * 4) ↔ 2 ^ 30 ≤ stop ∧ (window = 0 ∨ 2 ^ 30 ≤ window) := by
  have hmax : maxI32 = 2147483647 := rfl
  unfold FitsIn maxKeys
  split_ifs <;> omega

/-- Attention overflows at most in its shared memory, and is refused then. -/
theorem validateAttentionSchema_safeUnless (hkernel : streaming = false → d.kernel.id = 20) :
    SafeUnless (streaming = false ∧ d.PlainAttentionOverflows) .invalidKernelSchema
      (d.validateAttentionSchema streaming) := by
  refine safeUnless_refuse_bind fun hshape => ?_
  iterate 4 refine safeUnless_okOr_bind fun _ _ => ?_
  refine safeUnless_nonnegativeI32Scalar_bind fun cacheStart hstart => ?_
  refine safeUnless_positiveI32Scalar_bind fun batch hbatch => ?_
  refine safeUnless_positiveI32Scalar_bind fun heads hheads => ?_
  refine safeUnless_positiveI32Scalar_bind fun kvHeads hkvHeads => ?_
  refine safeUnless_positiveI32Scalar_bind fun headDimension hdimension => ?_
  refine safeUnless_positiveI32Scalar_bind fun queryStride hstride => ?_
  refine safeUnless_positiveF32Scalar_bind fun hscale => ?_
  refine safeUnless_nonnegativeI32Scalar_bind fun window hwindow => ?_
  refine safeUnless_positiveI32Scalar_bind fun cacheCapacity hcapacity => ?_
  refine safeUnless_nonnegativeI32Scalar_bind fun kFormat hkFormat => ?_
  refine safeUnless_nonnegativeI32Scalar_bind fun vFormat hvFormat => ?_
  refine safeUnless_check_bind fun _ => ?_
  refine safeUnless_refuse_bind fun hpositions => ?_
  refine safeUnless_check_bind fun _ => ?_
  refine safeUnless_refuse_bind fun hvalues => ?_
  refine safeUnless_check_bind fun houtput => ?_
  refine safeUnless_op_bind (fun _ => ?_) fun hpred =>
    absurd (fitsIn_pred hbatch.bounds.1 hbatch.fitsIn) hpred
  refine safeUnless_check_bind fun _ => ?_
  refine safeUnless_check_bind fun hquery => ?_
  refine safeUnless_check_bind fun hcacheHeads => ?_
  refine safeUnless_check_bind fun hcache => ?_
  refine safeUnless_expectedShared_bind (fun expected => ?_) fun hplain hkeys => ?_
  · have hcacheBytes (format : ℤ) :=
      attentionCacheBytes_safe format hcacheHeads hdimension.fitsIn hcache
    refine safe_refuse_bind.mpr fun _ => ?_
    refine safe_op_bind.mpr ⟨fitsIn_words hquery, safe_refuse_bind.mpr fun _ => ?_⟩
    refine safe_bind (hcacheBytes _) fun _ => safe_refuse_bind.mpr fun _ => ?_
    refine safe_bind (hcacheBytes _) fun _ => safe_refuse_bind.mpr fun _ => ?_
    refine safe_op_bind.mpr ⟨fitsIn_words houtput, ?_⟩
    simp
  · have hpositive : 0 < cacheStart + batch := by
      have := hstart.bounds
      have := hbatch.bounds
      omega
    obtain ⟨hmany, hunlimited⟩ :=
      (maxKeys_overflow_iff ⟨hpositive, not_lt.mp hpositions⟩ hwindow.bounds).mp hkeys
    simp only [ne_eq, not_or, not_not, not_lt] at hshape hvalues hpositions
    obtain ⟨heven, hgroups, hwidth, hpower⟩ := hvalues
    refine ⟨⟨hplain, hkernel hplain, cacheStart, batch, heads, kvHeads, headDimension, queryStride,
      window, cacheCapacity, kFormat, vFormat, ?_⟩, fun expected => ?_⟩
    · constructor
      case shape => exact hshape
      case formats => exact ⟨hkFormat, hvFormat⟩
      all_goals assumption
    · -- there are too many keys for the specialised kernel as well
      have hmax : ¬ maxKeys (cacheStart + batch) window ≤ 8192 := by
        intro hle
        apply hkeys
        have := hwindow.bounds
        unfold FitsIn maxKeys at *
        split_ifs at * <;> omega
      have hrefused : streaming = decide (maxKeys (cacheStart + batch) window ≤ 8192 ∧
          kFormat = 0 ∧ vFormat = 0) ∨ (d.sharedMemory.toNat : ℤ) ≠ expected := by
        left
        rw [hplain, eq_comm, decide_eq_false_iff_not]
        exact fun hspecialized => hmax hspecialized.1
      simp only [Calc.refuse, if_pos hrefused]
      exact ⟨rfl, rfl⟩

section ManyKeys

variable {cacheStart batch heads kvHeads headDimension queryStride window cacheCapacity kFormat
  vFormat : ℤ}

/-- The intermediate results before the shared memory. -/
theorem ManyKeys.fits (h : d.ManyKeys cacheStart batch heads kvHeads headDimension queryStride
    window cacheCapacity kFormat vFormat) :
    FitsIn 32 (cacheStart + batch) ∧ FitsIn 32 (heads * headDimension) ∧
      FitsIn 32 ((batch - 1) * queryStride) ∧ FitsIn 32 (cacheCapacity * kvHeads) := by
  have hstart := h.start.bounds
  have hbatch := h.members.bounds
  have hheads := h.queryHeads.bounds
  have hkvHeads := h.cacheHeads.bounds
  have hdimension := h.dimension.bounds
  have hstride := h.stride.bounds
  have hcapacity := h.capacity.bounds
  have hpositions : cacheStart + batch ≤ 2147483647 := h.positions
  have hwidth := h.width
  have hnonneg : 0 ≤ heads * headDimension := mul_nonneg (by omega) (by omega)
  have hstrides : 0 ≤ (batch - 1) * queryStride := mul_nonneg (by omega) (by omega)
  have hcacheHeads : 0 ≤ cacheCapacity * kvHeads := mul_nonneg (by omega) (by omega)
  have hcache : cacheCapacity * kvHeads ≤ cacheCapacity * kvHeads * headDimension :=
    le_mul_of_one_le_right hcacheHeads hdimension.1
  obtain ⟨-, hquery⟩ := h.query
  obtain ⟨-, hcacheElements⟩ := h.cache
  exact ⟨⟨by omega, by omega⟩, ⟨hnonneg, by omega⟩, ⟨hstrides, by omega⟩, hcacheHeads, by omega⟩

/-- With too many keys, the size of the shared memory overflows. -/
theorem ManyKeys.not_safe (h : d.ManyKeys cacheStart batch heads kvHeads headDimension queryStride
    window cacheCapacity kFormat vFormat) : ¬ Safe (d.validateAttentionSchema false) := by
  intro hsafe
  obtain ⟨haccesses, hscalars, hblock⟩ := h.shape
  obtain ⟨hkFormat, hvFormat⟩ := h.formats
  obtain ⟨hstop, hwidth, hstrides, hcacheHeads⟩ := h.fits
  have haccess (index : ℕ) (hindex : index < 4) : ∃ access, d.accesses[index]? = some access :=
    ⟨_, List.getElem?_eq_getElem (haccesses ▸ hindex)⟩
  obtain ⟨query, hquery⟩ := haccess 0 (by decide)
  obtain ⟨kCache, hkCache⟩ := haccess 1 (by decide)
  obtain ⟨vCache, hvCache⟩ := haccess 2 (by decide)
  obtain ⟨output, houtput⟩ := haccess 3 (by decide)
  replace hsafe := safe_refuse_bind.mp hsafe (by simp [haccesses, hscalars, hblock])
  replace hsafe := safe_access_bind.mp hsafe query hquery
  replace hsafe := safe_access_bind.mp hsafe kCache hkCache
  replace hsafe := safe_access_bind.mp hsafe vCache hvCache
  replace hsafe := safe_access_bind.mp hsafe output houtput
  replace hsafe := safe_nonnegativeI32Scalar_bind.mp hsafe _ h.start h.start.fitsIn
  replace hsafe := safe_positiveI32Scalar_bind.mp hsafe _ h.members h.members.bounds.1
    h.members.fitsIn
  replace hsafe := safe_positiveI32Scalar_bind.mp hsafe _ h.queryHeads h.queryHeads.bounds.1
    h.queryHeads.fitsIn
  replace hsafe := safe_positiveI32Scalar_bind.mp hsafe _ h.cacheHeads h.cacheHeads.bounds.1
    h.cacheHeads.fitsIn
  replace hsafe := safe_positiveI32Scalar_bind.mp hsafe _ h.dimension h.dimension.bounds.1
    h.dimension.fitsIn
  replace hsafe := safe_positiveI32Scalar_bind.mp hsafe _ h.stride h.stride.bounds.1
    h.stride.fitsIn
  replace hsafe := safe_positiveF32Scalar_bind.mp hsafe h.scale
  replace hsafe := safe_nonnegativeI32Scalar_bind.mp hsafe _ h.limit h.limit.fitsIn
  replace hsafe := safe_positiveI32Scalar_bind.mp hsafe _ h.capacity h.capacity.bounds.1
    h.capacity.fitsIn
  replace hsafe := safe_nonnegativeI32Scalar_bind.mp hsafe _ hkFormat hkFormat.fitsIn
  replace hsafe := safe_nonnegativeI32Scalar_bind.mp hsafe _ hvFormat hvFormat.fitsIn
  replace hsafe := safe_check_bind.mp hsafe hstop
  replace hsafe := safe_refuse_bind.mp hsafe (not_lt.mpr h.positions)
  replace hsafe := safe_check_bind.mp hsafe hwidth
  replace hsafe := safe_refuse_bind.mp hsafe (by
    simpa [h.even, h.groups, h.power] using h.width)
  replace hsafe := safe_check_bind.mp hsafe h.output
  obtain ⟨-, hsafe⟩ := safe_op_bind.mp hsafe
  replace hsafe := safe_check_bind.mp hsafe hstrides
  replace hsafe := safe_check_bind.mp hsafe h.query
  replace hsafe := safe_check_bind.mp hsafe hcacheHeads
  replace hsafe := safe_check_bind.mp hsafe h.cache
  obtain ⟨hfits, -⟩ := safe_op_bind.mp hsafe
  have hpositive : 0 < cacheStart + batch := by
    have := h.start.bounds
    have := h.members.bounds
    omega
  exact (maxKeys_overflow_iff ⟨hpositive, h.positions⟩ h.limit.bounds).mpr
    ⟨h.keys, h.unlimited⟩ hfits

end ManyKeys

/-! ## All kernels -/

theorem executorSchema_safeUnless (d : Dispatch) :
    SafeUnless d.PlainAttentionOverflows .invalidKernelSchema d.executorSchema := by
  unfold executorSchema
  split
  · exact .inl validateGemmQ40F32Schema_safe
  · exact .inl (validateQkvQ4Schema_safe true)
  · exact .inl (validateQkvQ4Schema_safe false)
  · exact .inl (validateQuantizedGemvSchema_safe 18 16 256)
  · exact .inl (validateQuantizedGemvSchema_safe 34 8 128)
  · exact .inl (validateGegluQ4Schema_safe true)
  · exact .inl (validateGegluQ4Schema_safe false)
  · exact .inl validateThreeF32ElementwiseSchema_safe
  · exact .inl validateThreeF32ElementwiseSchema_safe
  · exact .inl validateThreeF32ElementwiseSchema_safe
  · exact .inl validateEmbeddingF32Schema_safe
  · exact .inl validateRopeF32Schema_safe
  · exact .inl validateRmsNormF32Schema_safe
  · exact .inl validateRouterLogitsSchema_safe
  · exact .inl validateRouterTop8Schema_safe
  · exact .inl validatePrepareFfnSchema_safe
  · exact .inl validateFinishFfnSchema_safe
  · exact .inl (validateVocabTopkSchema_safe false)
  · exact .inl (validateVocabTopkSchema_safe true)
  · exact .inl validateQkvPostprocessSchema_safe
  · next hkernel =>
    have hid : d.kernel.id = 20 := UInt8.toNat_inj.mp hkernel
    exact (validateAttentionSchema_safeUnless fun _ => hid).imp_right fun h => ⟨h.1.2, h.2⟩
  · have hstreaming := @validateAttentionSchema_safeUnless d true fun h => nomatch h
    exact .inl (hstreaming.resolve_right fun h => nomatch h.1.1)
  · exact .inl validateEmbeddingQ80Schema_safe
  · exact .inl (safe_fail _)

theorem executorSchema_safe_iff (d : Dispatch) :
    Safe d.executorSchema ↔ ¬ d.PlainAttentionOverflows := by
  constructor
  · rintro hsafe ⟨hid, _, _, _, _, _, _, _, _, _, _, hmany⟩
    unfold executorSchema at hsafe
    rw [hid] at hsafe
    exact hmany.not_safe hsafe
  · exact fun hnot => (executorSchema_safeUnless d).resolve_right fun h => hnot h.1

/-- **Main theorem.** A plain operator overflows exactly for a launch of plain attention over 2^30
    keys and more that the checks before its shared memory let through. The decision is that over
    the unbounded integers all the same, also with the range checks of the checked methods left
    out as long as no result is too large for them, and an accepted launch is accepted without
    them. No schema of a mixture-of-experts kernel overflows. -/
theorem executorSchema_arithmetic (d : Dispatch) :
    ((Safe d.executorSchema ∧ d.executorSchema.release = d.executorSchema.integers) ↔
      ¬ d.PlainAttentionOverflows) ∧
    d.executorSchema.release = d.executorSchema.integers ∧
    (d.executorSchema.Small → d.executorSchema.release = d.executorSchema.unbounded) ∧
    (∀ elements, d.executorSchema.release = .ok elements →
      d.executorSchema.unbounded = .ok elements) ∧
    ∀ selection, Safe (d.moeExecutorSchema selection) ∧
      (d.moeExecutorSchema selection).release = (d.moeExecutorSchema selection).integers := by
  have hunless := executorSchema_safeUnless d
  refine ⟨?_, hunless.agree, ?_, fun elements => hunless.unbounded_eq, fun selection => ?_⟩
  · rw [and_iff_left hunless.agree]
    exact executorSchema_safe_iff d
  · exact fun hsmall => (builds_agree (debug_of_small hsmall)).1
  · have hsafe := moeExecutorSchema_safe (d := d) selection
    exact ⟨hsafe, SafeUnless.agree (P := False) (e := .invalidKernelSchema) (.inl hsafe)⟩

/-- A launch of plain attention whose one query looks at 2^30 keys and one. -/
def billionKeys : Dispatch where
  kernel := ⟨20, by decide⟩
  grid := ⟨1, 1, 1⟩
  block := ⟨128, 1, 1⟩
  sharedMemory := 0
  accesses := List.replicate 4 ⟨⟨0, 1, firstGeneration_ne⟩, 0, 4, .read⟩
  scalars := [⟨.i32, 0x40000000⟩, ⟨.i32, 1⟩, ⟨.i32, 1⟩, ⟨.i32, 1⟩, ⟨.i32, 2⟩, ⟨.i32, 2⟩,
    ⟨.f32, 0x3f800000⟩, ⟨.i32, 0⟩, ⟨.i32, 1⟩, ⟨.i32, 0⟩, ⟨.i32, 0⟩]
  checked := by decide

/-- Guest bytes decode to a launch whose validation overflows. -/
theorem decoded_schema_overflows : ¬ ∀ input requestId d,
    Dispatch.decode input = .ok (requestId, d) →
      Safe d.executorSchema ∧ d.executorSchema.release = d.executorSchema.integers := by
  intro hall
  have hdecode := billionKeys.decode_write (show (1 : UInt64) ≠ 0 by decide)
  have hpanic : billionKeys.executorSchema.debug = none := by decide +kernel
  exact (hall _ _ _ hdecode).1 hpanic

end Mrml.Gpu.Dispatch
