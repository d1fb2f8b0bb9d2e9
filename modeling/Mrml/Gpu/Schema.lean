import Mrml.Common.Calc
import Mrml.Gpu.Dispatch

/-!
# Executor schemas

Model of `validate_executor_schema` and `validate_moe_executor_schema`
(`crates/mrml-kernel/src/virtual_gpu.rs`, lines 2847–3889 and 4041–4043): each kernel has its
own numbers of accesses and scalars, its block and grid, and its formulas for the sizes of its
buffers. The schemas are calculations, whose integers are written as integers; the bits of a
`f32` are kept.

The calculations are read by `Mrml.Gpu.SchemaArithmetic`.
-/

namespace Mrml.Gpu

open Calc (op)

/-- The components of a grid or a block. -/
def Dim3.ints (dim : Dim3) : ℤ × ℤ × ℤ := (dim.x.toNat, dim.y.toNat, dim.z.toNat)

/-- The length of an access. -/
def BufferAccess.bytes (access : BufferAccess) : ℤ := access.length.toNat

/-- `u32::div_ceil`. -/
def divCeil (a b : ℤ) : ℤ := if 0 < a % b then a / b + 1 else a / b

/-- `u32::is_power_of_two`. -/
def IsPowerOfTwo (n : ℤ) : Prop := ∃ k < 32, n = 2 ^ k

instance (n : ℤ) : Decidable (IsPowerOfTwo n) :=
  inferInstanceAs (Decidable (∃ k, k < 32 ∧ n = 2 ^ k))

/-- `f32::is_finite`, on the bits of a value. -/
def IsFiniteF32 (bits : UInt32) : Prop := (bits >>> 23) &&& 0xff ≠ 0xff
deriving Decidable

/-- `value <= 0.0` for a finite value: a zero, or the sign bit is set. -/
def NonpositiveF32 (bits : UInt32) : Prop := bits = 0 ∨ bits ≥ 0x80000000
deriving Decidable

/-- `valid_f32_access` (lines 4041–4043). -/
def ValidF32Access (access : BufferAccess) (length : ℤ) (mode : BufferMode) : Prop :=
  access.mode = mode ∧ access.offset % 4 = 0 ∧ access.bytes = length
deriving Decidable

/-- The closures `weight_ok` (lines 2991–2995 and 3050–3054) and `valid_cache` (lines
    3401–3405). -/
def ValidQuantizedAccess (access : BufferAccess) (length : ℤ) (mode : BufferMode) : Prop :=
  access.mode = mode ∧ access.offset % 2 = 0 ∧ access.bytes = length
deriving Decidable

/-- `ValidatedExpertSelection` (lines 1294–1301). -/
structure ValidatedExpertSelection where
  ids : BufferAccess
  weights : BufferAccess
  experts : UInt32
  active : UInt32
  batch : UInt32
  digest : List UInt8
deriving DecidableEq

/-- `ValidatedKernelLaunch` (lines 2150–2153). -/
structure ValidatedKernelLaunch where
  dispatch : Dispatch
  elementCount : UInt32
deriving DecidableEq

/-- `return Err(InvalidKernelSchema)` under a condition. -/
abbrev reject (refused : Prop) [Decidable refused] : Calc GpuError Unit :=
  Calc.refuse refused .invalidKernelSchema

/-- A checked method with `ok_or(InvalidKernelSchema)?`. -/
abbrev checkFits (bits : ℕ) (exact : ℤ) : Calc GpuError ℤ :=
  Calc.check bits exact .invalidKernelSchema

/-- `i32::MAX as u32`. -/
def maxI32 : ℤ := 2147483647

namespace Dispatch

/-- `self.accesses[index].ok_or(InvalidKernelSchema)?`. -/
def access (d : Dispatch) (index : ℕ) : Calc GpuError BufferAccess :=
  Calc.okOr d.accesses[index]? .invalidKernelSchema

/-- `positive_i32_scalar` (lines 3127–3133). -/
def positiveI32Scalar (d : Dispatch) (index : ℕ) : Calc GpuError ℤ := do
  let scalar ← Calc.okOr d.scalars[index]? .invalidKernelSchema
  reject (scalar.kind ≠ .i32 ∨ scalar.bits = 0 ∨ (scalar.bits.toNat : ℤ) > maxI32)
  return scalar.bits.toNat

/-- `nonnegative_i32_scalar` (lines 3135–3141). -/
def nonnegativeI32Scalar (d : Dispatch) (index : ℕ) : Calc GpuError ℤ := do
  let scalar ← Calc.okOr d.scalars[index]? .invalidKernelSchema
  reject (scalar.kind ≠ .i32 ∨ (scalar.bits.toNat : ℤ) > maxI32)
  return scalar.bits.toNat

/-- `positive_f32_scalar` (lines 3339–3346), whose value no schema uses. -/
def positiveF32Scalar (d : Dispatch) (index : ℕ) : Calc GpuError Unit := do
  let scalar ← Calc.okOr d.scalars[index]? .invalidKernelSchema
  reject (scalar.kind ≠ .f32 ∨ ¬ IsFiniteF32 scalar.bits ∨ NonpositiveF32 scalar.bits)

/-- The first check of most schemas. -/
def Misshapen (d : Dispatch) (accesses scalars : ℕ) (threads : ℤ) : Prop :=
  d.accesses.length ≠ accesses ∨ d.scalars.length ≠ scalars ∨ d.sharedMemory ≠ 0 ∨
    d.block.ints ≠ (threads, 1, 1)
deriving Decidable

/-- The batch of a kernel, which is 1 without a scalar for it. -/
def batchScalar (d : Dispatch) (batched : Bool) (index : ℕ) : Calc GpuError ℤ :=
  if batched then d.positiveI32Scalar index else return 1

/-- `validate_quantized_gemv_schema` (lines 2897–2946). -/
def validateQuantizedGemvSchema (d : Dispatch) (quantizedBlockBytes rowsPerGridBlock
    threadsPerBlock : ℤ) : Calc GpuError ℤ := do
  reject (d.Misshapen 3 2 threadsPerBlock)
  let weights ← d.access 0
  let input ← d.access 1
  let output ← d.access 2
  let rows ← d.positiveI32Scalar 0
  let columns ← d.positiveI32Scalar 1
  reject (columns % 32 ≠ 0 ∨ weights.mode ≠ .read ∨ input.mode ≠ .read ∨ output.mode ≠ .write ∨
    weights.offset % 2 ≠ 0 ∨ input.offset % 4 ≠ 0 ∨ output.offset % 4 ≠ 0)
  let weightBlocks ← checkFits 64 (rows * (columns / 32))
  let weightBytes ← checkFits 64 (weightBlocks * quantizedBlockBytes)
  let inputBytes ← checkFits 64 (columns * 4)
  let outputBytes ← checkFits 64 (rows * 4)
  reject (weights.bytes ≠ weightBytes ∨ input.bytes ≠ inputBytes ∨ output.bytes ≠ outputBytes ∨
    d.grid.ints ≠ (divCeil rows rowsPerGridBlock, 1, 1))
  return rows

/-- `validate_qkv_q4_schema` (lines 2948–3014). -/
def validateQkvQ4Schema (d : Dispatch) (batched : Bool) : Calc GpuError ℤ := do
  reject (d.Misshapen 5 (if batched then 4 else 3) (if batched then 256 else 128))
  let qWeights ← d.access 0
  let kWeights ← d.access 1
  let vWeights ← d.access 2
  let input ← d.access 3
  let output ← d.access 4
  let qRows ← d.positiveI32Scalar 0
  let kvRows ← d.positiveI32Scalar 1
  let columns ← d.positiveI32Scalar 2
  let batch ← d.batchScalar batched 3
  reject (columns % 32 ≠ 0)
  let kvTotal ← checkFits 32 (kvRows * 2)
  let totalRows ← checkFits 32 (kvTotal + qRows)
  let bytesPerRow ← op 64 (columns / 32 * 18)
  let qBytes ← checkFits 64 (qRows * bytesPerRow)
  let kvBytes ← checkFits 64 (kvRows * bytesPerRow)
  let inputElements ← checkFits 32 (columns * batch)
  let outputElements ← checkFits 32 (totalRows * batch)
  reject (¬ ValidQuantizedAccess qWeights qBytes .read ∨
    ¬ ValidQuantizedAccess kWeights kvBytes .read ∨ ¬ ValidQuantizedAccess vWeights kvBytes .read)
  let inputBytes ← op 64 (inputElements * 4)
  reject (¬ ValidF32Access input inputBytes .read)
  let outputBytes ← op 64 (outputElements * 4)
  reject (¬ ValidF32Access output outputBytes .write ∨ d.grid.ints ≠
    if batched then (divCeil totalRows 16, divCeil batch 8, 1) else (divCeil totalRows 8, 1, 1))
  return outputElements

/-- `validate_geglu_q4_schema` (lines 3016–3072). -/
def validateGegluQ4Schema (d : Dispatch) (batched : Bool) : Calc GpuError ℤ := do
  reject (d.Misshapen 4 (if batched then 3 else 2) (if batched then 256 else 128))
  let gateWeights ← d.access 0
  let upWeights ← d.access 1
  let input ← d.access 2
  let output ← d.access 3
  let rows ← d.positiveI32Scalar 0
  let columns ← d.positiveI32Scalar 1
  let batch ← d.batchScalar batched 2
  reject (columns % 32 ≠ 0)
  let weightBlocks ← checkFits 64 (rows * (columns / 32))
  let weightBytes ← checkFits 64 (weightBlocks * 18)
  let inputElements ← checkFits 32 (columns * batch)
  let outputElements ← checkFits 32 (rows * batch)
  reject (¬ ValidQuantizedAccess gateWeights weightBytes .read ∨
    ¬ ValidQuantizedAccess upWeights weightBytes .read)
  let inputBytes ← op 64 (inputElements * 4)
  reject (¬ ValidF32Access input inputBytes .read)
  let outputBytes ← op 64 (outputElements * 4)
  reject (¬ ValidF32Access output outputBytes .write ∨ d.grid.ints ≠
    if batched then (divCeil rows 16, divCeil batch 8, 1) else (divCeil rows 8, 1, 1))
  return outputElements

/-- `validate_gemm_q4_0_f32_schema` (lines 3074–3125). -/
def validateGemmQ40F32Schema (d : Dispatch) : Calc GpuError ℤ := do
  reject (d.Misshapen 3 3 128)
  let weights ← d.access 0
  let input ← d.access 1
  let output ← d.access 2
  reject (weights.mode ≠ .read ∨ input.mode ≠ .read ∨ output.mode ≠ .write ∨
    weights.offset % 2 ≠ 0 ∨ input.offset % 4 ≠ 0 ∨ output.offset % 4 ≠ 0)
  let rows ← d.positiveI32Scalar 0
  let columns ← d.positiveI32Scalar 1
  let batch ← d.positiveI32Scalar 2
  reject (columns % 32 ≠ 0)
  let weightBlocks ← checkFits 64 (rows * (columns / 32))
  let weightBytes ← checkFits 64 (weightBlocks * 18)
  let inputElements ← checkFits 64 (columns * batch)
  let inputBytes ← checkFits 64 (inputElements * 4)
  let outputElements ← checkFits 32 (rows * batch)
  let outputBytes ← checkFits 64 (outputElements * 4)
  reject (weights.bytes ≠ weightBytes ∨ input.bytes ≠ inputBytes ∨ output.bytes ≠ outputBytes ∨
    d.grid.ints ≠ (divCeil rows 8, divCeil batch 8, 1))
  return outputElements

/-- `validate_three_f32_elementwise_schema` (lines 3143–3177). -/
def validateThreeF32ElementwiseSchema (d : Dispatch) : Calc GpuError ℤ := do
  reject (d.Misshapen 3 0 256)
  let a ← d.access 0
  let b ← d.access 1
  let output ← d.access 2
  reject (a.mode ≠ .read ∨ b.mode ≠ .read ∨ output.mode ≠ .write ∨ a.bytes = 0 ∨
    a.bytes ≠ b.bytes ∨ a.bytes ≠ output.bytes ∨ a.offset % 4 ≠ 0 ∨ b.offset % 4 ≠ 0 ∨
    output.offset % 4 ≠ 0 ∨ a.bytes % 4 ≠ 0)
  let elementCount ← checkFits 32 (a.bytes / 4)
  reject (d.grid.ints ≠ (max (divCeil elementCount 256) 1, 1, 1))
  return elementCount

/-- `validate_embedding_f32_schema` (lines 3179–3210). -/
def validateEmbeddingF32Schema (d : Dispatch) : Calc GpuError ℤ := do
  reject (d.Misshapen 2 2 256)
  let table ← d.access 0
  let output ← d.access 1
  let token ← d.nonnegativeI32Scalar 0
  let dimension ← d.positiveI32Scalar 1
  let rowBytes ← checkFits 64 (dimension * 4)
  reject (table.mode ≠ .read ∨ output.mode ≠ .write ∨ table.offset % 4 ≠ 0 ∨
    output.offset % 4 ≠ 0 ∨ table.bytes = 0 ∨ table.bytes % rowBytes ≠ 0 ∨
    output.bytes ≠ rowBytes ∨ token ≥ table.bytes / rowBytes ∨
    d.grid.ints ≠ (divCeil dimension 256, 1, 1))
  return dimension

/-- `validate_embedding_q8_0_schema` (lines 3212–3250). -/
def validateEmbeddingQ80Schema (d : Dispatch) : Calc GpuError ℤ := do
  reject (d.Misshapen 2 3 256)
  let table ← d.access 0
  let output ← d.access 1
  let token ← d.nonnegativeI32Scalar 0
  let dimension ← d.positiveI32Scalar 1
  d.positiveF32Scalar 2
  reject (dimension % 32 ≠ 0)
  let rowBytes ← checkFits 64 (dimension / 32 * 34)
  let outputBytes ← checkFits 64 (dimension * 4)
  reject (table.mode ≠ .read ∨ output.mode ≠ .write ∨ table.offset % 2 ≠ 0 ∨
    output.offset % 4 ≠ 0 ∨ table.bytes = 0 ∨ table.bytes % rowBytes ≠ 0 ∨
    output.bytes ≠ outputBytes ∨ token ≥ table.bytes / rowBytes ∨
    d.grid.ints ≠ (divCeil dimension 256, 1, 1))
  return dimension

/-- The accesses of a normalisation, with or without a weight (lines 3261–3268). -/
def rmsNormAccesses (d : Dispatch) : Calc GpuError (Option BufferAccess × BufferAccess) :=
  if d.accesses.length = 3 then do
    let weight ← d.access 1
    let output ← d.access 2
    return (some weight, output)
  else do
    let output ← d.access 1
    return (none, output)

/-- `validate_rms_norm_f32_schema` (lines 3252–3306). -/
def validateRmsNormF32Schema (d : Dispatch) : Calc GpuError ℤ := do
  reject (¬ (d.accesses.length = 2 ∨ d.accesses.length = 3) ∨ d.scalars.length ≠ 3 ∨
    d.sharedMemory ≠ 0 ∨ d.block.ints ≠ (256, 1, 1))
  let input ← d.access 0
  let (weight, output) ← d.rmsNormAccesses
  let dimension ← d.positiveI32Scalar 0
  let batch ← d.positiveI32Scalar 1
  d.positiveF32Scalar 2
  let elements ← checkFits 32 (dimension * batch)
  let tensorBytes ← checkFits 64 (elements * 4)
  let weightBytes ← checkFits 64 (dimension * 4)
  reject (input.mode ≠ .read ∨ output.mode ≠ .write ∨ input.offset % 4 ≠ 0 ∨
    output.offset % 4 ≠ 0 ∨ input.bytes ≠ tensorBytes ∨ output.bytes ≠ tensorBytes ∨
    d.grid.ints ≠ (batch, 1, 1))
  reject (∃ weight' ∈ weight, ¬ ValidF32Access weight' weightBytes .read)
  return elements

/-- `validate_rope_f32_schema` (lines 3308–3337). -/
def validateRopeF32Schema (d : Dispatch) : Calc GpuError ℤ := do
  reject (d.accesses.length ≠ 1 ∨ d.scalars.length ≠ 5 ∨ d.sharedMemory ≠ 0)
  let vector ← d.access 0
  let _position ← d.nonnegativeI32Scalar 0
  let headDimension ← d.positiveI32Scalar 1
  let headCount ← d.positiveI32Scalar 2
  d.positiveF32Scalar 3
  d.positiveF32Scalar 4
  let elements ← checkFits 32 (headDimension * headCount)
  let bytes ← checkFits 64 (elements * 4)
  reject (headDimension % 2 ≠ 0 ∨ vector.mode ≠ .readWrite ∨ vector.offset % 4 ≠ 0 ∨
    vector.bytes ≠ bytes ∨ d.grid.ints ≠ (headCount, 1, 1) ∨
    d.block.ints ≠ (headDimension / 2, 1, 1))
  return elements

/-- `bytes_per_head` (lines 3388–3393). -/
def bytesPerHead (headDimension format : ℤ) : Calc GpuError ℤ :=
  if format = 0 then op 64 (headDimension * 2)
  else if format = 1 ∧ headDimension % 32 = 0 then op 64 (headDimension / 32 * 34)
  else if format = 2 ∧ headDimension % 32 = 0 then op 64 (headDimension / 32 * 18)
  else Calc.fail .invalidKernelSchema

/-- The closure `cache_bytes` of `validate_qkv_postprocess_schema` (lines 3387–3398). -/
def postprocessCacheBytes (cacheCapacity kvHeads headDimension format : ℤ) : Calc GpuError ℤ := do
  let head ← bytesPerHead headDimension format
  let heads ← checkFits 64 (cacheCapacity * kvHeads)
  checkFits 64 (heads * head)

/-- The check that the positions of a batch are `i32` values (lines 3369–3374). -/
def checkPositions (start batch : ℤ) : Calc GpuError Unit := do
  let others ← op 32 (batch - 1)
  let last ← checkFits 32 (start + others)
  reject (last > maxI32)

/-- `validate_qkv_postprocess_schema` (lines 3348–3421). -/
def validateQkvPostprocessSchema (d : Dispatch) : Calc GpuError ℤ := do
  reject (d.accesses.length ≠ 5 ∨ d.scalars.length ≠ 10 ∨ d.sharedMemory ≠ 0)
  let qkv ← d.access 0
  let qNorm ← d.access 1
  let kNorm ← d.access 2
  let kCache ← d.access 3
  let vCache ← d.access 4
  let startPosition ← d.nonnegativeI32Scalar 0
  let cacheStart ← d.nonnegativeI32Scalar 1
  let heads ← d.positiveI32Scalar 2
  let kvHeads ← d.positiveI32Scalar 3
  let headDimension ← d.positiveI32Scalar 4
  d.positiveF32Scalar 5
  let batch ← d.positiveI32Scalar 6
  let cacheCapacity ← d.positiveI32Scalar 7
  let kFormat ← d.nonnegativeI32Scalar 8
  let vFormat ← d.nonnegativeI32Scalar 9
  reject (headDimension % 2 ≠ 0 ∨ heads % kvHeads ≠ 0)
  checkPositions startPosition batch
  checkPositions cacheStart batch
  let kvTotal ← checkFits 32 (kvHeads * 2)
  let totalHeads ← checkFits 32 (kvTotal + heads)
  let width ← checkFits 32 (totalHeads * headDimension)
  let qkvElements ← checkFits 32 (width * batch)
  let normBytes ← op 64 (headDimension * 4)
  let kCacheBytes ← postprocessCacheBytes cacheCapacity kvHeads headDimension kFormat
  let vCacheBytes ← postprocessCacheBytes cacheCapacity kvHeads headDimension vFormat
  let qkvBytes ← op 64 (qkvElements * 4)
  reject (¬ ValidF32Access qkv qkvBytes .readWrite ∨ ¬ ValidF32Access qNorm normBytes .read ∨
    ¬ ValidF32Access kNorm normBytes .read ∨ ¬ ValidQuantizedAccess kCache kCacheBytes .write ∨
    ¬ ValidQuantizedAccess vCache vCacheBytes .write ∨
    d.grid.ints ≠ (totalHeads, batch, 1) ∨
    d.block.ints ≠ (if headDimension ≥ 512 then 256 else 128, 1, 1))
  return qkvElements

/-- The closure `cache_bytes` of `validate_attention_schema` (lines 3470–3483). -/
def attentionCacheBytes (cacheElements cacheCapacity kvHeads headDimension format : ℤ) :
    Calc GpuError ℤ :=
  if format = 0 then op 64 (cacheElements * 2)
  else if format = 1 ∧ headDimension % 32 = 0 then do
    let heads ← op 64 (cacheCapacity * kvHeads)
    let blocks ← op 64 (heads * (headDimension / 32))
    op 64 (blocks * 34)
  else if format = 2 ∧ headDimension % 32 = 0 then do
    let heads ← op 64 (cacheCapacity * kvHeads)
    let blocks ← op 64 (heads * (headDimension / 32))
    op 64 (blocks * 18)
  else Calc.fail .invalidKernelSchema

/-- The number of keys that a query looks at (line 3484). -/
def maxKeys (end' window : ℤ) : ℤ := if window > 0 then min end' window else end'

/-- `expected_shared` (line 3486). -/
def expectedShared (streaming : Bool) (keys : ℤ) : Calc GpuError ℤ :=
  if streaming then return 0 else op 32 (keys * 4)

/-- `validate_attention_schema` (lines 3423–3505). -/
def validateAttentionSchema (d : Dispatch) (streaming : Bool) : Calc GpuError ℤ := do
  reject (d.accesses.length ≠ 4 ∨ d.scalars.length ≠ 11 ∨ d.block.ints ≠ (128, 1, 1))
  let query ← d.access 0
  let kCache ← d.access 1
  let vCache ← d.access 2
  let output ← d.access 3
  let cacheStart ← d.nonnegativeI32Scalar 0
  let batch ← d.positiveI32Scalar 1
  let heads ← d.positiveI32Scalar 2
  let kvHeads ← d.positiveI32Scalar 3
  let headDimension ← d.positiveI32Scalar 4
  let queryStride ← d.positiveI32Scalar 5
  d.positiveF32Scalar 6
  let window ← d.nonnegativeI32Scalar 7
  let cacheCapacity ← d.positiveI32Scalar 8
  let kFormat ← d.nonnegativeI32Scalar 9
  let vFormat ← d.nonnegativeI32Scalar 10
  let end' ← checkFits 32 (cacheStart + batch)
  reject (end' > maxI32)
  let queryWidth ← checkFits 32 (heads * headDimension)
  reject (headDimension % 2 ≠ 0 ∨ heads % kvHeads ≠ 0 ∨ queryStride < queryWidth ∨
    ¬ IsPowerOfTwo cacheCapacity)
  let outputElements ← checkFits 32 (batch * queryWidth)
  let others ← op 32 (batch - 1)
  let strides ← checkFits 32 (others * queryStride)
  let queryElements ← checkFits 32 (strides + queryWidth)
  let cacheHeads ← checkFits 32 (cacheCapacity * kvHeads)
  let cacheElements ← checkFits 32 (cacheHeads * headDimension)
  let keys := maxKeys end' window
  let specialized := decide (keys ≤ 8192 ∧ kFormat = 0 ∧ vFormat = 0)
  let expected ← expectedShared streaming keys
  reject (streaming = specialized ∨ (d.sharedMemory.toNat : ℤ) ≠ expected)
  let queryBytes ← op 64 (queryElements * 4)
  reject (¬ ValidF32Access query queryBytes .read ∨ kCache.mode ≠ .read ∨ kCache.offset % 2 ≠ 0)
  let kCacheBytes ← attentionCacheBytes cacheElements cacheCapacity kvHeads headDimension kFormat
  reject (kCache.bytes ≠ kCacheBytes ∨ vCache.mode ≠ .read ∨ vCache.offset % 2 ≠ 0)
  let vCacheBytes ← attentionCacheBytes cacheElements cacheCapacity kvHeads headDimension vFormat
  reject (vCache.bytes ≠ vCacheBytes)
  let outputBytes ← op 64 (outputElements * 4)
  reject (¬ ValidF32Access output outputBytes .write ∨ d.grid.ints ≠ (heads, batch, 1))
  return outputElements

/-- `validate_router_logits_schema` (lines 3507–3541). -/
def validateRouterLogitsSchema (d : Dispatch) : Calc GpuError ℤ := do
  reject (d.Misshapen 3 3 256)
  let weights ← d.access 0
  let input ← d.access 1
  let logits ← d.access 2
  let dimension ← d.positiveI32Scalar 0
  let experts ← d.positiveI32Scalar 1
  let batch ← d.positiveI32Scalar 2
  let weightElements ← checkFits 32 (experts * dimension)
  let inputElements ← checkFits 32 (batch * dimension)
  let outputElements ← checkFits 32 (batch * experts)
  let weightBytes ← op 64 (weightElements * 4)
  reject (¬ ValidF32Access weights weightBytes .read)
  let inputBytes ← op 64 (inputElements * 4)
  reject (¬ ValidF32Access input inputBytes .read)
  let outputBytes ← op 64 (outputElements * 4)
  reject (¬ ValidF32Access logits outputBytes .write ∨ d.grid.ints ≠ (experts, batch, 1))
  return outputElements

/-- `validate_router_top8_schema` (lines 3543–3577). -/
def validateRouterTop8Schema (d : Dispatch) : Calc GpuError ℤ := do
  reject (d.Misshapen 3 2 1)
  let logits ← d.access 0
  let ids ← d.access 1
  let probabilities ← d.access 2
  let experts ← d.positiveI32Scalar 0
  let batch ← d.positiveI32Scalar 1
  reject (experts < 8)
  let logitElements ← checkFits 32 (batch * experts)
  let topElements ← checkFits 32 (batch * 8)
  let topBytes ← op 64 (topElements * 4)
  let logitBytes ← op 64 (logitElements * 4)
  reject (¬ ValidF32Access logits logitBytes .read ∨ ids.mode ≠ .write ∨ ids.offset % 4 ≠ 0 ∨
    ids.bytes ≠ topBytes ∨ ¬ ValidF32Access probabilities topBytes .write ∨
    d.grid.ints ≠ (batch, 1, 1))
  return topElements

/-- The loops of the two feed-forward schemas: the accesses from `start` on have the given length
    and modes. -/
def checkF32Accesses (d : Dispatch) (length : ℤ) (start : ℕ) : List BufferMode → Calc GpuError Unit
  | [] => return ()
  | mode :: modes => do
    let access ← d.access start
    reject (¬ ValidF32Access access length mode)
    d.checkF32Accesses length (start + 1) modes

/-- `validate_prepare_ffn_schema` (lines 3579–3628). -/
def validatePrepareFfnSchema (d : Dispatch) : Calc GpuError ℤ := do
  reject (d.Misshapen 10 2 512)
  let dimension ← d.positiveI32Scalar 0
  let batch ← d.positiveI32Scalar 1
  let elements ← checkFits 32 (dimension * batch)
  let tensorBytes ← op 64 (elements * 4)
  let vectorBytes ← op 64 (dimension * 4)
  d.checkF32Accesses tensorBytes 0 [.read, .read]
  d.checkF32Accesses vectorBytes 2 [.read, .read, .read, .read]
  d.checkF32Accesses tensorBytes 6 [.write, .write, .write, .write]
  reject (d.grid.ints ≠ (batch, 1, 1))
  return elements

/-- `validate_finish_ffn_schema` (lines 3630–3680). -/
def validateFinishFfnSchema (d : Dispatch) : Calc GpuError ℤ := do
  reject (d.Misshapen 7 3 512)
  let scale ← Calc.okOr d.scalars[0]? .invalidKernelSchema
  reject (scale.kind ≠ .f32 ∨ ¬ IsFiniteF32 scale.bits)
  let dimension ← d.positiveI32Scalar 1
  let batch ← d.positiveI32Scalar 2
  let elements ← checkFits 32 (dimension * batch)
  let tensorBytes ← op 64 (elements * 4)
  let vectorBytes ← op 64 (dimension * 4)
  d.checkF32Accesses tensorBytes 0 [.read, .read, .readWrite]
  d.checkF32Accesses vectorBytes 3 [.read, .read, .read]
  d.checkF32Accesses tensorBytes 6 [.write]
  reject (d.grid.ints ≠ (batch, 1, 1))
  return elements

/-- The dimensions of a mixture-of-experts kernel (lines 3687–3702 and 3758–3773): those of the
    specialised kernels are fixed. The scalars at `first` and `second` are the dimension and the
    dimension of an expert. -/
def moeDimensions (d : Dispatch) (specialized : Bool) (first second : ℕ) :
    Calc GpuError (ℤ × ℤ × ℤ × ℤ) :=
  if specialized then do
    reject (d.scalars.length ≠ 0)
    return (2816, 704, 8, 1)
  else do
    reject (d.scalars.length ≠ 4)
    let dimension ← d.positiveI32Scalar first
    let expertDimension ← d.positiveI32Scalar second
    let active ← d.positiveI32Scalar 2
    let batch ← d.positiveI32Scalar 3
    return (dimension, expertDimension, active, batch)

/-- The dimensions that the specialised kernels are for. -/
def IsSpecialized (dimension expertDimension active batch : ℤ) : Prop :=
  dimension = 2816 ∧ expertDimension = 704 ∧ active = 8 ∧ batch = 1
deriving Decidable

/-- `validate_moe_gate_schema` (lines 3682–3750). -/
def validateMoeGateSchema (d : Dispatch) (selection : ValidatedExpertSelection)
    (specialized : Bool) : Calc GpuError ℤ := do
  let (dimension, expertDimension, active, batch) ← d.moeDimensions specialized 1 0
  reject (d.accesses.length ≠ 4 ∨ d.sharedMemory ≠ 0 ∨ d.block.ints ≠ (128, 1, 1) ∨
    dimension % 32 ≠ 0 ∨ active ≠ selection.active.toNat ∨ batch ≠ selection.batch.toNat ∨
    specialized ≠ decide (IsSpecialized dimension expertDimension active batch))
  let rowBytes ← op 64 (dimension / 32 * 18)
  let matrices ← checkFits 64 (selection.experts.toNat * 2)
  let rows ← checkFits 64 (matrices * expertDimension)
  let gateBytes ← checkFits 64 (rows * rowBytes)
  let inputElements ← checkFits 32 (dimension * batch)
  let outputWidth ← checkFits 32 (expertDimension * active)
  let outputElements ← checkFits 32 (outputWidth * batch)
  let gate ← d.access 0
  reject (gate.mode ≠ .read ∨ gate.offset % 2 ≠ 0 ∨ gate.bytes ≠ gateBytes ∨
    d.accesses[1]? ≠ some selection.ids)
  let input ← d.access 2
  let inputBytes ← op 64 (inputElements * 4)
  reject (¬ ValidF32Access input inputBytes .read)
  let output ← d.access 3
  let outputBytes ← op 64 (outputElements * 4)
  reject (¬ ValidF32Access output outputBytes .write ∨
    d.grid.ints ≠ (divCeil expertDimension 8, active, batch))
  return outputElements

/-- `validate_moe_down_schema` (lines 3752–3840). -/
def validateMoeDownSchema (d : Dispatch) (selection : ValidatedExpertSelection)
    (variant : UInt8) : Calc GpuError ℤ := do
  let (dimension, expertDimension, active, batch) ← d.moeDimensions (variant = 2) 0 1
  reject (d.accesses.length ≠ 6 ∨ d.sharedMemory ≠ 0 ∨ d.block.ints ≠ (128, 1, 1) ∨
    expertDimension % 32 ≠ 0 ∨
    variant ≠ (if IsSpecialized dimension expertDimension active batch then 2
      else if batch = 1 then 1 else 0) ∨
    active ≠ selection.active.toNat ∨ batch ≠ selection.batch.toNat)
  let rowBytes ← op 64 (expertDimension / 32 * 18)
  let rows ← checkFits 64 (selection.experts.toNat * dimension)
  let downBytes ← checkFits 64 (rows * rowBytes)
  let activations ← checkFits 32 (batch * active)
  let activationElements ← checkFits 32 (activations * expertDimension)
  let outputElements ← checkFits 32 (batch * dimension)
  let down ← d.access 0
  let scales ← d.access 3
  reject (down.mode ≠ .read ∨ down.offset % 2 ≠ 0 ∨ down.bytes ≠ downBytes ∨
    d.accesses[1]? ≠ some selection.ids ∨ d.accesses[2]? ≠ some selection.weights)
  let scaleBytes ← op 64 (selection.experts.toNat * 4)
  reject (¬ ValidF32Access scales scaleBytes .read)
  let activation ← d.access 4
  let activationBytes ← op 64 (activationElements * 4)
  reject (¬ ValidF32Access activation activationBytes .read)
  let output ← d.access 5
  let outputBytes ← op 64 (outputElements * 4)
  reject (¬ ValidF32Access output outputBytes (if variant = 0 then .readWrite else .write) ∨
    d.grid.ints ≠ (divCeil dimension 8, if variant = 0 then active else 1, batch))
  return outputElements

/-- `validate_vocab_topk_schema` (lines 3842–3890). -/
def validateVocabTopkSchema (d : Dispatch) (generic : Bool) : Calc GpuError ℤ := do
  reject (d.Misshapen 5 5 (if generic then 1 else 256))
  let logits ← d.access 0
  let valid ← d.access 1
  let recent ← d.access 2
  let scores ← d.access 3
  let ids ← d.access 4
  let vocabulary ← d.positiveI32Scalar 0
  let recentCount ← d.nonnegativeI32Scalar 1
  let _ ← d.nonnegativeI32Scalar 2
  let k ← d.positiveI32Scalar 3
  let partitions ← d.positiveI32Scalar 4
  reject (partitions > vocabulary)
  let maxPartition := divCeil vocabulary partitions
  reject (k > maxPartition ∨ generic = decide (maxPartition ≤ 2048))
  let outputElements ← checkFits 32 (k * partitions)
  let outputBytes ← op 64 (outputElements * 4)
  let logitBytes ← op 64 (vocabulary * 4)
  reject (¬ ValidF32Access logits logitBytes .read ∨ valid.mode ≠ .read ∨
    valid.bytes ≠ vocabulary ∨ recent.mode ≠ .read ∨ recent.offset % 4 ≠ 0)
  let recentBytes ← op 64 (recentCount * 4)
  reject (recent.bytes ≠ recentBytes ∨ ¬ ValidF32Access scores outputBytes .write ∨
    ids.mode ≠ .write ∨ ids.offset % 4 ≠ 0 ∨ ids.bytes ≠ outputBytes ∨
    d.grid.ints ≠ (partitions, 1, 1))
  return outputElements

/-- The calculation of `validate_executor_schema` (lines 2850–2875); its value is the element
    count of the launch. -/
def executorSchema (d : Dispatch) : Calc GpuError ℤ :=
  match d.kernel.id.toNat with
  | 0 => d.validateGemmQ40F32Schema
  | 1 => d.validateQkvQ4Schema true
  | 2 => d.validateQkvQ4Schema false
  | 3 => d.validateQuantizedGemvSchema 18 16 256
  | 4 => d.validateQuantizedGemvSchema 34 8 128
  | 5 => d.validateGegluQ4Schema true
  | 6 => d.validateGegluQ4Schema false
  | 7 | 9 | 10 => d.validateThreeF32ElementwiseSchema
  | 8 => d.validateEmbeddingF32Schema
  | 11 => d.validateRopeF32Schema
  | 12 => d.validateRmsNormF32Schema
  | 13 => d.validateRouterLogitsSchema
  | 14 => d.validateRouterTop8Schema
  | 15 => d.validatePrepareFfnSchema
  | 16 => d.validateFinishFfnSchema
  | 17 => d.validateVocabTopkSchema false
  | 18 => d.validateVocabTopkSchema true
  | 19 => d.validateQkvPostprocessSchema
  | 20 => d.validateAttentionSchema false
  | 21 => d.validateAttentionSchema true
  | 27 => d.validateEmbeddingQ80Schema
  | _ => Calc.fail .unsupportedKernelSchema

/-- `validate_executor_schema` in a release build. -/
def validateExecutorSchema (d : Dispatch) : Except GpuError ValidatedKernelLaunch :=
  d.executorSchema.release.map fun elements => ⟨d, UInt32.ofNat elements.toNat⟩

/-- The calculation of `validate_moe_executor_schema` (lines 2879–2895). -/
def moeExecutorSchema (d : Dispatch) (selection : ValidatedExpertSelection) : Calc GpuError ℤ :=
  match d.kernel.id.toNat with
  | 22 => d.validateMoeGateSchema selection false
  | 23 => d.validateMoeGateSchema selection true
  | 24 => d.validateMoeDownSchema selection 0
  | 25 => d.validateMoeDownSchema selection 1
  | 26 => d.validateMoeDownSchema selection 2
  | _ => Calc.fail .unsupportedKernelSchema

/-- `validate_moe_executor_schema` in a release build. The launch keeps the selection. -/
def validateMoeExecutorSchema (d : Dispatch) (selection : ValidatedExpertSelection) :
    Except GpuError (ValidatedKernelLaunch × ValidatedExpertSelection) :=
  (d.moeExecutorSchema selection).release.map fun elements =>
    (⟨d, UInt32.ofNat elements.toNat⟩, selection)

end Dispatch

end Mrml.Gpu
