import Mrml.Common.Wire
import Mrml.Tensor.Gguf

/-!
# What the header of a GGUF file declares

A plain reading of the bytes of a header, which asks nothing of a machine: it goes through the
format from left to right and lists what the file declares, up to the end of the header or to the
first place where the bytes end or are no header. A declaration fits a machine or does not.

Results:
* `Follows.bind`: a reader and a plain reading that agree on their parts agree.
* `readGgufValue_follows`, `readHeader_follows`: the reader asks for what the header declares.
* `GgufFile.open_correct_iff`: in both builds the file is refused with an error or has the right
  offset and sizes if and only if everything that its header declares fits.
-/

namespace Mrml.Tensor

open Asking Mrml.Runtime

/-! ## Declarations -/

/-- What a header declares: the length of a text, of an array or of a table; a value inside of
    `depth - 1` arrays; the dimensions and the type of a tensor; the alignment of the data, with the
    position at which the header ends. -/
inductive Declaration
  | room (purpose : Purpose) (n : ℕ)
  | nesting (depth : ℕ)
  | tensor (shape : Shape) (dtype : DType)
  | data (alignment position : ℕ)

/-- The length can be allocated, the depth is within the stack, the products and the size in bytes
    are below `2^64`, and there is a multiple of the alignment, which is not zero, from the end of
    the header on and below `2^64`. -/
def Declaration.Fits (machine : Machine) : Declaration → Prop
  | room purpose n => machine.allocates purpose n
  | nesting depth => depth ≤ machine.levels
  | tensor shape dtype =>
    shape.Fits ∧ shape.count / dtype.blockSize * dtype.typeSize < 2 ^ 64
  | data alignment position =>
    alignment ≠ 0 ∧ ∃ offset < 2 ^ 64, position ≤ offset ∧ alignment ∣ offset

/-- A reading of bytes: the declarations that it comes across, and a result with the bytes that
    are left, if it comes to its end. -/
def Scan (α : Type) : Type := List UInt8 → List Declaration × Option (α × List UInt8)

namespace Scan

variable {α β : Type}

protected def pure (a : α) : Scan α := fun bytes => ([], some (a, bytes))

protected def bind (scan : Scan α) (f : α → Scan β) : Scan β := fun bytes =>
  match (scan bytes).2 with
  | none => ((scan bytes).1, none)
  | some (a, rest) => ((scan bytes).1 ++ (f a rest).1, (f a rest).2)

instance : Monad Scan where
  pure := Scan.pure
  bind := Scan.bind

/-- The bytes are no header. -/
def stop : Scan α := fun _ => ([], none)

def stopWhen (stops : Prop) [Decidable stops] : Scan Unit := if stops then stop else pure ()

def declare (declaration : Declaration) : Scan Unit := fun bytes => ([declaration], some ((), bytes))

/-- The next `n` bytes. -/
def bytes (n : ℕ) : Scan (List UInt8) := fun input =>
  ([], if n ≤ input.length then some (input.take n, input.drop n) else none)

/-- A number of `n` bytes. -/
def number (n : ℕ) : Scan ℕ := do return leNat (← bytes n)

/-- The place in a file of `total` bytes. -/
def place (total : ℕ) : Scan ℕ := fun rest => ([], some (total - rest.length, rest))

def times (scan : α → Scan α) : ℕ → α → Scan α
  | 0, a => pure a
  | n + 1, a => do
    let a ← scan a
    times scan n a

/-- A text: its length and its bytes, which are copied. -/
def text : Scan Text := do
  let len ← number 8
  declare (.room .bytes len)
  let buf ← bytes len
  match Text.fromUtf8 buf with
  | none => stop
  | some value => do
    declare (.room .text value.asBytes.length)
    return value

/-- A value at a depth, with the word that an alignment of this value would be. An array takes more
    bytes than it has levels, so that `fuel` is the number of bytes. -/
def value : (fuel depth valType : ℕ) → Scan (Option ℕ)
  | 0, _, _ => stop
  | fuel + 1, depth, valType => do
    declare (.nesting depth)
    match valType with
    | 0 => return some (← number 1)
    | 1 => do let _ ← number 1; return none
    | 2 => return some (← number 2)
    | 3 => do let _ ← number 2; return none
    | 4 => return some (← number 4)
    | 5 => do
      let v ← number 4
      return if v < 2 ^ 31 then some v else none
    | 6 => do let _ ← number 4; return none
    | 7 => do let _ ← number 1; return none
    | 8 => do let _ ← text; return none
    | 9 => do
      let itemType ← number 4
      let len ← number 8
      declare (.room .values len)
      let _ ← times (fun () => do let _ ← value fuel (depth + 1) itemType) len ()
      return none
    | 10 => return some ((← number 8) % 2 ^ 32)
    | 11 => do
      let v ← number 8
      return if v < 2 ^ 63 then some (v % 2 ^ 32) else none
    | 12 => do let _ ← number 8; return none
    | _ => stop

/-- A metadata entry; the last entry `general.alignment` is the alignment, 32 by default. -/
def metadata (fuel alignment : ℕ) : Scan ℕ := do
  let key ← text
  let valType ← number 4
  let word ← value fuel 1 valType
  return if key = "general.alignment".toList then word.getD 32 else alignment

/-- An entry of the tensor table. -/
def tensor : Scan Unit := do
  let name ← text
  let n_dims ← number 4
  let dims ← times (fun dims => do return dims ++ [← number 8]) (min n_dims 4) []
  times (fun () => do let _ ← number 8) (n_dims - 4) ()
  let typeId ← number 4
  match dtypeOfId typeId with
  | none => stop
  | some dtype => do
    let _ ← number 8
    declare (.tensor ⟨Vector.ofFn fun i => dims.getD i 1, min n_dims 4⟩ dtype)
    declare (.room .text name.asBytes.length)

/-- The header, and the alignment that it declares. -/
def header (fuel : ℕ) : Scan ℕ := do
  let magic ← number 4
  stopWhen (magic ≠ 0x46554747)
  let version ← number 4
  stopWhen (version < 2 ∨ 3 < version)
  let tensor_count ← number 8
  let kv_count ← number 8
  declare (.room .metadata kv_count)
  let alignment ← times (metadata fuel) kv_count 32
  declare (.room .tensors tensor_count)
  times (fun () => tensor) tensor_count ()
  return alignment

/-- A file of `total` bytes under its path. -/
def file (path : Text) (total : ℕ) : Scan Unit := do
  declare (.room .text path.asBytes.length)
  let alignment ← header (total + 1)
  declare (.data alignment (← place total))

end Scan

/-- What the header of a file declares, as far as it is a header. -/
def GgufFile.declarations (path : Text) (stream : Stream) : List Declaration :=
  (Scan.file path stream.bytes.length stream.bytes).1

/-! ## Readers and plain readings -/

section Follows

variable {machine : Machine} {stream : Stream} {α β γ δ : Type}

/-- The reader and the plain reading come to their ends together, with less than `n` bytes left. -/
inductive Ends (stream : Stream) (n : ℕ) (R : α → β → Prop) :
    Option (α × Cursor) → Option (β × List UInt8) → Prop
  | stopped : Ends stream n R none none
  | returned {a : α} {b : β} {cursor : Cursor} (hrel : R a b) (hwithin : cursor.Within stream)
      (hlength : cursor.rest.length < n) : Ends stream n R (some (a, cursor)) (some (b, cursor.rest))

/-- From a place with less than `n` bytes left, everything that the reader asks for is granted
    exactly if everything that the plain reading comes across fits, and then they end together,
    with less than `n'` bytes left. -/
def Follows (machine : Machine) (stream : Stream) (n n' : ℕ) (R : α → β → Prop)
    (reader : Reading α) (scan : Scan β) : Prop :=
  ∀ cursor : Cursor, cursor.Within stream → cursor.rest.length < n →
    ((∀ request ∈ (reader cursor).requests Request.exact, machine.Grants request) ↔
      ∀ declaration ∈ (scan cursor.rest).1, declaration.Fits machine) ∧
    ((∀ declaration ∈ (scan cursor.rest).1, declaration.Fits machine) →
      Ends stream n' R ((reader cursor).result Request.exact) (scan cursor.rest).2)

variable {n n' n'' : ℕ} {R : α → β → Prop} {S : γ → δ → Prop}

theorem Ends.mono {m : ℕ} {R' : α → β → Prop} {result : Option (α × Cursor)}
    {last : Option (β × List UInt8)} (h : Ends stream n R result last) (hm : n ≤ m)
    (hR : ∀ a b, R a b → R' a b) : Ends stream m R' result last := by
  cases h with
  | stopped => exact .stopped
  | returned hrel hwithin hlength =>
    exact .returned (hR _ _ hrel) hwithin (hlength.trans_le hm)

theorem Follows.mono {m m' : ℕ} {R' : α → β → Prop} {reader : Reading α} {scan : Scan β}
    (h : Follows machine stream n n' R reader scan) (hm : m ≤ n) (hm' : n' ≤ m')
    (hR : ∀ a b, R a b → R' a b) : Follows machine stream m m' R' reader scan := by
  intro cursor hwithin hlength
  obtain ⟨hgranted, hends⟩ := h cursor hwithin (hlength.trans_le hm)
  exact ⟨hgranted, fun hfits => (hends hfits).mono hm' hR⟩

theorem Follows.pure {a : α} {b : β} (h : R a b) :
    Follows machine stream n n R (Pure.pure a) (Pure.pure b) := by
  intro cursor hwithin hlength
  exact ⟨iff_of_true (List.forall_mem_nil _) (List.forall_mem_nil _),
    fun _ => .returned h hwithin hlength⟩

theorem Follows.stop (e : GgufError) :
    Follows machine stream n n' R (refuse e) (Scan.stop : Scan β) := by
  intro cursor _ _
  exact ⟨iff_of_true (List.forall_mem_nil _) (List.forall_mem_nil _), fun _ => .stopped⟩

/-- **Step lemma.** -/
theorem Follows.bind {reader : Reading α} {scan : Scan β} {f : α → Reading γ} {g : β → Scan δ}
    (h : Follows machine stream n n' R reader scan)
    (hf : ∀ a b, R a b → Follows machine stream n' n'' S (f a) (g b)) :
    Follows machine stream n n'' S (reader >>= f) (scan >>= g) := by
  intro cursor hwithin hlength
  obtain ⟨hgranted, hends⟩ := h cursor hwithin hlength
  have hreader : (reader >>= f) cursor = reader cursor >>= fun result => f result.1 result.2 := rfl
  have hscan : (scan >>= g) cursor.rest = Scan.bind scan g cursor.rest := rfl
  rw [hreader, hscan, forall_requests_bind, result_bind, Scan.bind]
  by_cases hfits : ∀ declaration ∈ (scan cursor.rest).1, declaration.Fits machine
  · rw [and_iff_right (hgranted.mpr hfits)]
    generalize (reader cursor).result Request.exact = result at *
    generalize (scan cursor.rest).2 = last at *
    cases hends hfits with
    | stopped => exact ⟨iff_of_true (fun _ h => by cases h) hfits, fun _ => .stopped⟩
    | @returned a b cursor' hrel hwithin' hlength' =>
      obtain ⟨hgranted', hends'⟩ := hf a b hrel cursor' hwithin' hlength'
      dsimp only
      simp only [List.forall_mem_append, and_iff_right hfits]
      refine ⟨Iff.trans ⟨fun h => h _ rfl, fun h a' ha' => ?_⟩ hgranted', hends'⟩
      obtain rfl := Option.some.inj ha'
      exact h
  · -- what does not fit is not granted either
    have hboth : ∀ {ds : List Declaration}, (scan cursor.rest).1 ⊆ ds →
        ¬∀ declaration ∈ ds, declaration.Fits machine :=
      fun hsub hall => hfits fun declaration hmem => hall declaration (hsub hmem)
    cases (scan cursor.rest).2 with
    | none =>
      exact ⟨iff_of_false (fun hall => hfits (hgranted.mp hall.1)) hfits,
        fun hall => absurd hall hfits⟩
    | some result =>
      have hnot := hboth (List.subset_append_left (scan cursor.rest).1 (g result.1 result.2).1)
      exact ⟨iff_of_false (fun hall => hfits (hgranted.mp hall.1)) hnot,
        fun hall => absurd hall hnot⟩

theorem scan_bind_pure (scan : Scan β) : (scan >>= fun b => (Pure.pure b : Scan β)) = scan := by
  funext bytes
  show Scan.bind scan Scan.pure bytes = scan bytes
  unfold Scan.bind Scan.pure
  cases hlast : (scan bytes).2 with
  | none => exact Prod.ext rfl hlast.symm
  | some result => exact Prod.ext (List.append_nil _) hlast.symm

theorem Follows.map {reader : Reading α} {scan : Scan β} {f : α → γ} {S : γ → β → Prop}
    (h : Follows machine stream n n' R reader scan) (hf : ∀ a b, R a b → S (f a) b) :
    Follows machine stream n n' S (do return f (← reader)) scan := by
  rw [← scan_bind_pure scan]
  exact h.bind fun a b hab => Follows.pure (hf a b hab)

/-- **Run lemma.** -/
theorem Follows.iterate {step : α → Reading α} {scan : β → Scan β}
    (hstep : ∀ a b, R a b → Follows machine stream n n R (step a) (scan b)) (k : ℕ) {a : α} {b : β}
    (h : R a b) : Follows machine stream n n R (iterate step k a) (Scan.times scan k b) := by
  induction k generalizing a b with
  | zero => exact Follows.pure h
  | succ k ih => exact (hstep a b h).bind fun a' b' h' => ih h'

/-- A declaration that fits whatever is read is no request. -/
theorem Follows.declare {reader : Reading α} {scan : Scan β} {declaration : Declaration}
    (hfits : declaration.Fits machine) (h : Follows machine stream n n' R reader scan) :
    Follows machine stream n n' R reader (Scan.declare declaration >>= fun _ => scan) := by
  intro cursor hwithin hlength
  obtain ⟨hgranted, hends⟩ := h cursor hwithin hlength
  have hscan : (Scan.declare declaration >>= fun _ => scan) cursor.rest =
      (declaration :: (scan cursor.rest).1, (scan cursor.rest).2) := rfl
  rw [hscan, List.forall_mem_cons, and_iff_right hfits]
  exact ⟨hgranted, hends⟩

/-- A request for what is declared. -/
theorem Follows.demand {request : Request} {declaration : Declaration}
    (h : machine.Grants request ↔ declaration.Fits machine) :
    Follows machine stream n n (fun value _ => value = request.exact) (demand request)
      (Scan.declare declaration) := by
  intro cursor hwithin hlength
  refine ⟨?_, fun _ => .returned rfl hwithin hlength⟩
  show (∀ r ∈ [request], machine.Grants r) ↔ ∀ d ∈ [declaration], d.Fits machine
  rw [List.forall_mem_singleton, List.forall_mem_singleton, h]

theorem stopWhen_follows (stops : Prop) [Decidable stops] (e : GgufError) :
    Follows machine stream n n (fun _ _ => True) (refuseWhen stops e) (Scan.stopWhen stops) := by
  unfold refuseWhen Scan.stopWhen
  split_ifs
  · exact Follows.stop e
  · exact Follows.pure trivial

/-! ## The parts of the format -/

/-- The value of `k` bytes as a signed number. -/
def Signed (k : ℕ) (v : ℤ) (word : ℕ) : Prop :=
  v = (if word < 2 ^ (8 * k - 1) then (word : ℤ) else (word : ℤ) - 2 ^ (8 * k)) ∧ word < 256 ^ k

theorem asU32_int32 {v : ℤ} {word : ℕ} (h : Signed 4 v word) :
    (GgufValue.int32 v).asU32 = if word < 2 ^ 31 then some word else none := by
  obtain ⟨rfl, hword⟩ := h
  rw [GgufValue.asU32]
  by_cases hsign : word < 2 ^ 31
  · rw [if_pos hsign, if_pos hsign, if_pos (Int.natCast_nonneg word), Int.toNat_natCast,
      Nat.mod_eq_of_lt (by omega)]
  · rw [if_neg hsign, if_neg hsign, if_neg (by omega)]

theorem asU32_int64 {v : ℤ} {word : ℕ} (h : Signed 8 v word) :
    (GgufValue.int64 v).asU32 = if word < 2 ^ 63 then some (word % 2 ^ 32) else none := by
  obtain ⟨rfl, hword⟩ := h
  rw [GgufValue.asU32]
  by_cases hsign : word < 2 ^ 63
  · rw [if_pos hsign, if_pos hsign, if_pos (Int.natCast_nonneg word), Int.toNat_natCast]
  · rw [if_neg hsign, if_neg hsign, if_neg (by omega)]

theorem readExact_follows (k : ℕ) : Follows machine stream n (n - k)
    (fun bytes bytes' => bytes = bytes' ∧ bytes'.length = k) (readExact k) (Scan.bytes k) := by
  intro cursor hwithin hlength
  unfold readExact Scan.bytes
  split_ifs with hle
  · refine ⟨iff_of_true (List.forall_mem_nil _) (List.forall_mem_nil _), fun _ => ?_⟩
    refine @Ends.returned _ _ stream (n - k) _ _ _ ⟨cursor.rest.drop k, _⟩ ⟨rfl, ?_⟩ ?_ ?_
    · rw [List.length_take, Nat.min_eq_left hle]
    · have hlt := stream.length_lt
      have hbefore : cursor.position + cursor.rest.length = stream.bytes.length := hwithin
      show min (cursor.position + k) (2 ^ 64 - 1) + (cursor.rest.drop k).length =
        stream.bytes.length
      rw [List.length_drop]
      omega
    · show (cursor.rest.drop k).length < n - k
      rw [List.length_drop]
      omega
  · exact ⟨iff_of_true (List.forall_mem_nil _) (List.forall_mem_nil _), fun _ => .stopped⟩

theorem readUnsigned_consumes (k : ℕ) : Follows machine stream n (n - k)
    (fun v word => v = word ∧ word < 256 ^ k) (readUnsigned k) (Scan.number k) := by
  refine (readExact_follows k).bind fun bytes bytes' h => Follows.pure ?_
  obtain ⟨rfl, rfl⟩ := h
  exact ⟨rfl, leNat_lt bytes⟩

theorem readUnsigned_follows (k : ℕ) : Follows machine stream n n
    (fun v word => v = word ∧ word < 256 ^ k) (readUnsigned k) (Scan.number k) :=
  (readUnsigned_consumes k).mono le_rfl (Nat.sub_le n k) fun _ _ h => h

theorem readSigned_follows (k : ℕ) :
    Follows machine stream n n (Signed k) (readSigned k) (Scan.number k) :=
  (readUnsigned_follows k).map fun _ _ h => ⟨by rw [h.1], h.2⟩

theorem copyText_follows (text : Text) : Follows machine stream n n (fun t t' => t = t')
    (copyText text) (do Scan.declare (.room .text text.asBytes.length); return text) :=
  (Follows.demand Iff.rfl).bind fun _ _ _ => Follows.pure rfl

theorem readGgufString_follows :
    Follows machine stream n n (fun t t' => t = t') readGgufString Scan.text := by
  refine (readUnsigned_follows 8).bind fun len _ hlen => ?_
  obtain ⟨rfl, -⟩ := hlen
  refine (Follows.demand Iff.rfl).bind fun _ _ _ => ?_
  refine ((readExact_follows len).mono le_rfl (Nat.sub_le n len) fun _ _ h => h).bind
    fun buf _ hbuf => ?_
  obtain ⟨rfl, -⟩ := hbuf
  cases Text.fromUtf8 buf with
  | none => exact Follows.stop _
  | some value => exact copyText_follows value

/-- A level that the stack does not have. -/
theorem Follows.tooDeep {depth : ℕ} (h : machine.levels < depth) {reader : Reading α}
    {scan : Scan β} : Follows machine stream n n' R
      (do let _ ← Asking.demand .level; reader)
      (Scan.declare (.nesting depth) >>= fun _ => scan) := by
  intro cursor _ _
  have hnot : ¬∀ declaration ∈ ((Scan.declare (.nesting depth) >>= fun _ => scan)
      cursor.rest).1, declaration.Fits machine :=
    fun hall => absurd (hall (.nesting depth) List.mem_cons_self) (not_le.mpr h)
  refine ⟨iff_of_false (fun hall => ?_) hnot, fun hall => absurd hall hnot⟩
  exact hall .level List.mem_cons_self

/-- A value asks for what it declares, by induction on the bytes that are left. The levels that are
    left on the stack and the depth of the value make up the levels of the machine. -/
theorem readGgufValue_follows (fuel levels depth valType : ℕ)
    (hdepth : depth + levels = machine.levels + 1) :
    Follows machine stream fuel fuel (fun value word => value.asU32 = word)
      (readGgufValue levels valType) (Scan.value fuel depth valType) := by
  induction fuel generalizing levels depth valType with
  | zero => exact fun cursor _ hlength => absurd hlength (Nat.not_lt_zero _)
  | succ fuel ih =>
    cases levels with
    | zero => exact Follows.tooDeep (by omega)
    | succ levels =>
      have hfits : (Declaration.nesting depth).Fits machine := by
        show depth ≤ machine.levels
        omega
      have hunsigned := @readUnsigned_follows machine stream (fuel + 1)
      unfold readGgufValue Scan.value
      refine Follows.declare hfits ?_
      rcases Nat.lt_or_ge valType 13 with hsmall | hlarge
      · interval_cases valType
        · exact (hunsigned 1).bind fun _ _ h => Follows.pure (congrArg some h.1)
        · exact (readSigned_follows 1).bind fun _ _ _ => Follows.pure rfl
        · exact (hunsigned 2).bind fun _ _ h => Follows.pure (congrArg some h.1)
        · exact (readSigned_follows 2).bind fun _ _ _ => Follows.pure rfl
        · exact (hunsigned 4).bind fun _ _ h => Follows.pure (congrArg some h.1)
        · exact (readSigned_follows 4).bind fun v word h => Follows.pure (asU32_int32 h)
        · exact (hunsigned 4).bind fun _ _ _ => Follows.pure rfl
        · exact (hunsigned 1).bind fun _ _ _ => Follows.pure rfl
        · exact readGgufString_follows.bind fun _ _ _ => Follows.pure rfl
        · -- the elements begin behind the twelve bytes of the type and of the length
          have htypes : Follows machine stream (fuel + 1) fuel _ (readUnsigned 4) (Scan.number 4) :=
            (readUnsigned_consumes 4).mono le_rfl (by omega) fun _ _ h => h
          refine htypes.bind fun itemType _ htype => ?_
          obtain ⟨rfl, -⟩ := htype
          refine (readUnsigned_follows 8).bind fun len _ hlen => ?_
          obtain ⟨rfl, -⟩ := hlen
          refine (Follows.demand Iff.rfl).bind fun _ _ _ => ?_
          refine ((Follows.iterate (R := fun _ _ => True) (fun arr _ _ => ?_) len trivial).mono
            le_rfl (Nat.le_succ fuel) fun _ _ h => h).bind fun _ _ _ => Follows.pure rfl
          exact (ih levels (depth + 1) itemType (by omega)).bind fun _ _ _ => Follows.pure trivial
        · exact (hunsigned 8).bind fun _ _ h => Follows.pure (congrArg (some <| · % 2 ^ 32) h.1)
        · exact (readSigned_follows 8).bind fun v word h => Follows.pure (asU32_int64 h)
        · exact (hunsigned 8).bind fun _ _ _ => Follows.pure rfl
      · obtain ⟨other, rfl⟩ := Nat.exists_eq_add_of_le' hlarge
        exact Follows.stop _

/-- The map of the entries so far gives the alignment. -/
def AlignsTo (metadata : List (Text × GgufValue)) (alignment : ℕ) : Prop :=
  OrderedMap.Sorted metadata ∧ effectiveAlignment metadata = alignment

/-- The last entry `general.alignment` is the one that counts. -/
theorem AlignsTo.insert {metadata : List (Text × GgufValue)} {alignment : ℕ}
    (h : AlignsTo metadata alignment) (key : Text) (value : GgufValue) :
    AlignsTo (OrderedMap.insert key value metadata)
      (if key = "general.alignment".toList then value.asU32.getD 32 else alignment) := by
  refine ⟨h.1.insert, ?_⟩
  rw [effectiveAlignment, OrderedMap.get_insert h.1]
  by_cases hkey : key = "general.alignment".toList
  · rw [if_pos hkey, if_pos hkey.symm]
    rfl
  · rw [if_neg hkey, if_neg fun heq => hkey heq.symm]
    exact h.2

theorem readMetadata_follows {metadata : List (Text × GgufValue)} {alignment : ℕ}
    (h : AlignsTo metadata alignment) :
    Follows machine stream n n AlignsTo (readMetadata machine.levels metadata)
      (Scan.metadata n alignment) := by
  refine readGgufString_follows.bind fun key _ hkey => ?_
  subst hkey
  refine (readUnsigned_follows 4).bind fun valType _ htype => ?_
  obtain ⟨rfl, -⟩ := htype
  refine (readGgufValue_follows n machine.levels 1 valType (Nat.add_comm _ _)).bind
    fun value word hvalue => Follows.pure ?_
  subst hvalue
  exact h.insert key value

/-- The three products of the dimensions and the size in bytes are requests for what one
    declaration says. -/
theorem sizes_follows {shape : Shape} {dtype : DType} {f : ℕ → Reading α} {scan : Scan β}
    (h : ∀ size_bytes, Follows machine stream n n' R (f size_bytes) scan) :
    Follows machine stream n n' R
      (do
        let numel ← shape.numel
        let size_bytes ← Asking.demand (.word (numel / dtype.blockSize * dtype.typeSize))
        f size_bytes)
      (do
        Scan.declare (.tensor shape dtype)
        scan) := by
  intro cursor hwithin hlength
  obtain ⟨hgranted, hends⟩ :=
    h (shape.count / dtype.blockSize * dtype.typeSize) cursor hwithin hlength
  show ((∀ request ∈ Request.word (shape.dims[0] * shape.dims[1]) ::
      .word (shape.dims[0] * shape.dims[1] * shape.dims[2]) :: .word shape.count ::
      .word (shape.count / dtype.blockSize * dtype.typeSize) ::
      (f (shape.count / dtype.blockSize * dtype.typeSize) cursor).requests Request.exact,
      machine.Grants request) ↔
    ∀ declaration ∈ Declaration.tensor shape dtype :: (scan cursor.rest).1,
      declaration.Fits machine) ∧
    ((∀ declaration ∈ Declaration.tensor shape dtype :: (scan cursor.rest).1,
      declaration.Fits machine) → _)
  rw [List.forall_mem_cons, List.forall_mem_cons, List.forall_mem_cons, List.forall_mem_cons,
    List.forall_mem_cons, hgranted]
  refine ⟨⟨?_, ?_⟩, fun hfits => hends hfits.2⟩
  · rintro ⟨hplane, hcube, hcount, hsize, hrest⟩
    exact ⟨⟨⟨hplane, hcube, hcount⟩, hsize⟩, hrest⟩
  · rintro ⟨⟨⟨hplane, hcube, hcount⟩, hsize⟩, hrest⟩
    exact ⟨hplane, hcube, hcount, hsize, hrest⟩

theorem readTensor_follows (tensors : List (Text × GgufTensorInfo)) :
    Follows machine stream n n (fun _ _ => True) (readTensor tensors) Scan.tensor := by
  refine readGgufString_follows.bind fun name _ hname => ?_
  subst hname
  refine (readUnsigned_follows 4).bind fun n_dims _ hdims => ?_
  obtain ⟨rfl, -⟩ := hdims
  refine (Follows.iterate (R := fun dims dims' => dims = dims') (fun dims _ h => ?_) _ rfl).bind
    fun dims _ h => ?_
  · subst h
    exact (readUnsigned_follows 8).bind fun _ _ h => Follows.pure (by rw [h.1])
  subst h
  refine (Follows.iterate (R := fun _ _ => True) (fun _ _ _ => ?_) _ trivial).bind fun _ _ _ => ?_
  · exact (readUnsigned_follows 8).bind fun _ _ _ => Follows.pure trivial
  refine (readUnsigned_follows 4).bind fun typeId _ htype => ?_
  obtain ⟨rfl, -⟩ := htype
  cases dtypeOfId typeId with
  | none => exact Follows.stop _
  | some dtype =>
    refine (readUnsigned_follows 8).bind fun offset _ _ => sizes_follows fun size_bytes => ?_
    exact (Follows.demand Iff.rfl).bind fun _ _ _ => Follows.pure trivial

theorem readHeader_follows : Follows machine stream n n
    (fun header alignment => effectiveAlignment header.metadata = alignment)
    (readHeader machine.levels) (Scan.header n) := by
  refine (readUnsigned_follows 4).bind fun magic _ hmagic => ?_
  obtain ⟨rfl, -⟩ := hmagic
  refine (stopWhen_follows _ _).bind fun _ _ _ => ?_
  refine (readUnsigned_follows 4).bind fun version _ hversion => ?_
  obtain ⟨rfl, -⟩ := hversion
  refine (stopWhen_follows _ _).bind fun _ _ _ => ?_
  refine (readUnsigned_follows 8).bind fun tensor_count _ htensors => ?_
  obtain ⟨rfl, -⟩ := htensors
  refine (readUnsigned_follows 8).bind fun kv_count _ hkv => ?_
  obtain ⟨rfl, -⟩ := hkv
  refine (Follows.demand Iff.rfl).bind fun _ _ _ => ?_
  refine (Follows.iterate (fun _ _ h => readMetadata_follows h) kv_count
    ⟨List.Pairwise.nil, rfl⟩).bind fun metadata alignment halignment => ?_
  refine (Follows.demand Iff.rfl).bind fun _ _ _ => ?_
  exact (Follows.iterate (R := fun _ _ => True) (fun tensors _ _ => readTensor_follows tensors)
    tensor_count trivial).bind fun _ _ _ => Follows.pure halignment.2

/-- A multiple of the alignment below `2^64`, from the position on. -/
theorem data_fits_iff {alignment position : ℕ} (hposition : position < 2 ^ 64) :
    (Declaration.data alignment position).Fits machine ↔ alignment ≠ 0 ∧
      (position % alignment = 0 ∨ position + (alignment - position % alignment) < 2 ^ 64) := by
  refine and_congr_right fun h0 => ?_
  constructor
  · rintro ⟨offset, hlt, hle, hdvd⟩
    rw [or_iff_not_imp_left]
    exact fun hrem => ((isLeast_padded h0 hrem).2 ⟨hle, hdvd⟩).trans_lt hlt
  · rintro (hrem | hlt)
    · exact ⟨position, hposition, le_rfl, Nat.dvd_of_mod_eq_zero hrem⟩
    · by_cases hrem : position % alignment = 0
      · exact ⟨position, hposition, le_rfl, Nat.dvd_of_mod_eq_zero hrem⟩
      · obtain ⟨⟨hle, hdvd⟩, -⟩ := isLeast_padded h0 hrem
        exact ⟨_, hlt, hle, hdvd⟩

theorem filePosition_follows : Follows machine stream n n
    (fun position place => position = place ∧ place < 2 ^ 64) filePosition
    (Scan.place stream.bytes.length) := by
  intro cursor hwithin hlength
  have hlt := stream.length_lt
  have hposition : cursor.position + cursor.rest.length = stream.bytes.length := hwithin
  refine ⟨iff_of_true (List.forall_mem_nil _) (List.forall_mem_nil _), fun _ => ?_⟩
  exact .returned ⟨by omega, by omega⟩ hwithin hlength

/-- The remainders and the padded offset are requests for what one declaration says. -/
theorem padding_follows {alignment position : ℕ} (hposition : position < 2 ^ 64) :
    Follows machine stream n n (fun _ _ => True)
      (do
        if (← remainder position alignment) = 0 then return position
        else Asking.demand (.word (position + (alignment - (← remainder position alignment)))))
      (Scan.declare (.data alignment position)) := by
  intro cursor hwithin hlength
  show ((∀ request ∈ Request.divisor alignment :: requests Request.exact
      ((if position % alignment = 0 then (pure position : Reading ℕ)
        else do
          Asking.demand (.word (position + (alignment - (← remainder position alignment)))))
        cursor), machine.Grants request) ↔
      ∀ declaration ∈ [Declaration.data alignment position], declaration.Fits machine) ∧
    (_ → Ends stream n _ (result Request.exact
      ((if position % alignment = 0 then (pure position : Reading ℕ)
        else do
          Asking.demand (.word (position + (alignment - (← remainder position alignment)))))
        cursor)) (some ((), cursor.rest)))
  rw [List.forall_mem_singleton, data_fits_iff hposition, List.forall_mem_cons]
  split_ifs with hrem
  · refine ⟨and_congr_right fun _ => ?_, fun _ => .returned trivial hwithin hlength⟩
    exact iff_of_true (List.forall_mem_nil _) (.inl hrem)
  · refine ⟨and_congr_right fun h0 => ?_, fun _ => .returned trivial hwithin hlength⟩
    show (∀ request ∈ [Request.divisor alignment,
      .word (position + (alignment - position % alignment))], machine.Grants request) ↔ _
    rw [List.forall_mem_cons, List.forall_mem_singleton, or_iff_right hrem]
    exact and_iff_right h0

theorem file_follows (path : Text) :
    Follows machine stream (stream.bytes.length + 1) (stream.bytes.length + 1) (fun _ _ => True)
      (GgufFile.read machine.levels path) (Scan.file path stream.bytes.length) := by
  refine (copyText_follows path).bind (g := fun _ => do
    let alignment ← Scan.header (stream.bytes.length + 1)
    Scan.declare (.data alignment (← Scan.place stream.bytes.length))) fun _ _ _ => ?_
  refine readHeader_follows.bind fun header alignment halignment => ?_
  subst halignment
  refine Follows.map (R := fun _ _ => True) ?_ fun _ _ _ => trivial
  refine filePosition_follows.bind fun position _ h => ?_
  obtain ⟨rfl, hposition⟩ := h
  exact padding_follows hposition

end Follows

/-! ## The main theorem -/

/-- The reader is granted everything exactly if everything that the header declares fits. -/
theorem GgufFile.requests_granted_iff (machine : Machine) (path : Text) (stream : Stream) :
    (∀ request ∈ GgufFile.requests machine path stream, machine.Grants request) ↔
      ∀ declaration ∈ GgufFile.declarations path stream, declaration.Fits machine :=
  (file_follows path ⟨stream.bytes, 0⟩ (Nat.zero_add _) (Nat.lt_succ_self _)).1

/-- **Main theorem.** Both builds open the file correctly or return an error if and only if
    everything that its header declares fits the machine: the lengths can be allocated, the values
    are nested within the stack, the products of dimensions and the sizes are below `2^64`, and the
    alignment is not zero and has a multiple below `2^64` from the end of the header on. -/
theorem GgufFile.open_correct_iff (machine : Machine) (path : Text) (stream : Stream) :
    (∀ build, GgufFile.Correct stream (GgufFile.open machine build path stream)) ↔
      ∀ declaration ∈ GgufFile.declarations path stream, declaration.Fits machine :=
  (GgufFile.correct_iff_granted machine path stream).trans
    (GgufFile.requests_granted_iff machine path stream)

end Mrml.Tensor
