import Mrml.Common.PrefixCode
import Mrml.Zstd.Bits

/-!
# Huffman tables

Model of the tables of `crates/mrml-zstd/src/huffman.rs` (lines 6–134) and of `decode_stream`
(lines 194–208). The sums stay below `2 ^ 20`; the one of the weights may not, and is checked.

Results:
* `fromLengths_spec`: the lookup table is the flat table of a prefix code.
* `Stream.decodeSymbol`: a symbol is decoded from its code, wherever the stream ends.
* `huffman_code`: both for the tables that are built from weights.
-/

namespace Mrml.Zstd.Huffman

open Bits PrefixCode ReverseBits

/-! ## Model -/

/-- `MAX_BITS` (line 6). -/
def maxBits : ℕ := 11

/-- `Slot` (lines 8–12). -/
structure Slot where
  symbol : UInt8
  bits : ℕ
  deriving DecidableEq

/-- `Slot::default()`. -/
def Slot.empty : Slot := ⟨0, 0⟩

/-- `Table` (lines 14–18). -/
structure Table where
  maximumBits : ℕ
  lookup : List Slot
  deriving DecidableEq

/-- `counts[bits]` (lines 77–82), for the lengths that are not zero. -/
def counts (lengths : List ℕ) (bits : ℕ) : ℕ := lengths.count bits

/-- `kraft` (lines 83–85): the sum over the lengths from one to `bits`. -/
def kraft (lengths : List ℕ) (maximumBits : ℕ) : ℕ → ℕ
  | 0 => 0
  | bits + 1 =>
    kraft lengths maximumBits bits + counts lengths (bits + 1) <<< (maximumBits - (bits + 1))

/-- `for slot in &mut lookup[start..end]` (lines 109–114). -/
def fillSlots (lookup : List Slot) (start stop : ℕ) (slot : Slot) : List Slot :=
  lookup.take start ++ (List.replicate (stop - start) slot ++ lookup.drop stop)

/-- The loop over the symbols of one length (lines 97–115), from `symbol` on. -/
def fillLevel (maximumBits bits : ℕ) : List ℕ → ℕ → ℕ → List Slot → Except Error (List Slot)
  | [], _, _, lookup => .ok lookup
  | length :: lengths, symbol, next, lookup =>
    if length ≠ bits then fillLevel maximumBits bits lengths (symbol + 1) next lookup
    else do
      let shift := maximumBits - bits
      let start := next <<< shift
      let stop := start + 1 <<< shift
      refuseIf (stop > lookup.length) .invalidHuffmanTree
      fillLevel maximumBits bits lengths (symbol + 1) (next + 1)
        (fillSlots lookup start stop ⟨UInt8.ofNat symbol, bits⟩)

/-- The loop over the lengths (lines 96–116), from `bits` downwards. `next` is the entry of the
table `next` for it, which is computed from the one before (lines 89–92). -/
def fillLevels (lengths : List ℕ) (maximumBits : ℕ) : ℕ → ℕ → List Slot → Except Error (List Slot)
  | 0, _, lookup => .ok lookup
  | bits + 1, next, lookup => do
    let lookup ← fillLevel maximumBits (bits + 1) lengths 0 next lookup
    fillLevels lengths maximumBits bits ((next + counts lengths (bits + 1)) >>> 1) lookup

/-- `from_lengths` (lines 72–121). -/
def fromLengths (lengths : List ℕ) : Except Error Table := do
  let maximumBits ← okOr lengths.max? .invalidHuffmanTree
  refuseIf (maximumBits = 0 ∨ maximumBits > maxBits) .invalidHuffmanTree
  refuseIf (kraft lengths maximumBits maximumBits ≠ 1 <<< maximumBits) .invalidHuffmanTree
  let lookup ← fillLevels lengths maximumBits maximumBits 0
    (List.replicate (1 <<< maximumBits) .empty)
  return ⟨maximumBits, lookup⟩

/-- The loop over the weights (lines 23–32). -/
def totalWeight : List UInt8 → ℕ → Except Error ℕ
  | [], total => .ok total
  | weight :: weights, total => do
    refuseIf (weight.toNat > maxBits) .invalidHuffmanTree
    if weight ≠ 0 then do
      refuseIf (total + 1 <<< (weight.toNat - 1) ≥ 2 ^ 32) .invalidHuffmanTree
      totalWeight weights (total + 1 <<< (weight.toNat - 1))
    else totalWeight weights total

/-- `u32::trailing_zeros` of a power of two. -/
def trailingZeros (n : ℕ) : ℕ := Nat.log2 n

/-- `is_power_of_two`. -/
def isPowerOfTwo (n : ℕ) : Bool := n = 1 <<< Nat.log2 n

/-- The length of the code of a weight (lines 63–67). -/
def lengthOf (maximumBits weight : ℕ) : ℕ := if weight = 0 then 0 else maximumBits + 1 - weight

/-- `from_weights` (lines 21–70). -/
def fromWeights (weights : List UInt8) : Except Error Table := do
  let total ← totalWeight weights 0
  refuseIf (total = 0) .invalidHuffmanTree
  let maximumBits := Nat.log2 total + 1
  refuseIf (maximumBits > maxBits) .invalidHuffmanTree
  refuseIf (1 <<< maximumBits < total) .invalidHuffmanTree
  let missing := 1 <<< maximumBits - total
  refuseIf (isPowerOfTwo missing = false) .invalidHuffmanTree
  let finalWeight := trailingZeros missing + 1
  refuseIf (weights.length + 1 > 256) .invalidHuffmanTree
  fromLengths ((weights.map UInt8.toNat ++ [finalWeight]).map (lengthOf maximumBits))

/-- `decode_symbol` (lines 123–133). The index is below the length of the table. -/
def decodeSymbol (table : Table) (s : ReverseBits) : Except Error (UInt8 × ReverseBits) := do
  let slot := table.lookup.getD (s.peekPadded table.maximumBits) .empty
  refuseIf (slot.bits = 0) .invalidHuffmanStream
  refuseIf (slot.bits > s.remaining) (.huffmanSymbolTruncated slot.bits s.remaining)
  let s ← s.consume slot.bits
  return (slot.symbol, s)

/-- The loop of `decode_stream` (lines 204–206). -/
def decodeLoop (table : Table) : ℕ → ReverseBits → List UInt8 → Except Error (List UInt8)
  | 0, _, output => .ok output
  | count + 1, s, output => do
    let (symbol, s) ← decodeSymbol table s
    decodeLoop table count s (output ++ [symbol])

/-- `decode_stream` (lines 194–208). -/
def decodeStream (bytes : List UInt8) (table : Table) (count : ℕ) (output : List UInt8) :
    Except Error (List UInt8) :=
  if count = 0 then .ok output
  else do
    let s ← ReverseBits.new bytes
    decodeLoop table count s output

/-! ## The symbols of a table -/

/-- The symbols with codes of one length, from `symbol` on. -/
def levelSymbols (bits : ℕ) : List ℕ → ℕ → List (UInt8 × ℕ)
  | [], _ => []
  | length :: lengths, symbol =>
    if length = bits then (UInt8.ofNat symbol, bits) :: levelSymbols bits lengths (symbol + 1)
    else levelSymbols bits lengths (symbol + 1)

/-- The symbols with codes up to a length, the longest first. -/
def symbolsOf (lengths : List ℕ) : ℕ → List (UInt8 × ℕ)
  | 0 => []
  | bits + 1 => levelSymbols (bits + 1) lengths 0 ++ symbolsOf lengths bits

/-- The slot of a symbol. -/
def slotOf (s : UInt8 × ℕ) : Slot := ⟨s.1, s.2⟩

variable {lengths : List ℕ} {maximumBits bits : ℕ}

theorem width_levelSymbols (symbol : ℕ) : width maximumBits (levelSymbols bits lengths symbol) =
    lengths.count bits * 2 ^ (maximumBits - bits) := by
  induction lengths generalizing symbol with
  | nil => exact (Nat.zero_mul _).symm
  | cons length lengths ih =>
    rw [levelSymbols]
    split_ifs with h
    · rw [width_cons, ih, h, List.count_cons_self]
      ring
    · rw [ih, List.count_cons_of_ne h]

theorem width_append (symbols symbols' : List (UInt8 × ℕ)) :
    width maximumBits (symbols ++ symbols') =
      width maximumBits symbols + width maximumBits symbols' := by
  rw [width, List.map_append, List.sum_append]
  rfl

theorem width_symbolsOf : width maximumBits (symbolsOf lengths bits) =
    kraft lengths maximumBits bits := by
  induction bits with
  | zero => rfl
  | succ bits ih =>
    rw [symbolsOf, width_append, width_levelSymbols, ih, kraft, counts, Nat.shiftLeft_eq,
      Nat.add_comm]

theorem mem_levelSymbols {a : UInt8} {l symbol : ℕ} : (a, l) ∈ levelSymbols bits lengths symbol ↔
    l = bits ∧ ∃ i, lengths[i]? = some bits ∧ a = UInt8.ofNat (symbol + i) := by
  induction lengths generalizing symbol with
  | nil => simp [levelSymbols]
  | cons length lengths ih =>
    have hrest : (∃ i, lengths[i]? = some bits ∧ a = UInt8.ofNat (symbol + 1 + i)) ↔
        ∃ i, (length :: lengths)[i + 1]? = some bits ∧ a = UInt8.ofNat (symbol + (i + 1)) := by
      simp only [List.getElem?_cons_succ, Nat.add_assoc, Nat.add_comm 1]
    rw [levelSymbols, ← Nat.or_exists_add_one, ← hrest, List.getElem?_cons_zero, Option.some.injEq,
      Nat.add_zero]
    split_ifs with h
    · rw [List.mem_cons, ih, Prod.mk.injEq]
      constructor
      · rintro (⟨ha, hl⟩ | ⟨hl, hi⟩)
        · exact ⟨hl, .inl ⟨h, ha⟩⟩
        · exact ⟨hl, .inr hi⟩
      · rintro ⟨hl, ⟨-, ha⟩ | hi⟩
        · exact .inl ⟨ha, hl⟩
        · exact .inr ⟨hl, hi⟩
    · rw [ih]
      exact and_congr_right fun _ => (or_iff_right fun h' => h h'.1).symm

/-- The symbols of a table are those with a length. -/
theorem mem_symbolsOf {a : UInt8} {l : ℕ} : (a, l) ∈ symbolsOf lengths bits ↔
    0 < l ∧ l ≤ bits ∧ ∃ i, lengths[i]? = some l ∧ a = UInt8.ofNat i := by
  induction bits with
  | zero => exact iff_of_false List.not_mem_nil fun h => by omega
  | succ bits ih =>
    rw [symbolsOf, List.mem_append, mem_levelSymbols, ih]
    simp only [Nat.zero_add]
    constructor
    · rintro (⟨rfl, hi⟩ | ⟨hpos, hle, hi⟩)
      · exact ⟨Nat.succ_pos bits, le_rfl, hi⟩
      · exact ⟨hpos, Nat.le_succ_of_le hle, hi⟩
    · rintro ⟨hpos, hle, hi⟩
      obtain rfl | hlt := Nat.eq_or_lt_of_le hle
      · exact .inl ⟨rfl, hi⟩
      · exact .inr ⟨hpos, Nat.le_of_lt_succ hlt, hi⟩

theorem ofNat_inj {i j : ℕ} (hi : i < 256) (hj : j < 256) (h : UInt8.ofNat i = UInt8.ofNat j) :
    i = j := by
  have h' := congrArg UInt8.toNat h
  rwa [UInt8.toNat_ofNat', UInt8.toNat_ofNat', Nat.mod_eq_of_lt hi, Nat.mod_eq_of_lt hj] at h'

theorem nodup_levelSymbols {symbol : ℕ} (h : symbol + lengths.length ≤ 256) :
    ((levelSymbols bits lengths symbol).map Prod.fst).Nodup := by
  induction lengths generalizing symbol with
  | nil => exact List.nodup_nil
  | cons length lengths ih =>
    rw [List.length_cons] at h
    rw [levelSymbols]
    split_ifs
    · rw [List.map_cons, List.nodup_cons]
      refine ⟨fun hmem => ?_, ih (by omega)⟩
      obtain ⟨⟨a, l⟩, hal, rfl⟩ := List.mem_map.mp hmem
      obtain ⟨-, i, hi, ha⟩ := mem_levelSymbols.mp hal
      have hlt := (List.getElem?_eq_some_iff.mp hi).1
      have heq := ofNat_inj (by omega) (by omega) ha
      omega
    · exact ih (by omega)

/-- No symbol has two codes. -/
theorem nodup_symbolsOf (h : lengths.length ≤ 256) (bits : ℕ) :
    ((symbolsOf lengths bits).map Prod.fst).Nodup := by
  induction bits with
  | zero => exact List.nodup_nil
  | succ bits ih =>
    rw [symbolsOf, List.map_append, List.nodup_append']
    refine ⟨nodup_levelSymbols (by omega), ih, ?_⟩
    rw [List.disjoint_left]
    intro a hlevel hrest
    obtain ⟨⟨_, l⟩, hal, rfl⟩ := List.mem_map.mp hlevel
    obtain ⟨⟨_, l'⟩, hal', heq⟩ := List.mem_map.mp hrest
    obtain ⟨-, i, hi, ha⟩ := mem_levelSymbols.mp hal
    obtain ⟨-, hle, j, hj, ha'⟩ := mem_symbolsOf.mp hal'
    have hilt := (List.getElem?_eq_some_iff.mp hi).1
    have hjlt := (List.getElem?_eq_some_iff.mp hj).1
    have hsame : j = i := by
      rw [Nat.zero_add] at ha
      exact ofNat_inj (by omega) (by omega) (ha'.symm.trans (heq.trans ha))
    rw [hsame, hi] at hj
    have hl := Option.some.inj hj
    omega

/-! ## The lookup table -/

/-- The slots of the symbols. -/
def slots (maximumBits : ℕ) (symbols : List (UInt8 × ℕ)) : List Slot :=
  (table maximumBits symbols).map slotOf

theorem length_slots (symbols : List (UInt8 × ℕ)) :
    (slots maximumBits symbols).length = width maximumBits symbols := by
  rw [slots, List.length_map, length_table]

theorem slots_append (symbols symbols' : List (UInt8 × ℕ)) :
    slots maximumBits (symbols ++ symbols') =
      slots maximumBits symbols ++ slots maximumBits symbols' := by
  rw [slots, table, List.flatMap_append, List.map_append]
  rfl

/-- **Run lemma.** The codes of one length take the next places. -/
theorem fillLevel_eq {symbol next : ℕ} {done rest : List Slot}
    (hdone : done.length = next * 2 ^ (maximumBits - bits))
    (hroom : width maximumBits (levelSymbols bits lengths symbol) ≤ rest.length) :
    fillLevel maximumBits bits lengths symbol next (done ++ rest) =
      .ok (done ++ (slots maximumBits (levelSymbols bits lengths symbol) ++
        rest.drop (width maximumBits (levelSymbols bits lengths symbol)))) := by
  induction lengths generalizing symbol next done rest with
  | nil => rfl
  | cons length lengths ih =>
    rw [levelSymbols] at hroom ⊢
    rw [fillLevel]
    by_cases h : length = bits
    · rw [if_pos h] at hroom ⊢
      rw [if_neg (not_not.mpr h)]
      rw [width_cons] at hroom ⊢
      have hstart : next <<< (maximumBits - bits) = done.length := by rw [hdone, Nat.shiftLeft_eq]
      have hone : 1 <<< (maximumBits - bits) = 2 ^ (maximumBits - bits) := Nat.one_shiftLeft _
      have hfill : fillSlots (done ++ rest) done.length (done.length + 2 ^ (maximumBits - bits))
          ⟨UInt8.ofNat symbol, bits⟩ =
            (done ++ List.replicate (2 ^ (maximumBits - bits)) ⟨UInt8.ofNat symbol, bits⟩) ++
              rest.drop (2 ^ (maximumBits - bits)) := by
        rw [fillSlots, List.take_left, Nat.add_sub_cancel_left, List.drop_append,
          List.append_assoc, Nat.add_sub_cancel_left,
          List.drop_eq_nil_of_le (Nat.le_add_right _ _), List.nil_append]
      dsimp only
      rw [hstart, hone, refuseIf_of_not (by rw [List.length_append]; omega), ok_bind, hfill, ih]
      · rw [List.drop_drop, List.append_assoc, ← List.append_assoc (List.replicate _ _)]
        have hslots : List.replicate (2 ^ (maximumBits - bits)) ⟨UInt8.ofNat symbol, bits⟩ ++
            slots maximumBits (levelSymbols bits lengths (symbol + 1)) =
              slots maximumBits ((UInt8.ofNat symbol, bits) ::
                levelSymbols bits lengths (symbol + 1)) := by
          rw [slots, slots, table_cons, List.map_append, List.map_replicate]
          rfl
        rw [hslots]
      · rw [List.length_append, List.length_replicate, hdone]
        ring
      · rw [List.length_drop]
        omega
    · rw [if_neg h] at hroom ⊢
      rw [if_pos h]
      exact ih hdone hroom

theorem dvd_kraft (lengths : List ℕ) (maximumBits bits : ℕ) :
    2 ^ (maximumBits - bits) ∣ kraft lengths maximumBits bits := by
  induction bits with
  | zero => exact dvd_zero _
  | succ bits ih =>
    rw [kraft, Nat.shiftLeft_eq]
    refine dvd_add (dvd_trans (pow_dvd_pow 2 ?_) ih) (dvd_mul_left _ _)
    omega

/-- **Run lemma.** The codes of all lengths up to `bits` take the places up to the end. -/
theorem fillLevels_eq {next : ℕ} {done rest : List Slot} (hbits : bits ≤ maximumBits)
    (hdone : done.length = next * 2 ^ (maximumBits - bits))
    (hrest : rest.length = kraft lengths maximumBits bits)
    (hfull : done.length + rest.length = 2 ^ maximumBits) :
    fillLevels lengths maximumBits bits next (done ++ rest) =
      .ok (done ++ slots maximumBits (symbolsOf lengths bits)) := by
  induction bits generalizing next done rest with
  | zero =>
    obtain rfl := List.eq_nil_of_length_eq_zero hrest
    rfl
  | succ bits ih =>
    have hlevel := @width_levelSymbols lengths maximumBits (bits + 1) 0
    rw [kraft, Nat.shiftLeft_eq] at hrest
    change width _ _ = counts lengths (bits + 1) * _ at hlevel
    have hstep : 2 ^ (maximumBits - bits) = 2 * 2 ^ (maximumBits - (bits + 1)) := by
      rw [← pow_succ']
      congr 1
      omega
    have hpos := Nat.two_pow_pos (maximumBits - (bits + 1))
    -- half of the places of this length are those of the next one
    have heven : 2 ∣ next + counts lengths (bits + 1) := by
      have hall : 2 ^ (maximumBits - bits) ∣
          (next + counts lengths (bits + 1)) * 2 ^ (maximumBits - (bits + 1)) +
            kraft lengths maximumBits bits := by
        have hsum : (next + counts lengths (bits + 1)) * 2 ^ (maximumBits - (bits + 1)) +
            kraft lengths maximumBits bits = 2 ^ maximumBits := by
          rw [← hfull, hdone, hrest]
          ring
        rw [hsum]
        exact pow_dvd_pow 2 (Nat.sub_le _ _)
      have hpart := (Nat.dvd_add_left (dvd_kraft lengths maximumBits bits)).mp hall
      rw [hstep] at hpart
      exact Nat.dvd_of_mul_dvd_mul_right hpos hpart
    obtain ⟨half, hhalf⟩ := heven
    have hnext : (next + counts lengths (bits + 1)) >>> 1 = half := by
      rw [hhalf, Nat.shiftRight_eq_div_pow]
      omega
    rw [fillLevels, fillLevel_eq hdone (by rw [hlevel, hrest]; exact Nat.le_add_left _ _), ok_bind,
      hnext, ← List.append_assoc, ih (by omega), symbolsOf, slots_append, List.append_assoc]
    · rw [List.length_append, length_slots, hlevel, hdone, hstep, ← Nat.add_mul, hhalf]
      ring
    · rw [List.length_drop, hlevel, hrest, Nat.add_sub_cancel]
    · rw [List.length_append, length_slots, List.length_drop, hlevel, ← hfull, hrest,
        Nat.add_sub_cancel]
      omega

/-- The symbols of a table fill it. -/
theorem fills_symbolsOf (h : kraft lengths maximumBits maximumBits = 2 ^ maximumBits) :
    Fills maximumBits 0 (symbolsOf lengths maximumBits) where
  sorted := by
    generalize maximumBits = bits
    induction bits with
    | zero => exact .nil
    | succ bits ih =>
      rw [symbolsOf, List.pairwise_append]
      refine ⟨List.pairwise_of_forall_mem_list ?_, ih, ?_⟩
      · rintro ⟨a, l⟩ hal ⟨a', l'⟩ hal'
        rw [(mem_levelSymbols.mp hal).1, (mem_levelSymbols.mp hal').1]
      · rintro ⟨a, l⟩ hal ⟨a', l'⟩ hal'
        have hl := (mem_levelSymbols.mp hal).1
        have hl' := (mem_symbolsOf.mp hal').2.1
        show l' ≤ l
        omega
  le := by
    rintro ⟨a, l⟩ hal
    exact (mem_symbolsOf.mp hal).2.1
  full := by rw [Nat.zero_add, width_symbolsOf, h]

/-- **Main lemma.** The lookup table that is built from lengths. -/
theorem fromLengths_spec {t : Table} (h : fromLengths lengths = .ok t) :
    lengths.max? = some t.maximumBits ∧ t.maximumBits ≤ 11 ∧
      Fills t.maximumBits 0 (symbolsOf lengths t.maximumBits) ∧
      t.lookup = slots t.maximumBits (symbolsOf lengths t.maximumBits) := by
  obtain ⟨maximumBits, hmax, h⟩ := bind_eq_ok.mp h
  obtain ⟨_, hrange, h⟩ := bind_eq_ok.mp h
  obtain ⟨_, hkraft, h⟩ := bind_eq_ok.mp h
  rw [refuseIf_eq_ok, not_or] at hrange
  rw [refuseIf_eq_ok, not_not, Nat.one_shiftLeft] at hkraft
  have hfill := @fillLevels_eq lengths maximumBits maximumBits 0 []
    (List.replicate (1 <<< maximumBits) .empty) le_rfl (Nat.zero_mul _).symm
    (by rw [List.length_replicate, hkraft, Nat.one_shiftLeft])
    (by rw [List.length_replicate, Nat.one_shiftLeft]; exact Nat.zero_add _)
  rw [List.nil_append, List.nil_append] at hfill
  rw [hfill, ok_bind] at h
  obtain rfl := Except.ok.inj h
  exact ⟨okOr_eq_ok.mp hmax, not_lt.mp hrange.2, fills_symbolsOf hkraft, rfl⟩

/-! ## Decoding -/

/-- The code of a symbol of a table with the lengths. -/
def codeOf (lengths : List ℕ) (maximumBits : ℕ) (symbol : UInt8) : List Bool :=
  ((codes maximumBits 0 (symbolsOf lengths maximumBits)).lookup symbol).getD []

/-- The symbols that have codes. -/
def HasLength (lengths : List ℕ) (symbol : UInt8) (length : ℕ) : Prop :=
  0 < length ∧ ∃ i, lengths[i]? = some length ∧ symbol = UInt8.ofNat i

theorem lookup_of_mem {α β : Type} [BEq α] [LawfulBEq α] {l : List (α × β)} {a : α} {b : β}
    (hnodup : (l.map Prod.fst).Nodup) (h : (a, b) ∈ l) : l.lookup a = some b := by
  induction l with
  | nil => exact absurd h List.not_mem_nil
  | cons p l ih =>
    obtain ⟨a', b'⟩ := p
    rw [List.map_cons, List.nodup_cons] at hnodup
    obtain heq | hrest := List.mem_cons.mp h
    · obtain ⟨rfl, rfl⟩ := Prod.mk.inj heq
      exact List.lookup_cons_self
    · have hne : (a == a') = false := by
        rw [beq_eq_false_iff_ne]
        rintro rfl
        exact hnodup.1 (List.mem_map.mpr ⟨(a, b), hrest, rfl⟩)
      rw [List.lookup_cons, hne]
      exact ih hnodup.2 hrest

/-- A table that is built from the lengths, for bytes as symbols. -/
structure Built (lengths : List ℕ) (t : Table) : Prop where
  ok : fromLengths lengths = .ok t
  length_le : lengths.length ≤ 256

variable {t : Table}

theorem Built.nodup_codes (h : Built lengths t) :
    ((codes t.maximumBits 0 (symbolsOf lengths t.maximumBits)).map Prod.fst).Nodup := by
  have hkeys := congrArg (List.map Prod.fst)
    (map_codes (m := t.maximumBits) 0 (symbolsOf lengths t.maximumBits))
  rw [List.map_map] at hkeys
  have hsame : (codes t.maximumBits 0 (symbolsOf lengths t.maximumBits)).map Prod.fst =
      (symbolsOf lengths t.maximumBits).map Prod.fst := hkeys
  rw [hsame]
  exact nodup_symbolsOf h.length_le _

/-- The codes are those of the symbols with a length. -/
theorem Built.of_mem_codes (h : Built lengths t) {a : UInt8} {w : List Bool}
    (hw : (a, w) ∈ codes t.maximumBits 0 (symbolsOf lengths t.maximumBits)) :
    HasLength lengths a w.length ∧ w = codeOf lengths t.maximumBits a := by
  have hsymbol : (a, w.length) ∈ symbolsOf lengths t.maximumBits := by
    rw [← map_codes (m := t.maximumBits) 0 (symbolsOf lengths t.maximumBits)]
    exact List.mem_map.mpr ⟨_, hw, rfl⟩
  obtain ⟨hpos, -, hi⟩ := mem_symbolsOf.mp hsymbol
  refine ⟨⟨hpos, hi⟩, ?_⟩
  rw [codeOf, lookup_of_mem h.nodup_codes hw]
  rfl

/-- A symbol with a length has a code of that length. -/
theorem Built.mem_codes (h : Built lengths t) {a : UInt8} {length : ℕ}
    (ha : HasLength lengths a length) :
    (a, codeOf lengths t.maximumBits a) ∈ codes t.maximumBits 0 (symbolsOf lengths t.maximumBits) ∧
      (codeOf lengths t.maximumBits a).length = length := by
  obtain ⟨hpos, i, hi, ha⟩ := ha
  have hmax := (fromLengths_spec h.ok).1
  have hle : length ≤ t.maximumBits :=
    (List.max?_eq_some_iff.mp hmax).2 _ (List.mem_of_getElem? hi)
  have hsymbol := mem_symbolsOf.mpr ⟨hpos, hle, i, hi, ha⟩
  rw [← map_codes (m := t.maximumBits) 0 (symbolsOf lengths t.maximumBits)] at hsymbol
  obtain ⟨⟨a', w⟩, hw, heq⟩ := List.mem_map.mp hsymbol
  obtain ⟨rfl, rfl⟩ := Prod.mk.inj heq
  rw [codeOf, lookup_of_mem h.nodup_codes hw]
  exact ⟨hw, rfl⟩

/-- The slot that a text finds. -/
theorem Built.lookup_eq (h : Built lengths t) {a : UInt8} {length : ℕ}
    (ha : HasLength lengths a length) {w : List Bool} (hw : w.length = t.maximumBits)
    (hfront : codeOf lengths t.maximumBits a <+: w) :
    t.lookup[value w]? = some ⟨a, length⟩ := by
  obtain ⟨-, -, hfills, hlookup⟩ := fromLengths_spec h.ok
  obtain ⟨hmem, hlength⟩ := h.mem_codes ha
  have hlt := value_lt w
  rw [hw] at hlt
  have hdigits := digits_value w
  rw [hw] at hdigits
  obtain ⟨-, hplace⟩ := table_of_prefix hfills hmem hlt (by rw [hdigits]; exact hfront)
  rw [hlookup, slots, List.getElem?_map, ← Nat.sub_zero (value w), hplace, hlength]
  rfl

/-- **Step lemma.** A symbol is decoded from its code, whatever is left behind it. -/
theorem Built.decodeSymbol (h : Built lengths t) {a : UInt8} {length : ℕ}
    (ha : HasLength lengths a length) {s : ReverseBits} {w : List Bool}
    (hs : Stream s (codeOf lengths t.maximumBits a ++ w)) :
    ∃ s', decodeSymbol t s = .ok (a, s') ∧ Stream s' w := by
  obtain ⟨hfills, -⟩ := (fromLengths_spec h.ok).2.2
  obtain ⟨hmem, hlength⟩ := h.mem_codes ha
  have hle := PrefixCode.length_le hfills hmem
  obtain ⟨s', hconsume, hs'⟩ := hs.consume
  refine ⟨s', ?_, hs'⟩
  have hremaining := hs.remaining_eq
  rw [List.length_append] at hremaining
  -- the text that is looked up begins with the code
  have hslot : t.lookup[s.peekPadded t.maximumBits]? = some ⟨a, length⟩ := by
    rw [hs.peekPadded]
    refine h.lookup_eq ha ?_ ?_
    · rw [List.length_append, List.length_take, List.length_replicate]
      omega
    · refine List.IsPrefix.trans ?_ (List.prefix_append _ _)
      rw [List.take_append, List.take_of_length_le hle]
      exact List.prefix_append _ _
  rw [Huffman.decodeSymbol, List.getD_eq_getElem?_getD, hslot]
  have hpos := ha.1
  show (refuseIf (length = 0) _ >>= _) = _
  rw [refuseIf_of_not hpos.ne', ok_bind]
  show (refuseIf (length > s.remaining) _ >>= _) = _
  rw [refuseIf_of_not (by omega), ok_bind]
  show (s.consume length >>= _) = _
  rw [← hlength, hconsume]
  rfl

/-- **Run lemma.** The symbols of a text are decoded. -/
theorem Built.decodeLoop (h : Built lengths t) {symbols : List UInt8}
    (hsymbols : ∀ a ∈ symbols, ∃ length, HasLength lengths a length) {s : ReverseBits}
    {w : List Bool} (hs : Stream s (symbols.flatMap (codeOf lengths t.maximumBits) ++ w))
    (output : List UInt8) :
    decodeLoop t symbols.length s output = .ok (output ++ symbols) := by
  induction symbols generalizing s output with
  | nil => rw [List.append_nil]; rfl
  | cons a symbols ih =>
    obtain ⟨⟨length, ha⟩, hsymbols⟩ := List.forall_mem_cons.mp hsymbols
    rw [List.flatMap_cons, List.append_assoc] at hs
    obtain ⟨s', hsymbol, hs'⟩ := h.decodeSymbol ha hs
    rw [List.length_cons, Huffman.decodeLoop, hsymbol, ok_bind]
    dsimp only
    rw [ih hsymbols hs', List.append_assoc]
    rfl

theorem Built.decodeStream (h : Built lengths t) {symbols : List UInt8}
    (hsymbols : ∀ a ∈ symbols, ∃ length, HasLength lengths a length) (output : List UInt8) :
    decodeStream (encode (symbols.flatMap (codeOf lengths t.maximumBits))) t symbols.length output =
      .ok (output ++ symbols) := by
  rw [Huffman.decodeStream]
  split_ifs with hcount
  · rw [List.eq_nil_of_length_eq_zero hcount, List.append_nil]
  · obtain ⟨s, hnew, hs⟩ := new_encode (symbols.flatMap (codeOf lengths t.maximumBits))
    rw [hnew, ok_bind]
    exact h.decodeLoop hsymbols (by rw [List.append_nil]; exact hs) output

/-! ## Tables from weights -/

/-- The sum of the parts that the weights stand for. -/
def weightSum (weights : List ℕ) : ℕ :=
  (weights.map fun weight => if weight = 0 then 0 else 2 ^ (weight - 1)).sum

theorem totalWeight_eq {weights : List UInt8} {sum total : ℕ}
    (h : totalWeight weights sum = .ok total) :
    total = sum + weightSum (weights.map UInt8.toNat) := by
  induction weights generalizing sum with
  | nil => exact (Except.ok.inj h).symm
  | cons weight weights ih =>
    obtain ⟨_, -, h⟩ := bind_eq_ok.mp h
    have hcons : weightSum ((weight :: weights).map UInt8.toNat) =
        (if weight.toNat = 0 then 0 else 2 ^ (weight.toNat - 1)) +
          weightSum (weights.map UInt8.toNat) := rfl
    rw [hcons]
    by_cases hzero : weight = 0
    · subst hzero
      rw [if_neg (not_not.mpr rfl)] at h
      rw [ih h]
      exact congrArg (sum + ·) (Nat.zero_add _).symm
    · have hne : weight.toNat ≠ 0 := fun hzero' => hzero (UInt8.toNat_inj.mp hzero')
      rw [if_pos hzero] at h
      obtain ⟨_, -, h⟩ := bind_eq_ok.mp h
      rw [ih h, if_neg hne, Nat.one_shiftLeft, Nat.add_assoc]

theorem le_weightSum {weights : List ℕ} {weight : ℕ} (h : weight ∈ weights) (hne : weight ≠ 0) :
    2 ^ (weight - 1) ≤ weightSum weights := by
  have hmem : 2 ^ (weight - 1) ∈
      weights.map fun weight => if weight = 0 then 0 else 2 ^ (weight - 1) :=
    List.mem_map.mpr ⟨weight, h, if_neg hne⟩
  exact List.single_le_sum (fun _ _ => Nat.zero_le _) _ hmem

theorem weightSum_append (weights : List ℕ) (k : ℕ) :
    weightSum (weights ++ [k + 1]) = weightSum weights + 2 ^ k := by
  rw [weightSum, List.map_append, List.sum_append]
  rfl

/-- **Main lemma.** The last weight makes the sum a power of two. -/
theorem fromWeights_spec {weights : List UInt8} (h : fromWeights weights = .ok t) :
    ∃ last maximumBits, last ≠ 0 ∧
      weightSum (weights.map UInt8.toNat ++ [last]) = 2 ^ maximumBits ∧
      (∀ weight ∈ weights.map UInt8.toNat ++ [last], weight ≠ 0 → weight ≤ maximumBits) ∧
      Built ((weights.map UInt8.toNat ++ [last]).map (lengthOf maximumBits)) t := by
  obtain ⟨total, htotal, h⟩ := bind_eq_ok.mp h
  obtain ⟨_, hpos, h⟩ := bind_eq_ok.mp h
  obtain ⟨_, -, h⟩ := bind_eq_ok.mp h
  obtain ⟨_, -, h⟩ := bind_eq_ok.mp h
  obtain ⟨_, hpower, h⟩ := bind_eq_ok.mp h
  obtain ⟨_, hcount, h⟩ := bind_eq_ok.mp h
  rw [refuseIf_eq_ok] at hpos hpower hcount
  rw [Bool.not_eq_false, Nat.one_shiftLeft] at hpower
  have hpower := of_decide_eq_true hpower
  rw [Nat.one_shiftLeft] at hpower
  have hsum := totalWeight_eq htotal
  rw [Nat.zero_add] at hsum
  have hlt : total < 2 ^ (Nat.log2 total + 1) := Nat.lt_log2_self
  refine ⟨trailingZeros (1 <<< (Nat.log2 total + 1) - total) + 1, Nat.log2 total + 1,
    Nat.succ_ne_zero _, ?_, fun weight hmem hne => ?_, h, ?_⟩
  · rw [weightSum_append, ← hsum, Nat.one_shiftLeft, trailingZeros, ← hpower]
    omega
  · have hpart : 2 ^ (weight - 1) < 2 ^ (Nat.log2 total + 1) := by
      obtain hmem | hmem := List.mem_append.mp hmem
      · have hle := le_weightSum hmem hne
        omega
      · rw [List.mem_singleton.mp hmem, Nat.add_sub_cancel, Nat.one_shiftLeft, trailingZeros,
          ← hpower]
        omega
    have hlt := (Nat.pow_lt_pow_iff_right (by decide)).mp hpart
    omega
  · rw [List.length_map, List.length_append, List.length_map, List.length_singleton]
    omega

/-- The symbols whose weights are not zero. -/
def HasCode (weights : List ℕ) (a : UInt8) : Prop :=
  ∃ weight, weights[a.toNat]? = some weight ∧ weight ≠ 0

/-- A complete prefix code for the symbols whose weights are not zero, and its table: each text of
the length of an index begins with one code, and finds its symbol. -/
structure CompleteCode (weights : List ℕ) (maximumBits : ℕ) (t : Table) (code : UInt8 → List Bool) :
    Prop where
  length_eq : ∀ a weight, weights[a.toNat]? = some weight → weight ≠ 0 →
    (code a).length = maximumBits + 1 - weight
  prefix_free : ∀ a b, HasCode weights a → HasCode weights b → code a <+: code b → a = b
  complete : ∀ w : List Bool, w.length = t.maximumBits → ∃ a, HasCode weights a ∧ code a <+: w ∧
    t.lookup[value w]? = some ⟨a, (code a).length⟩
  length_lookup : t.lookup.length = 2 ^ t.maximumBits

theorem hasLength_iff {weights : List ℕ} (hlength : weights.length ≤ 256)
    (hle : ∀ weight ∈ weights, weight ≠ 0 → weight ≤ maximumBits) {a : UInt8} {length : ℕ} :
    HasLength (weights.map (lengthOf maximumBits)) a length ↔
      ∃ weight, weights[a.toNat]? = some weight ∧ weight ≠ 0 ∧
        length = maximumBits + 1 - weight := by
  constructor
  · rintro ⟨hpos, i, hi, rfl⟩
    rw [List.getElem?_map] at hi
    obtain ⟨weight, hweight, rfl⟩ := Option.map_eq_some_iff.mp hi
    have hlt := (List.getElem?_eq_some_iff.mp hweight).1
    have hne : weight ≠ 0 := by
      rintro rfl
      exact absurd hpos (Nat.lt_irrefl 0)
    refine ⟨weight, ?_, hne, if_neg hne⟩
    rw [UInt8.toNat_ofNat', Nat.mod_eq_of_lt (by omega), hweight]
  · rintro ⟨weight, hweight, hne, rfl⟩
    have hbound := hle weight (List.mem_of_getElem? hweight) hne
    refine ⟨by omega, a.toNat, ?_, (UInt8.ofNat_toNat).symm⟩
    rw [List.getElem?_map, hweight, Option.map_some, lengthOf, if_neg hne]

/-- **Main theorem.** The table of weights that are not refused is that of a complete prefix code,
with the last weight inferred, and a stream of the codes of any symbols is decoded to them. -/
theorem huffman_code (weights : List UInt8) (t : Table) (h : fromWeights weights = .ok t) :
    ∃ last maximumBits code, last ≠ 0 ∧
      weightSum (weights.map UInt8.toNat ++ [last]) = 2 ^ maximumBits ∧
      CompleteCode (weights.map UInt8.toNat ++ [last]) maximumBits t code ∧
      ∀ symbols output, (∀ a ∈ symbols, HasCode (weights.map UInt8.toNat ++ [last]) a) →
        decodeStream (encode (symbols.flatMap code)) t symbols.length output =
          .ok (output ++ symbols) := by
  obtain ⟨last, maximumBits, hlast, hsum, hle, hbuilt⟩ := fromWeights_spec h
  refine ⟨last, maximumBits, _, hlast, hsum, ?_, fun symbols output hsymbols =>
    hbuilt.decodeStream (fun a ha => ?_) output⟩
  · obtain ⟨-, -, hfills, hlookup⟩ := fromLengths_spec hbuilt.ok
    have hlengths : (weights.map UInt8.toNat ++ [last]).length ≤ 256 := by
      have hlength := hbuilt.length_le
      rwa [List.length_map] at hlength
    have hhas {a : UInt8} (ha : HasCode (weights.map UInt8.toNat ++ [last]) a) :
        ∃ length, HasLength ((weights.map UInt8.toNat ++ [last]).map (lengthOf maximumBits)) a
          length := by
      obtain ⟨weight, hweight, hne⟩ := ha
      exact ⟨_, (hasLength_iff hlengths hle).mpr ⟨weight, hweight, hne, rfl⟩⟩
    constructor
    · intro a weight hweight hne
      exact (hbuilt.mem_codes ((hasLength_iff hlengths hle).mpr ⟨weight, hweight, hne, rfl⟩)).2
    · intro a b ha hb hfront
      obtain ⟨length, ha⟩ := hhas ha
      obtain ⟨length', hb⟩ := hhas hb
      exact (prefix_unique hfills (hbuilt.mem_codes ha).1 (hbuilt.mem_codes hb).1 hfront).1
    · intro w hw
      have hlt := value_lt w
      rw [hw] at hlt
      obtain ⟨a, u, hu, hfront⟩ := exists_prefix hfills (Nat.zero_le _) hlt
      obtain ⟨ha, rfl⟩ := hbuilt.of_mem_codes hu
      have hdigits := digits_value w
      rw [hw] at hdigits
      rw [hdigits] at hfront
      obtain ⟨weight, hweight, hne, -⟩ := (hasLength_iff hlengths hle).mp ha
      exact ⟨a, ⟨weight, hweight, hne⟩, hfront, hbuilt.lookup_eq ha hw hfront⟩
    · have hwidth := hfills.full
      rw [Nat.zero_add] at hwidth
      rw [hlookup, length_slots, hwidth]
  · obtain ⟨weight, hweight, hne⟩ := hsymbols a ha
    have hlength := hbuilt.length_le
    rw [List.length_map] at hlength
    exact ⟨_, (hasLength_iff hlength hle).mpr ⟨weight, hweight, hne, rfl⟩⟩

/-- Two symbols of weight one and the one that is left. -/
theorem huffman_code_three :
    ∃ last maximumBits code, last ≠ 0 ∧
      weightSum ([1, 1] ++ [last]) = 2 ^ maximumBits ∧
      CompleteCode ([1, 1] ++ [last]) maximumBits ⟨2, [⟨0, 2⟩, ⟨1, 2⟩, ⟨2, 1⟩, ⟨2, 1⟩]⟩ code ∧
      ∀ symbols output, (∀ a ∈ symbols, HasCode ([1, 1] ++ [last]) a) →
        decodeStream (encode (symbols.flatMap code)) ⟨2, [⟨0, 2⟩, ⟨1, 2⟩, ⟨2, 1⟩, ⟨2, 1⟩]⟩
          symbols.length output = .ok (output ++ symbols) :=
  huffman_code [1, 1] _ rfl

end Mrml.Zstd.Huffman
