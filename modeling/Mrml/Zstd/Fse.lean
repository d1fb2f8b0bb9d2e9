import Mrml.Common.Trap
import Mrml.Zstd.Bits

/-!
# Tables of finite state entropy

Model of `crates/mrml-zstd/src/fse.rs` (lines 5–164). A loop that does not come to its end within
its fuel is not finished, and an index or a subtraction that the source would trap on is a panic.

Results:
* `header_spec`: the probabilities of a header use up the states.
* `cellsOf_spec`: the walk gives each symbol as many states as its probability says.
* `fromProbabilities_spec`: the table of probabilities that use up the states.
* `fse_tables`: the tables of all headers and of the predefined distributions are exact.
-/

namespace Mrml.Zstd.Fse

/-! ## Model -/

/-- `Entry` (lines 5–10). -/
structure Entry where
  symbol : ℕ
  bits : ℕ
  baseline : ℕ
  deriving DecidableEq

/-- `Table` (lines 12–16). -/
structure Table where
  accuracy : ℕ
  entries : List Entry
  deriving DecidableEq

/-- `u16::MAX`, the mark of a state without a symbol. -/
def free : ℕ := 65535

/-- `symbol as u16`. -/
def asU16 (symbol : ℕ) : ℕ := symbol % 65536

/-- The loop over the symbols with a probability below one (lines 27–32), from `symbol` on. -/
def markRare : List ℤ → ℕ → ℕ → List ℕ → Except (Fault Error) (List ℕ)
  | [], _, _, cells => .ok cells
  | probability :: probabilities, symbol, high, cells =>
    if probability = -1 then do
      refuseIf (high = 0) (.error .invalidFseTable)
      markRare probabilities (symbol + 1) (high - 1) (cells.set (high - 1) (asU16 symbol))
    else markRare probabilities (symbol + 1) high cells

/-- `(position + step) & (size - 1)`. -/
def move (size step position : ℕ) : ℕ := (position + step) &&& (size - 1)

/-- `while symbols[position] != u16::MAX` (lines 40–42). -/
def findFree (size step : ℕ) (cells : List ℕ) : ℕ → ℕ → Except (Fault Error) ℕ
  | 0, _ => .error .unfinished
  | fuel + 1, position =>
    if cells.getD position free ≠ free then findFree size step cells fuel (move size step position)
    else .ok position

/-- The loop over the states of a symbol (lines 39–45). -/
def place (size step symbol : ℕ) : ℕ → List ℕ → ℕ → Except (Fault Error) (List ℕ × ℕ)
  | 0, cells, position => .ok (cells, position)
  | count + 1, cells, position => do
    let position ← findFree size step cells (size + 1) position
    place size step symbol count (cells.set position (asU16 symbol)) (move size step position)

/-- The walk (lines 35–46), from `symbol` on. -/
def spread (size step : ℕ) : List ℤ → ℕ → List ℕ → ℕ → Except (Fault Error) (List ℕ)
  | [], _, cells, _ => .ok cells
  | probability :: probabilities, symbol, cells, position =>
    if probability ≤ 0 then spread size step probabilities (symbol + 1) cells position
    else do
      let (cells, position) ← place size step symbol probability.toNat cells position
      spread size step probabilities (symbol + 1) cells position

/-- `step` (line 33). -/
def stride (size : ℕ) : ℕ := size >>> 1 + size >>> 3 + 3

/-- The symbols of the states (lines 24–46). -/
def cellsOf (probabilities : List ℤ) (size : ℕ) : Except (Fault Error) (List ℕ) := do
  let cells ← markRare probabilities 0 size (List.replicate size free)
  spread size (stride size) probabilities 0 cells 0

/-- An entry of `next` at first (lines 53–57). -/
def firstValue (probability : ℤ) : ℕ := if probability = -1 then 1 else (max probability 0).toNat

/-- The loop over the states (lines 61–86). -/
def entriesLoop (probabilities : List ℤ) (accuracy : ℕ) :
    List ℕ → List ℕ → Except (Fault Error) (List Entry)
  | [], _ => .ok []
  | symbol :: cells, next => do
    let probability ← okOr probabilities[symbol]? .panic
    if probability = -1 then do
      let entries ← entriesLoop probabilities accuracy cells next
      return ⟨symbol, accuracy, 0⟩ :: entries
    else do
      let value ← okOr next[symbol]? .panic
      let next := next.set symbol (value + 1)
      refuseIf (value = 0) (.error .invalidFseTable)
      refuseIf (accuracy < Nat.log2 value) .panic
      let bits := accuracy - Nat.log2 value
      refuseIf (value <<< bits < 1 <<< accuracy ∨ value <<< bits - 1 <<< accuracy ≥ 1 <<< accuracy)
        (.error .invalidFseTable)
      let entries ← entriesLoop probabilities accuracy cells next
      return ⟨symbol, bits, value <<< bits - 1 <<< accuracy⟩ :: entries

/-- `from_probabilities` (lines 19–88). -/
def fromProbabilities (probabilities : List ℤ) (accuracy : ℕ) : Except (Fault Error) Table := do
  refuseIf (¬(5 ≤ accuracy ∧ accuracy ≤ 9)) (.error .invalidFseTable)
  let cells ← cellsOf probabilities (1 <<< accuracy)
  refuseIf (free ∈ cells) (.error .invalidFseTable)
  let entries ← entriesLoop probabilities accuracy cells (probabilities.map firstValue)
  return ⟨accuracy, entries⟩

/-! ### Headers -/

/-- A `read` of the forward reader with `?`. -/
def readBits (s : ForwardBits) (count : ℕ) : Except (Fault Error) (ℕ × ForwardBits) :=
  (s.read count).mapError .error

/-- The loop over the flags of a run of zeros (lines 112–118). -/
def zeroRun : ℕ → ForwardBits → ℕ → Except (Fault Error) (ℕ × ForwardBits)
  | 0, _, _ => .error .unfinished
  | fuel + 1, s, zeros => do
    let (count, s) ← readBits s 2
    if count ≠ 3 then .ok (zeros + count, s) else zeroRun fuel s (zeros + count)

/-- The loop that pushes the zeros (lines 119–125). `symbol` is the number of probabilities. -/
def pushZeros (maximumSymbol : ℕ) : ℕ → List ℤ → Except (Fault Error) (List ℤ)
  | 0, probabilities => .ok probabilities
  | zeros + 1, probabilities => do
    refuseIf (probabilities.length > maximumSymbol) (.error .invalidFseTable)
    pushZeros maximumSymbol zeros (probabilities ++ [0])

/-- `as i16`. -/
def asI16 (n : ℕ) : ℤ := if n % 65536 < 32768 then (n % 65536 : ℕ) else (n % 65536 : ℕ) - 65536

/-- The value in a field and the number of its bits (lines 131–145). -/
def fieldOf (remaining width peek : ℕ) : ℕ × ℕ :=
  let threshold := 1 <<< width - 1 - remaining
  let low := peek &&& (1 <<< (width - 1) - 1)
  if low < threshold then (low, width - 1)
  else (if peek ≥ 1 <<< (width - 1) then peek - threshold else peek, width)

/-- The field of a probability (lines 129–146). -/
def readValue (s : ForwardBits) (remaining : ℕ) : Except (Fault Error) (ℕ × ForwardBits) := do
  let width := Nat.log2 remaining + 1
  let peek ← (s.peek width).mapError .error
  let field := fieldOf remaining width peek
  let s ← (s.consume field.2).mapError .error
  return (field.1, s)

/-- The loop over the probabilities (lines 106–161). `symbol` is the number of those that are
pushed. -/
def headerLoop (maximumSymbol : ℕ) :
    ℕ → ForwardBits → ℕ → List ℤ → Bool → Except (Fault Error) (List ℤ × ForwardBits)
  | 0, _, _, _, _ => .error .unfinished
  | fuel + 1, s, remaining, probabilities, repeatZero =>
    if remaining > 1 then do
      refuseIf (probabilities.length > maximumSymbol) (.error .invalidFseTable)
      if repeatZero then do
        let (zeros, s) ← zeroRun (s.bytes.length * 8 + 1) s 0
        let probabilities ← pushZeros maximumSymbol zeros probabilities
        headerLoop maximumSymbol fuel s remaining probabilities false
      else do
        let (value, s) ← readValue s remaining
        refuseIf (asI16 value = -32768) .panic
        let probability := asI16 value - 1
        let spent := if probability < 0 then 1 else probability.toNat
        refuseIf (probability ≠ 0 ∧ remaining < spent + 1) (.error .invalidFseTable)
        headerLoop maximumSymbol fuel s (remaining - spent) (probabilities ++ [probability])
          (probability = 0)
    else .ok (probabilities, s)

/-- The header of a table (lines 96–161): its accuracy and its probabilities. -/
def header (bytes : List UInt8) (maximumAccuracy maximumSymbol : ℕ) :
    Except (Fault Error) (ℕ × List ℤ × ForwardBits) := do
  let (field, s) ← readBits (.new bytes) 4
  let accuracy := field + 5
  refuseIf (accuracy > maximumAccuracy) (.error .invalidFseTable)
  let (probabilities, s) ←
    headerLoop maximumSymbol (bytes.length * 8 + 1) s (1 <<< accuracy + 1) [] false
  return (accuracy, probabilities, s)

/-- `parse_table` (lines 91–164). -/
def parseTable (bytes : List UInt8) (maximumAccuracy maximumSymbol : ℕ) :
    Except (Fault Error) (Table × ℕ) := do
  let (accuracy, probabilities, s) ← header bytes maximumAccuracy maximumSymbol
  let table ← fromProbabilities probabilities accuracy
  return (table, s.consumedBytes)

/-! ## The walk -/

section Walk

variable {size step : ℕ} {cells : List ℕ}

/-- A number of states and a stride without a common factor. -/
structure Strides (size step : ℕ) : Prop where
  power : ∃ k, size = 2 ^ k
  coprime : step.Coprime size
  one_lt : 1 < size

theorem strides_stride {accuracy : ℕ} (h : 5 ≤ accuracy) :
    Strides (2 ^ accuracy) (stride (2 ^ accuracy)) := by
  obtain ⟨k, rfl⟩ := Nat.exists_eq_add_of_le h
  refine ⟨⟨_, rfl⟩, ?_, Nat.one_lt_two_pow (by omega)⟩
  refine Nat.Coprime.pow_right _ (Nat.coprime_two_right.mpr ?_)
  -- a half and an eighth of the states are even numbers
  have hstride : stride (2 ^ (5 + k)) = 2 * (10 * 2 ^ k + 1) + 1 := by
    rw [stride, pow_add, Nat.shiftRight_eq_div_pow, Nat.shiftRight_eq_div_pow]
    omega
  rw [hstride]
  exact odd_two_mul_add_one _

theorem move_eq (h : Strides size step) (position : ℕ) :
    move size step position = (position + step) % size := by
  obtain ⟨k, rfl⟩ := h.power
  exact Nat.and_two_pow_sub_one_eq_mod _ k

theorem iterate_move (h : Strides size step) {position : ℕ} (hposition : position < size)
    (moves : ℕ) : (move size step)^[moves] position = (position + moves * step) % size := by
  induction moves with
  | zero => rw [Function.iterate_zero_apply, Nat.zero_mul, Nat.add_zero, Nat.mod_eq_of_lt hposition]
  | succ moves ih =>
    rw [Function.iterate_succ_apply', ih, move_eq h, Nat.mod_add_mod, Nat.succ_mul, Nat.add_assoc]

/-- **Main lemma.** The walk comes to every state, from wherever it is. -/
theorem exists_moves (h : Strides size step) {position state : ℕ} (hposition : position < size)
    (hstate : state < size) : ∃ moves < size, (move size step)^[moves] position = state := by
  obtain ⟨inverse, -, hinverse⟩ := Nat.exists_mul_mod_eq_one_of_coprime h.coprime h.one_lt
  refine ⟨(state + (size - position)) * inverse % size, Nat.mod_lt _ (by omega), ?_⟩
  rw [iterate_move h hposition]
  have hone : step * inverse ≡ 1 [MOD size] := by
    rw [Nat.ModEq, hinverse, Nat.mod_eq_of_lt h.one_lt]
  have hmoves : (state + (size - position)) * inverse % size * step ≡
      state + (size - position) [MOD size] := by
    calc (state + (size - position)) * inverse % size * step
        ≡ (state + (size - position)) * inverse * step [MOD size] :=
          (Nat.mod_modEq _ _).mul_right _
      _ = (state + (size - position)) * (step * inverse) := by ring
      _ ≡ (state + (size - position)) * 1 [MOD size] := hone.mul_left _
      _ = state + (size - position) := Nat.mul_one _
  calc (position + (state + (size - position)) * inverse % size * step) % size
      = (position + (state + (size - position))) % size := hmoves.add_left position
    _ = (state + size) % size := by congr 1; omega
    _ = state := by rw [Nat.add_mod_right, Nat.mod_eq_of_lt hstate]

/-- A free state is found if the walk comes to one within its fuel. -/
theorem findFree_of_iterate (h : Strides size step) {fuel moves position : ℕ}
    (hposition : position < size) (hfuel : moves < fuel)
    (hfree : cells.getD ((move size step)^[moves] position) free = free) :
    ∃ state < size, findFree size step cells fuel position = .ok state ∧
      cells.getD state free = free := by
  induction fuel generalizing moves position with
  | zero => exact absurd hfuel (Nat.not_lt_zero _)
  | succ fuel ih =>
    rw [findFree]
    by_cases hhere : cells.getD position free ≠ free
    · rw [if_pos hhere]
      cases moves with
      | zero => exact absurd hfree hhere
      | succ moves =>
        rw [Function.iterate_succ_apply] at hfree
        have hnext : move size step position < size := by
          rw [move_eq h]
          exact Nat.mod_lt _ (by have := h.one_lt; omega)
        exact ih hnext (by omega) hfree
    · rw [if_neg hhere]
      exact ⟨position, hposition, rfl, not_not.mp hhere⟩

/-- The walk finds a free state if there is one. -/
theorem findFree_spec (h : Strides size step) (hlength : cells.length = size)
    (hfree : free ∈ cells) {position : ℕ} (hposition : position < size) :
    ∃ state < size, findFree size step cells (size + 1) position = .ok state ∧
      cells[state]? = some free := by
  obtain ⟨i, hi, hcell⟩ := List.getElem_of_mem hfree
  rw [hlength] at hi
  obtain ⟨moves, hmoves, hiterate⟩ := exists_moves h hposition hi
  obtain ⟨state, hstate, hfind, hcell⟩ := @findFree_of_iterate _ _ cells h
    (size + 1) moves position hposition (Nat.lt_succ_of_lt hmoves)
    (by rw [hiterate, List.getD_eq_getElem _ _ (by omega), hcell])
  refine ⟨state, hstate, hfind, ?_⟩
  rw [List.getD_eq_getElem _ _ (by omega)] at hcell
  rw [List.getElem?_eq_getElem (by omega), hcell]

/-- A state that was free is given away. -/
theorem count_set {state symbol : ℕ} (hcell : cells[state]? = some free) (s : ℕ) :
    (cells.set state symbol).count s + (if s = free then 1 else 0) =
      cells.count s + (if s = symbol then 1 else 0) := by
  obtain ⟨hlt, hcell⟩ := List.getElem?_eq_some_iff.mp hcell
  have hfree : s = free → 0 < cells.count s := by
    rintro rfl
    exact List.count_pos_iff.mpr (hcell ▸ List.getElem_mem hlt)
  rw [List.count_set hlt, hcell]
  simp only [beq_iff_eq, eq_comm (b := s)]
  split_ifs <;> omega

/-- **Run lemma.** The states of a symbol. -/
theorem place_spec (h : Strides size step) (symbol : ℕ) {count position : ℕ}
    (hlength : cells.length = size) (hposition : position < size)
    (hroom : count ≤ cells.count free) :
    ∃ cells' position', place size step symbol count cells position = .ok (cells', position') ∧
      cells'.length = size ∧ position' < size ∧ ∀ s,
        cells'.count s + (if s = free then count else 0) =
          cells.count s + (if s = asU16 symbol then count else 0) := by
  induction count generalizing cells position with
  | zero => exact ⟨cells, position, rfl, hlength, hposition, fun s => by simp⟩
  | succ count ih =>
    have hfree : free ∈ cells := List.count_pos_iff.mp (by omega)
    obtain ⟨state, hstate, hfind, hcell⟩ := findFree_spec h hlength hfree hposition
    have hset := @count_set _ _ (asU16 symbol) hcell
    have hroom' : count ≤ (cells.set state (asU16 symbol)).count free := by
      have hone := hset free
      rw [if_pos rfl] at hone
      split_ifs at hone <;> omega
    have hmove : move size step state < size := by
      rw [move_eq h]
      exact Nat.mod_lt _ (by omega)
    obtain ⟨cells', position', hplace, hlength', hposition', hcount⟩ :=
      ih (by rw [List.length_set, hlength]) hmove hroom'
    refine ⟨cells', position', ?_, hlength', hposition', fun s => ?_⟩
    · rw [place, hfind, ok_bind, hplace]
    · have h1 := hset s
      have h2 := hcount s
      split_ifs at h1 h2 ⊢ <;> omega

/-- The states that a symbol gets from the probabilities, which are those from `symbol` on. -/
def gain (share : ℤ → ℕ) : List ℤ → ℕ → ℕ → ℕ
  | [], _, _ => 0
  | probability :: probabilities, symbol, s =>
    (if s = asU16 symbol then share probability else 0) + gain share probabilities (symbol + 1) s

/-- The states that the walk gives to a symbol. -/
def common (probability : ℤ) : ℕ := if probability ≤ 0 then 0 else probability.toNat

/-- The states that a symbol with a probability below one gets. -/
def rare (probability : ℤ) : ℕ := if probability = -1 then 1 else 0

/-- **Run lemma.** The walk. -/
theorem spread_spec (h : Strides size step) {probabilities : List ℤ} {symbol position : ℕ}
    (hlength : cells.length = size) (hposition : position < size)
    (hroom : (probabilities.map common).sum ≤ cells.count free) :
    ∃ cells', spread size step probabilities symbol cells position = .ok cells' ∧
      cells'.length = size ∧ ∀ s,
        cells'.count s + (if s = free then (probabilities.map common).sum else 0) =
          cells.count s + gain common probabilities symbol s := by
  induction probabilities generalizing symbol cells position with
  | nil => exact ⟨cells, rfl, hlength, fun s => by simp [gain]⟩
  | cons probability probabilities ih =>
    rw [List.map_cons, List.sum_cons] at hroom
    rw [spread]
    by_cases hnone : probability ≤ 0
    · have hcommon : common probability = 0 := if_pos hnone
      obtain ⟨cells', hspread, hlength', hcount⟩ :=
        @ih cells (symbol + 1) position hlength hposition
        (by omega)
      rw [if_pos hnone]
      refine ⟨cells', hspread, hlength', fun s => ?_⟩
      have hcount := hcount s
      rw [List.map_cons, List.sum_cons, hcommon, gain, hcommon]
      split_ifs at hcount ⊢ <;> omega
    · have hcommon : common probability = probability.toNat := if_neg hnone
      obtain ⟨cells₁, position₁, hplace, hlength₁, hposition₁, hcount₁⟩ :=
        @place_spec _ _ _ h symbol probability.toNat position hlength hposition (by omega)
      have hroom₁ : (probabilities.map common).sum ≤ cells₁.count free := by
        have hfree := hcount₁ free
        rw [if_pos rfl] at hfree
        split_ifs at hfree <;> omega
      obtain ⟨cells', hspread, hlength', hcount⟩ := @ih cells₁ (symbol + 1) position₁ hlength₁
        hposition₁ hroom₁
      rw [if_neg hnone, hplace, ok_bind]
      refine ⟨cells', hspread, hlength', fun s => ?_⟩
      have hcount₁ := hcount₁ s
      have hcount := hcount s
      rw [List.map_cons, List.sum_cons, hcommon, gain, hcommon]
      split_ifs at hcount₁ hcount ⊢ <;> omega

/-- **Run lemma.** The symbols with a probability below one, at the last states. -/
theorem markRare_spec {probabilities : List ℤ} {symbol high : ℕ} {marked : List ℕ}
    (hroom : (probabilities.map rare).sum ≤ high) :
    ∃ cells', markRare probabilities symbol high (List.replicate high free ++ marked) =
        .ok cells' ∧ cells'.length = high + marked.length ∧ ∀ s,
          cells'.count s + (if s = free then (probabilities.map rare).sum else 0) =
            (List.replicate high free ++ marked).count s + gain rare probabilities symbol s := by
  induction probabilities generalizing symbol high marked with
  | nil =>
    refine ⟨_, rfl, ?_, fun s => by simp [gain]⟩
    rw [List.length_append, List.length_replicate]
  | cons probability probabilities ih =>
    rw [List.map_cons, List.sum_cons] at hroom
    rw [markRare]
    by_cases hrare : probability = -1
    · have hone : rare probability = 1 := if_pos hrare
      obtain ⟨high, rfl⟩ : ∃ n, high = n + 1 := ⟨high - 1, by omega⟩
      have hset : (List.replicate (high + 1) free ++ marked).set high (asU16 symbol) =
          List.replicate high free ++ asU16 symbol :: marked := by
        rw [List.replicate_succ', List.append_assoc, List.set_append_right _ _ (by simp)]
        simp
      have hcell : (List.replicate (high + 1) free ++ marked)[high]? = some free := by
        rw [List.getElem?_append_left (by simp), List.getElem?_replicate_of_lt (by omega)]
      obtain ⟨cells', hmark, hlength, hcount⟩ :=
        @ih (symbol + 1) high (asU16 symbol :: marked) (by omega)
      rw [if_pos hrare, refuseIf_of_not (by omega), ok_bind, Nat.add_sub_cancel, hset]
      refine ⟨cells', hmark, ?_, fun s => ?_⟩
      · rw [hlength, List.length_cons]
        omega
      · have hcount := hcount s
        have hchange := @count_set _ _ (asU16 symbol) hcell s
        rw [hset] at hchange
        rw [List.map_cons, List.sum_cons, hone, gain, hone]
        split_ifs at hcount hchange ⊢ <;> omega
    · have hzero : rare probability = 0 := if_neg hrare
      obtain ⟨cells', hmark, hlength, hcount⟩ := @ih (symbol + 1) high marked (by omega)
      rw [if_neg hrare]
      refine ⟨cells', hmark, hlength, fun s => ?_⟩
      have hcount := hcount s
      rw [List.map_cons, List.sum_cons, hzero, gain, hzero]
      split_ifs at hcount ⊢ <;> omega

end Walk

/-- Probabilities that use up the states of a table. -/
structure UsesUp (probabilities : List ℤ) (accuracy : ℕ) : Prop where
  accuracy_ge : 5 ≤ accuracy
  accuracy_le : accuracy ≤ 9
  ge : ∀ p ∈ probabilities, -1 ≤ p
  sum : (probabilities.map Int.natAbs).sum = 2 ^ accuracy
  length_le : probabilities.length ≤ 65536

theorem natAbs_eq {p : ℤ} (h : -1 ≤ p) : p.natAbs = rare p + common p := by
  unfold rare common
  split_ifs <;> omega

theorem gain_eq {share : ℤ → ℕ} (hzero : share 0 = 0) {probabilities : List ℤ} {symbol s : ℕ}
    (hlength : symbol + probabilities.length ≤ 65536) :
    gain share probabilities symbol s =
      if symbol ≤ s then share (probabilities.getD (s - symbol) 0) else 0 := by
  induction probabilities generalizing symbol with
  | nil => simp [gain, hzero]
  | cons probability probabilities ih =>
    rw [List.length_cons] at hlength
    have hsymbol : asU16 symbol = symbol := Nat.mod_eq_of_lt (by omega)
    rw [gain, ih (by omega), hsymbol]
    obtain hlt | rfl | hlt := Nat.lt_trichotomy s symbol
    · rw [if_neg (by omega), if_neg (by omega), if_neg (by omega)]
    · rw [if_pos rfl, if_neg (by omega), if_pos le_rfl, Nat.sub_self, List.getD_cons_zero]
      rfl
    · have hsub : s - symbol = s - (symbol + 1) + 1 := by omega
      rw [if_neg (by omega), if_pos (by omega), if_pos (by omega), hsub, List.getD_cons_succ,
        Nat.zero_add]

/-- **Main lemma.** The walk gives each symbol as many states as its probability says. -/
theorem cellsOf_spec {probabilities : List ℤ} {accuracy : ℕ} (h : UsesUp probabilities accuracy) :
    ∃ cells, cellsOf probabilities (2 ^ accuracy) = .ok cells ∧ cells.length = 2 ^ accuracy ∧
      ∀ s, cells.count s = (probabilities.getD s 0).natAbs := by
  have hsplit : (probabilities.map rare).sum + (probabilities.map common).sum = 2 ^ accuracy := by
    rw [← List.sum_map_add, ← h.sum]
    exact congrArg List.sum (List.map_congr_left fun p hp => (natAbs_eq (h.ge p hp)).symm)
  obtain ⟨cells₁, hmark, hlength₁, hcount₁⟩ := @markRare_spec probabilities 0 (2 ^ accuracy) []
    (by omega)
  rw [List.append_nil] at hmark hcount₁
  rw [List.length_nil, Nat.add_zero] at hlength₁
  have hfree := hcount₁ free
  rw [if_pos rfl, List.count_replicate_self] at hfree
  obtain ⟨cells, hspread, hlength, hcount⟩ := @spread_spec _ _ cells₁
    (strides_stride h.accuracy_ge) probabilities 0 0 hlength₁ (Nat.two_pow_pos _) (by omega)
  refine ⟨cells, ?_, hlength, fun s => ?_⟩
  · rw [cellsOf, hmark, ok_bind, hspread]
  · have hlength_le := h.length_le
    have hrare := @gain_eq rare rfl probabilities 0 s (by omega)
    have hcommon := @gain_eq common rfl probabilities 0 s (by omega)
    rw [if_pos (Nat.zero_le _), Nat.sub_zero] at hrare hcommon
    have hvalue : -1 ≤ probabilities.getD s 0 := by
      rw [List.getD_eq_getElem?_getD]
      cases hp : probabilities[s]? with
      | none => exact (by decide : (-1 : ℤ) ≤ 0)
      | some p => exact h.ge p (List.mem_of_getElem? hp)
    have hcount₁ := hcount₁ s
    have hcount := hcount s
    rw [List.count_replicate] at hcount₁
    rw [natAbs_eq hvalue, ← hrare, ← hcommon]
    simp only [beq_iff_eq, eq_comm (a := free)] at hcount₁
    split_ifs at hcount₁ hcount <;> omega

/-! ## The entries -/

/-- The entry of a state of a symbol, of which `value` are given away before. -/
def entryOf (probabilities : List ℤ) (accuracy symbol given : ℕ) : Entry :=
  if probabilities.getD symbol 0 = -1 then ⟨symbol, accuracy, 0⟩
  else
    let value := (probabilities.getD symbol 0).toNat + given
    ⟨symbol, accuracy - Nat.log2 value,
      value * 2 ^ (accuracy - Nat.log2 value) - 2 ^ accuracy⟩

/-- The entries of the states behind those of `seen`. -/
def entriesOf (probabilities : List ℤ) (accuracy : ℕ) : List ℕ → List ℕ → List Entry
  | _, [] => []
  | seen, symbol :: cells =>
    entryOf probabilities accuracy symbol (seen.count symbol) ::
      entriesOf probabilities accuracy (seen ++ [symbol]) cells

/-- The range of a value below twice the states. -/
theorem value_bounds {accuracy value : ℕ} (hpos : 0 < value) (hlt : value < 2 * 2 ^ accuracy) :
    Nat.log2 value ≤ accuracy ∧ 2 ^ accuracy ≤ value * 2 ^ (accuracy - Nat.log2 value) ∧
      (value + 1) * 2 ^ (accuracy - Nat.log2 value) ≤ 2 * 2 ^ accuracy := by
  have hlog : Nat.log2 value < accuracy + 1 := by
    rw [Nat.log2_lt (by omega), pow_succ']
    exact hlt
  have hle : Nat.log2 value ≤ accuracy := Nat.le_of_lt_succ hlog
  have hlow : 2 ^ Nat.log2 value ≤ value := Nat.log2_self_le (by omega)
  have hhigh : value + 1 ≤ 2 ^ (Nat.log2 value + 1) := Nat.lt_log2_self
  have hpow : 2 ^ Nat.log2 value * 2 ^ (accuracy - Nat.log2 value) = 2 ^ accuracy := by
    rw [← pow_add, Nat.add_sub_cancel' hle]
  refine ⟨hle, ?_, ?_⟩
  · rw [← hpow]
    exact Nat.mul_le_mul_right _ hlow
  · calc (value + 1) * 2 ^ (accuracy - Nat.log2 value)
        ≤ 2 ^ (Nat.log2 value + 1) * 2 ^ (accuracy - Nat.log2 value) := Nat.mul_le_mul_right _ hhigh
      _ = 2 * 2 ^ accuracy := by rw [pow_succ', Nat.mul_assoc, hpow]

/-- **Run lemma.** The loop over the states. -/
theorem entriesLoop_spec {probabilities : List ℤ} {accuracy : ℕ}
    (h : UsesUp probabilities accuracy) {seen cells next : List ℕ}
    (hnext : next.length = probabilities.length)
    (hvalue : ∀ s p, probabilities[s]? = some p → p ≠ -1 → next[s]? = some (p.toNat + seen.count s))
    (hcells : ∀ s, (seen ++ cells).count s = (probabilities.getD s 0).natAbs) :
    entriesLoop probabilities accuracy cells next =
      .ok (entriesOf probabilities accuracy seen cells) := by
  induction cells generalizing seen next with
  | nil => rfl
  | cons symbol cells ih =>
    have hlist : seen ++ [symbol] ++ cells = seen ++ symbol :: cells := by
      rw [List.append_assoc]
      rfl
    have hcount := hcells symbol
    rw [List.count_append, List.count_cons_self] at hcount
    obtain ⟨p, hp⟩ : ∃ p, probabilities[symbol]? = some p := by
      cases hp : probabilities[symbol]? with
      | some p => exact ⟨p, rfl⟩
      | none =>
        rw [List.getD_eq_getElem?_getD, hp] at hcount
        exact absurd hcount (by simp)
    have hget : probabilities.getD symbol 0 = p := by rw [List.getD_eq_getElem?_getD, hp]; rfl
    rw [hget] at hcount
    have hge := h.ge p (List.mem_of_getElem? hp)
    rw [entriesLoop, hp, okOr_some, ok_bind, entriesOf, entryOf, hget]
    by_cases hrare : p = -1
    · have hrest := @ih (seen ++ [symbol]) next hnext (fun s q hq hne => by
        have hother : s ≠ symbol := by
          rintro rfl
          rw [hp] at hq
          exact hne ((Option.some.inj hq).symm.trans hrare)
        rw [List.count_append, List.count_singleton, hvalue s q hq hne]
        simp [Ne.symm hother]) (by rw [hlist]; exact hcells)
      rw [if_pos hrare, if_pos hrare, hrest]
      rfl
    · have hsome := hvalue symbol p hp hrare
      have hsum : p.natAbs ≤ 2 ^ accuracy := by
        rw [← h.sum]
        exact List.single_le_sum (fun _ _ => Nat.zero_le _) _
          (List.mem_map.mpr ⟨p, List.mem_of_getElem? hp, rfl⟩)
      -- the values go from the probability to below its double
      generalize hv : p.toNat + seen.count symbol = value at hsome
      obtain ⟨hle, hlow, hhigh⟩ := @value_bounds accuracy value (by omega) (by omega)
      have hset := @ih (seen ++ [symbol]) (next.set symbol (value + 1))
        (by rw [List.length_set, hnext])
        (fun s q hq hne => by
          rw [List.count_append, List.count_singleton]
          by_cases hother : s = symbol
          · subst hother
            obtain rfl : p = q := Option.some.inj (hp.symm.trans hq)
            have hlt := (List.getElem?_eq_some_iff.mp hsome).1
            rw [List.getElem?_set_self hlt, beq_self_eq_true, if_pos rfl]
            exact congrArg some (by omega)
          · rw [List.getElem?_set_ne (Ne.symm hother), hvalue s q hq hne]
            simp [Ne.symm hother]) (by rw [hlist]; exact hcells)
      rw [if_neg hrare, if_neg hrare, hsome, okOr_some, ok_bind]
      dsimp only
      rw [Nat.one_shiftLeft, Nat.shiftLeft_eq]
      rw [Nat.add_mul, Nat.one_mul] at hhigh
      have hpos := Nat.two_pow_pos (accuracy - Nat.log2 value)
      rw [refuseIf_of_not (by omega), ok_bind, refuseIf_of_not (by omega), ok_bind,
        refuseIf_of_not (by omega), ok_bind, hset, ok_bind]
      rfl

theorem getElem?_entriesOf {probabilities : List ℤ} {accuracy : ℕ} (seen cells : List ℕ) (i : ℕ) :
    (entriesOf probabilities accuracy seen cells)[i]? = cells[i]?.map fun symbol =>
      entryOf probabilities accuracy symbol (seen.count symbol + (cells.take i).count symbol) := by
  induction cells generalizing seen i with
  | nil => rfl
  | cons symbol cells ih =>
    cases i with
    | zero => rfl
    | succ i =>
      rw [entriesOf, List.getElem?_cons_succ, ih, List.getElem?_cons_succ]
      refine Option.map_congr fun s _ => ?_
      rw [List.take_succ_cons, List.count_append, List.count_singleton, List.count_cons,
        Nat.add_assoc, Nat.add_comm (if (symbol == s) = true then 1 else 0)]

theorem symbol_entryOf (probabilities : List ℤ) (accuracy symbol given : ℕ) :
    (entryOf probabilities accuracy symbol given).symbol = symbol := by
  unfold entryOf
  split_ifs <;> rfl

/-! ## The intervals of a symbol -/

/-- The places of a symbol have numbers from zero on. -/
theorem exists_place {cells : List ℕ} {s k : ℕ} (h : k < cells.count s) :
    ∃ i, cells[i]? = some s ∧ (cells.take i).count s = k := by
  induction cells generalizing k with
  | nil => exact absurd h (Nat.not_lt_zero _)
  | cons symbol cells ih =>
    rw [List.count_cons] at h
    by_cases hsymbol : symbol = s
    · subst hsymbol
      cases k with
      | zero => exact ⟨0, rfl, rfl⟩
      | succ k =>
        rw [beq_self_eq_true, if_pos rfl] at h
        obtain ⟨i, hi, hk⟩ := ih (k := k) (by omega)
        refine ⟨i + 1, hi, ?_⟩
        rw [List.take_succ_cons, List.count_cons_self, hk]
    · rw [if_neg (by simpa using hsymbol)] at h
      obtain ⟨i, hi, hk⟩ := ih h
      refine ⟨i + 1, hi, ?_⟩
      rw [List.take_succ_cons, List.count_cons_of_ne hsymbol, hk]

theorem place_lt {cells : List ℕ} {s i j : ℕ} (hi : cells[i]? = some s) (hlt : i < j) :
    (cells.take i).count s < (cells.take j).count s := by
  have htake : (cells.take (i + 1)).count s = (cells.take i).count s + 1 := by
    rw [List.take_add_one, hi, List.count_append]
    simp
  have hsub : (cells.take (i + 1)).Sublist (cells.take j) :=
    (List.take_prefix_take_left hlt).sublist
  have hle := hsub.count_le s
  omega

theorem place_lt_count {cells : List ℕ} {s i : ℕ} (hi : cells[i]? = some s) :
    (cells.take i).count s < cells.count s := by
  have hlt := (List.getElem?_eq_some_iff.mp hi).1
  have h := place_lt hi hlt
  rwa [List.take_length] at h

/-- Halves of a number come to the values from `p` to below its double once. -/
theorem exists_half {p y : ℕ} (hpos : 0 < p) (hle : p ≤ y) :
    ∃ k, p ≤ y / 2 ^ k ∧ y / 2 ^ k < 2 * p := by
  induction y using Nat.strong_induction_on with
  | _ y ih =>
    by_cases hlt : y < 2 * p
    · exact ⟨0, by rw [pow_zero, Nat.div_one]; exact hle, by rw [pow_zero, Nat.div_one]; exact hlt⟩
    · obtain ⟨k, hk, hk'⟩ := ih (y / 2) (by omega) (by omega)
      refine ⟨k + 1, ?_⟩
      rw [pow_succ', ← Nat.div_div_eq_div_mul]
      exact ⟨hk, hk'⟩

theorem half_unique {p y k l : ℕ} (hk : y / 2 ^ k < 2 * p) (hl : p ≤ y / 2 ^ l) : l ≤ k := by
  by_contra hlt
  obtain ⟨n, rfl⟩ := Nat.exists_eq_add_of_lt (not_le.mp hlt)
  have hdiv : y / 2 ^ (k + n + 1) ≤ y / 2 ^ k / 2 := by
    rw [Nat.div_div_eq_div_mul, ← pow_succ]
    exact Nat.div_le_div_left (Nat.pow_le_pow_right (by decide) (by omega)) (Nat.two_pow_pos _)
  omega

/-- The value of a symbol whose interval is around a state. -/
theorem log2_half {accuracy y k : ℕ} (hlow : 2 ^ accuracy ≤ y) (hhigh : y < 2 * 2 ^ accuracy)
    (hpos : 0 < y / 2 ^ k) : accuracy - Nat.log2 (y / 2 ^ k) = k ∧ k ≤ accuracy := by
  have hle : k ≤ accuracy := by
    by_contra hlt
    have hpow : 2 * 2 ^ accuracy ≤ 2 ^ k := by
      rw [← pow_succ']
      exact Nat.pow_le_pow_right (by decide) (by omega)
    rw [Nat.div_eq_of_lt (by omega)] at hpos
    exact absurd hpos (Nat.lt_irrefl 0)
  have hlog : Nat.log2 (y / 2 ^ k) = accuracy - k := by
    obtain ⟨rest, rfl⟩ := Nat.exists_eq_add_of_le hle
    rw [Nat.add_sub_cancel_left, Nat.log2_eq_iff hpos.ne',
      Nat.le_div_iff_mul_le (Nat.two_pow_pos _),
      Nat.div_lt_iff_lt_mul (Nat.two_pow_pos _), ← pow_add, ← pow_add]
    constructor
    · rwa [Nat.add_comm rest]
    · rw [show rest + 1 + k = k + rest + 1 by omega, pow_succ']
      exact hhigh
  omega

/-- The states of an interval. -/
def Entry.Covers (entry : Entry) (state : ℕ) : Prop :=
  entry.baseline ≤ state ∧ state < entry.baseline + 2 ^ entry.bits

/-- **Main lemma.** One value of a symbol has the interval around a state. -/
theorem covers_iff {accuracy value state : ℕ} (hpos : 0 < value) (hlt : value < 2 * 2 ^ accuracy) :
    Entry.Covers ⟨s, accuracy - Nat.log2 value,
      value * 2 ^ (accuracy - Nat.log2 value) - 2 ^ accuracy⟩ state ↔
      (state + 2 ^ accuracy) / 2 ^ (accuracy - Nat.log2 value) = value := by
  obtain ⟨-, hlow, -⟩ := value_bounds hpos hlt
  rw [Nat.div_eq_iff (Nat.two_pow_pos _), Entry.Covers]
  have hbits := Nat.two_pow_pos (accuracy - Nat.log2 value)
  dsimp only
  constructor
  · rintro ⟨h1, h2⟩
    constructor <;> omega
  · rintro ⟨h1, h2⟩
    constructor <;> omega

/-- What a table is for: the probabilities use up its states, the walk comes to all of them, each
symbol has as many as its probability says, and their intervals part the states among them. -/
structure Exact (probabilities : List ℤ) (t : Table) : Prop where
  sum : (probabilities.map Int.natAbs).sum = 2 ^ t.accuracy
  visits : ∀ state < 2 ^ t.accuracy, ∃ moves < 2 ^ t.accuracy,
    (move (2 ^ t.accuracy) (stride (2 ^ t.accuracy)))^[moves] 0 = state
  length : t.entries.length = 2 ^ t.accuracy
  count : ∀ symbol, (t.entries.map Entry.symbol).count symbol =
    (probabilities.getD symbol 0).natAbs
  within : ∀ entry ∈ t.entries, entry.baseline + 2 ^ entry.bits ≤ 2 ^ t.accuracy
  part : ∀ symbol, probabilities.getD symbol 0 ≠ 0 → ∀ state < 2 ^ t.accuracy,
    ∃! i : ℕ, ∃ entry : Entry, t.entries[i]? = some entry ∧ entry.symbol = symbol ∧
      entry.Covers state

section Entries

variable {probabilities : List ℤ} {accuracy : ℕ} {cells : List ℕ}

theorem map_symbol_entriesOf (seen : List ℕ) :
    (entriesOf probabilities accuracy seen cells).map Entry.symbol = cells := by
  induction cells generalizing seen with
  | nil => rfl
  | cons symbol cells ih => rw [entriesOf, List.map_cons, symbol_entryOf, ih]

theorem natAbs_le (h : UsesUp probabilities accuracy) (symbol : ℕ) :
    (probabilities.getD symbol 0).natAbs ≤ 2 ^ accuracy := by
  rw [List.getD_eq_getElem?_getD]
  cases hp : probabilities[symbol]? with
  | none => exact Nat.zero_le _
  | some p =>
    rw [← h.sum]
    exact List.single_le_sum (fun _ _ => Nat.zero_le _) _
      (List.mem_map.mpr ⟨p, List.mem_of_getElem? hp, rfl⟩)

theorem getD_ge (h : UsesUp probabilities accuracy) (symbol : ℕ) :
    -1 ≤ probabilities.getD symbol 0 := by
  rw [List.getD_eq_getElem?_getD]
  cases hp : probabilities[symbol]? with
  | none => exact (by decide : (-1 : ℤ) ≤ 0)
  | some p => exact h.ge p (List.mem_of_getElem? hp)

/-- The states of a symbol part the states among them. -/
theorem exists_unique_covers (h : UsesUp probabilities accuracy)
    (hcells : ∀ s, cells.count s = (probabilities.getD s 0).natAbs) {symbol state : ℕ}
    (hne : probabilities.getD symbol 0 ≠ 0) (hstate : state < 2 ^ accuracy) :
    ∃! i : ℕ, ∃ entry : Entry, (entriesOf probabilities accuracy [] cells)[i]? = some entry ∧
      entry.symbol = symbol ∧ entry.Covers state := by
  have hge := getD_ge h symbol
  have hle := natAbs_le h symbol
  have hcount := hcells symbol
  -- an entry of the symbol and the number of those before it
  have hentry (i : ℕ) : (∃ entry : Entry,
      (entriesOf probabilities accuracy [] cells)[i]? = some entry ∧
      entry.symbol = symbol ∧ entry.Covers state) ↔ cells[i]? = some symbol ∧
        (entryOf probabilities accuracy symbol ((cells.take i).count symbol)).Covers state := by
    rw [getElem?_entriesOf]
    constructor
    · rintro ⟨entry, hi, hsymbol, hcovers⟩
      obtain ⟨s, hs, rfl⟩ := Option.map_eq_some_iff.mp hi
      rw [symbol_entryOf] at hsymbol
      subst hsymbol
      rw [List.count_nil, Nat.zero_add] at hcovers
      exact ⟨hs, hcovers⟩
    · rintro ⟨hs, hcovers⟩
      refine ⟨_, by rw [hs]; rfl, symbol_entryOf _ _ _ _, ?_⟩
      rw [List.count_nil, Nat.zero_add]
      exact hcovers
  simp only [hentry]
  by_cases hrare : probabilities.getD symbol 0 = -1
  · rw [hrare] at hcount
    have hone : cells.count symbol = 1 := hcount
    obtain ⟨i, hi, hk⟩ := exists_place (show 0 < cells.count symbol by omega)
    refine ⟨i, ⟨hi, ?_⟩, ?_⟩
    · rw [entryOf, if_pos hrare]
      exact ⟨Nat.zero_le _, by rw [Nat.zero_add]; exact hstate⟩
    · rintro j ⟨hj, -⟩
      have hi' := place_lt_count hi
      have hj' := place_lt_count hj
      obtain hlt | rfl | hlt := Nat.lt_trichotomy i j
      · have := place_lt hi hlt
        omega
      · rfl
      · have := place_lt hj hlt
        omega
  · have hcommon : cells.count symbol = (probabilities.getD symbol 0).toNat := by omega
    have hpos : 0 < (probabilities.getD symbol 0).toNat := by omega
    have hcovers (i : ℕ) (hi : cells[i]? = some symbol) :
        (entryOf probabilities accuracy symbol ((cells.take i).count symbol)).Covers state ↔
          (state + 2 ^ accuracy) / 2 ^ (accuracy - Nat.log2
            ((probabilities.getD symbol 0).toNat + (cells.take i).count symbol)) =
              (probabilities.getD symbol 0).toNat + (cells.take i).count symbol := by
      have hlt := place_lt_count hi
      rw [entryOf, if_neg hrare]
      exact covers_iff (by omega) (by omega)
    obtain ⟨k, hk, hk'⟩ := exists_half hpos
      (show (probabilities.getD symbol 0).toNat ≤ state + 2 ^ accuracy by omega)
    obtain ⟨hbits, -⟩ := @log2_half accuracy (state + 2 ^ accuracy) k
      (Nat.le_add_left _ _) (by omega) (by omega)
    obtain ⟨i, hi, hplace⟩ := @exists_place cells symbol
      ((state + 2 ^ accuracy) / 2 ^ k - (probabilities.getD symbol 0).toNat) (by omega)
    have hvalue : (probabilities.getD symbol 0).toNat + (cells.take i).count symbol =
        (state + 2 ^ accuracy) / 2 ^ k := by omega
    refine ⟨i, ⟨hi, (hcovers i hi).mpr (by rw [hvalue, hbits])⟩, ?_⟩
    rintro j ⟨hj, hcoversj⟩
    have hj' := (hcovers j hj).mp hcoversj
    have hltj := place_lt_count hj
    generalize hvalue' : (probabilities.getD symbol 0).toNat + (cells.take j).count symbol =
      value at hj'
    -- both values are halves of the state, and from the probability to below its double
    have hsame : accuracy - Nat.log2 value = k := by
      refine Nat.le_antisymm (half_unique hk' (by rw [hj']; omega)) (half_unique ?_ hk)
      rw [hj']
      omega
    rw [hsame] at hj'
    obtain hlt | rfl | hlt := Nat.lt_trichotomy i j
    · have := place_lt hi hlt
      omega
    · rfl
    · have := place_lt hj hlt
      omega

/-- No interval goes beyond the states. -/
theorem within_entriesOf (h : UsesUp probabilities accuracy)
    (hcells : ∀ s, cells.count s = (probabilities.getD s 0).natAbs) {entry : Entry}
    (hentry : entry ∈ entriesOf probabilities accuracy [] cells) :
    entry.baseline + 2 ^ entry.bits ≤ 2 ^ accuracy := by
  obtain ⟨i, hi⟩ := List.mem_iff_getElem?.mp hentry
  rw [getElem?_entriesOf] at hi
  obtain ⟨symbol, hsymbol, rfl⟩ := Option.map_eq_some_iff.mp hi
  rw [List.count_nil, Nat.zero_add]
  have hge := getD_ge h symbol
  have hle := natAbs_le h symbol
  have hlt := place_lt_count hsymbol
  rw [hcells] at hlt
  rw [entryOf]
  split_ifs with hrare
  · exact le_of_eq (Nat.zero_add _)
  · obtain ⟨-, hlow, hhigh⟩ := @value_bounds accuracy
      ((probabilities.getD symbol 0).toNat + (cells.take i).count symbol) (by omega) (by omega)
    rw [Nat.add_mul, Nat.one_mul] at hhigh
    dsimp only
    omega

/-- **Main lemma.** The table of probabilities that use up the states. The last symbol of all would
have the mark of a free state. -/
theorem fromProbabilities_spec (h : UsesUp probabilities accuracy) :
    (∃ t, fromProbabilities probabilities accuracy = .ok t ∧ t.accuracy = accuracy ∧
      Exact probabilities t) ∨
    (fromProbabilities probabilities accuracy = .error (.error .invalidFseTable) ∧
      probabilities.getD free 0 ≠ 0) := by
  obtain ⟨cells, hcells, hlength, hcount⟩ := cellsOf_spec h
  rw [fromProbabilities, refuseIf_of_not (not_not.mpr ⟨h.accuracy_ge, h.accuracy_le⟩), ok_bind,
    Nat.one_shiftLeft, hcells, ok_bind]
  by_cases hfree : free ∈ cells
  · right
    rw [refuseIf, if_pos hfree]
    refine ⟨rfl, fun hzero => ?_⟩
    have hpos := List.count_pos_iff.mpr hfree
    rw [hcount, hzero] at hpos
    exact absurd hpos (Nat.lt_irrefl 0)
  · left
    have hentries := @entriesLoop_spec _ _ h [] cells
      (probabilities.map firstValue) (List.length_map _) (fun s p hp hne => by
        rw [List.getElem?_map, hp, List.count_nil]
        have hge := h.ge p (List.mem_of_getElem? hp)
        have hvalue : firstValue p = p.toNat := by
          rw [firstValue, if_neg hne]
          omega
        exact congrArg some hvalue) hcount
    rw [refuseIf_of_not hfree, ok_bind, hentries, ok_bind]
    refine ⟨_, rfl, rfl, h.sum, fun state hstate => ?_, ?_, fun symbol => ?_,
      fun entry hentry => within_entriesOf h hcount hentry,
      fun symbol hne state hstate => exists_unique_covers h hcount hne hstate⟩
    · exact exists_moves (strides_stride h.accuracy_ge) (Nat.two_pow_pos _) hstate
    · show (entriesOf probabilities accuracy [] cells).length = 2 ^ accuracy
      rw [← hlength, ← List.length_map (f := Entry.symbol), map_symbol_entriesOf]
    · show ((entriesOf probabilities accuracy [] cells).map Entry.symbol).count symbol = _
      rw [map_symbol_entriesOf, hcount]

end Entries

/-! ## Headers -/

theorem readBits_eq_ok {s s' : ForwardBits} {count value : ℕ}
    (h : readBits s count = .ok (value, s')) : s'.bytes = s.bytes ∧
      s'.position = s.position + count ∧ s'.position ≤ s.bytes.length * 8 := by
  rw [readBits, mapError_eq_ok] at h
  obtain ⟨peeked, hpeek, h⟩ := bind_eq_ok.mp h
  obtain ⟨_, hrefuse, -⟩ := bind_eq_ok.mp hpeek
  rw [refuseIf_eq_ok] at hrefuse
  obtain ⟨rfl, rfl⟩ := Prod.mk.inj (Except.ok.inj h)
  exact ⟨rfl, rfl, by show s.position + count ≤ _; omega⟩

theorem mapError_ne_unfinished {α : Type} (x : Except Error α) :
    x.mapError Fault.error ≠ .error .unfinished := by
  cases x with
  | error e => exact fun h => nomatch h
  | ok a => exact fun h => nomatch h

theorem refuseIf_ne_unfinished (refused : Prop) [Decidable refused] {fault : Fault Error}
    (h : fault ≠ .unfinished) : refuseIf refused fault ≠ .error .unfinished := by
  unfold refuseIf
  split_ifs
  · exact fun heq => h (Except.error.inj heq)
  · exact fun heq => nomatch heq

/-- A computation is finished if its parts are. -/
theorem bind_ne_unfinished {α β : Type} {x : Except (Fault Error) α}
    {f : α → Except (Fault Error) β} (hx : x ≠ .error .unfinished)
    (hf : ∀ a, x = .ok a → f a ≠ .error .unfinished) : (x >>= f) ≠ .error .unfinished := by
  cases x with
  | error fault => exact fun h => hx (congrArg Except.error (Except.error.inj h))
  | ok a => exact hf a rfl

/-- **Run lemma.** A run of zeros ends where its flags do. -/
theorem zeroRun_spec {fuel : ℕ} {s : ForwardBits} {zeros : ℕ}
    (hfuel : s.bytes.length * 8 - s.position < fuel) :
    zeroRun fuel s zeros ≠ .error .unfinished ∧ ∀ n s', zeroRun fuel s zeros = .ok (n, s') →
      s'.bytes = s.bytes ∧ s.position < s'.position ∧ s'.position ≤ s.bytes.length * 8 := by
  induction fuel generalizing s zeros with
  | zero => exact absurd hfuel (Nat.not_lt_zero _)
  | succ fuel ih =>
    rw [zeroRun]
    cases hread : readBits s 2 with
    | error fault =>
      refine ⟨?_, fun n s' h => nomatch h⟩
      have hne := mapError_ne_unfinished (s.read 2)
      rw [← readBits, hread] at hne
      exact fun h => hne h
    | ok result =>
      obtain ⟨count, s₁⟩ := result
      obtain ⟨hbytes, hposition, hle⟩ := readBits_eq_ok hread
      rw [ok_bind]
      dsimp only
      by_cases hmore : count ≠ 3
      · rw [if_pos hmore]
        refine ⟨(fun h => nomatch h), fun n s' h => ?_⟩
        obtain ⟨-, rfl⟩ := Prod.mk.inj (Except.ok.inj h)
        exact ⟨hbytes, by omega, hle⟩
      · rw [if_neg hmore]
        obtain ⟨hfinished, hrun⟩ := @ih s₁ (zeros + count) (by rw [hbytes]; omega)
        refine ⟨hfinished, fun n s' h => ?_⟩
        obtain ⟨hbytes', hposition', hle'⟩ := hrun n s' h
        rw [hbytes] at hbytes' hle'
        exact ⟨hbytes', by omega, hle'⟩

theorem pushZeros_spec {maximumSymbol zeros : ℕ} {probabilities : List ℤ} :
    pushZeros maximumSymbol zeros probabilities ≠ .error .unfinished ∧
      ∀ result, pushZeros maximumSymbol zeros probabilities = .ok result →
        result = probabilities ++ List.replicate zeros 0 ∧
          (probabilities.length ≤ maximumSymbol + 1 → result.length ≤ maximumSymbol + 1) := by
  induction zeros generalizing probabilities with
  | zero =>
    refine ⟨(fun h => nomatch h), fun result h => ?_⟩
    obtain rfl := Except.ok.inj h
    exact ⟨(List.append_nil _).symm, id⟩
  | succ zeros ih =>
    obtain ⟨hfinished, hrun⟩ := @ih (probabilities ++ [0])
    rw [pushZeros]
    refine ⟨bind_ne_unfinished (refuseIf_ne_unfinished _ fun h => nomatch h) fun _ _ => hfinished,
      fun result h => ?_⟩
    obtain ⟨_, hroom, h⟩ := bind_eq_ok.mp h
    rw [refuseIf_eq_ok] at hroom
    obtain ⟨heq, hlength⟩ := hrun result h
    rw [List.length_append, List.length_singleton] at hlength
    refine ⟨?_, fun _ => hlength (by omega)⟩
    rw [heq, List.append_assoc, List.replicate_succ]
    rfl

theorem and_mask_lt (n k : ℕ) : n &&& (1 <<< k - 1) < 2 ^ k := by
  rw [Nat.one_shiftLeft, Nat.and_two_pow_sub_one_eq_mod]
  exact Nat.mod_lt _ (Nat.two_pow_pos _)

theorem peekLoop_lt {s : ForwardBits} {left bit value : ℕ} (h : value < 2 ^ bit) :
    s.peekLoop left bit value < 2 ^ (bit + left) := by
  induction left generalizing bit value with
  | zero => exact h
  | succ left ih =>
    have hbit : bitAt s.bytes (s.position + bit) < 2 := by
      rw [bitAt, Nat.and_one_is_mod]
      exact Nat.mod_lt _ (by decide)
    have hshift : bitAt s.bytes (s.position + bit) <<< bit < 2 ^ (bit + 1) := by
      rw [Nat.shiftLeft_eq, pow_succ']
      exact Nat.mul_lt_mul_of_pos_right hbit (Nat.two_pow_pos _)
    have hnext : value ||| (bitAt s.bytes (s.position + bit) <<< bit) < 2 ^ (bit + 1) :=
      Nat.or_lt_two_pow (h.trans (Nat.pow_lt_pow_right (by decide) (Nat.lt_succ_self _))) hshift
    rw [ForwardBits.peekLoop, show bit + (left + 1) = bit + 1 + left by omega]
    exact ih hnext

theorem fieldOf_spec {remaining width peek : ℕ} (hwidth : 1 ≤ width)
    (hpeek : peek < 2 ^ (width + 1)) : (fieldOf remaining (width + 1) peek).1 < 2 ^ (width + 1) ∧
      0 < (fieldOf remaining (width + 1) peek).2 := by
  have hlow := and_mask_lt peek width
  have hpow : 2 ^ width < 2 ^ (width + 1) := Nat.pow_lt_pow_right (by decide) (Nat.lt_succ_self _)
  unfold fieldOf
  rw [Nat.add_sub_cancel]
  dsimp only
  split_ifs
  · exact ⟨hlow.trans hpow, hwidth⟩
  · exact ⟨(Nat.sub_le _ _).trans_lt hpeek, Nat.succ_pos _⟩
  · exact ⟨hpeek, Nat.succ_pos _⟩

/-- The value of a field is below the power of two above what remains, and takes a bit at least. -/
theorem readValue_spec {s s' : ForwardBits} {remaining value : ℕ} (hremaining : 1 < remaining)
    (h : readValue s remaining = .ok (value, s')) :
    value < 2 ^ (Nat.log2 remaining + 1) ∧ s'.bytes = s.bytes ∧ s.position < s'.position ∧
      s'.position ≤ s.bytes.length * 8 := by
  have hlog : 1 ≤ Nat.log2 remaining := (Nat.le_log2 (by omega)).mpr hremaining
  obtain ⟨peek, hpeek, h⟩ := bind_eq_ok.mp h
  rw [mapError_eq_ok] at hpeek
  obtain ⟨_, -, hpeek⟩ := bind_eq_ok.mp hpeek
  have hlt : peek < 2 ^ (Nat.log2 remaining + 1) := by
    rw [← Except.ok.inj hpeek]
    have hloop := @peekLoop_lt s (Nat.log2 remaining + 1) 0 0 Nat.one_pos
    rwa [Nat.zero_add] at hloop
  obtain ⟨hvalue, hconsumed⟩ := fieldOf_spec hlog hlt
  obtain ⟨s₁, hconsume, h⟩ := bind_eq_ok.mp h
  obtain ⟨rfl, rfl⟩ := Prod.mk.inj (Except.ok.inj h)
  obtain ⟨_, hroom, hconsume⟩ := bind_eq_ok.mp (mapError_eq_ok.mp hconsume)
  rw [refuseIf_eq_ok] at hroom
  rw [← Except.ok.inj hconsume]
  refine ⟨hvalue, rfl, ?_, not_lt.mp hroom⟩
  exact Nat.lt_add_of_pos_right hconsumed

theorem readValue_ne_unfinished (s : ForwardBits) (remaining : ℕ) :
    readValue s remaining ≠ .error .unfinished := by
  refine bind_ne_unfinished (mapError_ne_unfinished _) fun peek _ => ?_
  exact bind_ne_unfinished (mapError_ne_unfinished _) fun _ _ h => nomatch h

/-- What is read of a header: the probabilities and what remains make up the states. -/
structure Remains (maximumSymbol size remaining : ℕ) (probabilities : List ℤ) : Prop where
  length_le : probabilities.length ≤ maximumSymbol + 1
  pos : 0 < remaining
  exact : size ≤ 512 → (∀ p ∈ probabilities, -1 ≤ p) ∧
    remaining + (probabilities.map Int.natAbs).sum = size + 1

theorem Remains.zeros {maximumSymbol size remaining zeros : ℕ} {probabilities : List ℤ}
    (h : Remains maximumSymbol size remaining probabilities)
    (hlength : (probabilities ++ List.replicate zeros 0).length ≤ maximumSymbol + 1) :
    Remains maximumSymbol size remaining (probabilities ++ List.replicate zeros 0) := by
  refine ⟨hlength, h.pos, fun hsize => ?_⟩
  obtain ⟨hge, hsum⟩ := h.exact hsize
  constructor
  · intro p hp
    obtain hp | hp := List.mem_append.mp hp
    · exact hge p hp
    · rw [List.eq_of_mem_replicate hp]
      decide
  · rw [List.map_append, List.sum_append, List.map_replicate, List.sum_replicate]
    exact hsum

/-- **Step lemma.** A probability is pushed. -/
theorem Remains.push {maximumSymbol size remaining value : ℕ} {probabilities : List ℤ}
    (h : Remains maximumSymbol size remaining probabilities)
    (hroom : probabilities.length ≤ maximumSymbol)
    (hvalue : value < 2 ^ (Nat.log2 remaining + 1))
    (hspent : ¬(asI16 value - 1 ≠ 0 ∧ remaining <
      (if asI16 value - 1 < 0 then 1 else (asI16 value - 1).toNat) + 1)) :
    Remains maximumSymbol size
      (remaining - if asI16 value - 1 < 0 then 1 else (asI16 value - 1).toNat)
      (probabilities ++ [asI16 value - 1]) := by
  have hpos := h.pos
  refine ⟨?_, ?_, fun hsize => ?_⟩
  · rw [List.length_append, List.length_singleton]
    omega
  · split_ifs at hspent ⊢ <;> omega
  · obtain ⟨hge, hsum⟩ := h.exact hsize
    have hlog : Nat.log2 remaining < 10 := by
      rw [Nat.log2_lt (by omega)]
      omega
    have hsmall : value < 2 ^ 10 :=
      hvalue.trans_le (Nat.pow_le_pow_right (by decide) (by omega))
    have hsame : asI16 value = value := by
      have hmod : value % 65536 = value := Nat.mod_eq_of_lt (by omega)
      rw [asI16, hmod, if_pos (by omega)]
    rw [hsame] at hspent ⊢
    constructor
    · intro p hp
      obtain hp | hp := List.mem_append.mp hp
      · exact hge p hp
      · rw [List.mem_singleton.mp hp]
        omega
    · rw [List.map_append, List.sum_append, List.map_singleton, List.sum_singleton]
      split_ifs at hspent ⊢ <;> omega

/-- **Run lemma.** The loop of a header comes to its end, with nothing that remains. -/
theorem headerLoop_spec {maximumSymbol size fuel remaining : ℕ} {s : ForwardBits}
    {probabilities : List ℤ} {repeatZero : Bool}
    (h : Remains maximumSymbol size remaining probabilities)
    (hfuel : s.bytes.length * 8 - s.position < fuel) :
    headerLoop maximumSymbol fuel s remaining probabilities repeatZero ≠ .error .unfinished ∧
      ∀ result s', headerLoop maximumSymbol fuel s remaining probabilities repeatZero =
        .ok (result, s') → Remains maximumSymbol size 1 result := by
  induction fuel generalizing s remaining probabilities repeatZero with
  | zero => exact absurd hfuel (Nat.not_lt_zero _)
  | succ fuel ih =>
    rw [headerLoop]
    by_cases hmore : remaining > 1
    · rw [if_pos hmore]
      cases repeatZero with
      | true =>
        rw [if_pos rfl]
        obtain ⟨hfinished, hrun⟩ := @zeroRun_spec (s.bytes.length * 8 + 1) s 0 (by omega)
        constructor
        · refine bind_ne_unfinished (refuseIf_ne_unfinished _ fun h => nomatch h) fun _ _ =>
            bind_ne_unfinished hfinished fun run hzeros => ?_
          obtain ⟨hbytes, hposition, hle⟩ := hrun _ _ hzeros
          refine bind_ne_unfinished pushZeros_spec.1 fun result hpush => ?_
          obtain ⟨rfl, hlength⟩ := pushZeros_spec.2 _ hpush
          exact (ih (h.zeros (hlength h.length_le)) (by rw [hbytes]; omega)).1
        · intro result s' hok
          obtain ⟨_, -, hok⟩ := bind_eq_ok.mp hok
          obtain ⟨run, hzeros, hok⟩ := bind_eq_ok.mp hok
          obtain ⟨hbytes, hposition, hle⟩ := hrun _ _ hzeros
          obtain ⟨pushed, hpush, hok⟩ := bind_eq_ok.mp hok
          obtain ⟨rfl, hlength⟩ := pushZeros_spec.2 _ hpush
          exact (ih (h.zeros (hlength h.length_le)) (by rw [hbytes]; omega)).2 result s' hok
      | false =>
        rw [if_neg Bool.false_ne_true]
        constructor
        · refine bind_ne_unfinished (refuseIf_ne_unfinished _ fun h => nomatch h) fun _ hroom =>
            bind_ne_unfinished (readValue_ne_unfinished _ _) fun field hfield =>
            bind_ne_unfinished (refuseIf_ne_unfinished _ fun h => nomatch h) fun _ _ =>
            bind_ne_unfinished (refuseIf_ne_unfinished _ fun h => nomatch h) fun _ hspent => ?_
          rw [refuseIf_eq_ok] at hroom hspent
          obtain ⟨hvalue, hbytes, hposition, hle⟩ := readValue_spec hmore hfield
          exact (ih (h.push (not_lt.mp hroom) hvalue hspent) (by rw [hbytes]; omega)).1
        · intro result s' hok
          obtain ⟨_, hroom, hok⟩ := bind_eq_ok.mp hok
          obtain ⟨field, hfield, hok⟩ := bind_eq_ok.mp hok
          obtain ⟨_, -, hok⟩ := bind_eq_ok.mp hok
          obtain ⟨_, hspent, hok⟩ := bind_eq_ok.mp hok
          rw [refuseIf_eq_ok] at hroom hspent
          obtain ⟨hvalue, hbytes, hposition, hle⟩ := readValue_spec hmore hfield
          exact (ih (h.push (not_lt.mp hroom) hvalue hspent) (by rw [hbytes]; omega)).2 result s'
            hok
    · rw [if_neg hmore]
      refine ⟨(fun h => nomatch h), fun result s' hok => ?_⟩
      obtain ⟨rfl, -⟩ := Prod.mk.inj (Except.ok.inj hok)
      have hone : remaining = 1 := by
        have := h.pos
        omega
      rwa [hone] at h

/-- **Main lemma.** The header of a table: the probabilities of an accuracy up to nine use up its
states. -/
theorem header_spec (bytes : List UInt8) (maximumAccuracy : ℕ) {maximumSymbol : ℕ}
    (hsymbol : maximumSymbol ≤ 65535) :
    header bytes maximumAccuracy maximumSymbol ≠ .error .unfinished ∧
      ∀ accuracy probabilities s, header bytes maximumAccuracy maximumSymbol =
        .ok (accuracy, probabilities, s) → accuracy ≤ 9 → UsesUp probabilities accuracy := by
  have hstart (accuracy : ℕ) : Remains maximumSymbol (1 <<< accuracy) (1 <<< accuracy + 1) [] :=
    ⟨Nat.zero_le _, Nat.succ_pos _, fun _ => ⟨(fun _ h => nomatch h), rfl⟩⟩
  have hfuel {field : ℕ} {s : ForwardBits} (hread : readBits (.new bytes) 4 = .ok (field, s)) :
      s.bytes.length * 8 - s.position < bytes.length * 8 + 1 := by
    obtain ⟨hbytes, -, -⟩ := readBits_eq_ok hread
    have hsame : s.bytes = bytes := hbytes
    rw [hsame]
    omega
  constructor
  · refine bind_ne_unfinished (mapError_ne_unfinished _) fun field hread =>
      bind_ne_unfinished (refuseIf_ne_unfinished _ fun h => nomatch h) fun _ _ =>
      bind_ne_unfinished ?_ fun _ _ h => nomatch h
    exact (headerLoop_spec (hstart _) (hfuel hread)).1
  · intro accuracy probabilities s hok hle
    obtain ⟨⟨field, s₁⟩, hread, hok⟩ := bind_eq_ok.mp hok
    obtain ⟨_, -, hok⟩ := bind_eq_ok.mp hok
    obtain ⟨⟨result, s₂⟩, hloop, hok⟩ := bind_eq_ok.mp hok
    obtain ⟨rfl, hrest⟩ := Prod.mk.inj (Except.ok.inj hok)
    obtain ⟨rfl, rfl⟩ := Prod.mk.inj hrest
    have hremains := (headerLoop_spec (hstart _) (hfuel hread)).2 _ _ hloop
    have hsize : 1 <<< (field + 5) ≤ 512 := by
      rw [Nat.one_shiftLeft]
      exact Nat.pow_le_pow_right (by decide) hle
    obtain ⟨hge, hsum⟩ := hremains.exact hsize
    have hlength := hremains.length_le
    rw [Nat.one_shiftLeft] at hsum
    exact ⟨Nat.le_add_left _ _, hle, hge, by omega, by omega⟩

/-- A table that is not refused is exact, if its probabilities use up the states of the accuracies
up to nine. -/
theorem fromProbabilities_ok {probabilities : List ℤ} {accuracy : ℕ} {t : Table}
    (h : accuracy ≤ 9 → UsesUp probabilities accuracy)
    (hok : fromProbabilities probabilities accuracy = .ok t) :
    t.accuracy = accuracy ∧ Exact probabilities t := by
  obtain ⟨_, haccuracy, -⟩ := bind_eq_ok.mp hok
  rw [refuseIf_eq_ok, not_not] at haccuracy
  obtain ⟨t', hok', hsame, hexact⟩ | ⟨hrefused, -⟩ := fromProbabilities_spec (h haccuracy.2)
  · obtain rfl := Except.ok.inj (hok.symm.trans hok')
    exact ⟨hsame, hexact⟩
  · exact nomatch hok.symm.trans hrefused

theorem fromProbabilities_ne_unfinished {probabilities : List ℤ} {accuracy : ℕ}
    (h : accuracy ≤ 9 → UsesUp probabilities accuracy) :
    fromProbabilities probabilities accuracy ≠ .error .unfinished := by
  by_cases hle : accuracy ≤ 9
  · intro hunfinished
    obtain ⟨t, hok, -⟩ | ⟨hrefused, -⟩ := fromProbabilities_spec (h hle)
    · exact nomatch hok.symm.trans hunfinished
    · exact nomatch hrefused.symm.trans hunfinished
  · rw [fromProbabilities, refuseIf, if_pos (by omega)]
    exact fun h => nomatch h

/-! ## The predefined distributions -/

/-- `Kind` of `sequences.rs`. -/
inductive Kind where
  | literals
  | offset
  | matched
  deriving DecidableEq

/-- The probabilities and the accuracy in `predefined` of `sequences.rs` (lines 186–211). -/
def Kind.distribution : Kind → List ℤ × ℕ
  | .literals =>
    ([4, 3, 2, 2, 2, 2, 2, 2, 2, 2, 2, 2, 2, 1, 1, 1, 2, 2, 2, 2, 2, 2, 2, 2, 2, 3, 2, 1,
      1, 1, 1, 1, -1, -1, -1, -1], 6)
  | .offset =>
    ([1, 1, 1, 1, 1, 1, 2, 2, 2, 1, 1, 1, 1, 1, 1, 1, 1, 1, 1, 1, 1, 1, 1, 1, -1, -1, -1,
      -1, -1], 5)
  | .matched =>
    ([1, 4, 3, 2, 2, 2, 2, 2, 2, 1, 1, 1, 1, 1, 1, 1, 1, 1, 1, 1, 1, 1, 1, 1, 1, 1, 1, 1,
      1, 1, 1, 1, 1, 1, 1, 1, 1, 1, 1, 1, 1, 1, 1, 1, 1, 1, -1, -1, -1, -1, -1, -1, -1], 6)

/-- `predefined` of `sequences.rs` (lines 186–211). -/
def predefined (kind : Kind) : Except (Fault Error) Table :=
  fromProbabilities kind.distribution.1 kind.distribution.2

theorem usesUp_distribution (kind : Kind) :
    UsesUp kind.distribution.1 kind.distribution.2 := by
  cases kind with
  | literals => exact ⟨by decide, by decide, by decide, by decide, by decide⟩
  | offset => exact ⟨by decide, by decide, by decide, by decide, by decide⟩
  | matched => exact ⟨by decide, by decide, by decide, by decide, by decide⟩

theorem getD_free_distribution (kind : Kind) : kind.distribution.1.getD free 0 = 0 := by
  have hlength : kind.distribution.1.length ≤ free := by
    cases kind <;> decide
  rw [List.getD_eq_default _ _ hlength]

/-- **Main theorem.** The parser of a header comes to its end, and the table of a header that it
accepts and those of the predefined distributions are exact. -/
theorem fse_tables (bytes : List UInt8) (maximumAccuracy : UInt8) (maximumSymbol : UInt16) :
    parseTable bytes maximumAccuracy.toNat maximumSymbol.toNat ≠ .error .unfinished ∧
      (∀ t consumed, parseTable bytes maximumAccuracy.toNat maximumSymbol.toNat =
        .ok (t, consumed) → ∃ probabilities s,
          header bytes maximumAccuracy.toNat maximumSymbol.toNat =
            .ok (t.accuracy, probabilities, s) ∧ Exact probabilities t) ∧
      ∀ kind, ∃ t, predefined kind = .ok t ∧ t.accuracy = kind.distribution.2 ∧
        Exact kind.distribution.1 t := by
  have hsymbol : maximumSymbol.toNat ≤ 65535 := Nat.le_of_lt_succ maximumSymbol.toNat_lt
  obtain ⟨hfinished, hheader⟩ := header_spec bytes maximumAccuracy.toNat hsymbol
  refine ⟨?_, fun t consumed hok => ?_, fun kind => ?_⟩
  · refine bind_ne_unfinished hfinished fun ⟨accuracy, probabilities, s⟩ hok => ?_
    exact bind_ne_unfinished (fromProbabilities_ne_unfinished (hheader _ _ _ hok))
      fun _ _ h => nomatch h
  · obtain ⟨⟨accuracy, probabilities, s⟩, hparsed, hok⟩ := bind_eq_ok.mp hok
    obtain ⟨t', htable, hok⟩ := bind_eq_ok.mp hok
    obtain ⟨rfl, -⟩ := Prod.mk.inj (Except.ok.inj hok)
    obtain ⟨rfl, hexact⟩ := fromProbabilities_ok (hheader _ _ _ hparsed) htable
    exact ⟨probabilities, s, hparsed, hexact⟩
  · obtain ⟨t, hok, haccuracy, hexact⟩ | ⟨-, hused⟩ :=
      fromProbabilities_spec (usesUp_distribution kind)
    · exact ⟨t, hok, haccuracy, hexact⟩
    · exact absurd (getD_free_distribution kind) hused

end Mrml.Zstd.Fse
