import Mrml.Common.Text
import Mrml.Common.Trap

/-!
# The byte-pair tokenizer

Model of `crates/mrml-tokenizer/src/lib.rs` (lines 5–165). Documents and texts are lists of tokens;
a token is the index of its bytes. The machine may refuse the room for the counts of all pairs,
whose size is the square of the target; what takes room in proportion to the texts is granted.

Results:
* `decode_encode`: a text is the bytes of its tokens.
* `Sound.step`: what a round of the training does to the tokenizer.
* `trainLoop_sound`: the documents are encoded as the training left them, and it ends when the
  target is reached or no pair is frequent enough.
* `train_encodes_iff`: the targets on which the training does not panic.
-/

namespace Mrml.Bpe

/-- `BOS_ID`. -/
def bosId : ℕ := 0

/-- `EOS_ID`. -/
def eosId : ℕ := 1

/-- `BYTE_TOKEN_OFFSET`. -/
def byteTokenOffset : ℕ := 2

/-- `Merge` (lines 9–14). -/
structure Merge where
  left : ℕ
  right : ℕ
  token : ℕ
deriving DecidableEq

/-- `apply_merge` (lines 138–156). What is read is never behind what was written. -/
def applyMerge (merge : Merge) : List ℕ → List ℕ
  | [] => []
  | [token] => [token]
  | first :: second :: rest =>
    if first = merge.left ∧ second = merge.right then merge.token :: applyMerge merge rest
    else first :: applyMerge merge (second :: rest)

/-- `Tokenizer` (lines 16–20). -/
structure Tokenizer where
  pieces : List (List UInt8)
  merges : List Merge

namespace Tokenizer

/-- `byte_level` (lines 23–34). -/
def byteLevel : Tokenizer where
  pieces := Text.asBytes "<bos>".toList :: Text.asBytes "<eos>".toList ::
    (List.range 256).map fun byte => [UInt8.ofNat byte]
  merges := []

variable (tokenizer : Tokenizer)

/-- `encode` (lines 44–63). -/
def encode (text : Text) (boundaries : Bool) : List ℕ :=
  let tokens := (if boundaries then [bosId] else []) ++
    text.asBytes.map fun byte => byte.toNat + byteTokenOffset
  tokenizer.merges.foldl (fun tokens merge => applyMerge merge tokens) tokens ++
    if boundaries then [eosId] else []

/-- The bytes of a token in `decode` (lines 71–79). -/
def decodeToken (token : ℕ) : List UInt8 :=
  if token = bosId ∨ token = eosId then [] else tokenizer.pieces.getD token []

/-- `decode` (lines 64–81). -/
def decode (tokens : List ℕ) : List UInt8 := tokens.flatMap tokenizer.decodeToken

end Tokenizer

/-! ## Training -/

/-- `Trainer` (lines 84–87). -/
structure Trainer where
  documents : List (List ℕ)
  tokenizer : Tokenizer

namespace Trainer

/-- `new` and `add_document` for each text (lines 87–95). -/
def ofDocuments (texts : List Text) : Trainer where
  documents := texts.map fun text => Tokenizer.byteLevel.encode text false
  tokenizer := .byteLevel

/-- `matrix_size` (lines 97–99). -/
def matrixSize (target : ℕ) : ℕ := if target * target < 2 ^ 64 then target * target else 0

/-- `Vector::with_capacity` for `n` counts of eight bytes (`vector.rs`, lines 42–46, 132–142 and
    196–215): `Layout::array` refuses more than `isize::MAX` bytes, and the allocator may refuse the
    rest. -/
def grantsCounts (allocates : ℕ → Bool) (n : ℕ) : Bool :=
  n == 0 || (decide (8 * n < 2 ^ 63) && allocates (8 * n))

/-- `document.windows(2)` of each document. -/
def pairs (documents : List (List ℕ)) : List (ℕ × ℕ) :=
  documents.flatMap fun document => document.zip document.tail

/-- The count of a pair (lines 106–109). -/
def countPair (build : Build) (target : ℕ) (counts : List ℕ) (pair : ℕ × ℕ) :
    Except (Fault Empty) (List ℕ) := do
  let row ← build.word (pair.1 * target)
  let index ← build.word (row + pair.2)
  return counts.modify index fun count => min (count + 1) (2 ^ 64 - 1)

/-- The counts of all pairs (lines 103–111). -/
def countPairs (build : Build) (target : ℕ) (documents : List (List ℕ)) :
    Except (Fault Empty) (List ℕ) :=
  (pairs documents).foldlM (countPair build target) (List.replicate (matrixSize target) 0)

/-- `enumerate().max_by_key(count)`, which is the last of the largest (lines 112–119). -/
def maxByKey : List ℕ → Option (ℕ × ℕ)
  | [] => none
  | count :: counts =>
    match maxByKey counts with
    | none => some (0, count)
    | some (index, frequency) =>
      if count ≤ frequency then some (index + 1, frequency) else some (0, count)

/-- A round of `train` (lines 103–135); without a result, the training ends. -/
def step (build : Build) (target minimum : ℕ) (trainer : Trainer) :
    Except (Fault Empty) (Option Trainer) := do
  let counts ← countPairs build target trainer.documents
  match maxByKey counts with
  | none => .ok none
  | some (index, frequency) =>
    if frequency < minimum then .ok none
    else do
      let left := index / target % 2 ^ 32
      let right := index % target % 2 ^ 32
      let token := trainer.tokenizer.pieces.length % 2 ^ 32
      let first ← okOr trainer.tokenizer.pieces[left]? Fault.panic
      let second ← okOr trainer.tokenizer.pieces[right]? Fault.panic
      let merge : Merge := ⟨left, right, token⟩
      return some {
        documents := trainer.documents.map (applyMerge merge)
        tokenizer := {
          pieces := trainer.tokenizer.pieces ++ [first ++ second]
          merges := trainer.tokenizer.merges ++ [merge] } }

/-- What a round of the training adds. -/
theorem step_eq_some {build : Build} {target minimum : ℕ} {trainer next : Trainer}
    (h : trainer.step build target minimum = .ok (some next)) :
    ∃ counts index frequency first second,
      countPairs build target trainer.documents = .ok counts ∧
      maxByKey counts = some (index, frequency) ∧
      minimum ≤ frequency ∧
      trainer.tokenizer.pieces[index / target % 2 ^ 32]? = some first ∧
      trainer.tokenizer.pieces[index % target % 2 ^ 32]? = some second ∧
      let merge : Merge :=
        ⟨index / target % 2 ^ 32, index % target % 2 ^ 32,
          trainer.tokenizer.pieces.length % 2 ^ 32⟩
      next = ⟨trainer.documents.map (applyMerge merge),
        ⟨trainer.tokenizer.pieces ++ [first ++ second], trainer.tokenizer.merges ++ [merge]⟩⟩ := by
  obtain ⟨counts, hcounts, h⟩ := bind_eq_ok.mp h
  split at h
  · cases h
  · rename_i index frequency hmax
    split_ifs at h with hfrequency
    · cases h
    · obtain ⟨first, hfirst, h⟩ := bind_eq_ok.mp h
      obtain ⟨second, hsecond, h⟩ := bind_eq_ok.mp h
      exact ⟨counts, index, frequency, first, second, hcounts, hmax, not_lt.mp hfrequency,
        okOr_eq_ok.mp hfirst, okOr_eq_ok.mp hsecond, (Option.some.inj (Except.ok.inj h)).symm⟩

theorem step_length {build : Build} {target minimum : ℕ} {trainer next : Trainer}
    (h : trainer.step build target minimum = .ok (some next)) :
    next.tokenizer.pieces.length = trainer.tokenizer.pieces.length + 1 := by
  obtain ⟨_, _, _, _, _, _, _, _, _, _, rfl⟩ := step_eq_some h
  exact List.length_append

/-- The loop of `train` (lines 102–136), with the documents as they are at the end. -/
def trainLoop (build : Build) (target minimum : ℕ) (trainer : Trainer) :
    Except (Fault Empty) Trainer :=
  if trainer.tokenizer.pieces.length < target then
    match _h : trainer.step build target minimum with
    | .error fault => .error fault
    | .ok none => .ok trainer
    | .ok (some next) => trainLoop build target minimum next
  else .ok trainer
termination_by target - trainer.tokenizer.pieces.length
decreasing_by
  have hlength := step_length _h
  omega

/-- `train` (lines 96–138), with the documents as they are at the end. -/
def train (build : Build) (allocates : ℕ → Bool) (target minimum : ℕ) (trainer : Trainer) :
    Except (Fault Empty) Trainer :=
  if grantsCounts allocates (matrixSize target) then trainLoop build target minimum trainer
  else .error .panic

end Trainer

/-! ## Merges -/

/-- A merge keeps the bytes that tokens stand for, if its token stands for those of its parts. -/
theorem flatMap_applyMerge {β : Type} {merge : Merge} {f : ℕ → List β}
    (h : f merge.token = f merge.left ++ f merge.right) (tokens : List ℕ) :
    (applyMerge merge tokens).flatMap f = tokens.flatMap f := by
  induction tokens using applyMerge.induct merge with
  | case1 => rfl
  | case2 token => rfl
  | case3 first second rest hpair ih =>
    obtain ⟨rfl, rfl⟩ := hpair
    rw [applyMerge, if_pos ⟨rfl, rfl⟩, List.flatMap_cons, ih, h, List.flatMap_cons,
      List.flatMap_cons, List.append_assoc]
  | case4 first second rest hne ih =>
    rw [applyMerge, if_neg hne, List.flatMap_cons, ih]
    rfl

theorem mem_applyMerge {merge : Merge} {token : ℕ} {tokens : List ℕ}
    (h : token ∈ applyMerge merge tokens) : token = merge.token ∨ token ∈ tokens := by
  induction tokens using applyMerge.induct merge with
  | case1 => exact .inr h
  | case2 => exact .inr h
  | case3 first second rest hpair ih =>
    rw [applyMerge, if_pos hpair] at h
    obtain rfl | h := List.mem_cons.mp h
    · exact .inl rfl
    · exact (ih h).imp id fun hmem => List.mem_cons_of_mem _ (List.mem_cons_of_mem _ hmem)
  | case4 first second rest hne ih =>
    rw [applyMerge, if_neg hne] at h
    obtain rfl | h := List.mem_cons.mp h
    · exact .inr List.mem_cons_self
    · exact (ih h).imp id fun hmem => List.mem_cons_of_mem _ hmem

namespace Tokenizer

/-- A merge of two earlier tokens: the bytes of its token are those of its parts. -/
structure Merges (pieces : List (List UInt8)) (merge : Merge) : Prop where
  left_ge : byteTokenOffset ≤ merge.left
  left_lt : merge.left < merge.token
  right_ge : byteTokenOffset ≤ merge.right
  right_lt : merge.right < merge.token
  bytes : pieces[merge.token]? = some (pieces.getD merge.left [] ++ pieces.getD merge.right [])

/-- The tokenizers that a training can leave. -/
structure Sound (tokenizer : Tokenizer) : Prop where
  byte : ∀ byte : UInt8, tokenizer.pieces[byte.toNat + byteTokenOffset]? = some [byte]
  length : tokenizer.pieces.length = 258 + tokenizer.merges.length
  merges : ∀ merge ∈ tokenizer.merges, Merges tokenizer.pieces merge
  token : ∀ i merge, tokenizer.merges[i]? = some merge → merge.token = 258 + i

theorem sound_byteLevel : Sound byteLevel where
  byte byte := by
    have hlt : byte.toNat < 256 := byte.toNat_lt
    simp [byteLevel, byteTokenOffset, hlt]
  length := by simp [byteLevel]
  merges merge hmerge := absurd hmerge List.not_mem_nil
  token i merge hmerge := by cases hmerge

/-- Decoding takes the token of a merge as its parts. -/
theorem Merges.decodeToken {tokenizer : Tokenizer} {merge : Merge}
    (h : Merges tokenizer.pieces merge) : tokenizer.decodeToken merge.token =
      tokenizer.decodeToken merge.left ++ tokenizer.decodeToken merge.right := by
  have hplain {token : ℕ} (hle : byteTokenOffset ≤ token) :
      tokenizer.decodeToken token = tokenizer.pieces.getD token [] := by
    refine if_neg (not_or.mpr ⟨?_, ?_⟩)
    · unfold bosId
      unfold byteTokenOffset at hle
      omega
    · unfold eosId
      unfold byteTokenOffset at hle
      omega
  rw [hplain (h.left_ge.trans h.left_lt.le), hplain h.left_ge, hplain h.right_ge,
    List.getD_eq_getElem?_getD, h.bytes]
  rfl

/-- **Run lemma.** All merges keep the bytes of a list of tokens. -/
theorem decode_foldl {tokenizer : Tokenizer} {merges : List Merge}
    (h : ∀ merge ∈ merges, Merges tokenizer.pieces merge) (tokens : List ℕ) :
    tokenizer.decode (merges.foldl (fun tokens merge => applyMerge merge tokens) tokens) =
      tokenizer.decode tokens := by
  induction merges generalizing tokens with
  | nil => rfl
  | cons merge merges ih =>
    obtain ⟨hmerge, hmerges⟩ := List.forall_mem_cons.mp h
    rw [List.foldl_cons, ih hmerges]
    exact flatMap_applyMerge hmerge.decodeToken tokens

/-- A text is the bytes of its tokens. -/
theorem decode_encode {tokenizer : Tokenizer} (h : tokenizer.Sound) (text : Text)
    (boundaries : Bool) : tokenizer.decode (tokenizer.encode text boundaries) = text.asBytes := by
  have hbytes (bytes : List UInt8) : tokenizer.decode
      (bytes.map fun byte => byte.toNat + byteTokenOffset) = bytes := by
    induction bytes with
    | nil => rfl
    | cons byte bytes ih =>
      have htoken : tokenizer.decodeToken (byte.toNat + byteTokenOffset) = [byte] := by
        rw [decodeToken, if_neg (by simp [bosId, eosId, byteTokenOffset]),
          List.getD_eq_getElem?_getD, h.byte]
        rfl
      rw [decode, List.map_cons, List.flatMap_cons, htoken]
      exact congrArg (byte :: ·) ih
  have hend (tokens : List ℕ) :
      tokenizer.decode (tokens ++ if boundaries then [eosId] else []) = tokenizer.decode tokens := by
    cases boundaries <;> simp [decode, decodeToken, eosId]
  rw [encode, hend, decode_foldl h.merges]
  cases boundaries
  · exact hbytes text.asBytes
  · exact hbytes text.asBytes

end Tokenizer

namespace Trainer

/-! ## A round -/

theorem getElem?_of_maxByKey {counts : List ℕ} {index frequency : ℕ}
    (h : maxByKey counts = some (index, frequency)) : counts[index]? = some frequency := by
  induction counts generalizing index frequency with
  | nil => cases h
  | cons count counts ih =>
    unfold maxByKey at h
    split at h
    · obtain ⟨rfl, rfl⟩ := Prod.mk.inj (Option.some.inj h)
      rfl
    · rename_i index' frequency' hmax
      split_ifs at h
      · obtain ⟨rfl, rfl⟩ := Prod.mk.inj (Option.some.inj h)
        exact ih hmax
      · obtain ⟨rfl, rfl⟩ := Prod.mk.inj (Option.some.inj h)
        rfl

/-- Every other count is at most that of the pair that is taken. -/
theorem le_of_maxByKey {counts : List ℕ} {index frequency : ℕ}
    (h : maxByKey counts = some (index, frequency)) : ∀ count ∈ counts, count ≤ frequency := by
  induction counts generalizing index frequency with
  | nil => nofun
  | cons count counts ih =>
    unfold maxByKey at h
    split at h
    · next hnone =>
      cases counts with
      | nil =>
        obtain ⟨-, rfl⟩ := Prod.mk.inj (Option.some.inj h)
        exact List.forall_mem_singleton.mpr le_rfl
      | cons second counts =>
        unfold maxByKey at hnone
        split at hnone
        · cases hnone
        · split_ifs at hnone
    · rename_i index' frequency' hmax
      split_ifs at h with hle
      · obtain ⟨-, rfl⟩ := Prod.mk.inj (Option.some.inj h)
        exact List.forall_mem_cons.mpr ⟨hle, ih hmax⟩
      · obtain ⟨-, rfl⟩ := Prod.mk.inj (Option.some.inj h)
        exact List.forall_mem_cons.mpr ⟨le_rfl, fun other hother =>
          (ih hmax other hother).trans (not_le.mp hle).le⟩

/-- One more of a pair, where the index is within 64 bits. -/
def tally (target : ℕ) (counts : List ℕ) (pair : ℕ × ℕ) : List ℕ :=
  counts.modify (pair.1 * target + pair.2) fun count => min (count + 1) (2 ^ 64 - 1)

/-- The counts, where all indices are within 64 bits. -/
def tallies (target : ℕ) (documents : List (List ℕ)) : List ℕ :=
  (pairs documents).foldl (tally target) (List.replicate (matrixSize target) 0)

theorem foldl_tally {target index : ℕ} {pairs : List (ℕ × ℕ)}
    (h : ∀ pair ∈ pairs, pair.1 * target + pair.2 ≠ index) (counts : List ℕ) :
    (pairs.foldl (tally target) counts)[index]? = counts[index]? := by
  induction pairs generalizing counts with
  | nil => rfl
  | cons pair pairs ih =>
    obtain ⟨hpair, hpairs⟩ := List.forall_mem_cons.mp h
    rw [List.foldl_cons, ih hpairs, tally, List.getElem?_modify]
    simp only [hpair, if_false, id_map']

theorem length_foldl_tally (target : ℕ) (pairs : List (ℕ × ℕ)) (counts : List ℕ) :
    (pairs.foldl (tally target) counts).length = counts.length := by
  induction pairs generalizing counts with
  | nil => rfl
  | cons pair pairs ih => rw [List.foldl_cons, ih, tally, List.length_modify]

theorem length_tallies (target : ℕ) (documents : List (List ℕ)) :
    (tallies target documents).length = matrixSize target := by
  rw [tallies, length_foldl_tally, List.length_replicate]

/-- Every occurrence of a pair is counted. -/
theorem count_le_foldl_tally (target : ℕ) (pair : ℕ × ℕ) (pairs : List (ℕ × ℕ))
    {counts : List ℕ} {count : ℕ} (h : counts[pair.1 * target + pair.2]? = some count) :
    ∃ total, (pairs.foldl (tally target) counts)[pair.1 * target + pair.2]? = some total ∧
      min (count + pairs.count pair) (2 ^ 64 - 1) ≤ total := by
  induction pairs generalizing counts count with
  | nil => exact ⟨count, h, min_le_left _ _⟩
  | cons other pairs ih =>
    rw [List.foldl_cons]
    by_cases hindex : other.1 * target + other.2 = pair.1 * target + pair.2
    · have hnext : (tally target counts other)[pair.1 * target + pair.2]? =
          some (min (count + 1) (2 ^ 64 - 1)) := by
        rw [tally, hindex, List.getElem?_modify_eq, h, Option.map_eq_map, Option.map_some]
      obtain ⟨total, htotal, hle⟩ := ih hnext
      refine ⟨total, htotal, le_trans ?_ hle⟩
      have hcount : (other :: pairs).count pair ≤ pairs.count pair + 1 := by
        rw [List.count_cons]
        split_ifs <;> omega
      generalize (other :: pairs).count pair = added at hcount ⊢
      generalize 2 ^ 64 - 1 = limit
      omega
    · have hne : other ≠ pair := fun heq => hindex (heq ▸ rfl)
      have hnext : (tally target counts other)[pair.1 * target + pair.2]? = some count := by
        rw [tally, List.getElem?_modify_ne _ _ hindex, h]
      rw [List.count_cons_of_ne hne]
      exact ih hnext

/-- A pair with a count is a pair of neighbours in a document. -/
theorem exists_pair {target index frequency : ℕ} {documents : List (List ℕ)}
    (h : (tallies target documents)[index]? = some frequency) (hpos : 0 < frequency) :
    ∃ document ∈ documents, ∃ first ∈ document, ∃ second ∈ document,
      first * target + second = index := by
  by_contra hnone
  rw [tallies, foldl_tally, List.getElem?_replicate] at h
  · split_ifs at h
    obtain rfl := Option.some.inj h
    exact absurd hpos (lt_irrefl 0)
  · intro pair hpair hindex
    obtain ⟨document, hdocument, hpair⟩ := List.mem_flatMap.mp hpair
    obtain ⟨hfirst, hsecond⟩ := List.of_mem_zip hpair
    exact hnone ⟨document, hdocument, pair.1, hfirst, pair.2, List.mem_of_mem_tail hsecond, hindex⟩

/-! ## Counting on a machine -/

/-- No index of a pair is a panic. -/
def Quiet (build : Build) (target : ℕ) (documents : List (List ℕ)) : Prop :=
  build = .debug → ∀ pair ∈ pairs documents, pair.1 * target + pair.2 < 2 ^ 64

theorem countPair_of_lt {build : Build} {target : ℕ} {pair : ℕ × ℕ}
    (h : pair.1 * target + pair.2 < 2 ^ 64) (counts : List ℕ) :
    countPair build target counts pair = .ok (tally target counts pair) := by
  rw [countPair, build.word_of_lt (by omega), ok_bind, build.word_of_lt h]
  rfl

theorem countPair_release_nil (target : ℕ) (pair : ℕ × ℕ) :
    countPair .release target [] pair = .ok [] := by
  rw [countPair, Build.word_release, ok_bind, Build.word_release, ok_bind]
  exact congrArg Except.ok (List.modify_nil _ _)

theorem countPair_debug {target : ℕ} {pair : ℕ × ℕ} (h : ¬ pair.1 * target + pair.2 < 2 ^ 64)
    (counts : List ℕ) : countPair .debug target counts pair = .error .panic := by
  unfold countPair
  by_cases hrow : pair.1 * target < 2 ^ 64
  · rw [Build.word_of_lt _ hrow, ok_bind, Build.word_debug h]
    rfl
  · rw [Build.word_debug hrow]
    rfl

theorem countPairs_of_lt {build : Build} {target : ℕ} {documents : List (List ℕ)}
    (h : ∀ pair ∈ pairs documents, pair.1 * target + pair.2 < 2 ^ 64) :
    countPairs build target documents = .ok (tallies target documents) := by
  rw [countPairs, tallies]
  generalize List.replicate (matrixSize target) 0 = counts
  generalize pairs documents = pairs at h
  induction pairs generalizing counts with
  | nil => rfl
  | cons pair pairs ih =>
    obtain ⟨hpair, hpairs⟩ := List.forall_mem_cons.mp h
    rw [List.foldlM_cons, countPair_of_lt hpair, ok_bind, List.foldl_cons]
    exact ih _ hpairs

/-- Without room for counts nothing is counted. -/
theorem countPairs_of_quiet {build : Build} {target : ℕ} {documents : List (List ℕ)}
    (hsize : matrixSize target = 0) (h : Quiet build target documents) :
    countPairs build target documents = .ok (tallies target documents) := by
  cases build with
  | debug => exact countPairs_of_lt (h rfl)
  | release =>
    rw [countPairs, tallies, hsize, List.replicate_zero]
    generalize pairs documents = pairs
    induction pairs with
    | nil => rfl
    | cons pair pairs ih =>
      rw [List.foldlM_cons, countPair_release_nil, ok_bind, List.foldl_cons, tally,
        List.modify_nil]
      exact ih

theorem countPairs_debug {target : ℕ} {documents : List (List ℕ)}
    (h : ¬ Quiet .debug target documents) :
    countPairs .debug target documents = .error .panic := by
  unfold countPairs
  generalize List.replicate (matrixSize target) 0 = counts
  have h : ¬∀ pair ∈ pairs documents, pair.1 * target + pair.2 < 2 ^ 64 := fun hall =>
    h fun _ => hall
  generalize pairs documents = pairs at h
  induction pairs generalizing counts with
  | nil => exact absurd (List.forall_mem_nil _) h
  | cons pair pairs ih =>
    rw [List.foldlM_cons]
    by_cases hpair : pair.1 * target + pair.2 < 2 ^ 64
    · rw [countPair_of_lt hpair, ok_bind]
      exact ih _ fun hall => h (List.forall_mem_cons.mpr ⟨hpair, hall⟩)
    · rw [countPair_debug hpair]
      rfl

theorem matrixSize_of_lt {target : ℕ} (h : target < 2 ^ 32) :
    matrixSize target = target * target := by
  have hle := Nat.mul_lt_mul'' h h
  rw [matrixSize, if_pos (by omega)]

theorem matrixSize_of_ge {target : ℕ} (h : 2 ^ 32 ≤ target) : matrixSize target = 0 := by
  have hle := Nat.mul_le_mul h h
  rw [matrixSize, if_neg (by omega)]

/-- What holds of a trainer between the rounds. -/
structure Sound (texts : List Text) (trainer : Trainer) : Prop where
  tokenizer : trainer.tokenizer.Sound
  documents : trainer.documents = texts.map fun text => trainer.tokenizer.encode text false
  token : ∀ document ∈ trainer.documents, ∀ token ∈ document,
    byteTokenOffset ≤ token ∧ token < trainer.tokenizer.pieces.length

theorem length_ofDocuments (texts : List Text) :
    (ofDocuments texts).tokenizer.pieces.length = 258 := by
  simp [ofDocuments, Tokenizer.byteLevel]

theorem sound_ofDocuments (texts : List Text) : Sound texts (ofDocuments texts) where
  tokenizer := Tokenizer.sound_byteLevel
  documents := rfl
  token document hdocument token htoken := by
    obtain ⟨text, -, rfl⟩ := List.mem_map.mp hdocument
    have hencode : Tokenizer.byteLevel.encode text false =
        text.asBytes.map fun byte => byte.toNat + byteTokenOffset := List.append_nil _
    rw [hencode] at htoken
    obtain ⟨byte, -, rfl⟩ := List.mem_map.mp htoken
    have hbyte : byte.toNat < 256 := byte.toNat_lt
    rw [length_ofDocuments]
    unfold byteTokenOffset
    omega

/-- The index of a pair of tokens in the matrix of the counts. -/
theorem index_lt {target first second : ℕ} (hfirst : first < target) (hsecond : second < target) :
    first * target + second < target * target := by
  calc first * target + second < first * target + target := by omega
    _ = (first + 1) * target := (Nat.succ_mul first target).symm
    _ ≤ target * target := Nat.mul_le_mul_right target (by omega)

/-- The pairs of a trainer are pairs of its tokens. -/
theorem Sound.mem_pairs {texts : List Text} {trainer : Trainer} (h : Sound texts trainer)
    {pair : ℕ × ℕ} (hpair : pair ∈ pairs trainer.documents) :
    pair.1 < trainer.tokenizer.pieces.length ∧ pair.2 < trainer.tokenizer.pieces.length := by
  obtain ⟨document, hdocument, hpair⟩ := List.mem_flatMap.mp hpair
  obtain ⟨hfirst, hsecond⟩ := List.of_mem_zip hpair
  exact ⟨(h.token document hdocument _ hfirst).2,
    (h.token document hdocument _ (List.mem_of_mem_tail hsecond)).2⟩

/-- A round counts the pairs, unless the target leaves no room for counts and a pair is a panic. -/
theorem Sound.countPairs {texts : List Text} {trainer : Trainer} (h : Sound texts trainer)
    {build : Build} {target : ℕ} (htarget : trainer.tokenizer.pieces.length < target)
    (hquiet : 2 ^ 32 ≤ target → Quiet build target trainer.documents) :
    countPairs build target trainer.documents = .ok (tallies target trainer.documents) := by
  rcases Nat.lt_or_ge target (2 ^ 32) with hsmall | hlarge
  · refine countPairs_of_lt fun pair hpair => ?_
    obtain ⟨hfirst, hsecond⟩ := h.mem_pairs hpair
    have hindex := index_lt (hfirst.trans htarget) (hsecond.trans htarget)
    have hsquare := Nat.mul_lt_mul'' hsmall hsmall
    omega
  · exact countPairs_of_quiet (matrixSize_of_ge hlarge) (hquiet hlarge)

/-- The tokens of a pair that is merged are tokens of the documents. -/
theorem Sound.pair {texts : List Text} {trainer : Trainer} (h : Sound texts trainer)
    {target minimum index frequency : ℕ} (hminimum : 1 ≤ minimum)
    (htarget : trainer.tokenizer.pieces.length < target)
    (hmax : maxByKey (tallies target trainer.documents) = some (index, frequency))
    (hfrequency : minimum ≤ frequency) :
    trainer.tokenizer.pieces.length % 2 ^ 32 = trainer.tokenizer.pieces.length ∧
    (byteTokenOffset ≤ index / target % 2 ^ 32 ∧
      index / target % 2 ^ 32 < trainer.tokenizer.pieces.length) ∧
    byteTokenOffset ≤ index % target % 2 ^ 32 ∧
      index % target % 2 ^ 32 < trainer.tokenizer.pieces.length := by
  have hcount := getElem?_of_maxByKey hmax
  obtain ⟨document, hdocument, first, hfirst, second, hsecond, hindex⟩ :=
    exists_pair hcount (by omega)
  have hfirst := h.token document hdocument first hfirst
  have hsecond := h.token document hdocument second hsecond
  -- there are counts, so that the target fits 32 bits
  have hlt := (List.getElem?_eq_some_iff.mp hcount).1
  rw [length_tallies] at hlt
  have hsmall : target < 2 ^ 32 := by
    by_contra hlarge
    rw [matrixSize_of_ge (not_lt.mp hlarge)] at hlt
    exact Nat.not_lt_zero _ hlt
  have hquotient : index / target = first := by
    rw [← hindex, Nat.mul_comm, Nat.mul_add_div (by omega), Nat.div_eq_of_lt (by omega),
      Nat.add_zero]
  have hrest : index % target = second := by
    rw [← hindex, Nat.mul_add_mod_of_lt (by omega)]
  rw [hquotient, hrest, Nat.mod_eq_of_lt (by omega), Nat.mod_eq_of_lt (by omega),
    Nat.mod_eq_of_lt (by omega)]
  exact ⟨rfl, hfirst, hsecond⟩

/-- A tokenizer with one more merge. -/
theorem sound_merge {tokenizer : Tokenizer} (h : tokenizer.Sound) {merge : Merge}
    {first second : List UInt8} (hleft : byteTokenOffset ≤ merge.left)
    (hright : byteTokenOffset ≤ merge.right) (hfirst : tokenizer.pieces[merge.left]? = some first)
    (hsecond : tokenizer.pieces[merge.right]? = some second)
    (htoken : merge.token = tokenizer.pieces.length) :
    Tokenizer.Sound ⟨tokenizer.pieces ++ [first ++ second], tokenizer.merges ++ [merge]⟩ := by
  have hearlier {token : ℕ} {piece : List UInt8} (hpiece : tokenizer.pieces[token]? = some piece) :
      (tokenizer.pieces ++ [first ++ second])[token]? = some piece := by
    rw [List.getElem?_append_left (List.getElem?_eq_some_iff.mp hpiece).1, hpiece]
  have hgetD {token : ℕ} {piece : List UInt8} (hpiece : tokenizer.pieces[token]? = some piece) :
      (tokenizer.pieces ++ [first ++ second]).getD token [] = piece := by
    rw [List.getD_eq_getElem?_getD, hearlier hpiece]
    rfl
  refine ⟨fun byte => hearlier (h.byte byte), ?_, ?_, ?_⟩
  · rw [List.length_append, List.length_append, h.length]
    rfl
  · intro merge' hmerge'
    obtain hmerge' | hmerge' := List.mem_append.mp hmerge'
    · have hmerges := h.merges merge' hmerge'
      have hlt := (List.getElem?_eq_some_iff.mp hmerges.bytes).1
      have hsame {token : ℕ} (hle : token < merge'.token) :
          (tokenizer.pieces ++ [first ++ second]).getD token [] =
            tokenizer.pieces.getD token [] := List.getD_append _ _ _ _ (by omega)
      refine ⟨hmerges.left_ge, hmerges.left_lt, hmerges.right_ge, hmerges.right_lt, ?_⟩
      rw [hsame hmerges.left_lt, hsame hmerges.right_lt]
      exact hearlier hmerges.bytes
    · obtain rfl := List.mem_singleton.mp hmerge'
      refine ⟨hleft, ?_, hright, ?_, ?_⟩
      · rw [htoken]
        exact (List.getElem?_eq_some_iff.mp hfirst).1
      · rw [htoken]
        exact (List.getElem?_eq_some_iff.mp hsecond).1
      · rw [hgetD hfirst, hgetD hsecond, htoken, List.getElem?_append_right le_rfl, Nat.sub_self]
        rfl
  · intro i merge' hmerge'
    obtain hlt | hle := lt_or_ge i tokenizer.merges.length
    · rw [List.getElem?_append_left hlt] at hmerge'
      exact h.token i merge' hmerge'
    · rw [List.getElem?_append_right hle, List.getElem?_singleton] at hmerge'
      split_ifs at hmerge' with hlast
      obtain rfl := Option.some.inj hmerge'
      rw [htoken, h.length]
      omega

/-- A round of the training does not panic. -/
theorem Sound.exists_step {texts : List Text} {trainer : Trainer} (h : Sound texts trainer)
    {build : Build} {target minimum : ℕ} (hminimum : 1 ≤ minimum)
    (htarget : trainer.tokenizer.pieces.length < target)
    (hquiet : 2 ^ 32 ≤ target → Quiet build target trainer.documents) :
    ∃ next, trainer.step build target minimum = .ok next := by
  rw [Trainer.step, h.countPairs htarget hquiet, ok_bind]
  cases hmax : maxByKey (tallies target trainer.documents) with
  | none => exact ⟨none, rfl⟩
  | some entry =>
    obtain ⟨index, frequency⟩ := entry
    by_cases hfrequency : frequency < minimum
    · exact ⟨none, if_pos hfrequency⟩
    · obtain ⟨-, ⟨-, hleft⟩, -, hright⟩ :=
        h.pair hminimum htarget hmax (not_lt.mp hfrequency)
      dsimp only
      rw [if_neg hfrequency, List.getElem?_eq_getElem hleft, List.getElem?_eq_getElem hright,
        okOr_some, ok_bind, okOr_some, ok_bind]
      exact ⟨_, rfl⟩

/-- Where a round is the last one, no pair is frequent enough, or there is no room for counts. -/
theorem Sound.stopped {texts : List Text} {trainer : Trainer} (h : Sound texts trainer)
    {build : Build} {target minimum : ℕ} (hminimum : 1 ≤ minimum)
    (htarget : trainer.tokenizer.pieces.length < target)
    (hstep : trainer.step build target minimum = .ok none) :
    2 ^ 32 ≤ target ∨
      ∀ pair, min ((pairs trainer.documents).count pair) (2 ^ 64 - 1) < minimum := by
  rcases Nat.lt_or_ge target (2 ^ 32) with hsmall | hlarge
  swap
  · exact .inl hlarge
  refine .inr fun pair => ?_
  by_cases hpair : pair ∈ pairs trainer.documents
  swap
  · rw [List.count_eq_zero_of_not_mem hpair]
    omega
  obtain ⟨hfirst, hsecond⟩ := h.mem_pairs hpair
  have hindex := index_lt (hfirst.trans htarget) (hsecond.trans htarget)
  -- the count of the pair is in the matrix, and no count is above the one that is refused
  have hzero : (List.replicate (matrixSize target) 0)[pair.1 * target + pair.2]? = some 0 := by
    rw [List.getElem?_replicate, matrixSize_of_lt hsmall, if_pos hindex]
  obtain ⟨total, htotal, hle⟩ :=
    count_le_foldl_tally target pair (pairs trainer.documents) hzero
  rw [Nat.zero_add] at hle
  have hmem : total ∈ tallies target trainer.documents := List.mem_of_getElem? htotal
  rw [Trainer.step, h.countPairs htarget fun hlarge => absurd hlarge (not_le.mpr hsmall),
    ok_bind] at hstep
  cases hmax : maxByKey (tallies target trainer.documents) with
  | none =>
    cases hcounts : tallies target trainer.documents with
    | nil =>
      rw [hcounts] at hmem
      cases hmem
    | cons count counts =>
      rw [hcounts, maxByKey] at hmax
      split at hmax
      · cases hmax
      · split_ifs at hmax
  | some entry =>
    obtain ⟨index, frequency⟩ := entry
    rw [hmax] at hstep
    dsimp only at hstep
    split_ifs at hstep with hfrequency
    · have := le_of_maxByKey hmax total hmem
      omega
    · obtain ⟨first, -, hstep⟩ := bind_eq_ok.mp hstep
      obtain ⟨second, -, hstep⟩ := bind_eq_ok.mp hstep
      cases hstep

/-- **Step lemma.** A round of the training keeps what holds of a trainer. -/
theorem Sound.step {texts : List Text} {trainer next : Trainer} (h : Sound texts trainer)
    {build : Build} {target minimum : ℕ} (hminimum : 1 ≤ minimum)
    (htarget : trainer.tokenizer.pieces.length < target)
    (hquiet : 2 ^ 32 ≤ target → Quiet build target trainer.documents)
    (hstep : trainer.step build target minimum = .ok (some next)) :
    Sound texts next ∧ target < 2 ^ 32 := by
  obtain ⟨counts, index, frequency, first, second, hcounts, hmax, hfrequency, hfirst, hsecond,
    rfl⟩ := step_eq_some hstep
  rw [h.countPairs htarget hquiet, Except.ok.injEq] at hcounts
  subst hcounts
  obtain ⟨htoken, ⟨hleft, -⟩, hright, -⟩ := h.pair hminimum htarget hmax hfrequency
  refine ⟨?_, ?_⟩
  swap
  · by_contra hlarge
    have hlt := (List.getElem?_eq_some_iff.mp (getElem?_of_maxByKey hmax)).1
    rw [length_tallies, matrixSize_of_ge (not_lt.mp hlarge)] at hlt
    exact Nat.not_lt_zero _ hlt
  refine ⟨sound_merge h.tokenizer hleft hright hfirst hsecond htoken, ?_, ?_⟩
  · -- the merge comes last in the encoding, as it did in the training
    rw [h.documents, List.map_map]
    refine List.map_congr_left fun text _ => ?_
    simp [Tokenizer.encode, List.foldl_append]
  · intro document hdocument token htoken'
    obtain ⟨document, hmem, rfl⟩ := List.mem_map.mp hdocument
    rw [List.length_append, List.length_singleton]
    obtain rfl | htoken' := mem_applyMerge htoken'
    · dsimp only
      rw [htoken, h.tokenizer.length]
      unfold byteTokenOffset
      omega
    · obtain ⟨hge, hlt⟩ := h.token document hmem token htoken'
      exact ⟨hge, hlt.trans (Nat.lt_succ_self _)⟩

/-- **Run lemma.** The training ends without a panic, within the target, and when no pair is
    frequent enough, if it does not reach the target before. -/
theorem trainLoop_sound {texts : List Text} {trainer : Trainer} (h : Sound texts trainer)
    {build : Build} {target minimum : ℕ} (hminimum : 1 ≤ minimum)
    (hquiet : 2 ^ 32 ≤ target → Quiet build target trainer.documents) :
    ∃ trained, trainLoop build target minimum trainer = .ok trained ∧ Sound texts trained ∧
      trained.tokenizer.pieces.length ≤ max trainer.tokenizer.pieces.length target ∧
      (target ≤ trained.tokenizer.pieces.length ∨ 2 ^ 32 ≤ target ∨
        ∀ pair, min ((pairs trained.documents).count pair) (2 ^ 64 - 1) < minimum) := by
  induction trainer using trainLoop.induct build target minimum with
  | case1 trainer htarget fault hstep =>
    obtain ⟨next, hnext⟩ := h.exists_step hminimum htarget hquiet
    rw [hnext] at hstep
    cases hstep
  | case2 trainer htarget hstep =>
    refine ⟨trainer, ?_, h, le_max_left _ _, .inr (h.stopped hminimum htarget hstep)⟩
    rw [trainLoop, if_pos htarget]
    split <;> simp_all
  | case3 trainer htarget next hstep ih =>
    obtain ⟨hnext, hsmall⟩ := h.step hminimum htarget hquiet hstep
    obtain ⟨trained, htrained, hsound, hlength, hstops⟩ :=
      ih hnext fun hlarge => absurd hlarge (not_le.mpr hsmall)
    refine ⟨trained, ?_, hsound, ?_, hstops⟩
    · rw [trainLoop, if_pos htarget]
      split <;> simp_all
    · rw [step_length hstep] at hlength
      omega
  | case4 trainer htarget =>
    refine ⟨trainer, ?_, h, le_max_left _ _, .inl (not_lt.mp htarget)⟩
    rw [trainLoop, if_neg htarget]

end Trainer

/-! ## The main theorem -/

/-- What a training leaves: each merge is of two earlier tokens, whose bytes together are those of
    its own token; a text is the bytes of its tokens; and the documents are encoded as the training
    left them. -/
structure Encodes (texts : List Text) (trained : Trainer) : Prop where
  merges : ∀ (i : ℕ) (merge : Merge), trained.tokenizer.merges[i]? = some merge →
    merge.token = 258 + i ∧ merge.left < merge.token ∧ merge.right < merge.token ∧
    ∃ first second, trained.tokenizer.pieces[merge.left]? = some first ∧
      trained.tokenizer.pieces[merge.right]? = some second ∧
      trained.tokenizer.pieces[merge.token]? = some (first ++ second)
  decodes : ∀ (text : Text) (boundaries : Bool),
    trained.tokenizer.decode (trained.tokenizer.encode text boundaries) = text.asBytes
  documents : trained.documents = texts.map fun text => trained.tokenizer.encode text false

theorem Trainer.Sound.encodes {texts : List Text} {trained : Trainer}
    (h : Trainer.Sound texts trained) : Encodes texts trained where
  decodes := Tokenizer.decode_encode h.tokenizer
  documents := h.documents
  merges i merge hmerge := by
    have hmerges := h.tokenizer.merges merge (List.mem_of_getElem? hmerge)
    have hlt := (List.getElem?_eq_some_iff.mp hmerges.bytes).1
    refine ⟨h.tokenizer.token i merge hmerge, hmerges.left_lt, hmerges.right_lt,
      _, _, List.getElem?_eq_getElem (hmerges.left_lt.trans hlt),
      List.getElem?_eq_getElem (hmerges.right_lt.trans hlt), ?_⟩
    rw [hmerges.bytes, List.getD_eq_getElem _ _ (hmerges.left_lt.trans hlt),
      List.getD_eq_getElem _ _ (hmerges.right_lt.trans hlt)]

/-- The counts of all pairs can be allocated, or there are none; and where the target leaves no
    room for counts, a build with overflow checks finds no index of more than 64 bits for two
    neighbouring bytes. -/
def Trainable (build : Build) (allocates : ℕ → Bool) (texts : List Text) (target : ℕ) : Prop :=
  (target = 0 ∨ 2 ^ 32 ≤ target ∨ target < 2 ^ 30 ∧ allocates (8 * (target * target)) = true) ∧
  (build = .debug → ∀ text ∈ texts, ∀ pair ∈ text.asBytes.zip text.asBytes.tail,
    (pair.1.toNat + byteTokenOffset) * target + (pair.2.toNat + byteTokenOffset) < 2 ^ 64)

/-- A target below `2^30` has no such index. -/
theorem trainable_of_lt {build : Build} {allocates : ℕ → Bool} {texts : List Text} {target : ℕ}
    (h : target < 2 ^ 30) (hallocates : allocates (8 * (target * target)) = true) :
    Trainable build allocates texts target := by
  refine ⟨.inr (.inr ⟨h, hallocates⟩), fun _ text _ pair _ => ?_⟩
  have hfirst : pair.1.toNat < 256 := pair.1.toNat_lt
  have hsecond : pair.2.toNat < 256 := pair.2.toNat_lt
  unfold byteTokenOffset
  have hle : (pair.1.toNat + 2) * target ≤ 257 * 2 ^ 30 :=
    Nat.mul_le_mul (by omega) h.le
  omega

theorem grantsCounts_iff {allocates : ℕ → Bool} {target : ℕ} :
    Trainer.grantsCounts allocates (Trainer.matrixSize target) = true ↔
      target = 0 ∨ 2 ^ 32 ≤ target ∨ target < 2 ^ 30 ∧ allocates (8 * (target * target)) = true := by
  rcases Nat.lt_or_ge target (2 ^ 32) with hsmall | hlarge
  · rw [Trainer.matrixSize_of_lt hsmall, Trainer.grantsCounts, Bool.or_eq_true, Bool.and_eq_true,
      decide_eq_true_iff, beq_iff_eq, mul_self_eq_zero]
    have hbytes : 8 * (target * target) < 2 ^ 63 ↔ target < 2 ^ 30 := by
      constructor
      · intro h
        by_contra hge
        have hle := Nat.mul_le_mul (not_lt.mp hge) (not_lt.mp hge)
        omega
      · intro h
        have hlt := Nat.mul_lt_mul'' h h
        omega
    rw [hbytes]
    refine or_congr_right ?_
    exact (or_iff_right (not_le.mpr hsmall)).symm
  · rw [Trainer.matrixSize_of_ge hlarge]
    exact iff_of_true rfl (.inr (.inl hlarge))

/-- The pairs of the documents before the training are those of the bytes of the texts. -/
theorem quiet_ofDocuments_iff {build : Build} {texts : List Text} {target : ℕ} :
    Trainer.Quiet build target (Trainer.ofDocuments texts).documents ↔
      (build = .debug → ∀ text ∈ texts, ∀ pair ∈ text.asBytes.zip text.asBytes.tail,
        (pair.1.toNat + byteTokenOffset) * target + (pair.2.toNat + byteTokenOffset) < 2 ^ 64) := by
  have hpairs : Trainer.pairs (Trainer.ofDocuments texts).documents =
      texts.flatMap fun text => (text.asBytes.zip text.asBytes.tail).map
        (Prod.map (fun byte => byte.toNat + byteTokenOffset)
          fun byte => byte.toNat + byteTokenOffset) := by
    rw [Trainer.pairs, Trainer.ofDocuments, List.flatMap_map]
    refine List.flatMap_congr fun text _ => ?_
    have hencode : Tokenizer.byteLevel.encode text false =
        text.asBytes.map fun byte => byte.toNat + byteTokenOffset := List.append_nil _
    rw [hencode, ← List.map_tail, List.zip_map]
  unfold Trainer.Quiet
  rw [hpairs]
  simp only [List.mem_flatMap, List.mem_map]
  constructor
  · intro h hdebug text htext pair hpair
    exact h hdebug _ ⟨text, htext, pair, hpair, rfl⟩
  · rintro h hdebug _ ⟨text, htext, pair, hpair, rfl⟩
    exact h hdebug text htext pair hpair

/-- A training that goes through. -/
theorem Trainable.train {build : Build} {allocates : ℕ → Bool} {texts : List Text} {target : ℕ}
    (h : Trainable build allocates texts target) {minimum : ℕ} (hminimum : 1 ≤ minimum) :
    ∃ trained, Trainer.train build allocates target minimum (Trainer.ofDocuments texts) =
        .ok trained ∧ Trainer.Sound texts trained ∧
      trained.tokenizer.pieces.length ≤ max 258 target ∧
      (target ≤ trained.tokenizer.pieces.length ∨ 2 ^ 32 ≤ target ∨
        ∀ pair, min ((Trainer.pairs trained.documents).count pair) (2 ^ 64 - 1) < minimum) := by
  have hstart := Trainer.sound_ofDocuments texts
  rw [Trainer.train, if_pos (grantsCounts_iff.mpr h.1), ← Trainer.length_ofDocuments texts]
  exact Trainer.trainLoop_sound hstart hminimum fun _ => quiet_ofDocuments_iff.mpr h.2

/-- A training that panics. -/
theorem trainable_of_train {build : Build} {allocates : ℕ → Bool} {texts : List Text}
    {target minimum : ℕ} {trained : Trainer}
    (h : Trainer.train build allocates target minimum (Trainer.ofDocuments texts) = .ok trained) :
    Trainable build allocates texts target := by
  rw [Trainer.train] at h
  split_ifs at h with hgrants
  refine ⟨grantsCounts_iff.mp hgrants, quiet_ofDocuments_iff.mp ?_⟩
  by_contra hloud
  obtain rfl : build = .debug := by
    cases build with
    | debug => rfl
    | release => exact absurd nofun hloud
  -- the first round finds the pair: a smaller target has no index of more than 64 bits
  have hstart := Trainer.sound_ofDocuments texts
  have hlength := Trainer.length_ofDocuments texts
  have hlarge : 258 < target := by
    by_contra hsmall
    refine hloud fun _ pair hpair => ?_
    obtain ⟨hfirst, hsecond⟩ := hstart.mem_pairs hpair
    have hle := Nat.mul_le_mul hfirst.le (not_lt.mp hsmall)
    omega
  rw [Trainer.trainLoop, if_pos (hlength ▸ hlarge)] at h
  have hstep : (Trainer.ofDocuments texts).step .debug target minimum = .error .panic := by
    rw [Trainer.step, Trainer.countPairs_debug hloud]
    rfl
  split at h
  · cases h
  · next hnone => rw [hstep] at hnone; cases hnone
  · next hsome => rw [hstep] at hsome; cases hsome

/-- **Main theorem.** Exactly on a target for which the counts can be allocated, and no index is an
    overflow that a build with checks finds, the training ends without a panic and leaves what it
    has to. It then has no more tokens than the target, and ends before it only where no pair is
    frequent enough, or where the square of the target is above 64 bits and nothing is counted. -/
theorem train_encodes_iff (build : Build) (allocates : ℕ → Bool) (texts : List Text) (target : ℕ)
    {minimum : ℕ} (hminimum : 1 ≤ minimum) :
    ((∃ trained, Trainer.train build allocates target minimum (Trainer.ofDocuments texts) =
        .ok trained ∧ Encodes texts trained) ↔ Trainable build allocates texts target) ∧
    ∀ trained, Trainer.train build allocates target minimum (Trainer.ofDocuments texts) =
        .ok trained →
      258 + trained.tokenizer.merges.length ≤ max 258 target ∧
      (target ≤ 258 + trained.tokenizer.merges.length ∨ 2 ^ 32 ≤ target ∨
        ∀ pair, min ((Trainer.pairs trained.documents).count pair) (2 ^ 64 - 1) < minimum) := by
  refine ⟨⟨fun ⟨_, htrained, _⟩ => trainable_of_train htrained, fun h => ?_⟩, ?_⟩
  · obtain ⟨trained, htrained, hsound, -⟩ := h.train hminimum
    exact ⟨trained, htrained, hsound.encodes⟩
  · intro trained htrained
    obtain ⟨trained', htrained', hsound, hlength, hstops⟩ :=
      (trainable_of_train htrained).train hminimum
    rw [htrained] at htrained'
    obtain rfl := Except.ok.inj htrained'
    rw [← hsound.tokenizer.length]
    exact ⟨hlength, hstops⟩

/-- Training on one document, with room for one merge, which is made. -/
theorem train_encodes_document : ∃ trained,
    Trainer.train .debug (fun _ => true) 259 1 (Trainer.ofDocuments ["aaa".toList]) = .ok trained ∧
    trained.tokenizer.merges.length = 1 ∧
    trained.tokenizer.decode (trained.tokenizer.encode "aab".toList true) =
      Text.asBytes "aab".toList ∧
    trained.documents = [trained.tokenizer.encode "aaa".toList false] := by
  obtain ⟨hiff, hends⟩ := train_encodes_iff .debug (fun _ => true) ["aaa".toList] 259 (le_refl 1)
  obtain ⟨trained, htrained, hencodes⟩ := hiff.mpr (trainable_of_lt (by decide) rfl)
  obtain ⟨hle, hstops⟩ := hends trained htrained
  refine ⟨trained, htrained, ?_, hencodes.decodes _ _, hencodes.documents⟩
  have hne : trained.tokenizer.merges ≠ [] := by
    intro hnone
    -- without a merge the document is still a row of three equal tokens
    have hdocuments : trained.documents = [[99, 99, 99]] := by
      rw [hencodes.documents]
      unfold Tokenizer.encode
      rw [hnone]
      rfl
    rw [hnone, hdocuments] at hstops
    rcases hstops with hreached | hlarge | hrare
    · exact absurd hreached (by decide)
    · exact absurd hlarge (by decide)
    · exact absurd (hrare (99, 99)) (by decide)
  have hpos := List.length_pos_iff.mpr hne
  omega

/-- On the target `2^30` the training panics: the counts would take `2^63` bytes. -/
theorem train_panics : ¬∀ (build : Build) (allocates : ℕ → Bool) (texts : List Text)
    (target minimum : ℕ), 1 ≤ minimum →
    ∃ trained, Trainer.train build allocates target minimum (Trainer.ofDocuments texts) =
      .ok trained ∧ Encodes texts trained := by
  intro h
  obtain ⟨trained, htrained, -⟩ := h .release (fun _ => true) [] (2 ^ 30) 1 (le_refl 1)
  have hpanics : Trainer.train .release (fun _ => true) (2 ^ 30) 1 (Trainer.ofDocuments []) =
      .error .panic := rfl
  rw [hpanics] at htrained
  cases htrained

end Mrml.Bpe
