import Mathlib

/-!
# Line-ending filters

Model of `clean_worktree_bytes` and `smudge_worktree_bytes`
(`crates/mrml-git/src/repository.rs`, lines 2525–2557), which the repository runs when a
file is staged and when it is checked out.

Results:
* `clean_eq`, `smudge_eq`: without NUL bytes the filters are their loops.
* `cleanLoop_smudgeLoop`: cleaning undoes smudging.
* `clean_smudge_stable_iff`: when a staged file that is checked out is clean.
-/

namespace Mrml.Git

/-- `b'\r'`. -/
def carriageReturn : UInt8 := 0x0d

/-- `b'\n'`. -/
def lineFeed : UInt8 := 0x0a

/-- `source.windows(2).any(|pair| pair == b"\r\n")` (line 2526). -/
def hasCrLf (source : List UInt8) : Bool :=
  (source.zip source.tail).any fun pair => pair.1 == carriageReturn && pair.2 == lineFeed

/-- The loop of `clean_worktree_bytes` (lines 2531–2539). -/
def cleanLoop : List UInt8 → List UInt8
  | [] => []
  | [byte] => [byte]
  | byte :: next :: rest =>
    if byte = carriageReturn ∧ next = lineFeed then lineFeed :: cleanLoop rest
    else byte :: cleanLoop (next :: rest)

/-- `clean_worktree_bytes` (lines 2525–2541). -/
def cleanWorktreeBytes (source : List UInt8) (enabled : Bool) : List UInt8 :=
  if !enabled || source.contains 0 || !hasCrLf source then source else cleanLoop source

/-- The loop of `smudge_worktree_bytes` (lines 2548–2555). -/
def smudgeLoop : Option UInt8 → List UInt8 → List UInt8
  | _, [] => []
  | previous, byte :: rest =>
    if byte = lineFeed ∧ previous ≠ some carriageReturn then
      carriageReturn :: byte :: smudgeLoop (some byte) rest
    else byte :: smudgeLoop (some byte) rest

/-- `smudge_worktree_bytes` (lines 2543–2557). -/
def smudgeWorktreeBytes (source : List UInt8) (enabled : Bool) : List UInt8 :=
  if !enabled || source.contains 0 || !source.contains lineFeed then source
  else smudgeLoop none source

/-! ## The loops -/

theorem hasCrLf_cons (byte next : UInt8) (rest : List UInt8) :
    hasCrLf (byte :: next :: rest) =
      (byte == carriageReturn && next == lineFeed || hasCrLf (next :: rest)) := rfl

/-- The bytes of a pair that the loop replaces. -/
theorem cleanLoop_pair (rest : List UInt8) :
    cleanLoop (carriageReturn :: lineFeed :: rest) = lineFeed :: cleanLoop rest := by
  rw [cleanLoop, if_pos ⟨rfl, rfl⟩]

theorem cleanLoop_cons {byte next : UInt8} (h : ¬ (byte = carriageReturn ∧ next = lineFeed))
    (rest : List UInt8) : cleanLoop (byte :: next :: rest) = byte :: cleanLoop (next :: rest) := by
  rw [cleanLoop, if_neg h]

/-- A byte that does not begin a pair is kept. -/
theorem cleanLoop_of_ne {byte : UInt8} (h : byte ≠ carriageReturn) (rest : List UInt8) :
    cleanLoop (byte :: rest) = byte :: cleanLoop rest := by
  cases rest with
  | nil => rfl
  | cons next rest => exact cleanLoop_cons (fun hpair => h hpair.1) rest

theorem cleanLoop_of_not_hasCrLf {source : List UInt8} (h : hasCrLf source = false) :
    cleanLoop source = source := by
  induction source using cleanLoop.induct with
  | case1 => rfl
  | case2 byte => rfl
  | case3 byte next rest hpair ih =>
    obtain ⟨rfl, rfl⟩ := hpair
    cases h
  | case4 byte next rest hpair ih =>
    rw [hasCrLf_cons, Bool.or_eq_false_iff] at h
    rw [cleanLoop_cons hpair, ih h.2]

/-- The loop of the clean filter removes bytes, none of which is NUL. -/
theorem zero_mem_cleanLoop (source : List UInt8) : 0 ∈ cleanLoop source ↔ 0 ∈ source := by
  induction source using cleanLoop.induct with
  | case1 => rfl
  | case2 byte => rfl
  | case3 byte next rest hpair ih =>
    obtain ⟨rfl, rfl⟩ := hpair
    rw [cleanLoop_pair, List.mem_cons, List.mem_cons, List.mem_cons, ih]
    simp [carriageReturn, lineFeed]
  | case4 byte next rest hpair ih => rw [cleanLoop_cons hpair, List.mem_cons, List.mem_cons, ih]

/-- The loop of the smudge filter adds bytes, none of which is NUL. -/
theorem zero_mem_smudgeLoop (previous : Option UInt8) (source : List UInt8) :
    0 ∈ smudgeLoop previous source ↔ 0 ∈ source := by
  induction source generalizing previous with
  | nil => rfl
  | cons byte rest ih =>
    rw [smudgeLoop]
    split_ifs
    · rw [List.mem_cons, List.mem_cons, List.mem_cons, ih]
      simp [carriageReturn]
    · rw [List.mem_cons, List.mem_cons, ih]

theorem smudgeLoop_of_not_mem {source : List UInt8} (h : lineFeed ∉ source)
    (previous : Option UInt8) : smudgeLoop previous source = source := by
  induction source generalizing previous with
  | nil => rfl
  | cons byte rest ih =>
    rw [List.mem_cons, not_or] at h
    rw [smudgeLoop, if_neg (fun hfeed => h.1 hfeed.1.symm), ih h.2]

/-- The smudge filter gives every line feed its carriage return, and the clean filter takes it
    away. After a carriage return, that byte belongs to the source. -/
theorem cleanLoop_smudgeLoop (source : List UInt8) :
    (∀ previous, previous ≠ some carriageReturn →
      cleanLoop (smudgeLoop previous source) = cleanLoop source) ∧
    cleanLoop (carriageReturn :: smudgeLoop (some carriageReturn) source) =
      cleanLoop (carriageReturn :: source) := by
  induction source with
  | nil => exact ⟨fun _ _ => rfl, rfl⟩
  | cons byte rest ih =>
    obtain ⟨ihother, ihreturn⟩ := ih
    have hfeed : lineFeed ≠ carriageReturn := by decide
    by_cases hbyte : byte = lineFeed
    · subst hbyte
      have hrest := ihother (some lineFeed) (by decide)
      constructor
      · intro previous hprevious
        rw [smudgeLoop, if_pos ⟨rfl, hprevious⟩, cleanLoop_pair, hrest, cleanLoop_of_ne hfeed]
      · rw [smudgeLoop, if_neg (fun h => h.2 rfl), cleanLoop_pair, cleanLoop_pair, hrest]
    · have hkept : ∀ previous, smudgeLoop previous (byte :: rest) =
          byte :: smudgeLoop (some byte) rest := by
        intro previous
        rw [smudgeLoop, if_neg (fun h => hbyte h.1)]
      have hnext : cleanLoop (byte :: smudgeLoop (some byte) rest) = cleanLoop (byte :: rest) := by
        by_cases hreturn : byte = carriageReturn
        · subst hreturn
          exact ihreturn
        · rw [cleanLoop_of_ne hreturn, cleanLoop_of_ne hreturn,
            ihother (some byte) (fun h => hreturn (Option.some.inj h))]
      constructor
      · intro previous _
        rw [hkept, hnext]
      · rw [hkept, cleanLoop_cons (fun h => hbyte h.2), cleanLoop_cons (fun h => hbyte h.2), hnext]

theorem hasCrLf_cons_iff (byte : UInt8) (rest : List UInt8) :
    hasCrLf (byte :: rest) = true ↔
      byte = carriageReturn ∧ rest.head? = some lineFeed ∨ hasCrLf rest = true := by
  cases rest with
  | nil => simp [hasCrLf]
  | cons next rest => simp [hasCrLf_cons]

/-- The loop shortens what has a pair. -/
theorem length_cleanLoop (source : List UInt8) :
    (cleanLoop source).length ≤ source.length ∧
      (hasCrLf source = true → (cleanLoop source).length < source.length) := by
  induction source using cleanLoop.induct with
  | case1 => exact ⟨le_rfl, fun h => nomatch h⟩
  | case2 byte => exact ⟨le_rfl, fun h => nomatch h⟩
  | case3 byte next rest hpair ih =>
    obtain ⟨rfl, rfl⟩ := hpair
    rw [cleanLoop_pair]
    simp only [List.length_cons]
    omega
  | case4 byte next rest hpair ih =>
    rw [cleanLoop_cons hpair, hasCrLf_cons_iff]
    simp only [List.length_cons, List.head?_cons, Option.some_inj] at ih ⊢
    refine ⟨by omega, ?_⟩
    rintro (h | h)
    · exact absurd h hpair
    · have := ih.2 h
      omega

/-- The loop keeps exactly what has no pair. -/
theorem cleanLoop_eq_self_iff (source : List UInt8) :
    cleanLoop source = source ↔ hasCrLf source = false := by
  constructor
  · intro h
    by_contra hpair
    have hlt := (length_cleanLoop source).2 (by simpa using hpair)
    rw [h] at hlt
    exact lt_irrefl _ hlt
  · exact cleanLoop_of_not_hasCrLf

theorem head?_cleanLoop (byte : UInt8) (rest : List UInt8) :
    (cleanLoop (byte :: rest)).head? = some lineFeed ↔
      byte = lineFeed ∨ byte = carriageReturn ∧ rest.head? = some lineFeed := by
  cases rest with
  | nil => simp [cleanLoop]
  | cons next rest =>
    by_cases hpair : byte = carriageReturn ∧ next = lineFeed
    · obtain ⟨rfl, rfl⟩ := hpair
      simp [cleanLoop_pair]
    · simp [cleanLoop_cons hpair, hpair]

/-- `b"\r\r\n"`. -/
def doubledReturn : List UInt8 := [carriageReturn, carriageReturn, lineFeed]

/-- A pair is left where a second carriage return stood before one. -/
theorem hasCrLf_cleanLoop (source : List UInt8) :
    hasCrLf (cleanLoop source) = true ↔ doubledReturn <:+: source := by
  induction source using cleanLoop.induct with
  | case1 => simp [cleanLoop, hasCrLf, doubledReturn]
  | case2 byte =>
    constructor
    · intro h
      cases h
    · intro h
      have hlength := h.length_le
      simp [doubledReturn] at hlength
  | case3 byte next rest hpair ih =>
    obtain ⟨rfl, rfl⟩ := hpair
    have hfeed : carriageReturn ≠ lineFeed := by decide
    rw [cleanLoop_pair, hasCrLf_cons_iff, ih, List.infix_cons_iff, List.infix_cons_iff]
    simp [doubledReturn, List.cons_prefix_cons, hfeed, hfeed.symm]
  | case4 byte next rest hpair ih =>
    have hinfix : doubledReturn <:+: byte :: next :: rest ↔
        doubledReturn <+: byte :: next :: rest ∨ doubledReturn <:+: next :: rest :=
      List.infix_cons_iff
    rw [cleanLoop_cons hpair, hasCrLf_cons_iff, ih, hinfix, head?_cleanLoop]
    refine or_congr ?_ Iff.rfl
    rw [doubledReturn, List.cons_prefix_cons, List.cons_prefix_cons]
    cases rest with
    | nil => grind
    | cons third rest => grind

/-! ## The filters -/

theorem clean_eq {source : List UInt8} (h : 0 ∉ source) :
    cleanWorktreeBytes source true = cleanLoop source := by
  unfold cleanWorktreeBytes
  split_ifs with hkept
  · have hpair : hasCrLf source = false := by simpa [h] using hkept
    rw [cleanLoop_of_not_hasCrLf hpair]
  · rfl

theorem smudge_eq {source : List UInt8} (h : 0 ∉ source) :
    smudgeWorktreeBytes source true = smudgeLoop none source := by
  unfold smudgeWorktreeBytes
  split_ifs with hkept
  · have hfeed : lineFeed ∉ source := by simpa [h] using hkept
    rw [smudgeLoop_of_not_mem hfeed]
  · rfl

/-- **Main theorem.** A staged file that is checked out is clean exactly if it is binary or
    has no line that ends with two carriage returns. -/
theorem clean_smudge_stable_iff (worktree : List UInt8) :
    cleanWorktreeBytes (smudgeWorktreeBytes (cleanWorktreeBytes worktree true) true) true =
        cleanWorktreeBytes worktree true ↔
      0 ∈ worktree ∨ ¬ doubledReturn <:+: worktree := by
  by_cases hbinary : 0 ∈ worktree
  · have hclean : cleanWorktreeBytes worktree true = worktree := by
      simp [cleanWorktreeBytes, hbinary]
    have hsmudge : smudgeWorktreeBytes worktree true = worktree := by
      simp [smudgeWorktreeBytes, hbinary]
    rw [hclean, hsmudge, hclean]
    exact iff_of_true rfl (.inl hbinary)
  · have hcleaned : 0 ∉ cleanLoop worktree := by rwa [zero_mem_cleanLoop]
    have hsmudged : 0 ∉ smudgeLoop none (cleanLoop worktree) := by rwa [zero_mem_smudgeLoop]
    rw [clean_eq hbinary, smudge_eq hcleaned, clean_eq hsmudged,
      (cleanLoop_smudgeLoop _).1 none (by decide), cleanLoop_eq_self_iff, ← hasCrLf_cleanLoop]
    simp [hbinary]

/-- A line that ends with two carriage returns is modified by a checkout. -/
theorem clean_smudge_unstable :
    ¬ ∀ worktree, cleanWorktreeBytes (smudgeWorktreeBytes (cleanWorktreeBytes worktree true) true)
      true = cleanWorktreeBytes worktree true := by
  intro h
  have hdoubled := h [0x61, carriageReturn, carriageReturn, lineFeed]
  revert hdoubled
  decide

end Mrml.Git
