import Mathlib

/-!
# Ignore patterns

Model of `wildcard_match` (`crates/mrml-git/src/repository.rs`, lines 2597–2624), and the
declarative reading of its patterns. The matcher keeps one star to come back to.

Results:
* `sound_turn`: a text that is accepted matches the pattern.
* `tried_turn`: what the matcher has ruled out when it has not taken a star for a byte.
* `wildcardMatch_iff_of_plain`: patterns and texts on which the matcher is exact.
* `remains_turn`: each turn keeps what is left to find.
* `wildcardMatch_iff`: the matcher is right exactly if every match is a match by first fits.
-/

namespace Mrml.Git.Wildcard

/-- `b'*'`. -/
def asterisk : UInt8 := 0x2a

/-- `b'?'`. -/
def question : UInt8 := 0x3f

/-- `b'/'`. -/
def slash : UInt8 := 0x2f

/-! ## The matcher -/

/-- The star to come back to: the pattern after it, the end of what it has matched, and whether
    it is a `**`. -/
structure Star where
  after : ℕ
  matched : ℕ
  crossesSlash : Bool

/-- The variables of the loop. -/
structure Cursor where
  p : ℕ
  t : ℕ
  star : Option Star
  matched_le : ∀ s, star = some s → s.matched ≤ t

/-- What a turn of the loop does. -/
inductive Turn
  | done (result : Bool)
  | next (c : Cursor)

section Matcher

variable (pattern text : List UInt8)

/-- One turn of the loop (lines 2600–2619), or what follows it (lines 2620–2623). -/
def turn (c : Cursor) : Turn :=
  if c.t < text.length then
    if c.p < pattern.length ∧
        (pattern[c.p]? = some question ∨ pattern[c.p]? = text[c.t]?) then
      .next ⟨c.p + 1, c.t + 1, c.star, fun s hs => (c.matched_le s hs).trans (Nat.le_succ _)⟩
    else if pattern[c.p]? = some asterisk then
      let double := decide (pattern[c.p + 1]? = some asterisk)
      let p := c.p + (if double then 2 else 1)
      .next ⟨p, c.t, some ⟨p, c.t, double⟩, fun _ hs => Option.some.inj hs ▸ le_rfl⟩
    else
      match c.star with
      | some ⟨after, matched, crossesSlash⟩ =>
        if matched ≥ text.length ∨ (crossesSlash = false ∧ text[matched]? = some slash) then
          .done false
        else .next ⟨after, matched + 1, some ⟨after, matched + 1, crossesSlash⟩,
          fun _ hs => Option.some.inj hs ▸ le_rfl⟩
      | none => .done false
  else .done (decide
    (c.p + ((pattern.drop c.p).takeWhile (· == asterisk)).length = pattern.length))

/-- The end of what the star has matched. -/
def Cursor.matched (c : Cursor) : ℕ := c.star.elim 0 Star.matched

/-- The pattern after the star. -/
def Cursor.after (c : Cursor) : ℕ := c.star.elim 0 Star.after

/-- What a turn does, by its branches. -/
inductive Turns (c : Cursor) : Turn → Prop
  | literal (ht : c.t < text.length) (hp : c.p < pattern.length)
      (h : pattern[c.p]? = some question ∨ pattern[c.p]? = text[c.t]?) :
      Turns c (.next ⟨c.p + 1, c.t + 1, c.star,
        fun s hs => (c.matched_le s hs).trans (Nat.le_succ _)⟩)
  | single (ht : c.t < text.length) (hp : pattern[c.p]? = some asterisk)
      (h : pattern[c.p + 1]? ≠ some asterisk) (hbyte : text[c.t]? ≠ some asterisk) :
      Turns c (.next ⟨c.p + 1, c.t, some ⟨c.p + 1, c.t, false⟩,
        fun _ hs => Option.some.inj hs ▸ le_rfl⟩)
  | double (ht : c.t < text.length) (hp : pattern[c.p]? = some asterisk)
      (h : pattern[c.p + 1]? = some asterisk) (hbyte : text[c.t]? ≠ some asterisk) :
      Turns c (.next ⟨c.p + 2, c.t, some ⟨c.p + 2, c.t, true⟩,
        fun _ hs => Option.some.inj hs ▸ le_rfl⟩)
  | extend (ht : c.t < text.length)
      (hmismatch : ¬ (pattern[c.p]? = some question ∨ pattern[c.p]? = text[c.t]?))
      (hp : pattern[c.p]? ≠ some asterisk) {after matched : ℕ} {crossesSlash : Bool}
      (hstar : c.star = some ⟨after, matched, crossesSlash⟩) (hmatched : matched < text.length)
      (hslash : ¬ (crossesSlash = false ∧ text[matched]? = some slash)) :
      Turns c (.next ⟨after, matched + 1, some ⟨after, matched + 1, crossesSlash⟩,
        fun _ hs => Option.some.inj hs ▸ le_rfl⟩)
  | stop (ht : c.t < text.length)
      (hmismatch : ¬ (pattern[c.p]? = some question ∨ pattern[c.p]? = text[c.t]?))
      (hp : pattern[c.p]? ≠ some asterisk)
      (hstar : ∀ s, c.star = some s → text.length ≤ s.matched ∨
        (s.crossesSlash = false ∧ text[s.matched]? = some slash)) :
      Turns c (.done false)
  | finish (ht : text.length ≤ c.t) :
      Turns c (.done (decide
        (c.p + ((pattern.drop c.p).takeWhile (· == asterisk)).length = pattern.length)))

/-- Everything that a turn can do. -/
theorem turns (c : Cursor) : Turns pattern text c (turn pattern text c) := by
  unfold turn
  split_ifs with ht hliteral hstar
  · exact .literal ht hliteral.1 hliteral.2
  · have hbyte : text[c.t]? ≠ some asterisk := fun hbyte =>
      hliteral ⟨(List.getElem?_eq_some_iff.mp hstar).1, .inr (hstar.trans hbyte.symm)⟩
    by_cases hdouble : pattern[c.p + 1]? = some asterisk
    · simp only [hdouble, decide_true, if_true]
      exact .double ht hstar hdouble hbyte
    · simp only [hdouble, decide_false, Bool.false_eq_true, if_false]
      exact .single ht hstar hdouble hbyte
  · have hmismatch : ¬ (pattern[c.p]? = some question ∨ pattern[c.p]? = text[c.t]?) := by
      intro h
      refine hliteral ⟨?_, h⟩
      by_contra hge
      rw [List.getElem?_eq_none (not_lt.mp hge), List.getElem?_eq_getElem ht] at h
      simp at h
    split
    · next after matched crossesSlash hc =>
      split_ifs with hstop
      · refine .stop ht hmismatch hstar fun s hs => ?_
        obtain rfl := Option.some.inj (hc.symm.trans hs)
        exact hstop
      · rw [not_or] at hstop
        exact .extend ht hmismatch hstar hc (not_le.mp hstop.1) hstop.2
    · next hc =>
      refine .stop ht hmismatch hstar fun s hs => ?_
      rw [hc] at hs
      cases hs
  · exact .finish (not_lt.mp ht)

/-- A turn moves the star, or leaves it where it is and goes on in the pattern. -/
theorem turn_decreases {c c' : Cursor} (h : turn pattern text c = .next c') :
    text.length - c'.matched < text.length - c.matched ∨
      text.length - c'.matched = text.length - c.matched ∧
        pattern.length - c'.p < pattern.length - c.p := by
  have hturns := turns pattern text c
  rw [h] at hturns
  have hle : c.matched ≤ c.t := by
    unfold Cursor.matched
    cases hc : c.star with
    | none => exact Nat.zero_le _
    | some s => exact c.matched_le s hc
  cases hturns with
  | literal ht hp _ =>
    refine .inr ⟨rfl, ?_⟩
    dsimp only
    omega
  | single ht hp =>
    have hp := (List.getElem?_eq_some_iff.mp hp).1
    simp only [Cursor.matched, Option.elim_some] at hle ⊢
    omega
  | double ht hp =>
    have hp := (List.getElem?_eq_some_iff.mp hp).1
    simp only [Cursor.matched, Option.elim_some] at hle ⊢
    omega
  | extend ht _ _ hstar hmatched _ =>
    simp only [Cursor.matched, Option.elim_some, hstar]
    omega

/-- The loop. -/
def loop (c : Cursor) : Bool :=
  match _h : turn pattern text c with
  | .done result => result
  | .next c' => loop c'
termination_by (text.length - c.matched, pattern.length - c.p)
decreasing_by exact Prod.lex_def.mpr (turn_decreases pattern text _h)

/-- `wildcard_match` (lines 2597–2624). -/
def wildcardMatch : Bool := loop pattern text ⟨0, 0, none, nofun⟩

end Matcher

/-! ## The declarative reading -/

/-- What a pattern is made of. -/
inductive Token
  | any
  | byte (b : UInt8)
  | star
  | doubleStar

/-- A byte of a pattern that is not the beginning of `**`. -/
def token (b : UInt8) : Token :=
  if b = asterisk then .star else if b = question then .any else .byte b

/-- The tokens of a pattern, from left to right. -/
def tokens : List UInt8 → List Token
  | [] => []
  | [b] => [token b]
  | b :: b' :: rest =>
    if b = asterisk ∧ b' = asterisk then .doubleStar :: tokens rest
    else token b :: tokens (b' :: rest)

/-- The texts that some tokens match. -/
def Matches : List Token → List UInt8 → Prop
  | [], text => text = []
  | .any :: rest, text => ∃ b after, text = b :: after ∧ Matches rest after
  | .byte b :: rest, text => ∃ after, text = b :: after ∧ Matches rest after
  | .star :: rest, text => ∃ run after, text = run ++ after ∧ slash ∉ run ∧ Matches rest after
  | .doubleStar :: rest, text => ∃ run after, text = run ++ after ∧ Matches rest after

/-- The text matches the pattern: `?` is any byte, `*` any run of bytes without a slash, `**` any
    run of bytes, and every other byte itself. -/
def PatternMatches (pattern text : List UInt8) : Prop := Matches (tokens pattern) text

/-! ## Tokens -/

theorem tokens_cons_of_ne {b : UInt8} (h : b ≠ asterisk) (rest : List UInt8) :
    tokens (b :: rest) = token b :: tokens rest := by
  cases rest with
  | nil => rfl
  | cons b' rest => rw [tokens, if_neg (fun hboth => h hboth.1)]

theorem tokens_star {rest : List UInt8} (h : rest.head? ≠ some asterisk) :
    tokens (asterisk :: rest) = .star :: tokens rest := by
  cases rest with
  | nil => rfl
  | cons b' rest =>
    rw [tokens, if_neg (fun hboth => h (congrArg some hboth.2))]
    rfl

theorem tokens_doubleStar (rest : List UInt8) :
    tokens (asterisk :: asterisk :: rest) = .doubleStar :: tokens rest := by
  rw [tokens, if_pos ⟨rfl, rfl⟩]

theorem matches_byte {b : UInt8} (h : b ≠ asterisk) {rest text : List UInt8} :
    Matches (tokens (b :: rest)) text ↔
      ∃ c after, text = c :: after ∧ (b = question ∨ b = c) ∧ Matches (tokens rest) after := by
  rw [tokens_cons_of_ne h, token, if_neg h]
  split_ifs with hquestion
  · constructor
    · rintro ⟨c, after, htext, hrest⟩
      exact ⟨c, after, htext, .inl hquestion, hrest⟩
    · rintro ⟨c, after, htext, -, hrest⟩
      exact ⟨c, after, htext, hrest⟩
  · constructor
    · rintro ⟨after, htext, hrest⟩
      exact ⟨b, after, htext, .inr rfl, hrest⟩
    · rintro ⟨c, after, htext, hquestion' | rfl, hrest⟩
      · exact absurd hquestion' hquestion
      · exact ⟨after, htext, hrest⟩

/-- A star in front of a pattern can match nothing. -/
theorem matches_asterisk : ∀ {pattern text : List UInt8},
    Matches (tokens pattern) text → Matches (tokens (asterisk :: pattern)) text
  | [], text, h => ⟨[], text, rfl, List.not_mem_nil, h⟩
  | [b], text, h => by
    by_cases hb : b = asterisk
    · subst hb
      rw [tokens_star (by simp)] at h
      obtain ⟨run, after, htext, -, hafter⟩ := h
      rw [tokens_doubleStar]
      exact ⟨run, after, htext, hafter⟩
    · rw [tokens_star (by simpa using hb)]
      exact ⟨[], text, rfl, List.not_mem_nil, h⟩
  | b :: b' :: rest, text, h => by
    by_cases hb : b = asterisk
    · subst hb
      rw [tokens_doubleStar]
      by_cases hb' : b' = asterisk
      · subst hb'
        rw [tokens_doubleStar] at h
        obtain ⟨run, after, htext, hafter⟩ := h
        exact ⟨run, after, htext, matches_asterisk hafter⟩
      · rw [tokens_star (by simpa using hb')] at h
        obtain ⟨run, after, htext, -, hafter⟩ := h
        exact ⟨run, after, htext, hafter⟩
    · rw [tokens_star (by simpa using hb)]
      exact ⟨[], text, rfl, List.not_mem_nil, h⟩

/-- A star in front of a pattern can match a star of the text. -/
theorem matches_asterisk_cons {pattern text : List UInt8} (h : Matches (tokens pattern) text) :
    Matches (tokens (asterisk :: pattern)) (asterisk :: text) := by
  by_cases hstar : pattern.head? = some asterisk
  · obtain ⟨pattern, rfl⟩ : ∃ rest, pattern = asterisk :: rest := by
      cases pattern with
      | nil => cases hstar
      | cons b rest => exact ⟨rest, by rw [Option.some.inj hstar]⟩
    rw [tokens_doubleStar]
    by_cases hdouble : pattern.head? = some asterisk
    · obtain ⟨pattern, rfl⟩ : ∃ rest, pattern = asterisk :: rest := by
        cases pattern with
        | nil => cases hdouble
        | cons b rest => exact ⟨rest, by rw [Option.some.inj hdouble]⟩
      rw [tokens_doubleStar] at h
      obtain ⟨run, after, rfl, hafter⟩ := h
      exact ⟨asterisk :: run, after, rfl, matches_asterisk hafter⟩
    · rw [tokens_star hdouble] at h
      obtain ⟨run, after, rfl, -, hafter⟩ := h
      exact ⟨asterisk :: run, after, rfl, hafter⟩
  · rw [tokens_star hstar]
    exact ⟨[asterisk], text, rfl, by decide, h⟩

/-- Only stars match the empty text. -/
theorem matches_nil {pattern : List UInt8} :
    Matches (tokens pattern) [] ↔ ∀ b ∈ pattern, b = asterisk := by
  constructor
  · intro h
    induction pattern using tokens.induct with
    | case1 => nofun
    | case2 b =>
      intro b' hb'
      rw [List.mem_singleton.mp hb']
      by_contra hne
      obtain ⟨c, after, htext, -⟩ := (matches_byte hne).mp h
      cases htext
    | case3 b b' rest hstars ih =>
      obtain ⟨rfl, rfl⟩ := hstars
      rw [tokens_doubleStar] at h
      obtain ⟨run, after, htext, hafter⟩ := h
      obtain ⟨rfl, rfl⟩ := List.append_eq_nil_iff.mp htext.symm
      exact List.forall_mem_cons.mpr ⟨rfl, List.forall_mem_cons.mpr ⟨rfl, ih hafter⟩⟩
    | case4 b b' rest hstars ih =>
      by_cases hb : b = asterisk
      · subst hb
        rw [tokens_star (by simpa using fun hb' => hstars ⟨rfl, hb'⟩)] at h
        obtain ⟨run, after, htext, -, hafter⟩ := h
        obtain ⟨rfl, rfl⟩ := List.append_eq_nil_iff.mp htext.symm
        exact List.forall_mem_cons.mpr ⟨rfl, ih hafter⟩
      · obtain ⟨c, after, htext, -⟩ := (matches_byte hb).mp h
        cases htext
  · intro h
    induction pattern with
    | nil => rfl
    | cons b pattern ih =>
      obtain ⟨rfl, hpattern⟩ := List.forall_mem_cons.mp h
      exact matches_asterisk (ih hpattern)

/-! ## Tokens at a position -/

section Position

variable {pattern text : List UInt8} {p t : ℕ}

theorem drop_of_getElem? {b : UInt8} (hp : pattern[p]? = some b) :
    pattern.drop p = b :: pattern.drop (p + 1) := by
  obtain ⟨hlt, rfl⟩ := List.getElem?_eq_some_iff.mp hp
  exact List.drop_eq_getElem_cons hlt

theorem matches_drop_byte {b : UInt8} (hp : pattern[p]? = some b) (hb : b ≠ asterisk) :
    Matches (tokens (pattern.drop p)) (text.drop t) ↔
      t < text.length ∧ (pattern[p]? = some question ∨ pattern[p]? = text[t]?) ∧
        Matches (tokens (pattern.drop (p + 1))) (text.drop (t + 1)) := by
  rw [drop_of_getElem? hp, matches_byte hb]
  constructor
  · rintro ⟨c, after, htext, hcase, hrest⟩
    have ht : t < text.length := by
      by_contra hge
      rw [List.drop_of_length_le (not_lt.mp hge)] at htext
      cases htext
    rw [List.drop_eq_getElem_cons ht] at htext
    obtain ⟨rfl, rfl⟩ := List.cons.inj htext
    rw [hp, List.getElem?_eq_getElem ht, Option.some_inj, Option.some_inj]
    exact ⟨ht, hcase, hrest⟩
  · rintro ⟨ht, hcase, hrest⟩
    rw [hp, List.getElem?_eq_getElem ht, Option.some_inj, Option.some_inj] at hcase
    exact ⟨text[t], text.drop (t + 1), List.drop_eq_getElem_cons ht, hcase, hrest⟩

theorem head?_drop_succ : (pattern.drop (p + 1)).head? = pattern[p + 1]? := by
  rw [List.head?_drop]

/-- No slash between two positions of the text. -/
def SlashFree (text : List UInt8) (start stop : ℕ) : Prop :=
  ∀ k, start ≤ k → k < stop → text[k]? ≠ some slash

theorem split_drop (ht : t ≤ text.length) {run after : List UInt8}
    (h : text.drop t = run ++ after) :
    t + run.length ≤ text.length ∧ text.drop (t + run.length) = after ∧
      (slash ∉ run → SlashFree text t (t + run.length)) := by
  have hlength := congrArg List.length h
  rw [List.length_drop, List.length_append] at hlength
  refine ⟨by omega, by rw [← List.drop_drop, h, List.drop_left], fun hrun k hk hlt heq => ?_⟩
  have hget : (text.drop t)[k - t]? = some slash := by
    rw [List.getElem?_drop, Nat.add_sub_cancel' hk, heq]
  rw [h, List.getElem?_append_left (by omega)] at hget
  exact hrun (List.mem_of_getElem? hget)

theorem matches_drop_star (ht : t ≤ text.length) (hp : pattern[p]? = some asterisk)
    (hnext : pattern[p + 1]? ≠ some asterisk) :
    Matches (tokens (pattern.drop p)) (text.drop t) ↔ ∃ m, t ≤ m ∧ m ≤ text.length ∧
      SlashFree text t m ∧ Matches (tokens (pattern.drop (p + 1))) (text.drop m) := by
  rw [drop_of_getElem? hp, tokens_star (by rwa [head?_drop_succ])]
  constructor
  · rintro ⟨run, after, htext, hrun, hafter⟩
    obtain ⟨hle, rfl, hfree⟩ := split_drop ht htext
    exact ⟨t + run.length, Nat.le_add_right _ _, hle, hfree hrun, hafter⟩
  · rintro ⟨m, htm, hm, hfree, hafter⟩
    refine ⟨(text.drop t).take (m - t), text.drop m, ?_, ?_, hafter⟩
    · have hdrop : text.drop m = (text.drop t).drop (m - t) := by
        rw [List.drop_drop, Nat.add_sub_cancel' htm]
      rw [hdrop, List.take_append_drop]
    · intro hmem
      obtain ⟨k, hk⟩ := List.mem_iff_getElem?.mp hmem
      have hlt := (List.getElem?_eq_some_iff.mp hk).1
      rw [List.length_take, List.length_drop] at hlt
      rw [List.getElem?_take_of_lt (by omega), List.getElem?_drop] at hk
      exact hfree (t + k) (Nat.le_add_right _ _) (by omega) hk

theorem matches_drop_doubleStar (ht : t ≤ text.length) (hp : pattern[p]? = some asterisk)
    (hnext : pattern[p + 1]? = some asterisk) :
    Matches (tokens (pattern.drop p)) (text.drop t) ↔ ∃ m, t ≤ m ∧ m ≤ text.length ∧
      Matches (tokens (pattern.drop (p + 2))) (text.drop m) := by
  rw [drop_of_getElem? hp, drop_of_getElem? hnext, tokens_doubleStar]
  constructor
  · rintro ⟨run, after, htext, hafter⟩
    obtain ⟨hle, rfl, -⟩ := split_drop ht htext
    exact ⟨t + run.length, Nat.le_add_right _ _, hle, hafter⟩
  · rintro ⟨m, htm, hm, hafter⟩
    refine ⟨(text.drop t).take (m - t), text.drop m, ?_, hafter⟩
    have hdrop : text.drop m = (text.drop t).drop (m - t) := by
      rw [List.drop_drop, Nat.add_sub_cancel' htm]
    rw [hdrop, List.take_append_drop]

end Position

/-! ## Soundness -/

/-- The positions are inside the pattern and the text. -/
structure Bounded (pattern text : List UInt8) (c : Cursor) : Prop where
  p_le : c.p ≤ pattern.length
  t_le : c.t ≤ text.length
  after_le : ∀ s, c.star = some s → s.after ≤ pattern.length

/-- Whatever the rest of the pattern matches here, or after the star has been moved on, is a match
    of the pattern. -/
structure Sound (pattern text : List UInt8) (c : Cursor) : Prop where
  here : Matches (tokens (pattern.drop c.p)) (text.drop c.t) → PatternMatches pattern text
  star : ∀ s, c.star = some s → ∀ m, s.matched ≤ m → m ≤ text.length →
    (s.crossesSlash = false → SlashFree text s.matched m) →
    Matches (tokens (pattern.drop s.after)) (text.drop m) → PatternMatches pattern text

section Soundness

variable {pattern text : List UInt8}

theorem bounded_turn {c c' : Cursor} (h : Bounded pattern text c)
    (hturn : turn pattern text c = .next c') : Bounded pattern text c' := by
  have hturns := turns pattern text c
  rw [hturn] at hturns
  cases hturns with
  | literal ht hp _ => exact ⟨hp, ht, h.after_le⟩
  | single ht hp =>
    have hlt := (List.getElem?_eq_some_iff.mp hp).1
    exact ⟨hlt, h.t_le, fun s hs => Option.some.inj hs ▸ hlt⟩
  | double ht _ hnext =>
    have hlt := (List.getElem?_eq_some_iff.mp hnext).1
    exact ⟨hlt, h.t_le, fun s hs => Option.some.inj hs ▸ hlt⟩
  | extend ht _ _ hstar hmatched _ =>
    have hafter := h.after_le _ hstar
    exact ⟨hafter, hmatched, fun s hs => Option.some.inj hs ▸ hafter⟩

/-- **Step lemma.** -/
theorem sound_turn {c c' : Cursor} (h : Sound pattern text c)
    (hturn : turn pattern text c = .next c') : Sound pattern text c' := by
  have hturns := turns pattern text c
  rw [hturn] at hturns
  cases hturns with
  | literal ht hp hcase =>
    refine ⟨fun hmatches => h.here ?_, h.star⟩
    have hpattern := List.getElem?_eq_getElem hp
    by_cases hstar : pattern[c.p] = asterisk
    · -- a star of the text that has been taken for a star of the pattern
      rw [hpattern, hstar] at hcase
      have htext : text[c.t] = asterisk := by
        rcases hcase with hquestion | heq
        · exact absurd (Option.some.inj hquestion) (by decide)
        · rw [List.getElem?_eq_getElem ht] at heq
          exact (Option.some.inj heq).symm
      rw [List.drop_eq_getElem_cons hp, List.drop_eq_getElem_cons ht, hstar, htext]
      exact matches_asterisk_cons hmatches
    · exact (matches_drop_byte hpattern hstar).mpr ⟨ht, hcase, hmatches⟩
  | single ht hp hnext =>
    refine ⟨fun hmatches => h.here ?_, fun s hs m hm hle hfree hmatches => h.here ?_⟩
    · exact (matches_drop_star ht.le hp hnext).mpr
        ⟨c.t, le_rfl, ht.le, fun k hk hlt => absurd hk (not_le.mpr hlt), hmatches⟩
    · obtain rfl := Option.some.inj hs
      exact (matches_drop_star ht.le hp hnext).mpr ⟨m, hm, hle, hfree rfl, hmatches⟩
  | double ht hp hnext =>
    refine ⟨fun hmatches => h.here ?_, fun s hs m hm hle hfree hmatches => h.here ?_⟩
    · exact (matches_drop_doubleStar ht.le hp hnext).mpr ⟨c.t, le_rfl, ht.le, hmatches⟩
    · obtain rfl := Option.some.inj hs
      exact (matches_drop_doubleStar ht.le hp hnext).mpr ⟨m, hm, hle, hmatches⟩
  | @extend ht _ _ after matched crossesSlash hstar hmatched hslash =>
    have hone : crossesSlash = false → SlashFree text matched (matched + 1) := by
      intro hsingle k hk hlt heq
      obtain rfl : matched = k := by omega
      exact hslash ⟨hsingle, heq⟩
    refine ⟨?_, fun s hs m hm hle hfree hmatches => ?_⟩
    · exact h.star _ hstar (matched + 1) (Nat.le_succ _) hmatched hone
    · obtain rfl := Option.some.inj hs
      refine h.star _ hstar m ((Nat.le_succ _).trans hm) hle (fun hsingle k hk hlt => ?_) hmatches
      rcases Nat.lt_or_ge k (matched + 1) with hbefore | hafter
      · exact hone hsingle k hk hbefore
      · exact hfree hsingle k hafter hlt

theorem finish_iff {p : ℕ} (hp : p ≤ pattern.length) :
    p + ((pattern.drop p).takeWhile (· == asterisk)).length = pattern.length ↔
      Matches (tokens (pattern.drop p)) [] := by
  have hsplit := congrArg List.length (List.takeWhile_append_dropWhile (p := (· == asterisk))
    (l := pattern.drop p))
  rw [List.length_append, List.length_drop] at hsplit
  rw [matches_nil]
  constructor
  · intro h
    have hempty : (pattern.drop p).dropWhile (· == asterisk) = [] :=
      List.length_eq_zero_iff.mp (by omega)
    simpa using hempty
  · intro h
    have hempty : (pattern.drop p).dropWhile (· == asterisk) = [] := by simpa using h
    rw [hempty, List.length_nil] at hsplit
    omega

/-- **Run lemma.** A text that is accepted matches the pattern. -/
theorem sound_loop {c : Cursor} (h : Sound pattern text c) (hbounded : Bounded pattern text c)
    (haccepts : loop pattern text c = true) : PatternMatches pattern text := by
  fun_induction loop pattern text c with
  | case1 c result hturn =>
    have hturns := turns pattern text c
    rw [hturn, haccepts] at hturns
    generalize hresult : Turn.done true = last at hturns
    cases hturns with
    | stop => cases hresult
    | finish ht =>
      refine h.here ?_
      rw [List.drop_of_length_le ht]
      exact (finish_iff hbounded.p_le).mp (of_decide_eq_true (Turn.done.inj hresult).symm)
    | literal => cases hresult
    | single => cases hresult
    | double => cases hresult
    | extend => cases hresult
  | case2 c c' hturn ih =>
    exact ih (sound_turn h hturn) (bounded_turn hbounded hturn) haccepts

theorem bounded_start : Bounded pattern text ⟨0, 0, none, nofun⟩ :=
  ⟨Nat.zero_le _, Nat.zero_le _, nofun⟩

/-- The matcher accepts only texts that match the pattern. -/
theorem matches_of_wildcardMatch (h : wildcardMatch pattern text = true) :
    PatternMatches pattern text :=
  sound_loop ⟨id, by intro s hs; cases hs⟩ bounded_start h

end Soundness

/-! ## What has been ruled out -/

/-- A `**`, or a star with a `?` after it: a star that a later one cannot stand for. -/
def Abandons (pattern : List UInt8) : Prop :=
  ∃ i j, i < j ∧ pattern[i]? = some asterisk ∧
    (pattern[j]? = some question ∨ (j = i + 1 ∧ pattern[j]? = some asterisk))

/-- The turn goes wrong: it takes a star of the text for the star of the pattern, or it gives up
    at a slash although a star before the last one could be moved. -/
def Defect (pattern text : List UInt8) (c : Cursor) : Prop :=
  c.t < text.length ∧
    ((pattern[c.p]? = some asterisk ∧ text[c.t]? = some asterisk) ∨
      ∃ s, c.star = some s ∧ s.crossesSlash = false ∧ text[s.matched]? = some slash ∧
        pattern[c.p]? ≠ some asterisk ∧
        ¬ (pattern[c.p]? = some question ∨ pattern[c.p]? = text[c.t]?) ∧
        Abandons (pattern.take (s.after - 1)))

/-- The cursors that the loop comes to. -/
inductive Visits (pattern text : List UInt8) : Cursor → Prop
  | start : Visits pattern text ⟨0, 0, none, nofun⟩
  | next {c c' : Cursor} (h : Visits pattern text c) (hturn : turn pattern text c = .next c') :
      Visits pattern text c'

/-- What is left of the matches of the pattern when the loop has come to a cursor. -/
structure Tried (pattern text : List UInt8) (c : Cursor) : Prop where
  -- from the star on, the pattern has no star and matches what has been read
  span : ∃ length, c.p = c.after + length ∧ c.t = c.matched + length ∧
    ∀ i < length, pattern[c.after + i]? ≠ some asterisk ∧
      (pattern[c.after + i]? = some question ∨ pattern[c.after + i]? = text[c.matched + i]?)
  star_byte : ∀ s, c.star = some s → 1 ≤ s.after ∧ pattern[s.after - 1]? = some asterisk ∧
    (s.crossesSlash = true → 2 ≤ s.after ∧ pattern[s.after - 2]? = some asterisk)
  later : PatternMatches pattern text → ∃ m, c.matched ≤ m ∧ m ≤ text.length ∧
    Matches (tokens (pattern.drop c.after)) (text.drop m) ∧ (c.star = none → m = 0) ∧
    ∀ s, c.star = some s → s.crossesSlash = false → ¬ Abandons (pattern.take (s.after - 1)) →
      SlashFree text s.matched m

section Completeness

variable {pattern text : List UInt8}

theorem Abandons.mono {n n' : ℕ} (h : Abandons (pattern.take n)) (hle : n ≤ n') :
    Abandons (pattern.take n') := by
  obtain ⟨i, j, hij, hi, hj⟩ := h
  have hkeep {k : ℕ} {b : UInt8} (hk : (pattern.take n)[k]? = some b) :
      (pattern.take n')[k]? = some b := by
    have hlt := (List.getElem?_eq_some_iff.mp hk).1
    rw [List.length_take] at hlt
    rw [List.getElem?_take_of_lt (by omega)] at hk ⊢
    exact hk
  refine ⟨i, j, hij, hkeep hi, ?_⟩
  rcases hj with hquestion | ⟨hnext, hstar⟩
  · exact .inl (hkeep hquestion)
  · exact .inr ⟨hnext, hkeep hstar⟩

/-- Without stars the pattern is matched byte by byte. -/
theorem matches_span {a m length : ℕ} (hstars : ∀ i < length, pattern[a + i]? ≠ some asterisk)
    (hle : a + length ≤ pattern.length)
    (h : Matches (tokens (pattern.drop a)) (text.drop m)) (hm : m ≤ text.length) :
    m + length ≤ text.length ∧
      (∀ i < length, pattern[a + i]? = some question ∨ pattern[a + i]? = text[m + i]?) ∧
      Matches (tokens (pattern.drop (a + length))) (text.drop (m + length)) := by
  induction length with
  | zero => exact ⟨hm, nofun, h⟩
  | succ length ih =>
    obtain ⟨hlength, hbytes, hrest⟩ := ih (fun i hi => hstars i (hi.trans (Nat.lt_succ_self _)))
      (by omega)
    have hp : pattern[a + length]? = some pattern[a + length] := List.getElem?_eq_getElem (by omega)
    have hne : pattern[a + length] ≠ asterisk := by
      intro heq
      exact hstars length (Nat.lt_succ_self _) (hp.trans (congrArg some heq))
    obtain ⟨hlt, hcase, hafter⟩ := (matches_drop_byte hp hne).mp hrest
    refine ⟨hlt, fun i hi => ?_, hafter⟩
    rcases Nat.lt_succ_iff_lt_or_eq.mp hi with hbefore | rfl
    · exact hbytes i hbefore
    · exact hcase

/-- A mismatch: the rest of the pattern does not match the rest of the text. -/
theorem not_matches_of_mismatch {p t : ℕ} (ht : t < text.length)
    (hmismatch : ¬ (pattern[p]? = some question ∨ pattern[p]? = text[t]?))
    (hp : pattern[p]? ≠ some asterisk) :
    ¬ Matches (tokens (pattern.drop p)) (text.drop t) := by
  intro h
  rcases Nat.lt_or_ge p pattern.length with hlt | hge
  · have hget := List.getElem?_eq_getElem hlt
    have hne : pattern[p] ≠ asterisk := fun heq => hp (hget.trans (congrArg some heq))
    exact hmismatch ((matches_drop_byte hget hne).mp h).2.1
  · rw [List.drop_of_length_le hge] at h
    have hempty := congrArg List.length h
    rw [List.length_drop, List.length_nil] at hempty
    omega

/-- A slash-free run that begins with a piece of text without `?` in its pattern has no slash after
    a later copy of that piece either. -/
theorem slashFree_shift {a matched m length : ℕ} (hm : matched ≤ m)
    (hfree : SlashFree text matched m)
    (hhere : ∀ i < length, pattern[a + i]? = some question ∨
      pattern[a + i]? = text[matched + i]?)
    (hthere : ∀ i < length, pattern[a + i]? = some question ∨ pattern[a + i]? = text[m + i]?)
    (hplain : ∀ i < length, pattern[a + i]? ≠ some question) :
    SlashFree text (matched + length) (m + length) := by
  rcases Nat.eq_or_lt_of_le hm with rfl | hlt
  · intro k hk hlt
    omega
  · have hall : SlashFree text matched (m + length) := by
      intro k
      induction k using Nat.strong_induction_on with
      | _ k ih =>
        intro hk hend heq
        rcases Nat.lt_or_ge k m with hbefore | hafter
        · exact hfree k hk hbefore heq
        · -- the slash is in the copy, so it is also in the piece itself
          have hi : k - m < length := by omega
          have hcopy := (hthere (k - m) hi).resolve_left (hplain (k - m) hi)
          have hpiece := (hhere (k - m) hi).resolve_left (hplain (k - m) hi)
          rw [Nat.add_sub_cancel' hafter, heq] at hcopy
          rw [hcopy] at hpiece
          exact ih (matched + (k - m)) (by omega) (by omega) (by omega) hpiece.symm
    intro k hk hend
    exact hall k (by omega) hend

theorem tried_literal {c : Cursor} (h : Tried pattern text c) (hp : pattern[c.p]? ≠ some asterisk)
    (hcase : pattern[c.p]? = some question ∨ pattern[c.p]? = text[c.t]?)
    {hle : ∀ s, c.star = some s → s.matched ≤ c.t + 1} :
    Tried pattern text ⟨c.p + 1, c.t + 1, c.star, hle⟩ := by
  obtain ⟨length, hpl, htl, hspan⟩ := h.span
  refine ⟨⟨length + 1, ?_, ?_, fun i hi => ?_⟩, h.star_byte, h.later⟩
  · exact congrArg (· + 1) hpl
  · exact congrArg (· + 1) htl
  · rcases Nat.lt_succ_iff_lt_or_eq.mp hi with hbefore | rfl
    · exact hspan i hbefore
    · show pattern[c.after + i]? ≠ some asterisk ∧ (pattern[c.after + i]? = some question ∨
        pattern[c.after + i]? = text[c.matched + i]?)
      rw [← hpl, ← htl]
      exact ⟨hp, hcase⟩

/-- A match of the pattern has gone on at the star that the loop meets. -/
theorem exists_at_star {c : Cursor} (h : Tried pattern text c) (hbounded : Bounded pattern text c)
    (hmatches : PatternMatches pattern text) :
    ∃ m, c.t ≤ m ∧ m ≤ text.length ∧ Matches (tokens (pattern.drop c.p)) (text.drop m) ∧
      (¬ Abandons (pattern.take c.p) → SlashFree text c.t m) := by
  obtain ⟨length, hpl, htl, hspan⟩ := h.span
  obtain ⟨m, hm, hle, hrest, hnone, hsome⟩ := h.later hmatches
  have hp := hbounded.p_le
  obtain ⟨hlength, hthere, hat⟩ :=
    matches_span (fun i hi => (hspan i hi).1) (hpl ▸ hp) hrest hle
  rw [← hpl] at hat
  refine ⟨m + length, by omega, hlength, hat, fun hstrong => ?_⟩
  rw [htl]
  cases hc : c.star with
  | none =>
    obtain rfl := hnone hc
    intro k hk hlt
    omega
  | some s =>
    obtain ⟨hafter, hbyte, hdouble⟩ := h.star_byte s hc
    have hafter' : c.after = s.after := by rw [Cursor.after, hc]; rfl
    have hmatched' : c.matched = s.matched := by rw [Cursor.matched, hc]; rfl
    have hget {k : ℕ} (hk : k < c.p) : (pattern.take c.p)[k]? = pattern[k]? :=
      List.getElem?_take_of_lt hk
    -- nothing before this star abandons the star before it
    have hsingle : s.crossesSlash = false := by
      by_contra hcrosses
      obtain ⟨htwo, hfirst⟩ := hdouble (Bool.not_eq_false _ ▸ hcrosses)
      refine hstrong ⟨s.after - 2, s.after - 1, by omega, ?_, .inr ⟨by omega, ?_⟩⟩
      · rw [hget (by omega), hfirst]
      · rw [hget (by omega), hbyte]
    have hplain : ∀ i < length, pattern[c.after + i]? ≠ some question := by
      intro i hi hquestion
      refine hstrong ⟨s.after - 1, c.after + i, by omega, ?_, .inl ?_⟩
      · rw [hget (by omega), hbyte]
      · rw [hget (by omega), hquestion]
    have hbefore : ¬ Abandons (pattern.take (s.after - 1)) :=
      fun habandons => hstrong (habandons.mono (by omega))
    have hfree := hsome s hc hsingle hbefore
    rw [← hmatched'] at hfree
    exact slashFree_shift hm hfree (fun i hi => (hspan i hi).2) hthere hplain

/-- **Step lemma.** Every turn that does not go wrong keeps what is left of the matches. -/
theorem tried_turn {c c' : Cursor} (h : Tried pattern text c) (hbounded : Bounded pattern text c)
    (hdefect : ¬ Defect pattern text c) (hturn : turn pattern text c = .next c') :
    Tried pattern text c' := by
  have hturns := turns pattern text c
  rw [hturn] at hturns
  cases hturns with
  | literal ht hp hcase =>
    refine tried_literal h (fun hstar => hdefect ⟨ht, .inl ⟨hstar, ?_⟩⟩) hcase
    rcases hcase with hquestion | heq
    · rw [hstar] at hquestion
      exact absurd (Option.some.inj hquestion) (by decide)
    · rw [← heq, hstar]
  | single ht hp hnext =>
    refine ⟨⟨0, rfl, rfl, nofun⟩, fun s hs => ?_, fun hmatches => ?_⟩
    · obtain rfl := Option.some.inj hs
      exact ⟨Nat.succ_le_succ (Nat.zero_le _), hp, nofun⟩
    · obtain ⟨m₀, hm₀, hle₀, hrest, hstrong⟩ := exists_at_star h hbounded hmatches
      obtain ⟨m, hm, hle, hfree, hafter⟩ := (matches_drop_star hle₀ hp hnext).mp hrest
      refine ⟨m, hm₀.trans hm, hle, hafter, nofun, fun s hs _ hbefore => ?_⟩
      obtain rfl := Option.some.inj hs
      intro k hk hlt
      rcases Nat.lt_or_ge k m₀ with hlow | hhigh
      · exact hstrong hbefore k hk hlow
      · exact hfree k hhigh hlt
  | double ht hp hnext =>
    refine ⟨⟨0, rfl, rfl, nofun⟩, fun s hs => ?_, fun hmatches => ?_⟩
    · obtain rfl := Option.some.inj hs
      exact ⟨by simp, hnext, fun _ => ⟨by simp, hp⟩⟩
    · obtain ⟨m₀, hm₀, hle₀, hrest, -⟩ := exists_at_star h hbounded hmatches
      obtain ⟨m, hm, hle, hafter⟩ := (matches_drop_doubleStar hle₀ hp hnext).mp hrest
      refine ⟨m, hm₀.trans hm, hle, hafter, nofun, fun s hs hsingle _ => ?_⟩
      obtain rfl := Option.some.inj hs
      cases hsingle
  | @extend ht hmismatch hp after matched crossesSlash hstar hmatched hslash =>
    have hafter' : c.after = after := by rw [Cursor.after, hstar]; rfl
    have hmatched' : c.matched = matched := by rw [Cursor.matched, hstar]; rfl
    refine ⟨⟨0, rfl, rfl, nofun⟩, fun s hs => ?_, fun hmatches => ?_⟩
    · obtain rfl := Option.some.inj hs
      obtain ⟨hpos, hbyte, hdouble⟩ := h.star_byte _ hstar
      exact ⟨hpos, hbyte, hdouble⟩
    · obtain ⟨length, hpl, htl, hspan⟩ := h.span
      obtain ⟨m, hm, hle, hrest, -, hsome⟩ := h.later hmatches
      have hne : c.matched ≠ m := by
        rintro rfl
        obtain ⟨-, -, hlast⟩ :=
          matches_span (fun i hi => (hspan i hi).1) (hpl ▸ hbounded.p_le) hrest hle
        rw [← hpl, ← htl] at hlast
        exact not_matches_of_mismatch ht hmismatch hp hlast
      refine ⟨m, ?_, hle, hafter' ▸ hrest, nofun, fun s hs hsingle hbefore => ?_⟩
      · show matched + 1 ≤ m
        omega
      · obtain rfl := Option.some.inj hs
        intro k hk hlt
        exact hsome _ hstar hsingle hbefore k ((Nat.le_succ _).trans hk) hlt

/-- Where the loop stops without going wrong, the text does not match. -/
theorem not_matches_of_done {c : Cursor} (h : Tried pattern text c)
    (hbounded : Bounded pattern text c) (hdefect : ¬ Defect pattern text c)
    (hturn : turn pattern text c = .done false) : ¬ PatternMatches pattern text := by
  intro hmatches
  obtain ⟨length, hpl, htl, hspan⟩ := h.span
  obtain ⟨m, hm, hle, hrest, hnone, hsome⟩ := h.later hmatches
  obtain ⟨hlength, -, hlast⟩ :=
    matches_span (fun i hi => (hspan i hi).1) (hpl ▸ hbounded.p_le) hrest hle
  have hturns := turns pattern text c
  rw [hturn] at hturns
  generalize hresult : Turn.done false = last at hturns
  cases hturns with
  | literal => cases hresult
  | single => cases hresult
  | double => cases hresult
  | extend => cases hresult
  | stop ht hmismatch hp hstar =>
    have hne : c.matched ≠ m := by
      rintro rfl
      rw [← hpl, ← htl] at hlast
      exact not_matches_of_mismatch ht hmismatch hp hlast
    cases hc : c.star with
    | none =>
      obtain rfl := hnone hc
      omega
    | some s =>
      have hmatched' : c.matched = s.matched := by rw [Cursor.matched, hc]; rfl
      rcases hstar s hc with hend | ⟨hsingle, hslash⟩
      · omega
      · have hbefore : ¬ Abandons (pattern.take (s.after - 1)) := fun habandons =>
          hdefect ⟨ht, .inr ⟨s, hc, hsingle, hslash, hp, hmismatch, habandons⟩⟩
        exact hsome s hc hsingle hbefore s.matched le_rfl (by omega) hslash
  | finish ht =>
    have hfinish := of_decide_eq_false (Turn.done.inj hresult).symm
    refine hfinish ((finish_iff hbounded.p_le).mpr ?_)
    have hend : text.drop (m + length) = [] := List.drop_of_length_le (by omega)
    rwa [← hpl, hend] at hlast

/-- **Run lemma.** A loop that does not go wrong accepts every text that matches. -/
theorem loop_of_matches {c : Cursor} (h : Tried pattern text c)
    (hbounded : Bounded pattern text c) (hvisits : Visits pattern text c)
    (hdefect : ∀ c, Visits pattern text c → ¬ Defect pattern text c)
    (hmatches : PatternMatches pattern text) : loop pattern text c = true := by
  fun_induction loop pattern text c with
  | case1 c result hturn =>
    by_contra hfalse
    rw [Bool.not_eq_true] at hfalse
    subst hfalse
    exact not_matches_of_done h hbounded (hdefect c hvisits) hturn hmatches
  | case2 c c' hturn ih =>
    exact ih (tried_turn h hbounded (hdefect c hvisits) hturn) (bounded_turn hbounded hturn)
      (hvisits.next hturn)

/-- Where no turn goes wrong, the matcher accepts exactly the texts that match the pattern. -/
theorem wildcardMatch_iff_of_not_defect
    (hdefect : ∀ c, Visits pattern text c → ¬ Defect pattern text c) :
    wildcardMatch pattern text = true ↔ PatternMatches pattern text := by
  constructor
  · exact matches_of_wildcardMatch
  · refine fun hmatches => loop_of_matches ?_ bounded_start .start hdefect hmatches
    refine ⟨⟨0, rfl, rfl, nofun⟩, nofun, fun _ => ⟨0, le_rfl, Nat.zero_le _, hmatches, fun _ => rfl,
      nofun⟩⟩

/-- No turn goes wrong if the text has no star, and no slash or else no star of the pattern is
    abandoned. -/
theorem not_defect_of_plain (hstar : asterisk ∉ text) (hslash : slash ∉ text ∨ ¬ Abandons pattern)
    (c : Cursor) : ¬ Defect pattern text c := by
  rintro ⟨-, ⟨-, htext⟩ | ⟨s, -, -, htext, -, -, habandons⟩⟩
  · exact hstar (List.mem_of_getElem? htext)
  · rcases hslash with hnone | hkept
    · exact hnone (List.mem_of_getElem? htext)
    · have hall := habandons.mono (Nat.le_max_left (s.after - 1) pattern.length)
      rw [List.take_of_length_le (Nat.le_max_right _ _)] at hall
      exact hkept hall

/-- The matcher is exact on every text without stars that has no slash, and on every text without
    stars where the pattern has neither a `**` nor a `?` behind a star. -/
theorem wildcardMatch_iff_of_plain (hstar : asterisk ∉ text)
    (hslash : slash ∉ text ∨ ¬ Abandons pattern) :
    wildcardMatch pattern text = true ↔ PatternMatches pattern text :=
  wildcardMatch_iff_of_not_defect fun c _ => not_defect_of_plain hstar hslash c

end Completeness

/-! ## First fits -/

/-- A piece of a pattern on a piece of text of the same length: every byte of the pattern is `?` or
    the byte of the text, and a star here is a byte like any other. -/
def Covers (segment piece : List UInt8) : Prop :=
  List.Forall₂ (fun b c => b = question ∨ b = c) segment piece

/-- The pattern covers the text to the text's end, or to a star of the pattern that stands at a
    byte other than a star. -/
def Fits (pattern text : List UInt8) : Prop :=
  ∃ segment rest piece after, pattern = segment ++ rest ∧ text = piece ++ after ∧
    Covers segment piece ∧ (after = [] ∨ rest.head? = some asterisk ∧ after.head? ≠ some asterisk)

/-- `*` or `**`. -/
def starBytes : Bool → List UInt8
  | false => [asterisk]
  | true => [asterisk, asterisk]

/-- The text matches by first fits: behind each star the rest of the pattern goes to the first
    place where it fits, and no slash is between a `*` and that place. -/
inductive FirstFit : List UInt8 → List UInt8 → Prop
  | ends {pattern text segment stars : List UInt8} (hpattern : pattern = segment ++ stars)
      (hcovers : Covers segment text) (hstars : ∀ b ∈ stars, b = asterisk) : FirstFit pattern text
  | star {pattern text segment rest piece after : List UInt8} {double : Bool} {place : ℕ}
      (hpattern : pattern = segment ++ (starBytes double ++ rest)) (htext : text = piece ++ after)
      (hcovers : Covers segment piece) (hnonempty : after ≠ [])
      (hbyte : after.head? ≠ some asterisk)
      (hrest : double = false → rest.head? ≠ some asterisk)
      (hslash : double = false → slash ∉ after.take place)
      (hfirst : ∀ earlier < place, ¬ Fits rest (after.drop earlier))
      (hfit : FirstFit rest (after.drop place)) : FirstFit pattern text

/-- The rest of a pattern goes to the first place where it fits. -/
def Resumes (double : Bool) (rest text : List UInt8) : Prop :=
  ∃ place, (double = false → slash ∉ text.take place) ∧
    (∀ earlier < place, ¬ Fits rest (text.drop earlier)) ∧ FirstFit rest (text.drop place)

section FirstFit

variable {pattern rest text : List UInt8} {b c : UInt8} {double : Bool}

theorem not_covers_asterisk {segment piece after : List UInt8}
    (hbyte : (piece ++ after).head? ≠ some asterisk) : ¬ Covers (asterisk :: segment) piece := by
  intro h
  cases h with
  | cons hcase _ =>
    rcases hcase with hquestion | rfl
    · exact absurd hquestion (by decide)
    · exact hbyte rfl

theorem fits_cons (h : b = question ∨ b = c) : Fits (b :: rest) (c :: text) ↔ Fits rest text := by
  constructor
  · rintro ⟨segment, pattern, piece, after, hpattern, htext, hcovers, hend⟩
    cases hcovers with
    | nil =>
      rw [List.nil_append] at hpattern htext
      subst hpattern htext
      rcases hend with hend | ⟨hstar, hbyte⟩
      · cases hend
      · obtain rfl : b = asterisk := Option.some.inj hstar
        rcases h with hquestion | rfl
        · exact absurd hquestion (by decide)
        · exact absurd rfl hbyte
    | cons hcase hcovers =>
      rw [List.cons_append] at hpattern htext
      obtain ⟨rfl, rfl⟩ := List.cons.inj hpattern
      obtain ⟨rfl, rfl⟩ := List.cons.inj htext
      exact ⟨_, pattern, _, after, rfl, rfl, hcovers, hend⟩
  · rintro ⟨segment, pattern, piece, after, rfl, rfl, hcovers, hend⟩
    exact ⟨b :: segment, pattern, c :: piece, after, rfl, rfl, .cons h hcovers, hend⟩

theorem fits_append {segment piece : List UInt8} (h : Covers segment piece) :
    Fits (segment ++ rest) (piece ++ text) ↔ Fits rest text := by
  induction h with
  | nil => exact Iff.rfl
  | cons hcase _ ih => exact (fits_cons hcase).trans ih

/-- A mismatch. -/
theorem not_fits (hmismatch : ∀ b, rest.head? = some b → ¬ (b = question ∨ b = c))
    (hstar : rest.head? ≠ some asterisk) : ¬ Fits rest (c :: text) := by
  rintro ⟨segment, pattern, piece, after, rfl, htext, hcovers, hend⟩
  cases hcovers with
  | nil =>
    rw [List.nil_append] at htext hstar
    rcases hend with rfl | ⟨hhead, -⟩
    · cases htext
    · exact hstar hhead
  | cons hcase _ =>
    obtain ⟨rfl, -⟩ := List.cons.inj htext
    exact hmismatch _ rfl hcase

theorem fits_nil : Fits rest [] := ⟨[], rest, [], [], rfl, rfl, .nil, .inl rfl⟩

theorem head?_starBytes (double : Bool) (rest : List UInt8) :
    (starBytes double ++ rest).head? = some asterisk := by
  cases double <;> rfl

theorem FirstFit.fits (h : FirstFit pattern text) : Fits pattern text := by
  cases h with
  | ends hpattern hcovers _ =>
    exact ⟨_, _, text, [], hpattern, (List.append_nil _).symm, hcovers, .inl rfl⟩
  | star hpattern htext hcovers _ hbyte _ _ _ _ =>
    exact ⟨_, _, _, _, hpattern, htext, hcovers, .inr ⟨head?_starBytes _ _, hbyte⟩⟩

theorem firstFit_cons (h : b = question ∨ b = c) :
    FirstFit (b :: rest) (c :: text) ↔ FirstFit rest text := by
  constructor
  · intro hfit
    cases hfit with
    | ends hpattern hcovers hstars =>
      cases hcovers with
      | cons hcase hcovers =>
        rw [List.cons_append] at hpattern
        obtain ⟨-, rfl⟩ := List.cons.inj hpattern
        exact .ends rfl hcovers hstars
    | star hpattern htext hcovers hnonempty hbyte hrest hslash hfirst hfit =>
      cases hcovers with
      | nil =>
        rw [List.nil_append] at hpattern htext
        subst htext
        have hhead := head?_starBytes _ _ ▸ congrArg List.head? hpattern
        obtain rfl : b = asterisk := Option.some.inj hhead
        rcases h with hquestion | rfl
        · exact absurd hquestion (by decide)
        · exact absurd rfl hbyte
      | cons hcase hcovers =>
        rw [List.cons_append] at hpattern htext
        obtain ⟨-, rfl⟩ := List.cons.inj hpattern
        obtain ⟨-, rfl⟩ := List.cons.inj htext
        exact .star rfl rfl hcovers hnonempty hbyte hrest hslash hfirst hfit
  · intro hfit
    cases hfit with
    | ends hpattern hcovers hstars =>
      exact .ends (congrArg (b :: ·) hpattern) (.cons h hcovers) hstars
    | star hpattern htext hcovers hnonempty hbyte hrest hslash hfirst hfit =>
      exact .star (congrArg (b :: ·) hpattern) (congrArg (c :: ·) htext) (.cons h hcovers)
        hnonempty hbyte hrest hslash hfirst hfit

theorem firstFit_append {segment piece : List UInt8} (h : Covers segment piece) :
    FirstFit (segment ++ rest) (piece ++ text) ↔ FirstFit rest text := by
  induction h with
  | nil => exact Iff.rfl
  | cons hcase _ ih => exact (firstFit_cons hcase).trans ih

theorem firstFit_nil : FirstFit rest [] ↔ ∀ b ∈ rest, b = asterisk := by
  constructor
  · intro hfit
    cases hfit with
    | ends hpattern hcovers hstars =>
      cases hcovers
      rwa [hpattern, List.nil_append]
    | star _ htext _ hnonempty _ _ _ _ _ =>
      exact absurd (List.append_eq_nil_iff.mp htext.symm).2 hnonempty
  · exact fun hstars => .ends rfl .nil hstars

theorem starBytes_inj {double' : Bool} {rest' : List UInt8}
    (h : starBytes double ++ rest = starBytes double' ++ rest')
    (hrest : double = false → rest.head? ≠ some asterisk)
    (hrest' : double' = false → rest'.head? ≠ some asterisk) : double = double' ∧ rest = rest' := by
  cases double <;> cases double' <;> simp only [starBytes, List.cons_append, List.nil_append,
    List.cons.injEq, true_and] at h
  · exact ⟨rfl, h⟩
  · exact absurd (congrArg List.head? h) (hrest rfl)
  · exact absurd (congrArg List.head? h).symm (hrest' rfl)
  · exact ⟨rfl, h⟩

/-- The pattern begins with a star, and the text with another byte. -/
theorem firstFit_starBytes (hrest : double = false → rest.head? ≠ some asterisk)
    (hbyte : text.head? ≠ some asterisk) (hnonempty : text ≠ []) :
    FirstFit (starBytes double ++ rest) text ↔ Resumes double rest text := by
  have hhead := head?_starBytes double rest
  constructor
  · intro hfit
    cases hfit with
    | ends hpattern hcovers _ =>
      cases hcovers with
      | nil => exact absurd rfl hnonempty
      | cons hcase hcovers =>
        rw [hpattern] at hhead
        obtain rfl := Option.some.inj hhead
        exact absurd (.cons hcase hcovers) (not_covers_asterisk (by rwa [List.append_nil]))
    | star hpattern htext hcovers _ _ hrest' hslash hfirst hfit =>
      cases hcovers with
      | nil =>
        obtain ⟨rfl, rfl⟩ := starBytes_inj hpattern hrest hrest'
        rw [List.nil_append] at htext
        subst htext
        exact ⟨_, hslash, hfirst, hfit⟩
      | cons hcase hcovers =>
        rw [hpattern] at hhead
        obtain rfl := Option.some.inj hhead
        exact absurd (.cons hcase hcovers) (not_covers_asterisk (htext ▸ hbyte))
  · rintro ⟨place, hslash, hfirst, hfit⟩
    exact .star rfl rfl .nil hnonempty hbyte hrest hslash hfirst hfit

theorem resumes_of_fits (h : Fits rest text) : Resumes double rest text ↔ FirstFit rest text := by
  constructor
  · rintro ⟨place, -, hfirst, hfit⟩
    rcases Nat.eq_zero_or_pos place with rfl | hpos
    · exact hfit
    · exact absurd h (hfirst 0 hpos)
  · exact fun hfit => ⟨0, fun _ => List.not_mem_nil, nofun, hfit⟩

/-- The rest of the pattern does not fit here. -/
theorem resumes_cons (h : ¬ Fits rest (c :: text)) :
    Resumes double rest (c :: text) ↔ (double = false → c ≠ slash) ∧ Resumes double rest text := by
  constructor
  · rintro ⟨place, hslash, hfirst, hfit⟩
    cases place with
    | zero => exact absurd hfit.fits h
    | succ place =>
      refine ⟨fun hsingle hc => hslash hsingle (hc ▸ List.mem_cons_self), place,
        fun hsingle hmem => hslash hsingle (List.mem_cons_of_mem _ hmem),
        fun earlier hlt => hfirst (earlier + 1) (Nat.succ_lt_succ hlt), hfit⟩
  · rintro ⟨hc, place, hslash, hfirst, hfit⟩
    refine ⟨place + 1, fun hsingle hmem => ?_, fun earlier hlt => ?_, hfit⟩
    · rw [List.take_succ_cons, List.mem_cons] at hmem
      rcases hmem with hslash' | hmem
      · exact hc hsingle hslash'.symm
      · exact hslash hsingle hmem
    · cases earlier with
      | zero => exact h
      | succ earlier => exact hfirst earlier (Nat.lt_of_succ_lt_succ hlt)

end FirstFit

/-! ## The loop goes by first fits -/

section Exact

variable {pattern text : List UInt8}

/-- From the star on, the pattern covers what has been read. -/
def Walked (pattern text : List UInt8) (c : Cursor) : Prop :=
  ∀ s, c.star = some s → ∃ segment piece, pattern.drop s.after = segment ++ pattern.drop c.p ∧
    text.drop s.matched = piece ++ text.drop c.t ∧ Covers segment piece

/-- What the rest of the loop has to find. -/
def Remains (pattern text : List UInt8) (c : Cursor) : Prop :=
  c.star.elim (FirstFit (pattern.drop c.p) (text.drop c.t)) fun s =>
    Resumes s.crossesSlash (pattern.drop s.after) (text.drop s.matched)

/-- A cursor that has just put a star. -/
theorem walked_star {p t : ℕ} {double : Bool} {hle} :
    Walked pattern text ⟨p, t, some ⟨p, t, double⟩, hle⟩ := by
  intro s hs
  obtain rfl := Option.some.inj hs
  exact ⟨[], [], rfl, rfl, .nil⟩

theorem fits_star {c : Cursor} (h : Walked pattern text c) {s : Star} (hs : c.star = some s) :
    Fits (pattern.drop s.after) (text.drop s.matched) ↔
      Fits (pattern.drop c.p) (text.drop c.t) := by
  obtain ⟨segment, piece, hpattern, htext, hcovers⟩ := h s hs
  rw [hpattern, htext, fits_append hcovers]

theorem remains_of_fits {c : Cursor} (h : Walked pattern text c)
    (hfits : Fits (pattern.drop c.p) (text.drop c.t)) :
    Remains pattern text c ↔ FirstFit (pattern.drop c.p) (text.drop c.t) := by
  unfold Remains
  cases hs : c.star with
  | none => exact Iff.rfl
  | some s =>
    obtain ⟨segment, piece, hpattern, htext, hcovers⟩ := h s hs
    rw [Option.elim_some, resumes_of_fits ((fits_star h hs).mpr hfits), hpattern, htext,
      firstFit_append hcovers]

/-- The star of the pattern that a turn comes to is where the loop goes on. -/
theorem remains_star {c : Cursor} (h : Walked pattern text c) (ht : c.t < text.length)
    (double : Bool) {rest : List UInt8} (hp : pattern.drop c.p = starBytes double ++ rest)
    (hrest : double = false → rest.head? ≠ some asterisk) (hbyte : text[c.t]? ≠ some asterisk) :
    Remains pattern text c ↔ Resumes double rest (text.drop c.t) := by
  have hhead : (text.drop c.t).head? ≠ some asterisk := by rwa [List.head?_drop]
  rw [remains_of_fits h, hp, firstFit_starBytes hrest hhead]
  · rw [List.drop_eq_getElem_cons ht]
    exact List.cons_ne_nil _ _
  · rw [hp]
    exact ⟨[], _, [], _, rfl, rfl, .nil, .inr ⟨head?_starBytes _ _, hhead⟩⟩

/-- A mismatch of a turn. -/
theorem not_fits_drop {c : Cursor} (ht : c.t < text.length)
    (hmismatch : ¬ (pattern[c.p]? = some question ∨ pattern[c.p]? = text[c.t]?))
    (hp : pattern[c.p]? ≠ some asterisk) : ¬ Fits (pattern.drop c.p) (text.drop c.t) := by
  rw [List.drop_eq_getElem_cons ht]
  refine not_fits (fun b hb hcase => hmismatch ?_) (by rwa [List.head?_drop])
  rw [List.head?_drop] at hb
  rw [hb, List.getElem?_eq_getElem ht, Option.some_inj, Option.some_inj]
  exact hcase

/-- **Step lemma.** -/
theorem remains_turn {c c' : Cursor} (h : Walked pattern text c)
    (hturn : turn pattern text c = .next c') :
    Walked pattern text c' ∧ (Remains pattern text c ↔ Remains pattern text c') := by
  have hturns := turns pattern text c
  rw [hturn] at hturns
  cases hturns with
  | literal ht hp hcase =>
    have hpattern := List.drop_eq_getElem_cons hp
    have htext := List.drop_eq_getElem_cons ht
    rw [List.getElem?_eq_getElem hp, List.getElem?_eq_getElem ht, Option.some_inj,
      Option.some_inj] at hcase
    constructor
    · intro s hs
      obtain ⟨segment, piece, hsegment, hpiece, hcovers⟩ := h s hs
      refine ⟨segment ++ [pattern[c.p]], piece ++ [text[c.t]], ?_, ?_, ?_⟩
      · rw [hsegment, hpattern, List.append_assoc, List.singleton_append]
      · rw [hpiece, htext, List.append_assoc, List.singleton_append]
      · exact List.rel_append hcovers (.cons hcase .nil)
    · unfold Remains
      dsimp only
      cases hs : c.star with
      | none =>
        rw [Option.elim_none, Option.elim_none, hpattern, htext]
        exact firstFit_cons hcase
      | some s => exact Iff.rfl
  | single ht hp hnext hbyte =>
    refine ⟨walked_star, remains_star h ht false ?_ (fun _ => ?_) hbyte⟩
    · exact drop_of_getElem? hp
    · rwa [List.head?_drop]
  | double ht hp hnext hbyte =>
    refine ⟨walked_star, remains_star h ht true ?_ (fun h => Bool.noConfusion h) hbyte⟩
    rw [drop_of_getElem? hp, drop_of_getElem? hnext]
    rfl
  | @extend ht hmismatch hp after matched crossesSlash hstar hmatched hslash =>
    refine ⟨walked_star, ?_⟩
    have hnot := mt (fits_star h hstar).mp (not_fits_drop ht hmismatch hp)
    dsimp only at hnot
    unfold Remains
    rw [hstar, Option.elim_some, Option.elim_some]
    dsimp only
    rw [List.drop_eq_getElem_cons hmatched] at hnot ⊢
    rw [resumes_cons hnot]
    refine and_iff_right fun hsingle hc => hslash ⟨hsingle, ?_⟩
    rw [List.getElem?_eq_getElem hmatched, hc]

/-- Where the loop stops. -/
theorem remains_done {c : Cursor} (h : Walked pattern text c) (hbounded : Bounded pattern text c)
    {result : Bool} (hturn : turn pattern text c = .done result) :
    result = true ↔ Remains pattern text c := by
  have hturns := turns pattern text c
  rw [hturn] at hturns
  generalize hlast : Turn.done result = last at hturns
  cases hturns with
  | literal => cases hlast
  | single => cases hlast
  | double => cases hlast
  | extend => cases hlast
  | stop ht hmismatch hp hstar =>
    obtain rfl := Turn.done.inj hlast
    have hnot := not_fits_drop ht hmismatch hp
    refine iff_of_false Bool.false_ne_true ?_
    unfold Remains
    cases hs : c.star with
    | none => exact fun hfit => hnot hfit.fits
    | some s =>
      rintro hresumes
      have hmatched : s.matched < text.length := (c.matched_le s hs).trans_lt ht
      have hnot' := mt (fits_star h hs).mp hnot
      rw [Option.elim_some, List.drop_eq_getElem_cons hmatched] at hresumes
      rw [List.drop_eq_getElem_cons hmatched] at hnot'
      rcases hstar s hs with hend | ⟨hsingle, hslash⟩
      · omega
      · rw [List.getElem?_eq_getElem hmatched] at hslash
        exact ((resumes_cons hnot').mp hresumes).1 hsingle (Option.some.inj hslash)
  | finish ht =>
    have hend : text.drop c.t = [] := List.drop_of_length_le ht
    rw [Turn.done.inj hlast, decide_eq_true_iff, finish_iff hbounded.p_le, matches_nil,
      remains_of_fits h (hend ▸ fits_nil), hend, firstFit_nil]

/-- **Run lemma.** -/
theorem loop_iff {c : Cursor} (h : Walked pattern text c) (hbounded : Bounded pattern text c) :
    loop pattern text c = true ↔ Remains pattern text c := by
  fun_induction loop pattern text c with
  | case1 c result hturn => exact remains_done h hbounded hturn
  | case2 c c' hturn ih =>
    obtain ⟨hwalked, hiff⟩ := remains_turn h hturn
    exact (ih hwalked (bounded_turn hbounded hturn)).trans hiff.symm

/-- The matcher accepts what matches by first fits. -/
theorem firstFit_iff : wildcardMatch pattern text = true ↔ FirstFit pattern text :=
  loop_iff (fun s hs => by cases hs) bounded_start

/-- **Main theorem.** The matcher is right on a pattern and a text exactly if the text does not
    match the pattern, or matches it by first fits. -/
theorem wildcardMatch_iff (pattern text : List UInt8) :
    (wildcardMatch pattern text = true ↔ PatternMatches pattern text) ↔
      (PatternMatches pattern text → FirstFit pattern text) := by
  constructor
  · exact fun hexact hmatches => firstFit_iff.mp (hexact.mpr hmatches)
  · exact fun hfits => ⟨matches_of_wildcardMatch, fun hmatches => firstFit_iff.mpr (hfits hmatches)⟩

theorem loop_next {c c' : Cursor} (h : turn pattern text c = .next c') :
    loop pattern text c = loop pattern text c' := by
  rw [loop]
  split
  · next hdone => rw [h] at hdone; cases hdone
  · next hnext => rw [h] at hnext; cases hnext; rfl

theorem loop_done {c : Cursor} {result : Bool} (h : turn pattern text c = .done result) :
    loop pattern text c = result := by
  rw [loop]
  split
  · next hdone => rw [h] at hdone; cases hdone; rfl
  · next hnext => rw [h] at hnext; cases hnext

/-- `**/*.bak` does not match `a/b/x.bak`, and `*` does not match `*a`. -/
theorem wildcardMatch_not_exact :
    ¬ (wildcardMatch [0x2a, 0x2a, 0x2f, 0x2a, 0x2e, 0x62, 0x61, 0x6b]
          [0x61, 0x2f, 0x62, 0x2f, 0x78, 0x2e, 0x62, 0x61, 0x6b] = true ↔
        PatternMatches [0x2a, 0x2a, 0x2f, 0x2a, 0x2e, 0x62, 0x61, 0x6b]
          [0x61, 0x2f, 0x62, 0x2f, 0x78, 0x2e, 0x62, 0x61, 0x6b]) ∧
      ¬ (wildcardMatch [0x2a] [0x2a, 0x61] = true ↔ PatternMatches [0x2a] [0x2a, 0x61]) := by
  constructor
  · have hfalse : wildcardMatch [0x2a, 0x2a, 0x2f, 0x2a, 0x2e, 0x62, 0x61, 0x6b]
        [0x61, 0x2f, 0x62, 0x2f, 0x78, 0x2e, 0x62, 0x61, 0x6b] = false :=
      (loop_next rfl).trans <| (loop_next rfl).trans <| (loop_next rfl).trans <|
        (loop_next rfl).trans <| (loop_next rfl).trans <| loop_done rfl
    have hmatches : PatternMatches [0x2a, 0x2a, 0x2f, 0x2a, 0x2e, 0x62, 0x61, 0x6b]
        [0x61, 0x2f, 0x62, 0x2f, 0x78, 0x2e, 0x62, 0x61, 0x6b] :=
      ⟨[0x61, 0x2f, 0x62], _, rfl, _, rfl, [0x78], _, rfl, by decide, _, rfl, _, rfl, _, rfl, _,
        rfl, rfl⟩
    rw [hfalse]
    exact fun h => absurd (h.mpr hmatches) (by decide)
  · have hfalse : wildcardMatch [0x2a] [0x2a, 0x61] = false :=
      (loop_next rfl).trans (loop_done rfl)
    have hmatches : PatternMatches [0x2a] [0x2a, 0x61] := ⟨[0x2a, 0x61], [], rfl, by decide, rfl⟩
    rw [hfalse]
    exact fun h => absurd (h.mpr hmatches) (by decide)

end Exact

end Mrml.Git.Wildcard
