import Mrml.Json.Scanner

/-!
# Accepted texts

The parser accepts the texts of the grammar, within its limits, and no others.

Results:
* `reads_of_valueText`: what the grammar derives the parser reads, by the rules of the grammar.
* `value_sound`: what the parser does not refuse the grammar derives.
* `parse_eq_ok_iff`: both for a whole text.
-/

namespace Mrml.Json

open Mrml.Runtime (OrderedMap.Sorted)

namespace Parser

variable {p q : Parser} {t t' w w' : Text}

/-- The parser behind a text with `n` values. -/
def read (p : Parser) (w : Text) (n : ℕ) : Parser := { p.skip w with nodes := p.nodes + n }

theorem read_read (p : Parser) (w w' : Text) (n n' : ℕ) :
    (p.read w n).read w' n' = p.read (w ++ w') (n + n') := by
  have hskip := skip_skip p w w'
  show { (p.skip w).skip w' with nodes := p.nodes + n + n' } = _
  rw [hskip, Nat.add_assoc]
  rfl

theorem read_zero (p : Parser) (w : Text) : p.read w 0 = p.skip w := rfl

theorem At.read (h : At p (w ++ t)) (n : ℕ) : At (p.read w n) t := At.skip h

/-- The limit of values (lines 584–590). -/
def maxNodes : ℕ := 1000000

/-- The limit of nesting (line 665). -/
def maxDepth : ℕ := 128

/-! ## Derived texts are read -/

/-- What may follow a value: a number has to end. -/
def Ends (v : Value) (t : Text) : Prop := ∀ number, v = .number number → NumberEnd t

/-- The parser reads a text as the value, wherever it stands. -/
def ValueReads (x : Text) (v : Value) (n k : ℕ) : Prop :=
  ∀ (fuel : ℕ) (p : Parser) (before t : Text), At p (before ++ (x ++ t)) → Space before →
    Ends v t → p.nodes + n ≤ maxNodes → p.depth + k ≤ maxDepth → 3 * x.length + 1 ≤ fuel →
      value fuel p = .ok (v, p.read (before ++ x) n)

/-- The parser reads a text as the elements of an array. -/
def ElementsReads (x : Text) (values : List Value) (n k : ℕ) : Prop :=
  ∀ (fuel : ℕ) (p : Parser) (before t : Text), At p (before ++ (x ++ ']' :: t)) → Space before →
    p.nodes + n ≤ maxNodes → p.depth + k ≤ maxDepth → 3 * x.length + 2 ≤ fuel →
      elements fuel p = .ok (values, p.read (before ++ (x ++ [']'])) n)

/-- The parser reads a text as the members of an object, behind other members. -/
def MembersReads (x : Text) (members : List (Text × Value)) (n k : ℕ) : Prop :=
  ∀ (fuel : ℕ) (p : Parser) (before t : Text) (entries : List (Text × Value)),
    At p (before ++ (x ++ '\x7d' :: t)) → Space before → OrderedMap.Sorted entries →
      ((entries ++ members).map Prod.fst).Nodup → p.nodes + n ≤ maxNodes →
        p.depth + k ≤ maxDepth → 3 * x.length + 2 ≤ fuel →
          ∃ final, Parser.members fuel entries p =
              .ok (final, p.read (before ++ (x ++ ['\x7d'])) n) ∧
            OrderedMap.Sorted final ∧ final.Perm (entries ++ members)

/-- The first character of a value: no white space, and not the end of a container. -/
def Opens (c : Char) : Prop := Ascii c ∧ isSpace c = false ∧ c ≠ ']' ∧ c ≠ '\x7d'

instance (c : Char) : Decidable (Opens c) := inferInstanceAs (Decidable (_ ∧ _ ∧ _ ∧ _))

theorem number_opens {x : Text} (h : Number x) :
    ∃ c x', x = c :: x' ∧ Ascii c ∧ (c = '-' ∨ isDigit c = true) := by
  obtain ⟨minus, integer, fraction, exponent, hminus, hinteger, _, _, rfl⟩ := h
  obtain rfl | rfl := hminus
  · obtain rfl | ⟨⟨hne, hdigits⟩, _⟩ := hinteger
    · exact ⟨'0', fraction ++ exponent, rfl, by decide, .inr (by decide)⟩
    · obtain ⟨c, rest, rfl⟩ := List.exists_cons_of_ne_nil hne
      have hdigit := hdigits c List.mem_cons_self
      refine ⟨c, rest ++ (fraction ++ exponent), rfl, ?_, .inr hdigit⟩
      by_contra hc
      rw [agrees_digit.not_ascii c hc] at hdigit
      cases hdigit
  · exact ⟨'-', _, rfl, by decide, .inl rfl⟩

theorem digit_opens {c : Char} (hc : Ascii c) (h : c = '-' ∨ isDigit c = true) :
    c.toNat = 45 ∨ 48 ≤ c.toNat ∧ c.toNat ≤ 57 := by
  obtain rfl | hdigit := h
  · exact .inl rfl
  · obtain ⟨hlow, hhigh⟩ := Bool.and_eq_true_iff.mp hdigit
    exact .inr ⟨of_decide_eq_true hlow, of_decide_eq_true hhigh⟩

theorem valueText_opens {x : Text} {v : Value} {n k : ℕ} (h : ValueText x v n k) :
    ∃ c x', x = c :: x' ∧ Opens c := by
  cases h with
  | null => exact ⟨'n', _, rfl, by decide, by decide, by decide, by decide⟩
  | true => exact ⟨'t', _, rfl, by decide, by decide, by decide, by decide⟩
  | false => exact ⟨'f', _, rfl, by decide, by decide, by decide, by decide⟩
  | number h =>
    obtain ⟨c, x', rfl, hc, hcase⟩ := number_opens h
    have hrange := digit_opens hc hcase
    have hne (a : Char) (ha : a.toNat ≠ 45 ∧ ¬(48 ≤ a.toNat ∧ a.toNat ≤ 57)) : c ≠ a := by
      rintro rfl
      omega
    refine ⟨c, x', rfl, hc, ?_, hne _ (by decide), hne _ (by decide)⟩
    simp only [isSpace, hne ' ' (by decide), hne '\n' (by decide), hne '\r' (by decide),
      hne '\t' (by decide), decide_false, Bool.or_self]
  | string h =>
    obtain ⟨body, _, rfl⟩ := h
    exact ⟨'"', _, rfl, by decide, by decide, by decide, by decide⟩
  | emptyArray | array => exact ⟨'[', _, rfl, by decide, by decide, by decide, by decide⟩
  | emptyObject | object => exact ⟨'\x7b', _, rfl, by decide, by decide, by decide, by decide⟩

theorem head_of_cons {c : Char} {P : Char → Prop} (h : P c) (t : Text) :
    ∀ a ∈ (c :: t).head?, P a := by
  intro a ha
  obtain rfl := Option.some.inj ha
  exact h

theorem countNode_eq (h : p.nodes + 1 ≤ maxNodes) :
    p.countNode = .ok { p with nodes := p.nodes + 1 } := by
  unfold maxNodes at h
  exact bind_eq_ok.mpr ⟨(), refuseIf_of_not (by omega), bind_eq_ok.mpr ⟨(),
    refuseIf_of_not (by omega), rfl⟩⟩

theorem countNode_refused (h : ¬p.nodes + 1 ≤ maxNodes) : Refused p.countNode := by
  unfold maxNodes at h
  by_cases hlarge : p.nodes + 1 ≥ 2 ^ 64
  · exact (refused_refuseIf hlarge).bind
  · rw [countNode, refuseIf_of_not hlarge, ok_bind]
    exact (refused_refuseIf (by omega)).bind

/-- The place at which `value` decides what to read. -/
theorem value_eq_match (h : At p (w ++ t)) (hw : Space w) (ht : ∀ c ∈ t.head?, isSpace c = false)
    (hnodes : p.nodes + 1 ≤ maxNodes) (fuel : ℕ) :
    value (fuel + 1) p = match (p.read w 1).peek with
      | none => .error ((p.read w 1).fail "expected JSON value")
      | some byte =>
        if byte = '['.toUInt8 then array fuel (p.read w 1)
        else if byte = '\x7b'.toUInt8 then object fuel (p.read w 1)
        else (p.read w 1).scalar byte := by
  have hat : At { p with nodes := p.nodes + 1 } (w ++ t) := h
  have hwhite : whitespace { p with nodes := p.nodes + 1 } = p.read w 1 := hat.whitespace hw ht
  rw [value, countNode_eq hnodes, ok_bind]
  exact hwhite ▸ rfl

theorem value_eq {c : Char} {x : Text} (h : At p (w ++ c :: x)) (hw : Space w) (hc : Ascii c)
    (hspace : isSpace c = false) (hnodes : p.nodes + 1 ≤ maxNodes) (fuel : ℕ) :
    value (fuel + 1) p =
      if c.toUInt8 = '['.toUInt8 then array fuel (p.read w 1)
      else if c.toUInt8 = '\x7b'.toUInt8 then object fuel (p.read w 1)
      else (p.read w 1).scalar c.toUInt8 := by
  have hpeek : (p.read w 1).peek = some c.toUInt8 := (h.read 1).peek_ascii hc
  rw [value_eq_match h hw (head_of_cons (P := fun c => isSpace c = false) hspace x) hnodes, hpeek]

/-- A value that is not a container is read by `scalar`. -/
theorem valueReads_scalar {x : Text} {v : Value}
    (h : ∃ c x', x = c :: x' ∧ Opens c ∧ c ≠ '[' ∧ c ≠ '\x7b' ∧ ∀ (p : Parser) (t : Text),
      At p (x ++ t) → Ends v t → p.scalar c.toUInt8 = .ok (v, p.skip x)) :
    ValueReads x v 1 0 := by
  obtain ⟨c, x', rfl, ⟨hc, hspace, _, _⟩, harray, hobject, hscalar⟩ := h
  intro fuel p before t hat hbefore hend hnodes _ hfuel
  obtain ⟨fuel, rfl⟩ : ∃ n, fuel = n + 1 := ⟨fuel - 1, by omega⟩
  have hnot {a : Char} (ha : Ascii a) (hne : c ≠ a) : ¬c.toUInt8 = a.toUInt8 :=
    fun heq => hne ((toUInt8_eq_iff ha hc).mp heq)
  rw [value_eq (x := x' ++ t) hat hbefore hc hspace hnodes, if_neg (hnot (by decide) harray),
    if_neg (hnot (by decide) hobject), hscalar _ _ (hat.read 1) hend]
  have hall := read_read p before (c :: x') 1 0
  rw [read_zero] at hall
  rw [hall]

theorem valueReads_literal {literal : Text} {v : Value} {c : Char} {rest : Text}
    (hliteral : literal = c :: rest) (hascii : ∀ c ∈ literal, Ascii c) (hopens : Opens c)
    (harray : c ≠ '[') (hobject : c ≠ '\x7b')
    (hscalar : ∀ p : Parser, p.scalar c.toUInt8 = do
      let p ← p.literal (literal.map Char.toUInt8)
      return (v, p)) : ValueReads literal v 1 0 := by
  refine valueReads_scalar ⟨c, rest, hliteral, hopens, harray, hobject, fun p t hat _ => ?_⟩
  rw [hscalar, hat.literal hascii]
  rfl

theorem valueReads_number {x : Text} (h : Number x) : ValueReads x (.number x) 1 0 := by
  obtain ⟨c, x', rfl, hc, hcase⟩ := number_opens h
  have hrange := digit_opens hc hcase
  have hne (a : Char) (ha : a.toNat ≠ 45 ∧ ¬(48 ≤ a.toNat ∧ a.toNat ≤ 57)) : c ≠ a := by
    rintro rfl
    omega
  have hnot (a : Char) (hascii : Ascii a)
      (ha : a.toNat ≠ 45 ∧ ¬(48 ≤ a.toNat ∧ a.toNat ≤ 57)) : ¬c.toUInt8 = a.toUInt8 :=
    fun heq => hne a ha ((toUInt8_eq_iff hascii hc).mp heq)
  obtain ⟨_, _, heq, hopens⟩ := valueText_opens (.number h)
  obtain ⟨rfl, rfl⟩ := List.cons.inj heq
  refine valueReads_scalar ⟨c, x', rfl, hopens, hne _ (by decide), hne _ (by decide),
    fun p t hat hend => ?_⟩
  have hbyte : c.toUInt8 = '-'.toUInt8 ∨ isDigitByte c.toUInt8 = true := by
    obtain rfl | hdigit := hcase
    · exact .inl rfl
    · exact .inr (by rw [agrees_digit.ascii c hc, hdigit])
  rw [scalar, if_neg (hnot 'n' (by decide) (by decide)), if_neg (hnot 't' (by decide) (by decide)),
    if_neg (hnot 'f' (by decide) (by decide)), if_neg (hnot '"' (by decide) (by decide)),
    if_pos hbyte, number_complete hat h (hend _ rfl)]
  rfl

theorem valueReads_string {x value : Text} (h : StringText x value) :
    ValueReads x (.string value) 1 0 := by
  have hstring := h
  obtain ⟨body, _, rfl⟩ := h
  refine valueReads_scalar ⟨'"', body ++ ['"'], rfl, by decide, by decide, by decide,
    fun p t hat hend => ?_⟩
  have hscalar : p.scalar '"'.toUInt8 =
      p.string >>= fun result => .ok (.string result.1, result.2) := rfl
  rw [hscalar, string_complete hat hstring]
  rfl

/-- The parser one level deeper. -/
def nested (p : Parser) : Parser := { p with depth := p.depth + 1 }

@[simp] theorem leave_nested (p : Parser) : p.nested.leave = p := rfl

@[simp] theorem skip_nested (p : Parser) (w : Text) : p.nested.skip w = (p.skip w).nested := rfl

@[simp] theorem read_nested (p : Parser) (w : Text) (n : ℕ) :
    p.nested.read w n = (p.read w n).nested := rfl

theorem At.nested (h : At p t) : At p.nested t := h

theorem read_skip (p : Parser) (w w' : Text) (n : ℕ) :
    (p.read w n).skip w' = p.read (w ++ w') n := read_read p w w' n 0

/-- The place behind the opening bracket of a container and the white space there. -/
theorem container_eq {a : Char} {space : Text} (h : At p (a :: (space ++ t))) (ha : Ascii a)
    (hspace : Space space) (ht : ∀ c ∈ t.head?, isSpace c = false)
    (hdepth : p.depth + 1 ≤ maxDepth) :
    p.enterContainer = .ok p.nested ∧
      (p.nested.advance 1).whitespace = (p.skip (a :: space)).nested := by
  have hskip : p.nested.advance 1 = (p.skip [a]).nested := by
    rw [skip_singleton ha]
    rfl
  have hat : At (p.skip [a]) (space ++ t) := At.skip (w := [a]) h
  have hall : (p.skip [a]).skip space = p.skip (a :: space) := skip_skip p [a] space
  unfold maxDepth at hdepth
  refine ⟨bind_eq_ok.mpr ⟨(), refuseIf_of_not (by omega), rfl⟩, ?_⟩
  rw [hskip, hat.nested.whitespace hspace ht, skip_nested, hall]

theorem array_eq {space : Text} (h : At p ('[' :: (space ++ t))) (hspace : Space space)
    (ht : ∀ c ∈ t.head?, isSpace c = false) (hdepth : p.depth + 1 ≤ maxDepth) (fuel : ℕ) :
    array (fuel + 1) p = match (p.skip ('[' :: space)).nested.take ']'.toUInt8 with
      | (true, p) => .ok (.array [], p.leave)
      | (false, p) => do
        let (values, p) ← elements fuel p
        return (.array values, p.leave) := by
  obtain ⟨henter, hwhite⟩ := container_eq h (by decide) hspace ht hdepth
  rw [array, henter, ok_bind, hwhite]
  rfl

theorem object_eq {space : Text} (h : At p ('\x7b' :: (space ++ t))) (hspace : Space space)
    (ht : ∀ c ∈ t.head?, isSpace c = false) (hdepth : p.depth + 1 ≤ maxDepth) (fuel : ℕ) :
    object (fuel + 1) p = match (p.skip ('\x7b' :: space)).nested.take '\x7d'.toUInt8 with
      | (true, p) => .ok (.object [], p.leave)
      | (false, p) => do
        let (entries, p) ← Parser.members fuel [] p
        return (.object entries, p.leave) := by
  obtain ⟨henter, hwhite⟩ := container_eq h (by decide) hspace ht hdepth
  rw [object, henter, ok_bind, hwhite]
  rfl

theorem valueReads_emptyArray {space : Text} (hspace : Space space) :
    ValueReads ('[' :: (space ++ [']'])) (.array []) 1 1 := by
  intro fuel p before t hat hbefore hend hnodes hdepth hfuel
  obtain ⟨fuel, rfl⟩ : ∃ n, fuel = n + 2 := ⟨fuel - 2, by
    rw [List.length_cons] at hfuel
    omega⟩
  rw [List.cons_append, List.append_assoc, List.singleton_append] at hat
  have hclose : At ((p.read before 1).skip ('[' :: space)) (']' :: t) :=
    At.skip (w := '[' :: space) (hat.read 1)
  rw [value_eq hat hbefore (by decide) (by decide) hnodes, if_pos rfl, array_eq (hat.read 1) hspace
    (head_of_cons (P := fun c => isSpace c = false) (by decide) t) hdepth,
    hclose.nested.take_true (by decide)]
  dsimp only
  rw [skip_nested, leave_nested, read_skip, read_skip]
  simp only [List.append_assoc, List.cons_append]

theorem valueReads_emptyObject {space : Text} (hspace : Space space) :
    ValueReads ('\x7b' :: (space ++ ['\x7d'])) (.object []) 1 1 := by
  intro fuel p before t hat hbefore hend hnodes hdepth hfuel
  obtain ⟨fuel, rfl⟩ : ∃ n, fuel = n + 2 := ⟨fuel - 2, by
    rw [List.length_cons] at hfuel
    omega⟩
  rw [List.cons_append, List.append_assoc, List.singleton_append] at hat
  have hclose : At ((p.read before 1).skip ('\x7b' :: space)) ('\x7d' :: t) :=
    At.skip (w := '\x7b' :: space) (hat.read 1)
  have hne : ¬ '\x7b'.toUInt8 = '['.toUInt8 := by decide
  rw [value_eq hat hbefore (by decide) (by decide) hnodes, if_neg hne, if_pos rfl,
    object_eq (hat.read 1) hspace
      (head_of_cons (P := fun c => isSpace c = false) (by decide) t) hdepth,
    hclose.nested.take_true (by decide)]
  dsimp only
  rw [skip_nested, leave_nested, read_skip, read_skip]
  simp only [List.append_assoc, List.cons_append]

/-- A character that ends a number. -/
def EndsNumber (c : Char) : Prop := isDigit c = false ∧ c ≠ '.' ∧ c ≠ 'e' ∧ c ≠ 'E'

instance (c : Char) : Decidable (EndsNumber c) := inferInstanceAs (Decidable (_ ∧ _ ∧ _ ∧ _))

theorem space_endsNumber {c : Char} (h : isSpace c = true) : EndsNumber c := by
  have hcases : c = ' ' ∨ c = '\n' ∨ c = '\r' ∨ c = '\t' := by
    simpa [isSpace, or_assoc] using h
  obtain rfl | rfl | rfl | rfl := hcases <;> decide

theorem numberEnd_append {c : Char} {space : Text} (hspace : Space space) (hc : EndsNumber c)
    (t : Text) : NumberEnd (space ++ c :: t) := by
  cases space with
  | nil => exact head_of_cons (P := EndsNumber) hc t
  | cons a space =>
    exact head_of_cons (P := EndsNumber) (space_endsNumber (hspace a List.mem_cons_self)) _

theorem elementsText_opens {x : Text} {values : List Value} {n k : ℕ}
    (h : ElementsText x values n k) : ∃ c x', x = c :: x' ∧ Opens c := by
  cases h with
  | last h _ =>
    obtain ⟨c, x', rfl, hopens⟩ := valueText_opens h
    exact ⟨c, _, rfl, hopens⟩
  | cons h _ _ _ =>
    obtain ⟨c, x', rfl, hopens⟩ := valueText_opens h
    exact ⟨c, _, rfl, hopens⟩

theorem membersText_opens {x : Text} {members : List (Text × Value)} {n k : ℕ}
    (h : MembersText x members n k) : ∃ x', x = '"' :: x' := by
  cases h with
  | last hname _ _ _ _ =>
    obtain ⟨body, _, rfl⟩ := hname
    exact ⟨_, rfl⟩
  | cons hname _ _ _ _ _ _ =>
    obtain ⟨body, _, rfl⟩ := hname
    exact ⟨_, rfl⟩

theorem valueReads_array {space x : Text} {values : List Value} {n k : ℕ} (hspace : Space space)
    (h : ElementsText x values n k) (hreads : ElementsReads x values n k) :
    ValueReads ('[' :: (space ++ (x ++ [']']))) (.array values) (n + 1) (k + 1) := by
  intro fuel p before t hat hbefore hend hnodes hdepth hfuel
  obtain ⟨fuel, rfl⟩ : ∃ n, fuel = n + 2 := ⟨fuel - 2, by
    rw [List.length_cons] at hfuel
    omega⟩
  simp only [List.length_cons, List.length_append, List.length_nil] at hfuel
  rw [List.cons_append, List.append_assoc, List.append_assoc, List.singleton_append] at hat
  have hat₁ : At ((p.read before 1).skip ('[' :: space)) (x ++ ']' :: t) :=
    At.skip (w := '[' :: space) (hat.read 1)
  obtain ⟨c, x', rfl, hc, hwhite, hclose, _⟩ := elementsText_opens h
  have hfirst : ((c :: x') ++ ']' :: t).head? ≠ some ']' := fun heq =>
    hclose (Option.some.inj heq)
  have helements := hreads fuel ((p.read before 1).skip ('[' :: space)).nested [] t hat₁.nested
    (fun _ h => nomatch h) (show p.nodes + 1 + n ≤ _ by omega) (show p.depth + 1 + k ≤ _ by omega)
    (by omega)
  rw [value_eq hat hbefore (by decide) (by decide) (by omega), if_pos rfl,
    array_eq (hat.read 1) hspace (head_of_cons (P := fun c => isSpace c = false) hwhite _)
      (show p.depth + 1 ≤ maxDepth by omega), hat₁.nested.take_false (by decide) hfirst]
  dsimp only
  rw [helements, ok_bind]
  dsimp only
  rw [read_nested, leave_nested, read_skip, read_read, Nat.add_comm 1]
  simp only [List.append_assoc, List.cons_append, List.nil_append]
  rfl

theorem elementsReads_last {x after : Text} {v : Value} {n k : ℕ} (h : ValueReads x v n k)
    (hafter : Space after) : ElementsReads (x ++ after) [v] n k := by
  intro fuel p before t hat hbefore hnodes hdepth hfuel
  obtain ⟨fuel, rfl⟩ : ∃ n, fuel = n + 1 := ⟨fuel - 1, by omega⟩
  rw [List.length_append] at hfuel
  rw [List.append_assoc] at hat
  have hvalue := h fuel p before _ hat hbefore
    (fun _ _ => numberEnd_append hafter (c := ']') (by decide) t) hnodes hdepth (by omega)
  have hat₁ : At (p.read (before ++ x) n) (after ++ ']' :: t) := by
    refine At.read (w := before ++ x) ?_ n
    rw [List.append_assoc]
    exact hat
  rw [elements, hvalue, ok_bind]
  dsimp only
  rw [hat₁.whitespace hafter (head_of_cons (P := fun c => isSpace c = false) (by decide) t),
    hat₁.skip.take_true (by decide)]
  dsimp only
  rw [read_skip, read_skip]
  simp only [List.append_assoc]
  rfl

theorem elementsReads_cons {x after before rest : Text} {v : Value} {values : List Value}
    {n k n' k' : ℕ} (h : ValueReads x v n k) (hafter : Space after) (hbefore : Space before)
    (hrest : ElementsReads rest values n' k') :
    ElementsReads (x ++ (after ++ ',' :: (before ++ rest))) (v :: values) (n + n') (max k k') := by
  intro fuel p first t hat hfirst hnodes hdepth hfuel
  obtain ⟨fuel, rfl⟩ : ∃ n, fuel = n + 1 := ⟨fuel - 1, by omega⟩
  simp only [List.length_append, List.length_cons] at hfuel
  simp only [List.append_assoc, List.cons_append] at hat
  have hvalue := h fuel p first _ hat hfirst
    (fun _ _ => numberEnd_append hafter (c := ',') (by decide) _) (by omega) (by omega) (by omega)
  have hat₁ : At (p.read (first ++ x) n) (after ++ ',' :: (before ++ (rest ++ ']' :: t))) := by
    refine At.read (w := first ++ x) ?_ n
    rw [List.append_assoc]
    exact hat
  have hat₂ : At (((p.read (first ++ x) n).skip after).skip [','])
      (before ++ (rest ++ ']' :: t)) := At.skip (w := [',']) hat₁.skip
  have helements := hrest fuel _ before t hat₂ hbefore (show p.nodes + n + n' ≤ _ by omega)
    (show p.depth + k' ≤ _ by omega) (by omega)
  rw [elements, hvalue, ok_bind]
  dsimp only
  rw [hat₁.whitespace hafter (head_of_cons (P := fun c => isSpace c = false) (by decide) _),
    hat₁.skip.take_false (a := ']') (by decide) (by simp)]
  dsimp only
  rw [hat₁.skip.expect (by decide), ok_bind, helements, read_skip, read_skip, read_read]
  simp only [List.append_assoc, List.cons_append, List.nil_append]
  rfl

theorem key_complete {before name colon key : Text} {entries : List (Text × Value)}
    (h : At p (before ++ (name ++ (colon ++ ':' :: t)))) (hbefore : Space before)
    (hname : StringText name key) (hcolon : Space colon) (hsorted : OrderedMap.Sorted entries)
    (hnew : key ∉ entries.map Prod.fst) :
    p.key entries = .ok (key, p.skip (before ++ (name ++ (colon ++ [':'])))) := by
  have hquote : Ascii '"' := by decide
  have hstring := fun q (hq : At q (name ++ (colon ++ ':' :: t))) => string_complete hq hname
  obtain ⟨body, _, rfl⟩ := hname
  have hget : ¬(Runtime.OrderedMap.get key entries).isSome = true := fun hsome =>
    hnew ((Runtime.OrderedMap.isSome_get hsorted).mp hsome)
  rw [Parser.key, h.whitespace hbefore
    (head_of_cons (P := fun c => isSpace c = false) (by decide) _)]
  dsimp only
  rw [refuseIf_of_not (not_not.mpr (h.skip.peek_ascii (t := body ++ ['"'] ++ (colon ++ ':' :: t))
    hquote)), ok_bind, hstring _ h.skip, ok_bind]
  dsimp only
  rw [refuseIf_of_not hget, ok_bind, h.skip.skip.whitespace hcolon
    (head_of_cons (P := fun c => isSpace c = false) (by decide) t),
    h.skip.skip.skip.expect (by decide), ok_bind]
  simp only [skip_skip, List.append_assoc]
  rfl

theorem membersReads_last {key name colon space x after : Text} {v : Value} {n k : ℕ}
    (hname : StringText name key) (hcolon : Space colon) (hspace : Space space)
    (h : ValueReads x v n k) (hafter : Space after) :
    MembersReads (name ++ (colon ++ ':' :: (space ++ (x ++ after)))) [(key, v)] n k := by
  intro fuel p before t entries hat hbefore hsorted hkeys hnodes hdepth hfuel
  obtain ⟨fuel, rfl⟩ : ∃ n, fuel = n + 1 := ⟨fuel - 1, by omega⟩
  simp only [List.length_append, List.length_cons] at hfuel
  simp only [List.append_assoc, List.cons_append] at hat
  have hnew : key ∉ entries.map Prod.fst := by
    rw [List.map_append, List.nodup_append] at hkeys
    exact fun hmem => hkeys.2.2 key hmem key (by simp) rfl
  have hkey := key_complete hat hbefore hname hcolon hsorted hnew
  have hat₁ : At (p.skip (before ++ (name ++ (colon ++ [':'])))) (space ++ (x ++ (after ++
      '\x7d' :: t))) := by
    refine At.skip (w := before ++ (name ++ (colon ++ [':']))) ?_
    simpa only [List.append_assoc, List.cons_append, List.nil_append] using hat
  have hvalue := h fuel _ space _ hat₁ hspace
    (fun _ _ => numberEnd_append hafter (c := '\x7d') (by decide) t) hnodes hdepth (by omega)
  have hat₂ : At ((p.skip (before ++ (name ++ (colon ++ [':'])))).read (space ++ x) n)
      (after ++ '\x7d' :: t) := by
    refine At.read (w := space ++ x) ?_ n
    rw [List.append_assoc]
    exact hat₁
  refine ⟨Runtime.OrderedMap.insert key v entries, ?_,
    Runtime.OrderedMap.sorted_insert hsorted hnew,
    (Runtime.OrderedMap.insert_perm hsorted hnew).trans (List.perm_append_singleton _ _).symm⟩
  rw [members, hkey, ok_bind]
  dsimp only
  rw [hvalue, ok_bind]
  dsimp only
  rw [hat₂.whitespace hafter (head_of_cons (P := fun c => isSpace c = false) (by decide) t),
    hat₂.skip.take_true (by decide)]
  dsimp only
  rw [read_skip, read_skip, ← read_zero, read_read, Nat.zero_add]
  simp only [List.append_assoc, List.cons_append, List.nil_append]
  rfl

theorem membersReads_cons {key name colon space x after before rest : Text} {v : Value}
    {members : List (Text × Value)} {n k n' k' : ℕ} (hname : StringText name key)
    (hcolon : Space colon) (hspace : Space space) (h : ValueReads x v n k) (hafter : Space after)
    (hbefore : Space before) (hrest : MembersReads rest members n' k') :
    MembersReads (name ++ (colon ++ ':' :: (space ++ (x ++ (after ++ ',' :: (before ++ rest))))))
      ((key, v) :: members) (n + n') (max k k') := by
  intro fuel p first t entries hat hfirst hsorted hkeys hnodes hdepth hfuel
  obtain ⟨fuel, rfl⟩ : ∃ n, fuel = n + 1 := ⟨fuel - 1, by omega⟩
  simp only [List.length_append, List.length_cons] at hfuel
  simp only [List.append_assoc, List.cons_append] at hat
  have hnew : key ∉ entries.map Prod.fst := by
    rw [List.map_append, List.nodup_append] at hkeys
    exact fun hmem => hkeys.2.2 key hmem key (by simp) rfl
  have hperm : (Runtime.OrderedMap.insert key v entries).Perm ((key, v) :: entries) :=
    Runtime.OrderedMap.insert_perm hsorted hnew
  have hall : (Runtime.OrderedMap.insert key v entries ++ members).Perm
      (entries ++ (key, v) :: members) :=
    (hperm.append_right members).trans List.perm_middle.symm
  have hkey := key_complete hat hfirst hname hcolon hsorted hnew
  have hat₁ : At (p.skip (first ++ (name ++ (colon ++ [':'])))) (space ++ (x ++ (after ++
      ',' :: (before ++ (rest ++ '\x7d' :: t))))) := by
    refine At.skip (w := first ++ (name ++ (colon ++ [':']))) ?_
    simpa only [List.append_assoc, List.cons_append, List.nil_append] using hat
  have hvalue := h fuel _ space _ hat₁ hspace
    (fun _ _ => numberEnd_append hafter (c := ',') (by decide) _) (show p.nodes + n ≤ _ by omega)
    (show p.depth + k ≤ _ by omega) (by omega)
  have hat₂ : At ((p.skip (first ++ (name ++ (colon ++ [':'])))).read (space ++ x) n)
      (after ++ ',' :: (before ++ (rest ++ '\x7d' :: t))) := by
    refine At.read (w := space ++ x) ?_ n
    rw [List.append_assoc]
    exact hat₁
  have hat₃ := At.skip (w := [',']) hat₂.skip
  obtain ⟨final, hmembers, hfinal, hpermFinal⟩ := hrest fuel _ before t _ hat₃ hbefore
    (Runtime.OrderedMap.sorted_insert hsorted hnew)
    ((hall.map Prod.fst).nodup_iff.mpr hkeys) (show p.nodes + n + n' ≤ _ by omega)
    (show p.depth + k' ≤ _ by omega) (by omega)
  refine ⟨final, ?_, hfinal, hpermFinal.trans hall⟩
  rw [Parser.members, hkey, ok_bind]
  dsimp only
  rw [hvalue, ok_bind]
  dsimp only
  rw [hat₂.whitespace hafter (head_of_cons (P := fun c => isSpace c = false) (by decide) _),
    hat₂.skip.take_false (a := '\x7d') (by decide) (by simp)]
  dsimp only
  rw [hat₂.skip.expect (by decide), ok_bind, hmembers, read_skip, read_skip, ← read_zero,
    read_read, read_read, Nat.zero_add]
  simp only [List.append_assoc, List.cons_append, List.nil_append]

theorem valueReads_object {space x : Text} {members : List (Text × Value)} {n k : ℕ}
    (hspace : Space space) (h : MembersText x members n k) (hreads : MembersReads x members n k)
    (hkeys : (members.map Prod.fst).Nodup) :
    ValueReads ('\x7b' :: (space ++ (x ++ ['\x7d'])))
      (.object (KeyedList.sortBy Prod.fst members)) (n + 1) (k + 1) := by
  intro fuel p before t hat hbefore hend hnodes hdepth hfuel
  obtain ⟨fuel, rfl⟩ : ∃ n, fuel = n + 2 := ⟨fuel - 2, by
    rw [List.length_cons] at hfuel
    omega⟩
  simp only [List.length_cons, List.length_append, List.length_nil] at hfuel
  rw [List.cons_append, List.append_assoc, List.append_assoc, List.singleton_append] at hat
  have hat₁ : At ((p.read before 1).skip ('\x7b' :: space)) (x ++ '\x7d' :: t) :=
    At.skip (w := '\x7b' :: space) (hat.read 1)
  obtain ⟨x', rfl⟩ := membersText_opens h
  have hfirst : (('"' :: x') ++ '\x7d' :: t).head? ≠ some '\x7d' := by simp
  obtain ⟨final, hmembers, hfinal, hperm⟩ := hreads fuel
    ((p.read before 1).skip ('\x7b' :: space)).nested [] t [] hat₁.nested
    (fun _ h => nomatch h) List.Pairwise.nil hkeys (show p.nodes + 1 + n ≤ _ by omega)
    (show p.depth + 1 + k ≤ _ by omega) (by omega)
  have hsorted : final = KeyedList.sortBy Prod.fst members :=
    hfinal.ext (KeyedList.sortedBy_sortBy hkeys) fun a => by
      rw [KeyedList.mem_sortBy]
      exact hperm.mem_iff
  have hne : ¬ '\x7b'.toUInt8 = '['.toUInt8 := by decide
  rw [value_eq hat hbefore (by decide) (by decide) (by omega), if_neg hne, if_pos rfl,
    object_eq (hat.read 1) hspace
      (head_of_cons (P := fun c => isSpace c = false) (by decide) _)
      (show p.depth + 1 ≤ maxDepth by omega), hat₁.nested.take_false (by decide) hfirst]
  dsimp only
  rw [hmembers, ok_bind, hsorted]
  dsimp only
  rw [read_nested, leave_nested, read_skip, read_read, Nat.add_comm 1]
  simp only [List.append_assoc, List.cons_append, List.nil_append]
  rfl

/-- **Main lemma.** What the grammar derives the parser reads, by the rules of the grammar. -/
theorem reads_of_valueText {x : Text} {v : Value} {n k : ℕ} (h : ValueText x v n k) :
    ValueReads x v n k := by
  refine @ValueText.rec (fun x v n k _ => ValueReads x v n k)
    (fun x values n k _ => ElementsReads x values n k)
    (fun x members n k _ => MembersReads x members n k)
    ?null ?true ?false ?number ?string ?emptyArray ?array ?emptyObject ?object ?last ?cons
    ?lastMember ?consMember x v n k h
  case null =>
    exact valueReads_literal rfl (by simp [Ascii]) (by decide) (by decide) (by decide) fun _ => rfl
  case true =>
    exact valueReads_literal rfl (by simp [Ascii]) (by decide) (by decide) (by decide) fun _ => rfl
  case false =>
    exact valueReads_literal rfl (by simp [Ascii]) (by decide) (by decide) (by decide) fun _ => rfl
  case number => exact fun h => valueReads_number h
  case string => exact fun h => valueReads_string h
  case emptyArray => exact fun h => valueReads_emptyArray h
  case array => exact fun hspace h hreads => valueReads_array hspace h hreads
  case emptyObject => exact fun h => valueReads_emptyObject h
  case object => exact fun hspace h hkeys hreads => valueReads_object hspace h hreads hkeys
  case last => exact fun _ hafter hreads => elementsReads_last hreads hafter
  case cons =>
    exact fun _ hafter hbefore _ hreads hrest => elementsReads_cons hreads hafter hbefore hrest
  case lastMember =>
    exact fun hname hcolon hspace _ hafter hreads =>
      membersReads_last hname hcolon hspace hreads hafter
  case consMember =>
    exact fun hname hcolon hspace _ hafter hbefore _ hreads hrest =>
      membersReads_cons hname hcolon hspace hreads hafter hbefore hrest

/-! ## What is read is derived -/

theorem key_sound {entries : List (Text × Value)} (h : At p t)
    (hsorted : OrderedMap.Sorted entries) : Refused (p.key entries) ∨
      ∃ before name colon key t', t = before ++ (name ++ (colon ++ ':' :: t')) ∧ Space before ∧
        StringText name key ∧ Space colon ∧ key ∉ entries.map Prod.fst := by
  obtain ⟨before, t₁, rfl, hbefore, _, hwhite⟩ := h.whitespace_sound
  rw [Parser.key, hwhite]
  dsimp only
  by_cases hquote : (p.skip before).peek = some '"'.toUInt8
  swap
  · exact .inl (refused_refuseIf hquote).bind
  rw [refuseIf_of_not (not_not.mpr hquote), ok_bind]
  obtain hrefused | ⟨name, t₂, key, rfl, hname, hok⟩ := string_sound h.skip
  · exact .inl hrefused.bind
  rw [hok, ok_bind]
  dsimp only
  by_cases hget : (Runtime.OrderedMap.get key entries).isSome = true
  · exact .inl (refused_refuseIf hget).bind
  rw [refuseIf_of_not hget, ok_bind]
  obtain ⟨colon, t₃, rfl, hcolon, _, hwhite⟩ := h.skip.skip.whitespace_sound
  rw [hwhite]
  obtain hrefused | ⟨t', rfl, hok⟩ := h.skip.skip.skip.expect_sound (a := ':') (by decide)
  · exact .inl hrefused.bind
  · refine .inr ⟨before, name, colon, key, t', rfl, hbefore, hname, hcolon, ?_⟩
    exact fun hmem => hget ((Runtime.OrderedMap.isSome_get hsorted).mpr hmem)

theorem literal_scalar_sound {literal : Text} {v : Value} (hascii : ∀ c ∈ literal, Ascii c)
    (hv : ValueText literal v 1 0) (h : At p t) {b : UInt8} (hscalar : p.scalar b = do
      let p ← p.literal (literal.map Char.toUInt8)
      return (v, p)) :
    Refused (p.scalar b) ∨ ∃ x t' v, t = x ++ t' ∧ ValueText x v 1 0 ∧
      p.scalar b = .ok (v, p.skip x) := by
  rw [hscalar]
  obtain hrefused | ⟨t', rfl, hok⟩ := h.literal_sound hascii
  · exact .inl hrefused.bind
  · refine .inr ⟨literal, t', v, rfl, hv, ?_⟩
    rw [hok]
    rfl

theorem scalar_sound (h : At p t) (b : UInt8) : Refused (p.scalar b) ∨
    ∃ x t' v, t = x ++ t' ∧ ValueText x v 1 0 ∧ p.scalar b = .ok (v, p.skip x) := by
  by_cases hnull : b = 'n'.toUInt8
  · subst hnull
    exact literal_scalar_sound (by simp [Ascii]) .null h rfl
  by_cases htrue : b = 't'.toUInt8
  · subst htrue
    exact literal_scalar_sound (by simp [Ascii]) .true h rfl
  by_cases hfalse : b = 'f'.toUInt8
  · subst hfalse
    exact literal_scalar_sound (by simp [Ascii]) .false h rfl
  rw [scalar, if_neg hnull, if_neg htrue, if_neg hfalse]
  by_cases hquote : b = '"'.toUInt8
  · rw [if_pos hquote]
    obtain hrefused | ⟨x, t', value, rfl, hx, hok⟩ := string_sound h
    · exact .inl hrefused.bind
    · refine .inr ⟨x, t', .string value, rfl, .string hx, ?_⟩
      rw [hok]
      rfl
  rw [if_neg hquote]
  by_cases hnumber : b = '-'.toUInt8 ∨ isDigitByte b = true
  · rw [if_pos hnumber]
    obtain hrefused | ⟨x, t', rfl, hx, hok⟩ := number_sound h
    · exact .inl hrefused.bind
    · refine .inr ⟨x, t', .number x, rfl, .number hx, ?_⟩
      rw [hok]
      rfl
  · rw [if_neg hnumber]
    exact .inl ⟨_, rfl⟩

/-- The parser refuses a text, or the text begins with a value. -/
def ValueSound (fuel : ℕ) : Prop :=
  ∀ (p : Parser) (t : Text), At p t → 3 * t.length + 1 ≤ fuel → p.depth ≤ maxDepth →
    Refused (value fuel p) ∨ ∃ before x t' v n k, t = before ++ (x ++ t') ∧ Space before ∧
      ValueText x v n k ∧ p.nodes + n ≤ maxNodes ∧ p.depth + k ≤ maxDepth ∧
        value fuel p = .ok (v, p.read (before ++ x) n)

/-- The parser refuses a text, or the text begins with the rest of an array. -/
def ElementsSound (fuel : ℕ) : Prop :=
  ∀ (p : Parser) (t : Text), At p t → 3 * t.length + 2 ≤ fuel → p.depth ≤ maxDepth →
    Refused (elements fuel p) ∨ ∃ before x t' values n k, t = before ++ (x ++ ']' :: t') ∧
      Space before ∧ ElementsText x values n k ∧ p.nodes + n ≤ maxNodes ∧ p.depth + k ≤ maxDepth

/-- The parser refuses a text, or the text begins with the rest of an object. -/
def MembersSound (fuel : ℕ) : Prop :=
  ∀ (p : Parser) (t : Text) (entries : List (Text × Value)), At p t → 3 * t.length + 2 ≤ fuel →
    p.depth ≤ maxDepth → OrderedMap.Sorted entries → Refused (Parser.members fuel entries p) ∨
      ∃ before x t' members n k, t = before ++ (x ++ '\x7d' :: t') ∧ Space before ∧
        MembersText x members n k ∧ ((entries ++ members).map Prod.fst).Nodup ∧
          p.nodes + n ≤ maxNodes ∧ p.depth + k ≤ maxDepth

theorem elements_sound {fuel : ℕ} (hvalue : ValueSound fuel) (helements : ElementsSound fuel) :
    ElementsSound (fuel + 1) := by
  intro p t h hfuel hdepth
  rw [elements]
  obtain hrefused | ⟨first, x, t₁, v, n, k, rfl, hfirst, hx, hnodes, hlevels, hok⟩ :=
    hvalue p t h (by omega) hdepth
  · exact .inl hrefused.bind
  rw [hok, ok_bind]
  dsimp only
  have hat : At (p.read (first ++ x) n) t₁ := by
    refine At.read (w := first ++ x) ?_ n
    rw [List.append_assoc]
    exact h
  obtain ⟨after, t₂, rfl, hafter, _, hwhite⟩ := hat.whitespace_sound
  rw [hwhite]
  obtain ⟨t', rfl, _⟩ | ⟨_, htake⟩ := hat.skip.take_cases (a := ']') (by decide)
  · refine .inr ⟨first, x ++ after, t', [v], n, k, ?_, hfirst, .last hx hafter, hnodes, hlevels⟩
    rw [List.append_assoc]
  rw [htake]
  dsimp only
  obtain hrefused | ⟨t₃, rfl, hexpect⟩ := hat.skip.expect_sound (a := ',') (by decide)
  · exact .inl hrefused.bind
  rw [hexpect, ok_bind]
  have hat₃ : At (((p.read (first ++ x) n).skip after).skip [',']) t₃ :=
    At.skip (w := [',']) hat.skip
  simp only [List.length_append, List.length_cons] at hfuel
  obtain hrefused | ⟨before, rest, t', values, n', k', rfl, hbefore, hrest, hnodes', hlevels'⟩ :=
    helements _ t₃ hat₃ (by omega) hdepth
  · exact .inl hrefused.bind
  · have hcount : p.nodes + n + n' ≤ maxNodes := hnodes'
    have hlevel : p.depth + k' ≤ maxDepth := hlevels'
    refine .inr ⟨first, x ++ (after ++ ',' :: (before ++ rest)), t', v :: values, n + n',
      max k k', ?_, hfirst, .cons hx hafter hbefore hrest, by omega, by omega⟩
    simp only [List.append_assoc, List.cons_append]

theorem members_sound {fuel : ℕ} (hvalue : ValueSound fuel) (hmembers : MembersSound fuel) :
    MembersSound (fuel + 1) := by
  intro p t entries h hfuel hdepth hsorted
  rw [Parser.members]
  obtain hrefused | ⟨first, name, colon, key, t₁, rfl, hfirst, hname, hcolon, hnew⟩ :=
    key_sound h hsorted
  · exact .inl hrefused.bind
  rw [key_complete h hfirst hname hcolon hsorted hnew, ok_bind]
  dsimp only
  have hat₁ : At (p.skip (first ++ (name ++ (colon ++ [':'])))) t₁ := by
    refine At.skip (w := first ++ (name ++ (colon ++ [':']))) ?_
    simpa only [List.append_assoc, List.cons_append, List.nil_append] using h
  simp only [List.length_append, List.length_cons] at hfuel
  obtain hrefused | ⟨space, x, t₂, v, n, k, rfl, hspace, hx, hnodes, hlevels, hok⟩ :=
    hvalue _ t₁ hat₁ (by omega) hdepth
  · exact .inl hrefused.bind
  rw [hok, ok_bind]
  dsimp only
  have hcount : p.nodes + n ≤ maxNodes := hnodes
  have hlevel : p.depth + k ≤ maxDepth := hlevels
  have hat₂ : At ((p.skip (first ++ (name ++ (colon ++ [':'])))).read (space ++ x) n) t₂ := by
    refine At.read (w := space ++ x) ?_ n
    rw [List.append_assoc]
    exact hat₁
  have hperm : (Runtime.OrderedMap.insert key v entries).Perm ((key, v) :: entries) :=
    Runtime.OrderedMap.insert_perm hsorted hnew
  have hkeys : ((entries ++ [(key, v)]).map Prod.fst).Nodup :=
    ((List.perm_append_singleton _ _).map Prod.fst).nodup_iff.mpr
      (List.nodup_cons.mpr ⟨hnew, hsorted.nodup⟩)
  obtain ⟨after, t₃, rfl, hafter, _, hwhite⟩ := hat₂.whitespace_sound
  rw [hwhite]
  obtain ⟨t', rfl, _⟩ | ⟨_, htake⟩ := hat₂.skip.take_cases (a := '\x7d') (by decide)
  · refine .inr ⟨first, name ++ (colon ++ ':' :: (space ++ (x ++ after))), t', [(key, v)], n, k,
      ?_, hfirst, .last hname hcolon hspace hx hafter, hkeys, hcount, hlevel⟩
    simp only [List.append_assoc, List.cons_append]
  rw [htake]
  dsimp only
  obtain hrefused | ⟨t₄, rfl, hexpect⟩ := hat₂.skip.expect_sound (a := ',') (by decide)
  · exact .inl hrefused.bind
  rw [hexpect, ok_bind]
  have hat₄ := At.skip (w := [',']) hat₂.skip
  simp only [List.length_append, List.length_cons] at hfuel
  obtain hrefused | ⟨before, rest, t', members, n', k', rfl, hbefore, hrest, hall, hnodes',
      hlevels'⟩ := hmembers _ t₄ _ hat₄ (by omega) hdepth
    (Runtime.OrderedMap.sorted_insert hsorted hnew)
  · exact .inl hrefused
  · have hcount' : p.nodes + n + n' ≤ maxNodes := hnodes'
    have hlevel' : p.depth + k' ≤ maxDepth := hlevels'
    have hkeys' : ((entries ++ (key, v) :: members).map Prod.fst).Nodup :=
      ((((hperm.append_right members).trans List.perm_middle.symm).map Prod.fst).nodup_iff).mp hall
    refine .inr ⟨first, name ++ (colon ++ ':' :: (space ++ (x ++ (after ++ ',' :: (before ++
      rest))))), t', (key, v) :: members, n + n', max k k', ?_, hfirst,
      .cons hname hcolon hspace hx hafter hbefore hrest, hkeys', by omega, by omega⟩
    simp only [List.append_assoc, List.cons_append]

/-- White space in front of a text, and the bracket that may follow. -/
theorem container_sound {a : Char} (h : At p (a :: t)) : ∃ space t', t = space ++ t' ∧
    Space space ∧ (∀ c ∈ t'.head?, isSpace c = false) ∧ At (p.skip (a :: space)).nested t' := by
  have hat : At (p.skip [a]) t := At.skip (w := [a]) h
  obtain ⟨space, t', rfl, hspace, hwhite, _⟩ := hat.whitespace_sound
  exact ⟨space, t', rfl, hspace, hwhite, (At.skip (w := a :: space) h).nested⟩

theorem enterContainer_refused (h : ¬p.depth + 1 ≤ maxDepth) : Refused p.enterContainer := by
  unfold maxDepth at h
  exact (refused_refuseIf (by omega)).bind

theorem array_sound {fuel : ℕ} (helements : ElementsSound fuel) (h : At p ('[' :: t))
    (hfuel : 3 * t.length + 2 ≤ fuel) : Refused (array (fuel + 1) p) ∨
      ∃ x t' values n k, '[' :: t = x ++ t' ∧ ValueText x (.array values) (n + 1) k ∧
        (p.nodes ≤ maxNodes → p.nodes + n ≤ maxNodes) ∧ p.depth + k ≤ maxDepth := by
  by_cases hdepth : p.depth + 1 ≤ maxDepth
  swap
  · rw [array]
    exact .inl (enterContainer_refused hdepth).bind
  obtain ⟨space, t₁, rfl, hspace, hwhite, hat⟩ := container_sound h
  rw [array_eq h hspace hwhite hdepth]
  obtain ⟨t', rfl, _⟩ | ⟨_, htake⟩ := hat.take_cases (a := ']') (by decide)
  · refine .inr ⟨'[' :: (space ++ [']']), t', [], 0, 1, ?_, .emptyArray hspace, id, hdepth⟩
    simp only [List.append_assoc, List.cons_append, List.nil_append]
  rw [htake]
  dsimp only
  rw [List.length_append] at hfuel
  obtain hrefused | ⟨before, x, t', values, n, k, rfl, hbefore, hx, hnodes, hlevels⟩ :=
    helements _ t₁ hat (by omega) hdepth
  · exact .inl hrefused.bind
  · have hlevel : p.depth + 1 + k ≤ maxDepth := hlevels
    have hall : Space (space ++ before) := fun c hc =>
      (List.mem_append.mp hc).elim (hspace c) (hbefore c)
    refine .inr ⟨'[' :: ((space ++ before) ++ (x ++ [']'])), t', values, n, k + 1, ?_,
      .array hall hx, fun _ => hnodes, by omega⟩
    simp only [List.append_assoc, List.cons_append, List.nil_append]

theorem object_sound {fuel : ℕ} (hmembers : MembersSound fuel) (h : At p ('\x7b' :: t))
    (hfuel : 3 * t.length + 2 ≤ fuel) : Refused (object (fuel + 1) p) ∨
      ∃ x t' entries n k, '\x7b' :: t = x ++ t' ∧ ValueText x (.object entries) (n + 1) k ∧
        (p.nodes ≤ maxNodes → p.nodes + n ≤ maxNodes) ∧ p.depth + k ≤ maxDepth := by
  by_cases hdepth : p.depth + 1 ≤ maxDepth
  swap
  · rw [object]
    exact .inl (enterContainer_refused hdepth).bind
  obtain ⟨space, t₁, rfl, hspace, hwhite, hat⟩ := container_sound h
  rw [object_eq h hspace hwhite hdepth]
  obtain ⟨t', rfl, _⟩ | ⟨_, htake⟩ := hat.take_cases (a := '\x7d') (by decide)
  · refine .inr ⟨'\x7b' :: (space ++ ['\x7d']), t', [], 0, 1, ?_, .emptyObject hspace, id, hdepth⟩
    simp only [List.append_assoc, List.cons_append, List.nil_append]
  rw [htake]
  dsimp only
  rw [List.length_append] at hfuel
  obtain hrefused | ⟨before, x, t', members, n, k, rfl, hbefore, hx, hkeys, hnodes, hlevels⟩ :=
    hmembers _ t₁ [] hat (by omega) hdepth List.Pairwise.nil
  · exact .inl hrefused.bind
  · have hlevel : p.depth + 1 + k ≤ maxDepth := hlevels
    have hall : Space (space ++ before) := fun c hc =>
      (List.mem_append.mp hc).elim (hspace c) (hbefore c)
    refine .inr ⟨'\x7b' :: ((space ++ before) ++ (x ++ ['\x7d'])), t', _, n, k + 1, ?_,
      .object hall hx hkeys, fun _ => hnodes, by omega⟩
    simp only [List.append_assoc, List.cons_append, List.nil_append]

theorem valueSound_succ {fuel : ℕ} (helements : ElementsSound fuel)
    (hmembers : MembersSound fuel) : ValueSound (fuel + 2) := by
  intro p t h hfuel hdepth
  by_cases hnodes : p.nodes + 1 ≤ maxNodes
  swap
  · rw [value]
    exact .inl (countNode_refused hnodes).bind
  obtain ⟨before, t₁, rfl, hbefore, hhead, _⟩ := h.whitespace_sound
  have hat : At (p.read before 1) t₁ := h.read 1
  have hvalue := value_eq_match h hbefore hhead hnodes (fuel + 1)
  rw [List.length_append] at hfuel
  cases hpeek : (p.read before 1).peek with
  | none =>
    rw [hvalue, hpeek]
    exact .inl ⟨_, rfl⟩
  | some byte =>
    rw [hpeek] at hvalue
    dsimp only at hvalue
    by_cases harray : byte = '['.toUInt8
    · subst harray
      rw [if_pos rfl] at hvalue
      obtain ⟨t₂, rfl⟩ := List.head?_eq_some_iff.mp ((hat.peek_eq_some (by decide)).mp hpeek)
      rw [List.length_cons] at hfuel
      obtain hrefused | ⟨x, t', values, n, k, hsplit, hx, hcount, hlevel⟩ :=
        array_sound helements hat (by omega)
      · exact .inl (hvalue ▸ hrefused)
      · have hlength := congrArg List.length hsplit
        rw [List.length_cons, List.length_append] at hlength
        have hall : p.nodes + (n + 1) ≤ maxNodes := by
          have hle : p.nodes + 1 + n ≤ maxNodes := hcount hnodes
          omega
        rw [hsplit] at h ⊢
        exact .inr ⟨before, x, t', _, n + 1, k, rfl, hbefore, hx, hall, hlevel,
          reads_of_valueText hx _ p before t' h hbefore (fun _ heq => nomatch heq) hall hlevel
            (by omega)⟩
    rw [if_neg harray] at hvalue
    by_cases hobject : byte = '\x7b'.toUInt8
    · subst hobject
      rw [if_pos rfl] at hvalue
      obtain ⟨t₂, rfl⟩ := List.head?_eq_some_iff.mp ((hat.peek_eq_some (by decide)).mp hpeek)
      rw [List.length_cons] at hfuel
      obtain hrefused | ⟨x, t', values, n, k, hsplit, hx, hcount, hlevel⟩ :=
        object_sound hmembers hat (by omega)
      · exact .inl (hvalue ▸ hrefused)
      · have hlength := congrArg List.length hsplit
        rw [List.length_cons, List.length_append] at hlength
        have hall : p.nodes + (n + 1) ≤ maxNodes := by
          have hle : p.nodes + 1 + n ≤ maxNodes := hcount hnodes
          omega
        rw [hsplit] at h ⊢
        exact .inr ⟨before, x, t', _, n + 1, k, rfl, hbefore, hx, hall, hlevel,
          reads_of_valueText hx _ p before t' h hbefore (fun _ heq => nomatch heq) hall hlevel
            (by omega)⟩
    rw [if_neg hobject] at hvalue
    obtain hrefused | ⟨x, t', v, rfl, hx, hok⟩ := scalar_sound hat byte
    · exact .inl (hvalue ▸ hrefused)
    · refine .inr ⟨before, x, t', v, 1, 0, rfl, hbefore, hx, hnodes, hdepth, ?_⟩
      rw [hvalue, hok, read_skip]

theorem valueSound_one : ValueSound 1 := by
  intro p t h hfuel _
  obtain rfl : t = [] := List.eq_nil_of_length_eq_zero (by omega)
  by_cases hnodes : p.nodes + 1 ≤ maxNodes
  · have hvalue := value_eq_match (w := []) (t := []) h (fun _ h => nomatch h)
      (fun _ h => nomatch h) hnodes 0
    rw [hvalue, (At.read (w := []) h 1).peek_nil]
    exact .inl ⟨_, rfl⟩
  · rw [value]
    exact .inl (countNode_refused hnodes).bind

/-- **Main lemma.** What the parser does not refuse the grammar derives. -/
theorem value_sound (fuel : ℕ) :
    ValueSound fuel ∧ ElementsSound fuel ∧ MembersSound fuel := by
  induction fuel using Nat.strong_induction_on with
  | _ fuel ih =>
    match fuel with
    | 0 =>
      refine ⟨fun p t _ hfuel => ?_, fun p t _ hfuel => ?_, fun p t _ _ hfuel => ?_⟩ <;> omega
    | 1 =>
      refine ⟨valueSound_one, fun p t _ hfuel => ?_, fun p t _ _ hfuel => ?_⟩ <;> omega
    | fuel + 2 =>
      obtain ⟨_, helements, hmembers⟩ := ih fuel (by omega)
      obtain ⟨hvalue, helements', hmembers'⟩ := ih (fuel + 1) (by omega)
      exact ⟨valueSound_succ helements hmembers, elements_sound hvalue helements',
        members_sound hvalue hmembers'⟩

end Parser

theorem length_le_asBytes (t : Text) : t.length ≤ t.asBytes.length := by
  induction t with
  | nil => exact Nat.zero_le _
  | cons c t ih =>
    have hpos := Parser.length_asBytes_pos c
    rw [Text.asBytes_cons, List.length_append, List.length_cons]
    omega

/-- The parser in front of a text. -/
def start (source : Text) : Parser := ⟨source.asBytes, 0, 0, 0⟩

theorem at_start (source : Text) : Parser.At (start source) source := rfl

/-- The end of `parse`, behind the value. -/
theorem parse_eq {source x after t : Text} {v : Value} {n : ℕ} (h : source = x ++ (after ++ t))
    (hafter : Space after) (ht : ∀ c ∈ t.head?, isSpace c = false)
    (hvalue : Parser.value (3 * source.asBytes.length + 1) (start source) =
      .ok (v, (start source).read x n)) :
    (t = [] → parse source = .ok v) ∧ (t ≠ [] → Refused (parse source)) := by
  subst h
  have hat := (Parser.At.read (w := x) (at_start (x ++ (after ++ t))) n).whitespace hafter ht
  have hposition : (((start (x ++ (after ++ t))).read x n).skip after).position =
      x.asBytes.length + after.asBytes.length := by
    show 0 + x.asBytes.length + after.asBytes.length = _
    rw [Nat.zero_add]
  have hlength : (Text.asBytes (x ++ (after ++ t))).length =
      x.asBytes.length + after.asBytes.length + t.asBytes.length := by
    rw [Text.asBytes_append, Text.asBytes_append, List.length_append, List.length_append,
      Nat.add_assoc]
  have hle := length_le_asBytes t
  have hparse : parse (x ++ (after ++ t)) = do
      refuseIf ((((start (x ++ (after ++ t))).read x n).skip after).position ≠
          (Text.asBytes (x ++ (after ++ t))).length)
        ((((start (x ++ (after ++ t))).read x n).skip after).fail "trailing characters")
      return v := by
    rw [parse]
    dsimp only
    rw [show (⟨Text.asBytes (x ++ (after ++ t)), 0, 0, 0⟩ : Parser) = start _ from rfl, hvalue,
      ok_bind]
    dsimp only
    rw [hat]
  rw [hposition, hlength] at hparse
  constructor
  · rintro rfl
    have hzero : (Text.asBytes []).length = 0 := rfl
    rw [hparse, refuseIf_of_not (by omega)]
    rfl
  · intro hne
    have hpos := List.length_pos_iff.mpr hne
    rw [hparse]
    exact (refused_refuseIf (by omega)).bind

theorem space_numberEnd {after : Text} (h : Space after) : Parser.NumberEnd after := fun c hc =>
  Parser.space_endsNumber (h c (List.mem_of_mem_head? hc))

theorem parse_complete {source : Text} {v : Value} {n k : ℕ} (h : JsonText source v n k)
    (hnodes : n ≤ Parser.maxNodes) (hdepth : k ≤ Parser.maxDepth) : parse source = .ok v := by
  obtain ⟨before, x, after, hbefore, hx, hafter, rfl⟩ := h
  have hlength := length_le_asBytes (before ++ (x ++ after))
  rw [List.length_append, List.length_append] at hlength
  have hvalue := Parser.reads_of_valueText hx
    (3 * (Text.asBytes (before ++ (x ++ after))).length + 1) (start _) before after (at_start _)
    hbefore (fun _ _ => space_numberEnd hafter) (show 0 + n ≤ _ by omega)
    (show 0 + k ≤ _ by omega) (by omega)
  exact (parse_eq (t := []) (by rw [List.append_nil, List.append_assoc]) hafter
    (fun _ h => nomatch h) hvalue).1 rfl

/-- A text that is not refused is one of the grammar, within the limits. -/
theorem parse_sound (source : Text) : Refused (parse source) ∨ ∃ v n k,
    JsonText source v n k ∧ n ≤ Parser.maxNodes ∧ k ≤ Parser.maxDepth := by
  have hlength := length_le_asBytes source
  obtain hrefused | ⟨before, x, t, v, n, k, hsplit, hbefore, hx, hnodes, hdepth, hok⟩ :=
    (Parser.value_sound (3 * source.asBytes.length + 1)).1 (start source) source
      (at_start source) (by omega) (Nat.zero_le _)
  · exact .inl hrefused.bind
  have hat : Parser.At ((start source).read (before ++ x) n) t := by
    refine Parser.At.read (w := before ++ x) ?_ n
    rw [List.append_assoc, ← hsplit]
    exact at_start source
  obtain ⟨after, t', rfl, hafter, hhead, _⟩ := hat.whitespace_sound
  have hsource : source = (before ++ x) ++ (after ++ t') := by rw [hsplit, List.append_assoc]
  obtain ⟨_, hrefused⟩ := parse_eq hsource hafter hhead hok
  by_cases hend : t' = []
  · subst hend
    rw [List.append_nil] at hsplit
    have hn : 0 + n ≤ Parser.maxNodes := hnodes
    have hk : 0 + k ≤ Parser.maxDepth := hdepth
    exact .inr ⟨v, n, k, ⟨before, x, after, hbefore, hx, hafter, hsplit⟩, by omega, by omega⟩
  · exact .inl (hrefused hend)

/-- **Main theorem.** The parser accepts the JSON texts whose values are within the limits, with
the value of the text, and refuses every other text. -/
theorem parse_eq_ok_iff (source : Text) (v : Value) :
    (parse source = .ok v ↔
      ∃ nodes depth, JsonText source v nodes depth ∧ nodes ≤ 1000000 ∧ depth ≤ 128) ∧
    parse source ≠ .error .outOfFuel := by
  obtain ⟨e, hrefused⟩ | ⟨v', n, k, hjson, hnodes, hdepth⟩ := parse_sound source
  · rw [hrefused]
    refine ⟨⟨?_, ?_⟩, fun hfuel => nomatch hfuel⟩
    · intro hok
      cases hok
    · rintro ⟨n, k, hjson, hnodes, hdepth⟩
      rw [parse_complete hjson hnodes hdepth] at hrefused
      cases hrefused
  · rw [parse_complete hjson hnodes hdepth]
    refine ⟨⟨?_, ?_⟩, fun hfuel => nomatch hfuel⟩
    · intro hok
      obtain rfl := Except.ok.inj hok
      exact ⟨n, k, hjson, hnodes, hdepth⟩
    · rintro ⟨n', k', hjson', hnodes', hdepth'⟩
      rw [← parse_complete hjson hnodes hdepth]
      exact parse_complete hjson' hnodes' hdepth'

end Mrml.Json
