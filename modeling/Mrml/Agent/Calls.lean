import Mrml.Agent.Repair

/-!
# The parser of calls does not panic

Results:
* `splitKwargs_returns`, `parseKwargsToJson_returns`: keyword arguments are split and written as
  JSON, whatever the text is.
* `parseGemmaToolCall_returns_iff`: the texts on which the parser of calls returns: all but those
  whose last closing parenthesis is in front of the first opening one.
-/

namespace Mrml.Agent

open Text Json

/-! ## Relaxed JSON -/

theorem fromStr_returns (text : Text) : ∃ value, fromStr text = .ok value := by
  obtain ⟨e, hrefused⟩ | ⟨v, n, k, hjson, hn, hk⟩ := parse_sound text
  · exact ⟨none, by unfold fromStr; rw [hrefused]⟩
  · exact ⟨some v, by unfold fromStr; rw [parse_complete hjson hn hk]⟩

theorem normalizeRelaxedJson_returns (raw : Text) : ∃ out, normalizeRelaxedJson raw = .ok out := by
  unfold normalizeRelaxedJson
  dsimp only
  generalize markers.foldl _ (trim raw) = s
  obtain ⟨value, hvalue⟩ := fromStr_returns s
  rw [hvalue]
  cases value with
  | some v => exact ⟨_, rfl⟩
  | none =>
    obtain ⟨keys, hkeys, -⟩ := quoteRelaxedKeys_spec s
    obtain ⟨value, hvalue⟩ := fromStr_returns keys
    show ∃ out, (quoteRelaxedKeys s >>= _) = _
    rw [hkeys]
    show ∃ out, (fromStr keys >>= _) = _
    rw [hvalue]
    cases value with
    | some v => exact ⟨_, rfl⟩
    | none =>
      obtain ⟨value, hvalue⟩ := fromStr_returns (repaired .plain keys)
      show ∃ out, (quoteRelaxedValues keys >>= _) = _
      rw [quoteRelaxedValues_eq]
      show ∃ out, (fromStr (repaired .plain keys) >>= _) = _
      rw [hvalue]
      cases value with
      | some v => exact ⟨_, rfl⟩
      | none => exact ⟨_, rfl⟩

/-! ## Keyword arguments -/

/-- **Run lemma.** Each part begins and ends at a boundary. -/
theorem splitLoop_returns (input : Text) (bytes : List UInt8) (index start : ℕ)
    (quote : Option UInt8) (parts : List Text) (hbytes : bytes = (asBytes input).drop index)
    (hle : start ≤ index) (hstart : isCharBoundary input start = true)
    (hindex : index ≤ (asBytes input).length) :
    ∃ last parts', splitLoop input bytes index start quote parts = .ok (last, parts') ∧
      isCharBoundary input last = true ∧ last ≤ (asBytes input).length := by
  induction bytes generalizing index start quote parts with
  | nil => exact ⟨start, parts, rfl, hstart, hle.trans hindex⟩
  | cons byte bytes ih =>
    have hget : (asBytes input)[index]? = some byte := by
      rw [← Nat.add_zero index, ← List.getElem?_drop, ← hbytes]
      rfl
    have hlt := (List.getElem?_eq_some_iff.mp hget).1
    have hrest : bytes = (asBytes input).drop (index + 1) :=
      (List.cons.inj (hbytes.trans (drop_of_getElem? hget))).2
    unfold splitLoop
    cases quote with
    | some delimiter => exact ih _ _ _ _ hrest (by omega) hstart (by omega)
    | none =>
      dsimp only
      split_ifs with hquote hcomma
      · exact ih _ _ _ _ hrest (by omega) hstart (by omega)
      · subst hcomma
        obtain ⟨hboundary, hnext⟩ := isCharBoundary_of_ascii hget (by decide)
        obtain ⟨part, hpart, -⟩ := sliceStr_boundaries (ε := Empty) hle hstart hboundary
        rw [hpart]
        exact ih _ _ _ _ hrest le_rfl hnext (by omega)
      · exact ih _ _ _ _ hrest (by omega) hstart (by omega)

theorem isCharBoundary_zero (text : Text) : isCharBoundary text 0 = true :=
  isCharBoundary_append [] text

theorem isCharBoundary_length (text : Text) : isCharBoundary text (asBytes text).length = true := by
  have h := isCharBoundary_append text []
  rwa [List.append_nil] at h

theorem splitKwargs_returns (input : Text) : ∃ parts, splitKwargs input = .ok parts := by
  obtain ⟨start, parts, hloop, hstart, hle⟩ := splitLoop_returns input (asBytes input) 0 0 none []
    rfl le_rfl (isCharBoundary_zero input) (Nat.zero_le _)
  obtain ⟨part, hpart, -⟩ := sliceStr_boundaries (ε := Empty) hle hstart
    (isCharBoundary_length input)
  refine ⟨parts ++ [trim part], ?_⟩
  unfold splitKwargs
  rw [hloop]
  show (sliceStr input start _ >>= _) = _
  rw [hpart]
  rfl

/-- A text in quotes has boundaries behind the first and in front of the last. -/
theorem sliceStr_quoted {text : Text} {quote : Char} (hquote : quote.toNat < 0x80)
    (hlength : 2 ≤ (asBytes text).length) (hfirst : text.head? = some quote)
    (hlast : text.getLast? = some quote) :
    ∃ part, sliceStr text 1 ((asBytes text).length - 1) =
      (.ok part : Except (Fault Empty) Text) := by
  have hone : (asBytes [quote]).length = 1 := by
    rw [asBytes_of_ascii (List.forall_mem_singleton.mpr (Nat.le_of_lt_succ hquote))]
    rfl
  have hstart : isCharBoundary text 1 = true := by
    obtain ⟨rest, rfl⟩ := List.head?_eq_some_iff.mp hfirst
    have h := isCharBoundary_append [quote] rest
    rwa [hone] at h
  have hstop : isCharBoundary text ((asBytes text).length - 1) = true := by
    obtain ⟨front, rfl⟩ := List.getLast?_eq_some_iff.mp hlast
    have h := isCharBoundary_append front [quote]
    rwa [asBytes_append, List.length_append, hone, Nat.add_sub_cancel]
  obtain ⟨part, hpart, -⟩ := sliceStr_boundaries (ε := Empty) (by omega) hstart hstop
  exact ⟨part, hpart⟩

theorem insertArgument_returns (map : List (Text × Value)) (part : Text) :
    ∃ map', insertArgument map part = .ok map' := by
  unfold insertArgument
  cases splitOnce '=' part with
  | none => exact ⟨map, rfl⟩
  | some pair =>
    dsimp only
    split_ifs with hname hquoted
    · exact ⟨map, rfl⟩
    · obtain ⟨hlength, ⟨hfirst, hlast⟩ | ⟨hfirst, hlast⟩⟩ := hquoted
      all_goals
        obtain ⟨value, hvalue⟩ := sliceStr_quoted (by decide) hlength hfirst hlast
        rw [hvalue]
        exact ⟨_, rfl⟩
    · exact ⟨_, rfl⟩

theorem parseKwargsToJson_returns (args : Text) : ∃ out, parseKwargsToJson args = .ok out := by
  have hfold (parts : List Text) (map : List (Text × Value)) :
      ∃ map', parts.foldlM insertArgument map = .ok map' := by
    induction parts generalizing map with
    | nil => exact ⟨map, rfl⟩
    | cons part parts ih =>
      obtain ⟨map', hmap⟩ := insertArgument_returns map part
      obtain ⟨final, hfinal⟩ := ih map'
      refine ⟨final, ?_⟩
      rw [List.foldlM_cons, hmap]
      exact hfinal
  obtain ⟨parts, hparts⟩ := splitKwargs_returns args
  obtain ⟨map, hmap⟩ := hfold parts []
  refine ⟨stringify (.object map), ?_⟩
  unfold parseKwargsToJson
  rw [hparts]
  show (parts.foldlM insertArgument [] >>= _) = _
  rw [hmap]
  rfl

/-! ## Calls -/

/-- A text without a brace in which all closing parentheses, and there are some, are in front of
the first opening one. -/
def Backward (text : Text) : Prop :=
  '\x7b' ∉ text ∧ '(' ∈ text ∧ ')' ∈ text.takeWhile (fun c => c != '(') ∧
    ')' ∉ text.dropWhile (fun c => c != '(')

instance (text : Text) : Decidable (Backward text) := inferInstanceAs (Decidable (_ ∧ _ ∧ _ ∧ _))

theorem backward_iff {a b : Text} (ha : '(' ∉ a) (hbrace : '\x7b' ∉ a ++ '(' :: b) :
    Backward (a ++ '(' :: b) ↔ ')' ∈ a ∧ ')' ∉ b := by
  have hsplit := List.takeWhile_append_dropWhile (p := fun c => c != '(') (l := a ++ '(' :: b)
  have hdrop : (a ++ '(' :: b).dropWhile (fun c => c != '(') = '(' :: b := by
    rw [takeWhile_ne ha] at hsplit
    exact List.append_cancel_left hsplit
  have hmem : '(' ∈ a ++ '(' :: b := List.mem_append_right _ List.mem_cons_self
  rw [Backward, takeWhile_ne ha, hdrop, List.mem_cons, or_iff_right (by decide)]
  exact ⟨fun h => h.2.2, fun h => ⟨hbrace, hmem, h⟩⟩

/-- A slice that ends in front of where it begins. -/
theorem sliceStr_backward {text : Text} {start stop : ℕ} (h : stop < start) :
    (sliceStr text start stop : Except (Fault Empty) Text) = .error .panic :=
  if_neg fun hle => absurd hle.1 (by omega)

theorem parseNamedCall_returns_iff (millis : ℕ) (text : Text) :
    (∃ call, parseNamedCall millis text = .ok call) ↔ ¬Backward text := by
  unfold parseNamedCall
  cases hbrace : find '\x7b' text with
  | some bracePos =>
    obtain ⟨a, b, rfl, -, rfl⟩ := find_eq_some.mp hbrace
    refine iff_of_true ?_ fun h => h.1 (List.mem_append_right _ List.mem_cons_self)
    have hpos := isCharBoundary_append a ('\x7b' :: b)
    obtain ⟨name, hname, -⟩ := sliceStr_boundaries (ε := Empty) (Nat.zero_le _)
      (isCharBoundary_zero _) hpos
    obtain ⟨args, hargs, -⟩ := sliceStr_boundaries (ε := Empty)
      (by rw [asBytes_append, List.length_append]; omega) hpos (isCharBoundary_length _)
    obtain ⟨out, hout⟩ := normalizeRelaxedJson_returns args
    dsimp only
    rw [hname]
    show ∃ call, (sliceStr (a ++ '\x7b' :: b) _ _ >>= _) = _
    rw [hargs]
    show ∃ call, (if trim name ≠ [] then (normalizeRelaxedJson args >>= _) else _) = _
    rw [hout]
    split_ifs <;> exact ⟨_, rfl⟩
  | none =>
    have hnone := find_eq_none.mp hbrace
    cases hparen : find '(' text with
    | none => exact iff_of_true ⟨none, rfl⟩ fun h => find_eq_none.mp hparen h.2.1
    | some parenPos =>
      obtain ⟨a, b, rfl, ha, rfl⟩ := find_eq_some.mp hparen
      rw [backward_iff ha hnone]
      obtain ⟨name, hname, -⟩ := sliceStr_boundaries (ε := Empty) (Nat.zero_le _)
        (isCharBoundary_zero _) (isCharBoundary_append a ('(' :: b))
      have hlength : (asBytes (a ++ ['('])).length = (asBytes a).length + 1 := by
        rw [asBytes_append, List.length_append]
        rfl
      have hstart : isCharBoundary (a ++ '(' :: b) ((asBytes a).length + 1) = true := by
        have h := isCharBoundary_append (a ++ ['(']) b
        rwa [hlength, List.append_assoc] at h
      -- what is done with the text behind the parenthesis
      have hcall {stop : ℕ} (hle : (asBytes a).length + 1 ≤ stop)
          (hstop : isCharBoundary (a ++ '(' :: b) stop = true) : ∃ call, (do
            let argsPart ← sliceStr (a ++ '(' :: b) ((asBytes a).length + 1) stop
            if trim name ≠ [] then
              return some (toolCall millis (trim name) (← parseKwargsToJson argsPart))
            else return none : Except (Fault Empty) (Option ToolCall)) = .ok call := by
        obtain ⟨args, hargs, -⟩ := sliceStr_boundaries (ε := Empty) hle hstart hstop
        obtain ⟨out, hout⟩ := parseKwargsToJson_returns args
        rw [hargs]
        show ∃ call, (if trim name ≠ [] then (parseKwargsToJson args >>= _) else _) = _
        rw [hout]
        split_ifs <;> exact ⟨_, rfl⟩
      dsimp only
      rw [hname]
      cases hclose : rfind ')' (a ++ '(' :: b) with
      | none =>
        refine iff_of_true (hcall ?_ (isCharBoundary_length _)) fun h => ?_
        · rw [← hlength, ← List.singleton_append (l := b), ← List.append_assoc,
            asBytes_append (a ++ ['(']), List.length_append]
          exact Nat.le_add_right _ _
        · rw [rfind, if_pos (List.mem_append_left _ h.1)] at hclose
          cases hclose
      | some endParen =>
        obtain ⟨a', b', hsplit, hb', rfl⟩ := rfind_eq_some.mp hclose
        obtain ⟨c, rfl, hrest⟩ | ⟨c, rfl, hrest⟩ := List.append_eq_append_iff.mp hsplit
        · cases c with
          | nil => exact absurd (List.cons.inj hrest).1 (by decide)
          | cons d c =>
            obtain ⟨rfl, rfl⟩ := List.cons.inj hrest
            refine iff_of_true (hcall ?_ ?_) fun h => ?_
            · rw [asBytes_append, List.length_append, asBytes_cons, List.length_append]
              exact Nat.add_le_add_left (Nat.le_add_right 1 _) _
            · rw [hsplit]
              exact isCharBoundary_append _ _
            · exact h.2 (List.mem_append_right _ List.mem_cons_self)
        · cases c with
          | nil => exact absurd (List.cons.inj hrest).1 (by decide)
          | cons d c =>
            obtain ⟨rfl, rfl⟩ := List.cons.inj hrest
            refine iff_of_false ?_ (not_not_intro ⟨List.mem_append_right _ List.mem_cons_self,
              fun h => hb' (List.mem_append_right _ (List.mem_cons_of_mem _ h))⟩)
            rintro ⟨call, h⟩
            have hpanic : (sliceStr ((a' ++ ')' :: c) ++ '(' :: b)
                ((asBytes (a' ++ ')' :: c)).length + 1) (asBytes a').length :
                Except (Fault Empty) Text) = .error .panic := by
              refine sliceStr_backward ?_
              rw [asBytes_append, List.length_append]
              omega
            change (sliceStr _ _ _ >>= _) = _ at h
            rw [Option.getD_some, hpanic] at h
            cases h

/-! ## Markers and whitespace -/

variable {c : Char} {text : Text}

/-- Whitespace is all that is taken off a text. -/
theorem mem_trim (hc : isWhitespace c = false) (h : c ∈ text) : c ∈ trim text := by
  have hdrop : c ∈ text.dropWhile isWhitespace := by
    rw [← List.takeWhile_append_dropWhile (p := isWhitespace) (l := text)] at h
    refine (List.mem_append.mp h).resolve_left fun hmem => ?_
    rw [List.mem_takeWhile_imp hmem] at hc
    cases hc
  have hsplit : trim text ++ (text.dropWhile isWhitespace).rtakeWhile isWhitespace =
      text.dropWhile isWhitespace := List.rdropWhile_append_rtakeWhile
  rw [← hsplit] at hdrop
  refine (List.mem_append.mp hdrop).resolve_right fun hmem => ?_
  rw [List.mem_rtakeWhile_imp hmem] at hc
  cases hc

theorem mem_trimStartMatches {pattern : Text} (hc : c ∉ pattern) (h : c ∈ text) :
    c ∈ trimStartMatches pattern text := by
  unfold trimStartMatches
  generalize text.length = fuel
  induction fuel generalizing text with
  | zero => exact h
  | succ fuel ih =>
    unfold trimStartLoop
    cases hstrip : stripPrefix pattern text with
    | none => exact h
    | some rest =>
      rw [stripPrefix_eq_some.mp hstrip] at h
      exact ih ((List.mem_append.mp h).resolve_left hc)

/-- A call that is written as JSON has a brace. -/
theorem brace_mem_of_jsonCall {v : Value} {call : Text × Text} (hparse : parse text = .ok v)
    (hcall : jsonCall v = some call) : '\x7b' ∈ strippedCall text := by
  have hmem : '\x7b' ∈ text := by
    obtain ⟨e, hrefused⟩ | ⟨v', n, k, ⟨before, x, after, hbefore, hx, hafter, rfl⟩, hn, hk⟩ :=
      parse_sound text
    · rw [hrefused] at hparse
      cases hparse
    · rw [parse_complete ⟨before, x, after, hbefore, hx, hafter, rfl⟩ hn hk] at hparse
      obtain rfl := Except.ok.inj hparse
      refine List.mem_append_right _ (List.mem_append_left _ ?_)
      cases hx with
      | emptyObject | object => exact List.mem_cons_self
      | _ => cases hcall
  exact mem_trim (by decide) (mem_trimStartMatches (by decide) hmem)

/-- **Main theorem.** The parser of calls returns on a text, with a call or with none, if and only
if the text without the markers of a call has a brace, or no parentheses, or one that closes
behind one that opens. -/
theorem parseGemmaToolCall_returns_iff (millis : ℕ) (raw : Text) :
    (∃ call, parseGemmaToolCall millis raw = .ok call) ↔
      ¬Backward (strippedCall (callText raw)) := by
  unfold parseGemmaToolCall
  generalize callText raw = text
  dsimp only
  split_ifs with hempty
  · subst hempty
    exact iff_of_true ⟨none, rfl⟩ (by decide)
  · cases hparse : fromStr text with
    | error fault =>
      obtain ⟨value, hvalue⟩ := fromStr_returns text
      rw [hvalue] at hparse
      cases hparse
    | ok value =>
      cases hcall : value.bind jsonCall with
      | none =>
        refine Iff.trans (exists_congr fun call => ?_) (parseNamedCall_returns_iff millis _)
        dsimp only [bind, Except.bind]
        rw [hcall]
      | some pair =>
        refine iff_of_true ⟨some (toolCall millis pair.1 pair.2), ?_⟩ fun h => h.1 ?_
        · dsimp only [bind, Except.bind]
          rw [hcall]
          rfl
        · obtain ⟨v, rfl, hv⟩ := Option.bind_eq_some_iff.mp hcall
          refine brace_mem_of_jsonCall ?_ hv
          unfold fromStr at hparse
          split at hparse
          · rename_i hok
            obtain rfl := Option.some.inj (Except.ok.inj hparse)
            exact hok
          · cases hparse
          · cases hparse

/-- A closing parenthesis in front of the first opening one. -/
theorem parseGemmaToolCall_panics :
    parseGemmaToolCall 0 "a) or b(".toList = .error .panic := by
  rfl

end Mrml.Agent
