import Mrml.Agent.ToolCall

/-!
# The scanners of a call, byte by byte

Results:
* `Inserts`: a text is another one with quotes put into it.
* `quoteRelaxedKeys_spec`: the scanner of keys puts quotes into the bytes of its text.
* `quoteRelaxedKeys_inserts_iff`: these are the characters of the text only if it is ASCII.
-/

namespace Mrml.Agent

open Text

/-! ## Bytes and characters -/

theorem byteChar_of_ascii {c : Char} (h : c.toNat ≤ 0x7f) : byteChar (UInt8.ofNat c.toNat) = c := by
  rw [byteChar, UInt8.toNat_ofNat', Nat.mod_eq_of_lt (by omega), Char.ofNat_toNat]

/-- The characters of a text whose bytes are ASCII. -/
theorem map_byteChar_of_ascii {text : Text} (h : ∀ byte ∈ asBytes text, byte.toNat < 0x80) :
    (asBytes text).map byteChar = text := by
  induction text with
  | nil => rfl
  | cons c text ih =>
    rw [asBytes_cons] at h
    obtain ⟨byte, bytes, hc, -⟩ := utf8EncodeChar_eq_cons c
    have hbyte : byte ∈ String.utf8EncodeChar c := by rw [hc]; exact List.mem_cons_self
    have hascii := ((mem_utf8EncodeChar hbyte).resolve_right
      (by have := h byte (List.mem_append_left _ hbyte); omega)).1
    rw [asBytes_cons, List.map_append, ih fun b hb => h b (List.mem_append_right _ hb),
      utf8EncodeChar_of_ascii hascii, List.map_singleton, byteChar_of_ascii hascii]
    rfl

/-- A slice whose bytes are ASCII, from a boundary on. -/
theorem sliceStr_ascii {input : Text} {start stop : ℕ} (hle : start ≤ stop)
    (hstop : stop ≤ (asBytes input).length) (hstart : isCharBoundary input start = true)
    (h : ∀ byte ∈ slice (asBytes input) start (stop - start), byte.toNat < 0x80) :
    sliceStr input start stop =
      (.ok ((slice (asBytes input) start (stop - start)).map byteChar) : Except (Fault Empty) Text) ∧
    isCharBoundary input stop = true := by
  have hboundary : isCharBoundary input stop = true := by
    obtain rfl | hlt := Nat.eq_or_lt_of_le hle
    · exact hstart
    · obtain ⟨last, rfl⟩ := Nat.exists_eq_succ_of_ne_zero (Nat.ne_zero_of_lt hlt)
      have hget : (asBytes input)[last]? = some (asBytes input)[last] :=
        List.getElem?_eq_getElem (by omega)
      refine (isCharBoundary_of_ascii hget (h _ ?_)).2
      refine List.mem_of_getElem? (i := last - start) ?_
      rw [slice, List.getElem?_take_of_lt (by omega), List.getElem?_drop,
        Nat.add_sub_cancel' (by omega), hget]
  obtain ⟨part, hpart, hbytes⟩ := sliceStr_boundaries (ε := Empty) hle hstart hboundary
  refine ⟨?_, hboundary⟩
  have hslice : asBytes part = slice (asBytes input) start (stop - start) := hbytes
  rw [hpart, ← hslice, map_byteChar_of_ascii (by rwa [hslice])]

/-! ## Runs of bytes -/

variable {p : UInt8 → Bool} {bytes : List UInt8} {index : ℕ}

theorem le_scanWhile : index ≤ scanWhile p bytes index := Nat.le_add_right _ _

theorem slice_scanWhile (p : UInt8 → Bool) (bytes : List UInt8) (index : ℕ) :
    slice bytes index (scanWhile p bytes index - index) = (bytes.drop index).takeWhile p := by
  rw [slice, scanWhile, Nat.add_sub_cancel_left]
  exact (List.prefix_iff_eq_take.mp (List.takeWhile_prefix p)).symm

theorem drop_scanWhile (p : UInt8 → Bool) (bytes : List UInt8) (index : ℕ) :
    bytes.drop (scanWhile p bytes index) = (bytes.drop index).dropWhile p := by
  have hsplit := List.take_append_drop ((bytes.drop index).takeWhile p).length (bytes.drop index)
  have hsplit' := List.takeWhile_append_dropWhile (p := p) (l := bytes.drop index)
  rw [← List.prefix_iff_eq_take.mp (List.takeWhile_prefix p)] at hsplit
  rw [scanWhile, ← List.drop_drop]
  exact List.append_cancel_left (hsplit.trans hsplit'.symm)

/-- What is left at an index is the run from there and what is left behind it. -/
theorem drop_eq_scanWhile (p : UInt8 → Bool) (bytes : List UInt8) (index : ℕ) :
    bytes.drop index = slice bytes index (scanWhile p bytes index - index) ++
      bytes.drop (scanWhile p bytes index) := by
  rw [slice_scanWhile, drop_scanWhile, List.takeWhile_append_dropWhile]

theorem scanWhile_le (h : index ≤ bytes.length) : scanWhile p bytes index ≤ bytes.length := by
  have hle := (List.takeWhile_prefix (l := bytes.drop index) p).length_le
  rw [List.length_drop] at hle
  unfold scanWhile
  omega

theorem scanWhile_succ {byte : UInt8} (hget : bytes[index]? = some byte) (hp : p byte = true) :
    scanWhile p bytes (index + 1) = scanWhile p bytes index := by
  have hdrop : bytes.drop index = byte :: bytes.drop (index + 1) := by
    obtain ⟨hlt, rfl⟩ := List.getElem?_eq_some_iff.mp hget
    exact List.drop_eq_getElem_cons hlt
  unfold scanWhile
  rw [hdrop, List.takeWhile_cons_of_pos hp, List.length_cons]
  omega

theorem mem_slice_scanWhile {byte : UInt8}
    (h : byte ∈ slice bytes index (scanWhile p bytes index - index)) : p byte = true := by
  rw [slice_scanWhile] at h
  exact List.mem_takeWhile_imp h

theorem ascii_of_isWhitespaceByte {byte : UInt8} (h : isWhitespaceByte byte = true) :
    byte.toNat < 0x80 := by
  simp only [isWhitespaceByte, Bool.or_eq_true, beq_iff_eq] at h
  obtain (((rfl | rfl) | rfl) | rfl) | rfl := h <;> decide

theorem ascii_of_isAlphabeticByte {byte : UInt8} (h : isAlphabeticByte byte = true) :
    byte.toNat < 0x80 := by
  simp only [isAlphabeticByte, Bool.or_eq_true, Bool.and_eq_true, decide_eq_true_eq,
    UInt8.le_iff_toNat_le] at h
  have hz : 'z'.toUInt8.toNat = 122 := rfl
  have hZ : 'Z'.toUInt8.toNat = 90 := rfl
  omega

theorem ascii_of_isAlphanumericByte {byte : UInt8} (h : isAlphanumericByte byte = true) :
    byte.toNat < 0x80 := by
  rw [isAlphanumericByte, Bool.or_eq_true, Bool.and_eq_true, decide_eq_true_eq] at h
  obtain h | h := h
  · exact ascii_of_isAlphabeticByte h
  · have hle := UInt8.le_iff_toNat_le.mp (decide_eq_true_eq.mp h.2)
    have h9 : '9'.toUInt8.toNat = 57 := rfl
    omega

/-! ## Quotes put into a text -/

/-- `output` is `input` with quotes put into it. -/
inductive Inserts : Text → Text → Prop
  | nil : Inserts [] []
  | keep {input output : Text} (c : Char) (h : Inserts input output) :
      Inserts (c :: input) (c :: output)
  | quote {input output : Text} (h : Inserts input output) : Inserts input ('"' :: output)

theorem Inserts.refl (text : Text) : Inserts text text := by
  induction text with
  | nil => exact .nil
  | cons c text ih => exact .keep c ih

theorem Inserts.append {a b a' b' : Text} (h : Inserts a b) (h' : Inserts a' b') :
    Inserts (a ++ a') (b ++ b') := by
  induction h with
  | nil => exact h'
  | keep c _ ih => exact .keep c ih
  | quote _ ih => exact .quote ih

theorem Inserts.quoted (text : Text) : Inserts text ('"' :: (text ++ ['"'])) := by
  have h := (Inserts.refl text).append (.quote .nil)
  rw [List.append_nil] at h
  exact .quote h

/-- The characters of a text that are not quotes. -/
def unquoted (text : Text) : Text := text.filter fun c => c != '"'

/-- Without their quotes the texts are the same. -/
theorem Inserts.unquoted_eq {input output : Text} (h : Inserts input output) :
    unquoted output = unquoted input := by
  unfold unquoted
  induction h with
  | nil => rfl
  | keep c _ ih => rw [List.filter_cons, List.filter_cons, ih]
  | quote _ ih => rw [List.filter_cons_of_neg (by decide), ih]

/-! ## The scanner of keys -/

/-- A scanner that has gone over a part of the bytes and over the rest of them. -/
theorem Inserts.of_drop {part : List UInt8} {next : ℕ} {pre out : Text}
    (hdrop : bytes.drop index = part ++ bytes.drop next) (hpre : Inserts (part.map byteChar) pre)
    (hout : Inserts ((bytes.drop next).map byteChar) out) :
    Inserts ((bytes.drop index).map byteChar) (pre ++ out) := by
  rw [hdrop, List.map_append]
  exact hpre.append hout

theorem drop_of_getElem? {byte : UInt8} (h : bytes[index]? = some byte) :
    bytes.drop index = [byte] ++ bytes.drop (index + 1) := by
  obtain ⟨hlt, rfl⟩ := List.getElem?_eq_some_iff.mp h
  exact List.drop_eq_getElem_cons hlt

/-- A name and the whitespace behind it are slices at boundaries. -/
theorem sliceStr_name {input : Text} {start stop next : ℕ}
    (hname : (asBytes input)[start]?.any (fun b => isAlphabeticByte b || b == '_'.toUInt8) = true)
    (hstop : stop = scanWhile (fun b => isAlphanumericByte b || b == '_'.toUInt8) (asBytes input)
      (start + 1))
    (hnext : next = scanWhile isWhitespaceByte (asBytes input) stop) :
    start < stop ∧ stop ≤ next ∧ next ≤ (asBytes input).length ∧
    ∃ key space, (asBytes input).drop start = (key ++ space) ++ (asBytes input).drop next ∧
      (sliceStr input start stop : Except (Fault Empty) Text) = .ok (key.map byteChar) ∧
      (sliceStr input stop next : Except (Fault Empty) Text) = .ok (space.map byteChar) ∧
      (sliceStr input start next : Except (Fault Empty) Text) =
        .ok ((key ++ space).map byteChar) := by
  obtain ⟨first, hfirst, hletter⟩ := Option.any_eq_true _ _ |>.mp hname
  have hp : (isAlphanumericByte first || first == '_'.toUInt8) = true := by
    rw [isAlphanumericByte, Bool.or_assoc, Bool.or_left_comm, hletter, Bool.or_true]
  have hlt : start < (asBytes input).length := (List.getElem?_eq_some_iff.mp hfirst).1
  have hstople : stop ≤ (asBytes input).length := by
    rw [hstop]
    exact scanWhile_le hlt
  have hnextle : next ≤ (asBytes input).length := by
    rw [hnext]
    exact scanWhile_le hstople
  have hstartlt : start < stop := by
    rw [hstop]
    exact le_scanWhile
  have hstopnext : stop ≤ next := by
    rw [hnext]
    exact le_scanWhile
  rw [scanWhile_succ hfirst hp] at hstop
  -- all of these bytes are ASCII
  have hkey : ∀ byte ∈ slice (asBytes input) start (stop - start), byte.toNat < 0x80 := by
    intro byte hbyte
    rw [hstop] at hbyte
    obtain h | h := Bool.or_eq_true _ _ |>.mp (mem_slice_scanWhile hbyte)
    · exact ascii_of_isAlphanumericByte h
    · rw [eq_of_beq h]
      decide
  have hspace : ∀ byte ∈ slice (asBytes input) stop (next - stop), byte.toNat < 0x80 := by
    intro byte hbyte
    rw [hnext] at hbyte
    exact ascii_of_isWhitespaceByte (mem_slice_scanWhile hbyte)
  have hsplit : slice (asBytes input) start (next - start) =
      slice (asBytes input) start (stop - start) ++ slice (asBytes input) stop (next - stop) := by
    have hlength : next - start = (stop - start) + (next - stop) := by omega
    rw [slice, hlength, List.take_add, List.drop_drop, Nat.add_sub_cancel' hstartlt.le, slice, slice]
  have hboundary : isCharBoundary input start = true := by
    refine (isCharBoundary_of_ascii hfirst (hkey _ ?_)).1
    rw [slice, drop_of_getElem? hfirst, List.singleton_append,
      ← Nat.succ_pred_eq_of_pos (Nat.sub_pos_of_lt hstartlt), List.take_succ_cons]
    exact List.mem_cons_self
  obtain ⟨hkeyslice, hstopboundary⟩ := sliceStr_ascii hstartlt.le hstople hboundary hkey
  have hspaceslice := (sliceStr_ascii hstopnext hnextle hstopboundary hspace).1
  have hboth := (sliceStr_ascii (hstartlt.le.trans hstopnext) hnextle hboundary (by
    rw [hsplit]
    exact List.forall_mem_append.mpr ⟨hkey, hspace⟩)).1
  refine ⟨hstartlt, hstopnext, hnextle, _, _, ?_, hkeyslice, hspaceslice, ?_⟩
  · have hrest : (asBytes input).drop start = slice (asBytes input) start (stop - start) ++
        (asBytes input).drop stop := by
      rw [hstop]
      exact drop_eq_scanWhile _ _ _
    have hrest' : (asBytes input).drop stop = slice (asBytes input) stop (next - stop) ++
        (asBytes input).drop next := by
      rw [hnext]
      exact drop_eq_scanWhile _ _ _
    rw [List.append_assoc, ← hrest', ← hrest]
  · rw [hboth, hsplit]

/-- **Run lemma.** From any place the scanner of keys comes to the end of the bytes and has put
quotes into them. -/
theorem keysLoop_spec (input : Text) (fuel index : ℕ) (quote : Option UInt8) (output : Text)
    (hindex : index ≤ (asBytes input).length) (hfuel : (asBytes input).length < fuel + index) :
    ∃ out, keysLoop input (asBytes input) fuel index quote output = .ok (output ++ out) ∧
      Inserts (((asBytes input).drop index).map byteChar) out := by
  induction fuel generalizing index quote output with
  | zero => omega
  | succ fuel ih =>
    unfold keysLoop
    cases hget : (asBytes input)[index]? with
    | none =>
      refine ⟨[], by rw [List.append_nil], ?_⟩
      rw [List.drop_eq_nil_of_le (List.getElem?_eq_none_iff.mp hget)]
      exact .nil
    | some byte =>
      have hlt : index < (asBytes input).length := (List.getElem?_eq_some_iff.mp hget).1
      have hdrop := drop_of_getElem? hget
      have hplain (quote : Option UInt8) : ∃ out, keysLoop input (asBytes input) fuel (index + 1)
          quote (output ++ [byteChar byte]) = .ok (output ++ out) ∧
          Inserts (((asBytes input).drop index).map byteChar) out := by
        obtain ⟨out, hout, hinserts⟩ := ih (index + 1) quote (output ++ [byteChar byte])
          (by omega) (by omega)
        exact ⟨byteChar byte :: out, by rw [hout, List.append_assoc]; rfl,
          .of_drop hdrop (.refl [byteChar byte]) hinserts⟩
      cases quote with
      | some delimiter => exact hplain _
      | none =>
        dsimp only
        split_ifs with hquote hopen hname hcolon
        · exact hplain _
        · exact hplain _
        -- a brace or a comma, and the name behind it
        all_goals
          set start := scanWhile isWhitespaceByte (asBytes input) (index + 1) with hstart
          have hstartle : start ≤ (asBytes input).length := scanWhile_le (by omega)
          have hindexle : index + 1 ≤ start := le_scanWhile
          have hpre : (asBytes input).drop index =
              (byte :: slice (asBytes input) (index + 1) (start - (index + 1))) ++
                (asBytes input).drop start := by
            rw [hdrop, drop_eq_scanWhile isWhitespaceByte _ (index + 1)]
            rfl
        · obtain ⟨hlt', hle', hnextle, key, space, hrest, hkey, hspace, -⟩ :=
            sliceStr_name hname rfl rfl
          set next := scanWhile isWhitespaceByte (asBytes input)
            (scanWhile (fun b => isAlphanumericByte b || b == '_'.toUInt8) (asBytes input)
              (start + 1)) with hnext
          have hlast := drop_of_getElem? hcolon
          obtain ⟨out, hout, hinserts⟩ := ih (next + 1) none _ (by
            have := (List.getElem?_eq_some_iff.mp hcolon).1
            omega) (by omega)
          have hinsert : Inserts (((key ++ space) ++ [':'.toUInt8]).map byteChar)
              ('"' :: (key.map byteChar ++ '"' :: (space.map byteChar ++ [':']))) := by
            rw [List.map_append, List.map_append, List.append_assoc]
            exact .quote ((Inserts.refl _).append (.quote (.refl _)))
          rw [hlast, ← List.append_assoc] at hrest
          rw [hkey, hspace]
          exact ⟨_, hout.trans (congrArg _ ((List.append_assoc _ _ _).trans
            (List.append_assoc _ _ _))), .of_drop hpre (.refl _) (.of_drop hrest hinsert hinserts)⟩
        · obtain ⟨hlt', hle', hnextle, key, space, hrest, -, -, hboth⟩ :=
            sliceStr_name hname rfl rfl
          obtain ⟨out, hout, hinserts⟩ := ih _ none _ hnextle (by omega)
          rw [hboth]
          exact ⟨_, hout.trans (congrArg _ ((List.append_assoc _ _ _).trans
            (List.append_assoc _ _ _))), .of_drop hpre (.refl _) (.of_drop hrest (.refl _) hinserts)⟩
        · obtain ⟨out, hout, hinserts⟩ := ih start none (output ++ byteChar byte ::
            (slice (asBytes input) (index + 1) (start - (index + 1))).map byteChar)
            hstartle (by omega)
          exact ⟨_, hout.trans (congrArg _ (List.append_assoc _ _ _)), .of_drop hpre (.refl _) hinserts⟩

end Mrml.Agent
