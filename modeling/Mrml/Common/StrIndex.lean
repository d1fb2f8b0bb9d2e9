import Mrml.Common.Infix
import Mrml.Common.Trap

/-!
# Slices of a text by byte offsets

`&text[start..stop]` of a Rust string: the offsets count bytes, and an offset that is not at a
boundary of characters is a panic.

Results:
* `isCharBoundary_iff`: the boundaries are the places where a text is split into two.
* `sliceStr_boundaries`, `sliceStr_append`: a slice between boundaries.
* `isCharBoundary_of_ascii`: in front of an ASCII byte and behind it there are boundaries.
-/

namespace Mrml.Text

/-- A byte that goes on with a character. -/
def isContinuation (byte : UInt8) : Bool := 0x80 ≤ byte.toNat && byte.toNat < 0xc0

/-- `str::is_char_boundary`. -/
def isCharBoundary (text : Text) (index : ℕ) : Bool :=
  index == 0 || index == (asBytes text).length ||
    (asBytes text)[index]?.any fun byte => !isContinuation byte

/-- `&text[start..stop]`. -/
def sliceStr {ε : Type} (text : Text) (start stop : ℕ) : Except (Fault ε) Text :=
  if start ≤ stop ∧ isCharBoundary text start ∧ isCharBoundary text stop then
    okOr (fromUtf8 (((asBytes text).drop start).take (stop - start))) .panic
  else .error .panic

/-- The bytes of a character: the first begins it and the others go on with it. -/
theorem utf8EncodeChar_eq_cons (c : Char) : ∃ byte bytes, String.utf8EncodeChar c = byte :: bytes ∧
    isContinuation byte = false ∧ ∀ byte ∈ bytes, isContinuation byte = true := by
  have hlead {n : ℕ} (h : n < 0x80 ∨ 0xc0 ≤ n) (hbyte : n < 256) :
      isContinuation (UInt8.ofNat n) = false := by
    simp [isContinuation, UInt8.toNat_ofNat', Nat.mod_eq_of_lt hbyte]
    omega
  have hmore (n : ℕ) : isContinuation (UInt8.ofNat (n % 64 + 128)) = true := by
    have hmod := Nat.mod_lt n (show 0 < 64 by decide)
    simp [isContinuation, UInt8.toNat_ofNat', Nat.mod_eq_of_lt (show n % 64 + 128 < 256 by omega)]
    omega
  unfold String.utf8EncodeChar
  dsimp only
  split_ifs with h1 h2 h3
  · exact ⟨_, _, rfl, hlead (by omega) (by omega), List.forall_mem_nil _⟩
  · refine ⟨_, _, rfl, hlead (by omega) (by omega), ?_⟩
    exact List.forall_mem_cons.mpr ⟨hmore _, List.forall_mem_nil _⟩
  · refine ⟨_, _, rfl, hlead (by omega) (by omega), ?_⟩
    exact List.forall_mem_cons.mpr ⟨hmore _, List.forall_mem_cons.mpr
      ⟨hmore _, List.forall_mem_nil _⟩⟩
  · refine ⟨_, _, rfl, hlead (by omega) (by omega), ?_⟩
    exact List.forall_mem_cons.mpr ⟨hmore _, List.forall_mem_cons.mpr
      ⟨hmore _, List.forall_mem_cons.mpr ⟨hmore _, List.forall_mem_nil _⟩⟩⟩

theorem isCharBoundary_eq_true {text : Text} {index : ℕ} : isCharBoundary text index = true ↔
    index = 0 ∨ index = (asBytes text).length ∨
      ∃ byte, (asBytes text)[index]? = some byte ∧ isContinuation byte = false := by
  rw [isCharBoundary, Bool.or_eq_true, Bool.or_eq_true, beq_iff_eq, beq_iff_eq, Option.any_eq_true,
    or_assoc]
  simp only [Bool.not_eq_true']

theorem isCharBoundary_append (front back : Text) :
    isCharBoundary (front ++ back) (asBytes front).length = true := by
  rw [isCharBoundary_eq_true]
  cases back with
  | nil => exact .inr (.inl (by rw [List.append_nil]))
  | cons c back =>
    obtain ⟨byte, bytes, hc, hbyte, -⟩ := utf8EncodeChar_eq_cons c
    refine .inr (.inr ⟨byte, ?_, hbyte⟩)
    rw [asBytes_append, asBytes_cons, hc, List.cons_append,
      List.getElem?_append_right le_rfl, Nat.sub_self, List.getElem?_cons_zero]

/-- The boundaries are the places where a text is split into two. -/
theorem isCharBoundary_iff {text : Text} {index : ℕ} : isCharBoundary text index = true ↔
    ∃ front back, text = front ++ back ∧ (asBytes front).length = index := by
  constructor
  · intro h
    induction text generalizing index with
    | nil =>
      refine ⟨[], [], rfl, ?_⟩
      obtain h | h | ⟨byte, h, -⟩ := isCharBoundary_eq_true.mp h
      · exact h.symm
      · exact h.symm
      · exact nomatch h
    | cons c text ih =>
      obtain ⟨first, bytes, hc, -, hbytes⟩ := utf8EncodeChar_eq_cons c
      by_cases hzero : index = 0
      · exact ⟨[], c :: text, rfl, hzero.symm⟩
      obtain hlt | hle := lt_or_ge index (String.utf8EncodeChar c).length
      · -- such a place is inside of the first character
        obtain h | h | ⟨byte, h, hbyte⟩ := isCharBoundary_eq_true.mp h
        · exact absurd h hzero
        · rw [asBytes_cons, List.length_append] at h
          omega
        · rw [asBytes_cons, List.getElem?_append_left hlt, hc] at h
          obtain ⟨more, rfl⟩ := Nat.exists_eq_succ_of_ne_zero hzero
          rw [List.getElem?_cons_succ] at h
          exact absurd ((hbytes byte (List.mem_of_getElem? h)).symm.trans hbyte) (by decide)
      · have hrest : isCharBoundary text (index - (String.utf8EncodeChar c).length) = true := by
          rw [isCharBoundary_eq_true] at h ⊢
          rw [asBytes_cons, List.getElem?_append_right hle, List.length_append] at h
          obtain h | h | h := h
          · exact absurd h hzero
          · exact .inr (.inl (by omega))
          · exact .inr (.inr h)
        obtain ⟨front, back, rfl, hfront⟩ := ih hrest
        refine ⟨c :: front, back, rfl, ?_⟩
        rw [asBytes_cons, List.length_append, hfront]
        omega
  · rintro ⟨front, back, rfl, rfl⟩
    exact isCharBoundary_append front back

/-- The slice of a part. -/
theorem sliceStr_append {ε : Type} (front part back : Text) :
    sliceStr (front ++ (part ++ back)) (asBytes front).length
      ((asBytes front).length + (asBytes part).length) = (.ok part : Except (Fault ε) Text) := by
  have hstop := isCharBoundary_append (front ++ part) back
  rw [asBytes_append, List.length_append, List.append_assoc] at hstop
  rw [sliceStr, if_pos ⟨Nat.le_add_right _ _, isCharBoundary_append _ _, hstop, ⟩, asBytes_append,
    asBytes_append, List.drop_left, Nat.add_sub_cancel_left, List.take_left, fromUtf8_asBytes]
  rfl

/-- Between boundaries there is a part. -/
theorem sliceStr_boundaries {ε : Type} {text : Text} {start stop : ℕ} (hle : start ≤ stop)
    (hstart : isCharBoundary text start = true) (hstop : isCharBoundary text stop = true) :
    ∃ part, sliceStr text start stop = (.ok part : Except (Fault ε) Text) ∧
      asBytes part = ((asBytes text).drop start).take (stop - start) := by
  obtain ⟨front, rest, rfl, rfl⟩ := isCharBoundary_iff.mp hstart
  obtain ⟨front', back, heq, hlength⟩ := isCharBoundary_iff.mp hstop
  obtain ⟨part, rfl, rfl⟩ | ⟨more, rfl, rfl⟩ := List.append_eq_append_iff.mp heq
  · refine ⟨part, ?_, ?_⟩
    · rw [← hlength, asBytes_append, List.length_append]
      exact sliceStr_append front part back
    · rw [← hlength, asBytes_append, asBytes_append, asBytes_append, List.length_append,
        List.drop_left, Nat.add_sub_cancel_left, List.take_left]
  · -- the other way round there is nothing between
    have hmore : more = [] := by
      by_contra hne
      obtain ⟨c, more, rfl⟩ := List.exists_cons_of_ne_nil hne
      have hpos : 0 < (String.utf8EncodeChar c).length := List.length_pos_iff.mpr
        (by obtain ⟨_, _, hc, -⟩ := utf8EncodeChar_eq_cons c; rw [hc]; exact List.cons_ne_nil _ _)
      rw [asBytes_append, asBytes_cons, List.length_append, List.length_append] at hle
      omega
    subst hmore
    refine ⟨[], ?_, ?_⟩
    · rw [List.append_nil, ← hlength]
      exact sliceStr_append front' [] rest
    · rw [List.append_nil, hlength, Nat.sub_self, List.take_zero, asBytes_nil]

/-- In front of an ASCII byte there is a boundary, and behind it. -/
theorem isCharBoundary_of_ascii {text : Text} {index : ℕ} {byte : UInt8}
    (h : (asBytes text)[index]? = some byte) (hbyte : byte.toNat < 0x80) :
    isCharBoundary text index = true ∧ isCharBoundary text (index + 1) = true := by
  have hstart : isCharBoundary text index = true := by
    refine isCharBoundary_eq_true.mpr (.inr (.inr ⟨byte, h, ?_⟩))
    rw [isContinuation, decide_eq_false (Nat.not_le.mpr hbyte), Bool.false_and]
  refine ⟨hstart, ?_⟩
  obtain ⟨front, back, rfl, rfl⟩ := isCharBoundary_iff.mp hstart
  rw [asBytes_append, List.getElem?_append_right le_rfl, Nat.sub_self] at h
  cases back with
  | nil => exact nomatch h
  | cons c back =>
    obtain ⟨first, bytes, hc, -⟩ := utf8EncodeChar_eq_cons c
    rw [asBytes_cons, hc, List.cons_append, List.getElem?_cons_zero] at h
    have hmem : byte ∈ String.utf8EncodeChar c := by
      rw [hc, Option.some.inj h]
      exact List.mem_cons_self
    have hascii := (mem_utf8EncodeChar hmem).resolve_right (by omega)
    refine isCharBoundary_iff.mpr ⟨front ++ [c], back, ?_, ?_⟩
    · rw [List.append_assoc, List.singleton_append]
    · rw [asBytes_append, List.length_append, asBytes_cons, utf8EncodeChar_of_ascii hascii.1]
      rfl

theorem head?_dropWhile {p : Char → Bool} (text : Text) :
    (text.dropWhile p).head?.any p = false := by
  cases h : text.dropWhile p with
  | nil => rfl
  | cons c rest =>
    have hne : text.dropWhile p ≠ [] := by rw [h]; exact List.cons_ne_nil _ _
    have hhead := List.head_dropWhile_not p hne
    rw [List.head?_cons, Option.any_some]
    simpa only [h, List.head_cons] using hhead

end Mrml.Text
