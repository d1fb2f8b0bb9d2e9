import Mrml.Common.Checked

/-!
# Frames in a stream that arrives in chunks

A framing takes the first frame off a buffer, once all of it is there. `drain` hands the frames of
a buffer to a handler, and `feed` does so for a buffer that is filled chunk by chunk and may not
grow beyond a limit; both stop when the handler is done.

Results:
* `prefix_or_prefix`: frames at the front of a stream are determined by the stream.
* `feed_frames`, `feed_of_frames`: how the stream is cut into chunks matters for the limit only:
  `feed` succeeds if and only if the stream starts with frames that the handler accepts up to the
  last one, and the frame in progress and the next chunk never exceed the limit together (`Fits`).
-/

namespace Mrml

/-- How the first frame is taken off a buffer: nothing that comes later changes it. -/
structure Framing (α : Type) where
  next : List α → Option (List α × List α)
  split : ∀ {buffer frame rest}, next buffer = some (frame, rest) → buffer = frame ++ rest
  ne_nil : ∀ {buffer frame rest}, next buffer = some (frame, rest) → frame ≠ []
  extend : ∀ {buffer frame rest}, next buffer = some (frame, rest) →
    ∀ more, next (frame ++ more) = some (frame, more)

namespace Framing

variable {α ε σ : Type} (F : Framing α)

/-- A frame alone is taken off as it is. -/
def IsFrame (frame : List α) : Prop := F.next frame = some (frame, [])

variable {F} {frame rest : List α}

theorem isFrame_of_next {buffer : List α} (h : F.next buffer = some (frame, rest)) :
    F.IsFrame frame := by
  have hnext := F.extend h []
  rwa [List.append_nil] at hnext

theorem IsFrame.next (h : F.IsFrame frame) (rest : List α) :
    F.next (frame ++ rest) = some (frame, rest) := F.extend h rest

theorem IsFrame.ne_nil (h : F.IsFrame frame) : frame ≠ [] := F.ne_nil h

theorem IsFrame.length_pos (h : F.IsFrame frame) : 0 < frame.length :=
  List.length_pos_iff.mpr h.ne_nil

/-- A buffer that starts with a frame has a first frame. -/
theorem IsFrame.not_prefix (h : F.IsFrame frame) (hrest : F.next rest = none) :
    ¬frame <+: rest := by
  rintro ⟨tail, rfl⟩
  rw [h.next] at hrest
  cases hrest

/-- A part of a frame has no first frame. -/
theorem IsFrame.next_eq_none (h : F.IsFrame frame) (hrest : rest <+: frame)
    (hlt : rest.length < frame.length) : F.next rest = none := by
  obtain ⟨tail, rfl⟩ := hrest
  cases hnext : F.next rest with
  | none => rfl
  | some result =>
    obtain ⟨first, left⟩ := result
    obtain rfl := F.split hnext
    have hwhole := h
    rw [IsFrame, List.append_assoc, F.extend hnext] at hwhole
    have hfirst := congrArg List.length (Prod.mk.inj (Option.some.inj hwhole)).1
    simp only [List.length_append] at hlt hfirst
    omega

/-- Frames at the front of a stream are determined by the stream. -/
theorem prefix_or_prefix {frames frames' : List (List α)} {stream : List α}
    (hframes : ∀ frame ∈ frames, F.IsFrame frame) (hframes' : ∀ frame ∈ frames', F.IsFrame frame)
    (h : frames.flatten <+: stream) (h' : frames'.flatten <+: stream) :
    frames <+: frames' ∨ frames' <+: frames := by
  induction frames generalizing frames' stream with
  | nil => exact .inl List.nil_prefix
  | cons frame frames ih =>
    cases frames' with
    | nil => exact .inr List.nil_prefix
    | cons frame' frames' =>
      obtain ⟨hframe, hall⟩ := List.forall_mem_cons.mp hframes
      obtain ⟨hframe', hall'⟩ := List.forall_mem_cons.mp hframes'
      obtain ⟨tail, htail⟩ := h
      obtain ⟨tail', htail'⟩ := h'
      rw [List.flatten_cons, List.append_assoc] at htail htail'
      have hnext := hframe.next (frames.flatten ++ tail)
      rw [htail, ← htail', hframe'.next] at hnext
      obtain ⟨rfl, hrest⟩ := Prod.mk.inj (Option.some.inj hnext)
      have hleads : frames.flatten <+: frames.flatten ++ tail := ⟨tail, rfl⟩
      obtain hfirst | hfirst := ih hall hall' hleads ⟨tail', hrest⟩
      · exact .inl (List.cons_prefix_cons.mpr ⟨rfl, hfirst⟩)
      · exact .inr (List.cons_prefix_cons.mpr ⟨rfl, hfirst⟩)

/-! ## Handling the frames of a buffer -/

section Drain

variable (F) (handle : σ → List α → Except ε σ) (done : σ → Bool)

/-- `while let Some(frame) = next(&mut buffer)`: the state and the buffer after it. -/
def drain : ℕ → σ → List α → Except ε (σ × List α)
  | 0, s, buffer => .ok (s, buffer)
  | fuel + 1, s, buffer =>
    match F.next buffer with
    | none => .ok (s, buffer)
    | some (frame, rest) => do
      let s ← handle s frame
      if done s then return (s, rest) else drain fuel s rest

/-- The handler accepts the frames in turn, and is not done before the last one. -/
def Handles : σ → List (List α) → σ → Prop
  | s, [], s' => s' = s
  | s, frame :: frames, s' =>
    ∃ s₁, handle s frame = .ok s₁ ∧ (frames ≠ [] → done s₁ = false) ∧ Handles s₁ frames s'

variable {F handle done}

theorem Handles.append {s s₁ s' : σ} {frames frames' : List (List α)}
    (h : Handles handle done s frames s₁) (hdone : done s₁ = false)
    (h' : Handles handle done s₁ frames' s') : Handles handle done s (frames ++ frames') s' := by
  induction frames generalizing s with
  | nil =>
    obtain rfl : s₁ = s := h
    exact h'
  | cons frame frames ih =>
    obtain ⟨s₂, hframe, hlast, hframes⟩ := h
    refine ⟨s₂, hframe, fun _ => ?_, ih hframes⟩
    by_cases hnil : frames = []
    · subst hnil
      obtain rfl : s₁ = s₂ := hframes
      exact hdone
    · exact hlast hnil

theorem Handles.split {s s' : σ} {frames frames' : List (List α)} (hs : done s = false)
    (hne : frames' ≠ []) (h : Handles handle done s (frames ++ frames') s') :
    ∃ s₁, Handles handle done s frames s₁ ∧ done s₁ = false ∧
      Handles handle done s₁ frames' s' := by
  induction frames generalizing s with
  | nil => exact ⟨s, rfl, hs, h⟩
  | cons frame frames ih =>
    obtain ⟨s₂, hframe, hlast, hframes⟩ := h
    have hs₂ := hlast (by simp [hne])
    obtain ⟨s₁, hfirst, hdone, hsecond⟩ := ih hs₂ hframes
    exact ⟨s₁, ⟨s₂, hframe, fun _ => hs₂, hfirst⟩, hdone, hsecond⟩

/-- What `drain` hands to the handler. -/
theorem drain_eq_ok {fuel : ℕ} {s s' : σ} {buffer rest : List α} (hs : done s = false)
    (hfuel : buffer.length ≤ fuel) (h : F.drain handle done fuel s buffer = .ok (s', rest)) :
    ∃ frames, (∀ frame ∈ frames, F.IsFrame frame) ∧ buffer = frames.flatten ++ rest ∧
      Handles handle done s frames s' ∧ (done s' = false → F.next rest = none) := by
  induction fuel generalizing s buffer with
  | zero =>
    obtain ⟨rfl, rfl⟩ := Prod.mk.inj (Except.ok.inj h)
    obtain rfl := List.length_eq_zero_iff.mp (Nat.le_zero.mp hfuel)
    refine ⟨[], by simp, rfl, rfl, fun _ => ?_⟩
    cases hnext : F.next [] with
    | none => rfl
    | some result =>
      obtain ⟨frame, left⟩ := result
      exact absurd (List.append_eq_nil_iff.mp (F.split hnext).symm).1 (F.ne_nil hnext)
  | succ fuel ih =>
    rw [drain] at h
    cases hnext : F.next buffer with
    | none =>
      rw [hnext] at h
      obtain ⟨rfl, rfl⟩ := Prod.mk.inj (Except.ok.inj h)
      exact ⟨[], by simp, rfl, rfl, fun _ => hnext⟩
    | some result =>
      obtain ⟨frame, left⟩ := result
      rw [hnext] at h
      obtain ⟨s₁, hframe, hrun⟩ := bind_eq_ok.mp h
      have hisFrame := isFrame_of_next hnext
      obtain rfl := F.split hnext
      split_ifs at hrun with hdone
      · obtain ⟨rfl, rfl⟩ := Prod.mk.inj (Except.ok.inj hrun)
        refine ⟨[frame], by simpa using hisFrame, by simp, ?_, ?_⟩
        · exact ⟨s₁, hframe, fun hne => absurd rfl hne, rfl⟩
        · intro hnot
          rw [hdone] at hnot
          cases hnot
      · have hdone' := Bool.eq_false_of_not_eq_true hdone
        have hpos := hisFrame.length_pos
        rw [List.length_append] at hfuel
        obtain ⟨frames, hframes, rfl, hhandles, hrest⟩ := ih hdone' (by omega) hrun
        refine ⟨frame :: frames, List.forall_mem_cons.mpr ⟨hisFrame, hframes⟩, by simp, ?_, hrest⟩
        exact ⟨s₁, hframe, fun _ => hdone', hhandles⟩

/-- `drain` hands the frames at the front of the buffer to the handler. -/
theorem drain_of_handles {fuel : ℕ} {s s' : σ} {frames : List (List α)} {rest : List α}
    (hs : done s = false) (hfuel : (frames.flatten ++ rest).length ≤ fuel)
    (hframes : ∀ frame ∈ frames, F.IsFrame frame) (h : Handles handle done s frames s')
    (hrest : done s' = false → F.next rest = none) :
    F.drain handle done fuel s (frames.flatten ++ rest) = .ok (s', rest) := by
  induction frames generalizing fuel s with
  | nil =>
    obtain rfl : s' = s := h
    rw [List.flatten_nil, List.nil_append]
    cases fuel with
    | zero => rfl
    | succ fuel => rw [drain, hrest hs]
  | cons frame frames ih =>
    obtain ⟨hisFrame, hframes⟩ := List.forall_mem_cons.mp hframes
    obtain ⟨s₁, hframe, hlast, hhandles⟩ := h
    have hpos := hisFrame.length_pos
    rw [List.flatten_cons, List.append_assoc, List.length_append] at hfuel
    obtain ⟨fuel, rfl⟩ : ∃ left, fuel = left + 1 := ⟨fuel - 1, by omega⟩
    rw [List.flatten_cons, List.append_assoc, drain, hisFrame.next]
    dsimp only
    rw [hframe, ok_bind]
    by_cases hnil : frames = []
    · subst hnil
      obtain rfl : s' = s₁ := hhandles
      by_cases hdone : done s' = true
      · rw [if_pos hdone]
        rfl
      · rw [if_neg hdone]
        exact ih (Bool.eq_false_of_not_eq_true hdone) (by omega) hframes rfl
    · rw [hlast hnil, if_neg Bool.false_ne_true]
      exact ih (hlast hnil) (by omega) hframes hhandles

/-! ## Filling the buffer -/

variable (F handle done) in
/-- The loop over the chunks of a stream: `tooLong` is the error of a buffer beyond the limit,
`ending` that of a stream which ends before the handler is done. -/
def feed (limit : ℕ) (tooLong ending : ε) : σ → List α → List (List α) → Except ε σ
  | _, _, [] => .error ending
  | s, pending, chunk :: chunks => do
    let buffer := pending ++ chunk
    refuseIf (buffer.length > limit) tooLong
    let (s, rest) ← F.drain handle done buffer.length s buffer
    if done s then return s else feed limit tooLong ending s rest chunks

/-- The frames that `held` elements do not complete, and how many elements of the first of them
there are. -/
def advance : List (List α) → ℕ → List (List α) × ℕ
  | [], held => ([], held)
  | frame :: frames, held =>
    if frame.length ≤ held then advance frames (held - frame.length) else (frame :: frames, held)

/-- While the frames arrive, the part of a frame that is held and the next chunk do not exceed the
limit together. -/
def Fits (limit : ℕ) : List (List α) → ℕ → List (List α) → Prop
  | _, _, [] => True
  | frames, held, chunk :: chunks =>
    held + chunk.length ≤ limit ∧
      ((advance frames (held + chunk.length)).1 = [] ∨
        Fits limit (advance frames (held + chunk.length)).1
          (advance frames (held + chunk.length)).2 chunks)

theorem advance_append (frames frames' : List (List α)) (held : ℕ) :
    advance (frames ++ frames') (frames.flatten.length + held) = advance frames' held := by
  induction frames with
  | nil => simp
  | cons frame frames ih =>
    rw [List.cons_append, advance, List.flatten_cons, List.length_append, if_pos (by omega)]
    rw [← ih]
    congr 1
    omega

/-- What `advance` drops, and that it cannot drop more. -/
theorem advance_spec (frames : List (List α)) (held : ℕ) :
    ∃ before, frames = before ++ (advance frames held).1 ∧
      before.flatten.length + (advance frames held).2 = held ∧
      ∀ frame ∈ (advance frames held).1.head?, (advance frames held).2 < frame.length := by
  induction frames generalizing held with
  | nil => exact ⟨[], rfl, by simp [advance], by simp [advance]⟩
  | cons frame frames ih =>
    by_cases hle : frame.length ≤ held
    · obtain ⟨before, hbefore, hheld, hhead⟩ := ih (held - frame.length)
      rw [advance, if_pos hle]
      refine ⟨frame :: before, ?_, ?_, hhead⟩
      · rw [List.cons_append, ← hbefore]
      · rw [List.flatten_cons, List.length_append]
        omega
    · rw [advance, if_neg hle]
      exact ⟨[], rfl, by simp, by simpa using hle⟩

/-- A stream that is not longer than the limit keeps it. -/
theorem fits_of_length {limit : ℕ} {frames chunks : List (List α)} {held : ℕ}
    (h : held + chunks.flatten.length ≤ limit) : Fits limit frames held chunks := by
  induction chunks generalizing frames held with
  | nil => trivial
  | cons chunk chunks ih =>
    rw [List.flatten_cons, List.length_append] at h
    obtain ⟨before, -, hheld, -⟩ := advance_spec frames (held + chunk.length)
    exact ⟨by omega, .inr (ih (by omega))⟩

/-- What `feed` hands to the handler. -/
theorem feed_frames {limit : ℕ} {tooLong ending : ε} {s s' : σ} {pending : List α}
    {chunks : List (List α)} (hs : done s = false)
    (h : F.feed handle done limit tooLong ending s pending chunks = .ok s') :
    ∃ frames, (∀ frame ∈ frames, F.IsFrame frame) ∧ Handles handle done s frames s' ∧
      done s' = true ∧ frames.flatten <+: pending ++ chunks.flatten ∧
      Fits limit frames pending.length chunks := by
  induction chunks generalizing s pending with
  | nil =>
    rw [feed] at h
    cases h
  | cons chunk chunks ih =>
    have hlength : (pending ++ chunk).length = pending.length + chunk.length :=
      List.length_append
    rw [feed] at h
    obtain ⟨_, hlimit, h⟩ := bind_eq_ok.mp h
    have hkept := not_lt.mp (refuseIf_eq_ok.mp hlimit)
    obtain ⟨⟨s₁, rest⟩, hdrain, h⟩ := bind_eq_ok.mp h
    obtain ⟨frames, hframes, hbuffer, hhandles, hrest⟩ := drain_eq_ok hs le_rfl hdrain
    rw [List.flatten_cons, ← List.append_assoc, hbuffer, List.append_assoc]
    dsimp only at h
    split_ifs at h with hdone
    · obtain rfl := Except.ok.inj h
      refine ⟨frames, hframes, hhandles, hdone, List.prefix_append _ _, by omega, .inl ?_⟩
      have hadvance := advance_append frames [] rest.length
      rw [List.append_nil, ← List.length_append, ← hbuffer, hlength] at hadvance
      rw [hadvance, advance]
    · have hdone' := Bool.eq_false_of_not_eq_true hdone
      obtain ⟨frames', hframes', hhandles', hlast, hleads, hfits⟩ := ih hdone' h
      refine ⟨frames ++ frames', List.forall_mem_append.mpr ⟨hframes, hframes'⟩,
        hhandles.append hdone' hhandles', hlast, ?_, by omega, ?_⟩
      · rw [List.flatten_append]
        exact (List.prefix_append_right_inj _).mpr hleads
      · rw [← hlength, hbuffer, List.length_append, advance_append]
        cases frames' with
        | nil => exact .inl rfl
        | cons frame frames' =>
          have hframe := hframes' frame List.mem_cons_self
          have hlt : ¬frame.length ≤ rest.length := by
            intro hle
            rw [List.flatten_cons] at hleads
            exact hframe.not_prefix (hrest hdone') (List.prefix_of_prefix_length_le
              ((List.prefix_append _ _).trans hleads) (List.prefix_append _ _) hle)
          rw [advance, if_neg hlt]
          exact .inr hfits

/-- `feed` hands the frames at the front of the stream to the handler. -/
theorem feed_of_frames {limit : ℕ} {tooLong ending : ε} {s s' : σ} {pending : List α}
    {chunks frames : List (List α)} (hs : done s = false) (hnext : F.next pending = none)
    (hframes : ∀ frame ∈ frames, F.IsFrame frame) (hhandles : Handles handle done s frames s')
    (hlast : done s' = true) (hleads : frames.flatten <+: pending ++ chunks.flatten)
    (hfits : Fits limit frames pending.length chunks) :
    F.feed handle done limit tooLong ending s pending chunks = .ok s' := by
  induction chunks generalizing s pending frames with
  | nil =>
    cases frames with
    | nil =>
      obtain rfl : s' = s := hhandles
      rw [hs] at hlast
      cases hlast
    | cons frame frames =>
      have hframe := hframes frame List.mem_cons_self
      refine absurd ?_ (hframe.not_prefix hnext)
      rw [List.flatten_cons, List.flatten_nil, List.append_nil] at hleads
      exact (List.prefix_append _ _).trans hleads
  | cons chunk chunks ih =>
    obtain ⟨hlimit, hfits⟩ := hfits
    have hlength : (pending ++ chunk).length = pending.length + chunk.length :=
      List.length_append
    obtain ⟨before, hbefore, hheld, hhead⟩ := advance_spec frames (pending.length + chunk.length)
    -- what the chunk completes, and what is left of the buffer
    generalize advance frames (pending.length + chunk.length) = advanced at *
    obtain ⟨after, held⟩ := advanced
    dsimp only at hbefore hheld hhead hfits
    subst hbefore
    rw [List.flatten_append, List.flatten_cons, ← List.append_assoc] at hleads
    have hfront : before.flatten <+: pending ++ chunk :=
      List.prefix_of_prefix_length_le ((List.prefix_append _ _).trans hleads)
        (List.prefix_append _ _) (by omega)
    obtain ⟨rest, hbuffer⟩ := hfront
    have hrest : rest.length = held := by
      have := congrArg List.length hbuffer
      rw [List.length_append] at this
      omega
    rw [← hbuffer, List.append_assoc, List.prefix_append_right_inj] at hleads
    rw [feed, refuseIf_of_not (by omega), ok_bind, ← hbuffer]
    obtain ⟨hfirst, hall⟩ := List.forall_mem_append.mp hframes
    cases after with
    | nil =>
      rw [List.append_nil] at hhandles
      have hnot : done s' = false → F.next rest = none := by
        intro hnot
        rw [hlast] at hnot
        cases hnot
      rw [drain_of_handles hs le_rfl hfirst hhandles hnot, ok_bind]
      dsimp only
      rw [if_pos hlast]
      rfl
    | cons frame after =>
      obtain ⟨s₁, hbefore, hdone, hafter⟩ := hhandles.split hs (List.cons_ne_nil _ _)
      have hlt : held < frame.length := hhead frame rfl
      have hleft : F.next rest = none := by
        refine (hall frame List.mem_cons_self).next_eq_none ?_ (by omega)
        rw [List.flatten_cons] at hleads
        exact List.prefix_of_prefix_length_le (List.prefix_append _ _)
          ((List.prefix_append _ _).trans hleads) (by omega)
      rw [drain_of_handles hs le_rfl hfirst hbefore (fun _ => hleft), ok_bind]
      dsimp only
      rw [hdone, if_neg Bool.false_ne_true]
      obtain hnil | hfits := hfits
      · cases hnil
      · exact ih hdone hleft hall hafter hleads (hrest ▸ hfits)

end Drain

end Framing

end Mrml
