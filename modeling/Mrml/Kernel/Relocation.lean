import Mrml.Kernel.Pe

/-!
# Relocated PE images

`materialize_at` (`crates/mrml-kernel/src/pe.rs`, lines 395–432) lays an image out at a base and
moves the values at its relocation targets there.

The walk over the relocation blocks is the same for every visitor, so that the walk of the parser
says which targets the loader visits (`PeImage.targets`).

Results:
* `walkBlocks_visits`: a walk is a loop over the visits that the parser has seen.
* `forEach_relocate`: what moving the values at disjoint targets does to a buffer.
* `materializeAt_spec`: when an accepted image loads at a base, and its bytes there.
-/

namespace Mrml.Kernel

/-! ## Buffers -/

theorem head?_slice_one (input : List UInt8) (i : ℕ) : (slice input i 1).head? = input[i]? := by
  rw [slice, List.head?_take, if_neg (by decide), List.head?_drop]

/-- A write leaves the bytes outside of it as they were. -/
theorem getElem?_patch {output src : List UInt8} {off i : ℕ}
    (hoff : off + src.length ≤ output.length) (h : ¬ (off ≤ i ∧ i < off + src.length)) :
    (patch output off src)[i]? = output[i]? := by
  rw [← head?_slice_one, slice_patch_of_disjoint hoff (by omega), head?_slice_one]

/-- Two buffers with the same bytes in a range have the same field there. -/
theorem slice_congr {a b : List UInt8} {off len : ℕ}
    (h : ∀ i, off ≤ i → i < off + len → a[i]? = b[i]?) : slice a off len = slice b off len := by
  refine List.ext_getElem? fun i => ?_
  rw [slice, slice, List.getElem?_take, List.getElem?_take]
  split_ifs with hi
  · rw [List.getElem?_drop, List.getElem?_drop]
    exact h _ (Nat.le_add_right _ _) (by omega)
  · rfl

/-! ## The visits of a walk -/

namespace Pe

open Proc

/-- A visit of the walk: an entry of kind zero, or a target inside the image. -/
def IsVisit (imageSize : UInt32) (visit : UInt32 × UInt16) : Prop :=
  visit.2 = 0 ∨ visit.2 = 10 ∧ visit.1.toNat + 8 ≤ imageSize.toNat

theorem isVisit_of_check {imageSize target : UInt32} {kind : UInt16}
    (hkind : ¬ (kind ≠ 0 ∧ kind ≠ 10))
    (hend : ¬ (kind = 10 ∧ (checkedAdd32 target 8).all (· > imageSize) = true)) :
    IsVisit imageSize (target, kind) := by
  by_cases hzero : kind = 0
  · exact .inl hzero
  · have hten : kind = 10 := by
      by_contra hten
      exact hkind ⟨hzero, hten⟩
    refine .inr ⟨hten, ?_⟩
    cases hsum : checkedAdd32 target 8 with
    | none =>
      rw [hsum] at hend
      exact absurd ⟨hten, rfl⟩ hend
    | some stop =>
      have hstop : stop.toNat = target.toNat + 8 := checkedAdd32_eq_some.mp hsum
      rw [hsum, Option.all_some, decide_eq_true_eq, gt_iff_lt, UInt32.lt_iff_toNat_lt] at hend
      rw [← hstop]
      exact not_lt.mp fun hlt => hend ⟨hten, hlt⟩

/-- The entries of a block that the parser has walked give every visitor the same visits. -/
theorem walkEntries_visits {imageSize page : UInt32} {list : List UInt16} {count count' : ℕ}
    (h : walkEntries (fun _ _ => pure ()) imageSize page count list () = (.ok count', ())) :
    ∃ visits : List (UInt32 × UInt16), (∀ v ∈ visits, IsVisit imageSize v) ∧
      ∀ (σ : Type) (visit : UInt32 → UInt16 → Proc PeError σ Unit),
        walkEntries visit imageSize page count list =
          (forEach (fun v => visit v.1 v.2) visits >>= fun _ => pure count') := by
  induction list generalizing count with
  | nil =>
    obtain rfl := Except.ok.inj (congrArg Prod.fst h)
    exact ⟨[], by simp, fun σ visit => rfl⟩
  | cons encoded rest ih =>
    obtain ⟨_, hcount, h⟩ := of_ofExcept_bind h
    obtain ⟨_, hkind, h⟩ := of_ofExcept_bind h
    obtain ⟨target, htarget, h⟩ := of_ofExcept_bind h
    obtain ⟨_, hend, h⟩ := of_ofExcept_bind h
    obtain ⟨visits, hvisits, heq⟩ := ih h
    refine ⟨(target, encoded >>> 12) :: visits, List.forall_mem_cons.mpr ⟨?_, hvisits⟩, ?_⟩
    · exact isVisit_of_check (refuseIf_eq_ok.mp hkind) (refuseIf_eq_ok.mp hend)
    · intro σ visit
      rw [walkEntries, hcount, ofExcept_ok_bind]
      dsimp only
      rw [hkind, ofExcept_ok_bind, htarget, ofExcept_ok_bind, hend, ofExcept_ok_bind, heq, forEach,
        bind_assoc]

/-- A walk that the parser has made gives every visitor the same visits. -/
theorem walkBlocks_visits {imageSize : UInt32} {fuel count : ℕ} {bytes : List UInt8} {u : Unit}
    (h : walkBlocks (fun _ _ => pure ()) imageSize fuel count bytes () = (.ok u, ())) :
    ∃ visits : List (UInt32 × UInt16), (∀ v ∈ visits, IsVisit imageSize v) ∧
      ∀ (σ : Type) (visit : UInt32 → UInt16 → Proc PeError σ Unit),
        walkBlocks visit imageSize fuel count bytes = forEach (fun v => visit v.1 v.2) visits := by
  induction fuel generalizing count bytes with
  | zero =>
    cases bytes with
    | nil => exact ⟨[], by simp, fun σ visit => rfl⟩
    | cons byte bytes => exact nomatch h
  | succ fuel ih =>
    cases bytes with
    | nil => exact ⟨[], by simp, fun σ visit => rfl⟩
    | cons byte bytes =>
      obtain ⟨_, hlength, h⟩ := of_ofExcept_bind h
      obtain ⟨page, hpage, h⟩ := of_ofExcept_bind h
      obtain ⟨size, hsize, h⟩ := of_ofExcept_bind h
      obtain ⟨_, hblock, h⟩ := of_ofExcept_bind h
      have hrange := refuseIf_eq_ok.mp hblock
      simp only [not_or, not_lt, gt_iff_lt] at hrange
      obtain ⟨hmin, hmax, -⟩ := hrange
      rw [index_eq hmin hmax, pure_bind] at h
      cases hwalk : walkEntries (fun _ _ => pure ()) imageSize page count
          (entries (slice (byte :: bytes) 8 (size.toNat - 8))) () with
      | mk result state =>
        cases result with
        | error fault =>
          rw [bind_error hwalk] at h
          exact nomatch congrArg Prod.fst h
        | ok count' =>
          obtain ⟨visits, hvisits, heq⟩ := walkEntries_visits hwalk
          rw [bind_ok hwalk, index_eq hmax le_rfl, pure_bind] at h
          obtain ⟨visits', hvisits', heq'⟩ := ih h
          refine ⟨visits ++ visits', fun v hv => ?_, fun σ visit => ?_⟩
          · exact (List.mem_append.mp hv).elim (hvisits v) (hvisits' v)
          · rw [walkBlocks]
            · rw [hlength, ofExcept_ok_bind, hpage, ofExcept_ok_bind, hsize, ofExcept_ok_bind]
              dsimp only
              rw [hblock, ofExcept_ok_bind, index_eq hmin hmax, pure_bind, heq, bind_assoc,
                forEach_append]
              simp only [pure_bind, index_eq hmax le_rfl, heq']
            · simp

end Pe

/-! ## The targets of an image -/

/-- A visitor that notes the visits of a walk. -/
def Pe.note (target : UInt32) (kind : UInt16) : Proc PeError (List (UInt32 × UInt16)) Unit :=
  fun visits => (.ok (), visits ++ [(target, kind)])

namespace PeImage

open Proc

/-- The visits of the walk over the relocations of an image. -/
def relocations (image : PeImage) : List (UInt32 × UInt16) :=
  match image.rvaFileData image.relocationRva image.relocationSize with
  | .error _ => []
  | .ok bytes => (Pe.walkRelocations bytes image.imageSize Pe.note []).2

/-- The offsets of the values that the relocations of an image name. -/
def targets (image : PeImage) : List ℕ :=
  (image.relocations.filter (·.2 ≠ 0)).map (·.1.toNat)

theorem forEach_note (visits noted : List (UInt32 × UInt16)) :
    forEach (fun v => Pe.note v.1 v.2) visits noted = (.ok (), noted ++ visits) := by
  induction visits generalizing noted with
  | nil => rw [List.append_nil]; rfl
  | cons v visits ih =>
    show forEach (fun v => Pe.note v.1 v.2) visits (noted ++ [v]) = _
    rw [ih, List.append_assoc, List.singleton_append]

/-! ## Moved values -/

/-- The value `v` of a target, moved from the preferred base to `loadBase`. -/
def moved (image : PeImage) (loadBase v : UInt64) : ℕ :=
  if v = 0 then 0 else v.toNat - image.imageBase.toNat + loadBase.toNat

/-- A value that can be moved: zero, or an address inside the image. -/
def Movable (image : PeImage) (v : UInt64) : Prop :=
  v = 0 ∨ image.imageBase.toNat ≤ v.toNat ∧
    v.toNat < image.imageBase.toNat + image.imageSize.toNat

/-- `s'` has the values of `s` at the targets moved, and all other bytes of `s`. -/
structure Relocated (image : PeImage) (loadBase : UInt64) (targets : List ℕ)
    (s s' : List UInt8) : Prop where
  length : s'.length = s.length
  value : ∀ t ∈ targets, (Mrml.readU64 s' t).toNat = image.moved loadBase (Mrml.readU64 s t)
  frame : ∀ i, (∀ t ∈ targets, ¬ (t ≤ i ∧ i < t + 8)) → s'[i]? = s[i]?

theorem relocated_nil {image : PeImage} {loadBase : UInt64} {s : List UInt8} :
    image.Relocated loadBase [] s s :=
  ⟨rfl, by simp, fun _ _ => rfl⟩

/-- A target of zero stays. -/
theorem relocated_zero {image : PeImage} {loadBase : UInt64} {s : List UInt8} {t : ℕ}
    (h : Mrml.readU64 s t = 0) : image.Relocated loadBase [t] s s := by
  refine ⟨rfl, fun t' ht => ?_, fun _ _ => rfl⟩
  obtain rfl := List.mem_singleton.mp ht
  rw [moved, if_pos h, h]
  rfl

/-- A target inside the image is overwritten with the moved value. -/
theorem relocated_patch {image : PeImage} {loadBase : UInt64} {s : List UInt8} {t : ℕ}
    (ht : t + 8 ≤ s.length) (hne : Mrml.readU64 s t ≠ 0)
    (hlt : image.moved loadBase (Mrml.readU64 s t) < 2 ^ 64) :
    image.Relocated loadBase [t] s
      (patch s t (leBytes 8 (image.moved loadBase (Mrml.readU64 s t)))) := by
  have hlength : t + (leBytes 8 (image.moved loadBase (Mrml.readU64 s t))).length ≤ s.length := by
    rwa [length_leBytes]
  refine ⟨length_patch hlength, fun t' ht' => ?_, fun i hi => getElem?_patch hlength ?_⟩
  · obtain rfl := List.mem_singleton.mp ht'
    rw [Mrml.readU64, slice_patch_self (length_leBytes _ _).symm ht, leNat_leBytes,
      UInt64.toNat_ofNat', Nat.mod_mod_of_dvd _ (by decide), Nat.mod_eq_of_lt hlt]
  · rw [length_leBytes]
    exact hi t (List.mem_singleton.mpr rfl)

/-- The offset of a value in the image. -/
theorem relative_eq_some {image : PeImage} {v relative : UInt64} :
    (checkedSub64 v image.imageBase).filter (· < image.imageSize.toUInt64) = some relative ↔
      image.imageBase.toNat ≤ v.toNat ∧
        v.toNat < image.imageBase.toNat + image.imageSize.toNat ∧
        relative.toNat = v.toNat - image.imageBase.toNat := by
  have hsize : image.imageSize.toUInt64.toNat = image.imageSize.toNat := UInt32.toNat_toUInt64 _
  rw [Option.filter_eq_some_iff, checkedSub64, decide_eq_true_eq, UInt64.lt_iff_toNat_lt, hsize]
  split_ifs with hle
  · have hsub := UInt64.toNat_sub_of_le v image.imageBase (UInt64.le_iff_toNat_le.mpr hle)
    rw [Option.some_inj, ← UInt64.toNat_inj, hsub]
    omega
  · simp only [false_and, false_iff]
    omega

/-- **Step lemma.** A visit moves a value, or it refuses a value outside of the image. -/
theorem relocate_spec {image : PeImage} {loadBase : UInt64} {target : UInt32} {kind : UInt16}
    {s : List UInt8} (hkind : kind ≠ 0) (ht : target.toNat + 8 ≤ s.length)
    (hbase : loadBase.toNat + image.imageSize.toNat < 2 ^ 64) :
    (image.Movable (Mrml.readU64 s target.toNat) ∧ ∃ s',
      image.relocate loadBase target kind s = (.ok (), s') ∧
      image.Relocated loadBase [target.toNat] s s') ∨
    (¬ image.Movable (Mrml.readU64 s target.toNat) ∧
      image.relocate loadBase target kind s = (.error (.error .relocationOverflow), s)) := by
  have hload : (load target.toNat (target.toNat + 8) : Proc PeError _ _) s =
      (.ok (slice s target.toNat 8), s) := by
    rw [load, index, if_pos ⟨Nat.le_add_right _ _, ht⟩, Nat.add_sub_cancel_left]
  have hvalue : Mrml.readU64 (slice s target.toNat 8) 0 = Mrml.readU64 s target.toNat := by
    rw [Mrml.readU64, Mrml.readU64, slice_slice (by decide), Nat.add_zero]
  rw [relocate, if_neg hkind, bind_ok hload, hvalue]
  by_cases hzero : Mrml.readU64 s target.toNat = 0
  · rw [if_pos hzero]
    exact .inl ⟨.inl hzero, s, rfl, relocated_zero hzero⟩
  · rw [if_neg hzero]
    cases hrelative : (checkedSub64 (Mrml.readU64 s target.toNat) image.imageBase).filter
        (· < image.imageSize.toUInt64) with
    | none =>
      refine .inr ⟨fun hmovable => ?_, rfl⟩
      obtain ⟨hle, hlt⟩ := hmovable.resolve_left hzero
      have hsome := relative_eq_some.mpr ⟨hle, hlt, UInt64.toNat_sub_of_le
        (Mrml.readU64 s target.toNat) image.imageBase (UInt64.le_iff_toNat_le.mpr hle)⟩
      cases hrelative.symm.trans hsome
    | some relative =>
      obtain ⟨hle, hlt, hrelative⟩ := relative_eq_some.mp hrelative
      have hmoved : image.moved loadBase (Mrml.readU64 s target.toNat) =
          relative.toNat + loadBase.toNat := by rw [moved, if_neg hzero, hrelative]
      have hsum : checkedAdd64 loadBase relative = some (loadBase + relative) := if_pos (by omega)
      have hadd : (loadBase + relative).toNat =
          image.moved loadBase (Mrml.readU64 s target.toNat) := by
        rw [checkedAdd64_eq_some.mp hsum, hmoved, Nat.add_comm]
      have hfits := (loadBase + relative).toNat_lt
      rw [hadd] at hfits
      refine .inl ⟨.inr ⟨hle, hlt⟩, _, ?_, relocated_patch ht hzero hfits⟩
      rw [okOr_some, ofExcept_ok_bind, hsum, okOr_some, ofExcept_ok_bind, hadd, store, if_pos]
      refine ⟨Nat.le_add_right _ _, ht, ?_⟩
      rw [length_leBytes, Nat.add_sub_cancel_left]

/-- Two targets without a common byte. -/
def Apart (a b : ℕ) : Prop := a + 8 ≤ b ∨ b + 8 ≤ a

/-- The field of a target is not changed at targets apart from it. -/
theorem Relocated.readU64_eq {image : PeImage} {loadBase : UInt64} {targets : List ℕ}
    {s s' : List UInt8} (h : image.Relocated loadBase targets s s') {t : ℕ}
    (ht : ∀ t' ∈ targets, Apart t' t) : Mrml.readU64 s' t = Mrml.readU64 s t := by
  rw [Mrml.readU64, Mrml.readU64, slice_congr fun i hi hlt => h.frame i fun t' ht' => ?_]
  have hapart := ht t' ht'
  unfold Apart at hapart
  omega

/-- Moving the value of one target and then those of others. -/
theorem Relocated.cons {image : PeImage} {loadBase : UInt64} {targets : List ℕ} {t : ℕ}
    {s s₁ s' : List UInt8} (h : image.Relocated loadBase [t] s s₁)
    (h' : image.Relocated loadBase targets s₁ s') (ht : ∀ t' ∈ targets, Apart t t') :
    image.Relocated loadBase (t :: targets) s s' := by
  refine ⟨h'.length.trans h.length, List.forall_mem_cons.mpr ⟨?_, fun t' ht' => ?_⟩,
    fun i hi => ?_⟩
  · rw [h'.readU64_eq fun t' ht' => (ht t' ht').symm]
    exact h.value t (List.mem_singleton.mpr rfl)
  · rw [h'.value t' ht', h.readU64_eq]
    intro t'' ht''
    obtain rfl := List.mem_singleton.mp ht''
    exact ht t' ht'
  · obtain ⟨hhead, htail⟩ := List.forall_mem_cons.mp hi
    rw [h'.frame i htail, h.frame i]
    intro t' ht'
    obtain rfl := List.mem_singleton.mp ht'
    exact hhead

/-- **Run lemma.** The loop over disjoint targets moves all their values, or one of them is
    outside of the image. -/
theorem forEach_relocate {image : PeImage} {loadBase : UInt64}
    (hbase : loadBase.toNat + image.imageSize.toNat < 2 ^ 64) {visits : List (UInt32 × UInt16)}
    (hvisits : ∀ v ∈ visits, v.2 ≠ 0 ∧ v.1.toNat + 8 ≤ image.imageSize.toNat)
    (hapart : (visits.map (·.1.toNat)).Pairwise Apart) {s : List UInt8}
    (hs : s.length = image.imageSize.toNat) :
    ((∀ t ∈ visits.map (·.1.toNat), image.Movable (Mrml.readU64 s t)) ∧ ∃ s',
      forEach (fun v => image.relocate loadBase v.1 v.2) visits s = (.ok (), s') ∧
      image.Relocated loadBase (visits.map (·.1.toNat)) s s') ∨
    (¬ (∀ t ∈ visits.map (·.1.toNat), image.Movable (Mrml.readU64 s t)) ∧ ∃ s',
      forEach (fun v => image.relocate loadBase v.1 v.2) visits s =
        (.error (.error .relocationOverflow), s')) := by
  induction visits generalizing s with
  | nil => exact .inl ⟨by simp, s, rfl, relocated_nil⟩
  | cons v visits ih =>
    obtain ⟨⟨hkind, htarget⟩, hrest⟩ := List.forall_mem_cons.mp hvisits
    rw [List.map_cons, List.pairwise_cons] at hapart
    rw [List.map_cons]
    simp only [List.forall_mem_cons, forEach]
    obtain ⟨hmovable, s₁, hstep, hrelocated⟩ | ⟨hnot, hstep⟩ :=
      @relocate_spec image loadBase v.1 v.2 s hkind (hs ▸ htarget) hbase
    · have hsame : ∀ t ∈ visits.map (·.1.toNat), Mrml.readU64 s₁ t = Mrml.readU64 s t := by
        intro t ht
        refine hrelocated.readU64_eq fun t' ht' => ?_
        obtain rfl := List.mem_singleton.mp ht'
        exact hapart.1 t ht
      have hall : (∀ t ∈ visits.map (·.1.toNat), image.Movable (Mrml.readU64 s₁ t)) ↔
          ∀ t ∈ visits.map (·.1.toNat), image.Movable (Mrml.readU64 s t) :=
        forall₂_congr fun t ht => by rw [hsame t ht]
      rw [bind_ok hstep]
      obtain ⟨hmovables, s', hrun, hrelocated'⟩ | ⟨hnot, s', hrun⟩ :=
        ih hrest hapart.2 (hrelocated.length.trans hs)
      · exact .inl ⟨⟨hmovable, hall.mp hmovables⟩, s', hrun, hrelocated.cons hrelocated' hapart.1⟩
      · exact .inr ⟨fun h => hnot (hall.mpr h.2), s', hrun⟩
    · rw [bind_error hstep]
      exact .inr ⟨fun h => hnot h.1, s, rfl⟩

/-! ## Loading an accepted image -/

/-- What the loader needs of an image, and the parser has checked. -/
structure Loadable (image : PeImage) : Prop where
  valid : image.Valid
  base_aligned : 4096 ∣ image.imageBase.toNat
  base_add : image.imageBase.toNat + image.imageSize.toNat < 2 ^ 64
  sections : ∀ i < image.sectionCount, ∃ s source, image.sectionAt i = .ok s ∧
    image.sectionData s = .ok source ∧
    s.virtualAddress.toNat + source.length ≤ image.imageSize.toNat
  relocations : image.relocationSize ≠ 0 → ∃ bytes,
    image.rvaFileData image.relocationRva image.relocationSize = .ok bytes ∧
    Pe.walkRelocations bytes image.imageSize (fun _ _ => pure ()) () = (.ok (), ())

/-- The data of a section that has passed its checks is in the file, and has its place in the
    image. -/
theorem sectionData_of_validate {image : PeImage} {i : ℕ} {s : PeSection}
    {sectionAlignment fileAlignment : UInt32} {u : Unit} (hs : image.sectionAt i = .ok s)
    (hvalid : s.Valid image.headersSize.toNat image.imageSize.toNat)
    (h : s.validate image.encoded.length image.headersSize image.imageSize sectionAlignment
      fileAlignment = .ok u) :
    ∃ source, image.sectionData s = .ok source ∧
      s.virtualAddress.toNat + source.length ≤ image.imageSize.toNat := by
  have hfile : s.fileOffset.toNat + s.fileSize.toNat ≤ image.encoded.length := by
    obtain ⟨_, -, h⟩ := bind_eq_ok.mp h
    obtain ⟨_, -, h⟩ := bind_eq_ok.mp h
    split_ifs at h with hempty
    · obtain ⟨_, -, h⟩ := bind_eq_ok.mp h
      obtain ⟨stop, hstop, h⟩ := bind_eq_ok.mp h
      rw [PeSection.fileEnd, okOr_eq_ok, checkedAdd32_eq_some] at hstop
      have hle := refuseIf_eq_ok.mp h
      omega
    · have hoffset := not_not.mp (refuseIf_eq_ok.mp h)
      rw [not_not.mp hempty, hoffset]
      exact Nat.zero_le _
  have hsize : s.fileSize.toNat ≤ s.virtualSize.toNat := by
    obtain ⟨_, -, hs⟩ := bind_eq_ok.mp hs
    obtain ⟨fileSize, -, hs⟩ := bind_eq_ok.mp hs
    obtain ⟨virtualSize, -, hs⟩ := bind_eq_ok.mp hs
    obtain ⟨virtualAddress, -, hs⟩ := bind_eq_ok.mp hs
    obtain ⟨fileOffset, -, hs⟩ := bind_eq_ok.mp hs
    obtain ⟨characteristics, -, hs⟩ := bind_eq_ok.mp hs
    obtain rfl := Except.ok.inj hs
    show fileSize.toNat ≤ (max virtualSize fileSize).toNat
    rw [← UInt32.le_iff_toNat_le]
    show fileSize ≤ if virtualSize ≤ fileSize then fileSize else virtualSize
    split_ifs with hle
    · exact UInt32.le_refl _
    · exact UInt32.le_of_lt (UInt32.not_le.mp hle)
  refine ⟨_, if_pos hfile, ?_⟩
  rw [length_slice hfile]
  have hin := hvalid.in_image
  omega

theorem loadable_of_parse {encoded : List UInt8} {maximumImageBytes : UInt32} {image : PeImage}
    (h : parseWithLimit encoded maximumImageBytes = .ok image) : image.Loadable := by
  have hvalid := parse_valid h
  obtain ⟨image', hparse, h⟩ := bind_eq_ok.mp h
  obtain ⟨u, hrelocations, h⟩ := bind_eq_ok.mp h
  obtain rfl := Except.ok.inj h
  rw [mapError_eq_ok] at hparse
  obtain ⟨_, hmaximum, hparse⟩ := bind_eq_ok.mp hparse
  obtain ⟨headers, -, hparse⟩ := bind_eq_ok.mp hparse
  obtain ⟨_, hcheck, hparse⟩ := bind_eq_ok.mp hparse
  obtain ⟨found, hsections, hparse⟩ := bind_eq_ok.mp hparse
  obtain ⟨_, hfound, hparse⟩ := bind_eq_ok.mp hparse
  obtain rfl := Except.ok.inj hparse
  obtain ⟨_, -, hcheck⟩ := bind_eq_ok.mp hcheck
  have hsize := refuseIf_eq_ok.mp hcheck
  simp only [not_or, not_not] at hsize
  obtain ⟨-, -, -, -, -, -, hbase, hadd⟩ := hsize
  refine ⟨hvalid, ?_, ?_, fun i hi => ?_, fun hne => ?_⟩
  · have hbase := congrArg UInt64.toNat hbase
    rw [UInt64.toNat_mod] at hbase
    exact (show 4096 ∣ 65536 by decide).trans (Nat.dvd_of_mod_eq_zero hbase)
  · by_contra hover
    refine hadd (Option.isNone_iff_eq_none.mpr (checkedAdd64_eq_none.mpr ?_))
    rw [UInt32.toNat_toUInt64]
    exact not_lt.mp hover
  · obtain ⟨s, hs, hsvalid⟩ := hvalid.sections i hi
    obtain ⟨hit, hhit⟩ := (of_foldlM_or_eq_ok hsections).1 i (List.mem_range.mpr hi)
    obtain ⟨left, hleft, hhit⟩ := bind_eq_ok.mp hhit
    obtain rfl := Except.ok.inj (hs.symm.trans hleft)
    obtain ⟨_, hchecked, -⟩ := bind_eq_ok.mp hhit
    obtain ⟨source, hsource, hfits⟩ := sectionData_of_validate hs hsvalid hchecked
    exact ⟨s, source, hs, hsource, hfits⟩
  · obtain ⟨_, -, hwalk⟩ := of_ofExcept_bind (Prod.ext hrelocations rfl)
    rw [if_neg hne] at hwalk
    obtain ⟨bytes, hbytes, hwalk⟩ := of_ofExcept_bind hwalk
    exact ⟨bytes, hbytes, hwalk⟩

/-- The sections are copied into the image. -/
theorem copySections_ok {image : PeImage} (h : image.Loadable) {indices : List ℕ}
    (hindices : ∀ i ∈ indices, i < image.sectionCount) {s : List UInt8}
    (hs : s.length = image.imageSize.toNat) :
    ∃ s', forEach image.copySection indices s = (.ok (), s') ∧
      s'.length = image.imageSize.toNat := by
  induction indices generalizing s with
  | nil => exact ⟨s, rfl, hs⟩
  | cons i indices ih =>
    obtain ⟨hi, hrest⟩ := List.forall_mem_cons.mp hindices
    obtain ⟨section', source, hsection, hsource, hfits⟩ := h.sections i hi
    have hstop : section'.virtualAddress.toNat + source.length ≤ s.length := by omega
    have hcopy : image.copySection i s =
        (.ok (), patch s section'.virtualAddress.toNat source) := by
      rw [copySection, hsection, ofExcept_ok_bind, hsource, ofExcept_ok_bind]
      show storeOr _ _ _ _ s = _
      rw [storeOr, if_pos ⟨Nat.le_add_right _ _, hstop⟩, store,
        if_pos ⟨Nat.le_add_right _ _, hstop, (Nat.add_sub_cancel_left ..).symm⟩]
    rw [forEach, bind_ok hcopy]
    exact ih hrest ((length_patch hstop).trans hs)

/-- The visits of the loader are those of the parser. -/
theorem Loadable.applyRelocations_eq {image : PeImage} (h : image.Loadable)
    (hne : image.relocationSize ≠ 0) :
    (∀ v ∈ image.relocations, Pe.IsVisit image.imageSize v) ∧
    ∀ loadBase, image.applyRelocations loadBase =
      forEach (fun v => image.relocate loadBase v.1 v.2) image.relocations := by
  obtain ⟨bytes, hbytes, hwalk⟩ := h.relocations hne
  obtain ⟨visits, hvisits, heq⟩ := Pe.walkBlocks_visits hwalk
  have hnoted : image.relocations = visits := by
    rw [PeImage.relocations, hbytes]
    show (Pe.walkBlocks Pe.note _ _ _ _ []).2 = _
    rw [heq, forEach_note, List.nil_append]
  refine ⟨hnoted ▸ hvisits, fun loadBase => ?_⟩
  rw [applyRelocations, hbytes, ofExcept_ok_bind, Pe.walkRelocations, heq, hnoted]

/-- Moving the values of an image that is laid out. -/
theorem Loadable.applyRelocations_spec {image : PeImage} (h : image.Loadable)
    (hne : image.relocationSize ≠ 0) (hapart : image.targets.Pairwise Apart) {loadBase : UInt64}
    (hbase : loadBase.toNat + image.imageSize.toNat < 2 ^ 64) {s : List UInt8}
    (hs : s.length = image.imageSize.toNat) :
    ((∀ t ∈ image.targets, image.Movable (Mrml.readU64 s t)) ∧ ∃ s',
      image.applyRelocations loadBase s = (.ok (), s') ∧
      image.Relocated loadBase image.targets s s') ∨
    (¬ (∀ t ∈ image.targets, image.Movable (Mrml.readU64 s t)) ∧ ∃ s',
      image.applyRelocations loadBase s = (.error (.error .relocationOverflow), s')) := by
  obtain ⟨hvisits, heq⟩ := h.applyRelocations_eq hne
  have hskip : ∀ v ∈ image.relocations, decide (v.2 ≠ 0) = false →
      image.relocate loadBase v.1 v.2 = pure () := by
    intro v _ hv
    rw [decide_eq_false_iff_not, not_not] at hv
    rw [relocate, if_pos hv]
  rw [heq, forEach_filter _ (fun v => decide (v.2 ≠ 0)) _ hskip]
  refine forEach_relocate hbase (fun v hv => ?_) hapart hs
  obtain ⟨hmem, hkind⟩ := List.mem_filter.mp hv
  rw [decide_eq_true_eq] at hkind
  exact ⟨hkind, ((hvisits v hmem).resolve_left hkind).2⟩

/-- The buffer after the headers and the sections are copied into it. -/
def layOut (image : PeImage) : Except (Fault PeError) Unit × List UInt8 :=
  forEach image.copySection (List.range image.sectionCount)
    (patch (zeros image.imageSize.toNat) 0 (slice image.encoded 0 image.headersSize.toNat))

theorem Loadable.layOut_spec {image : PeImage} (h : image.Loadable) :
    ∃ layout, image.layOut = (.ok (), layout) ∧ layout.length = image.imageSize.toNat := by
  refine copySections_ok h (fun i hi => List.mem_range.mp hi) ?_
  rw [length_patch, length_zeros]
  rw [length_zeros, Nat.zero_add, length_slice (by have := h.valid.headers_in_file; omega)]
  exact h.valid.headers_in_image

/-- The checks before the image is laid out. -/
def Refuses (image : PeImage) (loadBase : UInt64) (destination : List UInt8) : Prop :=
  destination.length ≠ image.imageSize.toNat ∨ loadBase.toNat % 4096 ≠ 0 ∨
    2 ^ 64 ≤ loadBase.toNat + image.imageSize.toNat ∨
    loadBase ≠ image.imageBase ∧ image.relocationSize = 0

theorem misplaced_iff {image : PeImage} {loadBase : UInt64} :
    (loadBase % 4096 ≠ 0 ∨ (checkedAdd64 loadBase image.imageSize.toUInt64).isNone = true) ↔
      loadBase.toNat % 4096 ≠ 0 ∨ 2 ^ 64 ≤ loadBase.toNat + image.imageSize.toNat := by
  refine or_congr (not_congr ?_) ?_
  · rw [← UInt64.toNat_inj, UInt64.toNat_mod]
    rfl
  · rw [Option.isNone_iff_eq_none, checkedAdd64_eq_none, UInt32.toNat_toUInt64]

theorem materializeAt_of_refuses {image : PeImage} {loadBase : UInt64} {destination : List UInt8}
    (h : image.Refuses loadBase destination) :
    ∃ fault, (image.materializeAt loadBase destination).1 = .error fault := by
  have hlength : (length : Proc PeError _ _) destination = (.ok destination.length, destination) :=
    rfl
  rw [materializeAt, bind_ok hlength]
  by_cases hsize : destination.length ≠ image.imageSize.toNat
  · rw [refuseIf, if_pos hsize]
    exact ⟨_, rfl⟩
  · rw [refuseIf_of_not hsize, ofExcept_ok_bind]
    by_cases hbase : loadBase % 4096 ≠ 0 ∨
        (checkedAdd64 loadBase image.imageSize.toUInt64).isNone = true
    · rw [refuseIf, if_pos hbase]
      exact ⟨_, rfl⟩
    · rw [refuseIf_of_not hbase, ofExcept_ok_bind]
      obtain hlen | hmod | hover | hrequired := h
      · exact absurd hlen hsize
      · exact absurd (misplaced_iff.mpr (.inl hmod)) hbase
      · exact absurd (misplaced_iff.mpr (.inr hover)) hbase
      · rw [refuseIf, if_pos hrequired]
        exact ⟨_, rfl⟩

/-- Behind the checks, the image is laid out and its values are moved. -/
theorem Loadable.materializeAt_eq {image : PeImage} (h : image.Loadable) {loadBase : UInt64}
    {destination layout : List UInt8} (hlayout : image.layOut = (.ok (), layout))
    (haccepts : ¬ image.Refuses loadBase destination) :
    image.materializeAt loadBase destination =
      (do
        if loadBase ≠ image.imageBase then image.applyRelocations loadBase
        ofExcept (okOr (checkedAdd64 loadBase image.entryRva.toUInt64) .invalidImageSize) :
          Proc PeError (List UInt8) UInt64) layout := by
  simp only [Refuses, not_or, not_not] at haccepts
  obtain ⟨hsize, hmod, hover, hrequired⟩ := haccepts
  have hlength : (length : Proc PeError _ _) destination = (.ok destination.length, destination) :=
    rfl
  have hfill : (fillZero : Proc PeError _ _) destination =
      (.ok (), zeros image.imageSize.toNat) := by rw [fillZero, hsize, zeros]
  have hheaders : (slice image.encoded 0 image.headersSize.toNat).length =
      image.headersSize.toNat - 0 :=
    length_slice (by have := h.valid.headers_in_file; omega)
  have hstore : (store 0 image.headersSize.toNat (slice image.encoded 0 image.headersSize.toNat) :
      Proc PeError _ _) (zeros image.imageSize.toNat) =
      (.ok (), patch (zeros image.imageSize.toNat) 0
        (slice image.encoded 0 image.headersSize.toNat)) :=
    if_pos ⟨Nat.zero_le _, (length_zeros _).symm ▸ h.valid.headers_in_image, hheaders⟩
  rw [materializeAt, bind_ok hlength, refuseIf_of_not (not_not.mpr hsize), ofExcept_ok_bind,
    refuseIf_of_not (misplaced_iff.not.mpr (not_or.mpr ⟨not_not.mpr hmod, hover⟩)),
    ofExcept_ok_bind, refuseIf_of_not hrequired, ofExcept_ok_bind, bind_ok hfill,
    index_eq (Nat.zero_le _) h.valid.headers_in_file, pure_bind, Nat.sub_zero, bind_ok hstore,
    bind_ok hlayout]

/-- **Main theorem.** An accepted image whose relocation targets have no byte in common is laid
    out at its preferred base without an error. At another base it loads exactly if the
    buffer, the base and the values at its targets pass the checks of the loader, and then the
    values at the targets are moved and all other bytes are those of the layout. -/
theorem materializeAt_spec {encoded : List UInt8} {maximumImageBytes : UInt32} {image : PeImage}
    (hparse : parseWithLimit encoded maximumImageBytes = .ok image)
    (hapart : image.targets.Pairwise Apart) :
    ∃ layout : List UInt8,
      (∀ destination, destination.length = image.imageSize.toNat → ∃ entry,
        image.materializeAt image.imageBase destination = (.ok entry, layout)) ∧
      ∀ loadBase destination,
        ((∃ fault, (image.materializeAt loadBase destination).1 = .error fault) ↔
          destination.length ≠ image.imageSize.toNat ∨ loadBase.toNat % 4096 ≠ 0 ∨
          2 ^ 64 ≤ loadBase.toNat + image.imageSize.toNat ∨
          loadBase ≠ image.imageBase ∧ (image.relocationSize = 0 ∨
            ∃ t ∈ image.targets, ¬ image.Movable (Mrml.readU64 layout t))) ∧
        ∀ entry result, image.materializeAt loadBase destination = (.ok entry, result) →
          entry.toNat = loadBase.toNat + image.entryRva.toNat ∧
          (loadBase = image.imageBase → result = layout) ∧
          (loadBase ≠ image.imageBase →
            image.Relocated loadBase image.targets layout result) := by
  have h := loadable_of_parse hparse
  obtain ⟨layout, hlayout, hlength⟩ := h.layOut_spec
  have hentry {loadBase : UInt64} (hbase : loadBase.toNat + image.imageSize.toNat < 2 ^ 64) :
      checkedAdd64 loadBase image.entryRva.toUInt64 =
        some (loadBase + image.entryRva.toUInt64) := by
    obtain ⟨i, hi, s, hs, -, -, hlt⟩ := h.valid.entry
    obtain ⟨s', hs', hsvalid⟩ := h.valid.sections i hi
    obtain rfl := Except.ok.inj (hs.symm.trans hs')
    have hin := hsvalid.in_image
    refine if_pos ?_
    rw [UInt32.toNat_toUInt64]
    omega
  have hsum {loadBase : UInt64} (hbase : loadBase.toNat + image.imageSize.toNat < 2 ^ 64) :
      (loadBase + image.entryRva.toUInt64).toNat = loadBase.toNat + image.entryRva.toNat := by
    rw [checkedAdd64_eq_some.mp (hentry hbase), UInt32.toNat_toUInt64]
  refine ⟨layout, fun destination hsize => ?_, fun loadBase destination => ?_⟩
  · have haccepts : ¬ image.Refuses image.imageBase destination := by
      have haligned := h.base_aligned
      have hadd := h.base_add
      unfold Refuses
      simp only [ne_eq, not_true_eq_false, false_and, or_false]
      omega
    rw [h.materializeAt_eq hlayout haccepts, if_neg (by simp), hentry h.base_add]
    exact ⟨_, rfl⟩
  · by_cases hrefuses : image.Refuses loadBase destination
    · obtain ⟨fault, hfault⟩ := materializeAt_of_refuses hrefuses
      refine ⟨iff_of_true ⟨fault, hfault⟩ ?_, fun entry result hrun => ?_⟩
      · obtain hsize | hmod | hover | ⟨hne, hrequired⟩ := hrefuses
        · exact .inl hsize
        · exact .inr (.inl hmod)
        · exact .inr (.inr (.inl hover))
        · exact .inr (.inr (.inr ⟨hne, .inl hrequired⟩))
      · rw [hrun] at hfault
        exact nomatch hfault
    · rw [h.materializeAt_eq hlayout hrefuses]
      simp only [Refuses, not_or, not_not, not_le] at hrefuses
      obtain ⟨hsize, hmod, hbase, hrequired⟩ := hrefuses
      -- the result of a load whose relocations, if any, leave the buffer `s`
      have hdone {s : List UInt8} {entry : UInt64} {result : List UInt8}
          (hrun : (ofExcept (okOr (checkedAdd64 loadBase image.entryRva.toUInt64)
            .invalidImageSize) : Proc PeError (List UInt8) UInt64) s = (.ok entry, result)) :
          entry.toNat = loadBase.toNat + image.entryRva.toNat ∧ result = s := by
        rw [hentry hbase] at hrun
        obtain ⟨hvalue, rfl⟩ := Prod.mk.inj hrun
        obtain rfl := Except.ok.inj hvalue
        exact ⟨hsum hbase, rfl⟩
      by_cases hpreferred : loadBase = image.imageBase
      · rw [if_neg (not_not.mpr hpreferred)]
        refine ⟨iff_of_false ?_ ?_, fun entry result hrun => ?_⟩
        · rintro ⟨fault, hfault⟩
          rw [hentry hbase] at hfault
          exact nomatch hfault
        · rintro (hne | hne | hle | ⟨hne, -⟩)
          · exact hne hsize
          · exact hne hmod
          · omega
          · exact hne hpreferred
        · obtain ⟨hvalue, rfl⟩ := hdone hrun
          exact ⟨hvalue, fun _ => rfl, fun hne => absurd hpreferred hne⟩
      · have hne : image.relocationSize ≠ 0 := fun hzero => hrequired ⟨hpreferred, hzero⟩
        rw [if_pos hpreferred]
        obtain ⟨hmovable, s', hmove, hrelocated⟩ | ⟨hnot, s', hmove⟩ :=
          h.applyRelocations_spec hne hapart hbase hlength
        · rw [bind_ok hmove]
          refine ⟨iff_of_false ?_ ?_, fun entry result hrun => ?_⟩
          · rintro ⟨fault, hfault⟩
            rw [hentry hbase] at hfault
            exact nomatch hfault
          · rintro (hne' | hne' | hle | ⟨-, hzero | ⟨t, ht, hfixed⟩⟩)
            · exact hne' hsize
            · exact hne' hmod
            · omega
            · exact hne hzero
            · exact hfixed (hmovable t ht)
          · obtain ⟨hvalue, rfl⟩ := hdone hrun
            exact ⟨hvalue, fun heq => absurd heq hpreferred, fun _ => hrelocated⟩
        · rw [bind_error hmove]
          refine ⟨iff_of_true ⟨_, rfl⟩ ?_, fun entry result hrun => ?_⟩
          · obtain ⟨t, ht⟩ := not_forall.mp hnot
            obtain ⟨hmem, hfixed⟩ := Classical.not_imp.mp ht
            exact .inr (.inr (.inr ⟨hpreferred, .inr ⟨t, hmem, hfixed⟩⟩))
          · exact nomatch congrArg Prod.fst hrun

theorem forEach_singleton {ε σ ι : Type} (f : ι → Proc ε σ Unit) (item : ι) :
    forEach f [item] = f item := by
  funext s
  rw [forEach, forEach]
  cases hitem : f item s with
  | mk outcome s' =>
    cases outcome with
    | ok => exact bind_ok hitem
    | error fault => exact bind_error hitem

/-- A copied section is in the buffer. -/
theorem copySection_eq_ok {image : PeImage} {index : ℕ} {s s' data : List UInt8} {sec : PeSection}
    (hsection : image.sectionAt index = .ok sec) (hdata : image.sectionData sec = .ok data)
    (h : image.copySection index s = (.ok (), s')) :
    sec.virtualAddress.toNat ≤ s.length ∧ s' = patch s sec.virtualAddress.toNat data := by
  rw [copySection, hsection, ofExcept_ok_bind, hdata, ofExcept_ok_bind] at h
  dsimp only [storeOr, store] at h
  split_ifs at h with hin hstore
  · exact ⟨by omega, (Prod.mk.inj h).2.symm⟩
  · cases h
  · cases h

/-- A field of a buffer that was copied from another one. -/
theorem readU64_patch {s data : List UInt8} {start off : ℕ} (hstart : start ≤ s.length)
    (hoff : off + 8 ≤ data.length) :
    Mrml.readU64 (patch s start data) (start + off) = Mrml.readU64 data off := by
  have hslice : slice (patch s start data) (start + off) 8 = slice data off 8 := by
    have htake : (s.take start).length = start := List.length_take_of_le hstart
    rw [slice, slice, patch, List.append_assoc, List.drop_append, htake, List.drop_append,
      List.drop_eq_nil_of_le (by omega), List.nil_append, Nat.add_sub_cancel_left,
      List.take_append_of_le_length (by rw [List.length_drop]; omega)]
  rw [Mrml.readU64, Mrml.readU64, hslice]

/-- `validPe` with the relocations of the first sixteen bytes of its code behind the code. -/
def movablePe : List UInt8 :=
  [(0x104, leBytes 4 6), (0x130, leBytes 4 0x1100), (0x134, leBytes 4 12), (0x190, leBytes 4 0x200),
    (0x200, leBytes 8 0x140001234), (0x208, leBytes 8 0x140001000), (0x300, leBytes 4 0x1000),
    (0x304, leBytes 4 12), (0x308, leBytes 2 0xa000), (0x30a, leBytes 2 0xa008)].foldl
      (fun file field => patch file field.1 field.2) validPe

/-- What is read of `movablePe`: its base, its size, its targets, and of the bytes of its section
    how many there are and the values at the targets. -/
theorem parse_movablePe : ∃ image sec data, parse movablePe = .ok image ∧
    image.targets = [0x1000, 0x1008] ∧ image.imageBase.toNat = 0x140000000 ∧
      image.imageSize.toNat = 0x2000 ∧ image.relocationSize.toNat = 12 ∧ image.sectionCount = 1 ∧
        image.sectionAt 0 = .ok sec ∧ image.sectionData sec = .ok data ∧
          sec.virtualAddress.toNat = 0x1000 ∧ data.length = 512 ∧
            (Mrml.readU64 data 0).toNat = 0x140001234 ∧
              (Mrml.readU64 data 8).toNat = 0x140001000 := by
  have hparse : (do
      let image ← parse movablePe
      let sec ← (image.sectionAt 0).mapError Fault.error
      let data ← (image.sectionData sec).mapError Fault.error
      return (image.targets, [image.imageBase.toNat, image.imageSize.toNat,
        image.relocationSize.toNat, image.sectionCount, sec.virtualAddress.toNat, data.length,
        (Mrml.readU64 data 0).toNat, (Mrml.readU64 data 8).toNat])) =
      .ok ([0x1000, 0x1008], [0x140000000, 0x2000, 12, 1, 0x1000, 512, 0x140001234,
        0x140001000]) := by
    rw [movablePe, validPe, patches_nil, patches_nil] <;> decide +kernel
  obtain ⟨image, himage, h⟩ := bind_eq_ok.mp hparse
  obtain ⟨sec, hsection, h⟩ := bind_eq_ok.mp h
  obtain ⟨data, hdata, h⟩ := bind_eq_ok.mp h
  have h := Except.ok.inj h
  simp only [Prod.mk.injEq, List.cons.injEq, and_true] at h
  obtain ⟨htargets, hbase, hsize, hrelocations, hcount, haddress, hlength, hfirst, hsecond⟩ := h
  exact ⟨image, sec, data, himage, htargets, hbase, hsize, hrelocations, hcount,
    mapError_eq_ok.mp hsection, mapError_eq_ok.mp hdata, haddress, hlength, hfirst, hsecond⟩

/-- The values at the targets of `movablePe` are moved to another base. -/
theorem materializeAt_spec_movablePe : ∃ image layout entry result,
    parse movablePe = .ok image ∧ image.targets = [0x1000, 0x1008] ∧
      (∃ entry, image.materializeAt image.imageBase (zeros 0x2000) = (.ok entry, layout)) ∧
      image.materializeAt 0x150000000 (zeros 0x2000) = (.ok entry, result) ∧
      image.Relocated 0x150000000 image.targets layout result := by
  obtain ⟨image, sec, data, hparse, htargets, hbase, hsize, hrelocations, hcount, hsection, hdata,
    haddress, hlength, hfirst, hsecond⟩ := parse_movablePe
  have hapart : image.targets.Pairwise Apart := by simp [htargets, Apart]
  obtain ⟨layout, hlayout, hspec⟩ := materializeAt_spec hparse hapart
  have hzeros : (zeros 0x2000).length = image.imageSize.toNat := by rw [length_zeros, hsize]
  obtain ⟨first, hload⟩ := hlayout _ hzeros
  -- the layout is the section, copied behind the headers
  obtain ⟨copied, hcopied, -⟩ := (loadable_of_parse hparse).layOut_spec
  have haccepts : ¬ image.Refuses image.imageBase (zeros 0x2000) := by
    simp [Refuses, hzeros, hbase, hsize]
  have hsame := (loadable_of_parse hparse).materializeAt_eq hcopied haccepts
  rw [hload, if_neg (not_not.mpr rfl)] at hsame
  obtain rfl : layout = copied := congrArg Prod.snd hsame
  rw [layOut, hcount, show List.range 1 = [0] from rfl, forEach_singleton] at hcopied
  obtain ⟨hstart, hcontents⟩ := copySection_eq_ok hsection hdata hcopied
  rw [haddress] at hstart hcontents
  have hvalue (off : ℕ) (hoff : off + 8 ≤ 512) :
      Mrml.readU64 layout (0x1000 + off) = Mrml.readU64 data off := by
    rw [hcontents]
    exact readU64_patch hstart (by omega)
  have hmovable : ∀ t ∈ image.targets, image.Movable (Mrml.readU64 layout t) := by
    rw [htargets]
    intro t ht
    rw [List.mem_cons, List.mem_singleton] at ht
    unfold Movable
    obtain rfl | rfl := ht
    · rw [hvalue 0 (by decide), hfirst, hbase, hsize]
      omega
    · rw [hvalue 8 (by decide), hsecond, hbase, hsize]
      omega
  have hloads : ¬ ∃ fault, (image.materializeAt 0x150000000 (zeros 0x2000)).1 = .error fault := by
    rw [(hspec _ _).1]
    rintro (hlen | hmod | hover | ⟨-, hzero | ⟨t, ht, hfixed⟩⟩)
    · exact hlen hzeros
    · exact hmod rfl
    · rw [hsize] at hover
      exact absurd hover (by decide)
    · rw [hzero] at hrelocations
      cases hrelocations
    · exact hfixed (hmovable t ht)
  have hother : (0x150000000 : UInt64) ≠ image.imageBase := by
    intro heq
    rw [← heq] at hbase
    cases hbase
  cases hresult : image.materializeAt 0x150000000 (zeros 0x2000) with
  | mk outcome result =>
    cases outcome with
    | error fault => exact absurd ⟨fault, by rw [hresult]⟩ hloads
    | ok entry =>
      exact ⟨image, layout, entry, result, hparse, htargets, ⟨first, hload⟩, hresult,
        ((hspec _ _).2 _ _ hresult).2.2 hother⟩

/-- An image without relocations does not load at an address that is not a page. -/
theorem materializeAt_unaligned :
    ¬ ∀ (encoded : List UInt8) (maximumImageBytes : UInt32) (image : PeImage) (loadBase : UInt64)
      (destination : List UInt8), parseWithLimit encoded maximumImageBytes = .ok image →
      image.targets.Pairwise Apart → destination.length = image.imageSize.toNat →
      ((∃ fault, (image.materializeAt loadBase destination).1 = .error fault) ↔
        ∃ t ∈ image.targets, ¬ image.Movable (Mrml.readU64 image.layOut.2 t) ∨
          2 ^ 64 ≤ image.moved loadBase (Mrml.readU64 image.layOut.2 t)) := by
  intro hclaim
  have hparse : (parse validPe).toOption.map targets = some [] := by
    rw [validPe, patches_nil] <;> decide +kernel
  cases h : parse validPe with
  | error fault =>
    rw [h] at hparse
    cases hparse
  | ok image =>
    rw [h] at hparse
    have htargets : image.targets = [] := Option.some.inj hparse
    have hiff := hclaim _ _ image 1 (zeros image.imageSize.toNat) h
      (htargets ▸ List.Pairwise.nil) (length_zeros _)
    obtain ⟨t, ht, -⟩ := hiff.mp (materializeAt_of_refuses (.inr (.inl (by decide))))
    rw [htargets] at ht
    cases ht

end PeImage

end Mrml.Kernel
