import Mrml.Boot.Records

/-!
# The boot policy

Model of `BootPolicy` (`crates/mrml-kernel/src/boot.rs`, lines 75–147) and of what it reads
of an artifact (`crates/mrml-kernel/src/artifact.rs`, lines 6–12 and 241–257).

Results:
* `validateLoop_eq_ok_iff`: what the loop over the artifacts has checked.
* `validateSignedChain_eq_ok_iff`: exactly which chains are accepted.
* `validateSignedChain_production_iff`: what production asks for beyond development.
-/

namespace Mrml.Boot

/-- `ArtifactKind` (`artifact.rs`, lines 6–12). -/
inductive ArtifactKind
  | kernel
  | vmImage
  | serviceImage
  | cudaKernelBundle
  | launchPolicy
deriving DecidableEq

/-- `artifact.kind() as usize - 1`. -/
def ArtifactKind.index : ArtifactKind → Fin 5
  | kernel => 0
  | vmImage => 1
  | serviceImage => 2
  | cudaKernelBundle => 3
  | launchPolicy => 4

/-- The five kinds. -/
def ArtifactKind.all : List ArtifactKind :=
  [kernel, vmImage, serviceImage, cudaKernelBundle, launchPolicy]

/-- `VerifiedArtifact` (`artifact.rs`, lines 241–245). -/
structure VerifiedArtifact where
  kind : ArtifactKind
  version : UInt64
  digest : Vector UInt8 64
deriving DecidableEq

/-- The members of `BootValidationError` that a policy raises (lines 4–11). -/
inductive BootPolicyError
  | secureBootRequired
  | measuredBootRequired
  | rollbackDetected
  | missingSignedArtifact
  | duplicateSignedArtifact
  | mixedArtifactRelease
  | kernelMeasurementMismatch
deriving DecidableEq

/-- `BootPolicy` (lines 76–81). -/
structure BootPolicy where
  minimumImageVersion : UInt64
  requireSecureBoot : Bool
  requireMeasuredBoot : Bool
  requireRollbackProtection : Bool
deriving DecidableEq

namespace BootPolicy

/-- `BootPolicy::production` (lines 84–91). -/
def production (minimumImageVersion : UInt64) : BootPolicy := ⟨minimumImageVersion, true, true, true⟩

/-- `BootPolicy::development` (lines 93–100). -/
def development (minimumImageVersion : UInt64) : BootPolicy :=
  ⟨minimumImageVersion, false, false, false⟩

/-- `BootPolicy::validate` (lines 102–116). -/
def validate (policy : BootPolicy) (evidence : BootEvidence) : Except BootPolicyError Unit :=
  if policy.requireSecureBoot && !evidence.secureBoot then .error .secureBootRequired
  else if policy.requireMeasuredBoot && !evidence.measuredBoot then .error .measuredBootRequired
  else if policy.requireRollbackProtection && !evidence.rollbackProtected then
    .error .rollbackDetected
  else if evidence.imageVersion < policy.minimumImageVersion then .error .rollbackDetected
  else .ok ()

/-- The loop of `validate_signed_chain` (lines 125–142), with `present` as it is when the loop
    ends. -/
def validateLoop (policy : BootPolicy) (evidence : BootEvidence) :
    List VerifiedArtifact → (Fin 5 → Bool) → Except BootPolicyError (Fin 5 → Bool)
  | [], present => .ok present
  | artifact :: artifacts, present =>
    if artifact.version < policy.minimumImageVersion then .error .rollbackDetected
    else if artifact.version ≠ evidence.imageVersion then .error .mixedArtifactRelease
    else if present artifact.kind.index then .error .duplicateSignedArtifact
    else if artifact.kind = .kernel ∧ artifact.digest ≠ evidence.imageMeasurement then
      .error .kernelMeasurementMismatch
    else validateLoop policy evidence artifacts (Function.update present artifact.kind.index true)

/-- `BootPolicy::validate_signed_chain` (lines 118–147). -/
def validateSignedChain (policy : BootPolicy) (evidence : BootEvidence)
    (artifacts : List VerifiedArtifact) : Except BootPolicyError Unit := do
  policy.validate evidence
  let present ← policy.validateLoop evidence artifacts fun _ => false
  refuseIf (∃ i, present i = false) .missingSignedArtifact

/-- What the policy asks of the evidence. -/
structure Satisfied (policy : BootPolicy) (evidence : BootEvidence) : Prop where
  secureBoot : policy.requireSecureBoot = true → evidence.secureBoot = true
  measuredBoot : policy.requireMeasuredBoot = true → evidence.measuredBoot = true
  rollbackProtection : policy.requireRollbackProtection = true → evidence.rollbackProtected = true
  version : policy.minimumImageVersion ≤ evidence.imageVersion

/-- What the policy asks of one artifact. -/
structure Coherent (policy : BootPolicy) (evidence : BootEvidence) (artifact : VerifiedArtifact) :
    Prop where
  minimum : policy.minimumImageVersion ≤ artifact.version
  version : artifact.version = evidence.imageVersion
  measured : artifact.kind = .kernel → artifact.digest = evidence.imageMeasurement

theorem validate_eq_ok_iff (policy : BootPolicy) (evidence : BootEvidence) :
    policy.validate evidence = .ok () ↔ policy.Satisfied evidence := by
  unfold validate
  constructor
  · intro h
    split_ifs at h with hsecure hmeasured hrollback hversion
    exact ⟨by simpa using hsecure, by simpa using hmeasured, by simpa using hrollback,
      UInt64.not_lt.mp hversion⟩
  · rintro ⟨hsecure, hmeasured, hrollback, hversion⟩
    rw [if_neg (by simpa using hsecure), if_neg (by simpa using hmeasured),
      if_neg (by simpa using hrollback), if_neg (UInt64.not_lt.mpr hversion)]

/-- One turn of the loop. -/
theorem validateLoop_cons_eq_ok_iff {policy : BootPolicy} {evidence : BootEvidence}
    {artifact : VerifiedArtifact} {artifacts : List VerifiedArtifact}
    {present present' : Fin 5 → Bool} :
    policy.validateLoop evidence (artifact :: artifacts) present = .ok present' ↔
      policy.Coherent evidence artifact ∧ present artifact.kind.index = false ∧
      policy.validateLoop evidence artifacts
        (Function.update present artifact.kind.index true) = .ok present' := by
  rw [validateLoop]
  constructor
  · intro h
    split_ifs at h with hminimum hversion hpresent hmeasured
    refine ⟨⟨UInt64.not_lt.mp hminimum, not_not.mp hversion, ?_⟩, by simpa using hpresent, h⟩
    intro hkernel
    by_contra hdigest
    exact hmeasured ⟨hkernel, hdigest⟩
  · rintro ⟨⟨hminimum, hversion, hmeasured⟩, hpresent, h⟩
    rw [if_neg (UInt64.not_lt.mpr hminimum), if_neg (not_not.mpr hversion),
      if_neg (by simp [hpresent]), if_neg (fun hkernel => hkernel.2 (hmeasured hkernel.1)), h]

/-- **Run lemma.** The loop accepts coherent artifacts of kinds that have not been seen, each
    kind at most once. -/
theorem validateLoop_eq_ok_iff {policy : BootPolicy} {evidence : BootEvidence}
    {artifacts : List VerifiedArtifact} {present present' : Fin 5 → Bool} :
    policy.validateLoop evidence artifacts present = .ok present' ↔
      (∀ artifact ∈ artifacts, policy.Coherent evidence artifact) ∧
      (artifacts.map fun artifact => artifact.kind.index).Nodup ∧
      (∀ artifact ∈ artifacts, present artifact.kind.index = false) ∧
      ∀ i, present' i = true ↔
        present i = true ∨ i ∈ artifacts.map fun artifact => artifact.kind.index := by
  induction artifacts generalizing present with
  | nil =>
    simp only [validateLoop, Except.ok.injEq, List.map_nil, List.nodup_nil, List.not_mem_nil,
      or_false, true_and, ← Bool.eq_iff_iff]
    constructor
    · rintro rfl
      exact ⟨nofun, nofun, fun _ => rfl⟩
    · rintro ⟨-, -, h⟩
      exact funext fun i => (h i).symm
  | cons artifact artifacts ih =>
    rw [validateLoop_cons_eq_ok_iff, ih, List.forall_mem_cons, List.forall_mem_cons, List.map_cons,
      List.nodup_cons]
    -- the kind that has been marked is not among the kinds to come
    have hmarked : (∀ other ∈ artifacts, Function.update present artifact.kind.index true
        other.kind.index = false) ↔
        artifact.kind.index ∉ artifacts.map (fun artifact => artifact.kind.index) ∧
        ∀ other ∈ artifacts, present other.kind.index = false := by
      constructor
      · intro h
        constructor
        · intro hmem
          obtain ⟨other, hother, heq⟩ := List.mem_map.mp hmem
          have hfalse := h other hother
          rw [heq, Function.update_self] at hfalse
          cases hfalse
        · intro other hother
          have hfalse := h other hother
          by_cases heq : other.kind.index = artifact.kind.index
          · rw [heq, Function.update_self] at hfalse
            cases hfalse
          · rwa [Function.update_of_ne heq] at hfalse
      · rintro ⟨hnew, h⟩ other hother
        rw [Function.update_of_ne fun heq => hnew (List.mem_map.mpr ⟨other, hother, heq⟩)]
        exact h other hother
    have hseen : ∀ i, (Function.update present artifact.kind.index true i = true ∨
        i ∈ artifacts.map fun artifact => artifact.kind.index) ↔
        (present i = true ∨
          i ∈ artifact.kind.index :: artifacts.map fun artifact => artifact.kind.index) := by
      intro i
      by_cases heq : i = artifact.kind.index
      · simp [heq]
      · simp [heq]
    rw [hmarked]
    simp only [hseen]
    tauto

theorem index_injective : Function.Injective ArtifactKind.index := by
  intro kind kind' h
  cases kind <;> cases kind' <;> first | rfl | cases h

theorem index_surjective (i : Fin 5) : ∃ kind : ArtifactKind, kind.index = i := by
  fin_cases i
  exacts [⟨.kernel, rfl⟩, ⟨.vmImage, rfl⟩, ⟨.serviceImage, rfl⟩, ⟨.cudaKernelBundle, rfl⟩,
    ⟨.launchPolicy, rfl⟩]

/-- Every kind once is a permutation of the five kinds. -/
theorem perm_all_iff (kinds : List ArtifactKind) :
    kinds.Perm ArtifactKind.all ↔ kinds.Nodup ∧ ∀ kind, kind ∈ kinds := by
  have hall : ∀ kind, kind ∈ ArtifactKind.all := by
    intro kind
    cases kind <;> decide
  have hnodup : ArtifactKind.all.Nodup := by decide
  constructor
  · intro h
    exact ⟨h.nodup_iff.mpr hnodup, fun kind => h.mem_iff.mpr (hall kind)⟩
  · rintro ⟨hkinds, hmem⟩
    exact (List.perm_ext_iff_of_nodup hkinds hnodup).mpr fun kind =>
      iff_of_true (hmem kind) (hall kind)

/-- **Main theorem.** A chain is accepted exactly if the evidence satisfies the policy, the
    artifacts are one of each kind, each of them has the version of the evidence and at least
    the minimum version, and the kernel has the measured digest. -/
theorem validateSignedChain_eq_ok_iff (policy : BootPolicy) (evidence : BootEvidence)
    (artifacts : List VerifiedArtifact) :
    policy.validateSignedChain evidence artifacts = .ok () ↔
      policy.Satisfied evidence ∧
      (artifacts.map (·.kind)).Perm ArtifactKind.all ∧
      (∀ artifact ∈ artifacts, artifact.version = evidence.imageVersion ∧
        policy.minimumImageVersion ≤ artifact.version) ∧
      ∀ artifact ∈ artifacts, artifact.kind = .kernel →
        artifact.digest = evidence.imageMeasurement := by
  have hmap : (artifacts.map fun artifact => artifact.kind.index) =
      (artifacts.map (·.kind)).map ArtifactKind.index := by
    rw [List.map_map]
    rfl
  unfold validateSignedChain
  constructor
  · intro h
    obtain ⟨⟨⟩, hvalid, h⟩ := bind_eq_ok.mp h
    obtain ⟨present, hloop, h⟩ := bind_eq_ok.mp h
    have hall := refuseIf_eq_ok.mp h
    obtain ⟨hcoherent, hnodup, -, hseen⟩ := validateLoop_eq_ok_iff.mp hloop
    rw [hmap] at hnodup hseen
    refine ⟨(validate_eq_ok_iff policy evidence).mp hvalid,
      (perm_all_iff _).mpr ⟨hnodup.of_map _, fun kind => ?_⟩,
      fun artifact hmem => ⟨(hcoherent artifact hmem).version, (hcoherent artifact hmem).minimum⟩,
      fun artifact hmem => (hcoherent artifact hmem).measured⟩
    have hpresent : present kind.index = true := by
      by_contra hmissing
      exact hall ⟨kind.index, by simpa using hmissing⟩
    rcases (hseen kind.index).mp hpresent with hfalse | hmem
    · cases hfalse
    · exact (List.mem_map_of_injective index_injective).mp hmem
  · rintro ⟨hsatisfied, hperm, hversion, hmeasured⟩
    obtain ⟨hnodup, hmem⟩ := (perm_all_iff _).mp hperm
    refine bind_eq_ok.mpr ⟨(), (validate_eq_ok_iff policy evidence).mpr hsatisfied,
      bind_eq_ok.mpr ⟨fun _ => true, validateLoop_eq_ok_iff.mpr ⟨?_, ?_, fun _ _ => rfl, ?_⟩, ?_⟩⟩
    · intro artifact hartifact
      exact ⟨(hversion artifact hartifact).2, (hversion artifact hartifact).1,
        hmeasured artifact hartifact⟩
    · rw [hmap]
      exact hnodup.map index_injective
    · intro i
      obtain ⟨kind, rfl⟩ := index_surjective i
      rw [hmap]
      exact iff_of_true rfl (.inr (List.mem_map_of_mem (hmem kind)))
    · refine refuseIf_eq_ok.mpr ?_
      rintro ⟨i, hfalse⟩
      cases hfalse

/-- The loop reads nothing of the policy but its minimum version. -/
theorem validateLoop_congr {policy policy' : BootPolicy} {evidence : BootEvidence}
    (h : policy.minimumImageVersion = policy'.minimumImageVersion)
    (artifacts : List VerifiedArtifact) (present : Fin 5 → Bool) :
    policy.validateLoop evidence artifacts present =
      policy'.validateLoop evidence artifacts present := by
  induction artifacts generalizing present with
  | nil => rfl
  | cons artifact artifacts ih => rw [validateLoop, validateLoop, h, ih]

/-- Under the production policy a chain is accepted exactly if it is under the development policy
    of the same minimum version and the machine has secure boot, measured boot and rollback
    protection. -/
theorem validateSignedChain_production_iff (minimumImageVersion : UInt64)
    (evidence : BootEvidence) (artifacts : List VerifiedArtifact) :
    (production minimumImageVersion).validateSignedChain evidence artifacts = .ok () ↔
      (development minimumImageVersion).validateSignedChain evidence artifacts = .ok () ∧
      evidence.secureBoot = true ∧ evidence.measuredBoot = true ∧
      evidence.rollbackProtected = true := by
  have hsatisfied : (production minimumImageVersion).Satisfied evidence ↔
      (development minimumImageVersion).Satisfied evidence ∧ evidence.secureBoot = true ∧
        evidence.measuredBoot = true ∧ evidence.rollbackProtected = true := by
    constructor
    · rintro ⟨hsecure, hmeasured, hrollback, hversion⟩
      have hfree (p : Prop) : false = true → p := fun h => absurd h Bool.false_ne_true
      exact ⟨⟨hfree _, hfree _, hfree _, hversion⟩, hsecure rfl, hmeasured rfl, hrollback rfl⟩
    · rintro ⟨⟨-, -, -, hversion⟩, hsecure, hmeasured, hrollback⟩
      exact ⟨fun _ => hsecure, fun _ => hmeasured, fun _ => hrollback, hversion⟩
  have hloop (present : Fin 5 → Bool) :
      (production minimumImageVersion).validateLoop evidence artifacts present =
        (development minimumImageVersion).validateLoop evidence artifacts present :=
    @validateLoop_congr (production minimumImageVersion) (development minimumImageVersion) evidence
      rfl artifacts present
  unfold validateSignedChain
  rw [hloop]
  constructor
  · intro h
    obtain ⟨⟨⟩, hvalid, h⟩ := bind_eq_ok.mp h
    obtain ⟨hdevelopment, hprotected⟩ := hsatisfied.mp ((validate_eq_ok_iff _ _).mp hvalid)
    exact ⟨bind_eq_ok.mpr ⟨(), (validate_eq_ok_iff _ _).mpr hdevelopment, h⟩, hprotected⟩
  · rintro ⟨h, hprotected⟩
    obtain ⟨⟨⟩, hvalid, h⟩ := bind_eq_ok.mp h
    have hproduction := hsatisfied.mpr ⟨(validate_eq_ok_iff _ _).mp hvalid, hprotected⟩
    exact bind_eq_ok.mpr ⟨(), (validate_eq_ok_iff _ _).mpr hproduction, h⟩

end BootPolicy

end Mrml.Boot
