import Mrml.Common.Run
import Mrml.Common.Slots

/-!
# Launch policy

Model of `crates/mrml-kernel/src/policy.rs`: the policy of one VM, with its directory and
device grants, and the policy of a launch, which takes VMs in one by one. Names and paths are
their bytes; the source keeps them in fixed arrays with a length.

Results:
* `IommuTopology.grant_eq_ok_iff`: a device is granted together with its whole IOMMU group.
* `VmPolicy.grants_distinct`: the tables of one VM after every sequence of grants.
* `addVm_cases`: what `add_vm` can do.
* `accepted_perm_vms`: the table holds the policies whose `add_vm` call succeeded.
* `system_policy_isolation`: names, devices and IOMMU groups of the accepted VMs after every
  sequence of calls.
* `accepted_group_exclusive`: no other accepted VM has a device of a granted IOMMU group.
-/

namespace Mrml.Kernel

/-- `PolicyError` (lines 8–22). -/
inductive PolicyError
  | invalidName
  | directoryTableFull
  | deviceTableFull
  | duplicateDirectory
  | duplicateDevice
  | invalidDeviceAddress
  | emptyTopology
  | missingDevice
  | duplicateTopologyDevice
  | incompleteIommuGroup
  | vmTableFull
  | duplicateVmName
  | deviceAlreadyAssigned
deriving DecidableEq

/-- The test of `VmName::new` (lines 32–37). -/
def validVmName (name : List UInt8) : Bool :=
  !name.isEmpty && decide (name.length ≤ 64) && name.all fun byte =>
    (0x30 ≤ byte && byte ≤ 0x39) || (0x41 ≤ byte && byte ≤ 0x5a) ||
      (0x61 ≤ byte && byte ≤ 0x7a) || byte == 0x2d || byte == 0x5f

/-- `VmName` (lines 25–28). -/
structure VmName where
  bytes : List UInt8
  valid : validVmName bytes = true
deriving DecidableEq

/-- `VmName::new` (lines 31–46). -/
def VmName.new (name : List UInt8) : Except PolicyError VmName :=
  if h : validVmName name = true then .ok ⟨name, h⟩ else .error .invalidName

theorem VmName.new_eq_ok_iff {name : List UInt8} {v : VmName} :
    VmName.new name = .ok v ↔ v.bytes = name := by
  unfold VmName.new
  split_ifs with h
  · rw [Except.ok.injEq]
    constructor
    · rintro rfl
      rfl
    · rintro rfl
      rfl
  · refine iff_of_false (by simp) ?_
    rintro rfl
    exact h v.valid

/-- `VmRole` (`platform.rs`, lines 16–22). -/
inductive VmRole
  | inference
  | tool
  | device
  | storage
  | network
deriving DecidableEq

/-- `GrantMode` (`grant.rs`, lines 4–7). -/
inductive GrantMode
  | readOnly
  | readWrite
deriving DecidableEq

/-- `DirectoryGrant` (`grant.rs`, lines 22–26). -/
structure DirectoryGrant where
  path : List UInt8
  mode : GrantMode
deriving DecidableEq

/-- `DeviceAddress` (lines 55–60); its fields are private and `new` is the only constructor. -/
@[ext] structure DeviceAddress where
  pciSegment : UInt16
  bus : UInt8
  device : UInt8
  function : UInt8
  inRange : ¬ (device > 31 ∨ function > 7)
deriving DecidableEq

/-- `DeviceAddress::new` (lines 63–73). -/
def DeviceAddress.new (pciSegment : UInt16) (bus device function : UInt8) :
    Except PolicyError DeviceAddress :=
  if h : device > 31 ∨ function > 7 then .error .invalidDeviceAddress
  else .ok ⟨pciSegment, bus, device, function, h⟩

theorem DeviceAddress.new_eq_ok_iff {pciSegment : UInt16} {bus device function : UInt8}
    {a : DeviceAddress} : DeviceAddress.new pciSegment bus device function = .ok a ↔
      a.pciSegment = pciSegment ∧ a.bus = bus ∧ a.device = device ∧ a.function = function := by
  unfold DeviceAddress.new
  split_ifs with h
  · refine iff_of_false (by simp) ?_
    rintro ⟨-, -, rfl, rfl⟩
    exact a.inRange h
  · rw [Except.ok.injEq, DeviceAddress.ext_iff]
    simp only [eq_comm]

/-- `DeviceGrant` (lines 90–93). -/
structure DeviceGrant where
  address : DeviceAddress
  iommuGroup : UInt32
deriving DecidableEq

/-- `HostDevice` (lines 105–109). -/
structure HostDevice where
  address : DeviceAddress
  iommuGroup : UInt32
  resetSupported : Bool
deriving DecidableEq

/-- `IommuTopology` (lines 121–123). -/
structure IommuTopology where
  devices : List HostDevice
  nonempty : devices ≠ []
  distinct : devices.Pairwise fun device other => other.address ≠ device.address

namespace IommuTopology

/-- `IommuTopology::new` (lines 126–139). -/
def new (devices : List HostDevice) : Except PolicyError IommuTopology :=
  if hempty : devices = [] then .error .emptyTopology
  else if hdistinct : devices.Pairwise fun device other => other.address ≠ device.address then
    .ok ⟨devices, hempty, hdistinct⟩
  else .error .duplicateTopologyDevice

/-- `IommuTopology::grant` (lines 141–164). -/
def grant (t : IommuTopology) (address : DeviceAddress) (assigned : List DeviceAddress) :
    Except PolicyError DeviceGrant :=
  match t.devices.find? fun device => device.address = address with
  | none => .error .missingDevice
  | some target =>
    if (t.devices.filter fun device => device.iommuGroup = target.iommuGroup).all fun device =>
        device.resetSupported && decide (device.address ∈ assigned) then
      .ok ⟨address, target.iommuGroup⟩
    else .error .incompleteIommuGroup

theorem new_eq_ok_iff {devices : List HostDevice} {t : IommuTopology} :
    new devices = .ok t ↔ t.devices = devices := by
  unfold new
  split_ifs with hempty hdistinct
  · refine iff_of_false (by simp) ?_
    rintro rfl
    exact t.nonempty hempty
  · rw [Except.ok.injEq]
    constructor
    · rintro rfl
      rfl
    · rintro rfl
      rfl
  · refine iff_of_false (by simp) ?_
    rintro rfl
    exact hdistinct t.distinct

/-- The topology has one device at an address. -/
theorem eq_of_address_eq (t : IommuTopology) {d e : HostDevice} (hd : d ∈ t.devices)
    (he : e ∈ t.devices) (h : d.address = e.address) : d = e := by
  by_contra hne
  rcases List.pairwise_iff_getElem.mp t.distinct with hdistinct
  obtain ⟨i, hi, rfl⟩ := List.getElem_of_mem hd
  obtain ⟨j, hj, rfl⟩ := List.getElem_of_mem he
  rcases Nat.lt_trichotomy i j with hij | rfl | hij
  · exact hdistinct i j hi hj hij h.symm
  · exact hne rfl
  · exact hdistinct j i hj hi hij h

/-- A device is granted exactly if the topology has it and every device of its IOMMU group can
    be reset and is assigned with it; the grant names that group. -/
theorem grant_eq_ok_iff (t : IommuTopology) {address : DeviceAddress}
    {assigned : List DeviceAddress} {g : DeviceGrant} :
    t.grant address assigned = .ok g ↔
      g.address = address ∧
      (∃ d ∈ t.devices, d.address = address ∧ d.iommuGroup = g.iommuGroup) ∧
      ∀ d ∈ t.devices, d.iommuGroup = g.iommuGroup →
        d.resetSupported = true ∧ d.address ∈ assigned := by
  unfold grant
  cases hfind : t.devices.find? fun device => device.address = address with
  | none =>
    refine iff_of_false (by simp) ?_
    rintro ⟨-, ⟨d, hd, hdaddress, -⟩, -⟩
    simpa [hdaddress] using List.find?_eq_none.mp hfind d hd
  | some target =>
    have hmem : target ∈ t.devices := List.mem_of_find?_eq_some hfind
    have haddress : target.address = address := by simpa using List.find?_some hfind
    have hall : (t.devices.filter fun device => device.iommuGroup = target.iommuGroup).all
        (fun device => device.resetSupported && decide (device.address ∈ assigned)) = true ↔
        ∀ d ∈ t.devices, d.iommuGroup = target.iommuGroup →
          d.resetSupported = true ∧ d.address ∈ assigned := by
      simp only [List.all_eq_true, List.mem_filter, decide_eq_true_eq, Bool.and_eq_true, and_imp]
    dsimp only
    split_ifs with h
    · rw [Except.ok.injEq]
      constructor
      · rintro rfl
        exact ⟨rfl, ⟨target, hmem, haddress, rfl⟩, hall.mp h⟩
      · rintro ⟨hg, ⟨d, hd, hdaddress, hdgroup⟩, -⟩
        obtain rfl := t.eq_of_address_eq hd hmem (hdaddress.trans haddress.symm)
        rw [← hg, hdgroup]
    · refine iff_of_false (by simp) ?_
      rintro ⟨-, ⟨d, hd, hdaddress, hdgroup⟩, hgroup⟩
      obtain rfl := t.eq_of_address_eq hd hmem (hdaddress.trans haddress.symm)
      rw [← hdgroup] at hgroup
      exact h (hall.mpr hgroup)

end IommuTopology

/-- `VmPolicy` (lines 169–174). -/
structure VmPolicy (DIRECTORIES DEVICES : ℕ) where
  name : VmName
  role : VmRole
  directories : Fin DIRECTORIES → Option DirectoryGrant
  deviceSlots : Fin DEVICES → Option DeviceGrant

namespace VmPolicy

variable {DIRECTORIES DEVICES : ℕ}

/-- `VmPolicy::new` (lines 177–184). -/
def new (name : VmName) (role : VmRole) : VmPolicy DIRECTORIES DEVICES :=
  ⟨name, role, fun _ => none, fun _ => none⟩

/-- `VmPolicy::devices` (lines 238–240). -/
def devices (p : VmPolicy DIRECTORIES DEVICES) : List DeviceGrant :=
  (List.finRange DEVICES).filterMap p.deviceSlots

/-- `VmPolicy::add_directory` (lines 194–210). -/
def addDirectory (p : VmPolicy DIRECTORIES DEVICES) (grant : DirectoryGrant) :
    Except PolicyError Unit × VmPolicy DIRECTORIES DEVICES :=
  if ((List.finRange DIRECTORIES).filterMap p.directories).any (·.path = grant.path) then
    (.error .duplicateDirectory, p)
  else
    match firstSlot fun i => (p.directories i).isNone with
    | none => (.error .directoryTableFull, p)
    | some i => (.ok (), { p with directories := Function.update p.directories i (some grant) })

/-- `VmPolicy::add_device` (lines 212–228). -/
def addDevice (p : VmPolicy DIRECTORIES DEVICES) (grant : DeviceGrant) :
    Except PolicyError Unit × VmPolicy DIRECTORIES DEVICES :=
  if p.devices.any (·.address = grant.address) then (.error .duplicateDevice, p)
  else
    match firstSlot fun i => (p.deviceSlots i).isNone with
    | none => (.error .deviceTableFull, p)
    | some i => (.ok (), { p with deviceSlots := Function.update p.deviceSlots i (some grant) })

theorem addDirectory_cases (p : VmPolicy DIRECTORIES DEVICES) (grant : DirectoryGrant) :
    (∃ error, p.addDirectory grant = (.error error, p)) ∨
    ∃ i, (∀ j existing, p.directories j = some existing → existing.path ≠ grant.path) ∧
      p.directories i = none ∧ p.addDirectory grant =
        (.ok (), { p with directories := Function.update p.directories i (some grant) }) := by
  unfold addDirectory
  split_ifs with hduplicate
  · exact .inl ⟨_, rfl⟩
  · cases hfree : firstSlot fun i => (p.directories i).isNone with
    | none => exact .inl ⟨_, rfl⟩
    | some i =>
      refine .inr ⟨i, fun j existing hj hpath => hduplicate ?_,
        Option.isNone_iff_eq_none.mp (firstSlot_some hfree), rfl⟩
      exact List.any_eq_true.mpr
        ⟨existing, List.mem_filterMap.mpr ⟨j, List.mem_finRange j, hj⟩, by simpa using hpath⟩

theorem addDevice_cases (p : VmPolicy DIRECTORIES DEVICES) (grant : DeviceGrant) :
    (∃ error, p.addDevice grant = (.error error, p)) ∨
    ∃ i, (∀ j existing, p.deviceSlots j = some existing → existing.address ≠ grant.address) ∧
      p.deviceSlots i = none ∧ p.addDevice grant =
        (.ok (), { p with deviceSlots := Function.update p.deviceSlots i (some grant) }) := by
  unfold addDevice
  split_ifs with hduplicate
  · exact .inl ⟨_, rfl⟩
  · cases hfree : firstSlot fun i => (p.deviceSlots i).isNone with
    | none => exact .inl ⟨_, rfl⟩
    | some i =>
      refine .inr ⟨i, fun j existing hj haddress => hduplicate ?_,
        Option.isNone_iff_eq_none.mp (firstSlot_some hfree), rfl⟩
      exact List.any_eq_true.mpr
        ⟨existing, List.mem_filterMap.mpr ⟨j, List.mem_finRange j, hj⟩, by simpa using haddress⟩

/-- A call that changes the policy of one VM. -/
inductive Call
  | addDirectory (grant : DirectoryGrant)
  | addDevice (grant : DeviceGrant)

/-- The answer to a call and the policy after it. -/
def call (p : VmPolicy DIRECTORIES DEVICES) :
    Call → Except PolicyError Unit × VmPolicy DIRECTORIES DEVICES
  | .addDirectory grant => p.addDirectory grant
  | .addDevice grant => p.addDevice grant

/-- No path and no device address is granted twice. -/
structure Distinct (p : VmPolicy DIRECTORIES DEVICES) : Prop where
  paths : DistinctKeys DirectoryGrant.path p.directories
  addresses : DistinctKeys DeviceGrant.address p.deviceSlots

theorem Distinct.call {p : VmPolicy DIRECTORIES DEVICES} (h : p.Distinct) (c : Call) :
    (p.call c).2.Distinct := by
  cases c with
  | addDirectory grant =>
    rcases p.addDirectory_cases grant with ⟨error, heq⟩ | ⟨i, hnew, -, heq⟩
    · rwa [VmPolicy.call, heq]
    · rw [VmPolicy.call, heq]
      exact ⟨h.paths.update hnew i, h.addresses⟩
  | addDevice grant =>
    rcases p.addDevice_cases grant with ⟨error, heq⟩ | ⟨i, hnew, -, heq⟩
    · rwa [VmPolicy.call, heq]
    · rw [VmPolicy.call, heq]
      exact ⟨h.paths, h.addresses.update hnew i⟩

/-- After every sequence of grants to a new policy, no path and no device address is granted
    twice; a rejected grant leaves the policy as it was. -/
theorem grants_distinct (name : VmName) (role : VmRole) (calls : List Call) :
    (run (fun p c => (call p c).2) (new name role : VmPolicy DIRECTORIES DEVICES) calls).Distinct ∧
    ∀ (p : VmPolicy DIRECTORIES DEVICES) (c : Call) (error : PolicyError),
      (p.call c).1 = .error error → (p.call c).2 = p := by
  constructor
  · refine run_invariant (P := Distinct) (fun p c h => h.call c) ⟨?_, ?_⟩ calls
    · intro i j a b hi
      cases hi
    · intro i j a b hi
      cases hi
  · intro p c error herror
    cases c with
    | addDirectory grant =>
      rcases p.addDirectory_cases grant with ⟨_, heq⟩ | ⟨_, -, -, heq⟩
      · rw [call, heq]
      · rw [call, heq] at herror
        cases herror
    | addDevice grant =>
      rcases p.addDevice_cases grant with ⟨_, heq⟩ | ⟨_, -, -, heq⟩
      · rw [call, heq]
      · rw [call, heq] at herror
        cases herror

/-- The test of `add_vm` against one VM (lines 259–271). -/
def refusal (existing policy : VmPolicy DIRECTORIES DEVICES) : Option PolicyError :=
  if existing.name = policy.name then some .duplicateVmName
  else if policy.devices.any fun requested => existing.devices.any fun assigned =>
      assigned.address = requested.address || assigned.iommuGroup = requested.iommuGroup then
    some .deviceAlreadyAssigned
  else none

/-- Two VMs with different names and no device or IOMMU group in common. -/
def Separate (p q : VmPolicy DIRECTORIES DEVICES) : Prop :=
  p.name ≠ q.name ∧ ∀ a ∈ p.devices, ∀ b ∈ q.devices,
    a.address ≠ b.address ∧ a.iommuGroup ≠ b.iommuGroup

theorem Separate.symm {p q : VmPolicy DIRECTORIES DEVICES} (h : p.Separate q) : q.Separate p :=
  ⟨h.1.symm, fun b hb a ha => ⟨(h.2 a ha b hb).1.symm, (h.2 a ha b hb).2.symm⟩⟩

instance : Std.Symm (@Separate DIRECTORIES DEVICES) :=
  ⟨fun _ _ h => h.symm⟩

theorem refusal_eq_none {existing policy : VmPolicy DIRECTORIES DEVICES} :
    existing.refusal policy = none ↔ existing.Separate policy := by
  unfold refusal Separate
  split_ifs with hname hdevice
  · simp [hname]
  · simp only [List.any_eq_true, Bool.or_eq_true, decide_eq_true_eq] at hdevice
    obtain ⟨b, hb, a, ha, hab⟩ := hdevice
    refine iff_of_false (by simp) fun h => ?_
    rcases hab with hab | hab
    · exact (h.2 a ha b hb).1 hab
    · exact (h.2 a ha b hb).2 hab
  · simp only [List.any_eq_true, Bool.or_eq_true, decide_eq_true_eq, not_exists, not_and,
      not_or] at hdevice
    exact iff_of_true rfl ⟨hname, fun a ha b hb => hdevice b hb a ha⟩

end VmPolicy

/-- `SystemPolicy` (lines 245–247). -/
@[ext] structure SystemPolicy (VMS DIRECTORIES DEVICES : ℕ) where
  slots : Fin VMS → Option (VmPolicy DIRECTORIES DEVICES)

namespace SystemPolicy

variable {VMS DIRECTORIES DEVICES : ℕ}

/-- `SystemPolicy::new` (lines 252–256). -/
def new (VMS DIRECTORIES DEVICES : ℕ) : SystemPolicy VMS DIRECTORIES DEVICES := ⟨fun _ => none⟩

/-- `SystemPolicy::vms` (lines 281–283). -/
def vms (s : SystemPolicy VMS DIRECTORIES DEVICES) : List (VmPolicy DIRECTORIES DEVICES) :=
  (List.finRange VMS).filterMap s.slots

@[simp] theorem new_vms : (new VMS DIRECTORIES DEVICES).vms = [] :=
  List.filterMap_eq_nil_iff.mpr fun _ _ => rfl

/-- `SystemPolicy::add_vm` (lines 258–279). -/
def addVm (s : SystemPolicy VMS DIRECTORIES DEVICES) (policy : VmPolicy DIRECTORIES DEVICES) :
    Except PolicyError Unit × SystemPolicy VMS DIRECTORIES DEVICES :=
  match s.vms.findSome? (·.refusal policy) with
  | some error => (.error error, s)
  | none =>
    match firstSlot fun i => (s.slots i).isNone with
    | none => (.error .vmTableFull, s)
    | some i => (.ok (), ⟨Function.update s.slots i (some policy)⟩)

/-! ## Isolation -/

theorem addVm_cases (s : SystemPolicy VMS DIRECTORIES DEVICES)
    (policy : VmPolicy DIRECTORIES DEVICES) :
    (∃ error, s.addVm policy = (.error error, s)) ∨
    ∃ i, (∀ existing ∈ s.vms, existing.Separate policy) ∧ s.slots i = none ∧
      s.addVm policy = (.ok (), ⟨Function.update s.slots i (some policy)⟩) := by
  unfold addVm
  cases hrefusal : s.vms.findSome? (·.refusal policy) with
  | some error => exact .inl ⟨error, rfl⟩
  | none =>
    rw [List.findSome?_eq_none_iff] at hrefusal
    cases hfree : firstSlot fun i => (s.slots i).isNone with
    | none => exact .inl ⟨.vmTableFull, rfl⟩
    | some i =>
      exact .inr ⟨i, fun existing hmem => VmPolicy.refusal_eq_none.mp (hrefusal existing hmem),
        Option.isNone_iff_eq_none.mp (firstSlot_some hfree), rfl⟩

/-- The policies whose call is answered `Ok`, in the order of the calls. -/
def accepted : SystemPolicy VMS DIRECTORIES DEVICES → List (VmPolicy DIRECTORIES DEVICES) →
    List (VmPolicy DIRECTORIES DEVICES)
  | _, [] => []
  | s, policy :: calls =>
    match s.addVm policy with
    | (.ok _, s') => policy :: accepted s' calls
    | (.error _, s') => accepted s' calls

/-- The table after the calls holds what it held before and the accepted policies, each in a
    slot of its own, and nothing else. -/
theorem accepted_perm_vms (s : SystemPolicy VMS DIRECTORIES DEVICES)
    (calls : List (VmPolicy DIRECTORIES DEVICES)) :
    (run (fun s policy => (addVm s policy).2) s calls).vms.Perm (s.vms ++ s.accepted calls) := by
  induction calls generalizing s with
  | nil => rw [run_nil, accepted, List.append_nil]
  | cons policy calls ih =>
    rw [run_cons, accepted]
    rcases s.addVm_cases policy with ⟨error, heq⟩ | ⟨i, -, hfree, heq⟩
    · rw [heq]
      exact ih s
    · rw [heq]
      refine (ih _).trans (((filterMap_update_perm hfree policy).append_right _).trans ?_)
      exact List.perm_middle.symm

/-- Every two VMs of the table are separate. -/
def Isolated (s : SystemPolicy VMS DIRECTORIES DEVICES) : Prop :=
  s.vms.Pairwise VmPolicy.Separate

theorem Isolated.addVm {s : SystemPolicy VMS DIRECTORIES DEVICES} (h : s.Isolated)
    (policy : VmPolicy DIRECTORIES DEVICES) : (s.addVm policy).2.Isolated := by
  rcases s.addVm_cases policy with ⟨error, heq⟩ | ⟨i, hseparate, hfree, heq⟩
  · rwa [heq]
  · rw [heq]
    refine ((filterMap_update_perm hfree policy).pairwise_iff VmPolicy.Separate.symm).mpr ?_
    exact List.pairwise_cons.mpr ⟨fun q hq => (hseparate q hq).symm, h⟩

theorem vms_perm_accepted (calls : List (VmPolicy DIRECTORIES DEVICES)) :
    (run (fun s policy => (addVm s policy).2) (new VMS DIRECTORIES DEVICES) calls).vms.Perm
      ((new VMS DIRECTORIES DEVICES).accepted calls) := by
  have hheld := (new VMS DIRECTORIES DEVICES).accepted_perm_vms calls
  rwa [new_vms, List.nil_append] at hheld

theorem accepted_pairwise (calls : List (VmPolicy DIRECTORIES DEVICES)) :
    ((new VMS DIRECTORIES DEVICES).accepted calls).Pairwise VmPolicy.Separate := by
  refine ((vms_perm_accepted calls).pairwise_iff VmPolicy.Separate.symm).mp ?_
  refine run_invariant (P := Isolated) (fun s policy h => h.addVm policy) ?_ calls
  rw [Isolated, new_vms]
  exact List.Pairwise.nil

/-- **Main theorem.** After every sequence of `add_vm` calls on a new launch policy, the table
    holds exactly the policies whose call succeeded, each in a slot of its own; every two of
    them have different names and no device address or IOMMU group in common; and a rejected
    call leaves the policy as it was. -/
theorem system_policy_isolation (calls : List (VmPolicy DIRECTORIES DEVICES)) :
    (run (fun s policy => (addVm s policy).2) (new VMS DIRECTORIES DEVICES) calls).vms.Perm
      ((new VMS DIRECTORIES DEVICES).accepted calls) ∧
    ((new VMS DIRECTORIES DEVICES).accepted calls).Pairwise VmPolicy.Separate ∧
    ∀ (s : SystemPolicy VMS DIRECTORIES DEVICES) (policy : VmPolicy DIRECTORIES DEVICES)
      (error : PolicyError), (s.addVm policy).1 = .error error → (s.addVm policy).2 = s := by
  refine ⟨vms_perm_accepted calls, accepted_pairwise calls, ?_⟩
  intro s policy error herror
  rcases s.addVm_cases policy with ⟨_, heq⟩ | ⟨_, -, -, heq⟩
  · rw [heq]
  · rw [heq] at herror
    cases herror

/-- Where an accepted VM has a device that a topology granted, every device of its IOMMU group
    can be reset and is assigned with it, and no other accepted VM has a grant of that topology
    for a device of the group. -/
theorem accepted_group_exclusive {calls : List (VmPolicy DIRECTORIES DEVICES)}
    {p q : VmPolicy DIRECTORIES DEVICES}
    (hp : p ∈ (new VMS DIRECTORIES DEVICES).accepted calls)
    (hq : q ∈ (new VMS DIRECTORIES DEVICES).accepted calls) (hpq : p.name ≠ q.name)
    {t : IommuTopology} {address : DeviceAddress} {assigned : List DeviceAddress}
    {g : DeviceGrant} (hgrant : t.grant address assigned = .ok g) (hg : g ∈ p.devices)
    {d : HostDevice} (hd : d ∈ t.devices) (hgroup : d.iommuGroup = g.iommuGroup) :
    d.resetSupported = true ∧ d.address ∈ assigned ∧
    ∀ assigned' r, t.grant d.address assigned' = .ok r → r ∉ q.devices := by
  obtain ⟨-, -, hwhole⟩ := t.grant_eq_ok_iff.mp hgrant
  obtain ⟨hreset, hassigned⟩ := hwhole d hd hgroup
  refine ⟨hreset, hassigned, fun assigned' r hr hmem => ?_⟩
  have hseparate : p.Separate q :=
    (accepted_pairwise calls).forall hp hq fun h => hpq (congrArg VmPolicy.name h)
  obtain ⟨-, ⟨e, he, headdress, hegroup⟩, -⟩ := t.grant_eq_ok_iff.mp hr
  obtain rfl := t.eq_of_address_eq he hd headdress
  exact (hseparate.2 g hg r hmem).2 (hgroup.symm.trans hegroup)

end SystemPolicy

end Mrml.Kernel
