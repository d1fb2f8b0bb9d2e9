import Mrml.Common.Trap
import Mrml.Common.Wire

/-!
# The processors of the MADT

Model of `X86CpuTopology::parse_madt` (`crates/mrml-kernel/src/arch/x86_64/topology.rs`,
lines 1–219). A read outside the table is a panic, and so is a walk that does not end.

Results:
* `safe_walk`: the walk over the entries ends, reads inside the table and lists the enabled
  processors of the entries that it has framed.
* `parse_madt_exact`: what an accepted table is.
-/

namespace Mrml.Arch

open Proc

/-- `MADT_HEADER_BYTES` (line 7). -/
def madtHeaderBytes : ℕ := 44

/-- `LOCAL_APIC_ENTRY_BYTES` (line 8). -/
def localApicEntryBytes : ℕ := 8

/-- `LOCAL_X2APIC_ENTRY_BYTES` (line 9). -/
def localX2apicEntryBytes : ℕ := 16

/-- `MAX_X86_64_CPUS` (`privilege_stack.rs`, line 4). -/
def maxX86Cpus : ℕ := 256

/-- `TopologyError` (lines 12–33). -/
inductive TopologyError
  | truncated
  | wrongSignature
  | nonCanonicalLength
  | badChecksum
  | malformedEntry
  | reservedFlags
  | invalidApicId
  | invalidLocalApicAddress
  | duplicateLocalApicOverride
  | duplicateApicId
  | duplicateFirmwareId
  | tooManyCpus
  | noEnabledCpu
  | missingBootstrapCpu
  | invalidCpu
  | invalidState
  | invalidStartupVector
  | staleStartup
  | generationExhausted
deriving DecidableEq

/-- `X86Cpu` (lines 35–40). -/
structure X86Cpu where
  apicId : UInt32
  firmwareId : UInt32
  x2apic : Bool
deriving DecidableEq

/-- `X86CpuTopology` (lines 54–59), with what `admit` checks. -/
structure X86CpuTopology where
  cpus : List X86Cpu
  localApicAddress : UInt64
  addressOverridden : Bool
  length_le : cpus.length ≤ maxX86Cpus
  nodup_apicId : (cpus.map X86Cpu.apicId).Nodup
  nodup_firmwareId : (cpus.map X86Cpu.firmwareId).Nodup

namespace X86CpuTopology

/-- `b"APIC"`. -/
def madtSignature : List UInt8 := [0x41, 0x50, 0x49, 0x43]

/-- `read_u32` (lines 446–448), which panics outside the input. -/
def readU32At (input : List UInt8) (offset : ℕ) : Proc TopologyError Unit UInt32 := do
  let bytes ← index input offset (offset + 4)
  return UInt32.ofNat (leNat bytes)

/-- `read_u64` (lines 450–452). -/
def readU64At (input : List UInt8) (offset : ℕ) : Proc TopologyError Unit UInt64 := do
  let bytes ← index input offset (offset + 8)
  return UInt64.ofNat (leNat bytes)

/-- `input[offset]`. -/
def byteIn (input : List UInt8) (offset : ℕ) : Proc TopologyError Unit UInt8 := do
  let bytes ← index input offset (offset + 1)
  return byteAt bytes 0

/-- `X86CpuTopology::admit` (lines 178–219). -/
def admitCpu (topology : X86CpuTopology) (apicId firmwareId flags : UInt32) (x2apic : Bool) :
    Except TopologyError X86CpuTopology :=
  if flags &&& ~~~3 ≠ 0 then .error .reservedFlags
  else if flags &&& 1 = 0 then .ok topology
  else if (x2apic = false ∧ apicId ≥ 0xff) ∨ (x2apic = true ∧ apicId = 0xffffffff) then
    .error .invalidApicId
  else if hapic : apicId ∈ topology.cpus.map X86Cpu.apicId then .error .duplicateApicId
  else if hfirmware : firmwareId ∈ topology.cpus.map X86Cpu.firmwareId then
    .error .duplicateFirmwareId
  else if hroom : topology.cpus.length < maxX86Cpus then
    .ok { topology with
      cpus := topology.cpus ++ [⟨apicId, firmwareId, x2apic⟩]
      length_le := by
        rw [List.length_append, List.length_singleton]
        omega
      nodup_apicId := by
        rw [List.map_append, List.map_singleton, ← List.concat_eq_append]
        exact topology.nodup_apicId.concat hapic
      nodup_firmwareId := by
        rw [List.map_append, List.map_singleton, ← List.concat_eq_append]
        exact topology.nodup_firmwareId.concat hfirmware }
  else .error .tooManyCpus

/-- The match on the type of an entry (lines 105–140). -/
def visit (topology : X86CpuTopology) (entryType : UInt8) (entry : List UInt8) :
    Proc TopologyError Unit X86CpuTopology :=
  match entryType with
  | 0 => do
    ofExcept (refuseIf (entry.length ≠ localApicEntryBytes) .malformedEntry)
    let apicId ← byteIn entry 3
    let firmwareId ← byteIn entry 2
    let flags ← readU32At entry 4
    ofExcept (topology.admitCpu apicId.toUInt32 firmwareId.toUInt32 flags false)
  | 9 => do
    ofExcept (refuseIf (entry.length ≠ localX2apicEntryBytes) .malformedEntry)
    let reserved ← index entry 2 4
    ofExcept (refuseIf (anyNonzero reserved) .malformedEntry)
    let apicId ← readU32At entry 4
    let firmwareId ← readU32At entry 12
    let flags ← readU32At entry 8
    ofExcept (topology.admitCpu apicId firmwareId flags true)
  | 5 => do
    ofExcept (refuseIf (entry.length ≠ 12) .malformedEntry)
    let reserved ← index entry 2 4
    ofExcept (refuseIf (anyNonzero reserved) .malformedEntry)
    ofExcept (refuseIf (topology.addressOverridden = true) .duplicateLocalApicOverride)
    let localApicAddress ← readU64At entry 4
    return { topology with localApicAddress, addressOverridden := true }
  | _ => return topology

/-- The loop of `parse_madt` (lines 91–142), for at most `fuel` entries. -/
def walk (input : List UInt8) : ℕ → ℕ → X86CpuTopology → Proc TopologyError Unit X86CpuTopology
  | 0, _, _ => outOfFuel
  | fuel + 1, offset, topology =>
    if input.length ≤ offset then return topology
    else do
      -- `get(offset..offset + 2)`
      ofExcept (refuseIf (input.length < offset + 2) .malformedEntry)
      let header ← index input offset (offset + 2)
      let entryType ← byteIn header 0
      let declared ← byteIn header 1
      ofExcept (refuseIf (declared.toNat < 2) .malformedEntry)
      ofExcept (refuseIf (input.length < offset + declared.toNat) .malformedEntry)
      let entry ← index input offset (offset + declared.toNat)
      let topology ← topology.visit entryType entry
      walk input fuel (offset + declared.toNat) topology

/-- `parse_madt` (lines 64–152). Every entry has two bytes, so that the loop ends. -/
def parse (input : List UInt8) : Proc TopologyError Unit X86CpuTopology := do
  ofExcept (refuseIf (input.length < madtHeaderBytes) .truncated)
  let signature ← index input 0 4
  ofExcept (refuseIf (signature ≠ madtSignature) .wrongSignature)
  let encodedLength ← readU32At input 4
  ofExcept (refuseIf (encodedLength.toNat ≠ input.length ∨ encodedLength.toNat < madtHeaderBytes)
    .nonCanonicalLength)
  ofExcept (refuseIf (input.foldl (· + ·) 0 ≠ 0) .badChecksum)
  let flags ← readU32At input 40
  ofExcept (refuseIf (flags &&& ~~~1 ≠ 0) .reservedFlags)
  let localApicAddress ← readU32At input 36
  let topology ← walk input (input.length + 1) madtHeaderBytes
    ⟨[], localApicAddress.toUInt64, false, Nat.zero_le _, List.nodup_nil, List.nodup_nil⟩
  ofExcept (refuseIf (topology.cpus.length = 0) .noEnabledCpu)
  ofExcept (refuseIf (topology.localApicAddress = 0 ∨ topology.localApicAddress % 4096 ≠ 0 ∨
    topology.localApicAddress >>> 52 ≠ 0) .invalidLocalApicAddress)
  return topology

/-- `X86CpuTopology::parse_madt`. -/
def parseMadt (input : List UInt8) : Except (Fault TopologyError) X86CpuTopology :=
  (parse input ()).1

/-- `X86CpuTopology::index_of_apic` (lines 171–176). -/
def indexOfApic (topology : X86CpuTopology) (apicId : UInt32) : Except TopologyError ℕ :=
  okOr (topology.cpus.findIdx? fun cpu => cpu.apicId == apicId) .missingBootstrapCpu

/-! ## What the entries say -/

/-- The processor of an enabled local APIC entry or local x2APIC entry. -/
def enabledCpu (entry : List UInt8) : Option X86Cpu :=
  if byteAt entry 0 = 0 ∧ readU32 entry 4 &&& 1 ≠ 0 then
    some ⟨(byteAt entry 3).toUInt32, (byteAt entry 2).toUInt32, false⟩
  else if byteAt entry 0 = 9 ∧ readU32 entry 8 &&& 1 ≠ 0 then
    some ⟨readU32 entry 4, readU32 entry 12, true⟩
  else none

/-- The entries follow each other without a gap, each of the length that it declares. -/
def Framed (table : List UInt8) (entries : List (List UInt8)) : Prop :=
  entries.flatten = table ∧ ∀ entry ∈ entries, 2 ≤ entry.length ∧ entry.length = (byteAt entry 1).toNat

/-! ## The walk -/

section Walk

variable {I : Unit → Prop}

theorem safe_readU32At {input : List UInt8} {offset : ℕ} (h : offset + 4 ≤ input.length) :
    Safe I (readU32At input offset) fun value => value = readU32 input offset := by
  refine (safe_index (Nat.le_add_right _ _) h).bind fun bytes hbytes => safe_pure ?_
  rw [hbytes, Nat.add_sub_cancel_left, readU32]

theorem safe_readU64At {input : List UInt8} {offset : ℕ} (h : offset + 8 ≤ input.length) :
    Safe I (readU64At input offset) fun value => value = readU64 input offset := by
  refine (safe_index (Nat.le_add_right _ _) h).bind fun bytes hbytes => safe_pure ?_
  rw [hbytes, Nat.add_sub_cancel_left, readU64]

theorem safe_byteIn {input : List UInt8} {offset : ℕ} (h : offset + 1 ≤ input.length) :
    Safe I (byteIn input offset) fun value => value = byteAt input offset := by
  refine (safe_index (Nat.le_add_right _ _) h).bind fun bytes hbytes => safe_pure ?_
  rw [hbytes, Nat.add_sub_cancel_left, slice_one h]
  rfl

/-- An enabled processor is added last, any other changes nothing. -/
theorem admitCpu_eq_ok {topology topology' : X86CpuTopology} {apicId firmwareId flags : UInt32}
    {x2apic : Bool} (h : topology.admitCpu apicId firmwareId flags x2apic = .ok topology') :
    topology'.cpus =
      topology.cpus ++ if flags &&& 1 ≠ 0 then [⟨apicId, firmwareId, x2apic⟩] else [] := by
  unfold admitCpu at h
  split_ifs at h with hreserved hdisabled
  · obtain rfl := Except.ok.inj h
    rw [if_neg (not_not.mpr hdisabled), List.append_nil]
  · obtain rfl := Except.ok.inj h
    rw [if_pos hdisabled]

/-- The entry types that are not those of a processor. -/
theorem enabledCpu_of_ne {entry : List UInt8} (hapic : byteAt entry 0 ≠ 0)
    (hx2apic : byteAt entry 0 ≠ 9) : enabledCpu entry = none := by
  rw [enabledCpu, if_neg (fun h => hapic h.1), if_neg (fun h => hx2apic h.1)]

theorem toList_enabledCpu_apic {entry : List UInt8} (h : byteAt entry 0 = 0) :
    (enabledCpu entry).toList = if readU32 entry 4 &&& 1 ≠ 0 then
      [⟨(byteAt entry 3).toUInt32, (byteAt entry 2).toUInt32, false⟩] else [] := by
  have hother : byteAt entry 0 ≠ 9 := by rw [h]; decide
  unfold enabledCpu
  by_cases henabled : readU32 entry 4 &&& 1 ≠ 0
  · rw [if_pos ⟨h, henabled⟩, if_pos henabled]
    rfl
  · rw [if_neg (fun hboth => henabled hboth.2), if_neg (fun hboth => hother hboth.1),
      if_neg henabled]
    rfl

theorem toList_enabledCpu_x2apic {entry : List UInt8} (h : byteAt entry 0 = 9) :
    (enabledCpu entry).toList = if readU32 entry 8 &&& 1 ≠ 0 then
      [⟨readU32 entry 4, readU32 entry 12, true⟩] else [] := by
  have hother : byteAt entry 0 ≠ 0 := by rw [h]; decide
  unfold enabledCpu
  rw [if_neg (fun hboth => hother hboth.1)]
  by_cases henabled : readU32 entry 8 &&& 1 ≠ 0
  · rw [if_pos ⟨h, henabled⟩, if_pos henabled]
    rfl
  · rw [if_neg (fun hboth => henabled hboth.2), if_neg henabled]
    rfl

/-- One entry adds its enabled processor. -/
theorem safe_visit (topology : X86CpuTopology) {entryType : UInt8} {entry : List UInt8}
    (htype : entryType = byteAt entry 0) :
    Safe I (topology.visit entryType entry) fun topology' =>
      topology'.cpus = topology.cpus ++ (enabledCpu entry).toList := by
  unfold visit
  split
  · refine safe_refuseIf.bind fun _ hlength => ?_
    have hlen : entry.length = 8 := not_not.mp hlength
    refine (safe_byteIn (by omega)).bind fun apicId hapic => ?_
    refine (safe_byteIn (by omega)).bind fun firmwareId hfirmware => ?_
    refine (safe_readU32At (by omega)).bind fun flags hflags => ?_
    refine safe_ofExcept fun topology' h => ?_
    rw [admitCpu_eq_ok h, toList_enabledCpu_apic htype.symm, hapic, hfirmware, hflags]
  · refine safe_refuseIf.bind fun _ hlength => ?_
    have hlen : entry.length = 16 := not_not.mp hlength
    refine (safe_index (by omega) (by omega)).bind fun reserved _ => ?_
    refine safe_refuseIf.bind fun _ _ => ?_
    refine (safe_readU32At (by omega)).bind fun apicId hapic => ?_
    refine (safe_readU32At (by omega)).bind fun firmwareId hfirmware => ?_
    refine (safe_readU32At (by omega)).bind fun flags hflags => ?_
    refine safe_ofExcept fun topology' h => ?_
    rw [admitCpu_eq_ok h, toList_enabledCpu_x2apic htype.symm, hapic, hfirmware, hflags]
  · refine safe_refuseIf.bind fun _ hlength => ?_
    have hlen : entry.length = 12 := not_not.mp hlength
    refine (safe_index (by omega) (by omega)).bind fun reserved _ => ?_
    refine safe_refuseIf.bind fun _ _ => ?_
    refine safe_refuseIf.bind fun _ _ => ?_
    refine (safe_readU64At (by omega)).bind fun localApicAddress _ => safe_pure ?_
    rw [enabledCpu_of_ne (by rw [← htype]; decide) (by rw [← htype]; decide), Option.toList_none,
      List.append_nil]
  · next hapic hx2apic _ =>
    refine safe_pure ?_
    rw [enabledCpu_of_ne (fun h => hapic (htype.trans h)) (fun h => hx2apic (htype.trans h)),
      Option.toList_none, List.append_nil]

theorem filterMap_cons_toList (entry : List UInt8) (entries : List (List UInt8)) :
    (entry :: entries).filterMap enabledCpu =
      (enabledCpu entry).toList ++ entries.filterMap enabledCpu := by
  rw [List.filterMap_cons]
  cases enabledCpu entry <;> rfl

/-- **Run lemma.** The walk ends at the end of the table, reads inside it and lists the enabled
    processors of the entries in between. -/
theorem safe_walk (input : List UInt8) {fuel offset : ℕ} (topology : X86CpuTopology)
    (hfuel : input.length < fuel + offset) (hoffset : offset ≤ input.length) :
    Safe I (walk input fuel offset topology) fun topology' => ∃ entries,
      Framed (input.drop offset) entries ∧
      topology'.cpus = topology.cpus ++ entries.filterMap enabledCpu := by
  induction fuel generalizing offset topology with
  | zero => omega
  | succ fuel ih =>
    unfold walk
    split_ifs with hend
    · refine safe_pure ⟨[], ⟨?_, nofun⟩, ?_⟩
      · rw [List.drop_of_length_le hend, List.flatten_nil]
      · rw [List.filterMap_nil, List.append_nil]
    · refine safe_refuseIf.bind fun _ htwo => ?_
      refine (safe_index (by omega) (by omega)).bind fun header hheader => ?_
      rw [Nat.add_sub_cancel_left] at hheader
      have hlength : header.length = 2 := by
        rw [hheader, length_slice (by omega)]
      refine (safe_byteIn (by omega)).bind fun entryType htype => ?_
      refine (safe_byteIn (by omega)).bind fun declared hdeclared => ?_
      refine safe_refuseIf.bind fun _ hmin => ?_
      refine safe_refuseIf.bind fun _ hmax => ?_
      refine (safe_index (by omega) (by omega)).bind fun entry hentry => ?_
      rw [Nat.add_sub_cancel_left] at hentry
      have hentryLength : entry.length = declared.toNat := by
        rw [hentry, length_slice (by omega)]
      -- the header is the beginning of the entry
      have hfront : header = slice entry 0 2 := by
        rw [hheader, hentry, slice_slice (by omega), Nat.add_zero]
      have hbyte : ∀ i < 2, byteAt header i = byteAt entry i := by
        intro i hi
        rw [hfront]
        simp only [byteAt, slice, List.drop_zero, List.getD_eq_getElem?_getD]
        rw [List.getElem?_take_of_lt hi]
      refine (safe_visit topology (htype.trans (hbyte 0 (by omega)))).bind fun topology₁ hcpus => ?_
      refine (ih topology₁ (by omega) (by omega)).imp ?_
      rintro topology' ⟨entries, ⟨hflatten, hlengths⟩, hrest⟩
      refine ⟨entry :: entries, ⟨?_, List.forall_mem_cons.mpr ⟨⟨by omega, ?_⟩, hlengths⟩⟩, ?_⟩
      · rw [List.flatten_cons, hflatten, hentry, slice, ← List.drop_drop, List.take_append_drop]
      · rw [hentryLength, hdeclared, hbyte 1 (by omega)]
      · rw [hrest, hcpus, filterMap_cons_toList, List.append_assoc]

/-- What an accepted table is. -/
structure Lists (input : List UInt8) (topology : X86CpuTopology) : Prop where
  framed : ∃ entries, Framed (input.drop madtHeaderBytes) entries ∧
    topology.cpus = entries.filterMap enabledCpu
  apicIds : (topology.cpus.map X86Cpu.apicId).Nodup
  firmwareIds : (topology.cpus.map X86Cpu.firmwareId).Nodup
  bounded : topology.cpus.length ≤ 256

theorem safe_parse (input : List UInt8) : Safe I (parse input) (Lists input) := by
  have hmadt : madtHeaderBytes = 44 := rfl
  unfold parse
  refine safe_refuseIf.bind fun _ hheader => ?_
  refine (safe_index (by omega) (by omega)).bind fun signature _ => ?_
  refine safe_refuseIf.bind fun _ _ => ?_
  refine (safe_readU32At (by omega)).bind fun encodedLength _ => ?_
  refine safe_refuseIf.bind fun _ _ => ?_
  refine safe_refuseIf.bind fun _ _ => ?_
  refine (safe_readU32At (by omega)).bind fun flags _ => ?_
  refine safe_refuseIf.bind fun _ _ => ?_
  refine (safe_readU32At (by omega)).bind fun localApicAddress _ => ?_
  refine (safe_walk input _ (by omega) (by omega)).bind fun topology hwalk => ?_
  refine safe_refuseIf.bind fun _ _ => ?_
  refine safe_refuseIf.bind fun _ _ => safe_pure ?_
  obtain ⟨entries, hframed, hcpus⟩ := hwalk
  exact ⟨⟨entries, hframed, hcpus⟩, topology.nodup_apicId, topology.nodup_firmwareId,
    topology.length_le⟩

end Walk

/-- **Main theorem.** On every byte string, `parse_madt` ends without a read outside of the
    table. What it accepts is framed by the lengths of its entries, and the topology lists the
    processors of the enabled local APIC and x2APIC entries in the order of the table, with
    distinct APIC ids, distinct firmware ids and at most 256 of them. -/
theorem parse_madt_exact (input : List UInt8) :
    (∃ error, parseMadt input = .error (.error error)) ∨
    ∃ topology, parseMadt input = .ok topology ∧ Lists input topology := by
  have hreturns := (safe_parse input (I := fun _ => True) () trivial).1
  unfold parseMadt
  match hresult : (parse input ()).1 with
  | .ok topology =>
    rw [hresult] at hreturns
    exact .inr ⟨topology, rfl, hreturns⟩
  | .error (.error error) => exact .inl ⟨error, rfl⟩
  | .error .panic => exact absurd hresult hreturns.ne_panic
  | .error .unfinished => exact absurd hresult hreturns.ne_unfinished

end X86CpuTopology

end Mrml.Arch
