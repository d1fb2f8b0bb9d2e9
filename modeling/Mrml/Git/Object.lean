import Mrml.Common.Checked
import Mrml.Common.Text
import Mrml.Git.Index

/-!
# Objects

Model of the objects of `crates/mrml-git/src/object.rs`: their kinds and names, tree objects,
and the object store as a map from names to objects. The store is content-addressed
(`Store.addressed`), and `write_object` leaves an object alone that is already there.

Results:
* `parseTree_encode`: a tree object whose names are components of valid paths reads back.
* `Store.get_writeAll`: after writes without collisions every object is found by its name.
-/

namespace Mrml.Git

/-- `ObjectKind` (lines 8–13). -/
inductive ObjectKind
  | blob
  | tree
  | commit
  | tag
deriving DecidableEq

/-- `ObjectKind::name` (lines 47–54). -/
def ObjectKind.name : ObjectKind → Text
  | .blob => "blob".toList
  | .tree => "tree".toList
  | .commit => "commit".toList
  | .tag => "tag".toList

/-- `Object` (lines 16–19). -/
structure Object where
  kind : ObjectKind
  contents : List UInt8
deriving DecidableEq

/-- `ObjectError` (lines 37–44). -/
inductive ObjectError
  | truncated
  | unsupportedCompression
  | invalidBlock
  | invalidChecksum
  | invalidHeader
  | sizeMismatch
deriving DecidableEq

/-- `FileError` (`crates/mrml-runtime/src/file.rs`, lines 5–17). -/
inductive FileError
  | invalidPath
  | openFailed
  | readFailed
  | unexpectedEnd
  | seekFailed
  | metadataFailed
  | invalidUtf8
  | writeFailed
  | directoryFailed
  | removeFailed
  | renameFailed
deriving DecidableEq

/-- `PackError` (`pack.rs`, lines 17–29). -/
inductive PackError
  | truncated
  | signature
  | version
  | checksum
  | tooManyObjects
  | tooLarge
  | objectType
  | compression
  | delta
  | missingBase
  | trailingData
deriving DecidableEq

/-- `RepositoryError` (`repository.rs`, lines 68–93). -/
inductive RepositoryError
  | file (error : FileError)
  | index (error : IndexError)
  | notRepository
  | alreadyExists
  | unsupportedLayout
  | invalidHead
  | invalidReference
  | tooManyFiles
  | tooDeep
  | unsupportedFileType
  | fileTooLarge
  | invalidWorktreePath
  | conflictedIndex
  | detachedHead
  | invalidIdentity
  | referenceExists
  | referenceMissing
  | currentBranch
  | object (error : ObjectError)
  | pack (error : PackError)
  | worktreeDirty
  | noChanges
  | mergeRequired
  | signing
deriving DecidableEq

/-! ## Names of objects -/

namespace Object

/-- The header of a loose object: kind, length and a NUL byte (line 61). -/
def header (object : Object) : List UInt8 :=
  Text.asBytes (object.kind.name ++ ' ' :: Nat.toDigits 10 object.contents.length) ++ [0]

/-- The name of an object: the digest of its header and contents (lines 62–65). -/
def id (object : Object) : ObjectId :=
  ⟨((Sha1.new.update object.header).update object.contents).finalize⟩

end Object

/-! ## Tree objects -/

/-- `TreeEntry` (lines 30–34). -/
structure TreeEntry where
  mode : UInt32
  name : Text
  id : ObjectId
deriving DecidableEq

/-- The mode of a directory, `0o40000`. -/
def directoryMode : UInt32 := 0o40000

/-- `{:o}`. -/
def octal (mode : UInt32) : List UInt8 := Text.asBytes (Nat.toDigits 8 mode.toNat)

/-- One entry of a tree object (`repository.rs`, lines 2119–2124). -/
def TreeEntry.encode (entry : TreeEntry) : List UInt8 :=
  octal entry.mode ++ 0x20 :: (entry.name.asBytes ++ 0 :: entry.id.bytes.toList)

/-- `0x30..=0x37`. -/
def isOctalDigit (byte : UInt8) : Bool := 0x30 ≤ byte && byte ≤ 0x37

/-- The value of octal digits, if it fits in a `u32` (lines 150–151). -/
def octalValue (digits : List UInt8) : Option UInt32 :=
  digits.foldlM (fun mode byte =>
    if mode.toNat * 8 + (byte.toNat - 0x30) < 2 ^ 32 then
      some (mode * 8 + (byte - 0x30).toUInt32)
    else none) 0

/-- Modes that a tree object may have (line 159). -/
def knownMode (mode : UInt32) : Bool :=
  mode == directoryMode || mode == 0o100644 || mode == 0o100755 || mode == 0o120000 ||
    mode == 0o160000

/-- A name that no tree entry may have (line 155). -/
def badName (name : Text) : Bool :=
  name.isEmpty || name == ['.'] || name == ['.', '.'] || name.contains '/' ||
    name.contains '\\' || name.any Text.isControl

/-- One turn of the loop of `parse_tree`, on the bytes from the cursor on (lines 147–160). -/
def parseTreeEntry (contents : List UInt8) : Except ObjectError (TreeEntry × List UInt8) := do
  let space ← okOr (contents.findIdx? (· == 0x20)) ObjectError.invalidHeader
  let modeText := contents.take space
  refuseIf ((Text.fromUtf8 modeText).isNone) ObjectError.invalidHeader
  refuseIf (modeText.isEmpty || !modeText.all isOctalDigit) ObjectError.invalidHeader
  let mode ← okOr (octalValue modeText) ObjectError.invalidHeader
  let contents := contents.drop (space + 1)
  let nul ← okOr (contents.findIdx? (· == 0)) ObjectError.truncated
  let name ← okOr (Text.fromUtf8 (contents.take nul)) ObjectError.invalidHeader
  refuseIf (badName name) ObjectError.invalidHeader
  let contents := contents.drop (nul + 1)
  refuseIf (contents.length < 20) ObjectError.truncated
  let id : ObjectId := ⟨arrayAt contents 0 20⟩
  refuseIf (!knownMode mode) ObjectError.invalidHeader
  return (⟨mode, name, id⟩, contents.drop 20)

theorem length_of_parseTreeEntry {contents rest : List UInt8} {entry : TreeEntry}
    (h : parseTreeEntry contents = .ok (entry, rest)) : rest.length < contents.length := by
  unfold parseTreeEntry at h
  obtain ⟨space, hspace, h⟩ := bind_eq_ok.mp h
  obtain ⟨_, _, h⟩ := bind_eq_ok.mp h
  obtain ⟨_, _, h⟩ := bind_eq_ok.mp h
  obtain ⟨_, _, h⟩ := bind_eq_ok.mp h
  obtain ⟨nul, _, h⟩ := bind_eq_ok.mp h
  obtain ⟨_, _, h⟩ := bind_eq_ok.mp h
  obtain ⟨_, _, h⟩ := bind_eq_ok.mp h
  obtain ⟨_, _, h⟩ := bind_eq_ok.mp h
  obtain ⟨_, _, h⟩ := bind_eq_ok.mp h
  have hrest := (Prod.mk.inj (Except.ok.inj h)).2
  obtain ⟨hlt, _⟩ := List.findIdx?_eq_some_iff_getElem.mp (okOr_eq_ok.mp hspace)
  rw [← hrest]
  simp only [List.length_drop]
  omega

/-- `parse_tree` (lines 143–163), on the bytes from the cursor on. -/
def parseTree (contents : List UInt8) : Except ObjectError (List TreeEntry) :=
  if contents.length = 0 then .ok []
  else do
    let ⟨(entry, rest), _h⟩ ← attach (parseTreeEntry contents)
    let entries ← parseTree rest
    return entry :: entries
termination_by contents.length
decreasing_by exact length_of_parseTreeEntry _h

/-- The digits of a mode are ASCII digits. -/
theorem mem_octal {mode : UInt32} {byte : UInt8} (h : byte ∈ octal mode) :
    0x30 ≤ byte.toNat ∧ byte.toNat ≤ 0x39 := by
  have hdigit : ∀ c ∈ Nat.toDigits 8 mode.toNat, 48 ≤ c.toNat ∧ c.toNat ≤ 57 := fun c hc =>
    Char.isDigit_iff_toNat.mp (Nat.isDigit_of_mem_toDigits (by decide) (by decide) hc)
  rw [octal, Text.asBytes_of_ascii fun c hc => by have := hdigit c hc; omega] at h
  obtain ⟨c, hc, rfl⟩ := List.mem_map.mp h
  have := hdigit c hc
  rw [UInt8.toNat_ofNat']
  omega

theorem space_notMem_octal (mode : UInt32) : (0x20 : UInt8) ∉ octal mode := fun h =>
  absurd (mem_octal h).1 (by decide)

theorem octal_injective : Function.Injective octal := by
  intro mode mode' h
  have hdigits := congrArg (Nat.ofDigitChars 8 · 0) (Text.asBytes_injective h)
  simp only [Nat.ofDigitChars_toDigits (b := 8) (by decide) (by decide)] at hdigits
  exact UInt32.toNat_inj.mp hdigits

/-- A name without NUL bytes. -/
def TreeEntry.Plain (entry : TreeEntry) : Prop := (0 : UInt8) ∉ entry.name.asBytes

/-- The entries of a tree object are given by its bytes. -/
theorem encode_append_inj {entry entry' : TreeEntry} (h : entry.Plain) (h' : entry'.Plain)
    {rest rest' : List UInt8} (heq : entry.encode ++ rest = entry'.encode ++ rest') :
    entry = entry' ∧ rest = rest' := by
  obtain ⟨mode, name, id⟩ := entry
  obtain ⟨mode', name', id'⟩ := entry'
  simp only [TreeEntry.encode, List.append_assoc, List.cons_append] at heq
  obtain ⟨hmode, heq⟩ := append_cons_inj_of_notMem (space_notMem_octal mode)
    (space_notMem_octal mode') heq
  obtain ⟨hname, heq⟩ := append_cons_inj_of_notMem h h' heq
  have hlength : id.bytes.toList.length = id'.bytes.toList.length := by simp
  obtain ⟨hid, hrest⟩ := List.append_inj heq hlength
  obtain rfl := octal_injective hmode
  obtain rfl := Text.asBytes_injective hname
  have hid' : id = id' := congrArg ObjectId.mk (Vector.toList_inj.mp hid)
  exact ⟨by rw [hid'], hrest⟩

theorem encode_ne_nil (entry : TreeEntry) : entry.encode ≠ [] := by
  simp [TreeEntry.encode]

theorem encode_entries_injective {entries entries' : List TreeEntry}
    (h : ∀ entry ∈ entries, entry.Plain) (h' : ∀ entry ∈ entries', entry.Plain)
    (heq : entries.flatMap TreeEntry.encode = entries'.flatMap TreeEntry.encode) :
    entries = entries' := by
  induction entries generalizing entries' with
  | nil =>
    cases entries' with
    | nil => rfl
    | cons entry' entries' =>
      exact absurd (List.append_eq_nil_iff.mp heq.symm).1 (encode_ne_nil entry')
  | cons entry entries ih =>
    cases entries' with
    | nil => exact absurd (List.append_eq_nil_iff.mp heq).1 (encode_ne_nil entry)
    | cons entry' entries' =>
      obtain ⟨hentry, hentries⟩ := List.forall_mem_cons.mp h
      obtain ⟨hentry', hentries'⟩ := List.forall_mem_cons.mp h'
      obtain ⟨rfl, hrest⟩ := encode_append_inj hentry hentry' heq
      rw [ih hentries hentries' hrest]

/-- The modes that this program writes into tree objects. -/
def writtenMode (mode : UInt32) : Prop :=
  mode = directoryMode ∨ mode = 0o100644 ∨ mode = 0o100755

theorem writtenMode_reads {mode : UInt32} (h : writtenMode mode) :
    (Text.fromUtf8 (octal mode)).isNone = false ∧
      ((octal mode).isEmpty || !(octal mode).all isOctalDigit) = false ∧
      octalValue (octal mode) = some mode ∧ knownMode mode = true := by
  refine ⟨by rw [octal, Text.fromUtf8_asBytes]; rfl, ?_⟩
  rcases h with rfl | rfl | rfl <;> decide +kernel

/-- A name without bad characters has no NUL byte. -/
theorem plain_of_badName {entry : TreeEntry} (h : badName entry.name = false) : entry.Plain := by
  intro hmem
  have hchar : Char.ofNat 0 ∈ entry.name := Text.mem_asBytes_of_ascii (by decide) hmem
  have hany : entry.name.any Text.isControl = true := List.any_eq_true.mpr ⟨_, hchar, by decide⟩
  rw [badName, hany, Bool.or_true] at h
  exact absurd h (by decide)

/-- **Step lemma.** One entry of a tree object reads back. -/
theorem parseTreeEntry_encode {entry : TreeEntry} (hmode : writtenMode entry.mode)
    (hname : badName entry.name = false) (rest : List UInt8) :
    parseTreeEntry (entry.encode ++ rest) = .ok (entry, rest) := by
  have hplain : (0 : UInt8) ∉ entry.name.asBytes := plain_of_badName hname
  obtain ⟨hutf8, hdigits, hvalue, hknown⟩ := writtenMode_reads hmode
  have hbytes : entry.encode ++ rest = octal entry.mode ++ 0x20 ::
      (entry.name.asBytes ++ 0 :: (entry.id.bytes.toList ++ rest)) := by
    simp only [TreeEntry.encode, List.append_assoc, List.cons_append]
  have hdrop : ∀ (field : List UInt8) (a : UInt8) (rest : List UInt8),
      (field ++ a :: rest).drop (field.length + 1) = rest := by
    intro field a rest
    rw [List.drop_append, List.drop_of_length_le (by omega), Nat.add_sub_cancel_left]
    rfl
  have hlength : ¬ (entry.id.bytes.toList ++ rest).length < 20 := by
    rw [List.length_append, Vector.length_toList]
    omega
  have hid : arrayAt (entry.id.bytes.toList ++ rest) 0 20 = entry.id.bytes :=
    arrayAt_of_slice (by
      rw [slice, List.drop_zero, List.take_left' Vector.length_toList])
  rw [hbytes, parseTreeEntry, findIdx?_append_cons (space_notMem_octal entry.mode), okOr_some,
    ok_bind]
  dsimp only
  rw [List.take_left, refuseIf_of_eq_false hutf8, ok_bind, refuseIf_of_eq_false hdigits, ok_bind,
    hvalue, okOr_some, ok_bind, hdrop, findIdx?_append_cons hplain, okOr_some, ok_bind,
    List.take_left, Text.fromUtf8_asBytes, okOr_some, ok_bind, refuseIf_of_eq_false hname,
    ok_bind, hdrop, refuseIf_of_not hlength, ok_bind, hid, refuseIf_of_eq_false (by rw [hknown]; rfl),
    ok_bind, List.drop_left' Vector.length_toList]
  rfl

/-- **Run lemma.** A tree object reads back. -/
theorem parseTree_encode {entries : List TreeEntry}
    (h : ∀ entry ∈ entries, writtenMode entry.mode ∧ badName entry.name = false) :
    parseTree (entries.flatMap TreeEntry.encode) = .ok entries := by
  induction entries with
  | nil => rw [parseTree]; rfl
  | cons entry entries ih =>
    obtain ⟨⟨hmode, hname⟩, hentries⟩ := List.forall_mem_cons.mp h
    have hstep := parseTreeEntry_encode hmode hname (entries.flatMap TreeEntry.encode)
    have hne : ¬ (entry.encode ++ entries.flatMap TreeEntry.encode).length = 0 := by
      rw [List.length_eq_zero_iff, List.append_eq_nil_iff]
      exact fun hnil => encode_ne_nil entry hnil.1
    have hattach : attach (parseTreeEntry (entry.encode ++ entries.flatMap TreeEntry.encode)) =
        .ok ⟨(entry, entries.flatMap TreeEntry.encode), hstep⟩ := attach_eq
    rw [List.flatMap_cons, parseTree, if_neg hne, hattach, ok_bind]
    dsimp only
    rw [ih hentries, ok_bind]
    rfl

/-! ## The object store -/

/-- The objects of a repository, each under its name. -/
structure Store where
  get : ObjectId → Option Object
  addressed : ∀ id object, get id = some object → object.id = id

namespace Store

/-- `Repository::read_object` (`repository.rs`, lines 203–257), which checks the name. -/
def readObject (store : Store) (id : ObjectId) : Except RepositoryError Object :=
  okOr (store.get id) .referenceMissing

/-- `Repository::write_object` (`repository.rs`, lines 187–201). -/
def writeObject (store : Store) (object : Object) : Store where
  get := if (store.get object.id).isSome then store.get
    else Function.update store.get object.id (some object)
  addressed := by
    intro id found hfound
    split_ifs at hfound with hheld
    · exact store.addressed id found hfound
    · rw [Function.update_apply] at hfound
      split_ifs at hfound with hid
      · rw [hid, Option.some.inj hfound]
      · exact store.addressed id found hfound

/-- Writes of objects, in order. -/
def writeAll (store : Store) (objects : List Object) : Store := objects.foldl writeObject store

/-- No two different objects of the store and of the writes have the same name. -/
def CollisionFree (store : Store) (objects : List Object) : Prop :=
  ∀ object ∈ objects, ∀ object', object' ∈ objects ∨ store.get object'.id = some object' →
    object'.id = object.id → object' = object

theorem writeAll_cons (store : Store) (object : Object) (objects : List Object) :
    store.writeAll (object :: objects) = (store.writeObject object).writeAll objects := rfl

theorem get_writeObject (store : Store) (object : Object) :
    (store.writeObject object).get = if (store.get object.id).isSome then store.get
      else Function.update store.get object.id (some object) := rfl

/-- A write keeps the objects of the store. -/
theorem get_writeObject_of_get {store : Store} {object found : Object} {id : ObjectId}
    (h : store.get id = some found) : (store.writeObject object).get id = some found := by
  rw [get_writeObject]
  split_ifs with hheld
  · exact h
  · rw [Function.update_apply]
    split_ifs with hid
    · rw [hid] at h
      rw [h] at hheld
      exact absurd rfl hheld
    · exact h

/-- What a store holds after a write was there or has been written. -/
theorem of_get_writeObject {store : Store} {object found : Object} {id : ObjectId}
    (h : (store.writeObject object).get id = some found) :
    store.get id = some found ∨ found = object := by
  rw [get_writeObject] at h
  split_ifs at h with hheld
  · exact .inl h
  · rw [Function.update_apply] at h
    split_ifs at h with hid
    · exact .inr (Option.some.inj h).symm
    · exact .inl h

theorem get_writeAll_of_get {objects : List Object} {store : Store} {found : Object}
    {id : ObjectId} (h : store.get id = some found) :
    (store.writeAll objects).get id = some found := by
  induction objects generalizing store with
  | nil => exact h
  | cons object objects ih => exact ih (get_writeObject_of_get h)

/-- After writes without collisions every object is found by its name. -/
theorem get_writeAll {objects : List Object} {store : Store}
    (hfree : store.CollisionFree objects) {object : Object} (hmem : object ∈ objects) :
    (store.writeAll objects).get object.id = some object := by
  induction objects generalizing store with
  | nil => exact absurd hmem (List.not_mem_nil)
  | cons first objects ih =>
    have hfree' : (store.writeObject first).CollisionFree objects := by
      intro object hobject object' hheld hid
      refine hfree object (List.mem_cons_of_mem _ hobject) object' ?_ hid
      rcases hheld with hmem | hget
      · exact .inl (List.mem_cons_of_mem _ hmem)
      · rcases of_get_writeObject hget with hget | rfl
        · exact .inr hget
        · exact .inl (List.mem_cons_self ..)
    rcases List.mem_cons.mp hmem with rfl | hmem
    · rw [writeAll_cons]
      refine get_writeAll_of_get ?_
      rw [get_writeObject]
      split_ifs with hheld
      · obtain ⟨found, hfound⟩ := Option.isSome_iff_exists.mp hheld
        have hid := store.addressed _ _ hfound
        rw [← hid] at hfound
        have heq := hfree object (List.mem_cons_self ..) found (.inr hfound) hid
        rw [hid] at hfound
        rw [hfound, heq]
      · rw [Function.update_self]
    · exact ih hfree' hmem

end Store

end Mrml.Git
