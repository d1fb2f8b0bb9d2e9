import Mrml.Common.Trap
import Mrml.Git.Object

/-!
# Trees of the index

Model of the tree writer and the tree reader of `crates/mrml-git/src/repository.rs`. The writer
returns the objects that it hands to `write_object`, in order; it never reads the store. The
store that the reader works on is a content-addressed map.

Results:
* `exists_writeTreePrefix`: the writer comes to its end on every index.
* `canonical_trees`: when the trees of an index are in canonical form.
* `tree_round_trip`: reading the tree of an index back.
-/

namespace Mrml.Git

open KeyedList

/-- `MAX_DEPTH` (line 20). -/
def maxDepth : ℕ := 128

/-- `MAX_WORKTREE_ENTRIES` (line 19). -/
def maxWorktreeEntries : ℕ := 1000000

/-! ## The writer -/

/-- `TreeItem` (lines 2661–2666). -/
structure TreeItem where
  name : Text
  mode : UInt32
  id : ObjectId
  directory : Bool
deriving DecidableEq

namespace TreeItem

/-- The byte of a name that is compared at `index`: past its end, a directory has slashes. -/
def byte (item : TreeItem) (index : ℕ) : Option UInt8 :=
  item.name.asBytes[index]?.or (if item.directory then some 0x2f else none)

/-- The entry that is written for an item. -/
def entry (item : TreeItem) : TreeEntry := ⟨item.mode, item.name, item.id⟩

end TreeItem

/-- The loop of `tree_name_cmp` (lines 2668–2690). -/
def treeNameCmpFrom (left right : TreeItem) : ℕ → ℕ → Option Ordering
  | 0, _ => none
  | fuel + 1, index =>
    match left.byte index, right.byte index with
    | some a, some b =>
      if a = b then treeNameCmpFrom left right fuel (index + 1)
      else some (if a < b then .lt else .gt)
    | none, none => some .eq
    | none, some _ => some .lt
    | some _, none => some .gt

/-- `tree_name_cmp` (lines 2668–2691). The loop does not end on two directories of one name,
which never meet; otherwise it ends behind the longer name. -/
def treeNameCmp (left right : TreeItem) : Option Ordering :=
  treeNameCmpFrom left right (max left.name.asBytes.length right.name.asBytes.length + 1) 0

/-- What a path is in the directory with the given prefix (lines 2091–2117). -/
inductive Piece
  | other
  | file (name : Text)
  | directory (name : Text)
deriving DecidableEq

/-- `strip_prefix(prefix)` and `find('/')` on a path (lines 2091–2095). -/
def piece (pre path : Text) : Piece :=
  if pre.isPrefixOf path then
    let remainder := path.drop pre.length
    if '/' ∈ remainder then .directory (remainder.takeWhile (· ≠ '/'))
    else if remainder.isEmpty then .other else .file remainder
  else .other

/-- Objects that are written, in order, with the name of the last one. -/
abbrev Written := ObjectId × List Object

/-- The loop of `write_tree_prefix` over the entries (lines 2090–2117). `child` writes the tree
of a directory below this one. -/
def collectItems (child : Text → Except (Fault RepositoryError) Written) (pre : Text) :
    List IndexEntry → List TreeItem → Except (Fault RepositoryError) (List TreeItem × List Object)
  | [], items => .ok (items, [])
  | entry :: entries, items =>
    match piece pre entry.path with
    | .other => collectItems child pre entries items
    | .file name => collectItems child pre entries (items ++ [⟨name, entry.mode, entry.id, false⟩])
    | .directory name =>
      if items.any fun item => item.directory && item.name == name then
        collectItems child pre entries items
      else do
        let (id, written) ← child (pre ++ name ++ ['/'])
        let (items, rest) ← collectItems child pre entries
          (items ++ [⟨name, directoryMode, id, true⟩])
        return (items, written ++ rest)

/-- The items of a tree in the order of `tree_name_cmp` (line 2118). No two items compare as
equal, so that an unstable sort has one possible result. -/
def sortItems (items : List TreeItem) : List TreeItem :=
  items.insertionSort fun left right => treeNameCmp left right ≠ some .gt

/-- The tree object of the items of a directory (lines 2118–2127). -/
def treeObject (items : List TreeItem) : Object :=
  ⟨.tree, (sortItems items).flatMap fun item => item.entry.encode⟩

/-- `write_tree_prefix` (lines 2088–2129). Each call goes one directory deeper. -/
def writeTreePrefix (index : Index) : ℕ → Text → Except (Fault RepositoryError) Written
  | 0, _ => .error .unfinished
  | fuel + 1, pre => do
    let (items, written) ← collectItems (writeTreePrefix index fuel) pre index.entries []
    return ((treeObject items).id, written ++ [treeObject items])

/-- The most directories that a path of the index has. -/
def Index.depth (index : Index) : ℕ :=
  (index.entries.map fun entry => entry.path.count '/').foldr max 0

/-- `write_tree_from_index` (lines 2081–2086). -/
def writeTreeFromIndex (index : Index) : Except (Fault RepositoryError) Written := do
  refuseIf (index.entries.any fun entry => entry.stage ≠ 0) (Fault.error .conflictedIndex)
  writeTreePrefix index (index.depth + 1) []

/-! ## The reader -/

/-- The path of a name in a directory (lines 503–507). -/
def childPath (pre name : Text) : Text := if pre.isEmpty then name else pre ++ '/' :: name

/-- One file of `flatten_tree` (lines 511–529). -/
def readFile (store : Store) (path : Text) (entry : TreeEntry) (index : Index) :
    Except RepositoryError Index := do
  refuseIf (index.entries.length ≥ maxWorktreeEntries) RepositoryError.tooManyFiles
  let object ← store.readObject entry.id
  refuseIf (object.kind ≠ .blob) RepositoryError.invalidReference
  refuseIf (object.contents.length ≥ 2 ^ 32) RepositoryError.fileTooLarge
  return index.upsert
    ⟨path, entry.id, entry.mode, UInt32.ofNat object.contents.length, 0⟩

/-- `flatten_tree` (lines 488–534), where `levels` is `MAX_DEPTH + 1` less the depth. -/
def flattenTree (store : Store) : ℕ → ObjectId → Text → Index → Except RepositoryError Index
  | 0, _, _, _ => .error .tooDeep
  | levels + 1, id, pre, index => do
    let object ← store.readObject id
    refuseIf (object.kind ≠ .tree) RepositoryError.invalidReference
    let entries ← (parseTree object.contents).mapError RepositoryError.object
    entries.foldlM (fun index entry =>
      if entry.mode = directoryMode then
        flattenTree store levels entry.id (childPath pre entry.name) index
      else if entry.mode = 0o100644 ∨ entry.mode = 0o100755 then
        readFile store (childPath pre entry.name) entry index
      else .error .unsupportedFileType) index

/-- `tree_index` (lines 482–486). -/
def treeIndex (store : Store) (tree : ObjectId) : Except RepositoryError Index :=
  flattenTree store (maxDepth + 1) tree [] Index.empty

/-! ## Pieces of a path -/

theorem takeWhile_append_slash {name rest : Text} (h : '/' ∉ name) :
    (name ++ '/' :: rest).takeWhile (· ≠ '/') = name := by
  rw [List.takeWhile_append_of_pos fun c hc => by simpa using fun heq : c = '/' => h (heq ▸ hc)]
  simp

/-- The prefix rule: a path that starts with the prefix is classified by the rest. -/
theorem piece_append (pre rest : Text) :
    piece pre (pre ++ rest) = if '/' ∈ rest then .directory (rest.takeWhile (· ≠ '/'))
      else if rest.isEmpty then .other else .file rest := by
  have hpre := List.isPrefixOf_iff_prefix.mpr (List.prefix_append pre rest)
  unfold piece
  rw [if_pos hpre, List.drop_left]

theorem prefix_of_piece {pre path : Text} (h : piece pre path ≠ .other) :
    ∃ rest, path = pre ++ rest := by
  unfold piece at h
  by_cases hpre : pre.isPrefixOf path = true
  · obtain ⟨rest, hrest⟩ := List.isPrefixOf_iff_prefix.mp hpre
    exact ⟨rest, hrest.symm⟩
  · rw [if_neg hpre] at h
    exact absurd rfl h

theorem piece_eq_file {pre path name : Text} :
    piece pre path = .file name ↔ path = pre ++ name ∧ '/' ∉ name ∧ name ≠ [] := by
  constructor
  · intro h
    obtain ⟨rest, rfl⟩ := prefix_of_piece (by rw [h]; simp)
    rw [piece_append] at h
    split_ifs at h with hslash hempty
    obtain rfl := Piece.file.inj h
    exact ⟨rfl, hslash, fun hnil => hempty (List.isEmpty_iff.mpr hnil)⟩
  · rintro ⟨rfl, hslash, hne⟩
    rw [piece_append, if_neg hslash, if_neg fun h => hne (List.isEmpty_iff.mp h)]

theorem piece_eq_directory {pre path name : Text} :
    piece pre path = .directory name ↔
      '/' ∉ name ∧ ∃ rest, path = pre ++ (name ++ '/' :: rest) := by
  constructor
  · intro h
    obtain ⟨remainder, rfl⟩ := prefix_of_piece (by rw [h]; simp)
    rw [piece_append] at h
    split_ifs at h with hslash
    obtain ⟨before, rest, rfl, hbefore⟩ := List.eq_append_cons_of_mem hslash
    obtain rfl := Piece.directory.inj h
    rw [takeWhile_append_slash hbefore]
    exact ⟨hbefore, rest, rfl⟩
  · rintro ⟨hslash, rest, rfl⟩
    rw [piece_append, if_pos (by simp), takeWhile_append_slash hslash]

/-! ## The items of a directory -/

/-- A file, or a directory at the first path that goes through it. -/
abbrev Slot := Text × Option IndexEntry

/-- The items of a directory in the order of the loop; `seen` are the directories so far. -/
def slots (pre : Text) : List IndexEntry → List Text → List Slot
  | [], _ => []
  | entry :: entries, seen =>
    match piece pre entry.path with
    | .other => slots pre entries seen
    | .file name => (name, some entry) :: slots pre entries seen
    | .directory name =>
      if name ∈ seen then slots pre entries seen
      else (name, none) :: slots pre entries (seen ++ [name])

/-- The item of a slot. -/
def slotItem (child : Text → Except (Fault RepositoryError) Written) (pre : Text) (slot : Slot) :
    Except (Fault RepositoryError) (TreeItem × List Object) :=
  match slot.2 with
  | some entry => .ok (⟨slot.1, entry.mode, entry.id, false⟩, [])
  | none => do
    let (id, written) ← child (pre ++ slot.1 ++ ['/'])
    return (⟨slot.1, directoryMode, id, true⟩, written)

/-- The directories among the items. -/
def directories (items : List TreeItem) : List Text :=
  (items.filter (·.directory)).map (·.name)

theorem mem_directories {items : List TreeItem} {name : Text} :
    name ∈ directories items ↔ ∃ item ∈ items, item.directory = true ∧ item.name = name := by
  simp [directories, and_assoc]

/-- The loop makes an item of every slot. -/
theorem collectItems_eq (child : Text → Except (Fault RepositoryError) Written) (pre : Text)
    (entries : List IndexEntry) (items : List TreeItem) :
    collectItems child pre entries items = do
      let results ← (slots pre entries (directories items)).mapM (slotItem child pre)
      return (items ++ results.map Prod.fst, (results.map Prod.snd).flatten) := by
  induction entries generalizing items with
  | nil => simp [collectItems, slots]; rfl
  | cons entry entries ih =>
    rw [collectItems, slots]
    cases hpiece : piece pre entry.path with
    | other => exact ih items
    | file name =>
      dsimp only
      have hdirs : directories (items ++ [⟨name, entry.mode, entry.id, false⟩]) =
          directories items := by simp [directories]
      rw [ih, hdirs, List.mapM_cons]
      cases (slots pre entries (directories items)).mapM (slotItem child pre) with
      | error fault => rfl
      | ok results =>
        show Except.ok _ = Except.ok _
        rw [List.append_assoc]
        rfl
    | directory name =>
      dsimp only
      have hany : (items.any fun item => item.directory && item.name == name) = true ↔
          name ∈ directories items := by
        rw [mem_directories, List.any_eq_true]
        simp
      by_cases hseen : name ∈ directories items
      · rw [if_pos (hany.mpr hseen), if_pos hseen]
        exact ih items
      · rw [if_neg (fun h => hseen (hany.mp h)), if_neg hseen, List.mapM_cons]
        show _ = ((child (pre ++ name ++ ['/']) >>= _) >>= _) >>= _
        cases child (pre ++ name ++ ['/']) with
        | error fault => rfl
        | ok result =>
          obtain ⟨id, written⟩ := result
          have hdirs : directories (items ++ [⟨name, directoryMode, id, true⟩]) =
              directories items ++ [name] := by simp [directories]
          rw [ok_bind]
          dsimp only
          rw [ih, hdirs]
          cases (slots pre entries (directories items ++ [name])).mapM (slotItem child pre) with
          | error fault => rfl
          | ok results =>
            show Except.ok _ = Except.ok _
            rw [List.append_assoc]
            rfl

theorem mem_slots_file {pre : Text} {entries : List IndexEntry} {seen : List Text} {name : Text}
    {entry : IndexEntry} :
    (name, some entry) ∈ slots pre entries seen ↔
      entry ∈ entries ∧ piece pre entry.path = .file name := by
  induction entries generalizing seen with
  | nil => simp [slots]
  | cons head entries ih =>
    rw [slots]
    cases hpiece : piece pre head.path with
    | other =>
      rw [ih, List.mem_cons]
      refine ⟨fun h => ⟨.inr h.1, h.2⟩, ?_⟩
      rintro ⟨rfl | hmem, h⟩
      · rw [hpiece] at h
        exact absurd h (by simp)
      · exact ⟨hmem, h⟩
    | file name' =>
      rw [List.mem_cons, List.mem_cons, ih]
      constructor
      · rintro (heq | h)
        · obtain ⟨rfl, hentry⟩ := Prod.mk.inj heq
          obtain rfl := Option.some.inj hentry
          exact ⟨.inl rfl, hpiece⟩
        · exact ⟨.inr h.1, h.2⟩
      · rintro ⟨rfl | hmem, h⟩
        · rw [hpiece] at h
          rw [Piece.file.inj h]
          exact .inl rfl
        · exact .inr ⟨hmem, h⟩
    | directory name' =>
      have hhead : entry = head → piece pre entry.path ≠ .file name := by
        rintro rfl h
        rw [hpiece] at h
        exact absurd h (by simp)
      dsimp only
      split_ifs
      · rw [ih, List.mem_cons]
        exact ⟨fun h => ⟨.inr h.1, h.2⟩, fun h => ⟨h.1.resolve_left fun he => hhead he h.2, h.2⟩⟩
      · rw [List.mem_cons, List.mem_cons, ih]
        constructor
        · rintro (heq | h)
          · exact absurd (Prod.mk.inj heq).2 (by simp)
          · exact ⟨.inr h.1, h.2⟩
        · exact fun h => .inr ⟨h.1.resolve_left fun he => hhead he h.2, h.2⟩

theorem mem_slots_directory {pre : Text} {entries : List IndexEntry} {seen : List Text}
    {name : Text} :
    (name, none) ∈ slots pre entries seen ↔
      name ∉ seen ∧ ∃ entry ∈ entries, piece pre entry.path = .directory name := by
  induction entries generalizing seen with
  | nil => simp [slots]
  | cons head entries ih =>
    simp only [slots, List.mem_cons, exists_eq_or_imp]
    cases hpiece : piece pre head.path with
    | other =>
      rw [ih]
      simp
    | file name' =>
      rw [List.mem_cons, ih]
      simp
    | directory name' =>
      simp only [Piece.directory.injEq]
      split_ifs with hseen
      · rw [ih]
        refine and_congr_right fun hname => ⟨.inr, fun h => h.resolve_left ?_⟩
        rintro rfl
        exact hname hseen
      · rw [List.mem_cons, ih, List.mem_append, List.mem_singleton, Prod.mk.injEq]
        constructor
        · rintro (⟨rfl, _⟩ | ⟨hname, h⟩)
          · exact ⟨hseen, .inl rfl⟩
          · exact ⟨fun hmem => hname (.inl hmem), .inr h⟩
        · rintro ⟨hname, rfl | h⟩
          · exact .inl ⟨rfl, rfl⟩
          · by_cases heq : name = name'
            · exact .inl ⟨heq, rfl⟩
            · exact .inr ⟨fun h => h.elim hname heq, h⟩

/-- Name and kind of a slot. -/
def Slot.tag (slot : Slot) : Text × Bool := (slot.1, slot.2.isNone)

/-- No two slots of a directory have the same name and kind. -/
theorem nodup_slots {pre : Text} {entries : List IndexEntry} {seen : List Text}
    (h : (entries.map (·.path)).Nodup) : ((slots pre entries seen).map Slot.tag).Nodup := by
  induction entries generalizing seen with
  | nil => exact List.nodup_nil
  | cons head entries ih =>
    rw [List.map_cons, List.nodup_cons] at h
    rw [slots]
    cases hpiece : piece pre head.path with
    | other => exact ih h.2
    | file name =>
      rw [List.map_cons, List.nodup_cons]
      refine ⟨fun hmem => ?_, ih h.2⟩
      obtain ⟨⟨name', slot⟩, hslot, htag⟩ := List.mem_map.mp hmem
      obtain ⟨rfl, hkind⟩ := Prod.mk.inj htag
      cases slot with
      | none => exact absurd hkind (by simp)
      | some entry =>
        obtain ⟨hentry, hfile⟩ := mem_slots_file.mp hslot
        have hpath : entry.path = head.path := by
          rw [(piece_eq_file.mp hfile).1, (piece_eq_file.mp hpiece).1]
        exact h.1 (List.mem_map.mpr ⟨entry, hentry, hpath⟩)
    | directory name =>
      dsimp only
      split_ifs
      · exact ih h.2
      · rw [List.map_cons, List.nodup_cons]
        refine ⟨fun hmem => ?_, ih h.2⟩
        obtain ⟨⟨name', slot⟩, hslot, htag⟩ := List.mem_map.mp hmem
        obtain ⟨rfl, hkind⟩ := Prod.mk.inj htag
        cases slot with
        | none => exact (mem_slots_directory.mp hslot).1 (by simp)
        | some entry => exact absurd hkind (by simp)

/-- An item of a directory. -/
inductive IsItem (child : Text → Except (Fault RepositoryError) Written) (pre : Text)
    (entries : List IndexEntry) : TreeItem → Prop
  | file {entry : IndexEntry} {name : Text} (hentry : entry ∈ entries)
      (hpiece : piece pre entry.path = .file name) :
      IsItem child pre entries ⟨name, entry.mode, entry.id, false⟩
  | directory {entry : IndexEntry} {name : Text} {id : ObjectId} {written : List Object}
      (hentry : entry ∈ entries) (hpiece : piece pre entry.path = .directory name)
      (hchild : child (pre ++ name ++ ['/']) = .ok (id, written)) :
      IsItem child pre entries ⟨name, directoryMode, id, true⟩

/-- Name and kind of an item. -/
def TreeItem.tag (item : TreeItem) : Text × Bool := (item.name, item.directory)

section Collect

variable {child : Text → Except (Fault RepositoryError) Written} {pre : Text}
  {entries : List IndexEntry} {items : List TreeItem} {written : List Object}

theorem tag_of_slotItem {slot : Slot} {result : TreeItem × List Object}
    (h : slotItem child pre slot = .ok result) : result.1.tag = slot.tag := by
  obtain ⟨name, entry⟩ := slot
  cases entry with
  | some entry =>
    obtain rfl := Except.ok.inj h
    rfl
  | none =>
    obtain ⟨⟨id, written⟩, _, h⟩ := bind_eq_ok.mp h
    obtain rfl := Except.ok.inj h
    rfl

theorem collectItems_cases (h : collectItems child pre entries [] = .ok (items, written)) :
    ∃ results, (slots pre entries []).mapM (slotItem child pre) = .ok results ∧
      items = results.map Prod.fst ∧ written = (results.map Prod.snd).flatten := by
  rw [collectItems_eq] at h
  obtain ⟨results, hresults, h⟩ := bind_eq_ok.mp h
  obtain ⟨hitems, hwritten⟩ := Prod.mk.inj (Except.ok.inj h)
  exact ⟨results, hresults, hitems.symm, hwritten.symm⟩

theorem exists_collectItems
    (h : ∀ entry ∈ entries, ∀ name, piece pre entry.path = .directory name →
      ∃ result, child (pre ++ name ++ ['/']) = .ok result) :
    ∃ items written, collectItems child pre entries [] = .ok (items, written) := by
  have hslots : ∀ slot ∈ slots pre entries [], ∃ result, slotItem child pre slot = .ok result := by
    rintro ⟨name, _ | entry⟩ hslot
    · obtain ⟨_, entry, hentry, hpiece⟩ := mem_slots_directory.mp hslot
      obtain ⟨result, hresult⟩ := h entry hentry name hpiece
      refine ⟨(⟨name, directoryMode, result.1, true⟩, result.2), ?_⟩
      show (child (pre ++ name ++ ['/']) >>= _) = _
      rw [hresult]
      rfl
    · exact ⟨_, rfl⟩
  obtain ⟨results, hresults⟩ := exists_mapM_eq_ok hslots
  refine ⟨results.map Prod.fst, (results.map Prod.snd).flatten, ?_⟩
  rw [collectItems_eq, directories, List.filter_nil, List.map_nil, hresults]
  rfl

theorem mem_items (h : collectItems child pre entries [] = .ok (items, written))
    {item : TreeItem} : item ∈ items ↔ IsItem child pre entries item := by
  obtain ⟨results, hresults, rfl, _⟩ := collectItems_cases h
  simp only [List.mem_map, mem_of_mapM_eq_ok hresults]
  constructor
  · rintro ⟨⟨item, objects⟩, ⟨⟨name, _ | entry⟩, hslot, hitem⟩, rfl⟩
    · obtain ⟨_, entry, hentry, hpiece⟩ := mem_slots_directory.mp hslot
      obtain ⟨⟨id, objects⟩, hchild, hitem⟩ := bind_eq_ok.mp hitem
      obtain ⟨rfl, _⟩ := Prod.mk.inj (Except.ok.inj hitem)
      exact .directory hentry hpiece hchild
    · obtain ⟨hentry, hpiece⟩ := mem_slots_file.mp hslot
      obtain ⟨rfl, _⟩ := Prod.mk.inj (Except.ok.inj hitem)
      exact .file hentry hpiece
  · rintro (⟨hentry, hpiece⟩ | @⟨entry, name, id, objects, hentry, hpiece, hchild⟩)
    · exact ⟨(_, []), ⟨(_, some _), mem_slots_file.mpr ⟨hentry, hpiece⟩, rfl⟩, rfl⟩
    · refine ⟨(⟨name, directoryMode, id, true⟩, objects), ⟨(name, none),
        mem_slots_directory.mpr ⟨by simp, entry, hentry, hpiece⟩, ?_⟩, rfl⟩
      show (child _ >>= _) = _
      rw [hchild]
      rfl

theorem mem_written (h : collectItems child pre entries [] = .ok (items, written))
    {object : Object} : object ∈ written ↔ ∃ entry ∈ entries, ∃ name id objects,
      piece pre entry.path = .directory name ∧
        child (pre ++ name ++ ['/']) = .ok (id, objects) ∧ object ∈ objects := by
  obtain ⟨results, hresults, _, rfl⟩ := collectItems_cases h
  simp only [List.mem_flatten, List.mem_map, mem_of_mapM_eq_ok hresults]
  constructor
  · rintro ⟨_, ⟨⟨item, objects⟩, ⟨⟨name, _ | entry⟩, hslot, hitem⟩, rfl⟩, hobject⟩
    · obtain ⟨_, entry, hentry, hpiece⟩ := mem_slots_directory.mp hslot
      obtain ⟨⟨id, objects⟩, hchild, hitem⟩ := bind_eq_ok.mp hitem
      obtain ⟨_, rfl⟩ := Prod.mk.inj (Except.ok.inj hitem)
      exact ⟨entry, hentry, name, id, objects, hpiece, hchild, hobject⟩
    · obtain ⟨_, rfl⟩ := Prod.mk.inj (Except.ok.inj hitem)
      exact absurd hobject List.not_mem_nil
  · rintro ⟨entry, hentry, name, id, objects, hpiece, hchild, hobject⟩
    refine ⟨objects, ⟨(⟨name, directoryMode, id, true⟩, objects), ⟨(name, none),
      mem_slots_directory.mpr ⟨by simp, entry, hentry, hpiece⟩, ?_⟩, rfl⟩, hobject⟩
    show (child _ >>= _) = _
    rw [hchild]
    rfl

theorem nodup_items (h : collectItems child pre entries [] = .ok (items, written))
    (hpaths : (entries.map (·.path)).Nodup) : (items.map TreeItem.tag).Nodup := by
  obtain ⟨results, hresults, rfl, _⟩ := collectItems_cases h
  have htags := map_of_mapM_eq_ok (g := TreeItem.tag ∘ Prod.fst) (k := Slot.tag)
    (fun _ _ => tag_of_slotItem) hresults
  rw [List.map_map, htags]
  exact nodup_slots hpaths

end Collect

/-! ## The writer comes to its end -/

/-- Enough levels for every path below the prefix. -/
theorem exists_writeTreePrefix {index : Index} {fuel : ℕ} {pre : Text} (hfuel : 0 < fuel)
    (h : ∀ entry ∈ index.entries, pre <+: entry.path →
      entry.path.count '/' < pre.count '/' + fuel) :
    ∃ result, writeTreePrefix index fuel pre = .ok result := by
  induction fuel generalizing pre with
  | zero => exact absurd hfuel (lt_irrefl 0)
  | succ fuel ih =>
    have hchild : ∀ entry ∈ index.entries, ∀ name, piece pre entry.path = .directory name →
        ∃ result, writeTreePrefix index fuel (pre ++ name ++ ['/']) = .ok result := by
      intro entry hentry name hpiece
      obtain ⟨hname, rest, hpath⟩ := piece_eq_directory.mp hpiece
      have hcount : (pre ++ name ++ ['/']).count '/' = pre.count '/' + 1 := by
        rw [List.count_append, List.count_append, List.count_eq_zero_of_not_mem hname]
        simp
      have hbelow : ∀ entry ∈ index.entries, pre ++ name ++ ['/'] <+: entry.path →
          entry.path.count '/' < (pre ++ name ++ ['/']).count '/' + fuel := by
        intro entry hentry hleads
        have hpre : pre <+: entry.path := by
          rw [List.append_assoc] at hleads
          exact (List.prefix_append _ _).trans hleads
        have := h entry hentry hpre
        omega
      have hleads : pre ++ name ++ ['/'] <+: entry.path := ⟨rest, by rw [hpath]; simp⟩
      have hlt := hbelow entry hentry hleads
      have hle := hleads.sublist.count_le '/'
      exact ih (by omega) hbelow
    obtain ⟨items, written, hcollect⟩ := exists_collectItems hchild
    refine ⟨((treeObject items).id, written ++ [treeObject items]), ?_⟩
    rw [writeTreePrefix, hcollect]
    rfl

theorem Index.count_le_depth {index : Index} {entry : IndexEntry} (h : entry ∈ index.entries) :
    entry.path.count '/' ≤ index.depth := by
  obtain ⟨version, entries⟩ := index
  simp only [Index.depth] at h ⊢
  induction entries with
  | nil => exact absurd h List.not_mem_nil
  | cons head entries ih =>
    rw [List.map_cons, List.foldr_cons]
    rcases List.mem_cons.mp h with rfl | h
    · exact le_max_left _ _
    · exact le_max_of_le_right (ih h)

/-- The writer returns on every index without conflicts. -/
theorem exists_writeTreeFromIndex {index : Index} (h : ∀ entry ∈ index.entries, entry.stage = 0) :
    ∃ result, writeTreeFromIndex index = .ok result := by
  have hstage : (index.entries.any fun entry => entry.stage ≠ 0) = false := by
    rw [List.any_eq_false]
    intro entry hentry
    simpa using h entry hentry
  have hexists : ∃ result, writeTreePrefix index (index.depth + 1) [] = .ok result := by
    refine exists_writeTreePrefix (Nat.succ_pos index.depth) fun entry hentry _ => ?_
    have := Index.count_le_depth hentry
    rw [List.count_nil]
    omega
  obtain ⟨result, hresult⟩ := hexists
  refine ⟨result, ?_⟩
  rw [writeTreeFromIndex, refuseIf_of_eq_false hstage, ok_bind, hresult]

/-! ## The order of the items -/

namespace TreeItem

/-- A directory is ordered as if its name ended in a slash. -/
def suffix (item : TreeItem) : List ℕ := if item.directory then [0x2f] else []

/-- The place of an item: the bytes of its name, with the slash of a directory. -/
def key (item : TreeItem) : List ℕ := item.name.asBytes.map UInt8.toNat ++ item.suffix

theorem byte_of_drop {item : TreeItem} {index : ℕ} {rest : List UInt8}
    (h : item.name.asBytes.drop index = rest) :
    item.byte index = rest.head?.or (if item.directory then some 0x2f else none) := by
  rw [byte, ← h, List.head?_drop]

theorem drop_succ {item : TreeItem} {index : ℕ} {a : UInt8} {rest : List UInt8}
    (h : item.name.asBytes.drop index = a :: rest) : item.name.asBytes.drop (index + 1) = rest := by
  rw [← List.drop_drop, h]
  rfl

end TreeItem

theorem slash_notMem_asBytes {name : Text} (h : '/' ∉ name) : (0x2f : UInt8) ∉ name.asBytes :=
  fun hmem => h (Text.mem_asBytes_of_ascii (by decide) hmem)

/-- Two directories of one name are compared without end. -/
theorem treeNameCmpFrom_directories {left right : TreeItem} (hleft : left.directory = true)
    (hright : right.directory = true) (fuel : ℕ) {index : ℕ}
    (hl : left.name.asBytes.drop index = []) (hr : right.name.asBytes.drop index = []) :
    treeNameCmpFrom left right fuel index = none := by
  induction fuel generalizing index with
  | zero => rfl
  | succ fuel ih =>
    have hl' : left.name.asBytes.drop (index + 1) = [] := by
      rw [← List.drop_drop, hl, List.drop_nil]
    have hr' : right.name.asBytes.drop (index + 1) = [] := by
      rw [← List.drop_drop, hr, List.drop_nil]
    rw [treeNameCmpFrom, TreeItem.byte_of_drop hl, TreeItem.byte_of_drop hr, hleft, hright]
    exact (if_pos rfl).trans (ih hl' hr')

/-- **Step lemma.** From an index on, the loop compares what is left of the keys. -/
theorem treeNameCmpFrom_iff {left right : TreeItem} {ls rs : List UInt8} {fuel index : ℕ}
    (hl : left.name.asBytes.drop index = ls) (hr : right.name.asBytes.drop index = rs)
    (hls : (0x2f : UInt8) ∉ ls) (hrs : (0x2f : UInt8) ∉ rs)
    (hfuel : ls.length < fuel ∧ rs.length < fuel) :
    treeNameCmpFrom left right fuel index = some .gt ↔
      rs.map UInt8.toNat ++ right.suffix < ls.map UInt8.toNat ++ left.suffix := by
  obtain ⟨fuel, rfl⟩ := Nat.exists_eq_succ_of_ne_zero (by omega : fuel ≠ 0)
  have hlb := TreeItem.byte_of_drop hl
  have hrb := TreeItem.byte_of_drop hr
  induction ls generalizing rs fuel index with
  | nil =>
    cases rs with
    | nil =>
      cases hld : left.directory <;> cases hrd : right.directory
      · simp [treeNameCmpFrom, hlb, hrb, hld, hrd, TreeItem.suffix]
      · simp [treeNameCmpFrom, hlb, hrb, hld, hrd, TreeItem.suffix]
      · simp [treeNameCmpFrom, hlb, hrb, hld, hrd, TreeItem.suffix]
      · rw [treeNameCmpFrom_directories hld hrd _ hl hr]
        simp [TreeItem.suffix, hld, hrd]
    | cons b rs =>
      have hb : 0x2f ≠ b := List.ne_of_not_mem_cons hrs
      have hb' : (47 : ℕ) ≠ b.toNat := fun h => hb (UInt8.toNat_inj.mp h)
      cases hld : left.directory
      · simp [treeNameCmpFrom, hlb, hrb, hld, TreeItem.suffix]
      · simp [treeNameCmpFrom, hlb, hrb, hld, TreeItem.suffix, hb, List.cons_lt_cons_iff,
          UInt8.lt_iff_toNat_lt]
        omega
  | cons a ls ih =>
    have ha : a ≠ 0x2f := Ne.symm (List.ne_of_not_mem_cons hls)
    have ha' : a.toNat ≠ 47 := fun h => ha (UInt8.toNat_inj.mp h)
    cases rs with
    | nil =>
      cases hrd : right.directory
      · simp [treeNameCmpFrom, hlb, hrb, hrd, TreeItem.suffix]
      · simp [treeNameCmpFrom, hlb, hrb, hrd, TreeItem.suffix, ha, List.cons_lt_cons_iff,
          UInt8.lt_iff_toNat_lt]
        omega
    | cons b rs =>
      rw [treeNameCmpFrom, hlb, hrb, List.map_cons, List.map_cons, List.cons_append,
        List.cons_append, List.cons_lt_cons_iff]
      show (if a = b then _ else some (if a < b then _ else _)) = _ ↔ _
      by_cases hab : a = b
      · subst hab
        have hl' := TreeItem.drop_succ hl
        have hr' := TreeItem.drop_succ hr
        obtain ⟨fuel, rfl⟩ := Nat.exists_eq_succ_of_ne_zero
          (by rw [List.length_cons] at hfuel; omega : fuel ≠ 0)
        have hrest := ih hl' hr' (List.not_mem_of_not_mem_cons hls)
          (List.not_mem_of_not_mem_cons hrs) fuel
          (by simp only [List.length_cons] at hfuel; omega)
          (TreeItem.byte_of_drop hl') (TreeItem.byte_of_drop hr')
        rw [if_pos rfl]
        refine hrest.trans ?_
        simp
      · have hab' : a.toNat ≠ b.toNat := fun h => hab (UInt8.toNat_inj.mp h)
        rw [if_neg hab]
        split_ifs with hlt
        · have hlt' := UInt8.lt_iff_toNat_lt.mp hlt
          refine iff_of_false (by simp) ?_
          rintro (h | ⟨h, _⟩) <;> omega
        · have hlt' : ¬ a.toNat < b.toNat := fun h => hlt (UInt8.lt_iff_toNat_lt.mpr h)
          exact iff_of_true rfl (.inl (by omega))

/-- Names are compared by the keys of their items. -/
theorem treeNameCmp_iff {left right : TreeItem} (hleft : '/' ∉ left.name)
    (hright : '/' ∉ right.name) :
    treeNameCmp left right ≠ some .gt ↔ left.key ≤ right.key := by
  have hgt : treeNameCmp left right = some .gt ↔ right.key < left.key :=
    treeNameCmpFrom_iff List.drop_zero List.drop_zero (slash_notMem_asBytes hleft)
      (slash_notMem_asBytes hright)
      ⟨Nat.lt_succ_of_le (le_max_left _ _), Nat.lt_succ_of_le (le_max_right _ _)⟩
  rw [Ne, hgt]
  exact not_lt

theorem sortItems_eq {items : List TreeItem} (h : ∀ item ∈ items, '/' ∉ item.name) :
    sortItems items = sortBy TreeItem.key items := by
  have hmap := List.map_insertionSort (fun left right => treeNameCmp left right ≠ some .gt)
    (fun a b : TreeItem => a.key ≤ b.key) id items
    fun a ha b hb => treeNameCmp_iff (h a ha) (h b hb)
  rwa [List.map_id, List.map_id] at hmap

/-- Items of different names or kinds have different places. -/
theorem TreeItem.key_inj {item item' : TreeItem} (h : '/' ∉ item.name) (h' : '/' ∉ item'.name) :
    item.key = item'.key ↔ item.tag = item'.tag := by
  have hbytes : ∀ name name' : Text,
      name.asBytes.map UInt8.toNat = name'.asBytes.map UInt8.toNat ↔ name = name' := by
    intro name name'
    rw [(List.map_injective_iff.mpr fun _ _ => UInt8.toNat_inj.mp).eq_iff, Text.asBytes_inj]
  have hslash : ∀ name : Text, '/' ∉ name → 47 ∉ name.asBytes.map UInt8.toNat := by
    intro name hname hmem
    obtain ⟨b, hb, hb'⟩ := List.mem_map.mp hmem
    have : b = 0x2f := UInt8.toNat_inj.mp hb'
    exact slash_notMem_asBytes hname (this ▸ hb)
  rw [TreeItem.key, TreeItem.key, TreeItem.tag, TreeItem.tag, Prod.mk.injEq, TreeItem.suffix,
    TreeItem.suffix]
  cases item.directory <;> cases item'.directory
  · simp [hbytes]
  · simp only [Bool.false_eq_true, if_false, if_true, List.append_nil]
    refine iff_of_false (fun heq => hslash _ h ?_) (by simp)
    rw [heq]
    simp
  · simp only [Bool.false_eq_true, if_false, if_true, List.append_nil]
    refine iff_of_false (fun heq => hslash _ h' ?_) (by simp)
    rw [← heq]
    simp
  · simp [hbytes]

theorem sortedBy_sortItems {items : List TreeItem} (hnames : ∀ item ∈ items, '/' ∉ item.name)
    (htags : (items.map TreeItem.tag).Nodup) : SortedBy TreeItem.key (sortItems items) := by
  rw [sortItems_eq hnames]
  refine sortedBy_sortBy ?_
  rw [List.Nodup, List.pairwise_map] at htags ⊢
  refine htags.imp_of_mem fun ha hb hne heq => hne ?_
  exact (TreeItem.key_inj (hnames _ ha) (hnames _ hb)).mp heq

/-! ## Names of valid paths -/

/-- The prefix of a directory: empty, or ending in a slash. -/
def Slashed (pre : Text) : Prop := pre = [] ∨ ∃ dir, pre = dir ++ ['/']

theorem slashed_append (pre name : Text) : Slashed (pre ++ name ++ ['/']) := .inr ⟨_, rfl⟩

/-- A component of a path between slashes. -/
theorem mem_splitOn {pre name rest : Text} (hpre : Slashed pre) (hname : '/' ∉ name)
    (hrest : rest = [] ∨ ∃ tail, rest = '/' :: tail) :
    name ∈ (pre ++ (name ++ rest)).splitOn '/' := by
  have hself : name ∈ (name ++ rest).splitOn '/' := by
    rcases hrest with rfl | ⟨tail, rfl⟩
    · rw [List.append_nil, List.splitOn_eq_singleton hname]
      exact List.mem_singleton_self _
    · rw [List.splitOn_append_cons_self, List.splitOn_eq_singleton hname]
      exact List.mem_append_left _ (List.mem_singleton_self _)
  rcases hpre with rfl | ⟨dir, rfl⟩
  · exact hself
  · rw [List.append_assoc, List.singleton_append, List.splitOn_append_cons_self]
    exact List.mem_append_right _ hself

/-- What `validate_path` says about a path. -/
theorem validatePath_cases {path : Text} {u : Unit} (h : validatePath path = .ok u) :
    '\\' ∉ path ∧ (∀ part ∈ path.splitOn '/', badPart part = false) ∧
      ∀ c ∈ path, Text.isControl c = false := by
  have hnot := refuseIf_eq_ok.mp h
  simp only [Bool.or_eq_true, not_or, Bool.not_eq_true, List.any_eq_false] at hnot
  obtain ⟨⟨⟨_, hback⟩, hparts⟩, hcontrol⟩ := hnot
  refine ⟨?_, hparts, hcontrol⟩
  intro hmem
  rw [List.contains_iff_mem.mpr hmem] at hback
  exact absurd hback (by simp)

/-- The components of a valid path are good names. -/
theorem badName_of_validatePath {pre name rest : Text} (hpre : Slashed pre) (hname : '/' ∉ name)
    (hrest : rest = [] ∨ ∃ tail, rest = '/' :: tail) {u : Unit}
    (h : validatePath (pre ++ (name ++ rest)) = .ok u) : badName name = false := by
  obtain ⟨hback, hparts, hcontrol⟩ := validatePath_cases h
  have hpart := hparts name (mem_splitOn hpre hname hrest)
  have hsub : ∀ c ∈ name, c ∈ pre ++ (name ++ rest) := fun c hc =>
    List.mem_append_right _ (List.mem_append_left _ hc)
  have hslash : name.contains '/' = false := by simpa using hname
  have hback' : name.contains '\\' = false := by simpa using fun hmem => hback (hsub _ hmem)
  have hcontrol' : name.any Text.isControl = false :=
    List.any_eq_false.mpr fun c hc => by simpa using hcontrol c (hsub c hc)
  rw [badPart] at hpart
  rw [badName, hpart, hslash, hback', hcontrol']
  rfl

theorem badName_of_piece {pre path name : Text} (hpre : Slashed pre) {u : Unit}
    (hvalid : validatePath path = .ok u)
    (h : piece pre path = .file name ∨ piece pre path = .directory name) :
    '/' ∉ name ∧ badName name = false := by
  rcases h with h | h
  · obtain ⟨rfl, hname, _⟩ := piece_eq_file.mp h
    rw [← List.append_nil name] at hvalid
    exact ⟨hname, badName_of_validatePath hpre hname (.inl rfl) hvalid⟩
  · obtain ⟨hname, tail, rfl⟩ := piece_eq_directory.mp h
    exact ⟨hname, badName_of_validatePath hpre hname (.inr ⟨tail, rfl⟩) hvalid⟩

/-- A valid path below a directory is a file of it, or goes through a directory of it. -/
theorem piece_ne_other {pre path : Text} (hpre : Slashed pre) {u : Unit}
    (hvalid : validatePath path = .ok u) (h : pre <+: path) : piece pre path ≠ .other := by
  obtain ⟨rest, rfl⟩ := h
  rw [piece_append]
  split_ifs with hslash hempty
  · simp
  · obtain rfl := List.isEmpty_iff.mp hempty
    have hmem : [] ∈ (pre ++ ([] ++ [])).splitOn '/' := mem_splitOn hpre (by simp) (.inl rfl)
    have hbad := (validatePath_cases hvalid).2.1 [] hmem
    exact absurd hbad (by decide)
  · simp

/-! ## Canonical trees -/

/-- The place of an entry in Git's order of trees, where the mode says what a directory is. -/
def TreeEntry.gitKey (entry : TreeEntry) : List ℕ :=
  entry.name.asBytes.map UInt8.toNat ++ if entry.mode = directoryMode then [0x2f] else []

/-- A tree object that lists its entries in strictly ascending order, each name once. -/
def Canonical (object : Object) : Prop :=
  object.kind = .tree ∧ ∃ entries : List TreeEntry,
    (∀ entry ∈ entries, entry.Plain) ∧ object.contents = entries.flatMap TreeEntry.encode ∧
      entries.Pairwise (fun a b => a.gitKey < b.gitKey) ∧ (entries.map (·.name)).Nodup

/-- No path goes through another one, and no path extends that of an entry with the mode of a
directory by a character below the slash. -/
def Index.Clear (index : Index) : Prop :=
  ∀ entry ∈ index.entries, ∀ entry' ∈ index.entries, ∀ c rest,
    entry'.path = entry.path ++ c :: rest →
      c ≠ '/' ∧ (entry.mode = directoryMode → ¬ c < '/')

/-- Two items in the order that a canonical tree has. -/
def Ascending (a b : TreeItem) : Prop := a.entry.gitKey < b.entry.gitKey ∧ a.name ≠ b.name

/-- When the tree object of a directory is canonical. -/
theorem canonical_treeObject_iff {items : List TreeItem}
    (hnames : ∀ item ∈ items, '/' ∉ item.name ∧ badName item.name = false)
    (htags : (items.map TreeItem.tag).Nodup) :
    Canonical (treeObject items) ↔
      ∀ a ∈ items, ∀ b ∈ items, a.key < b.key → Ascending a b := by
  have hsorted := sortedBy_sortItems (fun item hitem => (hnames item hitem).1) htags
  have hmem : ∀ item, item ∈ sortItems items ↔ item ∈ items := fun item =>
    List.mem_insertionSort _
  have hplain : ∀ entry ∈ (sortItems items).map TreeItem.entry, entry.Plain := by
    intro entry hentry
    obtain ⟨item, hitem, rfl⟩ := List.mem_map.mp hentry
    exact plain_of_badName (hnames item ((hmem item).mp hitem)).2
  have hcontents : (treeObject items).contents =
      ((sortItems items).map TreeItem.entry).flatMap TreeEntry.encode := by
    rw [List.flatMap_map]
    rfl
  have hall : (∀ a ∈ items, ∀ b ∈ items, a.key < b.key → Ascending a b) ↔
      (sortItems items).Pairwise Ascending := by
    rw [hsorted.pairwise_iff]
    simp only [hmem]
  have hsplit : (sortItems items).Pairwise Ascending ↔
      ((sortItems items).map TreeItem.entry).Pairwise (fun a b => a.gitKey < b.gitKey) ∧
        (((sortItems items).map TreeItem.entry).map (·.name)).Nodup := by
    rw [List.Nodup, List.map_map, List.pairwise_map, List.pairwise_map, ← List.pairwise_and_iff]
    rfl
  rw [hall, hsplit]
  constructor
  · rintro ⟨_, entries, hentries, hlist, hascending, hdistinct⟩
    obtain rfl := encode_entries_injective hentries hplain (hlist.symm.trans hcontents)
    exact ⟨hascending, hdistinct⟩
  · rintro ⟨hascending, hdistinct⟩
    exact ⟨rfl, _, hplain, hcontents, hascending, hdistinct⟩

/-- A list stays below another one with a further element, if the other one does not go on with
a smaller or equal one. -/
theorem append_singleton_lt {l m : List ℕ} {x : ℕ} (hlt : l < m)
    (h : ∀ c rest, m = l ++ c :: rest → x < c) : l ++ [x] < m := by
  induction l generalizing m with
  | nil =>
    cases m with
    | nil => exact absurd hlt (List.not_lt_nil _)
    | cons c m => exact List.cons_lt_cons_iff.mpr (.inl (h c m rfl))
  | cons a l ih =>
    cases m with
    | nil => exact absurd hlt (List.not_lt_nil _)
    | cons b m =>
      rw [List.cons_append, List.cons_lt_cons_iff]
      rcases List.cons_lt_cons_iff.mp hlt with hab | ⟨rfl, hrest⟩
      · exact .inl hab
      · exact .inr ⟨rfl, ih hrest fun c rest heq => h c rest (by rw [heq]; rfl)⟩

theorem append_lt_append_iff (l : List ℕ) {m m' : List ℕ} : l ++ m < l ++ m' ↔ m < m' := by
  induction l with
  | nil => exact Iff.rfl
  | cons a l ih =>
    rw [List.cons_append, List.cons_append, List.cons_lt_cons_iff, ih]
    simp

theorem lt_append_of_ne_nil {l m : List ℕ} (h : m ≠ []) : l < l ++ m := by
  induction l with
  | nil =>
    obtain ⟨c, rest, rfl⟩ := List.exists_cons_of_ne_nil h
    exact List.nil_lt_cons _ _
  | cons a l ih => exact List.cons_lt_cons_iff.mpr (.inr ⟨rfl, ih⟩)

/-- The first byte of a character above the slash. -/
theorem lt_of_utf8EncodeChar {c : Char} {b : UInt8} {rest : List UInt8} (hc : ¬ c < '/')
    (hne : c ≠ '/') (h : String.utf8EncodeChar c = b :: rest) : 0x2f < b.toNat := by
  have hlt : 47 < c.toNat := by
    rcases lt_trichotomy c '/' with hlt | heq | hgt
    · exact absurd hlt hc
    · exact absurd heq hne
    · exact hgt
  have hmem : b ∈ String.utf8EncodeChar c := by rw [h]; exact List.mem_cons_self ..
  rcases Text.mem_utf8EncodeChar hmem with ⟨hascii, rfl⟩ | hhigh
  · rw [UInt8.toNat_ofNat']
    omega
  · omega

/-- The byte of a character below the slash. -/
theorem utf8EncodeChar_of_lt {c : Char} (hc : c < '/') :
    ∃ b : UInt8, String.utf8EncodeChar c = [b] ∧ b.toNat < 0x2f := by
  have hlt : c.toNat < 47 := hc
  refine ⟨UInt8.ofNat c.toNat, Text.utf8EncodeChar_of_ascii (by omega), ?_⟩
  rw [UInt8.toNat_ofNat']
  omega

namespace TreeItem

/-- The name of an item with the slash of a directory. -/
def full (item : TreeItem) : Text := item.name ++ if item.directory then ['/'] else []

theorem key_eq (item : TreeItem) : item.key = item.full.asBytes.map UInt8.toNat := by
  rw [key, suffix, full]
  cases item.directory
  · simp
  · rw [Text.asBytes_append, List.map_append]
    rfl

theorem key_le_gitKey {item : TreeItem} (h : item.directory = true → item.mode = directoryMode) :
    item.key ≤ item.entry.gitKey := by
  rw [key, suffix, TreeEntry.gitKey, entry]
  cases hdir : item.directory
  · simp only [Bool.false_eq_true, if_false, List.append_nil]
    split_ifs
    · exact (lt_append_of_ne_nil (by simp)).le
    · rw [List.append_nil]
  · rw [h hdir]
    exact le_rfl

end TreeItem

section Canonical

variable {child : Text → Except (Fault RepositoryError) Written} {pre : Text} {index : Index}

/-- The path that an item stands for, or goes through. -/
theorem IsItem.exists_path {item : TreeItem} (h : IsItem child pre index.entries item) :
    ∃ entry ∈ index.entries, ∃ rest, entry.path = pre ++ (item.full ++ rest) ∧
      (item.directory = true → item.mode = directoryMode) ∧
      (item.directory = false → rest = [] ∧ item.mode = entry.mode) := by
  rcases h with @⟨entry, name, hentry, hpiece⟩ | @⟨entry, name, id, objects, hentry, hpiece, hchild⟩
  · refine ⟨entry, hentry, [], ?_, by simp, fun _ => ⟨rfl, rfl⟩⟩
    rw [(piece_eq_file.mp hpiece).1, TreeItem.full]
    simp
  · obtain ⟨_, rest, hpath⟩ := piece_eq_directory.mp hpiece
    refine ⟨entry, hentry, rest, ?_, fun _ => rfl, by simp⟩
    rw [hpath, TreeItem.full]
    simp

/-- In a clear index the items of a directory are in Git's order. -/
theorem ascending_of_clear (hclear : index.Clear) {a b : TreeItem}
    (ha : IsItem child pre index.entries a) (hb : IsItem child pre index.entries b)
    (hlt : a.key < b.key) : Ascending a b := by
  obtain ⟨entry, hentry, rest, hpath, hadir, hafile⟩ := ha.exists_path
  obtain ⟨entry', hentry', rest', hpath', hbdir, hbfile⟩ := hb.exists_path
  have hb_le := TreeItem.key_le_gitKey hbdir
  cases hda : a.directory with
  | true =>
    have hgit : a.entry.gitKey = a.key := by
      rw [TreeEntry.gitKey, TreeItem.entry, hadir hda, if_pos rfl, TreeItem.key, TreeItem.suffix, hda,
        if_pos rfl]
    refine ⟨hgit ▸ hlt.trans_le hb_le, fun hname => ?_⟩
    rw [TreeItem.key, TreeItem.key, hname, TreeItem.suffix, hda, if_pos rfl, TreeItem.suffix] at hlt
    split_ifs at hlt
    · exact lt_irrefl _ hlt
    · rw [List.append_nil] at hlt
      exact (lt_append_of_ne_nil (by simp)).asymm hlt
  | false =>
    obtain ⟨rfl, hmode⟩ := hafile hda
    have hafull : a.full = a.name := by simp [TreeItem.full, hda]
    have hkey : a.key = a.name.asBytes.map UInt8.toNat := by rw [TreeItem.key_eq, hafull]
    rw [hafull, List.append_nil] at hpath
    -- a path of `b` that goes on behind the name of `a`
    have hnext : ∀ c more, b.full = a.name ++ c :: more →
        c ≠ '/' ∧ (a.mode = directoryMode → ¬ c < '/') := by
      intro c more hfull
      rw [hmode]
      refine hclear entry hentry entry' hentry' c (more ++ rest') ?_
      rw [hpath', hfull, hpath]
      simp
    constructor
    · by_cases hdirmode : a.mode = directoryMode
      · have hgit : a.entry.gitKey = a.key ++ [0x2f] := by
          rw [TreeEntry.gitKey, TreeItem.entry, if_pos hdirmode, hkey]
        rw [hgit]
        refine (append_singleton_lt hlt fun x more hmore => ?_).trans_le hb_le
        rw [TreeItem.key_eq b, hkey] at hmore
        obtain ⟨bytes, tail, hbytes, hhead, htail⟩ := List.map_eq_append_iff.mp hmore
        have hleads : a.name.asBytes = bytes :=
          (List.map_injective_iff.mpr fun _ _ => UInt8.toNat_inj.mp) hhead.symm
        obtain ⟨byte, tail', rfl, rfl, _⟩ := List.map_eq_cons_iff.mp htail
        rw [← hleads] at hbytes
        obtain ⟨suffix, hsuffix⟩ := Text.prefix_of_asBytes hbytes.symm
        rw [← hsuffix, Text.asBytes_append, List.append_cancel_left_eq] at hbytes
        cases suffix with
        | nil => exact absurd hbytes (by simp)
        | cons c suffix =>
          obtain ⟨hne, hnlt⟩ := hnext c suffix hsuffix.symm
          rw [Text.asBytes_cons] at hbytes
          cases hchar : String.utf8EncodeChar c with
          | nil =>
            have hlength := String.length_utf8EncodeChar c
            rw [hchar] at hlength
            exact absurd hlength c.utf8Size_pos.ne
          | cons byte' more' =>
            rw [hchar] at hbytes
            obtain rfl := (List.cons.inj hbytes).1
            exact lt_of_utf8EncodeChar (hnlt hdirmode) hne hchar
      · have hgit : a.entry.gitKey = a.key := by
          rw [TreeEntry.gitKey, TreeItem.entry, if_neg hdirmode, List.append_nil, hkey]
        exact hgit ▸ hlt.trans_le hb_le
    · intro hname
      cases hdb : b.directory with
      | true =>
        refine (hnext '/' [] ?_).1 rfl
        simp [TreeItem.full, hdb, hname]
      | false =>
        rw [TreeItem.key_eq, TreeItem.key_eq, TreeItem.full, TreeItem.full, hda, hdb, hname] at hlt
        exact lt_irrefl _ hlt

theorem exists_child {entry : IndexEntry} {name : Text} {items : List TreeItem}
    {written : List Object} (hitems : collectItems child pre index.entries [] = .ok (items, written))
    (hentry : entry ∈ index.entries) (hpiece : piece pre entry.path = .directory name) :
    ∃ id objects, child (pre ++ name ++ ['/']) = .ok (id, objects) := by
  obtain ⟨results, hresults, _, _⟩ := collectItems_cases hitems
  have hslot : (name, none) ∈ slots pre index.entries [] :=
    mem_slots_directory.mpr ⟨by simp, entry, hentry, hpiece⟩
  obtain ⟨i, hi, hget⟩ := List.getElem_of_mem hslot
  have hall := forall₂_of_mapM_eq_ok hresults
  have hi' : i < results.length := by rw [← hall.length_eq]; exact hi
  have hresult := hall.get hi hi'
  rw [List.get_eq_getElem, hget] at hresult
  obtain ⟨⟨id, objects⟩, hchild, _⟩ := bind_eq_ok.mp hresult
  exact ⟨id, objects, hchild⟩

/-- Every path below a directory belongs to one of its items. -/
theorem exists_item {entry : IndexEntry} {rest : Text} {items : List TreeItem}
    {written : List Object} (hitems : collectItems child pre index.entries [] = .ok (items, written))
    (hentry : entry ∈ index.entries) (hpath : entry.path = pre ++ rest) (hne : rest ≠ []) :
    ∃ item ∈ items, item.name = rest.takeWhile (· ≠ '/') ∧ (item.directory = true ↔ '/' ∈ rest) := by
  have hpiece := piece_append pre rest
  rw [← hpath] at hpiece
  by_cases hslash : '/' ∈ rest
  · rw [if_pos hslash] at hpiece
    obtain ⟨id, objects, hchild⟩ := exists_child hitems hentry hpiece
    exact ⟨_, (mem_items hitems).mpr (.directory hentry hpiece hchild), rfl, by simpa using hslash⟩
  · rw [if_neg hslash, if_neg fun h => hne (List.isEmpty_iff.mp h)] at hpiece
    have hall : rest.takeWhile (· ≠ '/') = rest := List.takeWhile_eq_self_iff.mpr fun c hc => by
      simpa using fun h : c = '/' => hslash (h ▸ hc)
    exact ⟨_, (mem_items hitems).mpr (.file hentry hpiece), hall.symm, by simpa using hslash⟩

/-- What canonical order says about the paths that go on behind a file of the directory. -/
theorem clear_of_ascending {entry entry' : IndexEntry} {name rest : Text} {c : Char}
    {items : List TreeItem} {written : List Object}
    (hitems : collectItems child pre index.entries [] = .ok (items, written))
    (hascending : ∀ a ∈ items, ∀ b ∈ items, a.key < b.key → Ascending a b)
    (hentry : entry ∈ index.entries) (hfile : piece pre entry.path = .file name)
    (hentry' : entry' ∈ index.entries) (hpath : entry'.path = entry.path ++ c :: rest) :
    c ≠ '/' ∧ (entry.mode = directoryMode → ¬ c < '/') := by
  obtain ⟨hpre, hname, _⟩ := piece_eq_file.mp hfile
  have ha : ⟨name, entry.mode, entry.id, false⟩ ∈ items :=
    (mem_items hitems).mpr (.file hentry hfile)
  have hkey : TreeItem.key ⟨name, entry.mode, entry.id, false⟩ = name.asBytes.map UInt8.toNat := by
    simp [TreeItem.key_eq, TreeItem.full]
  have hpath' : entry'.path = pre ++ (name ++ c :: rest) := by rw [hpath, hpre, List.append_assoc]
  obtain ⟨b, hb, hbname, hbdir⟩ := exists_item hitems hentry' hpath' (by simp)
  by_cases hc : c = '/'
  · subst hc
    rw [takeWhile_append_slash hname] at hbname
    have hlt : TreeItem.key ⟨name, entry.mode, entry.id, false⟩ < b.key := by
      rw [hkey, TreeItem.key, hbname, TreeItem.suffix, if_pos (hbdir.mpr (by simp))]
      exact lt_append_of_ne_nil (by simp)
    exact absurd hbname.symm (hascending _ ha b hb hlt).2
  · refine ⟨hc, fun hmode hbelow => ?_⟩
    obtain ⟨byte, hbyte, hbyte_lt⟩ := utf8EncodeChar_of_lt hbelow
    have hbname' : b.name = name ++ c :: rest.takeWhile (· ≠ '/') := by
      rw [hbname, List.takeWhile_append_of_pos fun c' hc' => by
        simpa using fun h : c' = '/' => hname (h ▸ hc'), List.takeWhile_cons_of_pos (by simpa using hc)]
    have hbytes : b.name.asBytes.map UInt8.toNat = name.asBytes.map UInt8.toNat ++
        byte.toNat :: (Text.asBytes (rest.takeWhile (· ≠ '/'))).map UInt8.toNat := by
      rw [hbname', Text.asBytes_append, Text.asBytes_cons, hbyte]
      simp
    have hlt : TreeItem.key ⟨name, entry.mode, entry.id, false⟩ < b.key := by
      rw [hkey, TreeItem.key, hbytes, List.append_assoc]
      exact lt_append_of_ne_nil (by simp)
    have hgit := (hascending _ ha b hb hlt).1
    rw [TreeEntry.gitKey, TreeEntry.gitKey, TreeItem.entry, TreeItem.entry, if_pos hmode, hbytes,
      List.append_assoc, append_lt_append_iff, List.cons_append, List.cons_lt_cons_iff]
      at hgit
    rcases hgit with hgit | ⟨hgit, _⟩ <;> omega

end Canonical

/-- The tree object of the directory with the given prefix. -/
def Lists (index : Index) (pre : Text) (object : Object) : Prop :=
  ∃ child items written, collectItems child pre index.entries [] = .ok (items, written) ∧
    object = treeObject items

theorem writeTreePrefix_cases {index : Index} {fuel : ℕ} {pre : Text} {id : ObjectId}
    {written : List Object} (h : writeTreePrefix index fuel pre = .ok (id, written)) :
    ∃ fuel' items below, fuel = fuel' + 1 ∧
      collectItems (writeTreePrefix index fuel') pre index.entries [] = .ok (items, below) ∧
      id = (treeObject items).id ∧ written = below ++ [treeObject items] := by
  cases fuel with
  | zero => exact absurd h (by simp [writeTreePrefix])
  | succ fuel =>
    rw [writeTreePrefix] at h
    obtain ⟨⟨items, below⟩, hcollect, h⟩ := bind_eq_ok.mp h
    obtain ⟨hid, hwritten⟩ := Prod.mk.inj (Except.ok.inj h)
    exact ⟨fuel, items, below, rfl, hcollect, hid.symm, hwritten.symm⟩

/-- Every object that is written is the tree of a directory. -/
theorem exists_lists_of_mem {index : Index} {fuel : ℕ} {pre : Text} {id : ObjectId}
    {written : List Object} (hpre : Slashed pre)
    (h : writeTreePrefix index fuel pre = .ok (id, written)) {object : Object}
    (hmem : object ∈ written) : ∃ pre', Slashed pre' ∧ Lists index pre' object := by
  induction fuel generalizing pre id written with
  | zero => exact absurd h (by simp [writeTreePrefix])
  | succ fuel ih =>
    obtain ⟨_, items, below, heq, hcollect, _, rfl⟩ := writeTreePrefix_cases h
    obtain rfl := Nat.succ.inj heq
    rcases List.mem_append.mp hmem with hbelow | hlast
    · obtain ⟨entry, _, name, id, objects, _, hchild, hobject⟩ :=
        (mem_written hcollect).mp hbelow
      exact ih (slashed_append pre name) hchild hobject
    · exact ⟨pre, hpre, _, items, below, hcollect, List.mem_singleton.mp hlast⟩

/-- The tree of every directory that a path goes through is written. -/
theorem exists_mem_of_prefix {index : Index} {fuel : ℕ} {pre rest : Text} {id : ObjectId}
    {written : List Object} (h : writeTreePrefix index fuel pre = .ok (id, written))
    (hrest : Slashed rest) {entry : IndexEntry} (hentry : entry ∈ index.entries)
    (hleads : pre ++ rest <+: entry.path) :
    ∃ child items below, collectItems child (pre ++ rest) index.entries [] = .ok (items, below) ∧
      treeObject items ∈ written := by
  induction fuel generalizing pre rest id written with
  | zero => exact absurd h (by simp [writeTreePrefix])
  | succ fuel ih =>
    obtain ⟨_, items, below, heq, hcollect, _, rfl⟩ := writeTreePrefix_cases h
    obtain rfl := Nat.succ.inj heq
    by_cases hnil : rest = []
    · subst hnil
      rw [List.append_nil]
      exact ⟨_, items, below, hcollect, by simp⟩
    · have hslash : '/' ∈ rest := by
        rcases hrest with rfl | ⟨dir, rfl⟩
        · exact absurd rfl hnil
        · simp
      obtain ⟨name, rest', rfl, hname⟩ := List.eq_append_cons_of_mem hslash
      have hrest' : Slashed rest' := by
        rcases hrest with hnil' | ⟨dir, hdir⟩
        · exact absurd hnil' hnil
        · rcases List.eq_nil_or_concat rest' with rfl | ⟨dir', c, rfl⟩
          · exact .inl rfl
          · have hlast := congrArg List.getLast? hdir
            have hc : c = '/' := by simpa [List.getLast?_append, List.getLast?_cons] using hlast
            exact .inr ⟨dir', by rw [hc, List.concat_eq_append]⟩
      obtain ⟨tail, htail⟩ := hleads
      have hpiece : piece pre entry.path = .directory name :=
        piece_eq_directory.mpr ⟨hname, rest' ++ tail, by rw [← htail]; simp⟩
      obtain ⟨id, objects, hchild⟩ := exists_child hcollect hentry hpiece
      have hsplit : pre ++ (name ++ '/' :: rest') = pre ++ name ++ ['/'] ++ rest' := by simp
      rw [hsplit] at htail ⊢
      obtain ⟨child, items', below', hcollect', hmem⟩ := ih hchild hrest' ⟨tail, htail⟩
      refine ⟨child, items', below', hcollect', ?_⟩
      exact List.mem_append_left _
        ((mem_written hcollect).mpr ⟨entry, hentry, name, id, objects, hpiece, hchild, hmem⟩)

/-- A path is the prefix of its directory and a name. -/
theorem exists_slashed (path : Text) : ∃ pre name, Slashed pre ∧ '/' ∉ name ∧ path = pre ++ name := by
  induction path using List.reverseRecOn with
  | nil => exact ⟨[], [], .inl rfl, by simp, rfl⟩
  | append_singleton path c ih =>
    by_cases hc : c = '/'
    · exact ⟨path ++ [c], [], .inr ⟨path, by rw [hc]⟩, by simp, by simp⟩
    · obtain ⟨pre, name, hpre, hname, rfl⟩ := ih
      refine ⟨pre, name ++ [c], hpre, ?_, by simp⟩
      simpa [hname] using Ne.symm hc

/-- The trees of an index are canonical exactly if the index is clear. -/
theorem canonical_iff_clear {index : Index} (hpaths : (index.entries.map (·.path)).Nodup)
    (hvalid : ∀ entry ∈ index.entries, validatePath entry.path = .ok ()) {fuel : ℕ} {id : ObjectId}
    {written : List Object} (h : writeTreePrefix index fuel [] = .ok (id, written)) :
    (∀ object ∈ written, Canonical object) ↔ index.Clear := by
  have hiff : ∀ {child pre items below}, Slashed pre →
      collectItems child pre index.entries [] = .ok (items, below) →
        (Canonical (treeObject items) ↔
          ∀ a ∈ items, ∀ b ∈ items, a.key < b.key → Ascending a b) := by
    intro child pre items below hpre hcollect
    refine canonical_treeObject_iff (fun item hitem => ?_) (nodup_items hcollect hpaths)
    rcases (mem_items hcollect).mp hitem with ⟨hentry, hpiece⟩ | ⟨hentry, hpiece, _⟩
    · exact badName_of_piece hpre (hvalid _ hentry) (.inl hpiece)
    · exact badName_of_piece hpre (hvalid _ hentry) (.inr hpiece)
  constructor
  · intro hcanonical entry hentry entry' hentry' c rest hpath
    obtain ⟨pre, name, hpre, hname, hsplit⟩ := exists_slashed entry.path
    have hleads : pre <+: entry.path := ⟨name, hsplit.symm⟩
    have hfile : piece pre entry.path = .file name := by
      have hother := piece_ne_other hpre (hvalid entry hentry) hleads
      rw [hsplit, piece_append, if_neg hname] at hother ⊢
      split_ifs at hother ⊢
      · exact absurd rfl hother
      · rfl
    obtain ⟨child, items, below, hcollect, hmem⟩ := exists_mem_of_prefix h hpre hentry hleads
    exact clear_of_ascending hcollect ((hiff hpre hcollect).mp (hcanonical _ hmem)) hentry hfile
      hentry' hpath
  · intro hclear object hmem
    obtain ⟨pre, hpre, child, items, below, hcollect, rfl⟩ :=
      exists_lists_of_mem (.inl rfl) h hmem
    rw [hiff hpre hcollect]
    intro a ha b hb hlt
    exact ascending_of_clear hclear ((mem_items hcollect).mp ha) ((mem_items hcollect).mp hb) hlt

/-- Entries of one stage have different paths. -/
theorem Index.Sorted.nodup_paths {index : Index} (h : index.Sorted)
    (hstage : ∀ entry ∈ index.entries, entry.stage = 0) :
    (index.entries.map (·.path)).Nodup := by
  rw [List.Nodup, List.pairwise_map]
  refine List.Pairwise.imp_of_mem (fun ha hb hlt heq => hlt.ne ?_) h
  rw [IndexEntry.key_inj, IndexEntry.slot, IndexEntry.slot, heq, hstage _ ha, hstage _ hb]

/-- **Main theorem.** The trees of an index of valid paths at stage 0 that operations have built:
they are canonical exactly if the index is clear. -/
theorem canonical_trees (ops : List IndexOp)
    (hentries : ∀ entry ∈ (Index.built ops).entries,
      validatePath entry.path = .ok () ∧ entry.stage = 0) :
    ∃ id written, writeTreeFromIndex (Index.built ops) = .ok (id, written) ∧
      ((∀ object ∈ written, Canonical object) ↔ (Index.built ops).Clear) := by
  have hstage := fun entry hentry => (hentries entry hentry).2
  obtain ⟨⟨id, written⟩, hwrite⟩ := exists_writeTreeFromIndex hstage
  refine ⟨id, written, hwrite, ?_⟩
  rw [writeTreeFromIndex] at hwrite
  obtain ⟨_, _, hwrite⟩ := bind_eq_ok.mp hwrite
  have hsorted : (Index.built ops).Sorted := (Index.run_represents ops).1
  exact canonical_iff_clear (hsorted.nodup_paths hstage)
    (fun entry hentry => (hentries entry hentry).1) hwrite

/-- A file of the index, by its path. -/
def blobEntry (path : Text) : IndexEntry := ⟨path, default, 0o100644, 0, 0⟩

theorem canonical_trees_two_files :
    ∃ id written, writeTreeFromIndex (Index.built [.upsert (blobEntry "a/b".toList),
        .upsert (blobEntry "a.c".toList)]) = .ok (id, written) ∧
      ((∀ object ∈ written, Canonical object) ↔ (Index.built [.upsert (blobEntry "a/b".toList),
        .upsert (blobEntry "a.c".toList)]).Clear) :=
  canonical_trees [.upsert (blobEntry "a/b".toList), .upsert (blobEntry "a.c".toList)]
    (by decide +kernel)

/-- The tree of a file `a` and a file `a/b` lists the name `a` twice. -/
theorem not_canonical_trees :
    ¬ ∀ ops : List IndexOp, (∀ entry ∈ (Index.built ops).entries,
        validatePath entry.path = .ok () ∧ entry.stage = 0) →
      ∀ id written, writeTreeFromIndex (Index.built ops) = .ok (id, written) →
        ∀ object ∈ written, Canonical object := by
  intro h
  have hbuilt : (Index.built [.upsert (blobEntry "a".toList),
      .upsert (blobEntry "a/b".toList)]).entries =
      [blobEntry "a".toList, blobEntry "a/b".toList] := by decide +kernel
  have hentries : ∀ entry ∈ [blobEntry "a".toList, blobEntry "a/b".toList],
      validatePath entry.path = .ok () ∧ entry.stage = 0 := by decide +kernel
  rw [← hbuilt] at hentries
  have hstage := fun entry hentry => (hentries entry hentry).2
  have hsorted : (Index.built [.upsert (blobEntry "a".toList),
      .upsert (blobEntry "a/b".toList)]).Sorted := (Index.run_represents _).1
  obtain ⟨⟨id, written⟩, hwrite⟩ := exists_writeTreeFromIndex hstage
  have hcanonical := h _ hentries id written hwrite
  rw [writeTreeFromIndex] at hwrite
  obtain ⟨_, _, hwrite⟩ := bind_eq_ok.mp hwrite
  have hclear := (canonical_iff_clear (hsorted.nodup_paths hstage)
    (fun entry hentry => (hentries entry hentry).1) hwrite).mp hcanonical
  rw [Index.Clear, hbuilt] at hclear
  exact (hclear (blobEntry "a".toList) (by simp) (blobEntry "a/b".toList) (by simp) '/' ['b']
    (by decide)).1 rfl

/-! ## Reading a tree back -/

/-- An index that the tree reader can read back: one file for each path, regular modes, and blobs
of the recorded sizes in the store. -/
structure Fits (store : Store) (index : Index) : Prop where
  stage : ∀ entry ∈ index.entries, entry.stage = 0
  paths : (index.entries.map (·.path)).Nodup
  valid : ∀ entry ∈ index.entries, validatePath entry.path = .ok ()
  depth : ∀ entry ∈ index.entries, entry.path.count '/' ≤ maxDepth
  mode : ∀ entry ∈ index.entries, entry.mode = 0o100644 ∨ entry.mode = 0o100755
  blob : ∀ entry ∈ index.entries, ∃ contents, store.get entry.id = some ⟨.blob, contents⟩ ∧
    entry.size.toNat = contents.length

/-- Adding a file to the index that is read. -/
def insertFile (index : Index) (entry : IndexEntry) : Except RepositoryError Index :=
  if index.entries.length ≥ maxWorktreeEntries then .error .tooManyFiles
  else .ok (index.upsert entry)

/-- A file of the tree adds its entry. -/
theorem readFile_eq {store : Store} {index : Index} (hfits : Fits store index)
    {entry : IndexEntry} (hentry : entry ∈ index.entries) (name : Text) (start : Index) :
    readFile store entry.path ⟨entry.mode, name, entry.id⟩ start = insertFile start entry := by
  obtain ⟨contents, hget, hsize⟩ := hfits.blob entry hentry
  have hlt := entry.size.toNat_lt
  have hstage := hfits.stage entry hentry
  rw [readFile, insertFile, refuseIf]
  split_ifs
  · rfl
  · rw [ok_bind, Store.readObject, hget, okOr_some, ok_bind, refuseIf_of_not (by simp), ok_bind,
      refuseIf_of_not (by dsimp only; omega), ok_bind, ← hsize, UInt32.ofNat_toNat, ← hstage]
    rfl

/-- The piece of a path that an item stands for. -/
def TreeItem.piece (item : TreeItem) : Piece :=
  if item.directory then .directory item.name else .file item.name

theorem TreeItem.piece_inj {item item' : TreeItem} (h : item.piece = item'.piece) :
    item.tag = item'.tag := by
  unfold TreeItem.piece at h
  rw [TreeItem.tag, TreeItem.tag, Prod.mk.injEq]
  split_ifs at h with hd hd' hd'
  · exact ⟨Piece.directory.inj h, by rw [hd, hd']⟩
  · exact ⟨Piece.file.inj h, by rw [Bool.eq_false_of_not_eq_true hd,
      Bool.eq_false_of_not_eq_true hd']⟩

theorem exists_item_piece {child : Text → Except (Fault RepositoryError) Written} {pre : Text}
    {index : Index} {items : List TreeItem} {written : List Object}
    (hitems : collectItems child pre index.entries [] = .ok (items, written)) (hpre : Slashed pre)
    {entry : IndexEntry} (hentry : entry ∈ index.entries)
    (hvalid : validatePath entry.path = .ok ()) (hleads : pre <+: entry.path) :
    ∃ item ∈ items, piece pre entry.path = item.piece := by
  have hother := piece_ne_other hpre hvalid hleads
  cases hpiece : piece pre entry.path with
  | other => exact absurd hpiece hother
  | file name => exact ⟨_, (mem_items hitems).mpr (.file hentry hpiece), rfl⟩
  | directory name =>
    obtain ⟨id, objects, hchild⟩ := exists_child hitems hentry hpiece
    exact ⟨_, (mem_items hitems).mpr (.directory hentry hpiece hchild), rfl⟩

/-- `read` adds the files of an index that satisfy `p`, one by one. -/
def Adds (index : Index) (p : IndexEntry → Prop)
    (read : Index → Except RepositoryError Index) : Prop :=
  ∃ files : List IndexEntry, files.Nodup ∧
    (∀ entry, entry ∈ files ↔ entry ∈ index.entries ∧ p entry) ∧
    ∀ start, read start = files.foldlM insertFile start

theorem Adds.congr {index : Index} {p q : IndexEntry → Prop}
    {read : Index → Except RepositoryError Index} (h : Adds index p read)
    (hiff : ∀ entry, p entry ↔ q entry) : Adds index q read := by
  rwa [← show p = q from funext fun entry => propext (hiff entry)]

/-- What `flatten_tree` does with an entry of a tree. -/
def readEntry (store : Store) (levels : ℕ) (dir : Text) (entry : TreeEntry) (index : Index) :
    Except RepositoryError Index :=
  if entry.mode = directoryMode then
    flattenTree store levels entry.id (childPath dir entry.name) index
  else if entry.mode = 0o100644 ∨ entry.mode = 0o100755 then
    readFile store (childPath dir entry.name) entry index
  else .error .unsupportedFileType

section Flatten

variable {store : Store} {index : Index} {levels : ℕ} {pre dir name : Text} {id : ObjectId}

/-- The entry of a file adds that file. -/
theorem readEntry_file (hfits : Fits store index) (hdir : ∀ name, childPath dir name = pre ++ name)
    {entry : IndexEntry} (hentry : entry ∈ index.entries) (hpiece : piece pre entry.path = .file name) :
    Adds index (fun entry => piece pre entry.path = .file name)
      (readEntry store levels dir ⟨entry.mode, name, entry.id⟩) := by
  refine ⟨[entry], List.nodup_singleton _, fun entry' => ?_, fun start => ?_⟩
  · rw [List.mem_singleton]
    constructor
    · rintro rfl
      exact ⟨hentry, hpiece⟩
    · rintro ⟨hentry', hpiece'⟩
      have hpath : entry'.path = entry.path := by
        rw [(piece_eq_file.mp hpiece).1, (piece_eq_file.mp hpiece').1]
      exact List.inj_on_of_nodup_map hfits.paths hentry' hentry hpath
  · have hmode := hfits.mode entry hentry
    have hne : entry.mode ≠ directoryMode := by
      rintro heq
      rw [heq] at hmode
      exact absurd hmode (by decide)
    have hpath : childPath dir name = entry.path := by
      rw [hdir, (piece_eq_file.mp hpiece).1]
    dsimp only [readEntry]
    rw [if_neg hne, if_pos hmode, hpath]
    refine (readFile_eq hfits hentry name start).trans ?_
    rw [List.foldlM_cons]
    cases insertFile start entry <;> rfl

/-- The entry of a directory adds the files below that directory. -/
theorem readEntry_directory (hname : '/' ∉ name)
    (h : Adds index (fun entry => pre ++ name ++ ['/'] <+: entry.path)
      (flattenTree store levels id (childPath dir name))) :
    Adds index (fun entry => piece pre entry.path = .directory name)
      (readEntry store levels dir ⟨directoryMode, name, id⟩) := by
  obtain ⟨files, hnodup, hfiles, hread⟩ := h.congr (q := fun entry =>
      piece pre entry.path = .directory name) fun entry => by
    rw [piece_eq_directory, and_iff_right hname]
    constructor
    · rintro ⟨rest, hrest⟩
      exact ⟨rest, by rw [← hrest]; simp⟩
    · rintro ⟨rest, hrest⟩
      exact ⟨rest, by rw [hrest]; simp⟩
  exact ⟨files, hnodup, hfiles, fun start => (if_pos rfl).trans (hread start)⟩

/-- The paths below a directory that has a name. -/
theorem childPath_childPath (hdir : ∀ name, childPath dir name = pre ++ name) (hname : name ≠ [])
    (name' : Text) : childPath (childPath dir name) name' = pre ++ name ++ ['/'] ++ name' := by
  have hnonempty : childPath dir name ≠ [] := by
    rw [hdir]
    exact fun hnil => hname (List.append_eq_nil_iff.mp hnil).2
  rw [childPath, if_neg fun h => hnonempty (List.isEmpty_iff.mp h), hdir]
  simp

/-- The paths below a directory have one level less. -/
theorem depth_directory (hname : '/' ∉ name) (hdepth : ∀ entry ∈ index.entries,
      pre <+: entry.path → entry.path.count '/' < pre.count '/' + (levels + 1)) :
    ∀ entry ∈ index.entries, pre ++ name ++ ['/'] <+: entry.path →
      entry.path.count '/' < (pre ++ name ++ ['/']).count '/' + levels := by
  intro entry hentry hleads
  have hcount : (pre ++ name ++ ['/']).count '/' = pre.count '/' + 1 := by
    rw [List.count_append, List.count_append, List.count_eq_zero_of_not_mem hname]
    simp
  have hpre : pre <+: entry.path := by
    rw [List.append_assoc] at hleads
    exact (List.prefix_append _ _).trans hleads
  have := hdepth entry hentry hpre
  omega

variable {child : Text → Except (Fault RepositoryError) Written} {items : List TreeItem}
  {below : List Object}

theorem name_of_mem_items (hfits : Fits store index) (hpre : Slashed pre)
    (hcollect : collectItems child pre index.entries [] = .ok (items, below)) {item : TreeItem}
    (hitem : item ∈ items) : '/' ∉ item.name ∧ badName item.name = false := by
  rcases (mem_items hcollect).mp hitem with ⟨hentry, hpiece⟩ | ⟨hentry, hpiece, _⟩
  · exact badName_of_piece hpre (hfits.valid _ hentry) (.inl hpiece)
  · exact badName_of_piece hpre (hfits.valid _ hentry) (.inr hpiece)

/-- The tree of a directory is read entry by entry. -/
theorem flattenTree_treeObject (hfits : Fits store index) (hpre : Slashed pre)
    (hcollect : collectItems child pre index.entries [] = .ok (items, below))
    (htree : store.get (treeObject items).id = some (treeObject items)) (start : Index) :
    flattenTree store (levels + 1) (treeObject items).id dir start =
      (sortItems items).foldlM (fun index item => readEntry store levels dir item.entry index)
        start := by
  have hmodes : ∀ entry ∈ (sortItems items).map TreeItem.entry,
      writtenMode entry.mode ∧ badName entry.name = false := by
    intro entry hentry
    obtain ⟨item, hitem, rfl⟩ := List.mem_map.mp hentry
    have hitem' := (List.mem_insertionSort _).mp hitem
    refine ⟨?_, (name_of_mem_items hfits hpre hcollect hitem').2⟩
    rcases (mem_items hcollect).mp hitem' with ⟨hfile, _⟩ | ⟨_, _, _⟩
    · exact .inr (hfits.mode _ hfile)
    · exact .inl rfl
  have hparse : parseTree (treeObject items).contents =
      .ok ((sortItems items).map TreeItem.entry) := by
    have hcontents : (treeObject items).contents =
        ((sortItems items).map TreeItem.entry).flatMap TreeEntry.encode := by
      rw [List.flatMap_map]
      rfl
    rw [hcontents, parseTree_encode hmodes]
  rw [flattenTree, Store.readObject, htree, okOr_some, ok_bind,
    refuseIf_of_not (by simp [treeObject]), ok_bind, hparse]
  show List.foldlM _ start ((sortItems items).map TreeItem.entry) = _
  rw [List.foldlM_map]
  rfl

/-- The entries of a directory add the files below it, if each adds the files of its piece. -/
theorem adds_items (hfits : Fits store index) (hpre : Slashed pre)
    (hcollect : collectItems child pre index.entries [] = .ok (items, below))
    (hread : ∀ item ∈ items, Adds index (fun entry => piece pre entry.path = item.piece)
      (readEntry store levels dir item.entry)) :
    Adds index (fun entry => pre <+: entry.path) fun start =>
      (sortItems items).foldlM (fun index item => readEntry store levels dir item.entry index)
        start := by
  choose! files hnodup hfiles hread using hread
  have hsort : ∀ item, item ∈ sortItems items ↔ item ∈ items := fun item =>
    List.mem_insertionSort _
  have hname : ∀ item ∈ items, '/' ∉ item.name := fun item hitem =>
    (name_of_mem_items hfits hpre hcollect hitem).1
  refine ⟨(sortItems items).flatMap files, ?_, fun entry => ?_, fun start =>
    foldlM_flatMap_of (fun item hitem s => hread item ((hsort item).mp hitem) s) start⟩
  · rw [List.nodup_flatMap]
    refine ⟨fun item hmem => hnodup item ((hsort item).mp hmem), ?_⟩
    have hsorted := sortedBy_sortItems hname (nodup_items hcollect hfits.paths)
    refine List.Pairwise.imp_of_mem (fun {a b} ha hb hlt => ?_) hsorted
    show List.Disjoint (files a) (files b)
    intro entry hea heb
    have hpa := ((hfiles a ((hsort a).mp ha) entry).mp hea).2
    have hpb := ((hfiles b ((hsort b).mp hb) entry).mp heb).2
    have htag := TreeItem.piece_inj (hpa.symm.trans hpb)
    exact hlt.ne ((TreeItem.key_inj (hname a ((hsort a).mp ha))
      (hname b ((hsort b).mp hb))).mpr htag)
  · rw [List.mem_flatMap]
    constructor
    · rintro ⟨item, hmem, hentry⟩
      obtain ⟨hentry, hpiece⟩ := (hfiles item ((hsort item).mp hmem) entry).mp hentry
      refine ⟨hentry, ?_⟩
      have hother : piece pre entry.path ≠ .other := by
        rw [hpiece, TreeItem.piece]
        split_ifs <;> simp
      obtain ⟨rest, hrest⟩ := prefix_of_piece hother
      exact ⟨rest, hrest.symm⟩
    · rintro ⟨hentry, hleads⟩
      obtain ⟨item, hitem, hpiece⟩ := exists_item_piece hcollect hpre hentry
        (hfits.valid entry hentry) hleads
      exact ⟨item, (hsort item).mpr hitem, (hfiles item hitem entry).mpr ⟨hentry, hpiece⟩⟩

end Flatten

/-- **Run lemma.** Reading the tree of a directory adds the files below it, one by one. -/
theorem flattenTree_adds {store : Store} {index : Index} (hfits : Fits store index)
    {fuel levels : ℕ} {pre dir : Text} {id : ObjectId} {written : List Object}
    (hpre : Slashed pre) (hdir : ∀ name, childPath dir name = pre ++ name)
    (hwrite : writeTreePrefix index fuel pre = .ok (id, written))
    (hstore : ∀ object ∈ written, store.get object.id = some object) (hlevels : 0 < levels)
    (hdepth : ∀ entry ∈ index.entries, pre <+: entry.path →
      entry.path.count '/' < pre.count '/' + levels) :
    Adds index (fun entry => pre <+: entry.path) (flattenTree store levels id dir) := by
  induction fuel generalizing levels pre dir id written with
  | zero => exact absurd hwrite (by simp [writeTreePrefix])
  | succ fuel ih =>
    obtain ⟨_, items, below, heq, hcollect, rfl, rfl⟩ := writeTreePrefix_cases hwrite
    obtain rfl := Nat.succ.inj heq
    obtain ⟨levels, rfl⟩ := Nat.exists_eq_succ_of_ne_zero hlevels.ne'
    have hread : ∀ item ∈ items, Adds index (fun entry => piece pre entry.path = item.piece)
        (readEntry store levels dir item.entry) := by
      intro item hmem
      have hbad := (name_of_mem_items hfits hpre hcollect hmem).2
      rcases (mem_items hcollect).mp hmem with @⟨entry, name, hentry, hpiece⟩ |
        @⟨entry, name, child, objects, hentry, hpiece, hchild⟩
      · exact readEntry_file hfits hdir hentry hpiece
      · obtain ⟨hname, rest, hpath⟩ := piece_eq_directory.mp hpiece
        have hnonempty : name ≠ [] := by
          rintro rfl
          exact absurd hbad (by simp [badName])
        have hdepth' := depth_directory hname hdepth
        have hlevels' : 0 < levels := by
          have hleads : pre ++ name ++ ['/'] <+: entry.path := ⟨rest, by rw [hpath]; simp⟩
          have := hdepth' entry hentry hleads
          have := hleads.sublist.count_le '/'
          omega
        have hstore' : ∀ object ∈ objects, store.get object.id = some object :=
          fun object hobject => hstore object (List.mem_append_left _ ((mem_written hcollect).mpr
            ⟨entry, hentry, name, child, objects, hpiece, hchild, hobject⟩))
        exact readEntry_directory hname (ih (slashed_append pre name)
          (childPath_childPath hdir hnonempty) hchild hstore' hlevels' hdepth')
    obtain ⟨files, hnodup, hfiles, hadd⟩ := adds_items hfits hpre hcollect hread
    refine ⟨files, hnodup, hfiles, fun start => ?_⟩
    rw [flattenTree_treeObject hfits hpre hcollect (hstore _ (by simp))]
    exact hadd start

/-- **Run lemma.** Adding files of different paths one by one. -/
theorem foldlM_insertFile {files : List IndexEntry} {start : Index} (hstart : start.Sorted)
    (hslots : (files.map IndexEntry.slot).Nodup)
    (hnew : ∀ file ∈ files, file.slot ∉ start.entries.map IndexEntry.slot) :
    (start.entries.length + files.length ≤ maxWorktreeEntries → ∃ read : Index,
      files.foldlM insertFile start = .ok read ∧ read.version = start.version ∧ read.Sorted ∧
        ∀ entry, entry ∈ read.entries ↔ entry ∈ start.entries ∨ entry ∈ files) ∧
    (maxWorktreeEntries < start.entries.length + files.length → files ≠ [] →
      files.foldlM insertFile start = .error .tooManyFiles) := by
  induction files generalizing start with
  | nil => exact ⟨fun _ => ⟨start, rfl, rfl, hstart, by simp⟩, fun _ h => absurd rfl h⟩
  | cons file files ih =>
    obtain ⟨hfile, hfiles⟩ := List.forall_mem_cons.mp hnew
    rw [List.map_cons, List.nodup_cons] at hslots
    have hmem : ∀ item, item ∈ (start.upsert file).entries ↔ item = file ∨ item ∈ start.entries := by
      intro item
      rw [Index.mem_upsert hstart]
      refine or_congr_right ⟨And.left, fun h => ⟨h, fun heq => hfile ?_⟩⟩
      exact List.mem_map.mpr ⟨item, h, heq⟩
    have hlength : (start.upsert file).entries.length = start.entries.length + 1 := by
      rw [Index.entries_upsert]
      refine length_put_of_notMem fun h => hfile ?_
      obtain ⟨item, hitem, hkey⟩ := List.mem_map.mp h
      exact List.mem_map.mpr ⟨item, hitem, IndexEntry.key_inj.mp hkey⟩
    have hnew' : ∀ file' ∈ files, file'.slot ∉ (start.upsert file).entries.map IndexEntry.slot := by
      intro file' hfile' h
      obtain ⟨item, hitem, hslot⟩ := List.mem_map.mp h
      rcases (hmem item).mp hitem with rfl | hitem
      · exact hslots.1 (List.mem_map.mpr ⟨file', hfile', hslot.symm⟩)
      · exact hfiles file' hfile' (List.mem_map.mpr ⟨item, hitem, hslot⟩)
    obtain ⟨hok, herror⟩ := ih (hstart.upsert file) hslots.2 hnew'
    rw [hlength] at hok herror
    constructor
    · intro hle
      rw [List.length_cons] at hle
      obtain ⟨read, hread, hversion, hsorted, hentries⟩ := hok (by omega)
      refine ⟨read, ?_, hversion, hsorted, fun entry => ?_⟩
      · rw [List.foldlM_cons, insertFile, if_neg (by omega)]
        exact hread
      · rw [hentries, hmem, List.mem_cons]
        tauto
    · intro hlt _
      rw [List.length_cons] at hlt
      rw [List.foldlM_cons, insertFile]
      split_ifs with hfull
      · rfl
      · refine herror (by omega) ?_
        rintro rfl
        rw [List.length_nil] at hlt
        omega

/-- What reading the tree of an index gives: its entries, in the order of their paths. -/
theorem treeIndex_eq {store : Store} {index : Index} (hfits : Fits store index)
    {id : ObjectId} {written : List Object}
    (hwrite : writeTreeFromIndex index = .ok (id, written))
    (hfree : store.CollisionFree written) :
    treeIndex (store.writeAll written) id =
      if index.entries.length ≤ maxWorktreeEntries then
        .ok ⟨2, sortBy IndexEntry.key index.entries⟩
      else .error .tooManyFiles := by
  have hfits' : Fits (store.writeAll written) index :=
    { hfits with
      blob := fun entry hentry => by
        obtain ⟨contents, hget, hsize⟩ := hfits.blob entry hentry
        exact ⟨contents, Store.get_writeAll_of_get hget, hsize⟩ }
  rw [writeTreeFromIndex] at hwrite
  obtain ⟨_, _, hwrite⟩ := bind_eq_ok.mp hwrite
  obtain ⟨files, hnodup, hfiles, hread⟩ := flattenTree_adds hfits' (.inl rfl)
    (fun name => show childPath [] name = [] ++ name from rfl) hwrite
    (fun object hobject => Store.get_writeAll hfree hobject) (Nat.succ_pos maxDepth)
    fun entry hentry _ => by
      have := hfits.depth entry hentry
      rw [List.count_nil]
      omega
  have hmem : ∀ entry, entry ∈ files ↔ entry ∈ index.entries := fun entry => by
    rw [hfiles, and_iff_left (List.nil_prefix)]
  have hperm : files.Perm index.entries :=
    (List.perm_ext_iff_of_nodup hnodup (List.Nodup.of_map _ hfits.paths)).mpr hmem
  have hslots : (index.entries.map IndexEntry.slot).Nodup :=
    List.Nodup.of_map Prod.fst (by rw [List.map_map]; exact hfits.paths)
  have hkeys : (index.entries.map IndexEntry.key).Nodup := by
    rw [List.Nodup, List.pairwise_map] at hslots ⊢
    exact hslots.imp fun hne heq => hne (IndexEntry.key_inj.mp heq)
  obtain ⟨hok, herror⟩ := foldlM_insertFile Index.sorted_empty
    ((hperm.map IndexEntry.slot).nodup_iff.mpr hslots) (by simp [Index.empty])
  have hlength : Index.empty.entries.length + files.length = index.entries.length := by
    rw [hperm.length_eq]
    exact Nat.zero_add _
  rw [hlength] at hok herror
  rw [treeIndex, hread]
  split_ifs with hle
  · obtain ⟨read, hok, hversion, hsorted, hentries⟩ := hok hle
    rw [hok]
    have hsame : read.entries = sortBy IndexEntry.key index.entries := by
      refine SortedBy.ext hsorted (sortedBy_sortBy hkeys) fun entry => ?_
      rw [hentries, mem_sortBy, hmem]
      simp [Index.empty]
    obtain ⟨version, entries⟩ := read
    obtain rfl : version = 2 := hversion
    obtain rfl : entries = _ := hsame
    rfl
  · refine herror (by omega) ?_
    rintro rfl
    rw [maxWorktreeEntries] at hle
    rw [List.length_nil] at hlength
    have : Index.empty.entries.length = 0 := rfl
    omega

/-- **Main theorem.** The tree round trip. -/
theorem tree_round_trip {store : Store} {index : Index} (hfits : Fits store index) :
    ∃ id written, writeTreeFromIndex index = .ok (id, written) ∧
      (store.CollisionFree written →
        (maxWorktreeEntries < index.entries.length →
          treeIndex (store.writeAll written) id = .error .tooManyFiles) ∧
        (index.entries.length ≤ maxWorktreeEntries →
          ∃ read, treeIndex (store.writeAll written) id = .ok read ∧ read.Sorted ∧
            read.entries.Perm index.entries ∧ (read.entries = index.entries ↔ index.Sorted))) := by
  obtain ⟨⟨id, written⟩, hwrite⟩ := exists_writeTreeFromIndex hfits.stage
  refine ⟨id, written, hwrite, fun hfree => ?_⟩
  rw [treeIndex_eq hfits hwrite hfree]
  refine ⟨fun hlt => if_neg (by omega), fun hle => ⟨_, if_pos hle, ?_⟩⟩
  have hkeys : (index.entries.map IndexEntry.key).Nodup := by
    have hpaths := hfits.paths
    rw [List.Nodup, List.pairwise_map] at hpaths ⊢
    refine hpaths.imp fun hne heq => hne ?_
    exact congrArg Prod.fst (IndexEntry.key_inj.mp heq)
  have hsorted := sortedBy_sortBy hkeys
  refine ⟨hsorted, sortBy_perm _, ?_⟩
  constructor
  · intro heq
    have hsame : sortBy IndexEntry.key index.entries = index.entries := heq
    rwa [hsame] at hsorted
  · intro h
    exact hsorted.ext h fun entry => mem_sortBy

/-- A store that holds the empty blob. -/
def emptyBlobStore : Store where
  get id := if id = Object.id ⟨.blob, []⟩ then some ⟨.blob, []⟩ else none
  addressed := by
    intro id object h
    split_ifs at h with hid
    rw [← Option.some.inj h, hid]

theorem get_emptyBlobStore (id : ObjectId) : emptyBlobStore.get id =
    if id = Object.id ⟨.blob, []⟩ then some ⟨.blob, []⟩ else none := rfl

/-- An empty file of the index. -/
def emptyFile (path : Text) : IndexEntry := ⟨path, Object.id ⟨.blob, []⟩, 0o100644, 0, 0⟩

theorem fits_emptyFiles {index : Index} (paths : List Text)
    (hentries : index.entries = paths.map emptyFile) (hnodup : paths.Nodup)
    (hpaths : ∀ path ∈ paths, validatePath path = .ok () ∧ path.count '/' ≤ maxDepth) :
    Fits emptyBlobStore index := by
  have hmem : ∀ entry ∈ index.entries, ∃ path ∈ paths, entry = emptyFile path := by
    intro entry hentry
    rw [hentries] at hentry
    obtain ⟨path, hpath, rfl⟩ := List.mem_map.mp hentry
    exact ⟨path, hpath, rfl⟩
  constructor
  · intro entry hentry
    obtain ⟨path, _, rfl⟩ := hmem entry hentry
    rfl
  · have hcomp : (fun entry : IndexEntry => entry.path) ∘ emptyFile = id := rfl
    rwa [hentries, List.map_map, hcomp, List.map_id]
  · intro entry hentry
    obtain ⟨path, hpath, rfl⟩ := hmem entry hentry
    exact (hpaths path hpath).1
  · intro entry hentry
    obtain ⟨path, hpath, rfl⟩ := hmem entry hentry
    exact (hpaths path hpath).2
  · intro entry hentry
    obtain ⟨path, _, rfl⟩ := hmem entry hentry
    exact .inl rfl
  · intro entry hentry
    obtain ⟨path, _, rfl⟩ := hmem entry hentry
    exact ⟨[], by rw [get_emptyBlobStore, emptyFile, if_pos rfl], rfl⟩

/-- An index of two empty files, in the order in which they are given. -/
def twoFiles (first second : Text) : Index := ⟨2, [emptyFile first, emptyFile second]⟩

theorem fits_twoFiles {first second : Text} (hne : first ≠ second)
    (hfirst : validatePath first = .ok () ∧ first.count '/' ≤ maxDepth)
    (hsecond : validatePath second = .ok () ∧ second.count '/' ≤ maxDepth) :
    Fits emptyBlobStore (twoFiles first second) := by
  refine fits_emptyFiles [first, second] rfl (by simpa using hne) ?_
  simpa using ⟨hfirst, hsecond⟩

/-- The writer names no tree like the blob of the store. -/
theorem collisionFree_emptyBlobStore {written : List Object}
    (hblob : ∀ object ∈ written, object.id ≠ Object.id ⟨.blob, []⟩)
    (hdistinct : ∀ object ∈ written, ∀ object' ∈ written,
      object'.id = object.id → object' = object) : emptyBlobStore.CollisionFree written := by
  intro object hobject object' hheld hid
  rcases hheld with hmem | hget
  · exact hdistinct object hobject object' hmem hid
  · rw [get_emptyBlobStore] at hget
    split_ifs at hget with hid'
    exact absurd (hid.symm.trans hid') (hblob object hobject)

/-- The name of the empty blob. -/
theorem id_emptyBlob : Object.id ⟨.blob, []⟩ = ⟨#v[230, 157, 226, 155, 178, 209, 214, 67, 75, 139,
    41, 174, 119, 90, 216, 194, 228, 140, 83, 145]⟩ := by
  simp only [Object.id, Sha1.update, Sha1.finalize, sha1Compress, sha1Schedule_eq]
  decide +kernel

/-- The entry of an empty file. -/
def emptyFileEntry (name : Text) : TreeEntry := ⟨0o100644, name, Object.id ⟨.blob, []⟩⟩

/-- A tree with the file `b`. -/
def subtree : Object := ⟨.tree, (emptyFileEntry "b".toList).encode⟩

/-- A tree with that tree as `a`, and with the file `a-c`, whose name begins with `a`. -/
def subtreeAndFile : Object :=
  ⟨.tree, (emptyFileEntry "a-c".toList).encode ++
    TreeEntry.encode ⟨directoryMode, "a".toList, subtree.id⟩⟩

theorem id_subtree : subtree.id = ⟨#v[66, 119, 182, 230, 157, 37, 229, 239, 167, 124, 69, 83, 64,
    85, 123, 56, 74, 76, 1, 138]⟩ := by
  rw [subtree, emptyFileEntry, id_emptyBlob]
  simp only [Object.id, Sha1.update, Sha1.finalize, sha1Compress, sha1Schedule_eq]
  decide +kernel

theorem id_subtreeAndFile : subtreeAndFile.id = ⟨#v[153, 198, 112, 135, 253, 135, 217, 12, 151, 7,
    213, 103, 148, 152, 14, 170, 29, 180, 37, 102]⟩ := by
  rw [subtreeAndFile, id_subtree, emptyFileEntry, id_emptyBlob]
  simp only [Object.id, Sha1.update, Sha1.finalize, sha1Compress, sha1Schedule_eq]
  decide +kernel

theorem collisionFree_subtree : emptyBlobStore.CollisionFree [subtree, subtreeAndFile] := by
  refine collisionFree_emptyBlobStore ?_ ?_
  · simp [id_subtree, id_subtreeAndFile, id_emptyBlob]
  · simp [id_subtree, id_subtreeAndFile]

/-- A directory `a` and a file `a-c` read back. -/
theorem tree_round_trip_directory :
    ∃ id written, writeTreeFromIndex (twoFiles "a-c".toList "a/b".toList) = .ok (id, written) ∧
      written.length = 2 ∧ ∃ read, treeIndex (emptyBlobStore.writeAll written) id = .ok read ∧
        read.entries = (twoFiles "a-c".toList "a/b".toList).entries := by
  have hfits : Fits emptyBlobStore (twoFiles "a-c".toList "a/b".toList) :=
    fits_twoFiles (by decide) (by decide +kernel) (by decide +kernel)
  have hwritten : writeTreeFromIndex (twoFiles "a-c".toList "a/b".toList) =
      .ok (subtreeAndFile.id, [subtree, subtreeAndFile]) := rfl
  obtain ⟨id, written, hwrite, h⟩ := tree_round_trip hfits
  obtain ⟨rfl, rfl⟩ := Prod.mk.inj (Except.ok.inj (hwritten.symm.trans hwrite))
  obtain ⟨read, hread, _, _, hsame⟩ := (h collisionFree_subtree).2 (by decide)
  refine ⟨_, _, hwrite, rfl, read, hread, hsame.mpr ?_⟩
  show List.Pairwise _ [_, _]
  rw [List.pairwise_pair]
  show IndexEntry.key _ < IndexEntry.key _
  decide +kernel

/-- Entries that are not in the order of their paths do not read back in their order. -/
theorem tree_round_trip_reorders :
    ∃ store index id written, Fits store index ∧ index.entries.length ≤ maxWorktreeEntries ∧
      writeTreeFromIndex index = .ok (id, written) ∧ store.CollisionFree written ∧
        ∀ read, treeIndex (store.writeAll written) id = .ok read → read.entries ≠ index.entries := by
  have hfits : Fits emptyBlobStore (twoFiles "a/b".toList "a-c".toList) :=
    fits_twoFiles (by decide) (by decide +kernel) (by decide +kernel)
  have hwrite : writeTreeFromIndex (twoFiles "a/b".toList "a-c".toList) =
      .ok (subtreeAndFile.id, [subtree, subtreeAndFile]) := rfl
  refine ⟨_, _, _, _, hfits, by decide, hwrite, collisionFree_subtree, fun read hread hsame => ?_⟩
  rw [treeIndex_eq hfits hwrite collisionFree_subtree, if_pos (by decide), Except.ok.injEq] at hread
  rw [← hread] at hsame
  exact absurd hsame (by decide +kernel)

end Mrml.Git
