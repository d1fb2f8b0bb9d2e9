import Mrml.Git.Signature

/-!
# Signed commits

Model of `commit_internal` and `split_commit_signature` of `crates/mrml-git/src/repository.rs`
(lines 2152–2244 and 2726–2759). The armor of a signature is folded into a header of the commit:
`lines` takes it apart, and each line after the first gets a space in front of it.

Results:
* `splitCommitSignature_fold`: what is unfolded from a signed commit.
* `commitSigned_split_iff`: exactly when that is the payload and the armor.
-/

namespace Mrml.Git

open Text

namespace Repository

variable (repo : Repository)

/-- `current_branch` (lines 155–165). -/
def currentBranch : Except RepositoryError (Option Text) := do
  let head ← repo.readFileTextBounded "HEAD".toList 4096
  if let some reference := stripPrefix "ref: ".toList (trim head) then do
    validateReference reference
    return stripPrefix "refs/heads/".toList reference
  else do
    let _ ← okOr (ObjectId.parse (trim head)) RepositoryError.invalidHead
    return none

/-- `index` (lines 179–185). -/
def index : Except RepositoryError Index :=
  match repo.files "index".toList with
  | none => .ok Index.empty
  | some bytes => do
    refuseIf (bytes.length > 64 * 1024 * 1024) (RepositoryError.file .readFailed)
    (Index.parse bytes).mapError RepositoryError.index

/-- A commit that changes nothing is refused unless it ends a merge (lines 2169–2178). -/
def refuseUnchanged (parent : Option ObjectId) (tree : ObjectId) : Except RepositoryError Unit :=
  match repo.files "MERGE_HEAD".toList, parent with
  | none, some id => do
    let commit ← repo.readCommit id
    refuseIf (commit.tree = tree) .noChanges
  | _, _ => .ok ()

/-- The parent that a merge adds (lines 2183–2188). -/
def mergeParent : Except RepositoryError (List ObjectId) :=
  if (repo.files "MERGE_HEAD".toList).isSome then do
    let value ← repo.readFileTextBounded "MERGE_HEAD".toList 4096
    return [← okOr (ObjectId.parse (trim value)) RepositoryError.invalidReference]
  else return []

end Repository

/-- The headers of a commit (lines 2179–2198). -/
def commitHeaders (tree : ObjectId) (parents : List ObjectId) (name email : Text)
    (timestamp : UInt64) : Text :=
  "tree ".toList ++ tree.toHex ++ ['\n'] ++
    parents.flatMap (fun parent => "parent ".toList ++ parent.toHex ++ ['\n']) ++
    "author ".toList ++ name ++ " <".toList ++ email ++ "> ".toList ++
    Nat.toDigits 10 timestamp.toNat ++ " +0000\ncommitter ".toList ++ name ++ " <".toList ++
    email ++ "> ".toList ++ Nat.toDigits 10 timestamp.toNat ++ " +0000\n".toList

/-- The armor as a header (lines 2206–2214). -/
def foldArmor (armor : Text) : Text :=
  (lines armor).zipIdx.flatMap fun (line, index) =>
    (if index = 0 then "gpgsig ".toList else [' ']) ++ line ++ ['\n']

/-- Headers and message (lines 2200–2202 and 2215–2217). -/
def commitContents (headers message : Text) : Text := headers ++ '\n' :: (trim message ++ ['\n'])

/-- The contents of a commit, signed or not (lines 2199–2220). -/
def finalContents (key : Option (List UInt8 → Option Text)) (headers message : Text) :
    Except RepositoryError Text :=
  match key with
  | some sign => do
    let armor ← okOr (sign (asBytes (commitContents headers message))) .signing
    return commitContents (headers ++ foldArmor armor) message
  | none => .ok (commitContents headers message)

namespace Repository

/-- The files after a commit (lines 2222–2242). -/
def commitFiles (repo : Repository) (reference : Text) (id : ObjectId) (path : Text) :
    Option (List UInt8) :=
  if path = reference then some (asBytes (id.toHex ++ ['\n']))
  else if path = "MERGE_HEAD".toList ∨ path = "CHERRY_PICK_HEAD".toList ∨
    path = "ORIG_HEAD".toList then none
  else repo.files path

/-- `commit_internal` (lines 2152–2244). -/
def commitInternal (repo : Repository) (message name email : Text) (timestamp : UInt64)
    (key : Option (List UInt8 → Option Text)) :
    Except (Fault RepositoryError) (ObjectId × Repository) := do
  (validateIdentity name email).mapError Fault.error
  refuseIf (trim message = [] ∨ '\x00' ∈ message) (Fault.error .invalidIdentity)
  let branch ← okOr (← repo.currentBranch.mapError Fault.error) (Fault.error .detachedHead)
  let (tree, objects) ← writeTreeFromIndex (← repo.index.mapError Fault.error)
  let repo := { repo with store := repo.store.writeAll objects }
  let parent ← repo.head.mapError Fault.error
  (repo.refuseUnchanged parent tree).mapError Fault.error
  let merged ← repo.mergeParent.mapError Fault.error
  let headers := commitHeaders tree (parent.toList ++ merged) name email timestamp
  let contents ← (finalContents key headers message).mapError Fault.error
  let object : Object := ⟨.commit, asBytes contents⟩
  let reference := "refs/heads/".toList ++ branch
  (validateReference reference).mapError Fault.error
  refuseIf (repo.files (reference ++ ".lock".toList)).isSome (Fault.error .alreadyExists)
  return (object.id, {
    store := repo.store.writeObject object
    files := repo.commitFiles reference object.id })

end Repository

/-! ## Splitting a commit -/

/-- What `split_commit_signature` has of the headers so far (lines 2729–2732). -/
structure Unfolded where
  unsigned : Text
  armor : Text
  signing : Bool
  found : Bool
deriving DecidableEq

/-- One line of the headers (lines 2733–2749). -/
def Unfolded.read (unfolded : Unfolded) (line : Text) : Except RepositoryError Unfolded :=
  if let some first := stripPrefix "gpgsig ".toList line then do
    refuseIf unfolded.found RepositoryError.signing
    return { unfolded with
      found := true, signing := true, armor := unfolded.armor ++ (first ++ ['\n']) }
  else if unfolded.signing ∧ line.head? = some ' ' then
    .ok { unfolded with armor := unfolded.armor ++ (line.drop 1 ++ ['\n']) }
  else .ok { unfolded with signing := false, unsigned := unfolded.unsigned ++ (line ++ ['\n']) }

/-- `split_commit_signature` (lines 2726–2759). -/
def splitCommitSignature (contents : List UInt8) : Except RepositoryError (List UInt8 × Text) := do
  let text ← okOr (fromUtf8 contents) RepositoryError.signing
  let (headers, message) ← okOr (splitOnceText ['\n', '\n'] text) RepositoryError.signing
  let unfolded ← (headers.splitOn '\n').foldlM Unfolded.read ⟨[], [], false, false⟩
  refuseIf (!unfolded.found) RepositoryError.signing
  return (asBytes (unfolded.unsigned ++ '\n' :: message), unfolded.armor)

/-! ## The headers as lines -/

/-- The line of a person. -/
def personLine (role name email : Text) (timestamp : UInt64) : Text :=
  role ++ name ++ " <".toList ++ email ++ "> ".toList ++ Nat.toDigits 10 timestamp.toNat ++
    " +0000".toList

/-- The lines of the headers. -/
def headerLines (tree : ObjectId) (parents : List ObjectId) (name email : Text)
    (timestamp : UInt64) : List Text :=
  ("tree ".toList ++ tree.toHex) ::
    (parents.map (fun parent => "parent ".toList ++ parent.toHex) ++
      [personLine "author ".toList name email timestamp,
        personLine "committer ".toList name email timestamp])

theorem commitHeaders_eq (tree : ObjectId) (parents : List ObjectId) (name email : Text)
    (timestamp : UInt64) : commitHeaders tree parents name email timestamp =
      unlines (headerLines tree parents name email timestamp) := by
  have hparents : unlines (parents.map fun parent => "parent ".toList ++ parent.toHex) =
      parents.flatMap fun parent => "parent ".toList ++ parent.toHex ++ ['\n'] :=
    List.flatMap_map _ _ _
  have hauthor : " +0000\ncommitter ".toList = " +0000".toList ++ '\n' :: "committer ".toList := by
    decide
  have hcommitter : " +0000\n".toList = " +0000".toList ++ ['\n'] := by decide
  unfold commitHeaders headerLines personLine
  generalize Nat.toDigits 10 timestamp.toNat = digits
  rw [unlines_cons, unlines_append, hparents, unlines_cons, unlines_cons, unlines_nil, hauthor,
    hcommitter]
  simp only [List.append_assoc, List.cons_append, List.nil_append]

/-- A line of the headers as they are before a signature. -/
def IsHeader (line : Text) : Prop :=
  line ≠ [] ∧ '\n' ∉ line ∧ stripPrefix "gpgsig ".toList line = none

theorem isHeader_headerLines {tree : ObjectId} {parents : List ObjectId} {name email : Text}
    {timestamp : UInt64} (h : validateIdentity name email = .ok ()) :
    ∀ line ∈ headerLines tree parents name email timestamp, IsHeader line := by
  obtain ⟨-, hidentity⟩ := not_or.mp (not_or.mp (refuseIf_eq_ok.mp h)).2
  obtain ⟨hname, hemail⟩ := not_or.mp hidentity
  have hplain {text : Text} (h : ¬text.any badIdentityChar = true) : '\n' ∉ text := fun hmem =>
    h (List.any_eq_true.mpr ⟨_, hmem, by decide⟩)
  have hhex (id : ObjectId) : '\n' ∉ id.toHex := fun hmem =>
    absurd (of_mem_toHex hmem) (by decide)
  have hdigits : '\n' ∉ Nat.toDigits 10 timestamp.toNat := fun hmem =>
    absurd (Nat.isDigit_of_mem_toDigits (by decide) (by decide) hmem) (by decide)
  -- every line begins with a word of its own
  have hheader (c : Char) (line : Text) (hc : c ≠ 'g') (hline : '\n' ∉ c :: line) :
      IsHeader (c :: line) := by
    refine ⟨List.cons_ne_nil _ _, hline, if_neg ?_⟩
    rw [List.isPrefixOf_iff_prefix]
    exact fun hprefix => hc (List.cons_prefix_cons.mp hprefix).1.symm
  have hperson (c : Char) (role : Text) (hc : c ≠ 'g') (hrole : '\n' ∉ c :: role) :
      IsHeader (personLine (c :: role) name email timestamp) := by
    refine hheader _ _ hc ?_
    show '\n' ∉ personLine (c :: role) name email timestamp
    unfold personLine
    simp only [List.mem_append, not_or]
    exact ⟨⟨⟨⟨⟨⟨hrole, hplain hname⟩, by decide⟩, hplain hemail⟩, by decide⟩, hdigits⟩, by decide⟩
  intro line hline
  obtain rfl | hline := List.mem_cons.mp hline
  · refine hheader 't' ("ree ".toList ++ tree.toHex) (by decide) ?_
    rw [← List.cons_append, List.mem_append]
    exact not_or.mpr ⟨by decide, hhex tree⟩
  · obtain hline | hline := List.mem_append.mp hline
    · obtain ⟨parent, -, rfl⟩ := List.mem_map.mp hline
      refine hheader 'p' ("arent ".toList ++ parent.toHex) (by decide) ?_
      rw [← List.cons_append, List.mem_append]
      exact not_or.mpr ⟨by decide, hhex parent⟩
    · obtain rfl | rfl := List.mem_pair.mp hline
      · exact hperson 'a' "uthor ".toList (by decide) (by decide)
      · exact hperson 'c' "ommitter ".toList (by decide) (by decide)

/-! ## What is unfolded -/

/-- Headers before the signature stay as they are. -/
theorem foldlM_headers {hs : List Text} (h : ∀ line ∈ hs, IsHeader line) (unsigned : Text) :
    hs.foldlM Unfolded.read ⟨unsigned, [], false, false⟩ =
      .ok ⟨unsigned ++ unlines hs, [], false, false⟩ := by
  induction hs generalizing unsigned with
  | nil => rw [unlines_nil, List.append_nil]; rfl
  | cons line hs ih =>
    obtain ⟨⟨-, -, hsignature⟩, hhs⟩ := List.forall_mem_cons.mp h
    have hread : Unfolded.read ⟨unsigned, [], false, false⟩ line =
        .ok ⟨unsigned ++ (line ++ ['\n']), [], false, false⟩ := by
      rw [Unfolded.read, hsignature]
      rfl
    rw [List.foldlM_cons, hread, ok_bind, ih hhs, unlines_cons]
    simp

/-- Lines with a space in front are lines of the armor. -/
theorem foldlM_folded (ls : List Text) (unsigned armor : Text) :
    (ls.map (' ' :: ·)).foldlM Unfolded.read ⟨unsigned, armor, true, true⟩ =
      .ok ⟨unsigned, armor ++ unlines ls, true, true⟩ := by
  induction ls generalizing armor with
  | nil => rw [unlines_nil, List.append_nil]; rfl
  | cons line ls ih =>
    have hread : Unfolded.read ⟨unsigned, armor, true, true⟩ (' ' :: line) =
        .ok ⟨unsigned, armor ++ (line ++ ['\n']), true, true⟩ := rfl
    rw [List.map_cons, List.foldlM_cons, hread, ok_bind, ih, unlines_cons]
    simp

/-- **Run lemma.** What is unfolded from a commit with folded armor. -/
theorem splitCommitSignature_fold {hs ls : List Text} {first : Text}
    (hheaders : ∀ line ∈ hs, IsHeader line) (harmor : ∀ line ∈ first :: ls, '\n' ∉ line)
    (message : Text) :
    splitCommitSignature (asBytes (unlines (hs ++ ("gpgsig ".toList ++ first) ::
        ls.map (' ' :: ·)) ++ '\n' :: message)) =
      .ok (asBytes (unlines hs ++ '\n' :: message), unlines (first :: ls)) := by
  obtain ⟨hfirst, hls⟩ := List.forall_mem_cons.mp harmor
  have hlines : ∀ line ∈ hs ++ ("gpgsig ".toList ++ first) :: ls.map (' ' :: ·),
      line ≠ [] ∧ '\n' ∉ line := by
    intro line hline
    obtain hline | hline := List.mem_append.mp hline
    · exact ⟨(hheaders line hline).1, (hheaders line hline).2.1⟩
    · obtain rfl | hline := List.mem_cons.mp hline
      · refine ⟨List.append_ne_nil_of_left_ne_nil (by decide) _, ?_⟩
        rw [List.mem_append]
        exact not_or.mpr ⟨by decide, hfirst⟩
      · obtain ⟨line, hmem, rfl⟩ := List.mem_map.mp hline
        refine ⟨List.cons_ne_nil _ _, ?_⟩
        rw [List.mem_cons]
        exact not_or.mpr ⟨by decide, hls line hmem⟩
  have hne : hs ++ ("gpgsig ".toList ++ first) :: ls.map (' ' :: ·) ≠ [] := by simp
  have hread (unsigned : Text) :
      Unfolded.read ⟨unsigned, [], false, false⟩ ("gpgsig ".toList ++ first) =
        .ok ⟨unsigned, first ++ ['\n'], true, true⟩ := by
    rw [Unfolded.read, stripPrefix_append]
    rfl
  have hfold : (hs ++ ("gpgsig ".toList ++ first) :: ls.map (' ' :: ·)).foldlM Unfolded.read
      ⟨[], [], false, false⟩ = .ok ⟨unlines hs, unlines (first :: ls), true, true⟩ := by
    rw [List.foldlM_append, foldlM_headers hheaders, ok_bind, List.foldlM_cons, hread, ok_bind,
      foldlM_folded, unlines_cons]
    simp
  rw [splitCommitSignature, fromUtf8_asBytes, okOr_some, ok_bind, splitOnceText_unlines hne hlines,
    okOr_some, ok_bind]
  dsimp only
  rw [List.splitOn_intercalate '\n' (fun line hline => (hlines line hline).2) hne, hfold, ok_bind]
  rfl

/-- The armor as it is folded. -/
theorem foldArmor_unlines {ls : List Text} {first : Text}
    (h : ∀ line ∈ first :: ls, '\n' ∉ line) : foldArmor (unlines (first :: ls)) =
      unlines (("gpgsig ".toList ++ stripReturn first) ::
        (ls.map stripReturn).map (' ' :: ·)) := by
  have hlines : lines (unlines (first :: ls)) = (first :: ls).map stripReturn := by
    have hall := lines_unlines h []
    rwa [List.append_nil, lines, List.append_nil] at hall
  have hrest (rest : List Text) (index : ℕ) :
      ((rest.zipIdx (index + 1)).flatMap fun (line, index) =>
        (if index = 0 then "gpgsig ".toList else [' ']) ++ line ++ ['\n']) =
        unlines (rest.map (' ' :: ·)) := by
    induction rest generalizing index with
    | nil => rfl
    | cons line rest ih =>
      rw [List.zipIdx_cons, List.flatMap_cons, ih, List.map_cons, unlines_cons]
      dsimp only
      rw [if_neg (Nat.succ_ne_zero index), List.append_assoc]
      rfl
  rw [foldArmor, hlines, List.map_cons, List.zipIdx_cons, List.flatMap_cons, hrest, unlines_cons]
  simp

/-- A commit with a valid identity and folded armor is split into what it was put together of
exactly if no line of the armor ends with a carriage return. -/
theorem splitCommitSignature_iff {tree : ObjectId} {parents : List ObjectId}
    {name email message armor : Text} {timestamp : UInt64}
    (hidentity : validateIdentity name email = .ok ()) (hend : armor.getLast? = some '\n') :
    splitCommitSignature (asBytes (commitContents
        (commitHeaders tree parents name email timestamp ++ foldArmor armor) message)) =
      .ok (asBytes (commitContents (commitHeaders tree parents name email timestamp) message),
        armor) ↔ ¬['\r', '\n'] <:+: armor := by
  -- the armor as lines
  obtain ⟨front, rfl⟩ := List.getLast?_eq_some_iff.mp hend
  obtain ⟨ls, hne, hls, hlines⟩ := exists_unlines front
  obtain ⟨first, ls, rfl⟩ := List.exists_cons_of_ne_nil hne
  have hstripped : ∀ line ∈ stripReturn first :: ls.map stripReturn, '\n' ∉ line := by
    intro line hline
    obtain ⟨line, hmem, rfl⟩ := List.mem_map.mp (List.map_cons ▸ hline)
    exact newline_notMem_stripReturn (hls line hmem)
  have hheaders := @isHeader_headerLines tree parents name email timestamp hidentity
  have hsplit := splitCommitSignature_fold hheaders hstripped (trim message ++ ['\n'])
  rw [hlines, foldArmor_unlines hls, commitHeaders_eq, commitContents, ← unlines_append, hsplit,
    commitContents, Except.ok.injEq, Prod.mk.injEq, and_iff_right rfl, infix_unlines_iff hls,
    ← List.map_cons, unlines_stripReturn]
  push Not
  rfl

/-- **Main theorem.** A commit that `commit_signed` signs and writes, with armor that ends with a
line feed, is split into the payload that was signed and the armor exactly if no line of the armor
ends with a carriage return. -/
theorem commitSigned_split_iff {repo repo' : Repository} {sign : List UInt8 → Option Text}
    {name message email : Text} {timestamp : UInt64} {id : ObjectId}
    (h : repo.commitInternal message name email timestamp (some sign) = .ok (id, repo')) :
    ∃ tree objects parents armor,
      let headers := commitHeaders tree parents name email timestamp
      let unsigned := commitContents headers message
      let object : Object := ⟨.commit, asBytes (commitContents (headers ++ foldArmor armor) message)⟩
      sign (asBytes unsigned) = some armor ∧ id = object.id ∧
      repo'.store = (repo.store.writeAll objects).writeObject object ∧
      (armor.getLast? = some '\n' →
        (splitCommitSignature object.contents = .ok (asBytes unsigned, armor) ↔
          ¬['\r', '\n'] <:+: armor)) := by
  obtain ⟨_, hidentity, h⟩ := bind_eq_ok.mp h
  have hidentity := mapError_eq_ok.mp hidentity
  obtain ⟨_, _, h⟩ := bind_eq_ok.mp h
  obtain ⟨_, _, h⟩ := bind_eq_ok.mp h
  obtain ⟨branch, _, h⟩ := bind_eq_ok.mp h
  obtain ⟨_, _, h⟩ := bind_eq_ok.mp h
  obtain ⟨⟨tree, objects⟩, _, h⟩ := bind_eq_ok.mp h
  obtain ⟨parent, _, h⟩ := bind_eq_ok.mp h
  obtain ⟨_, _, h⟩ := bind_eq_ok.mp h
  obtain ⟨merged, _, h⟩ := bind_eq_ok.mp h
  obtain ⟨contents, hcontents, h⟩ := bind_eq_ok.mp h
  obtain ⟨_, _, h⟩ := bind_eq_ok.mp h
  obtain ⟨_, _, h⟩ := bind_eq_ok.mp h
  obtain ⟨rfl, rfl⟩ := Prod.mk.inj (Except.ok.inj h)
  obtain ⟨armor, harmor, hcontents⟩ := bind_eq_ok.mp (mapError_eq_ok.mp hcontents)
  obtain rfl := Except.ok.inj hcontents
  refine ⟨tree, objects, parent.toList ++ merged, armor, okOr_eq_ok.mp harmor, rfl, rfl, ?_⟩
  intro hend
  have hsplit := @splitCommitSignature_iff tree (parent.toList ++ merged) name email message armor
    timestamp hidentity hend
  dsimp only
  exact hsplit

/-! ## A first commit -/

/-- A repository without commits. -/
def unborn (store : Store) : Repository where
  store := store
  files path := if path = "HEAD".toList then some (asBytes "ref: refs/heads/main\n".toList) else none

theorem currentBranch_unborn (store : Store) :
    (unborn store).currentBranch = .ok (some "main".toList) := by
  show (unborn emptyBlobStore).currentBranch = _
  decide +kernel

theorem head_unborn (store : Store) : (unborn store).head = .ok none := by
  show (unborn emptyBlobStore).head = _
  decide +kernel

/-- The first commit of a repository. -/
theorem commitInternal_unborn {message armor : Text} {sign : List UInt8 → Option Text}
    (hmessage : ¬(trim message = [] ∨ '\x00' ∈ message)) (hsign : ∀ bytes, sign bytes = some armor) :
    ∃ tree repo', (unborn emptyBlobStore).commitInternal message "A".toList "a@b".toList 0 (some sign) =
      .ok (Object.id ⟨.commit, asBytes (commitContents (commitHeaders tree [] "A".toList
        "a@b".toList 0 ++ foldArmor armor) message)⟩, repo') := by
  obtain ⟨⟨tree, objects⟩, htree⟩ := @exists_writeTreeFromIndex Index.empty
    (fun entry hentry => absurd hentry List.not_mem_nil)
  have hidentity : validateIdentity "A".toList "a@b".toList = .ok () := by decide +kernel
  have hbranch : validateReference ("refs/heads/".toList ++ "main".toList) = .ok () := by
    decide +kernel
  have hindex : (unborn emptyBlobStore).index = .ok Index.empty := by decide +kernel
  have hunlocked : ¬((unborn emptyBlobStore).files
      ("refs/heads/".toList ++ "main".toList ++ ".lock".toList)).isSome = true := by decide +kernel
  -- the repository with the tree in its store
  have hhead : Repository.head ⟨(unborn emptyBlobStore).store.writeAll objects,
      (unborn emptyBlobStore).files⟩ = .ok none := head_unborn _
  have hunchanged : Repository.refuseUnchanged ⟨(unborn emptyBlobStore).store.writeAll objects,
      (unborn emptyBlobStore).files⟩ none tree = .ok () := rfl
  have hmerged : Repository.mergeParent ⟨(unborn emptyBlobStore).store.writeAll objects,
      (unborn emptyBlobStore).files⟩ = .ok [] := by
    show (unborn emptyBlobStore).mergeParent = _
    decide +kernel
  have hcontents : finalContents (some sign)
      (commitHeaders tree (Option.toList none ++ []) "A".toList "a@b".toList 0) message =
        .ok (commitContents (commitHeaders tree [] "A".toList "a@b".toList 0 ++
          foldArmor armor) message) := by
    rw [finalContents, hsign, okOr_some]
    rfl
  refine ⟨tree, ?_, ?_⟩
  rotate_left
  rw [Repository.commitInternal, hidentity, Except.mapError, ok_bind, refuseIf_of_not hmessage,
    ok_bind, currentBranch_unborn, Except.mapError, ok_bind, okOr_some, ok_bind, hindex,
    Except.mapError, ok_bind, htree, ok_bind]
  dsimp only
  rw [hhead, Except.mapError, ok_bind, hunchanged, Except.mapError, ok_bind, hmerged,
    Except.mapError, ok_bind, hcontents, Except.mapError, ok_bind, hbranch, Except.mapError,
    ok_bind, refuseIf_of_not hunlocked, ok_bind]
  rfl

/-- An armor of four lines, one of them empty. -/
def plainArmor : Text := "-----BEGIN\n\nx\n-----END\n".toList

/-- A message of three lines. -/
def plainMessage : Text := "m\n\n n\n".toList

theorem commitSigned_split_lines : ∃ tree parents,
    splitCommitSignature (asBytes (commitContents (commitHeaders tree parents "A".toList
      "a@b".toList 0 ++ foldArmor plainArmor) plainMessage)) =
      .ok (asBytes (commitContents (commitHeaders tree parents "A".toList "a@b".toList 0)
        plainMessage), plainArmor) := by
  have hend : plainArmor.getLast? = some '\n' := by decide
  have hplain : ¬['\r', '\n'] <:+: plainArmor := by decide
  obtain ⟨_, _, h⟩ := @commitInternal_unborn plainMessage plainArmor (fun _ => some plainArmor)
    (by decide) (fun _ => rfl)
  obtain ⟨tree, _, parents, armor, hsign, -, -, hsplit⟩ := commitSigned_split_iff h
  have harmor : armor = plainArmor := (Option.some.inj hsign).symm
  rw [harmor] at hsplit
  dsimp only at hsplit
  exact ⟨tree, parents, (hsplit hend).mpr hplain⟩

/-- A carriage return before the end of a line is lost. -/
theorem commitSigned_not_split :
    (∃ tree repo', (unborn emptyBlobStore).commitInternal "m".toList "A".toList "a@b".toList 0
        (some fun _ => some "x\r\n".toList) =
      .ok (Object.id ⟨.commit, asBytes (commitContents (commitHeaders tree [] "A".toList
        "a@b".toList 0 ++ foldArmor "x\r\n".toList) "m".toList)⟩, repo')) ∧
    ∀ tree, splitCommitSignature (asBytes (commitContents (commitHeaders tree [] "A".toList
        "a@b".toList 0 ++ foldArmor "x\r\n".toList) "m".toList)) ≠
      .ok (asBytes (commitContents (commitHeaders tree [] "A".toList "a@b".toList 0) "m".toList),
        "x\r\n".toList) := by
  refine ⟨commitInternal_unborn (by decide) fun _ => rfl, fun tree hsplit => ?_⟩
  have hidentity : validateIdentity "A".toList "a@b".toList = .ok () := by decide +kernel
  have hcarriage : ¬¬['\r', '\n'] <:+: "x\r\n".toList := by decide
  exact hcarriage ((@splitCommitSignature_iff tree [] _ _ "m".toList "x\r\n".toList 0 hidentity
    rfl).mp hsplit)

end Mrml.Git
