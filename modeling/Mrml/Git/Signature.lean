import Mrml.Common.Infix
import Mrml.Git.Commit

/-!
# Signed tags

Model of `create_signed_tag` and `verify_tag_signature` of `crates/mrml-git/src/repository.rs`
(lines 1592–1651), and of the armor that `sign_sshsig` of `crates/mrml-ssh/src/signing.rs`
(line 7) puts around a signature. The signature itself is a parameter.

Results:
* `infix_unsignedTag_iff`: where the payload of a tag has the marker of a signature.
* `createSignedTag_split_iff`: exactly when a signed tag is split into what was signed and the
  armor.
-/

namespace Mrml.Git

open Text

/-! ## Armor -/

/-- `"-----BEGIN SSH SIGNATURE-----"`. -/
def beginSignature : Text := "-----BEGIN SSH SIGNATURE-----".toList

/-- `A[value as usize] as char` (`keyfile.rs`, line 184). -/
def base64Char (value : UInt8) : Char :=
  "ABCDEFGHIJKLMNOPQRSTUVWXYZabcdefghijklmnopqrstuvwxyz0123456789+/".toList.getD value.toNat 'A'

/-- `base64_encode` (`keyfile.rs`, lines 183–206). -/
def base64Encode : List UInt8 → Text
  | [] => []
  | [a] => [base64Char (a >>> 2), base64Char ((a &&& 3) <<< 4), '=', '=']
  | [a, b] =>
    [base64Char (a >>> 2), base64Char (((a &&& 3) <<< 4) ||| (b >>> 4)),
      base64Char ((b &&& 15) <<< 2), '=']
  | a :: b :: c :: rest =>
    base64Char (a >>> 2) :: base64Char (((a &&& 3) <<< 4) ||| (b >>> 4)) ::
      base64Char (((b &&& 15) <<< 2) ||| (c >>> 6)) :: base64Char (c &&& 63) :: base64Encode rest

/-- The armor around an envelope (`signing.rs`, line 7). -/
def armor (envelope : List UInt8) : Text :=
  beginSignature ++ '\n' :: (unlines ((base64Encode envelope).toChunks 70) ++
    "-----END SSH SIGNATURE-----\n".toList)

/-- `sign_sshsig` for the namespace `git`. `envelope` is what a key makes of the bytes that are
signed, if it can. -/
def signSshsig (envelope : List UInt8 → Option (List UInt8)) (message : List UInt8) : Option Text :=
  (envelope message).map armor

/-! ## Identities -/

/-- A character that no name and no address may have (lines 2696–2697). -/
def badIdentityChar (c : Char) : Bool := c == '\n' || c == '\r' || c == '<' || c == '>'

/-- `validate_identity` (lines 2693–2703). -/
def validateIdentity (name email : Text) : Except RepositoryError Unit :=
  refuseIf (trim name = [] ∨ trim email = [] ∨ name.any badIdentityChar ∨
    email.any badIdentityChar) .invalidIdentity

/-! ## Signed tags -/

/-- The payload of a tag (lines 1612–1616). -/
def unsignedTag (target : ObjectId) (name message tagger email : Text) (timestamp : UInt64) : Text :=
  "object ".toList ++ target.toHex ++ "\ntype commit\ntag ".toList ++ name ++
    "\ntagger ".toList ++ tagger ++ " <".toList ++ email ++ "> ".toList ++
    Nat.toDigits 10 timestamp.toNat ++ " +0000\n\n".toList ++ trim message ++ ['\n']

namespace Repository

/-- Writing an object and a reference to it (lines 1621–1625). -/
def writeNamed (repo : Repository) (reference : Text) (object : Object) : Repository where
  store := repo.store.writeObject object
  files := Function.update repo.files reference (some (asBytes (object.id.toHex ++ ['\n'])))

/-- `create_signed_tag` (lines 1592–1627). -/
def createSignedTag (repo : Repository) (sign : List UInt8 → Option Text)
    (name message tagger email : Text) (timestamp : UInt64) :
    Except RepositoryError (ObjectId × Repository) := do
  let reference := "refs/tags/".toList ++ name
  validateReference reference
  refuseIf (← repo.readReference reference).isSome RepositoryError.referenceExists
  validateIdentity tagger email
  refuseIf (trim message = [] ∨ '\x00' ∈ message) RepositoryError.invalidIdentity
  let target ← okOr (← repo.head) RepositoryError.referenceMissing
  let unsigned := unsignedTag target name message tagger email timestamp
  let signature ← okOr (sign (asBytes unsigned)) RepositoryError.signing
  let object : Object := ⟨.tag, asBytes (unsigned ++ signature)⟩
  return (object.id, repo.writeNamed reference object)

end Repository

/-- How `verify_tag_signature` splits a tag (lines 1638–1649). -/
def splitTagSignature (contents : List UInt8) : Except RepositoryError (List UInt8 × Text) := do
  let offset ← okOr (findWindow (asBytes beginSignature) contents) RepositoryError.signing
  refuseIf (offset = 0 ∨ byteAt contents (offset - 1) ≠ 0x0a) RepositoryError.signing
  let armor ← okOr (fromUtf8 (contents.drop offset)) RepositoryError.signing
  return (contents.take offset, armor)

/-! ## Where the marker is -/

/-- What `trim` takes away is whitespace. -/
theorem exists_trim (text : Text) : ∃ front back, text = front ++ (trim text ++ back) ∧
    (∀ c ∈ front, isWhitespace c = true) ∧ ∀ c ∈ back, isWhitespace c = true := by
  refine ⟨text.takeWhile isWhitespace, (text.dropWhile isWhitespace).rtakeWhile isWhitespace,
    ?_, fun c hc => List.mem_takeWhile_imp hc, fun c hc => List.mem_rtakeWhile_imp hc⟩
  rw [trim, List.rdropWhile_append_rtakeWhile, List.takeWhile_append_dropWhile]

/-- A part that begins and ends with no whitespace is where it was after `trim`. -/
theorem infix_trim_iff {text part : Text} {first last : Char} {more less : Text}
    (hfirst : part = first :: more) (hlast : part = less ++ [last])
    (hfirst' : isWhitespace first = false) (hlast' : isWhitespace last = false) :
    part <:+: trim text ↔ part <:+: text := by
  obtain ⟨front, back, htext, hfront, hback⟩ := exists_trim text
  have hnotFront : first ∉ front := fun hmem => by
    rw [hfront first hmem] at hfirst'
    cases hfirst'
  have hnotBack : last ∉ back := fun hmem => by
    rw [hback last hmem] at hlast'
    cases hlast'
  conv_rhs => rw [htext, hfirst, infix_append_left_iff hnotFront, ← hfirst, hlast,
    infix_append_right_iff hnotBack, ← hlast]

/-- The marker begins and ends with a dash. -/
theorem beginSignature_eq : beginSignature = '-' :: "----BEGIN SSH SIGNATURE-----".toList ∧
    beginSignature = "-----BEGIN SSH SIGNATURE----".toList ++ ['-'] := by
  decide

/-- The digits of a name are characters from `0` on. -/
theorem of_mem_toHex {id : ObjectId} {c : Char} (h : c ∈ id.toHex) : 0x30 ≤ c.toNat := by
  have hdigit : ∀ digit : Fin 16, 0x30 ≤ (ObjectId.hexDigit (UInt8.ofNat digit.val)).toNat := by
    decide
  obtain ⟨byte, -, hmem⟩ := List.mem_flatMap.mp h
  obtain ⟨hhigh, hlow, -⟩ := ObjectId.toNat_digits byte
  rw [ObjectId.hexPair, List.mem_pair] at hmem
  obtain rfl | rfl := hmem
  · have hle := hdigit ⟨_, hhigh⟩
    rwa [UInt8.ofNat_toNat] at hle
  · have hle := hdigit ⟨_, hlow⟩
    rwa [UInt8.ofNat_toNat] at hle

/-- The marker is in the payload of a tag exactly if it is in one of the texts that the caller
gives, as the name of a tag has no spaces. -/
theorem infix_unsignedTag_iff {target : ObjectId} {name message tagger email : Text}
    {timestamp : UInt64} (hname : ' ' ∉ name) :
    beginSignature <:+: unsignedTag target name message tagger email timestamp ↔
      beginSignature <:+: tagger ∨ beginSignature <:+: email ∨ beginSignature <:+: message := by
  obtain ⟨hfirst, hlast⟩ := beginSignature_eq
  have hdigits : '-' ∉ Nat.toDigits 10 timestamp.toNat := fun hmem =>
    absurd (Nat.isDigit_of_mem_toDigits (by decide) (by decide) hmem) (by decide)
  have hunsigned : unsignedTag target name message tagger email timestamp =
      ("object ".toList ++ target.toHex ++ "\ntype commit\ntag ".toList) ++ (name ++ '\n' ::
        ("tagger ".toList ++ ((tagger ++ [' ']) ++ '<' :: (email ++ '>' ::
          ((' ' :: Nat.toDigits 10 timestamp.toNat ++ " +0000\n\n".toList) ++
            (trim message ++ ['\n'])))))) := by
    have htagger : "\ntagger ".toList = '\n' :: "tagger ".toList := by decide
    have hopen : " <".toList = [' ', '<'] := by decide
    have hclose : "> ".toList = ['>', ' '] := by decide
    unfold unsignedTag
    generalize Nat.toDigits 10 timestamp.toNat = digits
    rw [htagger, hopen, hclose]
    simp only [List.append_assoc, List.cons_append, List.nil_append]
  have hleft {front rest : Text} (h : '-' ∉ front) :
      beginSignature <:+: front ++ rest ↔ beginSignature <:+: rest := by
    rw [hfirst]
    exact infix_append_left_iff h
  have hright {front rest : Text} (h : '-' ∉ rest) :
      beginSignature <:+: front ++ rest ↔ beginSignature <:+: front := by
    rw [hlast]
    exact infix_append_right_iff h
  have hspace : ¬beginSignature <:+: name := fun h => hname (h.subset (by decide))
  have hhex : '-' ∉ "object ".toList ++ target.toHex ++ "\ntype commit\ntag ".toList := by
    have hdash : '-' ∉ target.toHex := fun hmem => absurd (of_mem_toHex hmem) (by decide)
    simp [hdash]
  have htime : '-' ∉ ' ' :: Nat.toDigits 10 timestamp.toNat ++ " +0000\n\n".toList := by
    simp [hdigits]
  rw [hunsigned, hleft hhex, infix_append_cons_iff (by decide), or_iff_right hspace,
    hleft (by decide), infix_append_cons_iff (by decide), hright (by decide),
    infix_append_cons_iff (by decide), hleft htime, hright (by decide),
    infix_trim_iff hfirst hlast (by decide) (by decide)]

/-! ## Splitting a tag -/

/-- A tag is split into a payload that ends with a line feed and a text that begins with the
marker exactly if the payload does not have the marker itself. -/
theorem splitTagSignature_iff {unsigned rest : Text} :
    splitTagSignature (asBytes (unsigned ++ '\n' :: (beginSignature ++ rest))) =
        .ok (asBytes (unsigned ++ ['\n']), beginSignature ++ rest) ↔
      ¬beginSignature <:+: unsigned ++ ['\n'] := by
  obtain ⟨hfirst, -⟩ := beginSignature_eq
  have hne : asBytes beginSignature ≠ [] := by decide +kernel
  have hwithin (text : Text) :
      asBytes beginSignature <:+: asBytes text ↔ beginSignature <:+: text := by
    rw [hfirst]
    exact infix_asBytes_iff (by decide)
  have hbytes : asBytes (unsigned ++ '\n' :: (beginSignature ++ rest)) =
      asBytes unsigned ++ 0x0a :: asBytes (beginSignature ++ rest) := by
    rw [asBytes_append, asBytes_cons]
    rfl
  have hfront : asBytes (unsigned ++ ['\n']) = asBytes unsigned ++ [0x0a] := by
    rw [asBytes_append]
    rfl
  constructor
  · intro h hmem
    obtain ⟨offset, hoffset, h⟩ := bind_eq_ok.mp h
    obtain ⟨_, _, h⟩ := bind_eq_ok.mp h
    obtain ⟨armor, _, h⟩ := bind_eq_ok.mp h
    obtain ⟨hunsigned, -⟩ := Prod.mk.inj (Except.ok.inj h)
    rw [okOr_eq_ok, hbytes, ← List.singleton_append, ← List.append_assoc, ← hfront] at hoffset
    -- the marker is found in the payload, so that less is taken for it
    have hlt := findWindow_lt hne ((hwithin _).mpr hmem) hoffset
    have hlength := congrArg List.length hunsigned
    rw [List.length_take] at hlength
    omega
  · intro h
    have hnotMem : (0x0a : UInt8) ∉ asBytes beginSignature := by decide +kernel
    have hnot : ¬asBytes beginSignature <:+: asBytes unsigned := fun hmem =>
      h (((hwithin _).mp hmem).trans (List.prefix_append _ _).isInfix)
    have hbegins : asBytes beginSignature <+: asBytes (beginSignature ++ rest) := by
      rw [asBytes_append]
      exact List.prefix_append _ _
    have hlength : (asBytes unsigned).length + 1 = (asBytes (unsigned ++ ['\n'])).length := by
      rw [hfront, List.length_append]
      rfl
    have hsplit : asBytes (unsigned ++ '\n' :: (beginSignature ++ rest)) =
        asBytes (unsigned ++ ['\n']) ++ asBytes (beginSignature ++ rest) := by
      rw [hbytes, hfront, List.append_assoc, List.singleton_append]
    have hbyte : byteAt (asBytes (unsigned ++ '\n' :: (beginSignature ++ rest)))
        ((asBytes unsigned).length + 1 - 1) = 0x0a := by
      rw [hbytes, Nat.add_sub_cancel, byteAt, List.getD_eq_getElem?_getD,
        List.getElem?_append_right le_rfl, Nat.sub_self]
      rfl
    rw [splitTagSignature, hbytes, findWindow_append hne hnotMem hbegins hnot, okOr_some, ok_bind,
      ← hbytes, refuseIf_of_not (not_or.mpr ⟨Nat.succ_ne_zero _, not_not.mpr hbyte⟩), ok_bind,
      hsplit, hlength, List.drop_left, List.take_left, fromUtf8_asBytes]
    rfl

/-- **Main theorem.** A tag that `create_signed_tag` signs and writes is split into the payload
that was signed and the armor exactly if neither the tagger nor the address nor the message has
the marker. -/
theorem createSignedTag_split_iff {repo repo' : Repository}
    {envelope : List UInt8 → Option (List UInt8)} {name message tagger email : Text}
    {timestamp : UInt64} {id : ObjectId}
    (h : repo.createSignedTag (signSshsig envelope) name message tagger email timestamp =
      .ok (id, repo')) :
    ∃ target armor, repo.head = .ok (some target) ∧
      let unsigned := unsignedTag target name message tagger email timestamp
      let object : Object := ⟨.tag, asBytes (unsigned ++ armor)⟩
      signSshsig envelope (asBytes unsigned) = some armor ∧
      id = object.id ∧ repo'.store = repo.store.writeObject object ∧
      (splitTagSignature object.contents = .ok (asBytes unsigned, armor) ↔
        ¬(beginSignature <:+: tagger ∨ beginSignature <:+: email ∨
          beginSignature <:+: message)) := by
  obtain ⟨_, hreference, h⟩ := bind_eq_ok.mp h
  obtain ⟨_, _, h⟩ := bind_eq_ok.mp h
  obtain ⟨_, _, h⟩ := bind_eq_ok.mp h
  obtain ⟨_, _, h⟩ := bind_eq_ok.mp h
  obtain ⟨_, _, h⟩ := bind_eq_ok.mp h
  obtain ⟨head, hhead, h⟩ := bind_eq_ok.mp h
  obtain ⟨target, htarget, h⟩ := bind_eq_ok.mp h
  obtain ⟨signature, hsign, h⟩ := bind_eq_ok.mp h
  obtain ⟨rfl, rfl⟩ := Prod.mk.inj (Except.ok.inj h)
  obtain rfl := okOr_eq_ok.mp htarget
  have hsign := okOr_eq_ok.mp hsign
  have hname : ' ' ∉ name := by
    intro hmem
    have hbad := not_or.mp (not_or.mp (not_or.mp (not_or.mp (not_or.mp
      (refuseIf_eq_ok.mp hreference)).2).2).2).2
    refine hbad.1 (List.any_eq_true.mpr ⟨' ', List.mem_append_right _ hmem, by decide⟩)
  refine ⟨target, signature, hhead, hsign, rfl, rfl, ?_⟩
  obtain ⟨bytes, _, rfl⟩ := Option.map_eq_some_iff.mp hsign
  obtain ⟨front, hfront⟩ : ∃ front,
      unsignedTag target name message tagger email timestamp = front ++ ['\n'] := ⟨_, rfl⟩
  rw [← @infix_unsignedTag_iff target name message tagger email timestamp hname, hfront, armor,
    List.append_assoc, List.singleton_append]
  exact splitTagSignature_iff

/-- What `create_signed_tag` does if it refuses nothing. -/
theorem createSignedTag_eq_ok {repo : Repository} {sign : List UInt8 → Option Text}
    {name message tagger email signature : Text} {timestamp : UInt64} {target : ObjectId}
    (hreference : validateReference ("refs/tags/".toList ++ name) = .ok ())
    (hmissing : repo.readReference ("refs/tags/".toList ++ name) = .ok none)
    (hidentity : validateIdentity tagger email = .ok ())
    (hmessage : ¬(trim message = [] ∨ '\x00' ∈ message)) (hhead : repo.head = .ok (some target))
    (hsign : sign (asBytes (unsignedTag target name message tagger email timestamp)) =
      some signature) :
    ∃ repo', repo.createSignedTag sign name message tagger email timestamp =
      .ok (Object.id ⟨.tag, asBytes
        (unsignedTag target name message tagger email timestamp ++ signature)⟩, repo') := by
  refine ⟨repo.writeNamed ("refs/tags/".toList ++ name) ⟨.tag, asBytes
    (unsignedTag target name message tagger email timestamp ++ signature)⟩, ?_⟩
  rw [Repository.createSignedTag]
  dsimp only
  rw [hreference, ok_bind, hmissing, ok_bind, refuseIf_of_not (by decide), ok_bind, hidentity,
    ok_bind, refuseIf_of_not hmessage, ok_bind, hhead, ok_bind, okOr_some, ok_bind, hsign, okOr_some,
    ok_bind]
  rfl

/-- A repository with nothing but a commit that is checked out. -/
def detached : Repository where
  store := emptyBlobStore
  files path :=
    if path = "HEAD".toList then some (asBytes (ObjectId.toHex default ++ ['\n'])) else none

theorem head_detached : detached.head = .ok (some default) := by
  decide +kernel

theorem createSignedTag_detached (message : Text) (h : ¬(trim message = [] ∨ '\x00' ∈ message)) :
    ∃ repo', detached.createSignedTag (signSshsig fun _ => some []) "v1".toList message
      "A".toList "a@b".toList 0 = .ok (Object.id ⟨.tag, asBytes
        (unsignedTag default "v1".toList message "A".toList "a@b".toList 0 ++ armor [])⟩, repo') :=
  createSignedTag_eq_ok (by decide +kernel) (by decide +kernel) (by decide +kernel) h head_detached
    rfl

/-- A plain message does no harm. -/
theorem createSignedTag_split_plain : ∃ target armor,
    signSshsig (fun _ => some []) (asBytes
      (unsignedTag target "v1".toList "m".toList "A".toList "a@b".toList 0)) = some armor ∧
    splitTagSignature (asBytes
      (unsignedTag target "v1".toList "m".toList "A".toList "a@b".toList 0 ++ armor)) =
      .ok (asBytes (unsignedTag target "v1".toList "m".toList "A".toList "a@b".toList 0), armor) := by
  obtain ⟨repo', h⟩ := createSignedTag_detached "m".toList (by decide)
  obtain ⟨target, armor, -, hsign, -, -, hsplit⟩ := createSignedTag_split_iff h
  exact ⟨target, armor, hsign, hsplit.mpr (by decide +kernel)⟩

/-- A message that has the marker is taken for the signature. -/
theorem createSignedTag_not_split :
    (∃ repo', detached.createSignedTag (signSshsig fun _ => some []) "v1".toList beginSignature
      "A".toList "a@b".toList 0 = .ok (Object.id ⟨.tag, asBytes
        (unsignedTag default "v1".toList beginSignature "A".toList "a@b".toList 0 ++ armor [])⟩,
        repo')) ∧
    splitTagSignature (asBytes
      (unsignedTag default "v1".toList beginSignature "A".toList "a@b".toList 0 ++ armor [])) ≠
      .ok (asBytes (unsignedTag default "v1".toList beginSignature "A".toList "a@b".toList 0),
        armor []) := by
  refine ⟨createSignedTag_detached beginSignature (by decide), fun hsplit => ?_⟩
  have hmarker : beginSignature <:+:
      unsignedTag default "v1".toList beginSignature "A".toList "a@b".toList 0 :=
    (infix_unsignedTag_iff (by decide)).mpr (.inr (.inr List.infix_rfl))
  obtain ⟨front, hfront⟩ : ∃ front,
      unsignedTag default "v1".toList beginSignature "A".toList "a@b".toList 0 =
        front ++ ['\n'] := ⟨_, rfl⟩
  rw [hfront] at hmarker
  rw [hfront, armor, List.append_assoc, List.singleton_append] at hsplit
  exact splitTagSignature_iff.mp hsplit hmarker

end Mrml.Git
