import Mrml.Common.KeyedList

/-!
# Ordered map

Model of `OrderedMap` of `crates/mrml-runtime/src/map.rs` (lines 5–90): a vector of entries that
is searched by halving. On strictly ascending entries the search of the standard library finds the
entry of a key, or the place before the first greater key.

Results:
* `isSome_get`: a key is found exactly where it has an entry.
* `sorted_insert`, `insert_perm`: a new key goes to its place in the order.
* `value_of_mem_insert`: the other values stay.
* `get_insert`: the map gives what was inserted last.
-/

namespace Mrml.Runtime.OrderedMap

open KeyedList

variable {κ α : Type*} [LinearOrder κ]

/-- The number of entries with smaller keys. -/
def place (key : κ) (entries : List (κ × α)) : ℕ :=
  (entries.takeWhile fun entry => entry.1 < key).length

/-- `entries.binary_search_by(|(existing, _)| existing.cmp(&key))`: the index of the key, or the
index at which it would stand. -/
def search (key : κ) (entries : List (κ × α)) : Except ℕ ℕ :=
  match entries[place key entries]? with
  | some entry => if entry.1 = key then .ok (place key entries) else .error (place key entries)
  | none => .error (place key entries)

/-- `get` (lines 72–80). -/
def get (key : κ) (entries : List (κ × α)) : Option α :=
  match search key entries with
  | .ok index => entries[index]?.map Prod.snd
  | .error _ => none

/-- `try_insert` (lines 38–49), whose allocation does not fail here. -/
def insert (key : κ) (value : α) (entries : List (κ × α)) : List (κ × α) :=
  match search key entries with
  | .ok index => entries.modify index fun entry => (entry.1, value)
  | .error index => entries.insertIdx index (key, value)

/-- Entries in strictly ascending order of their keys. -/
abbrev Sorted (entries : List (κ × α)) : Prop := SortedBy Prod.fst entries

variable {key : κ} {value : α} {entries : List (κ × α)}

theorem getElem?_place (key : κ) (entries : List (κ × α)) :
    entries[place key entries]? = (entries.dropWhile fun entry => entry.1 < key).head? := by
  have hsplit := List.takeWhile_append_dropWhile (p := fun entry => decide (entry.1 < key))
    (l := entries)
  calc entries[place key entries]? = ((entries.takeWhile fun entry => decide (entry.1 < key)) ++
        entries.dropWhile fun entry => entry.1 < key)[place key entries]? := by rw [hsplit]
    _ = _ := by
      rw [place, List.getElem?_append_right le_rfl, Nat.sub_self, List.head?_eq_getElem?]

/-- Where a sorted map has a key, the search ends at it. -/
theorem search_eq_ok (h : Sorted entries) {index : ℕ} :
    search key entries = .ok index ↔ index = place key entries ∧ key ∈ entries.map Prod.fst := by
  have hplace := getElem?_place key entries
  have hsplit := List.takeWhile_append_dropWhile (p := fun entry => decide (entry.1 < key))
    (l := entries)
  have hbefore : key ∉ (entries.takeWhile fun entry => decide (entry.1 < key)).map Prod.fst := by
    intro hmem
    obtain ⟨entry, hentry, rfl⟩ := List.mem_map.mp hmem
    have hlt := List.mem_takeWhile_imp hentry
    simp at hlt
  have hkeys : key ∈ entries.map Prod.fst ↔
      key ∈ (entries.dropWhile fun entry => decide (entry.1 < key)).map Prod.fst := by
    rw [← hsplit, List.map_append, List.mem_append, hsplit]
    simp [hbefore]
  rw [search, hplace, hkeys]
  have hsorted : Sorted (entries.dropWhile fun entry => decide (entry.1 < key)) :=
    h.sublist (List.dropWhile_sublist _)
  have hhead : ∀ entry ∈ (entries.dropWhile fun entry => decide (entry.1 < key)).head?,
      ¬entry.1 < key := by
    intro entry hentry
    have := List.head?_dropWhile_not (fun entry : κ × α => decide (entry.1 < key)) entries
    rw [Option.mem_def.mp hentry] at this
    simpa using this
  cases hrest : entries.dropWhile fun entry => decide (entry.1 < key) with
  | nil => simp
  | cons entry rest =>
    rw [hrest] at hsorted hhead
    have hle : ¬entry.1 < key := hhead entry rfl
    have hlater : ∀ other ∈ rest, entry.1 < other.1 := (List.pairwise_cons.mp hsorted).1
    have hmem : key ∈ (entry :: rest).map Prod.fst ↔ entry.1 = key := by
      rw [List.map_cons, List.mem_cons]
      constructor
      · rintro (heq | hmem)
        · exact heq.symm
        · obtain ⟨other, hother, rfl⟩ := List.mem_map.mp hmem
          exact absurd (hlater other hother) hle
      · exact fun heq => .inl heq.symm
    rw [hmem]
    show (if entry.1 = key then Except.ok (place key entries) else _) = _ ↔ _
    split_ifs with heq
    · simp [heq, eq_comm]
    · simp [heq]

theorem isSome_get (h : Sorted entries) :
    (get key entries).isSome ↔ key ∈ entries.map Prod.fst := by
  rw [get]
  cases hsearch : search key entries with
  | error index =>
    have hnot : key ∉ entries.map Prod.fst := by
      intro hmem
      rw [(search_eq_ok h).mpr ⟨rfl, hmem⟩] at hsearch
      cases hsearch
    simp [hnot]
  | ok index =>
    obtain ⟨rfl, hmem⟩ := (search_eq_ok h).mp hsearch
    have hsome : entries[place key entries]? ≠ none := by
      intro hnone
      rw [search, hnone] at hsearch
      cases hsearch
    obtain ⟨entry, hentry⟩ := Option.ne_none_iff_exists'.mp hsome
    simp [hentry, hmem]

omit [LinearOrder κ] in
theorem insertIdx_append (before after : List (κ × α)) (entry : κ × α) :
    (before ++ after).insertIdx before.length entry = before ++ entry :: after := by
  induction before with
  | nil => rfl
  | cons first before ih =>
    rw [List.cons_append, List.length_cons, List.insertIdx_succ_cons, ih, List.cons_append]

theorem insert_of_notMem (h : Sorted entries) (hnew : key ∉ entries.map Prod.fst) :
    insert key value entries = (entries.takeWhile fun entry => entry.1 < key) ++
      (key, value) :: entries.dropWhile fun entry => entry.1 < key := by
  have hsplit := List.takeWhile_append_dropWhile (p := fun entry => decide (entry.1 < key))
    (l := entries)
  have hsearch : search key entries = .error (place key entries) := by
    cases hsearch : search key entries with
    | ok index => exact absurd ((search_eq_ok h).mp hsearch).2 hnew
    | error index =>
      rw [search] at hsearch
      split at hsearch
      · split_ifs at hsearch
        exact hsearch.symm
      · exact hsearch.symm
  rw [insert, hsearch]
  show entries.insertIdx (place key entries) (key, value) = _
  calc entries.insertIdx (place key entries) (key, value) =
      ((entries.takeWhile fun entry => decide (entry.1 < key)) ++
        entries.dropWhile fun entry => decide (entry.1 < key)).insertIdx
          (place key entries) (key, value) := by rw [hsplit]
    _ = _ := insertIdx_append _ _ _

/-- The values of the map are the new one and values that it had. -/
theorem value_of_mem_insert {entry : κ × α} (h : entry ∈ insert key value entries) :
    entry.2 = value ∨ ∃ other ∈ entries, other.2 = entry.2 := by
  unfold insert at h
  cases hsearch : search key entries with
  | ok index =>
    rw [hsearch] at h
    obtain ⟨i, hi⟩ := List.mem_iff_getElem?.mp h
    rw [List.getElem?_modify] at hi
    obtain ⟨other, hother, heq⟩ := Option.map_eq_some_iff.mp hi
    have hmem : other ∈ entries := List.mem_of_getElem? hother
    split_ifs at heq with hindex
    · exact .inl (congrArg Prod.snd heq).symm
    · exact .inr ⟨other, hmem, congrArg Prod.snd heq⟩
  | error index =>
    rw [hsearch] at h
    obtain rfl | hmem := List.mem_cons.mp (List.insertIdx_subset_cons index _ entries h)
    · exact .inl rfl
    · exact .inr ⟨entry, hmem, rfl⟩

/-- A new key goes to its place in the order. -/
theorem insert_perm (h : Sorted entries) (hnew : key ∉ entries.map Prod.fst) :
    (insert key value entries).Perm ((key, value) :: entries) := by
  rw [insert_of_notMem h hnew]
  refine List.perm_middle.trans (List.Perm.cons _ ?_)
  rw [List.takeWhile_append_dropWhile]

theorem sorted_insert (h : Sorted entries) (hnew : key ∉ entries.map Prod.fst) :
    Sorted (insert key value entries) := by
  have hall : entries.Pairwise fun a b => a.1 < b.1 := h
  have hsplit := List.takeWhile_append_dropWhile (p := fun entry => decide (entry.1 < key))
    (l := entries)
  rw [← hsplit, List.pairwise_append] at hall
  obtain ⟨hbefore, hafter, hacross⟩ := hall
  have hsmaller : ∀ entry ∈ entries.takeWhile fun entry => decide (entry.1 < key),
      entry.1 < key := fun entry hentry => by
    simpa using List.mem_takeWhile_imp hentry
  have hgreater : ∀ entry ∈ entries.dropWhile fun entry => decide (entry.1 < key),
      key < entry.1 := by
    have hhead := List.head?_dropWhile_not (fun entry : κ × α => decide (entry.1 < key)) entries
    intro entry hentry
    have hne : entry.1 ≠ key := fun heq =>
      hnew (List.mem_map.mpr ⟨entry, (List.dropWhile_sublist _).subset hentry, heq⟩)
    cases hrest : entries.dropWhile fun entry => decide (entry.1 < key) with
    | nil =>
      rw [hrest] at hentry
      cases hentry
    | cons first rest =>
      rw [hrest] at hhead hentry hafter
      have hle : key ≤ first.1 := by simpa using hhead
      obtain rfl | hmem := List.mem_cons.mp hentry
      · exact lt_of_le_of_ne hle hne.symm
      · exact hle.trans_lt ((List.pairwise_cons.mp hafter).1 entry hmem)
  rw [insert_of_notMem h hnew]
  show List.Pairwise _ _
  rw [List.pairwise_append, List.pairwise_cons]
  refine ⟨hbefore, ⟨hgreater, hafter⟩, fun a ha b hb => ?_⟩
  obtain rfl | hmem := List.mem_cons.mp hb
  · exact hsmaller a ha
  · exact hacross a ha b hmem

/-- Where the search ends at an entry, the entry has the key. -/
theorem getElem?_of_search_eq_ok {index : ℕ} (h : search key entries = .ok index) :
    ∃ old, entries[index]? = some (key, old) := by
  rw [search] at h
  split at h
  · next entry hentry =>
    split_ifs at h with hkey
    obtain rfl := Except.ok.inj h
    exact ⟨entry.2, hentry.trans (congrArg some (Prod.ext hkey rfl))⟩
  · cases h

omit [LinearOrder κ] in
/-- The keys of the entries stay where a key gets a new value. -/
theorem map_fst_modify (index : ℕ) :
    (entries.modify index fun entry => (entry.1, value)).map Prod.fst = entries.map Prod.fst := by
  refine List.ext_getElem? fun i => ?_
  rw [List.getElem?_map, List.getElem?_modify, List.getElem?_map, Option.map_eq_map,
    Option.map_map]
  refine congrArg (fun f => Option.map f entries[i]?) (funext fun entry => ?_)
  rw [Function.comp_apply]
  split_ifs <;> rfl

theorem Sorted.insert (h : Sorted entries) : Sorted (insert key value entries) := by
  by_cases hkey : key ∈ entries.map Prod.fst
  · rw [OrderedMap.insert, (search_eq_ok h).mpr ⟨rfl, hkey⟩]
    have hkeys : (entries.map Prod.fst).Pairwise (· < ·) := List.pairwise_map.mpr h
    rw [← map_fst_modify] at hkeys
    exact List.pairwise_map.mp hkeys
  · exact sorted_insert h hkey

theorem get_eq_some_iff (h : Sorted entries) : get key entries = some value ↔
    (key, value) ∈ entries := by
  have hmem : ∀ {v}, get key entries = some v → (key, v) ∈ entries := by
    intro v hget
    rw [get] at hget
    cases hsearch : search key entries with
    | error index =>
      rw [hsearch] at hget
      cases hget
    | ok index =>
      obtain ⟨old, hold⟩ := getElem?_of_search_eq_ok hsearch
      rw [hsearch] at hget
      dsimp only at hget
      rw [hold] at hget
      obtain rfl := Option.some.inj hget
      exact List.mem_of_getElem? hold
  refine ⟨hmem, fun hentry => ?_⟩
  obtain ⟨v, hget⟩ := Option.isSome_iff_exists.mp
    ((isSome_get h).mpr (List.mem_map.mpr ⟨_, hentry, rfl⟩))
  have heq := List.inj_on_of_nodup_map h.nodup (hmem hget) hentry rfl
  rw [hget, (Prod.mk.inj heq).2]

/-- The entries after an insertion. -/
theorem mem_insert (h : Sorted entries) {key' : κ} {value' : α} :
    (key', value') ∈ insert key value entries ↔
      if key' = key then value' = value else (key', value') ∈ entries := by
  by_cases hkey : key ∈ entries.map Prod.fst
  · have hsearch := (search_eq_ok h).mpr ⟨rfl, hkey⟩
    obtain ⟨old, hold⟩ := getElem?_of_search_eq_ok hsearch
    obtain ⟨hlt, hat⟩ := List.getElem?_eq_some_iff.mp hold
    generalize place key entries = index at *
    have hsplit : entries = entries.take index ++ (key, old) :: entries.drop (index + 1) := by
      rw [← hat, ← List.drop_eq_getElem_cons hlt, List.take_append_drop]
    have hinsert : insert key value entries =
        entries.take index ++ (key, value) :: entries.drop (index + 1) := by
      rw [insert, hsearch]
      dsimp only
      rw [List.modify_eq_take_cons_drop hlt, hat]
    -- the key is in no other entry
    have hnodup := h.nodup
    rw [hsplit, List.map_append, List.map_cons, List.nodup_middle, List.nodup_cons,
      ← List.map_append, List.mem_map] at hnodup
    rw [hinsert, List.perm_middle.mem_iff, List.mem_cons, Prod.mk.injEq]
    split_ifs with heq
    · subst heq
      refine (or_iff_left fun hother => hnodup.1 ?_).trans (and_iff_right rfl)
      exact ⟨_, hother, rfl⟩
    · rw [or_iff_right fun hboth => heq hboth.1]
      conv_rhs => rw [hsplit, List.perm_middle.mem_iff, List.mem_cons, Prod.mk.injEq]
      exact (or_iff_right fun hboth => heq hboth.1).symm
  · rw [(insert_perm h hkey).mem_iff, List.mem_cons, Prod.mk.injEq]
    split_ifs with heq
    · subst heq
      refine (or_iff_left fun hentry => hkey ?_).trans (and_iff_right rfl)
      exact List.mem_map.mpr ⟨_, hentry, rfl⟩
    · exact or_iff_right fun hboth => heq hboth.1

/-- The map gives what was inserted last. -/
theorem get_insert (h : Sorted entries) (key' : κ) :
    get key' (insert key value entries) = if key' = key then some value else get key' entries := by
  refine Option.ext fun v => ?_
  rw [get_eq_some_iff h.insert, mem_insert h]
  split_ifs with heq
  · rw [Option.some_inj, eq_comm]
  · rw [get_eq_some_iff h]

end Mrml.Runtime.OrderedMap
