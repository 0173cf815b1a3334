import Mathlib.Data.List.Destutter

/-! Finite tables kept as ordered trees: how insertions and removals at one key cancel. -/
namespace Lib
open Std

variable {κ α : Type} [Ord κ] [TransOrd κ] [LawfulEqOrd κ] (m : ExtTreeMap κ α) (k : κ) (a : α)

@[simp] theorem erase_erase : (m.erase k).erase k = m.erase k := by
  ext k' : 1
  simp only [ExtTreeMap.getElem?_erase]
  split <;> rfl

@[simp] theorem erase_insert : (m.erase k).insert k a = m.insert k a := by
  ext k' : 1
  simp only [ExtTreeMap.getElem?_erase, ExtTreeMap.getElem?_insert]
  split <;> rfl

@[simp] theorem insert_erase : (m.insert k a).erase k = m.erase k := by
  ext k' : 1
  simp only [ExtTreeMap.getElem?_erase, ExtTreeMap.getElem?_insert]
  split <;> rfl

@[simp] theorem insert_insert (b : α) : (m.insert k a).insert k b = m.insert k b := by
  ext k' : 1
  simp only [ExtTreeMap.getElem?_insert]
  split <;> rfl

variable {m k a}

/-- Taking out what is not there changes nothing. -/
theorem erase_of_none (h : m[k]? = none) : m.erase k = m := by
  ext k' : 1
  by_cases hk : k' = k
  · subst hk
    simp [h]
  · simp [ExtTreeMap.getElem?_erase, Ne.symm hk]

/-- Taking an entry out and putting it back changes nothing. -/
theorem restore (h : m[k]? = some a) : (m.erase k).insert k a = m := by
  ext k' : 1
  simp only [erase_insert, ExtTreeMap.getElem?_insert]
  split
  · rename_i hk
    rw [← LawfulEqOrd.eq_of_compare hk, h]
  · rfl

theorem getElem?_insert_of_ne {k' : κ} (h : k' ≠ k) : (m.insert k a)[k']? = m[k']? := by
  simp [ExtTreeMap.getElem?_insert, Ne.symm h]

theorem getElem?_erase_of_ne {k' : κ} (h : k' ≠ k) : (m.erase k)[k']? = m[k']? := by
  simp [ExtTreeMap.getElem?_erase, Ne.symm h]

theorem getElem?_foldl_erase {ks : List κ} {k' : κ} [DecidableEq κ] :
    (ks.foldl ExtTreeMap.erase m)[k']? = if k' ∈ ks then none else m[k']? := by
  induction ks generalizing m with
  | nil => simp
  | cons j js ih =>
    rw [List.foldl_cons, ih]
    by_cases hj : k' = j
    · subst hj
      simp
    · rw [getElem?_erase_of_ne hj]
      simp [hj]

/-- What is still there after a removal was there before. -/
theorem getElem?_of_erase {k' : κ} {b : α} (h : (m.erase k)[k']? = some b) :
    k' ≠ k ∧ m[k']? = some b := by
  by_cases hk : k' = k
  · subst hk
    simp at h
  · exact ⟨hk, by rwa [getElem?_erase_of_ne hk] at h⟩

/-- What is there after an insertion is what was inserted, or was there before. -/
theorem getElem?_of_insert {k' : κ} {b : α} (h : (m.insert k a)[k']? = some b) :
    k' = k ∧ b = a ∨ k' ≠ k ∧ m[k']? = some b := by
  by_cases hk : k' = k
  · subst hk
    rw [ExtTreeMap.getElem?_insert_self] at h
    exact .inl ⟨rfl, (Option.some.inj h).symm⟩
  · exact .inr ⟨hk, by rwa [getElem?_insert_of_ne hk] at h⟩

theorem mem_insert {m : ExtTreeMap κ α} {k k' : κ} {a : α} :
    k' ∈ m.insert k a ↔ k' = k ∨ k' ∈ m := by
  rw [ExtTreeMap.mem_insert, Std.compare_eq_iff_eq, eq_comm]

theorem mem_erase {m : ExtTreeMap κ α} {k k' : κ} : k' ∈ m.erase k ↔ k' ≠ k ∧ k' ∈ m := by
  rw [ExtTreeMap.mem_erase, ne_eq, Std.compare_eq_iff_eq, ← ne_eq, ne_comm]

/-- The entries of a table are listed once each. -/
theorem nodup_toList {m : ExtTreeMap κ α} : m.toList.Nodup := by
  apply m.distinct_keys_toList.imp
  rintro a b hne rfl
  exact hne ReflCmp.compare_self

omit [LawfulEqOrd κ] in
theorem not_mem_of_getElem? (h : m[k]? = none) : k ∉ m := by
  rw [ExtTreeMap.mem_iff_isSome_getElem?, h]
  simp

theorem getElem?_filter_eq_some {keep : κ → α → Bool} :
    (m.filter keep)[k]? = some a ↔ m[k]? = some a ∧ keep k a := by
  rw [ExtTreeMap.getElem?_filter', Option.filter_eq_some_iff]

/-- Taking out one key leaves the other entries in order. -/
theorem toList_erase [DecidableEq κ] :
    (m.erase k).toList = m.toList.filter fun e => e.1 ≠ k := by
  have hfilter : m.erase k = m.filter fun k' _ => k' ≠ k := by
    ext k' : 1
    rw [ExtTreeMap.getElem?_filter']
    by_cases hk : k' = k
    · subst hk
      cases m[k']? <;> simp
    · rw [getElem?_erase_of_ne hk]
      cases m[k']? <;> simp [hk, Option.filter]
  rw [hfilter, ExtTreeMap.toList_filter]

/-- Each key is kept at most once. -/
theorem nodup_map_filter_toList (m : ExtTreeMap κ α) (keep : κ × α → Bool) :
    ((m.toList.filter keep).map (·.1)).Nodup := by
  have hkeys : m.toList.Pairwise fun a b => a.1 ≠ b.1 :=
    m.distinct_keys_toList.imp fun {a b} hne heq => hne (by rw [heq, compare_self])
  exact List.pairwise_map.mpr (hkeys.filter keep)

/-- A scan of the table stops at the first entry, in the order of its keys, that answers. -/
theorem findSome?_toList_eq_some {β : Type} {f : κ × α → Option β} {b : β}
    (h : m.toList.findSome? f = some b) :
    ∃ k a, m[k]? = some a ∧ f (k, a) = some b ∧
      ∀ k' a', compare k' k = .lt → m[k']? = some a' → f (k', a') = none := by
  obtain ⟨before, ⟨k, a⟩, after, hlist, hf, hnone⟩ := List.findSome?_eq_some_iff.mp h
  have hmem : (k, a) ∈ m.toList := by simp [hlist]
  refine ⟨k, a, ExtTreeMap.mem_toList_iff_getElem?_eq_some.mp hmem, hf, fun k' a' hlt hk' => ?_⟩
  have hmem' := ExtTreeMap.mem_toList_iff_getElem?_eq_some.mpr hk'
  have hord := m.ordered_keys_toList
  rw [hlist] at hmem' hord
  rcases List.mem_append.mp hmem' with hbefore | hafter
  · exact hnone _ hbefore
  · exfalso
    rcases List.mem_cons.mp hafter with heq | hafter
    · cases heq
      rw [compare_self] at hlt
      cases hlt
    · have hgt := (List.pairwise_cons.mp (List.pairwise_append.mp hord).2.1).1 _ hafter
      have hlt' := OrientedCmp.gt_of_lt hlt
      rw [hgt] at hlt'
      cases hlt'

theorem findSome?_toList_eq_none {β : Type} {f : κ × α → Option β}
    (h : m.toList.findSome? f = none) (h' : m[k]? = some a) : f (k, a) = none :=
  List.findSome?_eq_none_iff.mp h _ (ExtTreeMap.mem_toList_iff_getElem?_eq_some.mpr h')

section Index
variable {key : α → Option κ}

/-- A table of the entries that have a key; a later one wins. -/
def index (key : α → Option κ) (as : List α) : ExtTreeMap κ α :=
  as.foldl (fun m a => match key a with
    | some k => m.insert k a
    | none => m) ∅

omit [LawfulEqOrd κ] in
theorem index_concat (as : List α) (a : α) : index key (as ++ [a]) =
    match key a with
    | some k => (index key as).insert k a
    | none => index key as := by
  simp [index]

theorem index_some (as : List α) (h : (index key as)[k]? = some a) : a ∈ as ∧ key a = some k := by
  induction as using List.reverseRecOn with
  | nil => simp [index] at h
  | append_singleton as b ih =>
    rw [index_concat] at h
    split at h
    · rename_i k' hk
      rcases getElem?_of_insert h with ⟨rfl, rfl⟩ | ⟨-, h⟩
      · exact ⟨by simp, hk⟩
      · exact ⟨List.mem_append_left _ (ih h).1, (ih h).2⟩
    · exact ⟨List.mem_append_left _ (ih h).1, (ih h).2⟩

/-- An entry that shares its key with no other is found under it. -/
theorem index_of_unique (as : List α) (ha : a ∈ as) (hk : key a = some k)
    (huniq : ∀ b ∈ as, key b = some k → b = a) : (index key as)[k]? = some a := by
  induction as using List.reverseRecOn with
  | nil => cases ha
  | append_singleton as b ih =>
    rw [index_concat]
    by_cases hb : key b = some k
    · obtain rfl := huniq b (by simp) hb
      simp [hb]
    · have ha' : a ∈ as := by
        rcases List.mem_append.mp ha with h | h
        · exact h
        · rw [List.mem_singleton] at h
          subst h
          exact absurd hk hb
      have hrest := ih ha' fun b' h => huniq b' (List.mem_append_left _ h)
      split
      · rename_i k' hk'
        have hne : k ≠ k' := by
          rintro rfl
          exact hb hk'
        rw [getElem?_insert_of_ne hne]
        exact hrest
      · exact hrest

end Index

end Lib
