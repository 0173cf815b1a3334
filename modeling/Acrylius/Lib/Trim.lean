import Mathlib.Data.List.DropRight

/-! Trimming a list at both ends, and splitting it at its last separator. -/
namespace Lib

variable {α : Type} {p q : α → Bool} {l u : List α}

/-- What is to go at the end changes nothing else when the front is trimmed. -/
theorem dropWhile_append_all (hu : ∀ a ∈ u, q a = true) :
    ∃ u', (l ++ u).dropWhile p = l.dropWhile p ++ u' ∧ ∀ a ∈ u', q a = true := by
  induction l with
  | nil =>
    refine ⟨u.dropWhile p, rfl, fun a ha => ?_⟩
    have hmem : a ∈ u := (List.dropWhile_suffix p).subset ha
    exact hu a hmem
  | cons a l ih =>
    by_cases ha : p a = true
    · rw [List.cons_append, List.dropWhile_cons_of_pos ha, List.dropWhile_cons_of_pos ha]
      exact ih
    · rw [List.cons_append, List.dropWhile_cons_of_neg ha, List.dropWhile_cons_of_neg ha]
      exact ⟨u, rfl, hu⟩

theorem rdropWhile_append_all (hu : ∀ a ∈ u, q a = true) :
    (l ++ u).rdropWhile q = l.rdropWhile q := by
  induction u using List.reverseRecOn with
  | nil => rw [List.append_nil]
  | append_singleton u a ih =>
    have ha : q a = true := hu a (by simp)
    rw [← List.append_assoc, List.rdropWhile_concat_pos q (l ++ u) a ha]
    exact ih fun b hb => hu b (by simp [hb])

/-- What stands before something that stays, stays. -/
theorem rdropWhile_append_of_stays (h : u.rdropWhile q ≠ []) :
    (l ++ u).rdropWhile q = l ++ u.rdropWhile q := by
  induction u using List.reverseRecOn with
  | nil => exact absurd (List.rdropWhile_nil q) h
  | append_singleton u a ih =>
    by_cases ha : q a = true
    · rw [List.rdropWhile_concat_pos q u a ha] at h ⊢
      rw [← List.append_assoc, List.rdropWhile_concat_pos q (l ++ u) a ha]
      exact ih h
    · rw [List.rdropWhile_concat_neg q u a ha, ← List.append_assoc,
        List.rdropWhile_concat_neg q (l ++ u) a ha]

/-- What was trimmed at the end, and what is left, which does not end in it. -/
theorem rdropWhile_split (q : α → Bool) (l : List α) :
    ∃ u, l = l.rdropWhile q ++ u ∧ ∀ a ∈ u, q a = true :=
  ⟨l.rtakeWhile q, List.rdropWhile_append_rtakeWhile.symm, fun _ => List.mem_rtakeWhile_imp⟩

section Splitting
variable {α : Type} [DecidableEq α] {a : α} {l s e : List α}

def rsplitOnce (a : α) (l : List α) : Option (List α × List α) :=
  if a ∈ l then some ((l.rdropWhile (· ≠ a)).dropLast, l.rtakeWhile (· ≠ a)) else none

theorem rsplitOnce_of_not_mem (h : a ∉ l) : rsplitOnce a l = none := if_neg h

theorem rtakeWhile_append_ne (h : a ∉ e) : (s ++ a :: e).rtakeWhile (· ≠ a) = e := by
  induction e using List.reverseRecOn with
  | nil => exact List.rtakeWhile_concat_neg (fun x => decide (x ≠ a)) s a (by simp)
  | append_singleton e b ih =>
    have hb : b ≠ a := fun hba => h (by simp [hba])
    have he : a ∉ e := fun hmem => h (List.mem_append_left [b] hmem)
    have hsplit : s ++ a :: (e ++ [b]) = s ++ a :: e ++ [b] := by simp
    rw [hsplit, List.rtakeWhile_concat_pos (fun x => decide (x ≠ a)) _ b (decide_eq_true hb),
      ih he]

theorem rsplitOnce_append (h : a ∉ e) : rsplitOnce a (s ++ a :: e) = some (s, e) := by
  have hmem : a ∈ s ++ a :: e := by simp
  have hdrop : (s ++ a :: e).rdropWhile (· ≠ a) = s ++ [a] := by
    have hsplit : s ++ a :: e = s ++ [a] ++ e := by simp
    have hall : ∀ b ∈ e, decide (b ≠ a) = true := by
      intro b hb
      apply decide_eq_true
      intro hba
      exact h (hba ▸ hb)
    rw [hsplit, rdropWhile_append_all hall]
    exact List.rdropWhile_concat_neg (fun x => decide (x ≠ a)) s a (by simp)
  unfold rsplitOnce
  rw [if_pos hmem, hdrop, rtakeWhile_append_ne h, List.dropLast_concat]

end Splitting
end Lib
