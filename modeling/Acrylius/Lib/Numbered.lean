import Mathlib.Data.List.Basic

/-! Lists whose entries go by their places: what a place holds once the list has grown by one, or
one entry of it is another. -/
namespace Lib

variable {α : Type} {as : List α} {a b : α} {i k : ℕ}

/-- An entry of a list that grew by one is one it had, or the new one. -/
theorem getElem?_concat (h : (as ++ [a])[i]? = some b) :
    i < as.length ∧ as[i]? = some b ∨ i = as.length ∧ b = a := by
  rcases Nat.lt_or_ge i as.length with hi | hi
  · rw [List.getElem?_append_left hi] at h
    exact .inl ⟨hi, h⟩
  · have hlast : i = as.length := by
      obtain ⟨hlen, -⟩ := List.getElem?_eq_some_iff.mp h
      rw [List.length_append, List.length_singleton] at hlen
      omega
    rw [hlast, List.getElem?_concat_length] at h
    exact .inr ⟨hlast, (Option.some.inj h).symm⟩

theorem getElem?_set_cases (h : (as.set k a)[i]? = some b) : as[i]? = some b ∨ i = k ∧ b = a := by
  by_cases hi : i = k
  · subst hi
    obtain ⟨hlt, -⟩ := List.getElem?_eq_some_iff.mp h
    rw [List.length_set] at hlt
    rw [List.getElem?_set_self hlt] at h
    exact .inr ⟨rfl, (Option.some.inj h).symm⟩
  · rw [List.getElem?_set_ne (Ne.symm hi)] at h
    exact .inl h

theorem getElem?_modify_cases {f : α → α} (h : (as.modify k f)[i]? = some b) :
    ∃ a, as[i]? = some a ∧ (k = i ∧ b = f a ∨ k ≠ i ∧ b = a) := by
  rw [List.getElem?_modify] at h
  cases ha : as[i]? with
  | none =>
    rw [ha] at h
    cases h
  | some a =>
    rw [ha] at h
    obtain rfl := Option.some.inj h
    by_cases hk : k = i
    · exact ⟨a, rfl, .inl ⟨hk, if_pos hk⟩⟩
    · exact ⟨a, rfl, .inr ⟨hk, if_neg hk⟩⟩

end Lib
