import Mathlib.Data.List.Sort

/-! Stamped inputs that may arrive out of order: one that a later stamp has overtaken is dropped. -/
namespace Lib

variable {ι : Type}

/-- The inputs that count after the stamp `last`: each beats every stamp that counted before it. -/
def kept : ℕ → List (ℕ × ι) → List (ℕ × ι)
  | _, [] => []
  | last, x :: xs => if last < x.1 then x :: kept x.1 xs else kept last xs

@[simp] theorem kept_nil (last : ℕ) : kept (ι := ι) last [] = [] := rfl

theorem kept_cons_of_lt {last : ℕ} {x : ℕ × ι} (h : last < x.1) (xs : List (ℕ × ι)) :
    kept last (x :: xs) = x :: kept x.1 xs := if_pos h

theorem kept_cons_of_le {last : ℕ} {x : ℕ × ι} (h : x.1 ≤ last) (xs : List (ℕ × ι)) :
    kept last (x :: xs) = kept last xs := if_neg (Nat.not_lt.mpr h)

/-- In order, every input above the stamp counts. -/
theorem kept_of_sorted {last : ℕ} {xs : List (ℕ × ι)} (h : xs.Pairwise (·.1 < ·.1)) :
    kept last xs = xs.filter fun x => last < x.1 := by
  induction xs generalizing last with
  | nil => rfl
  | cons x xs ih =>
    obtain ⟨hx, hxs⟩ := List.pairwise_cons.mp h
    by_cases hlast : last < x.1
    · have hall : ∀ n ≤ x.1, xs.filter (fun y => n < y.1) = xs := by
        intro n hn
        refine List.filter_eq_self.mpr fun y hy => ?_
        exact decide_eq_true (Nat.lt_of_le_of_lt hn (hx y hy))
      rw [kept_cons_of_lt hlast, ih hxs, hall x.1 le_rfl, List.filter_cons_of_pos (by simpa using hlast),
        hall last hlast.le]
    · rw [kept_cons_of_le (Nat.le_of_not_lt hlast), ih hxs,
        List.filter_cons_of_neg (by simpa using hlast)]

end Lib
