import Mathlib.Data.List.MinMax

/-! The earliest of a number of deadlines, gathered one after the other, and passes that clear a
table of what is due. -/
namespace Lib

def sooner (best : Option ℕ) (d : ℕ) : Option ℕ := some (best.elim d (min · d))

theorem sooner_eq_min? (best : Option ℕ) (d : ℕ) : sooner best d = (best.toList ++ [d]).min? := by
  cases best <;> rfl

theorem min?_toList_append (l ds : List ℕ) : (l.min?.toList ++ ds).min? = (l ++ ds).min? := by
  cases l with
  | nil => rfl
  | cons a l =>
    have hmin : (a :: l).min? = some (l.foldl min a) := List.min?_cons'
    have hall : (a :: l ++ ds).min? = some ((l ++ ds).foldl min a) := List.min?_cons'
    rw [hmin, hall, List.foldl_append]
    exact List.min?_cons'

/-- Gathering deadlines one after the other finds the earliest of them. -/
theorem foldl_sooner (best : Option ℕ) (ds : List ℕ) :
    ds.foldl sooner best = (best.toList ++ ds).min? := by
  induction ds generalizing best with
  | nil => cases best <;> rfl
  | cons d ds ih =>
    rw [List.foldl_cons, ih, sooner_eq_min?, min?_toList_append, List.append_assoc]
    rfl

/-- A deadline that may be missing. -/
theorem elim_sooner (o best : Option ℕ) :
    o.elim best (sooner best) = (best.toList ++ o.toList).min? := by
  cases o with
  | none => cases best <;> rfl
  | some d => exact sooner_eq_min? best d

theorem foldl_sooner_map {α : Type} (f : α → ℕ) (as : List α) (best : Option ℕ) :
    as.foldl (fun b a => sooner b (f a)) best = (best.toList ++ as.map f).min? := by
  rw [← foldl_sooner, List.foldl_map]

/-- The same where only some entries have a deadline. -/
theorem foldl_sooner_filterMap {α : Type} {g : Option ℕ → α → Option ℕ} (f : α → Option ℕ)
    (hg : ∀ best a, g best a = (f a).elim best (sooner best)) (best : Option ℕ) (as : List α) :
    as.foldl g best = (best.toList ++ as.filterMap f).min? := by
  rw [← foldl_sooner]
  induction as generalizing best with
  | nil => rfl
  | cons a as ih =>
    rw [List.foldl_cons, ih, hg]
    cases hf : f a with
    | none => simp [hf]
    | some d => simp [hf]

section Passes
variable {σ κ : Type} {f : σ → κ → σ} (bad : σ → κ → Prop)

/-- A pass over every key that is due leaves none due, if no step of it makes another due and each
step deals with its own key. -/
theorem foldl_clears (keeps : ∀ s k k', bad (f s k) k' → bad s k') (clears : ∀ s k, ¬ bad (f s k) k)
    (ks : List κ) (s : σ) (h : ∀ k, bad s k → k ∈ ks) (k : κ) : ¬ bad (ks.foldl f s) k := by
  induction ks generalizing s with
  | nil =>
    intro hbad
    have hmem := h k hbad
    cases hmem
  | cons k₀ ks ih =>
    refine ih (f s k₀) fun k' hbad => ?_
    have hmem := h k' (keeps s k₀ k' hbad)
    rcases List.mem_cons.mp hmem with rfl | hmem
    · exact absurd hbad (clears s k')
    · exact hmem

end Passes

end Lib
