import Mathlib.Data.List.Basic

/-! Runs of a deterministic machine, and the rules for what holds along them. -/
namespace Lib

variable {σ ι : Type} (step : σ → ι → σ)

def run (s : σ) (is : List ι) : σ := is.foldl step s

@[simp] theorem run_nil (s : σ) : run step s [] = s := rfl

@[simp] theorem run_cons (s : σ) (i : ι) (is : List ι) :
    run step s (i :: is) = run step (step s i) is := rfl

theorem run_append (s : σ) (is js : List ι) :
    run step s (is ++ js) = run step (run step s is) js := by
  simp [run]

/-- Every step of the run meets a condition on the state before it and its input. -/
def Along (ok : σ → ι → Prop) : σ → List ι → Prop
  | _, [] => True
  | s, i :: is => ok s i ∧ Along ok (step s i) is

instance Along.decidable (ok : σ → ι → Prop) [∀ s i, Decidable (ok s i)] :
    ∀ (s : σ) (is : List ι), Decidable (Along step ok s is)
  | _, [] => isTrue trivial
  | s, i :: is => @instDecidableAnd _ _ _ (Along.decidable ok (step s i) is)

variable {step}

theorem Along.nil {ok : σ → ι → Prop} (s : σ) : Along step ok s [] := trivial

theorem Along.congr {ok ok' : σ → ι → Prop} (h : ∀ s i, ok s i ↔ ok' s i) {s : σ} {is : List ι} :
    Along step ok s is ↔ Along step ok' s is := by
  induction is generalizing s with
  | nil => exact .rfl
  | cons i is ih => exact and_congr (h s i) ih

theorem Along.append {ok : σ → ι → Prop} {s : σ} {is js : List ι} :
    Along step ok s (is ++ js) ↔ Along step ok s is ∧ Along step ok (run step s is) js := by
  induction is generalizing s with
  | nil => simp [Along]
  | cons i is ih => simp [Along, ih, and_assoc]

/-- What every permitted step preserves holds at the end of a permitted run. -/
theorem Along.inv {I : σ → Prop} {ok : σ → ι → Prop} (hstep : ∀ s i, I s → ok s i → I (step s i))
    {s : σ} {is : List ι} (h : Along step ok s is) (hs : I s) : I (run step s is) := by
  induction is generalizing s with
  | nil => exact hs
  | cons i is ih => exact ih h.2 (hstep s i hs h.1)

/-- Along a permitted run, each step meets what its invariant gives. -/
theorem Along.along_of_inv {I : σ → Prop} {ok ok' : σ → ι → Prop}
    (hstep : ∀ s i, I s → ok s i → I (step s i)) (h' : ∀ s i, I s → ok s i → ok' s i)
    {s : σ} {is : List ι} (h : Along step ok s is) (hs : I s) : Along step ok' s is := by
  induction is generalizing s with
  | nil => trivial
  | cons i is ih => exact ⟨h' s i hs h.1, ih h.2 (hstep s i hs h.1)⟩

/-- Two conditions that agree under an invariant, which permitted steps keep, agree along a run. -/
theorem Along.iff_of_inv {I : σ → Prop} {pre ok ok' : σ → ι → Prop}
    (h : ∀ s i, I s → pre s i → (ok s i ↔ ok' s i))
    (hstep : ∀ s i, I s → pre s i → ok' s i → I (step s i)) {s : σ} {is : List ι}
    (hpre : Along step pre s is) (hs : I s) : Along step ok s is ↔ Along step ok' s is := by
  induction is generalizing s with
  | nil => exact .rfl
  | cons i is ih =>
    constructor
    · rintro ⟨hok, halong⟩
      have hok' := (h s i hs hpre.1).mp hok
      exact ⟨hok', (ih hpre.2 (hstep s i hs hpre.1 hok')).mp halong⟩
    · rintro ⟨hok', halong⟩
      exact ⟨(h s i hs hpre.1).mpr hok', (ih hpre.2 (hstep s i hs hpre.1 hok')).mpr halong⟩

/-- If a step keeps an invariant exactly when it is permitted, the invariant holds all along a
run exactly when every step is permitted. -/
theorem along_iff_states {I J : σ → Prop} {ok : σ → ι → Prop}
    (hJ : ∀ s i, J s → J (step s i)) (h : ∀ s i, J s → I s → (I (step s i) ↔ ok s i))
    {s : σ} (hj : J s) (hs : I s) (is : List ι) :
    (∀ js, js <+: is → I (run step s js)) ↔ Along step ok s is := by
  induction is generalizing s with
  | nil =>
    refine ⟨fun _ => trivial, fun _ js hjs => ?_⟩
    rw [List.prefix_nil.mp hjs]
    exact hs
  | cons i is ih =>
    constructor
    · intro hall
      have hnext : I (step s i) := hall [i] (by simp)
      refine ⟨(h s i hj hs).mp hnext, (ih (hJ s i hj) hnext).mp fun js hjs => ?_⟩
      exact hall (i :: js) ((List.prefix_cons_inj i).mpr hjs)
    · rintro ⟨hok, halong⟩ js hjs
      have hnext := (h s i hj hs).mpr hok
      rcases List.prefix_cons_iff.mp hjs with rfl | ⟨js', rfl, hjs'⟩
      · exact hs
      · exact (ih (hJ s i hj) hnext).mpr halong js' hjs'

/-- What every step preserves holds along every run. -/
theorem run_inv {I : σ → Prop} (hstep : ∀ s i, I s → I (step s i)) {s : σ} (hs : I s)
    (is : List ι) : I (run step s is) := by
  induction is generalizing s with
  | nil => exact hs
  | cons i is ih => exact ih (hstep s i hs)

/-- A condition that holds of every step holds along every run. -/
theorem along_of_forall {ok : σ → ι → Prop} (h : ∀ s i, ok s i) (s : σ) (is : List ι) :
    Along step ok s is := by
  induction is generalizing s with
  | nil => trivial
  | cons i is ih => exact ⟨h s i, ih _⟩

/-- A condition on the inputs alone holds along the run if each of them meets it. -/
theorem along_of_mem {ok : ι → Prop} {is : List ι} (h : ∀ i ∈ is, ok i) (s : σ) :
    Along step (fun _ => ok) s is := by
  induction is generalizing s with
  | nil => trivial
  | cons i is ih =>
    exact ⟨h i List.mem_cons_self, ih (fun j hj => h j (List.mem_cons_of_mem _ hj)) _⟩

end Lib
