import Acrylius.Core.Calls

/-! What a step puts on the screen in the plugins' name: the events that a reader picks out, against
what the plugins left in their contexts. -/
namespace Acrylius
open Proto Std

variable {X : Crates} {P α : Type}

/-- What a reader makes of the events among some actions. -/
def spoken (f : UiEvent → Option α) (as : List Action) : List α :=
  as.filterMap fun
    | .ui e => f e
    | _ => none

/-- The reader heeds what plugins announce, and neither the core's own words nor a peer's errors. -/
def Heeds (f : UiEvent → Option α) : Prop :=
  ∀ e, (f e).isSome → ∃ peer cap ty body, e = .plugin peer cap ty body ∧ ty ≠ "err"

section Spoken
variable {f : UiEvent → Option α}

@[simp] theorem spoken_append (as bs : List Action) :
    spoken f (as ++ bs) = spoken f as ++ spoken f bs := by simp [spoken]

theorem Heeds.eq_none (h : Heeds f) {e : UiEvent}
    (he : ∀ peer cap ty body, e = .plugin peer cap ty body → ty = "err") : f e = none := by
  rw [← Option.not_isSome_iff_eq_none]
  intro hsome
  obtain ⟨peer, cap, ty, body, heq, hty⟩ := h e hsome
  exact hty (he peer cap ty body heq)

theorem Heeds.spoken_plain (h : Heeds f) {as : List Action} (hplain : ∀ a ∈ as, a.plain) :
    spoken f as = [] := by
  unfold spoken
  rw [List.filterMap_eq_nil_iff]
  intro a ha
  have hmute := hplain a ha
  cases a with
  | ui e =>
    apply h.eq_none
    rintro peer cap ty body rfl
    simpa [Action.plain] using hmute
  | _ => rfl

end Spoken

namespace Exec
variable {s t : Exec X P} {f : UiEvent → Option α}

theorem spoken_of_plain (hf : Heeds f) (h : Plain s t) : spoken f t.actions = spoken f s.actions := by
  obtain ⟨-, as, ha, hplain⟩ := h
  rw [ha, spoken_append, hf.spoken_plain hplain, List.append_nil]

theorem foldl_spoken {β : Type} {g : Exec X P → β → Exec X P}
    (hg : ∀ s a, spoken f (g s a).actions = spoken f s.actions) (as : List β) (s : Exec X P) :
    spoken f (as.foldl g s).actions = spoken f s.actions := by
  induction as generalizing s with
  | nil => rfl
  | cons a as ih => exact (ih _).trans (hg s a)

theorem dispatchBulk_spoken (hf : Heeds f) (s : Exec X P) (nowMs : ℕ) (r : BulkRequest) :
    spoken f (s.dispatchBulk nowMs r).actions = spoken f s.actions := by
  have hmute : ∀ peer code detail, f (.error peer code detail) = none := by
    intro peer code detail
    apply hf.eq_none
    nofun
  have key : ∀ (peer offerer : DeviceId) (t : TransferId) (n : ℕ)
      (start : Exec X P → Bytes → Exec X P),
      (∀ k, spoken f (start s k).actions = spoken f s.actions) →
      spoken f (s.withBulkKey peer t offerer n start).actions = spoken f s.actions := by
    intro peer offerer t n start h
    unfold withBulkKey
    split
    · simp [ui, push, spoken, hmute]
    · split
      · simp [ui, push, spoken, hmute]
      · exact h _
  cases r with
  | cancel t => simp [dispatchBulk, push, spoken]
  | listen => exact key _ _ _ _ _ fun k => by simp [push, spoken]
  | send => exact key _ _ _ _ _ fun k => by simp [push, spoken]

/-- What a plugin leaves in its context is announced, and nothing else is. -/
theorem drainCx_spoken (hf : Heeds f) (s : Exec X P) (cx : Cx) :
    spoken f (s.drainCx cx).actions = spoken f s.actions ++ cx.ui.filterMap f := by
  have told : ∀ (es : List UiEvent) (s : Exec X P), spoken f (es.foldl ui s).actions =
      spoken f s.actions ++ es.filterMap f := by
    intro es
    induction es with
    | nil => simp
    | cons e es ih =>
      intro s
      rw [List.foldl_cons, ih]
      simp only [ui, push, spoken_append, List.append_assoc]
      congr 1
      cases he : f e <;> simp [spoken, he]
  have acted := foldl_spoken (f := f) (g := fun s e => s.push (.effect e.1 e.2))
    (fun (s : Exec X P) (e : EffectToken × Effect) => by simp [push, spoken]) cx.effects
    (cx.ui.foldl ui s)
  have asked := foldl_spoken (fun s r => dispatchBulk_spoken hf s cx.nowMs r) cx.bulk
    (cx.effects.foldl (fun s e => s.push (.effect e.1 e.2)) (cx.ui.foldl ui s))
  have sent := foldl_spoken (fun s m => spoken_of_plain hf (dispatchSend_plain s m)) cx.sends
    (cx.bulk.foldl (fun s b => s.dispatchBulk cx.nowMs b)
      (cx.effects.foldl (fun s e => s.push (.effect e.1 e.2)) (cx.ui.foldl ui s)))
  have all := ((sent.trans asked).trans acted).trans (told cx.ui s)
  unfold drainCx
  dsimp only
  split
  · exact all
  · exact all

theorem callPlugin_spoken {β : Type} (hf : Heeds f) (s : Exec X P) {idx : ℕ} (cx : Cx)
    (hook : P → Cx → P × Cx × β) {p : P} (hp : s.core.plugins[idx]? = some p) :
    spoken f (s.callPlugin idx cx hook).1.actions =
      spoken f s.actions ++ (hook p cx).2.1.ui.filterMap f := by
  rw [callPlugin_eq s cx hook hp, drainCx_spoken hf]
  rfl

end Exec
end Acrylius
