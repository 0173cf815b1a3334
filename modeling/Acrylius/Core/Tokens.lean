import Acrylius.Core.Rounds

/-! Effect tokens: the order they are given out in, and who is owed the result of each. -/
namespace Acrylius
open Proto Std

variable {X : Crates} {P : Type}

/-- From one count of tokens and one list of effects to the next, each new effect carried the next
token. -/
def Issues (n : ℕ) (es : List (EffectToken × Effect)) (n' : ℕ) (es' : List (EffectToken × Effect)) :
    Prop :=
  ∃ new, es' = es ++ new ∧ new.map (·.1) = List.range' (n + 1) new.length ∧ n' = n + new.length

namespace Issues
variable {n n' k : ℕ} {es es' fs : List (EffectToken × Effect)}

theorem refl (n : ℕ) (es : List (EffectToken × Effect)) : Issues n es n es :=
  ⟨[], by simp, rfl, rfl⟩

theorem trans (h : Issues n es n' es') (h' : Issues n' es' k fs) : Issues n es k fs := by
  obtain ⟨new, rfl, hmap, rfl⟩ := h
  obtain ⟨new', rfl, hmap', rfl⟩ := h'
  refine ⟨new ++ new', List.append_assoc _ _ _, ?_, ?_⟩
  · rw [List.map_append, hmap, hmap', List.length_append, ← List.range'_append_1]
    congr 2
    omega
  · rw [List.length_append]
    omega

theorem append (h : Issues n [] n' es') (es : List (EffectToken × Effect)) :
    Issues n es n' (es ++ es') := by
  obtain ⟨new, hnew, hmap, hn⟩ := h
  rw [List.nil_append] at hnew
  exact ⟨new, by rw [hnew], hmap, hn⟩

theorem le (h : Issues n es n' es') : n ≤ n' := by
  obtain ⟨new, -, -, rfl⟩ := h
  exact Nat.le_add_right _ _

theorem bounds (h : Issues n [] n' es') {t : EffectToken} {e : Effect} (he : (t, e) ∈ es') :
    n < t ∧ t ≤ n' := by
  obtain ⟨new, hes, hmap, rfl⟩ := h
  rw [hes, List.nil_append] at he
  have ht : t ∈ new.map (·.1) := List.mem_map.mpr ⟨_, he, rfl⟩
  rw [hmap, List.mem_range'_1] at ht
  obtain ⟨hlow, hhigh⟩ := ht
  rw [Nat.add_right_comm] at hhigh
  exact ⟨hlow, Nat.le_of_lt_succ hhigh⟩

theorem nodup (h : Issues n [] n' es') : (es'.map (·.1)).Nodup := by
  obtain ⟨new, hes, hmap, -⟩ := h
  rw [hes, List.nil_append, hmap]
  exact List.nodup_range'

end Issues

/-- Every effect a plugin asks for goes through `Cx::effect`. -/
def Plugin.Issuing (P : Type) [Plugin P] : Prop :=
  ∀ (p : P) (cx : Cx) (c : Call), Issues cx.nextToken cx.effects
    (Plugin.call p cx c).2.1.nextToken (Plugin.call p cx c).2.1.effects

namespace Exec

/-- The parts of a core that requests hang on. -/
theorem core_of_errands {t : Exec X P} {e : Errands X P} (h : t.errands = e) :
    t.core.nextToken = e.nextToken ∧ t.core.effectOwner = e.effectOwner ∧ t.sends = e.sends := by
  subst h
  exact ⟨rfl, rfl, rfl⟩

/-- Whoever asked for these effects is owed their results. -/
def owing (idx : ℕ) (m : ExtTreeMap EffectToken ℕ) (es : List (EffectToken × Effect)) :
    ExtTreeMap EffectToken ℕ :=
  es.foldl (fun o e => o.insert e.1 idx) m

theorem owing_of_notMem {idx : ℕ} {τ : EffectToken} {es : List (EffectToken × Effect)}
    (h : ∀ e, (τ, e) ∉ es) (m : ExtTreeMap EffectToken ℕ) : (owing idx m es)[τ]? = m[τ]? := by
  induction es generalizing m with
  | nil => rfl
  | cons e es ih =>
    have hne : τ ≠ e.1 := by
      rintro rfl
      exact h e.2 List.mem_cons_self
    have hrest : ∀ e', (τ, e') ∉ es := fun e' he' => h e' (List.mem_cons_of_mem _ he')
    exact (ih hrest (m.insert e.1 idx)).trans (Lib.getElem?_insert_of_ne hne)

theorem owing_of_mem {idx : ℕ} {τ : EffectToken} {es : List (EffectToken × Effect)} {e : Effect}
    (h : (τ, e) ∈ es) (m : ExtTreeMap EffectToken ℕ) : (owing idx m es)[τ]? = some idx := by
  induction es generalizing m e with
  | nil => cases h
  | cons e' es ih =>
    by_cases hlater : ∃ e, (τ, e) ∈ es
    · obtain ⟨e, he⟩ := hlater
      exact ih he (m.insert e'.1 idx)
    · have hnot : ∀ e, (τ, e) ∉ es := fun e he => hlater ⟨e, he⟩
      have hfirst : (τ, e) = e' := (List.mem_cons.mp h).resolve_right (hnot e)
      have hkeep : (owing idx (m.insert e'.1 idx) es)[τ]? = (m.insert e'.1 idx)[τ]? :=
        owing_of_notMem hnot _
      subst hfirst
      exact hkeep.trans ExtTreeMap.getElem?_insert_self

end Exec

section Step
variable [Plugin P]

theorem Due.effects {i : Core.Input X} {s₀ s : Exec X P} {idx : ℕ} {cx : Cx} {c : Call}
    (h : Due i s₀ s idx cx c) : cx.effects = [] ∧ cx.nextToken = s.core.nextToken := by
  cases h <;> exact ⟨rfl, rfl⟩

theorem forEachPlugin_issues (law : Plugin.Issuing P) (c : Call) (ps : List P) (cx : Cx) :
    let r := forEachPlugin (fun p cx => ((Plugin.call p cx c).1, (Plugin.call p cx c).2.1)) ps cx
    Issues cx.nextToken cx.effects r.2.nextToken r.2.effects := by
  induction ps generalizing cx with
  | nil => exact .refl _ _
  | cons p ps ih => exact (law p cx c).trans (ih _)

/-- A call of one plugin gives out new tokens only, and so leaves older ones to whom they are owed. -/
theorem Exec.callPlugin_owner (law : Plugin.Issuing P) {s : Exec X P} {idx : ℕ} {cx : Cx} {c : Call}
    {τ : EffectToken} {o : Option ℕ} (heffects : cx.effects = [])
    (htoken : cx.nextToken = s.core.nextToken)
    (hs : s.core.effectOwner[τ]? = o ∧ τ ≤ s.core.nextToken) :
    (s.callPlugin idx cx fun p cx => Plugin.call p cx c).1.core.effectOwner[τ]? = o ∧
      τ ≤ (s.callPlugin idx cx fun p cx => Plugin.call p cx c).1.core.nextToken := by
  cases hp : s.core.plugins[idx]? with
  | none =>
    unfold callPlugin
    rw [hp]
    exact hs
  | some p =>
    obtain ⟨new, herrands, -⟩ := s.callPlugin_spec cx (fun p cx => Plugin.call p cx c) hp
    obtain ⟨ht, ho, -⟩ := core_of_errands herrands
    have hact := law p cx c
    rw [heffects, htoken] at hact
    rw [ht, ho]
    refine ⟨(owing_of_notMem ?_ _).trans hs.1, hs.2.trans hact.le⟩
    intro e he
    exact absurd hs.2 (Nat.not_le_of_lt (hact.bounds he).1)

namespace Rounds
variable {i : Core.Input X} {s₀ s t : Exec X P}

theorem issues (law : Plugin.Issuing P) (h : Rounds i s₀ s t) :
    Issues s.core.nextToken (asked s.actions) t.core.nextToken (asked t.actions) := by
  have same : ∀ {s t : Exec X P}, t.core.nextToken = s.core.nextToken →
      asked t.actions = asked s.actions →
      Issues s.core.nextToken (asked s.actions) t.core.nextToken (asked t.actions) := by
    intro s t htoken hasked
    rw [htoken, hasked]
    exact .refl _ _
  have called : ∀ {s : Exec X P} {idx : ℕ} {cx : Cx} {c : Call}, cx.effects = [] →
      cx.nextToken = s.core.nextToken → Issues s.core.nextToken (asked s.actions)
        (s.callPlugin idx cx fun p cx => Plugin.call p cx c).1.core.nextToken
        (asked (s.callPlugin idx cx fun p cx => Plugin.call p cx c).1.actions) := by
    intro s idx cx c heffects htoken
    cases hp : s.core.plugins[idx]? with
    | none =>
      unfold Exec.callPlugin
      rw [hp]
      exact .refl _ _
    | some p =>
      obtain ⟨new, herrands, -, hasked, -⟩ :=
        s.callPlugin_spec cx (fun p cx => Plugin.call p cx c) hp
      have hact := law p cx c
      rw [heffects, htoken] at hact
      rw [(Exec.core_of_errands herrands).1, hasked]
      exact hact.append _
  induction h with
  | calm h => exact same (Exec.core_of_errands h.errands).1 h.asked
  | released _ errands hasked => exact same (Exec.core_of_errands errands).1 hasked
  | called due => exact called due.effects.1 due.effects.2
  | @calledAll s c hc _ =>
    obtain ⟨new, herrands, -, hasked, -⟩ := s.callAllPlugins_spec i.now.monotonicMs fun p cx =>
      ((Plugin.call p cx c).1, (Plugin.call p cx c).2.1)
    rw [(Exec.core_of_errands herrands).1, hasked]
    exact (forEachPlugin_issues law c s.core.plugins (s.cx i.now.monotonicMs)).append _
  | @refused s l u session env heard code =>
    obtain ⟨as, has, hp⟩ := (s.sendError_plain u.peer env code).2
    refine same (Exec.core_of_errands (s.dispatchSend_errands _)).1 ?_
    rw [has, asked_append, asked_of_plain hp, List.append_nil]
  | @settled s token result idx _ _ _ =>
    exact called (s := { s with core.effectOwner := s.core.effectOwner.erase token }) rfl rfl
  | trans _ _ ih ih' => exact ih.trans ih'

/-- Tokens are only given out. -/
theorem token_le (law : Plugin.Issuing P) (h : Rounds i s₀ s t) :
    s.core.nextToken ≤ t.core.nextToken := (h.issues law).le

/-- Who is owed the result of an effect stays so until it comes in. -/
theorem owner_kept (law : Plugin.Issuing P) (h : Rounds i s₀ s t) {τ : EffectToken} {o : Option ℕ}
    (free : o = none ∨ ∀ result, i.event ≠ .effectDone τ result)
    (hs : s.core.effectOwner[τ]? = o ∧ τ ≤ s.core.nextToken) :
    t.core.effectOwner[τ]? = o ∧ τ ≤ t.core.nextToken := by
  induction h with
  | calm h =>
    obtain ⟨ht, ho, -⟩ := Exec.core_of_errands h.errands
    rw [ht, ho]
    exact hs
  | released plugins errands =>
    obtain ⟨ht, ho, -⟩ := Exec.core_of_errands errands
    rw [ht, ho]
    exact hs
  | called due => exact Exec.callPlugin_owner law due.effects.1 due.effects.2 hs
  | @calledAll s c hc _ =>
    obtain ⟨new, herrands, -⟩ := s.callAllPlugins_spec i.now.monotonicMs fun p cx =>
      ((Plugin.call p cx c).1, (Plugin.call p cx c).2.1)
    obtain ⟨ht, ho, -⟩ := Exec.core_of_errands herrands
    rw [ht, ho]
    exact ⟨hs.1, hs.2.trans
      (forEachPlugin_issues law c s.core.plugins (s.cx i.now.monotonicMs)).le⟩
  | @refused s l u session env heard code =>
    obtain ⟨ht, ho, -⟩ := Exec.core_of_errands (s.dispatchSend_errands
      (Exec.errorReply X u.peer env code))
    rw [Exec.sendError_eq, ht, ho]
    exact hs
  | @settled s token result idx event _ _ =>
    refine Exec.callPlugin_owner (s := { s with core.effectOwner := s.core.effectOwner.erase token })
      law rfl rfl ?_
    refine ⟨?_, hs.2⟩
    change (s.core.effectOwner.erase token)[τ]? = o
    by_cases hτ : τ = token
    · subst hτ
      rcases free with rfl | free
      · exact ExtTreeMap.getElem?_erase_self
      · exact absurd event (free result)
    · exact (Lib.getElem?_erase_of_ne hτ).trans hs.1
  | trans _ _ ih ih' => exact ih' (ih hs)

/-- Whoever is owed a result asked for the effect before, or asked for it in this step. -/
theorem owned (h : Rounds i s₀ s t) :
    (∀ e ∈ asked s.actions, e ∈ asked t.actions) ∧
      ∀ (τ : EffectToken) (idx : ℕ), t.core.effectOwner[τ]? = some idx →
        s.core.effectOwner[τ]? = some idx ∨ ∃ e, (τ, e) ∈ asked t.actions := by
  have called : ∀ {s : Exec X P} {idx : ℕ} {cx : Cx} {c : Call},
      (∀ e ∈ asked s.actions,
        e ∈ asked (s.callPlugin idx cx fun p cx => Plugin.call p cx c).1.actions) ∧
      ∀ (τ : EffectToken) (k : ℕ),
        (s.callPlugin idx cx fun p cx => Plugin.call p cx c).1.core.effectOwner[τ]? = some k →
        s.core.effectOwner[τ]? = some k ∨
          ∃ e, (τ, e) ∈ asked (s.callPlugin idx cx fun p cx => Plugin.call p cx c).1.actions := by
    intro s idx cx c
    cases hp : s.core.plugins[idx]? with
    | none =>
      unfold Exec.callPlugin
      rw [hp]
      exact ⟨fun _ h => h, fun τ k hk => .inl hk⟩
    | some p =>
      obtain ⟨new, herrands, -, hasked, -⟩ :=
        s.callPlugin_spec cx (fun p cx => Plugin.call p cx c) hp
      rw [(Exec.core_of_errands herrands).2.1, hasked]
      refine ⟨fun e he => List.mem_append_left _ he, fun τ k hk => ?_⟩
      by_cases hnew : ∃ e, (τ, e) ∈ (Plugin.call p cx c).2.1.effects
      · obtain ⟨e, he⟩ := hnew
        exact .inr ⟨e, List.mem_append_right _ he⟩
      · have hkeep : (Exec.owing idx s.core.effectOwner (Plugin.call p cx c).2.1.effects)[τ]? =
            s.core.effectOwner[τ]? := Exec.owing_of_notMem (fun e he => hnew ⟨e, he⟩) _
        exact .inl (hkeep.symm.trans hk)
  induction h with
  | calm h =>
    rw [(Exec.core_of_errands h.errands).2.1, h.asked]
    exact ⟨fun _ h => h, fun τ k hk => .inl hk⟩
  | released plugins errands hasked =>
    rw [(Exec.core_of_errands errands).2.1, hasked]
    exact ⟨fun _ h => h, fun τ k hk => .inl hk⟩
  | called due => exact called
  | @calledAll s c hc _ =>
    obtain ⟨new, herrands, -, hasked, -⟩ := s.callAllPlugins_spec i.now.monotonicMs fun p cx =>
      ((Plugin.call p cx c).1, (Plugin.call p cx c).2.1)
    rw [(Exec.core_of_errands herrands).2.1, hasked]
    exact ⟨fun e he => List.mem_append_left _ he, fun τ k hk => .inl hk⟩
  | @refused s l u session env heard code =>
    obtain ⟨as, has, hp⟩ := (s.dispatchSend_plain (Exec.errorReply X u.peer env code)).2
    rw [Exec.sendError_eq, (Exec.core_of_errands (s.dispatchSend_errands _)).2.1, has, asked_append,
      asked_of_plain hp, List.append_nil]
    exact ⟨fun _ h => h, fun τ k hk => .inl hk⟩
  | @settled s token result idx _ _ _ =>
    obtain ⟨hmono, howned⟩ := @called
      { s with core.effectOwner := s.core.effectOwner.erase token } idx (s.cx i.now.monotonicMs)
      (.effectResult token result)
    refine ⟨hmono, fun τ k hk => ?_⟩
    rcases howned τ k hk with hold | hnew
    · exact .inl (Lib.getElem?_of_erase hold).2
    · exact .inr hnew
  | trans _ _ ih ih' =>
    refine ⟨fun e he => ih'.1 e (ih.1 e he), fun τ k hk => ?_⟩
    rcases ih'.2 τ k hk with hmid | hnew
    · rcases ih.2 τ k hmid with hold | ⟨e, he⟩
      · exact .inl hold
      · exact .inr ⟨e, ih'.1 _ he⟩
    · exact .inr hnew

end Rounds

namespace Core
variable {c : Core X P} {i : Input X} {t : EffectToken} {result : EffectResult}

def AskedFor (c : Core X P) (t : EffectToken) (is : List (Input X)) : Prop :=
  ∃ pre j post e, is = pre ++ j :: post ∧ (t, e) ∈ asked ((c.run pre).handle j).2.actions

theorem asked_issued (law : Plugin.Issuing P) {e : Effect}
    (h : (t, e) ∈ asked (c.handle i).2.actions) : c.nextToken < t ∧ t ≤ (c.step i).nextToken :=
  ((c.exec_rounds i).issues law).bounds h

theorem token_le_run (law : Plugin.Issuing P) (is : List (Input X)) :
    c.nextToken ≤ (c.run is).nextToken := by
  have hstep : ∀ (d : Core X P) (i : Input X), c.nextToken ≤ d.nextToken →
      c.nextToken ≤ (d.step i).nextToken := by
    intro d i hd
    have hgrow : d.nextToken ≤ (d.step i).nextToken := (d.exec_rounds i).token_le law
    exact hd.trans hgrow
  exact Lib.run_inv hstep le_rfl is

theorem AskedFor.le (law : Plugin.Issuing P) {is : List (Input X)} (h : c.AskedFor t is) :
    t ≤ (c.run is).nextToken := by
  obtain ⟨pre, j, post, e, rfl, he⟩ := h
  have hrun : c.run (pre ++ j :: post) = ((c.run pre).step j).run post :=
    Lib.run_append step c pre (j :: post)
  rw [hrun]
  exact (asked_issued law he).2.trans (token_le_run law post)

theorem owned_asked {c₀ : Core X P} (none : c₀.effectOwner = ∅) {is : List (Input X)}
    {idx : ℕ} (h : (c₀.run is).effectOwner[t]? = some idx) : c₀.AskedFor t is := by
  induction is using List.reverseRecOn generalizing idx with
  | nil =>
    have hnone : c₀.effectOwner[t]? = some idx := h
    rw [none, ExtTreeMap.getElem?_empty] at hnone
    cases hnone
  | append_singleton is j ih =>
    have hlast : c₀.run (is ++ [j]) = (c₀.run is).step j := Lib.run_append step c₀ is [j]
    rw [hlast] at h
    rcases ((c₀.run is).exec_rounds j).owned.2 t idx h with hold | ⟨e, he⟩
    · obtain ⟨pre, k, post, e, rfl, he⟩ := ih hold
      exact ⟨pre, k, post ++ [j], e, by simp, he⟩
    · exact ⟨is, j, [], e, rfl, he⟩

theorem unowned_run (law : Plugin.Issuing P) {is : List (Input X)}
    (h : c.effectOwner[t]? = none ∧ t ≤ c.nextToken) :
    (c.run is).effectOwner[t]? = none ∧ t ≤ (c.run is).nextToken := by
  have hstep : ∀ (d : Core X P) (i : Input X), d.effectOwner[t]? = none ∧ t ≤ d.nextToken →
      (d.step i).effectOwner[t]? = none ∧ t ≤ (d.step i).nextToken :=
    fun d i hd => (d.exec_rounds i).owner_kept (s := d.start i) law (.inl rfl) hd
  exact Lib.run_inv hstep h is

/-- A result nobody is owed is ignored altogether. -/
theorem exec_unowned (h : c.effectOwner[t]? = none) (he : i.event = .effectDone t result) :
    c.exec i = c.start i := by
  unfold exec
  rw [he]
  dsimp only [Exec.onEvent]
  unfold Exec.onEffectDone
  rw [h]
  rfl

theorem exec_owned {idx : ℕ} (h : c.effectOwner[t]? = some idx)
    (he : i.event = .effectDone t result) :
    c.exec i = (Exec.callPlugin { c.start i with core.effectOwner := c.effectOwner.erase t } idx
      ((c.start i).cx i.now.monotonicMs) fun p cx =>
        Plugin.call p cx (.effectResult t result)).1 := by
  unfold exec
  rw [he]
  dsimp only [Exec.onEvent]
  unfold Exec.onEffectDone
  rw [h]
  exact Exec.callPlugin_congr idx _ (fun p cx => Plugin.call p cx (.effectResult t result))
    fun p => by simp [Plugin.call]

/-- A result that was brought is owed to nobody any more. -/
theorem owner_settled (law : Plugin.Issuing P) {idx : ℕ} (h : c.effectOwner[t]? = some idx)
    (hle : t ≤ c.nextToken) (he : i.event = .effectDone t result) :
    (c.step i).effectOwner[t]? = none := by
  change (c.exec i).core.effectOwner[t]? = none
  rw [exec_owned h he]
  exact (Exec.callPlugin_owner law rfl rfl ⟨ExtTreeMap.getElem?_erase_self, hle⟩).1

end Core
end Step
end Acrylius
