import Acrylius.Core.Partings
import Acrylius.Plugins.Replies

/-! The way back of an effect: the plugin that asked for it is told its result, once. -/
namespace Acrylius
open Proto Std

variable {X : Crates} {P : Type}

def Call.brings : Call → Option EffectToken
  | .effectResult t _ => some t
  | _ => none

def Event.brings : Event → Option EffectToken
  | .effectDone t _ => some t
  | _ => none

/-- An event that brings a result is an `effectDone`. -/
theorem Event.of_brings {e : Event} {t : EffectToken} (h : e.brings = some t) :
    ∃ result, e = .effectDone t result := by
  cases e with
  | effectDone t' result =>
    obtain rfl := Option.some.inj h
    exact ⟨result, rfl⟩
  | _ => cases h

/-- A plugin that also writes down which effects it asked for and which results it was told. -/
structure Noted (P : Type) where
  inner : P
  asked : List EffectToken
  told : List EffectToken

namespace Noted

def added (cx cx' : Cx) : List EffectToken := (cx'.effects.drop cx.effects.length).map (·.1)

def after (p : Noted P) (cx : Cx) (q : P) (cx' : Cx) : Noted P :=
  { p with inner := q, asked := p.asked ++ added cx cx' }

instance [Plugin P] : Plugin (Noted P) where
  manifest p := Plugin.manifest p.inner
  onMessage p cx peer env :=
    let (q, cx', r) := Plugin.onMessage p.inner cx peer env
    (p.after cx q cx', cx', r)
  onPeerConnected p cx peer :=
    let (q, cx') := Plugin.onPeerConnected p.inner cx peer
    (p.after cx q cx', cx')
  onPeerDisconnected p cx peer :=
    let (q, cx') := Plugin.onPeerDisconnected p.inner cx peer
    (p.after cx q cx', cx')
  onLocal p cx peer ty body :=
    let (q, cx', r) := Plugin.onLocal p.inner cx peer ty body
    (p.after cx q cx', cx', r)
  onEffectResult p cx token result :=
    let (q, cx') := Plugin.onEffectResult p.inner cx token result
    ({ p.after cx q cx' with told := p.told ++ [token] }, cx')
  onBulkListening p cx transfer endpoint :=
    let (q, cx') := Plugin.onBulkListening p.inner cx transfer endpoint
    (p.after cx q cx', cx')
  onBulkFinished p cx transfer ok detail :=
    let (q, cx') := Plugin.onBulkFinished p.inner cx transfer ok detail
    (p.after cx q cx', cx')
  onTick p cx :=
    let (q, cx') := Plugin.onTick p.inner cx
    (p.after cx q cx', cx')

variable [Plugin P]

theorem call_eq (p : Noted P) (cx : Cx) (c : Call) :
    Plugin.call p cx c =
      (⟨(Plugin.call p.inner cx c).1, p.asked ++ added cx (Plugin.call p.inner cx c).2.1,
        p.told ++ c.brings.toList⟩, (Plugin.call p.inner cx c).2) := by
  cases c <;> simp [Plugin.call, Plugin.onMessage, Plugin.onPeerConnected, Plugin.onPeerDisconnected,
    Plugin.onLocal, Plugin.onEffectResult, Plugin.onBulkListening, Plugin.onBulkFinished,
    Plugin.onTick, after, Call.brings]

theorem issuing (law : Plugin.Issuing P) : Plugin.Issuing (Noted P) := by
  intro p cx c
  rw [call_eq]
  exact law p.inner cx c

end Noted

def CoreBuilder.noted (b : CoreBuilder X P) : CoreBuilder X (Noted P) :=
  { b with plugins := b.plugins.map (⟨·, [], []⟩) }

theorem forEachPlugin_forall₂ [Plugin P] {R : P → P → Prop} {c : Call} (ps : List P) (cx : Cx)
    (h : ∀ p ∈ ps, ∀ cx, R p (Plugin.call p cx c).1) :
    List.Forall₂ R ps (forEachPlugin (fun p cx =>
      ((Plugin.call p cx c).1, (Plugin.call p cx c).2.1)) ps cx).1 := by
  induction ps generalizing cx with
  | nil => exact .nil
  | cons p ps ih =>
    have hfirst : R p (Plugin.call p cx c).1 := h p List.mem_cons_self cx
    have hrest : ∀ q ∈ ps, ∀ cx, R q (Plugin.call q cx c).1 :=
      fun q hq => h q (List.mem_cons_of_mem _ hq)
    exact .cons hfirst (ih _ hrest)

namespace Core
variable [Plugin P]

def tellings (c : Core X (Noted P)) (k : ℕ) (t : EffectToken) : ℕ :=
  (c.plugins[k]?.map fun p => p.told.count t).getD 0

def broughtBy (t : EffectToken) (js : List (Input X)) : Bool :=
  js.any fun j => j.event.brings = some t

/-- What the effects of one step are owed: tokens of their own, and that the plugin that asked for
each of them is told its first result, once, and nobody is told any other. -/
structure WayBack (c₀ : Core X (Noted P)) (before : List (Input X)) (i : Input X) : Prop where
  distinct : ((Acrylius.asked ((c₀.run before).handle i).2.actions).map (·.1)).Nodup
  fresh : ∀ t e, (t, e) ∈ Acrylius.asked ((c₀.run before).handle i).2.actions →
    ¬ c₀.AskedFor t before
  owned : ∀ t e, (t, e) ∈ Acrylius.asked ((c₀.run before).handle i).2.actions →
    ∃ idx p, ((c₀.run before).step i).effectOwner[t]? = some idx ∧
      ((c₀.run before).step i).plugins[idx]? = some p ∧ t ∈ p.asked ∧
      ∀ (js : List (Input X)) (k : ℕ), (((c₀.run before).step i).run js).tellings k t =
        if k = idx ∧ broughtBy t js then 1 else 0
  ignored : ∀ t e, (t, e) ∈ Acrylius.asked ((c₀.run before).handle i).2.actions →
    ∀ (js : List (Input X)) (j : Input X), broughtBy t js → j.event.brings = some t →
      (((c₀.run before).step i).run js).exec j = (((c₀.run before).step i).run js).start j

end Core

section Told
variable [Plugin P]

theorem map_set_of_eq {α β : Type} (f : α → β) {as : List α} {n : ℕ} {a b : α}
    (h : as[n]? = some a) (hf : f b = f a) : (as.set n b).map f = as.map f := by
  have hn : (as.map f)[n]? = some (f a) := by rw [List.getElem?_map, h]; rfl
  obtain ⟨hlt, hget⟩ := List.getElem?_eq_some_iff.mp hn
  rw [List.map_set, hf, ← hget, List.set_getElem_self]

theorem Exec.callPlugin_told (s : Exec X (Noted P)) (idx : ℕ) (cx : Cx) {c : Call} {t : EffectToken}
    (h : c.brings ≠ some t) :
    (s.callPlugin idx cx fun p cx => Plugin.call p cx c).1.core.plugins.map (·.told.count t) =
      s.core.plugins.map (·.told.count t) := by
  cases hp : s.core.plugins[idx]? with
  | none =>
    unfold callPlugin
    rw [hp]
  | some p =>
    rw [(s.callPlugin_kept cx (fun p cx => Plugin.call p cx c) hp).1]
    apply map_set_of_eq _ hp
    rw [p.call_eq, List.count_append]
    have hnone : c.brings.toList.count t = 0 := by
      apply List.count_eq_zero_of_not_mem
      intro hmem
      exact h (Option.mem_toList.mp hmem)
    rw [hnone]
    rfl

theorem Rounds.told {i : Core.Input X} {s₀ s t : Exec X (Noted P)} (h : Rounds i s₀ s t)
    {τ : EffectToken} (free : i.event.brings ≠ some τ) :
    t.core.plugins.map (·.told.count τ) = s.core.plugins.map (·.told.count τ) := by
  induction h with
  | calm h => rw [h.plugins]
  | released plugins => rw [plugins]
  | @called s idx cx c due other =>
    apply s.callPlugin_told
    cases c with
    | effectResult token result => exact absurd rfl (other token result)
    | message | connected | disconnected | request | bulkListening | bulkFinished | tick =>
      exact nofun
  | @calledAll s c hc _ =>
    rw [(s.callAllPlugins_kept _ _).1]
    have hquiet : c.brings = none := by
      cases c with
      | connected | disconnected | tick => rfl
      | message | request | effectResult | bulkListening | bulkFinished => cases hc
    have hall := forEachPlugin_forall₂ (R := fun p q => q.told.count τ = p.told.count τ) (c := c)
      s.core.plugins (s.cx i.now.monotonicMs) fun p _ cx => by
        rw [p.call_eq, hquiet]
        simp
    generalize (forEachPlugin _ s.core.plugins (s.cx i.now.monotonicMs)).1 = qs at hall ⊢
    generalize s.core.plugins = ps at hall ⊢
    induction hall with
    | nil => rfl
    | cons hfirst _ ih => rw [List.map_cons, List.map_cons, ih, hfirst]
  | @refused s l u session env heard code =>
    have hplugins : (s.sendError u.peer env code).core.plugins = s.core.plugins :=
      congrArg Ledger.plugins (s.sendError_plain u.peer env code).1
    rw [hplugins]
  | @settled s token result idx event _ _ =>
    have hbrings : (Call.effectResult token result).brings ≠ some τ := by
      rw [event] at free
      exact free
    exact Exec.callPlugin_told { s with core.effectOwner := s.core.effectOwner.erase token } idx
      (s.cx i.now.monotonicMs) hbrings
  | trans _ _ ih ih' => exact ih'.trans ih

end Told

namespace Core
variable [Plugin P] {c d : Core X (Noted P)} {i : Input X} {t : EffectToken}

omit [Plugin P] in
theorem tellings_congr (h : d.plugins.map (·.told.count t) = c.plugins.map (·.told.count t)) (k : ℕ) :
    d.tellings k t = c.tellings k t := by
  have hk := congrArg (·[k]?.getD 0) h
  simp only [List.getElem?_map] at hk
  exact hk

theorem tellings_step (h : i.event.brings ≠ some t) (k : ℕ) :
    (c.step i).tellings k t = c.tellings k t :=
  tellings_congr ((c.exec_rounds i).told h) k

theorem free_of_brings (h : i.event.brings ≠ some t) : ∀ result, i.event ≠ .effectDone t result := by
  intro result he
  rw [he] at h
  exact h rfl

theorem step_unowned (h : c.effectOwner[t]? = none) (he : i.event.brings = some t) :
    (c.step i).plugins = c.plugins := by
  obtain ⟨result, he⟩ := Event.of_brings he
  change (c.exec i).core.plugins = _
  rw [exec_unowned h he]
  rfl

/-- The plugin that is owed a result is told it, and nobody else. -/
theorem tellings_owned {idx : ℕ} {p : Noted P} (h : c.effectOwner[t]? = some idx)
    (hp : c.plugins[idx]? = some p) (he : i.event.brings = some t) (k : ℕ) :
    (c.step i).tellings k t = if k = idx then c.tellings k t + 1 else c.tellings k t := by
  obtain ⟨result, he⟩ := Event.of_brings he
  have hkept := (Exec.callPlugin_kept { c.start i with core.effectOwner := c.effectOwner.erase t }
    ((c.start i).cx i.now.monotonicMs)
    (fun p cx => Plugin.call p cx (.effectResult t result)) hp).1
  have hplugins : (c.step i).plugins = c.plugins.set idx
      (Plugin.call p ((c.start i).cx i.now.monotonicMs) (.effectResult t result)).1 := by
    change (c.exec i).core.plugins = _
    rw [exec_owned h he]
    exact hkept
  unfold tellings
  rw [hplugins]
  by_cases hk : k = idx
  · subst hk
    have hlt : k < c.plugins.length := (List.getElem?_eq_some_iff.mp hp).1
    rw [if_pos rfl, List.getElem?_set_self hlt, hp, p.call_eq]
    simp [Call.brings]
  · rw [if_neg hk, List.getElem?_set_ne (Ne.symm hk)]

/-- An effect on its way back: its result has not come in and is owed to a plugin, or it has come in,
once told to that plugin. -/
structure Underway (c : Core X (Noted P)) (t : EffectToken) (idx : ℕ) (brought : Bool) : Prop where
  issued : t ≤ c.nextToken
  told : ∀ k, c.tellings k t = if k = idx ∧ brought then 1 else 0
  waits : brought = false → c.effectOwner[t]? = some idx ∧ ∃ p, c.plugins[idx]? = some p
  done : brought = true → c.effectOwner[t]? = none

/-- Every step keeps an effect on its way back, and the first to bring its result completes it. -/
theorem Underway.step (law : Plugin.Issuing P) {idx : ℕ} {brought : Bool}
    (h : c.Underway t idx brought) (i : Input X) :
    (c.step i).Underway t idx (brought || i.event.brings = some t) := by
  have hrounds := c.exec_rounds i
  have hissued : t ≤ (c.step i).nextToken :=
    h.issued.trans (hrounds.token_le (Noted.issuing law))
  by_cases hbrings : i.event.brings = some t
  · obtain ⟨result, he⟩ := Event.of_brings hbrings
    rw [decide_eq_true hbrings, Bool.or_true]
    cases brought with
    | true =>
      have hnone := h.done rfl
      have hkept := hrounds.owner_kept (s := c.start i) (Noted.issuing law) (.inl rfl)
        ⟨hnone, h.issued⟩
      refine ⟨hissued, fun k => ?_, nofun, fun _ => hkept.1⟩
      rw [tellings_congr (congrArg _ (step_unowned hnone hbrings)), h.told k]
    | false =>
      obtain ⟨howner, p, hp⟩ := h.waits rfl
      refine ⟨hissued, fun k => ?_, nofun, fun _ => ?_⟩
      · rw [tellings_owned howner hp hbrings, h.told k]
        simp
      · exact owner_settled (Noted.issuing law) howner h.issued he
  · have hkept := hrounds.owner_kept (s := c.start i) (Noted.issuing law)
      (.inr (free_of_brings hbrings)) ⟨rfl, h.issued⟩
    have hplugins : (c.step i).plugins.length = c.plugins.length := by
      have htold := congrArg List.length (hrounds.told hbrings)
      simp only [List.length_map] at htold
      exact htold
    rw [decide_eq_false hbrings, Bool.or_false]
    refine ⟨hissued, fun k => ?_, fun hb => ?_, fun hb => ?_⟩
    · rw [tellings_step hbrings, h.told k]
    · obtain ⟨howner, p, hp⟩ := h.waits hb
      have hlt : idx < (c.step i).plugins.length := by
        rw [hplugins]
        exact (List.getElem?_eq_some_iff.mp hp).1
      exact ⟨hkept.1.trans howner, _, List.getElem?_eq_getElem hlt⟩
    · exact hkept.1.trans (h.done hb)

theorem Underway.run (law : Plugin.Issuing P) {idx : ℕ} {brought : Bool}
    (h : c.Underway t idx brought) (js : List (Input X)) :
    (c.run js).Underway t idx (brought || broughtBy t js) := by
  induction js generalizing c brought with
  | nil =>
    rw [broughtBy, List.any_nil, Bool.or_false]
    exact h
  | cons j js ih =>
    have hrest := ih (h.step law j)
    rw [Bool.or_assoc] at hrest
    exact hrest

end Core

/-- The peer whose stroke a plugin is carrying out. -/
def Builtin.stroke : Builtin X → Option DeviceId
  | .touchpad p => p.owner
  | _ => none

namespace Builtin

theorem connected_effects (p : Builtin X) (cx : Cx) (peer : DeviceId) :
    (Plugin.onPeerConnected p cx peer).2.effects = cx.effects := by
  cases p with
  | session p =>
    change (p.onPeerConnected cx peer).2.effects = _
    unfold SessionPlugin.onPeerConnected
    cases p.last with
    | none => rfl
    | some state => rfl
  | media p =>
    change (p.onPeerConnected cx peer).2.effects = _
    unfold MediaPlugin.onPeerConnected
    cases p.last with
    | none => rfl
    | some state => rfl
  | command p =>
    change (p.onPeerConnected cx peer).2.effects = _
    unfold CommandPlugin.onPeerConnected
    by_cases hempty : p.catalog = []
    · rw [if_pos hempty]
    · rw [if_neg hempty]
      rfl
  | wol p =>
    change (p.onPeerConnected cx peer).2.effects = _
    unfold WolPlugin.onPeerConnected
    by_cases hempty : p.config.macs = []
    · rw [if_pos hempty]
    · rw [if_neg hempty]
      rfl
  | touchpad p =>
    change (p.onPeerConnected cx peer).2.effects = _
    unfold TouchpadPlugin.onPeerConnected
    by_cases hserves : cx.serves .touchpad
    · rw [if_pos hserves]
      rfl
    · rw [if_neg hserves]
  | clipboard | ping | share => rfl

theorem disconnected_effects (p : Builtin X) (cx : Cx) {peer : DeviceId}
    (h : p.stroke ≠ some peer) : (Plugin.onPeerDisconnected p cx peer).2.effects = cx.effects := by
  cases p with
  | touchpad p =>
    change (p.onPeerDisconnected cx peer).2.effects = _
    unfold TouchpadPlugin.onPeerDisconnected
    have howner : p.owner ≠ some peer := h
    rw [if_neg howner]
  | clipboard | command | media | ping | session | share | wol => rfl

/-- The finger of a peer that is gone is lifted. -/
theorem disconnected_lifts (p : Builtin X) (cx : Cx) {peer : DeviceId} (h : p.stroke = some peer) :
    ∃ e, (Plugin.onPeerDisconnected p cx peer).2.effects = cx.effects ++ [e] := by
  cases p with
  | touchpad p =>
    have howner : p.owner = some peer := h
    refine ⟨(cx.nextToken + 1, .touchpad (p.order + 1) .end), ?_⟩
    change (p.onPeerDisconnected cx peer).2.effects = _
    unfold TouchpadPlugin.onPeerDisconnected
    rw [if_pos howner]
    rfl
  | clipboard | command | media | ping | session | share | wol => cases h

/-- Of the calls that every plugin gets, one asks for an effect: the end of the stroke of a peer that
is gone. -/
theorem forAll_effects (p : Builtin X) (cx : Cx) {c : Call} (hc : c.forAll)
    (h : ∀ peer, c = .disconnected peer → p.stroke ≠ some peer) :
    (Plugin.call p cx c).2.1.effects = cx.effects := by
  cases c with
  | connected peer => exact p.connected_effects cx peer
  | disconnected peer => exact p.disconnected_effects cx (h peer rfl)
  | tick => cases p <;> rfl
  | message | request | effectResult | bulkListening | bulkFinished => cases hc

theorem stroke_call (p : Builtin X) (cx : Cx) {c : Call}
    (h : ∀ peer env, c ≠ .message peer env) :
    (Plugin.call p cx c).1.stroke = p.stroke ∨ (Plugin.call p cx c).1.stroke = none := by
  cases p with
  | touchpad p =>
    cases c with
    | message peer env => exact absurd rfl (h peer env)
    | disconnected peer =>
      change (p.onPeerDisconnected cx peer).1.owner = p.owner ∨
        (p.onPeerDisconnected cx peer).1.owner = none
      unfold TouchpadPlugin.onPeerDisconnected
      split
      · exact .inr rfl
      · exact .inl rfl
    | request peer ty body =>
      left
      change (p.onLocal cx peer ty body).1.owner = p.owner
      unfold TouchpadPlugin.onLocal
      split <;> rfl
    | connected | effectResult | bulkListening | bulkFinished | tick => exact .inl rfl
  | clipboard | command | media | ping | session | share | wol =>
    left
    cases c <;> rfl

end Builtin

namespace Core

/-- The peer that is gone after this event, if any, has no stroke underway. -/
def Attended (c : Core X (Noted (Builtin X))) (i : Input X) : Prop :=
  ∀ peer, c.parts i = some peer → ∀ p ∈ c.plugins, p.inner.stroke ≠ some peer

/-- Every effect asked for so far is owed to the plugin that asked for it. -/
structure Owing (s : Exec X (Noted P)) : Prop where
  issued : ∀ e ∈ asked s.actions, e.1 ≤ s.core.nextToken
  owned : ∀ e ∈ asked s.actions, ∃ idx p, s.core.effectOwner[e.1]? = some idx ∧
    s.core.plugins[idx]? = some p ∧ e.1 ∈ p.asked

end Core

open Acrylius.Core

theorem Core.Owing.congr {s t : Exec X (Noted P)} (h : Owing s)
    (plugins : t.core.plugins = s.core.plugins) (errands : t.errands = s.errands)
    (hasked : asked t.actions = asked s.actions) : Owing t := by
  obtain ⟨htoken, howner, -⟩ := Exec.core_of_errands errands
  constructor
  · rw [hasked, htoken]
    exact h.issued
  · rw [hasked, howner, plugins]
    exact h.owned

theorem Core.Owing.called [Plugin P] (law : Plugin.Issuing P) {s : Exec X (Noted P)} (h : Owing s)
    {idx : ℕ} {cx : Cx} {c : Call} (heffects : cx.effects = [])
    (htoken : cx.nextToken = s.core.nextToken) :
    Owing (s.callPlugin idx cx fun p cx => Plugin.call p cx c).1 := by
  cases hp : s.core.plugins[idx]? with
  | none =>
    unfold Exec.callPlugin
    rw [hp]
    exact h
  | some p =>
    obtain ⟨new, herrands, -, hasked, hplugins⟩ :=
      s.callPlugin_spec cx (fun p cx => Plugin.call p cx c) hp
    obtain ⟨ht, ho, -⟩ := Exec.core_of_errands herrands
    have hissues := Noted.issuing law p cx c
    rw [heffects, htoken] at hissues
    have hlt : idx < s.core.plugins.length := (List.getElem?_eq_some_iff.mp hp).1
    constructor
    · rw [hasked, ht]
      intro e he
      rcases List.mem_append.mp he with he | he
      · exact (h.issued e he).trans hissues.le
      · exact (hissues.bounds he).2
    · rw [hasked, ho, hplugins]
      intro e he
      rcases List.mem_append.mp he with he | he
      · obtain ⟨k, q, hk, hq, hmem⟩ := h.owned e he
        have hold : ∀ e', (e.1, e') ∉ (Plugin.call p cx c).2.1.effects := fun e' he' =>
          absurd (h.issued e he) (Nat.not_le_of_lt (hissues.bounds he').1)
        have hkeep : (Exec.owing idx s.core.effectOwner (Plugin.call p cx c).2.1.effects)[e.1]? =
            some k := (Exec.owing_of_notMem hold s.core.effectOwner).trans hk
        by_cases hidx : k = idx
        · subst hidx
          obtain rfl := Option.some.inj (hq.symm.trans hp)
          refine ⟨k, _, hkeep, List.getElem?_set_self hlt, ?_⟩
          rw [q.call_eq]
          exact List.mem_append_left _ hmem
        · refine ⟨k, q, hkeep, ?_, hmem⟩
          rw [List.getElem?_set_ne (Ne.symm hidx)]
          exact hq
      · refine ⟨idx, _, Exec.owing_of_mem he _, List.getElem?_set_self hlt, ?_⟩
        rw [p.call_eq] at he ⊢
        apply List.mem_append_right
        rw [Noted.added, heffects]
        exact List.mem_map.mpr ⟨e, he, rfl⟩

theorem forEachPlugin_quiet [Plugin P] {c : Call} {ps : List P} (cx : Cx)
    (quiet : ∀ p ∈ ps, ∀ cx, (Plugin.call p cx c).2.1.effects = cx.effects) :
    (forEachPlugin (fun p cx => ((Plugin.call p cx c).1, (Plugin.call p cx c).2.1)) ps
      cx).2.effects = cx.effects := by
  induction ps generalizing cx with
  | nil => rfl
  | cons p ps ih =>
    have hfirst : (Plugin.call p cx c).2.1.effects = cx.effects := quiet p List.mem_cons_self cx
    have hrest := ih (Plugin.call p cx c).2.1 fun q hq => quiet q (List.mem_cons_of_mem _ hq)
    exact hrest.trans hfirst

/-- A round of all plugins that asks for nothing leaves what is owed as it was. -/
theorem Core.Owing.calledAll [Plugin P] (law : Plugin.Issuing P) {s : Exec X (Noted P)}
    (h : Owing s) (nowMs : ℕ) {c : Call}
    (quiet : ∀ p ∈ s.core.plugins, ∀ cx, (Plugin.call p cx c).2.1.effects = cx.effects) :
    Owing (s.callAllPlugins nowMs fun p cx => ((Plugin.call p cx c).1, (Plugin.call p cx c).2.1)) := by
  obtain ⟨new, herrands, -, hasked, hplugins⟩ := s.callAllPlugins_spec nowMs fun p cx =>
    ((Plugin.call p cx c).1, (Plugin.call p cx c).2.1)
  obtain ⟨ht, ho, -⟩ := Exec.core_of_errands herrands
  have heffects := forEachPlugin_quiet (s.cx nowMs) quiet
  have hissues := forEachPlugin_issues (Noted.issuing law) c s.core.plugins (s.cx nowMs)
  have hgrow := forEachPlugin_forall₂ (R := fun p q => ∀ t ∈ p.asked, t ∈ q.asked) (c := c)
    s.core.plugins (s.cx nowMs) fun p _ cx t ht => by
      rw [p.call_eq]
      exact List.mem_append_left _ ht
  rw [heffects] at hasked
  have hsame : asked (s.callAllPlugins nowMs fun p cx =>
      ((Plugin.call p cx c).1, (Plugin.call p cx c).2.1)).actions = asked s.actions :=
    hasked.trans (List.append_nil _)
  constructor
  · rw [hsame, ht]
    exact fun e he => (h.issued e he).trans hissues.le
  · rw [hsame, ho, hplugins]
    intro e he
    obtain ⟨k, q, hk, hq, hmem⟩ := h.owned e he
    obtain ⟨hlt, hget⟩ := List.getElem?_eq_some_iff.mp hq
    have hlen := hgrow.length_eq
    have hlt' : k < (forEachPlugin (fun p cx =>
        ((Plugin.call p cx c).1, (Plugin.call p cx c).2.1)) s.core.plugins (s.cx nowMs)).1.length :=
      hlen ▸ hlt
    refine ⟨k, _, hk, List.getElem?_eq_getElem hlt', ?_⟩
    exact hgrow.get hlt hlt' e.1 (by rw [List.get_eq_getElem, hget]; exact hmem)

theorem Core.Owing.refused [Plugin P] {s : Exec X (Noted P)} (h : Owing s) (peer : DeviceId)
    (env : Envelope) (code : ErrorCode) : Owing (s.sendError peer env code) := by
  have hplain := s.sendError_plain peer env code
  have hplugins : (s.sendError peer env code).core.plugins = s.core.plugins :=
    congrArg Ledger.plugins hplain.1
  obtain ⟨as, has, hp⟩ := hplain.2
  obtain ⟨htoken, howner, -⟩ := Exec.core_of_errands (s.dispatchSend_errands
    (Exec.errorReply X peer env code))
  have hasked : asked (s.sendError peer env code).actions = asked s.actions := by
    rw [has, asked_append, asked_of_plain hp, List.append_nil]
  constructor
  · rw [hasked, Exec.sendError_eq, htoken]
    exact h.issued
  · rw [hasked, hplugins, Exec.sendError_eq, howner]
    exact h.owned

theorem Noted.stroke_call {c : Call} {peer : DeviceId} {p : Noted (Builtin X)} (cx : Cx)
    (hc : ∀ peer env, c ≠ .message peer env) (hp : p.inner.stroke ≠ some peer) :
    (Plugin.call p cx c).1.inner.stroke ≠ some peer := by
  rw [p.call_eq]
  intro h
  rcases p.inner.stroke_call cx hc with hsame | hnone
  · exact hp (hsame.symm.trans h)
  · cases hnone.symm.trans h

theorem Exec.callPlugin_stroke {s : Exec X (Noted (Builtin X))} {idx : ℕ} {cx : Cx} {c : Call}
    {peer : DeviceId} (hc : ∀ peer env, c ≠ .message peer env)
    (hs : ∀ p ∈ s.core.plugins, p.inner.stroke ≠ some peer) :
    ∀ p ∈ (s.callPlugin idx cx fun p cx => Plugin.call p cx c).1.core.plugins,
      p.inner.stroke ≠ some peer := by
  cases hp : s.core.plugins[idx]? with
  | none =>
    unfold Exec.callPlugin
    rw [hp]
    exact hs
  | some p =>
    rw [(s.callPlugin_kept cx (fun p cx => Plugin.call p cx c) hp).1]
    intro q hq
    rcases List.mem_or_eq_of_mem_set hq with hold | rfl
    · exact hs q hold
    · exact p.stroke_call cx hc (hs p (List.mem_of_getElem? hp))

theorem Exec.callAllPlugins_stroke {s : Exec X (Noted (Builtin X))} (nowMs : ℕ) {c : Call}
    {peer : DeviceId} (hc : ∀ peer env, c ≠ .message peer env)
    (hs : ∀ p ∈ s.core.plugins, p.inner.stroke ≠ some peer) :
    ∀ p ∈ (s.callAllPlugins nowMs fun p cx =>
      ((Plugin.call p cx c).1, (Plugin.call p cx c).2.1)).core.plugins,
      p.inner.stroke ≠ some peer := by
  rw [(s.callAllPlugins_kept _ _).1]
  have hall := forEachPlugin_forall₂ (R := fun p q => p.inner.stroke ≠ some peer →
    q.inner.stroke ≠ some peer) (c := c) s.core.plugins (s.cx nowMs)
    fun p _ cx => p.stroke_call cx hc
  intro q hq
  obtain ⟨k, hk, rfl⟩ := List.mem_iff_getElem.mp hq
  have hk' : k < s.core.plugins.length := hall.length_eq ▸ hk
  exact hall.get hk' hk (hs _ (List.getElem_mem hk'))

theorem Due.not_message [Plugin P] {i : Core.Input X} {s₀ s : Exec X P} {idx : ℕ} {cx : Cx}
    {c : Call} (due : Due i s₀ s idx cx c) {gone : DeviceId}
    (hparts : s₀.core.parts i = some gone) (peer : DeviceId) (env : Envelope) :
    c ≠ .message peer env := by
  rintro rfl
  cases due with
  | message event frame link decrypt =>
    unfold Core.parts at hparts
    simp only [event, frame, link, decrypt] at hparts
    cases hparts

/-- Within a step, all effects are owed, and a peer that is gone still has no stroke. -/
theorem Rounds.owing {i : Core.Input X} {s₀ s t : Exec X (Noted (Builtin X))} (h : Rounds i s₀ s t)
    (start : asked s₀.actions = [])
    (hs : Owing s ∧ ∀ peer, s₀.core.parts i = some peer → ∀ p ∈ s.core.plugins,
      p.inner.stroke ≠ some peer) :
    Owing t ∧ ∀ peer, s₀.core.parts i = some peer → ∀ p ∈ t.core.plugins,
      p.inner.stroke ≠ some peer := by
  induction h with
  | calm h =>
    refine ⟨hs.1.congr h.plugins h.errands h.asked, ?_⟩
    rw [h.plugins]
    exact hs.2
  | released plugins errands hasked =>
    refine ⟨hs.1.congr plugins errands hasked, ?_⟩
    rw [plugins]
    exact hs.2
  | @called s idx cx c due other =>
    refine ⟨hs.1.called Builtin.issuing due.effects.1 due.effects.2, fun peer hpeer => ?_⟩
    exact Exec.callPlugin_stroke (due.not_message hpeer) (hs.2 peer hpeer)
  | @calledAll s c hc parted =>
    have hquiet : ∀ p ∈ s.core.plugins, ∀ cx, (Plugin.call p cx c).2.1.effects = cx.effects := by
      intro p hp cx
      rw [p.call_eq]
      apply p.inner.forAll_effects cx hc
      intro peer hdisc
      exact hs.2 peer (parted peer hdisc) p hp
    refine ⟨hs.1.calledAll Builtin.issuing _ hquiet, fun peer hpeer => ?_⟩
    apply Exec.callAllPlugins_stroke _ ?_ (hs.2 peer hpeer)
    rintro peer env rfl
    cases hc
  | @refused s l u session env heard code =>
    refine ⟨hs.1.refused u.peer env code, ?_⟩
    have hplugins : (s.sendError u.peer env code).core.plugins = s.core.plugins :=
      congrArg Ledger.plugins (s.sendError_plain u.peer env code).1
    rw [hplugins]
    exact hs.2
  | @settled s token result idx event state owner =>
    subst state
    -- Nothing has been asked for yet, so nothing is owed when the token is taken.
    have hnone : Owing ({ s with core.effectOwner := s.core.effectOwner.erase token } :
        Exec X (Noted (Builtin X))) := by
      constructor
      · rw [start]
        exact fun e he => absurd he List.not_mem_nil
      · rw [start]
        exact fun e he => absurd he List.not_mem_nil
    refine ⟨hnone.called Builtin.issuing rfl rfl, fun peer hpeer => ?_⟩
    exact Exec.callPlugin_stroke (fun _ _ h => by cases h) (hs.2 peer hpeer)
  | trans _ _ ih ih' => exact ih' (ih hs)

namespace Core
variable {c : Core X (Noted (Builtin X))} {t : EffectToken}

/-- Tokens that were not given out are owed to nobody, and nobody was told of them. -/
structure Unspoken [Plugin P] (c : Core X (Noted P)) : Prop where
  owner : ∀ t idx, c.effectOwner[t]? = some idx → t ≤ c.nextToken
  told : ∀ t k, c.nextToken < t → c.tellings k t = 0

theorem Unspoken.step [Plugin P] (law : Plugin.Issuing P) {c : Core X (Noted P)} (h : c.Unspoken)
    (i : Input X) : (c.step i).Unspoken := by
  have hgrow : c.nextToken ≤ (c.step i).nextToken :=
    (c.exec_rounds i).token_le (Noted.issuing law)
  constructor
  · intro t idx howner
    rcases (c.exec_rounds i).owned.2 t idx howner with hold | ⟨e, he⟩
    · exact (h.owner t idx hold).trans hgrow
    · exact (asked_issued (Noted.issuing law) he).2
  · intro t k hlate
    have hbefore : c.nextToken < t := Nat.lt_of_le_of_lt hgrow hlate
    rw [← h.told t k hbefore]
    by_cases hbrings : i.event.brings = some t
    · have hnone : c.effectOwner[t]? = none := by
        cases howner : c.effectOwner[t]? with
        | none => rfl
        | some idx => exact absurd (h.owner t idx howner) (Nat.not_le_of_lt hbefore)
      exact tellings_congr (congrArg _ (step_unowned hnone hbrings)) k
    · exact tellings_step hbrings k

theorem build_unspoken [Plugin P] (b : CoreBuilder X P) : b.noted.build.Unspoken := by
  constructor
  · intro t idx howner
    have hnone : b.noted.build.effectOwner[t]? = none := ExtTreeMap.getElem?_empty
    rw [hnone] at howner
    cases howner
  · intro t k _
    have hplugins : b.noted.build.plugins = b.plugins.map (⟨·, [], []⟩) := rfl
    unfold tellings
    rw [hplugins, List.getElem?_map]
    cases b.plugins[k]? with
    | none => rfl
    | some p => rfl

/-- An effect asked for in a step is on its way back once the step is over. -/
theorem asked_underway (hc : c.Unspoken) {i : Input X} (attended : c.Attended i) {e : Effect}
    (he : (t, e) ∈ asked (c.handle i).2.actions) :
    ∃ idx p, (c.step i).Underway t idx false ∧ (c.step i).plugins[idx]? = some p ∧ t ∈ p.asked := by
  obtain ⟨hnew, hle⟩ := asked_issued (Noted.issuing Builtin.issuing) he
  have hstart : Owing (c.start i) :=
    ⟨fun e he => absurd he List.not_mem_nil, fun e he => absurd he List.not_mem_nil⟩
  obtain ⟨howing, -⟩ := (c.exec_rounds i).owing rfl ⟨hstart, attended⟩
  obtain ⟨idx, p, howner, hp, hmem⟩ := howing.owned (t, e) he
  -- The event did not bring the result: nobody was owed it, and it would have been ignored.
  have hbrings : i.event.brings ≠ some t := by
    intro hbrings
    obtain ⟨result, hevent⟩ := Event.of_brings hbrings
    have hnone : c.effectOwner[t]? = none := by
      cases hsome : c.effectOwner[t]? with
      | none => rfl
      | some idx => exact absurd (hc.owner t idx hsome) (Nat.not_le_of_lt hnew)
    have hexec : (c.handle i).2.actions = (c.start i).actions :=
      congrArg Exec.actions (exec_unowned hnone hevent)
    rw [hexec] at he
    cases he
  refine ⟨idx, p, ⟨hle, fun k => ?_, fun _ => ⟨howner, p, hp⟩, nofun⟩, hp, hmem⟩
  rw [tellings_step hbrings, hc.told t k hnew, if_neg (by simp)]

end Core

/-- A round that tells of a peer with a stroke underway asks for its end. -/
theorem forEachPlugin_lifts {peer : DeviceId} (ps : List (Noted (Builtin X))) (cx : Cx)
    (h : ∃ p ∈ ps, p.inner.stroke = some peer) :
    (forEachPlugin (fun p cx => ((Plugin.call p cx (.disconnected peer)).1,
      (Plugin.call p cx (.disconnected peer)).2.1)) ps cx).2.effects ≠ cx.effects := by
  have law : Plugin.Issuing (Noted (Builtin X)) := Noted.issuing Builtin.issuing
  induction ps generalizing cx with
  | nil => simp at h
  | cons p ps ih =>
    obtain ⟨new, hnew, -⟩ := law p cx (.disconnected peer)
    obtain ⟨rest, hrest, -⟩ := forEachPlugin_issues law (.disconnected peer) ps
      (Plugin.call p cx (.disconnected peer)).2.1
    change (forEachPlugin _ ps (Plugin.call p cx (.disconnected peer)).2.1).2.effects ≠ _
    rw [hrest, hnew, List.append_assoc]
    intro hsame
    have hnil : new ++ rest = [] := List.append_right_eq_self.mp hsame
    obtain ⟨rfl, rfl⟩ := List.append_eq_nil_iff.mp hnil
    rw [List.append_nil] at hnew hrest
    by_cases hp : p.inner.stroke = some peer
    · obtain ⟨e, he⟩ := p.inner.disconnected_lifts cx hp
      have hlift : (Plugin.call p cx (.disconnected peer)).2.1.effects = cx.effects ++ [e] := by
        rw [p.call_eq]
        exact he
      rw [hnew] at hlift
      exact absurd hlift (by simp)
    · obtain ⟨q, hq, hstroke⟩ := h
      rcases List.mem_cons.mp hq with rfl | hq
      · exact hp hstroke
      · exact ih _ ⟨q, hq, hstroke⟩ hrest

namespace Core
variable {c : Core X (Noted (Builtin X))}

/-- The end of the stroke of a peer that is gone is asked for, and owed to nobody. -/
theorem lifted_orphaned (hc : c.Unspoken) {i : Input X} (h : ¬ c.Attended i) :
    ∃ e ∈ Acrylius.asked (c.handle i).2.actions, (c.step i).effectOwner[e.1]? = none := by
  have law : Plugin.Issuing (Noted (Builtin X)) := Noted.issuing Builtin.issuing
  unfold Attended at h
  simp only [not_forall, not_not] at h
  obtain ⟨peer, hpeer, p, hp, hstroke⟩ := h
  obtain ⟨r, hr, ht⟩ := parts_tellsGone hpeer
  have hplugins : r.core.plugins = c.plugins := hr.plugins
  obtain ⟨hrtoken, hrowner, -⟩ := Exec.core_of_errands hr.errands
  obtain ⟨-, htowner, -⟩ := Exec.core_of_errands ht.errands
  obtain ⟨new, herrands, -, hasked, -⟩ := r.callAllPlugins_spec i.now.monotonicMs fun p cx =>
    ((Plugin.call p cx (.disconnected peer)).1, (Plugin.call p cx (.disconnected peer)).2.1)
  obtain ⟨-, howner, -⟩ := Exec.core_of_errands herrands
  have hactions : Acrylius.asked (c.handle i).2.actions = _ := ht.asked.trans hasked
  have hissues := forEachPlugin_issues law (.disconnected peer) r.core.plugins
    (r.cx i.now.monotonicMs)
  have hsome := forEachPlugin_lifts r.core.plugins (r.cx i.now.monotonicMs)
    ⟨p, hplugins ▸ hp, hstroke⟩
  obtain ⟨e, he⟩ := List.exists_mem_of_ne_nil _ hsome
  refine ⟨e, by rw [hactions]; exact List.mem_append_right _ he, ?_⟩
  have hlate : c.nextToken < e.1 := by
    have hlow := (hissues.bounds he).1
    change r.core.nextToken < e.1 at hlow
    rw [hrtoken] at hlow
    exact hlow
  have hstep : (c.step i).effectOwner = c.effectOwner := htowner.trans (howner.trans hrowner)
  rw [hstep]
  cases hsome' : c.effectOwner[e.1]? with
  | none => rfl
  | some idx => exact absurd (hc.owner e.1 idx hsome') (Nat.not_le_of_lt hlate)

end Core

open Acrylius.Core in
/-- Every effect has its way back exactly if none is asked for by a plugin whose stroke is underway
when the peer it belongs to is gone. -/
theorem effects_return_iff (b : CoreBuilder X (Builtin X)) (before : List (Core.Input X))
    (i : Core.Input X) :
    b.noted.build.WayBack before i ↔ (b.noted.build.run before).Attended i := by
  have law : Plugin.Issuing (Noted (Builtin X)) := Noted.issuing Builtin.issuing
  have hissues := ((b.noted.build.run before).exec_rounds i).issues law
  have hunspoken : (b.noted.build.run before).Unspoken :=
    Lib.run_inv (fun _ i h => h.step Builtin.issuing i) (build_unspoken b) before
  constructor
  · intro hback
    by_contra hnot
    obtain ⟨e, he, hnone⟩ := lifted_orphaned hunspoken hnot
    obtain ⟨idx, p, hsome, -⟩ := hback.owned e.1 e.2 he
    rw [hnone] at hsome
    cases hsome
  intro attended
  constructor
  · exact hissues.nodup
  · intro t e he hbefore
    have hnew := (asked_issued law he).1
    exact absurd (hbefore.le law) (Nat.not_le_of_lt hnew)
  · intro t e he
    obtain ⟨idx, p, hunderway, hp, hmem⟩ := asked_underway hunspoken attended he
    obtain ⟨howner, -⟩ := hunderway.waits rfl
    exact ⟨idx, p, howner, hp, hmem, fun js k => (hunderway.run Builtin.issuing js).told k⟩
  · intro t e he js j hjs hj
    obtain ⟨idx, p, hunderway, -, -⟩ := asked_underway hunspoken attended he
    obtain ⟨result, hevent⟩ := Event.of_brings hj
    exact exec_unowned ((hunderway.run Builtin.issuing js).done hjs) hevent

namespace Mock

def pointingLaptop : CoreBuilder crates (Builtin crates) :=
  { laptop [Builtin.touchpad (TouchpadPlugin.default crates)] with effects := [.touchpad] }

def phoneBegins : Core.Input crates :=
  at_ 2 0 (phoneSeals (pointingLaptop.build.run (phoneSharing Touchpad.cap))
    ⟨wireVersion, 7, none, Touchpad.cap, "begin", crates.encode (⟨60, 40⟩ : Touchpad.Begin), 0, none⟩)

def phoneGoes : Core.Input crates := at_ 3 0 (.linkDown 0 .closed)

def pointing : List (Core.Input crates) := phoneSharing Touchpad.cap ++ [phoneBegins]

end Mock

/-- The first touch comes back to the touchpad plugin. -/
theorem first_touch_returns :
    asked ((Mock.pointingLaptop.noted.build.run (Mock.phoneSharing Touchpad.cap)).handle
      Mock.phoneBegins).2.actions ≠ [] ∧
    Mock.pointingLaptop.noted.build.WayBack (Mock.phoneSharing Touchpad.cap) Mock.phoneBegins := by
  have hasked : (asked ((Mock.pointingLaptop.noted.build.run (Mock.phoneSharing Touchpad.cap)).handle
      Mock.phoneBegins).2.actions).length ≠ 0 := by decide +kernel
  have hparts : (Mock.pointingLaptop.noted.build.run (Mock.phoneSharing Touchpad.cap)).parts
      Mock.phoneBegins = none := by decide +kernel
  refine ⟨fun h => hasked (by rw [h]; rfl), (effects_return_iff _ _ _).mpr ?_⟩
  intro peer hpeer
  rw [hparts] at hpeer
  cases hpeer

/-- The end of a stroke whose phone is gone has no way back. -/
theorem orphaned_end : ¬ ∀ (b : CoreBuilder Mock.crates (Builtin Mock.crates))
    (before : List (Core.Input Mock.crates)) (i : Core.Input Mock.crates),
    b.noted.build.WayBack before i := by
  intro hall
  have hback := hall Mock.pointingLaptop Mock.pointing Mock.phoneGoes
  have hasked : (asked ((Mock.pointingLaptop.noted.build.run Mock.pointing).handle
      Mock.phoneGoes).2.actions).length ≠ 0 := by decide +kernel
  have horphan : ∀ r ∈ asked ((Mock.pointingLaptop.noted.build.run Mock.pointing).handle
      Mock.phoneGoes).2.actions, ((Mock.pointingLaptop.noted.build.run Mock.pointing).step
        Mock.phoneGoes).effectOwner[r.1]? = none := by decide +kernel
  obtain ⟨r, hr⟩ := List.exists_mem_of_length_pos (Nat.pos_of_ne_zero hasked)
  obtain ⟨idx, p, hsome, -⟩ := hback.owned r.1 r.2 hr
  rw [horphan r hr] at hsome
  cases hsome

end Acrylius
