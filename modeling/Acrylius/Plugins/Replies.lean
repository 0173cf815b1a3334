import Acrylius.Core.Tokens
import Acrylius.Plugins.Refusals

/-! One reply to each request: a request is refused at once, or waits for one effect, and the first
result of that effect answers it. -/
namespace Acrylius
open Proto Std

variable {X : Crates} {P : Type}

/-- The requests that a plugin answers by way of the host: of the session, media, wol, command and
clipboard plugins. -/
def Proto.Envelope.asksHost (env : Envelope) : Bool :=
  env.cap = SessionLock.cap && env.ty ∈ ["query", "lock", "unlock"] ||
  env.cap = Media.cap && (env.ty ∈ ["query", "seek", "position", "volume"] ||
    (Media.simpleAction env.ty).isSome) ||
  env.cap = Wol.cap && env.ty = "relay" ||
  env.cap = Command.cap && env.ty = "run" ||
  env.cap = Clipboard.cap && env.ty = "get"

namespace Act
variable {awaits : P → EffectToken → Option Asker} {p p' : P} {cx cx' : Cx} {c : Call}

/-- A call that brings no result asks for nothing and keeps what waits, or asks for one effect
and keeps what waits for others. -/
theorem grows (h : Act X awaits p cx c p' cx') (other : ∀ token result, c ≠ .effectResult token result) :
    (cx'.effects = cx.effects ∧ cx'.nextToken = cx.nextToken ∧ awaits p' = awaits p) ∨
    ∃ e, cx'.effects = cx.effects ++ [(cx.nextToken + 1, e)] ∧ cx'.nextToken = cx.nextToken + 1 ∧
      ∀ t, t ≠ cx.nextToken + 1 → awaits p' t = awaits p t := by
  cases h with
  | told ms queued idle waiting => exact .inl ⟨queued.effects, queued.token, waiting⟩
  | wanted asks waiting =>
    refine .inr ⟨_, asks.effects, asks.token, fun t ht => ?_⟩
    rw [waiting, Function.update_of_ne ht]
  | wished asks _ waiting =>
    refine .inr ⟨_, asks.effects, asks.token, fun t ht => ?_⟩
    rcases waiting with waiting | waiting
    · rw [waiting]
    · rw [waiting, Function.update_of_ne ht]
  | settled => exact absurd rfl (other _ _)
  | replied queued _ _ waiting => exact .inl ⟨queued.effects, queued.token, waiting⟩

theorem token_le (h : Act X awaits p cx c p' cx') : cx.nextToken ≤ cx'.nextToken := by
  cases h with
  | told ms queued => exact queued.token.ge
  | wanted asks => exact asks.token ▸ Nat.le_succ _
  | wished asks => exact asks.token ▸ Nat.le_succ _
  | settled ms asked queued => exact queued.token.ge
  | replied queued => exact queued.token.ge

theorem keeps (h : Act X awaits p cx c p' cx') (hall : c.forAll) {t : EffectToken} :
    awaits p' t = awaits p t ∨ t = cx.nextToken + 1 ∧ awaits p' t = none := by
  cases h with
  | told ms queued idle waiting => exact .inl (by rw [waiting])
  | wanted => cases hall
  | wished asks _ waiting =>
    rcases waiting with waiting | waiting
    · exact .inl (by rw [waiting])
    · by_cases ht : t = cx.nextToken + 1
      · exact .inr ⟨ht, by rw [waiting, ht, Function.update_self]⟩
      · exact .inl (by rw [waiting, Function.update_of_ne ht])
  | settled => cases hall
  | replied queued _ _ waiting => exact .inl (by rw [waiting])

/-- A result takes the request that waits for it off the file, and no other. -/
theorem settles {token : EffectToken} {result : EffectResult}
    (h : Act X awaits p cx (.effectResult token result) p' cx') :
    cx'.effects = cx.effects ∧ cx'.nextToken = cx.nextToken ∧ awaits p' token = none ∧
      ∀ t, t ≠ token → awaits p' t = awaits p t := by
  cases h with
  | told ms queued idle waiting free =>
    exact ⟨queued.effects, queued.token, by rw [waiting, free _ _ rfl], fun t _ => by rw [waiting]⟩
  | wished _ other => exact absurd rfl (other _ _)
  | settled ms _ queued _ _ waiting =>
    refine ⟨queued.effects, queued.token, by rw [waiting, Function.update_self], fun t ht => ?_⟩
    rw [waiting, Function.update_of_ne ht]
  | replied _ _ other => exact absurd rfl (other _ _)

/-- The request that waits for a result is answered once, last, and nobody else is. -/
theorem answers {token : EffectToken} {result : EffectResult} {who : Asker}
    (h : Act X awaits p cx (.effectResult token result) p' cx') (hw : awaits p token = some who) :
    ∃ ms m, cx'.sends = cx.sends ++ (ms ++ [m]) ∧ (∀ m ∈ ms, m.Idle) ∧ m.Answers X who := by
  cases h with
  | told ms queued idle waiting free => rw [free _ _ rfl] at hw; cases hw
  | wished _ other => exact absurd rfl (other _ _)
  | settled ms asked queued idle answers =>
    obtain rfl := Option.some.inj (asked.symm.trans hw)
    exact ⟨ms, _, queued.sends, idle, answers⟩
  | replied _ _ other => exact absurd rfl (other _ _)

theorem answersNobody {token : EffectToken} {result : EffectResult}
    (h : Act X awaits p cx (.effectResult token result) p' cx') (hw : awaits p token = none) :
    ∃ ms, cx'.sends = cx.sends ++ ms ∧ ∀ m ∈ ms, m.Idle := by
  cases h with
  | told ms queued idle => exact ⟨ms, queued.sends, idle⟩
  | wished _ other => exact absurd rfl (other _ _)
  | settled ms asked => rw [asked] at hw; cases hw
  | replied _ _ other => exact absurd rfl (other _ _)

end Act

namespace Core

def Waits (c : Core X (Builtin X)) (t : EffectToken) (who : Asker) : Prop :=
  ∃ (idx : ℕ) (p : Builtin X), c.plugins[idx]? = some p ∧ p.awaits t = some who

/-- Whatever a plugin has on file it is also owed, under a token that was given out. -/
structure Filed (c : Core X (Builtin X)) : Prop where
  owned : ∀ (idx : ℕ) (p : Builtin X) (t : EffectToken) (who : Asker), c.plugins[idx]? = some p →
    p.awaits t = some who → c.effectOwner[t]? = some idx
  issued : ∀ (t : EffectToken) (idx : ℕ), c.effectOwner[t]? = some idx → t ≤ c.nextToken

variable {c d : Core X (Builtin X)}

theorem Filed.bound (h : c.Filed) {t : EffectToken} {who : Asker} (hw : c.Waits t who) :
    t ≤ c.nextToken := by
  obtain ⟨idx, p, hp, hwho⟩ := hw
  exact h.issued t idx (h.owned idx p t who hp hwho)

theorem Filed.congr (h : c.Filed) (plugins : d.plugins = c.plugins)
    (owner : d.effectOwner = c.effectOwner) (token : d.nextToken = c.nextToken) : d.Filed := by
  constructor
  · rw [plugins, owner]
    exact h.owned
  · rw [owner, token]
    exact h.issued

theorem Filed.called (h : c.Filed) {idx : ℕ} {p p' : Builtin X} {cx cx' : Cx} {call : Call}
    (hp : c.plugins[idx]? = some p) (hact : Act X Builtin.awaits p cx call p' cx')
    (other : ∀ token result, call ≠ .effectResult token result) (hcx : cx.effects = [])
    (htok : cx.nextToken = c.nextToken) (plugins : d.plugins = c.plugins.set idx p')
    (owner : d.effectOwner = cx'.effects.foldl (fun o e => o.insert e.1 idx) c.effectOwner)
    (token : d.nextToken = cx'.nextToken) :
    d.Filed ∧ ∀ t who, c.Waits t who → d.Waits t who := by
  have hlt : idx < c.plugins.length := (List.getElem?_eq_some_iff.mp hp).1
  -- Which plugin is asked about: the one called, or another.
  have look : ∀ {k : ℕ} {q : Builtin X}, d.plugins[k]? = some q →
      k = idx ∧ q = p' ∨ k ≠ idx ∧ c.plugins[k]? = some q := by
    intro k q hk
    rw [plugins] at hk
    by_cases hidx : k = idx
    · subst hidx
      rw [List.getElem?_set_self hlt] at hk
      exact .inl ⟨rfl, (Option.some.inj hk).symm⟩
    · rw [List.getElem?_set_ne (Ne.symm hidx)] at hk
      exact .inr ⟨hidx, hk⟩
  have find : ∀ {k : ℕ} {q : Builtin X} {t : EffectToken} {who : Asker}, c.plugins[k]? = some q →
      q.awaits t = some who → p'.awaits t = p.awaits t → d.Waits t who := by
    intro k q t who hk hw hsame
    by_cases hidx : k = idx
    · subst hidx
      obtain rfl := Option.some.inj (hk.symm.trans hp)
      exact ⟨k, p', by rw [plugins, List.getElem?_set_self hlt], by rw [hsame, hw]⟩
    · exact ⟨k, q, by rw [plugins, List.getElem?_set_ne (Ne.symm hidx)]; exact hk, hw⟩
  rcases hact.grows other with ⟨heffects, htoken, hwaits⟩ | ⟨e, heffects, htoken, hwaits⟩
  · rw [hcx] at heffects
    rw [heffects, List.foldl_nil] at owner
    refine ⟨⟨?_, ?_⟩, ?_⟩
    · intro k q t who hk hw
      rw [owner]
      rcases look hk with ⟨rfl, rfl⟩ | ⟨-, hk⟩
      · exact h.owned k p t who hp (by rw [← hwaits, hw])
      · exact h.owned k q t who hk hw
    · rw [owner, token, htoken, htok]
      exact h.issued
    · rintro t who ⟨k, q, hk, hw⟩
      exact find hk hw (by rw [hwaits])
  · rw [hcx, List.nil_append] at heffects
    rw [heffects, List.foldl_cons, List.foldl_nil, htok] at owner
    rw [htok] at htoken hwaits
    have hold : ∀ t who, c.Waits t who → t ≠ c.nextToken + 1 := by
      rintro t who hw rfl
      exact Nat.not_succ_le_self _ (h.bound hw)
    refine ⟨⟨?_, ?_⟩, ?_⟩
    · intro k q t who hk hw
      rw [owner]
      by_cases ht : t = c.nextToken + 1
      · subst ht
        rw [ExtTreeMap.getElem?_insert_self]
        rcases look hk with ⟨rfl, -⟩ | ⟨-, hk⟩
        · rfl
        · exact absurd rfl (hold _ who ⟨k, q, hk, hw⟩)
      · rw [Lib.getElem?_insert_of_ne ht]
        rcases look hk with ⟨rfl, rfl⟩ | ⟨-, hk⟩
        · exact h.owned k p t who hp (by rw [← hwaits t ht, hw])
        · exact h.owned k q t who hk hw
    · intro t k hk
      rw [owner] at hk
      rw [token, htoken]
      rcases Lib.getElem?_of_insert hk with ⟨rfl, -⟩ | ⟨-, hk⟩
      · exact le_rfl
      · exact (h.issued t k hk).trans (Nat.le_succ _)
    · rintro t who ⟨k, q, hk, hw⟩
      exact find hk hw (hwaits t (hold t who ⟨k, q, hk, hw⟩))

theorem Filed.calledAll (h : c.Filed)
    (len : d.plugins.length = c.plugins.length)
    (each : ∀ (k : ℕ) (q : Builtin X), c.plugins[k]? = some q → ∃ q', d.plugins[k]? = some q' ∧
      ∀ t, (q'.awaits t = q.awaits t ∨ c.nextToken < t ∧ q'.awaits t = none))
    (owner : d.effectOwner = c.effectOwner) (token : c.nextToken ≤ d.nextToken) :
    d.Filed ∧ ∀ t who, c.Waits t who → d.Waits t who := by
  refine ⟨⟨?_, ?_⟩, ?_⟩
  · intro k q' t who hk hw
    have hlt : k < c.plugins.length := by
      rw [← len]
      exact (List.getElem?_eq_some_iff.mp hk).1
    obtain ⟨q'', hk', hwaits⟩ := each k _ (List.getElem?_eq_getElem hlt)
    obtain rfl := Option.some.inj (hk.symm.trans hk')
    rw [owner]
    rcases hwaits t with hsame | ⟨-, hnone⟩
    · exact h.owned k _ t who (List.getElem?_eq_getElem hlt) (by rw [← hsame, hw])
    · rw [hnone] at hw
      cases hw
  · rw [owner]
    exact fun t k hk => (h.issued t k hk).trans token
  · rintro t who ⟨k, q, hk, hw⟩
    obtain ⟨q', hk', hwaits⟩ := each k q hk
    rcases hwaits t with hsame | ⟨hlate, -⟩
    · exact ⟨k, q', hk', by rw [hsame, hw]⟩
    · exact absurd (h.bound ⟨k, q, hk, hw⟩) (Nat.not_le_of_lt hlate)

/-- A result has come in for a token that was owed, and its plugin has been told. -/
theorem Filed.settled (h : c.Filed) {idx : ℕ} {token : EffectToken} {result : EffectResult}
    (howner : c.effectOwner[token]? = some idx) {p p' : Builtin X} {cx cx' : Cx}
    (hp : c.plugins[idx]? = some p)
    (hact : Act X Builtin.awaits p cx (.effectResult token result) p' cx')
    (plugins : d.plugins = c.plugins.set idx p') (owner : d.effectOwner = c.effectOwner.erase token)
    (htoken : d.nextToken = c.nextToken) :
    d.Filed ∧ ∀ t who, t ≠ token → c.Waits t who → d.Waits t who := by
  have hlt : idx < c.plugins.length := (List.getElem?_eq_some_iff.mp hp).1
  obtain ⟨-, -, hnone, hsame⟩ := hact.settles
  refine ⟨⟨?_, ?_⟩, ?_⟩
  · intro k q t who hk hw
    rw [owner]
    rw [plugins] at hk
    by_cases hidx : k = idx
    · subst hidx
      rw [List.getElem?_set_self hlt] at hk
      obtain rfl := Option.some.inj hk
      have ht : t ≠ token := by
        rintro rfl
        rw [hnone] at hw
        cases hw
      rw [Lib.getElem?_erase_of_ne ht]
      exact h.owned k p t who hp (by rw [← hsame t ht, hw])
    · rw [List.getElem?_set_ne (Ne.symm hidx)] at hk
      have hown := h.owned k q t who hk hw
      have ht : t ≠ token := by
        rintro rfl
        exact hidx (Option.some.inj (hown.symm.trans howner))
      rw [Lib.getElem?_erase_of_ne ht]
      exact hown
  · intro t k hk
    rw [owner] at hk
    rw [htoken]
    exact h.issued t k (Lib.getElem?_of_erase hk).2
  · rintro t who ht ⟨k, q, hk, hw⟩
    by_cases hidx : k = idx
    · subst hidx
      obtain rfl := Option.some.inj (hk.symm.trans hp)
      exact ⟨k, p', by rw [plugins, List.getElem?_set_self hlt], by rw [hsame t ht, hw]⟩
    · exact ⟨k, q, by rw [plugins, List.getElem?_set_ne (Ne.symm hidx)]; exact hk, hw⟩

/-- The token was owed to no plugin there is. -/
theorem Filed.orphaned (h : c.Filed) {idx : ℕ} {token : EffectToken}
    (howner : c.effectOwner[token]? = some idx) (hp : c.plugins[idx]? = none)
    (plugins : d.plugins = c.plugins) (owner : d.effectOwner = c.effectOwner.erase token)
    (htoken : d.nextToken = c.nextToken) : d.Filed ∧ ∀ t who, c.Waits t who → d.Waits t who := by
  refine ⟨⟨?_, ?_⟩, ?_⟩
  · intro k q t who hk hw
    rw [plugins] at hk
    have hown := h.owned k q t who hk hw
    have ht : t ≠ token := by
      rintro rfl
      obtain rfl := Option.some.inj (hown.symm.trans howner)
      rw [hp] at hk
      cases hk
    rw [owner, Lib.getElem?_erase_of_ne ht]
    exact hown
  · intro t k hk
    rw [owner] at hk
    rw [htoken]
    exact h.issued t k (Lib.getElem?_of_erase hk).2
  · rintro t who ⟨k, q, hk, hw⟩
    exact ⟨k, q, by rw [plugins]; exact hk, hw⟩

end Core

theorem forEachPlugin_keeps {c : Call} (hc : c.forAll) (ps : List (Builtin X)) (cx : Cx) :
    let r := forEachPlugin (fun p cx => ((Plugin.call p cx c).1, (Plugin.call p cx c).2.1)) ps cx
    r.1.length = ps.length ∧ cx.nextToken ≤ r.2.nextToken ∧
      ∀ (k : ℕ) (q : Builtin X), ps[k]? = some q → ∃ q', r.1[k]? = some q' ∧
        ∀ t, (q'.awaits t = q.awaits t ∨ cx.nextToken < t ∧ q'.awaits t = none) := by
  induction ps generalizing cx with
  | nil => exact ⟨rfl, le_rfl, fun k q hk => by simp at hk⟩
  | cons p ps ih =>
    have hact := p.call_act cx c
    obtain ⟨hlen, htok, heach⟩ := ih (Plugin.call p cx c).2.1
    have hle : cx.nextToken ≤ (Plugin.call p cx c).2.1.nextToken := hact.token_le
    refine ⟨congrArg (· + 1) hlen, hle.trans htok, ?_⟩
    intro k q hk
    cases k with
    | zero =>
      obtain rfl : p = q := by simpa using hk
      refine ⟨_, rfl, fun t => ?_⟩
      rcases hact.keeps hc (t := t) with hsame | ⟨rfl, hnone⟩
      · exact .inl hsame
      · exact .inr ⟨Nat.lt_succ_self _, hnone⟩
    | succ k =>
      obtain ⟨q', hk', hwaits⟩ := heach k q (by simpa using hk)
      refine ⟨q', hk', fun t => ?_⟩
      rcases hwaits t with hsame | ⟨hlate, hnone⟩
      · exact .inl hsame
      · exact .inr ⟨Nat.lt_of_le_of_lt hle hlate, hnone⟩

/-- A step keeps what waits on file, but for the one effect whose result it brings. -/
theorem Rounds.filed {i : Core.Input X} {s₀ s t : Exec X (Builtin X)} (h : Rounds i s₀ s t)
    (hs : s.core.Filed) : t.core.Filed ∧ ∀ τ who, (∀ result, i.event ≠ .effectDone τ result) →
      s.core.Waits τ who → t.core.Waits τ who := by
  have same : ∀ {s t : Exec X (Builtin X)}, s.core.Filed → t.core.plugins = s.core.plugins →
      t.core.effectOwner = s.core.effectOwner → t.core.nextToken = s.core.nextToken →
      t.core.Filed ∧ ∀ τ who, (∀ result, i.event ≠ .effectDone τ result) →
        s.core.Waits τ who → t.core.Waits τ who := by
    intro s t hs hp ho ht
    refine ⟨hs.congr hp ho ht, fun τ who _ hw => ?_⟩
    obtain ⟨idx, p, hidx, hwho⟩ := hw
    exact ⟨idx, p, by rw [hp]; exact hidx, hwho⟩
  induction h with
  | calm h =>
    obtain ⟨ht, ho, -⟩ := Exec.core_of_errands h.errands
    exact same hs h.plugins ho ht
  | released plugins errands =>
    obtain ⟨ht, ho, -⟩ := Exec.core_of_errands errands
    exact same hs plugins ho ht
  | @called s idx cx c due other =>
    cases hp : s.core.plugins[idx]? with
    | none =>
      have hnone : (s.callPlugin idx cx fun p cx => Plugin.call p cx c).1 = s := by
        unfold Exec.callPlugin
        rw [hp]
      rw [hnone]
      exact same hs rfl rfl rfl
    | some p =>
      obtain ⟨new, herrands, -, -, hplugins⟩ :=
        s.callPlugin_spec cx (fun p cx => Plugin.call p cx c) hp
      obtain ⟨ht, ho, -⟩ := Exec.core_of_errands herrands
      obtain ⟨hfiled, hwaits⟩ :=
        hs.called hp (p.call_act cx c) other due.effects.1 due.effects.2 hplugins ho ht
      exact ⟨hfiled, fun τ who _ => hwaits τ who⟩
  | @calledAll s c hc _ =>
    obtain ⟨new, herrands, -, -, hplugins⟩ := s.callAllPlugins_spec i.now.monotonicMs fun p cx =>
      ((Plugin.call p cx c).1, (Plugin.call p cx c).2.1)
    obtain ⟨ht, ho, -⟩ := Exec.core_of_errands herrands
    obtain ⟨hlen, hle, heach⟩ := forEachPlugin_keeps hc s.core.plugins (s.cx i.now.monotonicMs)
    rw [← hplugins] at hlen heach
    obtain ⟨hfiled, hwaits⟩ := hs.calledAll hlen heach ho (by rw [ht]; exact hle)
    exact ⟨hfiled, fun τ who _ => hwaits τ who⟩
  | @refused s l u session env heard code =>
    obtain ⟨ht, ho, -⟩ := Exec.core_of_errands (s.dispatchSend_errands
      (Exec.errorReply X u.peer env code))
    have hplugins := congrArg Ledger.plugins (s.dispatchSend_plain
      (Exec.errorReply X u.peer env code)).1
    exact same hs hplugins ho ht
  | @settled s token result idx event _ owner =>
    cases hp : s.core.plugins[idx]? with
    | none =>
      have hnone : (Exec.callPlugin { s with core.effectOwner := s.core.effectOwner.erase token } idx
          (s.cx i.now.monotonicMs) fun p cx => Plugin.call p cx (.effectResult token result)).1 =
          { s with core.effectOwner := s.core.effectOwner.erase token } := by
        unfold Exec.callPlugin
        rw [hp]
      rw [hnone]
      obtain ⟨hfiled, hwaits⟩ := hs.orphaned (d := { s.core with
        effectOwner := s.core.effectOwner.erase token }) owner hp rfl rfl rfl
      exact ⟨hfiled, fun τ who _ => hwaits τ who⟩
    | some p =>
      obtain ⟨new, herrands, -, -, hplugins⟩ := Exec.callPlugin_spec
        { s with core.effectOwner := s.core.effectOwner.erase token } (s.cx i.now.monotonicMs)
        (fun p cx => Plugin.call p cx (.effectResult token result)) hp
      obtain ⟨ht, ho, -⟩ := Exec.core_of_errands herrands
      have hact := p.call_act (s.cx i.now.monotonicMs) (.effectResult token result)
      obtain ⟨heffects, htoken, -, -⟩ := hact.settles
      rw [heffects] at ho
      obtain ⟨hfiled, hwaits⟩ := hs.settled owner hp hact hplugins ho (ht.trans htoken)
      refine ⟨hfiled, fun τ who hne hw => hwaits τ who ?_ hw⟩
      rintro rfl
      exact hne result event
  | trans _ _ ih ih' =>
    obtain ⟨hfiled, hwaits⟩ := ih hs
    obtain ⟨hfiled', hwaits'⟩ := ih' hfiled
    exact ⟨hfiled', fun τ who hne hw => hwaits' τ who hne (hwaits τ who hne hw)⟩

/-- The request is put on file, under the token of the one effect it asks for. -/
def Wanted (awaits : P → EffectToken → Option Asker) (p : P) (cx : Cx) (who : Asker) (p' : P)
    (cx' : Cx) : Prop :=
  ∃ e, cx.Asks cx' e ∧ awaits p' = Function.update (awaits p) (cx.nextToken + 1) (some who)

section Requests
variable (cx : Cx) (peer : DeviceId) (env : Envelope)

theorem Wanted.filed {α : Type} {pending : P → ExtTreeMap EffectToken α} {asker : α → Option Asker}
    {p p' : P} {w : α} {who : Asker} (e : Effect)
    (h : pending p' = (pending p).insert (cx.nextToken + 1) w) (hw : asker w = some who) :
    Wanted (tabled pending asker) p cx who p' (cx.effect e).1 :=
  ⟨e, .effect cx e, by rw [Act.tabled_insert h, hw]⟩

theorem SessionPlugin.onMessage_wanted (p : SessionPlugin X)
    (h : env.ty ∈ ["query", "lock", "unlock"]) :
    Wanted awaits p cx (peer, env.id) (p.onMessage cx peer env).1 (p.onMessage cx peer env).2.1 := by
  unfold onMessage
  split
  · exact .filed cx _ rfl rfl
  · exact .filed cx _ rfl rfl
  · exact .filed cx _ rfl rfl
  · rename_i hty
    rw [hty] at h
    exact absurd h (by decide)
  · rename_i hty
    rw [hty] at h
    exact absurd h (by decide)
  · rename_i hquery hlock hunlock _ _
    simp only [List.mem_cons, List.not_mem_nil, or_false] at h
    rcases h with h | h | h
    · exact absurd h hquery
    · exact absurd h hlock
    · exact absurd h hunlock

theorem MediaPlugin.onMessage_wanted (p : MediaPlugin X)
    (h : env.ty ∈ ["query", "seek", "position", "volume"] ∨ (Media.simpleAction env.ty).isSome)
    (ok : (p.onMessage cx peer env).2.2 = .ok ()) :
    Wanted awaits p cx (peer, env.id) (p.onMessage cx peer env).1 (p.onMessage cx peer env).2.1 := by
  revert ok
  unfold onMessage
  split
  · exact fun _ => .filed cx _ rfl rfl
  · rename_i hty
    rw [hty] at h
    exact absurd h (by decide)
  · split
    · intro ok
      cases ok
    · split
      · intro ok
        cases ok
      · exact fun _ => .filed cx _ rfl rfl

theorem WolPlugin.onMessage_wanted (p : WolPlugin X) (h : env.ty = "relay")
    (ok : (p.onMessage cx peer env).2.2 = .ok ()) :
    Wanted awaits p cx (peer, env.id) (p.onMessage cx peer env).1 (p.onMessage cx peer env).2.1 := by
  have hrelay : p.onMessage cx peer env = p.onRelay cx peer env := by
    unfold onMessage
    rw [h]
    rfl
  rw [hrelay] at ok ⊢
  revert ok
  unfold onRelay
  split
  · intro ok
    cases ok
  · dsimp only
    split
    · intro ok
      cases ok
    · split
      · intro ok
        cases ok
      · exact fun _ => .filed cx _ rfl rfl

theorem CommandPlugin.onMessage_wanted (p : CommandPlugin X) (h : env.ty = "run")
    (ok : (p.onMessage cx peer env).2.2 = .ok ()) :
    Wanted awaits p cx (peer, env.id) (p.onMessage cx peer env).1 (p.onMessage cx peer env).2.1 := by
  have hrun : p.onMessage cx peer env = p.onRun cx peer env := by
    unfold onMessage
    rw [h]
    rfl
  rw [hrun] at ok ⊢
  revert ok
  unfold onRun
  split
  · intro ok
    cases ok
  · split
    · intro ok
      cases ok
    · exact fun _ => .filed cx _ rfl rfl

theorem ClipboardPlugin.onMessage_wanted (p : ClipboardPlugin X) (h : env.ty = "get") :
    Wanted awaits p cx (peer, env.id) (p.onMessage cx peer env).1 (p.onMessage cx peer env).2.1 := by
  unfold onMessage
  rw [h]
  exact .filed cx _ rfl rfl

theorem Wanted.box [Plugin P] {box : P → Builtin X} {waiting : P → EffectToken → Option Asker}
    (hw : ∀ p, Builtin.awaits (box p) = waiting p) {p p' : P} {who : Asker} {cx' : Cx}
    (h : Wanted waiting p cx who p' cx') : Wanted Builtin.awaits (box p) cx who (box p') cx' := by
  obtain ⟨e, asks, hwait⟩ := h
  exact ⟨e, asks, by rw [hw, hw, hwait]⟩

/-- A request that its plugin does not turn down is put on file. -/
theorem Builtin.onMessage_wanted (p : Builtin X) (h : env.asksHost)
    (hcap : handles (Plugin.manifest p) env.cap)
    (ok : (Plugin.onMessage p cx peer env).2.2 = .ok ()) :
    Wanted awaits p cx (peer, env.id) (Plugin.onMessage p cx peer env).1
      (Plugin.onMessage p cx peer env).2.1 := by
  cases p with
  | clipboard p =>
    have hc : env.cap = Clipboard.cap := by
      simpa [handles, Plugin.manifest, Clipboard.manifest] using hcap
    have hty : env.ty = "get" := by
      simpa [Proto.Envelope.asksHost, hc, SessionLock.cap, Media.cap, Wol.cap, Command.cap,
        Clipboard.cap] using h
    exact (p.onMessage_wanted cx peer env hty).box cx (fun _ => rfl)
  | command p =>
    have hc : env.cap = Command.cap := by
      simpa [handles, Plugin.manifest, Command.manifest] using hcap
    have hty : env.ty = "run" := by
      simpa [Proto.Envelope.asksHost, hc, SessionLock.cap, Media.cap, Wol.cap, Command.cap,
        Clipboard.cap] using h
    exact (p.onMessage_wanted cx peer env hty ok).box cx (fun _ => rfl)
  | media p =>
    have hc : env.cap = Media.cap := by
      simpa [handles, Plugin.manifest, Media.manifest] using hcap
    have hty : env.ty ∈ ["query", "seek", "position", "volume"] ∨
        (Media.simpleAction env.ty).isSome := by
      simpa [Proto.Envelope.asksHost, hc, SessionLock.cap, Media.cap, Wol.cap, Command.cap,
        Clipboard.cap] using h
    exact (p.onMessage_wanted cx peer env hty ok).box cx (fun _ => rfl)
  | session p =>
    have hc : env.cap = SessionLock.cap := by
      simpa [handles, Plugin.manifest, SessionLock.manifest] using hcap
    have hty : env.ty ∈ ["query", "lock", "unlock"] := by
      simpa [Proto.Envelope.asksHost, hc, SessionLock.cap, Media.cap, Wol.cap, Command.cap,
        Clipboard.cap] using h
    exact (p.onMessage_wanted cx peer env hty).box cx (fun _ => rfl)
  | wol p =>
    have hc : env.cap = Wol.cap := by
      simpa [handles, Plugin.manifest, Wol.manifest] using hcap
    have hty : env.ty = "relay" := by
      simpa [Proto.Envelope.asksHost, hc, SessionLock.cap, Media.cap, Wol.cap, Command.cap,
        Clipboard.cap] using h
    exact (p.onMessage_wanted cx peer env hty ok).box cx (fun _ => rfl)
  | ping p =>
    have hc : env.cap = Ping.cap := by
      simpa [handles, Plugin.manifest, Ping.manifest] using hcap
    simp [Proto.Envelope.asksHost, hc, SessionLock.cap, Media.cap, Wol.cap, Command.cap,
      Clipboard.cap, Ping.cap] at h
  | share p =>
    have hc : env.cap = Share.cap := by
      simpa [handles, Plugin.manifest, Share.manifest] using hcap
    simp [Proto.Envelope.asksHost, hc, SessionLock.cap, Media.cap, Wol.cap, Command.cap,
      Clipboard.cap, Share.cap] at h
  | touchpad p =>
    have hc : env.cap = Touchpad.cap := by
      simpa [handles, Plugin.manifest, Touchpad.manifest] using hcap
    simp [Proto.Envelope.asksHost, hc, SessionLock.cap, Media.cap, Wol.cap, Command.cap,
      Clipboard.cap, Touchpad.cap] at h

end Requests

/-- What waits after a call waited before, or is the request the call brought. -/
theorem Act.files {awaits : P → EffectToken → Option Asker} {p p' : P} {cx cx' : Cx} {c : Call}
    (h : Act X awaits p cx c p' cx') {t : EffectToken} {who : Asker} (hw : awaits p' t = some who) :
    awaits p t = some who ∨ t = cx.nextToken + 1 ∧
      ∃ peer env, c = .message peer env ∧ who = (peer, env.id) := by
  have updated : ∀ (n : EffectToken) (a : Option Asker), awaits p' = Function.update (awaits p) n a →
      awaits p t = some who ∨ t = n ∧ a = some who := by
    intro n a hup
    rw [hup] at hw
    by_cases ht : t = n
    · subst ht
      rw [Function.update_self] at hw
      exact .inr ⟨rfl, hw⟩
    · rw [Function.update_of_ne ht] at hw
      exact .inl hw
  cases h with
  | told ms queued idle waiting => exact .inl (waiting ▸ hw)
  | wanted asks waiting =>
    rcases updated _ _ waiting with hold | ⟨ht, hwho⟩
    · exact .inl hold
    · exact .inr ⟨ht, _, _, rfl, (Option.some.inj hwho).symm⟩
  | wished asks other waiting =>
    rcases waiting with waiting | waiting
    · exact .inl (waiting ▸ hw)
    · rcases updated _ _ waiting with hold | ⟨-, hwho⟩
      · exact .inl hold
      · cases hwho
  | settled ms asked queued idle answers waiting =>
    rcases updated _ _ waiting with hold | ⟨-, hwho⟩
    · exact .inl hold
    · cases hwho
  | replied queued plain other waiting => exact .inl (waiting ▸ hw)

theorem Exec.callPlugin_files {s : Exec X (Builtin X)} {idx : ℕ} {cx : Cx} {c : Call}
    {τ : EffectToken} {who : Asker}
    (hw : (s.callPlugin idx cx fun p cx => Plugin.call p cx c).1.core.Waits τ who) :
    s.core.Waits τ who ∨ τ = cx.nextToken + 1 ∧
      ∃ peer env, c = .message peer env ∧ who = (peer, env.id) := by
  obtain ⟨k, q, hk, hq⟩ := hw
  cases hp : s.core.plugins[idx]? with
  | none =>
    unfold callPlugin at hk
    rw [hp] at hk
    exact .inl ⟨k, q, hk, hq⟩
  | some p =>
    rw [(s.callPlugin_kept cx (fun p cx => Plugin.call p cx c) hp).1] at hk
    by_cases hidx : k = idx
    · subst hidx
      rw [List.getElem?_set_self (List.getElem?_eq_some_iff.mp hp).1] at hk
      obtain rfl := Option.some.inj hk
      rcases (p.call_act cx c).files hq with hold | hnew
      · exact .inl ⟨k, p, hp, hold⟩
      · exact .inr hnew
    · rw [List.getElem?_set_ne (Ne.symm hidx)] at hk
      exact .inl ⟨k, q, hk, hq⟩

theorem Act.issues {awaits : P → EffectToken → Option Asker} {p p' : P} {cx cx' : Cx} {c : Call}
    (h : Act X awaits p cx c p' cx') : Issues cx.nextToken cx.effects cx'.nextToken cx'.effects := by
  have one : ∀ e, cx.Asks cx' e → Issues cx.nextToken cx.effects cx'.nextToken cx'.effects :=
    fun e asks => ⟨[(cx.nextToken + 1, e)], asks.effects, rfl, asks.token⟩
  have none : ∀ ms, cx.Queues cx' ms →
      Issues cx.nextToken cx.effects cx'.nextToken cx'.effects := by
    intro ms queued
    rw [queued.effects, queued.token]
    exact .refl _ _
  cases h with
  | told ms queued => exact none ms queued
  | wanted asks => exact one _ asks
  | wished asks => exact one _ asks
  | settled ms asked queued => exact none _ queued
  | replied queued => exact none _ queued

/-- The built-in plugins ask for effects through their context only. -/
theorem Builtin.issuing : Plugin.Issuing (Builtin X) := fun p cx c => (p.call_act cx c).issues

/-- What waits after a step waited before, or is a request that arrived in it and asked for an
effect under a new token. -/
theorem Rounds.files {i : Core.Input X} {s₀ s t : Exec X (Builtin X)} (h : Rounds i s₀ s t)
    {τ : EffectToken} {who : Asker} (hw : t.core.Waits τ who) :
    s.core.Waits τ who ∨ s.core.nextToken < τ ∧
      ∃ l u session env, s₀.core.Hears i l u session env ∧ who = (u.peer, env.id) := by
  induction h with
  | calm h =>
    obtain ⟨k, q, hk, hq⟩ := hw
    exact .inl ⟨k, q, h.plugins ▸ hk, hq⟩
  | released plugins =>
    obtain ⟨k, q, hk, hq⟩ := hw
    exact .inl ⟨k, q, plugins ▸ hk, hq⟩
  | @called s idx cx c due other =>
    rcases Exec.callPlugin_files hw with hold | ⟨rfl, peer, env, rfl, rfl⟩
    · exact .inl hold
    · refine .inr ⟨by rw [due.effects.2]; exact Nat.lt_succ_self _, ?_⟩
      cases due with
      | message event frame link decrypt decoded =>
        exact ⟨_, _, _, env, ⟨event, frame, link, decrypt, decoded⟩, rfl⟩
  | @calledAll s c hc _ =>
    obtain ⟨k, q', hk, hq⟩ := hw
    rw [(s.callAllPlugins_kept _ _).1] at hk
    obtain ⟨hlen, -, heach⟩ := forEachPlugin_keeps hc s.core.plugins (s.cx i.now.monotonicMs)
    have hlt : k < s.core.plugins.length := by
      rw [← hlen]
      exact (List.getElem?_eq_some_iff.mp hk).1
    obtain ⟨q'', hk', hwaits⟩ := heach k _ (List.getElem?_eq_getElem hlt)
    obtain rfl := Option.some.inj (hk.symm.trans hk')
    rcases hwaits τ with hsame | ⟨-, hnone⟩
    · exact .inl ⟨k, _, List.getElem?_eq_getElem hlt, by rw [← hsame, hq]⟩
    · rw [hnone] at hq
      cases hq
  | @refused s l u session env heard code =>
    obtain ⟨k, q, hk, hq⟩ := hw
    have hplugins : (s.sendError u.peer env code).core.plugins = s.core.plugins :=
      congrArg Ledger.plugins (s.sendError_plain u.peer env code).1
    exact .inl ⟨k, q, hplugins ▸ hk, hq⟩
  | settled =>
    rcases Exec.callPlugin_files hw with hold | ⟨-, peer, env, hcall, -⟩
    · exact .inl hold
    · cases hcall
  | trans h₁ _ ih ih' =>
    rcases ih' hw with hmid | ⟨hlate, hnew⟩
    · exact ih hmid
    · exact .inr ⟨Nat.lt_of_le_of_lt (h₁.token_le Builtin.issuing) hlate, hnew⟩

namespace Builtin

inductive IsNew : Builtin X → Prop where
  | clipboard (directions : Clipboard.Directions) : IsNew (.clipboard (.new X directions))
  | command (catalog : List Command.CommandEntry) : IsNew (.command (.new X catalog))
  | media : IsNew (.media (.default X))
  | ping : IsNew (.ping (.default X))
  | session : IsNew (.session (.default X))
  | share : IsNew (.share (.default X))
  | touchpad : IsNew (.touchpad (.default X))
  | wol (config : Wol.WolConfig) (allowlist : List String) : IsNew (.wol (.new X config allowlist))

theorem tabled_empty {α : Type} (pending : P → ExtTreeMap EffectToken α) (asker : α → Option Asker)
    (p : P) (h : pending p = ∅) (t : EffectToken) : tabled pending asker p t = none := by
  rw [tabled, h, ExtTreeMap.getElem?_empty]
  rfl

theorem IsNew.awaits {p : Builtin X} (h : p.IsNew) (t : EffectToken) : p.awaits t = none := by
  cases h with
  | clipboard directions => exact tabled_empty (·.pending) id (ClipboardPlugin.new X directions) rfl t
  | command catalog => exact tabled_empty (·.pending) some (CommandPlugin.new X catalog) rfl t
  | media => exact tabled_empty (·.pending) MediaPlugin.asker (MediaPlugin.default X) rfl t
  | session => exact tabled_empty (·.pending) SessionPlugin.asker (SessionPlugin.default X) rfl t
  | wol config allowlist => exact tabled_empty (·.pending) some (WolPlugin.new X config allowlist) rfl t
  | ping | share | touchpad => rfl

end Builtin

namespace Core

def handed [Plugin P] (c : Core X P) (i : Input X) : List PendingSend := (c.exec i).sends.map (·.2)

/-- From here on, the first result of the effect answers `who`, by the last message and no other,
and later results say nothing. -/
def AnsweredOnce (c : Core X (Builtin X)) (t : EffectToken) (who : Asker) : Prop :=
  ∀ (wait : List (Input X)) (done : Input X) (result : EffectResult),
    (∀ j ∈ wait, ∀ r, j.event ≠ .effectDone t r) → done.event = .effectDone t result →
    (∃ ms m, (c.run wait).handed done = ms ++ [m] ∧ (∀ m' ∈ ms, m'.re = none) ∧
      m.peer = who.1 ∧ m.re = some who.2) ∧
    ∀ (later : List (Input X)) (again : Input X) (result' : EffectResult),
      again.event = .effectDone t result' → (((c.run wait).step done).run later).handed again = []

def AnswersNobody (c : Core X (Builtin X)) (t : EffectToken) : Prop :=
  ∀ (js : List (Input X)) (done : Input X) (result : EffectResult),
    done.event = .effectDone t result → ∀ m ∈ (c.run js).handed done, m.re = none

section Steps
variable {c : Core X (Builtin X)} {i : Input X} {t : EffectToken} {who : Asker}
  {result : EffectResult}

theorem build_filed {b : CoreBuilder X (Builtin X)} (new : ∀ p ∈ b.plugins, p.IsNew) :
    b.build.Filed := by
  constructor
  · intro k q t who hk hq
    have hmem : q ∈ b.plugins := List.mem_of_getElem? hk
    rw [(new q hmem).awaits t] at hq
    cases hq
  · intro t k hk
    simp [CoreBuilder.build] at hk

theorem Filed.step (h : c.Filed) (i : Input X) : (c.step i).Filed :=
  ((c.exec_rounds i).filed (s := c.start i) (h.congr rfl rfl rfl)).1

theorem Filed.run (h : c.Filed) (is : List (Input X)) : (c.run is).Filed :=
  Lib.run_inv (fun _ i h => h.step i) h is

theorem Filed.waits_step (h : c.Filed) (hw : c.Waits t who)
    (hne : ∀ r, i.event ≠ .effectDone t r) : (c.step i).Waits t who :=
  ((c.exec_rounds i).filed (s := c.start i) (h.congr rfl rfl rfl)).2 t who hne hw

theorem Filed.waits_run {is : List (Input X)} (h : c.Filed) (hw : c.Waits t who)
    (hne : ∀ j ∈ is, ∀ r, j.event ≠ .effectDone t r) : (c.run is).Waits t who := by
  induction is generalizing c with
  | nil => exact hw
  | cons j js ih =>
    exact ih (h.step j) (h.waits_step hw (hne j List.mem_cons_self))
      fun k hk => hne k (List.mem_cons_of_mem _ hk)

/-- What the plugin that is owed a result says to it. -/
theorem handed_owned {idx : ℕ} {p : Builtin X} (h : c.effectOwner[t]? = some idx)
    (hp : c.plugins[idx]? = some p) (he : i.event = .effectDone t result) :
    c.handed i = (Plugin.call p ((c.start i).cx i.now.monotonicMs)
        (.effectResult t result)).2.1.sends ∧
      (c.step i).effectOwner = c.effectOwner.erase t ∧ (c.step i).nextToken = c.nextToken := by
  obtain ⟨new, herrands, hmap, -, -⟩ := Exec.callPlugin_spec
    { c.start i with core.effectOwner := c.effectOwner.erase t }
    ((c.start i).cx i.now.monotonicMs) (fun p cx => Plugin.call p cx (.effectResult t result)) hp
  rw [← exec_owned h he] at herrands
  obtain ⟨htoken, howner, hsends⟩ := Exec.core_of_errands herrands
  obtain ⟨heffects, hsame, -, -⟩ :=
    (p.call_act ((c.start i).cx i.now.monotonicMs) (.effectResult t result)).settles
  rw [heffects] at howner
  refine ⟨?_, howner, htoken.trans hsame⟩
  unfold handed
  rw [hsends]
  exact hmap

/-- The first result answers the request that waits for it, and spends the token. -/
theorem Filed.done (h : c.Filed) (hw : c.Waits t who) (he : i.event = .effectDone t result) :
    (∃ ms m, c.handed i = ms ++ [m] ∧ (∀ m' ∈ ms, m'.re = none) ∧ m.peer = who.1 ∧
      m.re = some who.2) ∧
    (c.step i).effectOwner[t]? = none ∧ t ≤ (c.step i).nextToken := by
  obtain ⟨idx, p, hp, hq⟩ := hw
  obtain ⟨hhanded, howner, htoken⟩ := handed_owned (h.owned idx p t who hp hq) hp he
  constructor
  · obtain ⟨ms, m, hsends, hidle, hanswers⟩ :=
      (p.call_act ((c.start i).cx i.now.monotonicMs) (.effectResult t result)).answers hq
    exact ⟨ms, m, hhanded.trans hsends, fun m' hm' => (hidle m' hm').1, hanswers.peer, hanswers.re⟩
  · rw [howner, htoken]
    exact ⟨ExtTreeMap.getElem?_erase_self, h.bound ⟨idx, p, hp, hq⟩⟩

theorem Filed.answeredOnce (h : c.Filed) (hw : c.Waits t who) : c.AnsweredOnce t who := by
  intro wait done result hwait hdone
  obtain ⟨hanswer, hspent⟩ := (h.run wait).done (h.waits_run hw hwait) hdone
  refine ⟨hanswer, fun later again result' hagain => ?_⟩
  unfold handed
  rw [exec_unowned (unowned_run Builtin.issuing hspent).1 hagain]
  rfl

theorem unwaited (hno : ∀ who, ¬ c.Waits t who) (he : i.event = .effectDone t result) :
    ∀ m ∈ c.handed i, m.re = none := by
  cases howner : c.effectOwner[t]? with
  | none =>
    unfold handed
    rw [exec_unowned howner he]
    intro m hm
    cases hm
  | some idx =>
    cases hp : c.plugins[idx]? with
    | none =>
      unfold handed
      rw [exec_owned howner he]
      unfold Exec.callPlugin
      have hp' : (c.start i).core.plugins[idx]? = none := hp
      rw [hp']
      intro m hm
      cases hm
    | some p =>
      have hnone : p.awaits t = none := by
        cases hq : p.awaits t with
        | none => rfl
        | some who => exact absurd ⟨idx, p, hp, hq⟩ (hno who)
      obtain ⟨ms, hsends, hidle⟩ :=
        (p.call_act ((c.start i).cx i.now.monotonicMs) (.effectResult t result)).answersNobody hnone
      rw [(handed_owned howner hp he).1, hsends]
      exact fun m hm => (hidle m hm).1

theorem unwaited_run {is : List (Input X)} (h : (∀ who, ¬ c.Waits t who) ∧ t ≤ c.nextToken) :
    (∀ who, ¬ (c.run is).Waits t who) ∧ t ≤ (c.run is).nextToken := by
  have hstep : ∀ (d : Core X (Builtin X)) (i : Input X),
      (∀ who, ¬ d.Waits t who) ∧ t ≤ d.nextToken →
      (∀ who, ¬ (d.step i).Waits t who) ∧ t ≤ (d.step i).nextToken := by
    rintro d i ⟨hno, hle⟩
    have hrounds := d.exec_rounds i
    refine ⟨fun who hw => ?_, hle.trans (hrounds.token_le Builtin.issuing)⟩
    rcases hrounds.files hw with hold | ⟨hlate, -⟩
    · exact hno who hold
    · exact absurd hle (Nat.not_le_of_lt hlate)
  exact Lib.run_inv hstep h is

/-- A request is refused with one `err`, or asks for one effect and waits for it. -/
theorem requested {l : LinkId} {u : UpLink X} {session : Session X} {env : Envelope}
    (heard : c.Hears i l u session env) (asks : env.asksHost) :
    (∃ m, c.handed i = [m] ∧ m.peer = u.peer ∧ m.ty = "err" ∧ m.re = some env.id ∧
      asked (c.handle i).2.actions = []) ∨
    (c.handed i = [] ∧ ∃ t e, asked (c.handle i).2.actions = [(t, e)] ∧
      (c.step i).Waits t (u.peer, env.id)) := by
  have hactions : (c.handle i).2.actions = (c.exec i).actions := rfl
  have hfate := heard.fate
  generalize hs : (⟨c.afterHearing i l u session, [], [], []⟩ : Exec X (Builtin X)) = s at hfate
  have hnosends : s.sends = [] := by rw [← hs]
  have hnoactions : s.actions = [] := by rw [← hs]
  cases hfate with
  | refused code turned exec =>
    obtain ⟨-, -, hsends⟩ := Exec.core_of_errands
      (s.dispatchSend_errands (Exec.errorReply X u.peer env code))
    obtain ⟨as, has, hp⟩ := (s.sendError_plain u.peer env code).2
    refine .inl ⟨Exec.errorReply X u.peer env code, ?_, rfl, rfl, rfl, ?_⟩
    · unfold handed
      rw [exec, Exec.sendError_eq, hsends, hnosends]
      rfl
    · rw [hactions, exec, has, asked_append, asked_of_plain hp, hnoactions]
      rfl
  | shown _ err _ =>
    rw [Proto.Envelope.asksHost, err] at asks
    simp [Media.simpleAction] at asks
  | @taken idx p cx _ _ _ owner plugin context ok exec =>
    obtain ⟨hlt, hhandles, -⟩ := List.findIdx?_eq_some_iff_getElem.mp owner
    have hp : s.core.plugins[idx] = p := by
      rw [List.getElem?_eq_getElem hlt] at plugin
      exact Option.some.inj plugin
    rw [hp] at hhandles
    obtain ⟨e, hasks, hwaits⟩ := p.onMessage_wanted cx u.peer env asks hhandles ok
    obtain ⟨new, herrands, hmap, hasked, hplugins⟩ :=
      s.callPlugin_spec cx (fun p cx => Plugin.call p cx (.message u.peer env)) plugin
    rw [← exec] at herrands hasked hplugins
    obtain ⟨-, -, hsends⟩ := Exec.core_of_errands herrands
    have hcx : cx.sends = [] ∧ cx.effects = [] := by
      rw [context]
      exact ⟨rfl, rfl⟩
    refine .inr ⟨?_, cx.nextToken + 1, e, ?_, ?_⟩
    · unfold handed
      rw [hsends, hnosends, List.nil_append, hmap]
      exact hasks.sends.trans hcx.1
    · have heffects := hasks.effects
      rw [hcx.2] at heffects
      rw [hactions, hasked, hnoactions]
      exact heffects
    · refine ⟨idx, (Plugin.onMessage p cx u.peer env).1, ?_, ?_⟩
      · change (c.exec i).core.plugins[idx]? = _
        rw [hplugins, List.getElem?_set_self hlt]
        rfl
      · rw [hwaits, Function.update_self]

/-- What a step asks for that hears no request is nobody's. -/
theorem asked_unwaited (deaf : ∀ l u session env, ¬ c.Hears i l u session env)
    (hold : ∀ who, ¬ c.Waits t who) : ∀ who, ¬ (c.step i).Waits t who := by
  intro who hw
  rcases (c.exec_rounds i).files hw with hw | ⟨-, l, u, session, env, heard, -⟩
  · exact hold who hw
  · obtain ⟨hevent, hframe, hlink, hdecrypt, hdecoded⟩ := heard
    exact deaf l u session env ⟨hevent, hframe, hlink, hdecrypt, hdecoded⟩

end Steps

/-- How the device answers at one point of its run. -/
structure Correlates (c₀ : Core X (Builtin X)) (before : List (Input X)) (i : Input X) : Prop where
  /-- A request is refused at once, or asks for one effect whose first result answers it. -/
  requests : ∀ (l : LinkId) (u : UpLink X) (session : Session X) (env : Envelope),
    (c₀.run before).Hears i l u session env → env.asksHost →
    (∃ m, (c₀.run before).handed i = [m] ∧ m.peer = u.peer ∧ m.ty = "err" ∧ m.re = some env.id ∧
      asked ((c₀.run before).handle i).2.actions = []) ∨
    ((c₀.run before).handed i = [] ∧ ∃ t e, asked ((c₀.run before).handle i).2.actions = [(t, e)] ∧
      ((c₀.run before).step i).AnsweredOnce t (u.peer, env.id))
  /-- What is asked for on a person's word, or to poll, answers nobody. -/
  polls : ∀ cmd, i.event = .localCommand cmd →
    ∀ t e, (t, e) ∈ asked ((c₀.run before).handle i).2.actions →
      ((c₀.run before).step i).AnswersNobody t
  /-- A token that was never given out brings nothing about. -/
  strangers : ∀ t result, i.event = .effectDone t result → ¬ c₀.AskedFor t before →
    (c₀.run before).handed i = []

end Core

open Acrylius.Core in
/-- On a device with any of the built-in plugins, every request has one reply. -/
theorem requests_answered_once (b : CoreBuilder X (Builtin X)) (new : ∀ p ∈ b.plugins, p.IsNew)
    (before : List (Core.Input X)) (i : Core.Input X) : b.build.Correlates before i := by
  have hfiled : (b.build.run before).Filed := (build_filed new).run before
  constructor
  · intro l u session env heard asks
    rcases requested heard asks with hrefused | ⟨hsilent, t, e, hasked, hwaits⟩
    · exact .inl hrefused
    · exact .inr ⟨hsilent, t, e, hasked, (hfiled.step i).answeredOnce hwaits⟩
  · intro cmd hevent t e hasked js done result hdone
    obtain ⟨hnew, hle⟩ := asked_issued Builtin.issuing hasked
    have hbefore : ∀ who, ¬ (b.build.run before).Waits t who :=
      fun who hw => absurd (hfiled.bound hw) (Nat.not_le_of_lt hnew)
    have hafter := asked_unwaited (i := i) (fun l u session env heard => by
      obtain ⟨hrecv, -⟩ := heard
      rw [hrecv] at hevent
      cases hevent) hbefore
    exact unwaited (unwaited_run ⟨hafter, hle⟩).1 hdone
  · intro t result hevent hnever
    cases howner : (b.build.run before).effectOwner[t]? with
    | none =>
      unfold handed
      rw [exec_unowned howner hevent]
      rfl
    | some idx => exact absurd (owned_asked rfl howner) hnever

namespace Mock

def lockingLaptop : CoreBuilder crates (Builtin crates) :=
  { laptop [Builtin.session (SessionPlugin.default crates)] with effects := [.session] }

def phoneSharing (cap : String) : List (Core.Input crates) :=
  [at_ 0 0 (.linkUp 0 (.tcpLan 1) none),
    at_ 1 5 (.linkRecv 0 (openerFrame 2 1 { phoneHello 1 with capsOut := [cap], capsIn := [cap] }))]

def lockingPhone : List (Core.Input crates) := phoneSharing SessionLock.cap

def phoneSeals {P : Type} (c : Core crates P) (env : Envelope) : Event :=
  match c.links[(0 : LinkId)]? with
  | some (.up u) =>
    let t : TransportState := u.session.state
    .linkRecv 0 (Frame.join .transport
      (crates.encode env ++ tag (!t.initiator) t.transcript t.received))
  | _ => .tick

def phoneLocks : Core.Input crates :=
  at_ 2 0 (phoneSeals (lockingLaptop.build.run lockingPhone)
    ⟨wireVersion, 7, none, SessionLock.cap, "lock", [], 0, none⟩)

end Mock

/-- The phone's request to lock the laptop waits for one effect, and is answered once. -/
theorem phone_lock_answered_once :
    ∃ t e, asked ((Mock.lockingLaptop.build.run Mock.lockingPhone).handle
        Mock.phoneLocks).2.actions = [(t, e)] ∧
      ((Mock.lockingLaptop.build.run Mock.lockingPhone).step Mock.phoneLocks).AnsweredOnce t
        (Mock.phone, 7) := by
  have hnew : ∀ p ∈ Mock.lockingLaptop.plugins, p.IsNew := by
    intro p hp
    obtain rfl := List.mem_singleton.mp hp
    exact .session
  have hasks : ∀ r ∈ (Mock.lockingLaptop.build.run Mock.lockingPhone).heard Mock.phoneLocks,
      r.2.2.2.asksHost ∧ r.2.1.peer = Mock.phone ∧ r.2.2.2.id = 7 := by decide +kernel
  have hsome : ((Mock.lockingLaptop.build.run Mock.lockingPhone).heard Mock.phoneLocks).isSome := by
    decide +kernel
  have hsilent : ((Mock.lockingLaptop.build.run Mock.lockingPhone).handed
      Mock.phoneLocks).length = 0 := by decide +kernel
  obtain ⟨⟨l, u, session, env⟩, hheard⟩ := Option.isSome_iff_exists.mp hsome
  obtain ⟨hask, hpeer, hid⟩ := hasks (l, u, session, env) hheard
  have hcorrelates := requests_answered_once Mock.lockingLaptop hnew Mock.lockingPhone Mock.phoneLocks
  rcases hcorrelates.requests l u session env (Core.hears_of_heard hheard) hask with
    ⟨m, hm, -⟩ | ⟨-, t, e, hasked, honce⟩
  · rw [hm] at hsilent
    cases hsilent
  · dsimp only at hpeer hid
    rw [hpeer, hid] at honce
    exact ⟨t, e, hasked, honce⟩

end Acrylius
