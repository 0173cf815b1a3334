import Acrylius.Plugins.WayBack

/-! What the host of the built-in plugins is asked to do, on which occasion, and within which bounds
that the host's own settings draw. -/
namespace Acrylius
open Proto Std

variable {X : Crates}

/-- What a built-in plugin is told when it is made, which nothing changes later. -/
inductive Settings where
  | clipboard (directions : Clipboard.Directions)
  | command (catalog : List Command.CommandEntry)
  | media
  | ping
  | session
  | share
  | touchpad
  | wol (config : Wol.WolConfig) (allowlist : List String)
deriving DecidableEq

def Builtin.settings : Builtin X → Settings
  | .clipboard p => .clipboard p.directions
  | .command p => .command p.catalog
  | .media _ => .media
  | .ping _ => .ping
  | .session _ => .session
  | .share _ => .share
  | .touchpad _ => .touchpad
  | .wol p => .wol p.config p.allowlist

/-- What a plugin with these settings may ask its host for when it is called so, on a host that
can do this much. -/
inductive Warrant (X : Crates) (serves : EffectSet) : Settings → Call → Effect → Prop where
  /-- A command of the list, by its id. -/
  | run {catalog peer env} {req : Command.RunRequest} (ty : env.ty = "run")
      (decoded : X.decode Command.RunRequest env.body = some req)
      (listed : ∃ entry ∈ catalog, entry.id = req.id) :
      Warrant X serves (.command catalog) (.message peer env) (.runCommand req.id)
  /-- A machine of the list, by its address, on the network of the settings. -/
  | wake {config allowlist peer env} {req : Wol.RelayRequest} (ty : env.ty = "relay")
      (decoded : X.decode Wol.RelayRequest env.body = some req)
      (twelve : (Wol.normalizeMac req.mac).length = 12)
      (listed : ∃ mac ∈ allowlist, Wol.normalizeMac mac = Wol.normalizeMac req.mac) :
      Warrant X serves (.wol config allowlist) (.message peer env)
        (.sendMagicPacket [req.mac] [config.broadcast] config.port.toNat)
  | lock {peer env} (ty : env.ty = "lock") : Warrant X serves .session (.message peer env) .lockSession
  | unlock {peer env} (ty : env.ty = "unlock") :
      Warrant X serves .session (.message peer env) .unlockSession
  | look {peer env} (ty : env.ty = "query") : Warrant X serves .session (.message peer env) .querySession
  /-- The host itself says that something has changed. -/
  | lookAgain {peer body} : Warrant X serves .session (.request peer "notify" body) .querySession
  | listen {peer env} (ty : env.ty = "query") : Warrant X serves .media (.message peer env) .mediaQuery
  | listenAgain {peer body} : Warrant X serves .media (.request peer "notify" body) .mediaQuery
  | control {peer env} {cmd : Media.MediaCommand} {action : MediaAction}
      (decoded : MediaPlugin.command X env.body = some cmd)
      (named : Media.actionFor env.ty cmd = .ok action) :
      Warrant X serves .media (.message peer env) (.mediaControl cmd.player action)
  /-- A short text that a peer volunteers, where that is wanted. -/
  | paste {directions peer env} {msg : Clipboard.ClipboardSet} (ty : env.ty = "set")
      (unasked : env.re = none) (decoded : X.decode Clipboard.ClipboardSet env.body = some msg)
      (wanted : directions.receive) (short : msg.data.length ≤ Clipboard.maxInline)
      (whole : msg.hash = Clipboard.hash X msg.data) :
      Warrant X serves (.clipboard directions) (.message peer env)
        (.clipboardWrite Clipboard.textPlain msg.data)
  | copy {directions peer env} (ty : env.ty = "get") :
      Warrant X serves (.clipboard directions) (.message peer env) .clipboardRead
  | stroke {peer env order op owner owner'} (able : serves .touchpad)
      (named : TouchpadPlugin.opOf (⟨order, owner⟩ : TouchpadPlugin X) peer env = .ok (op, owner')) :
      Warrant X serves .touchpad (.message peer env) (.touchpad (order + 1) op)
  /-- The finger of a peer that is gone is lifted. -/
  | lift {peer order} : Warrant X serves .touchpad (.disconnected peer) (.touchpad order .end)

/-- What every plugin is told of gives leave whatever the host can do. -/
theorem Warrant.forAll {st : Settings} {c : Call} {e : Effect} {serves : EffectSet}
    (h : Warrant X serves st c e) (hall : c.forAll) (serves' : EffectSet) :
    Warrant X serves' st c e := by
  cases h with
  | lift => exact .lift
  | _ => cases hall

def Cx.Adds (cx cx' : Cx) (may : Effect → Prop) : Prop :=
  ∃ new : List (EffectToken × Effect), cx'.effects = cx.effects ++ new ∧ ∀ e ∈ new, may e.2

namespace Cx.Adds
variable {cx cx' : Cx} {may : Effect → Prop}

theorem none_ (h : cx'.effects = cx.effects) : cx.Adds cx' may :=
  ⟨[], h.trans (List.append_nil _).symm, fun _ he => by cases he⟩

theorem one {e : Effect} (h : cx'.effects = (cx.effect e).1.effects) (he : may e) :
    cx.Adds cx' may := by
  refine ⟨[(cx.nextToken + 1, e)], h, fun e' he' => ?_⟩
  rw [List.mem_singleton.mp he']
  exact he

end Cx.Adds

namespace Builtin

theorem command_adds (p : CommandPlugin X) (cx : Cx) (peer : DeviceId) (env : Envelope) :
    cx.Adds (p.onMessage cx peer env).2.1
      (Warrant X cx.serves (.command p.catalog) (.message peer env)) := by
  unfold CommandPlugin.onMessage
  split
  · rename_i hty
    unfold CommandPlugin.onRun
    split
    · exact .none_ rfl
    · rename_i req hdec
      split
      · exact .none_ rfl
      · rename_i hlisted
        have hentry : ∃ entry ∈ p.catalog, entry.id = req.id := by simpa using hlisted
        exact .one rfl (.run hty hdec hentry)
  all_goals exact .none_ rfl

theorem wol_adds (p : WolPlugin X) (cx : Cx) (peer : DeviceId) (env : Envelope) :
    cx.Adds (p.onMessage cx peer env).2.1
      (Warrant X cx.serves (.wol p.config p.allowlist) (.message peer env)) := by
  unfold WolPlugin.onMessage
  split
  case h_4 hty =>
    unfold WolPlugin.onRelay
    split
    · exact .none_ rfl
    · rename_i req hdec
      dsimp only
      split
      · exact .none_ rfl
      · rename_i htwelve
        split
        · exact .none_ rfl
        · rename_i hlisted
          have hmac : ∃ mac ∈ p.allowlist, Wol.normalizeMac mac = Wol.normalizeMac req.mac := by
            simpa using hlisted
          exact .one rfl (.wake hty hdec (not_not.mp htwelve) hmac)
  all_goals exact .none_ rfl

theorem session_adds (p : SessionPlugin X) (cx : Cx) (peer : DeviceId) (env : Envelope) :
    cx.Adds (p.onMessage cx peer env).2.1 (Warrant X cx.serves .session (.message peer env)) := by
  unfold SessionPlugin.onMessage
  split
  · rename_i hty
    exact .one rfl (.look hty)
  · rename_i hty
    exact .one rfl (.lock hty)
  · rename_i hty
    exact .one rfl (.unlock hty)
  all_goals exact .none_ rfl

theorem media_adds (p : MediaPlugin X) (cx : Cx) (peer : DeviceId) (env : Envelope) :
    cx.Adds (p.onMessage cx peer env).2.1 (Warrant X cx.serves .media (.message peer env)) := by
  unfold MediaPlugin.onMessage
  split
  · rename_i hty
    exact .one rfl (.listen hty)
  · exact .none_ rfl
  · split
    · exact .none_ rfl
    · rename_i cmd hcmd
      split
      · exact .none_ rfl
      · rename_i action haction
        exact .one rfl (.control hcmd haction)

theorem clipboard_adds (p : ClipboardPlugin X) (cx : Cx) (peer : DeviceId) (env : Envelope) :
    cx.Adds (p.onMessage cx peer env).2.1
      (Warrant X cx.serves (.clipboard p.directions) (.message peer env)) := by
  unfold ClipboardPlugin.onMessage
  split
  · rename_i hty
    split
    · unfold ClipboardPlugin.onAnswer
      split
      · exact .none_ rfl
      · split
        · exact .none_ rfl
        · split <;> exact .none_ rfl
    · rename_i hre
      unfold ClipboardPlugin.onSet
      split
      · exact .none_ rfl
      · rename_i msg hdec
        split
        · exact .none_ rfl
        · rename_i hwanted
          split
          · exact .none_ rfl
          · rename_i hshort
            split
            · exact .none_ rfl
            · rename_i hmime
              split
              · exact .none_ rfl
              · rename_i hwhole
                have hunasked : env.re = none := by simpa using hre
                have hon : p.directions.receive = true := by simpa using hwanted
                have hwrite : Warrant X cx.serves (.clipboard p.directions) (.message peer env) _ :=
                  .paste hty hunasked hdec hon (Nat.le_of_not_lt hshort) (not_not.mp hwhole)
                rw [← not_not.mp hmime] at hwrite
                exact .one rfl hwrite
  · rename_i hty
    exact .one rfl (.copy hty)
  · exact .none_ rfl

theorem touchpad_adds (p : TouchpadPlugin X) (cx : Cx) (peer : DeviceId) (env : Envelope) :
    cx.Adds (p.onMessage cx peer env).2.1 (Warrant X cx.serves .touchpad (.message peer env)) := by
  unfold TouchpadPlugin.onMessage
  split
  · exact .none_ rfl
  · split
    · exact .none_ rfl
    · rename_i hable
      split
      · exact .none_ rfl
      · rename_i op owner hop
        exact .one rfl (.stroke (by simpa using hable) hop)

theorem share_effects (p : SharePlugin X) (cx : Cx) (c : Call) :
    (Plugin.call p cx c).2.1.effects = cx.effects := by
  have hmove := p.call_move cx c
  generalize (Plugin.call p cx c).1 = p' at hmove
  generalize (Plugin.call p cx c).2.1 = cx' at hmove ⊢
  cases hmove <;> rfl

/-- What a plugin does on a message of its own host: two of them have a look. -/
theorem request_adds (p : Builtin X) (cx : Cx) (peer : DeviceId) (ty : String) (body : Bytes) :
    cx.Adds (Plugin.call p cx (.request peer ty body)).2.1
      (Warrant X cx.serves p.settings (.request peer ty body)) := by
  cases p with
  | session p =>
    change cx.Adds (p.onLocal cx peer ty).2.1 _
    unfold SessionPlugin.onLocal
    split
    · exact .one rfl .lookAgain
    all_goals exact .none_ rfl
  | media p =>
    change cx.Adds (p.onLocal cx peer ty body).2.1 _
    unfold MediaPlugin.onLocal
    split
    · exact .one rfl .listenAgain
    · exact .none_ rfl
    · split
      · exact .none_ rfl
      · split <;> exact .none_ rfl
  | clipboard p =>
    refine .none_ ?_
    change (p.onLocal cx peer ty body).2.1.effects = _
    have hoffer : ∀ deliberate, (p.offer cx body deliberate).2.1.effects = cx.effects := by
      intro deliberate
      unfold ClipboardPlugin.offer
      split
      · rfl
      · split
        · rfl
        · split
          · rfl
          · exact (Cx.Queues.tell cx _ _ _ _ _).effects
    unfold ClipboardPlugin.onLocal
    split
    · exact hoffer false
    · exact hoffer true
    · rfl
    · rfl
  | command p =>
    refine .none_ ?_
    change (p.onLocal cx peer ty body).2.1.effects = _
    unfold CommandPlugin.onLocal
    split <;> rfl
  | wol p =>
    refine .none_ ?_
    change (p.onLocal cx peer ty body).2.1.effects = _
    unfold WolPlugin.onLocal
    split <;> rfl
  | touchpad p =>
    refine .none_ ?_
    change (p.onLocal cx peer ty body).2.1.effects = _
    unfold TouchpadPlugin.onLocal
    split <;> rfl
  | ping p =>
    refine .none_ ?_
    change (p.onLocal cx peer ty body).2.1.effects = _
    unfold PingPlugin.onLocal
    split <;> rfl
  | share p => exact .none_ (share_effects p cx (.request peer ty body))

theorem effectResult_effects (p : Builtin X) (cx : Cx) (token : EffectToken)
    (result : EffectResult) :
    (Plugin.call p cx (.effectResult token result)).2.1.effects = cx.effects := by
  have hact := p.call_act cx (.effectResult token result)
  generalize (Plugin.call p cx (.effectResult token result)).1 = p' at hact
  generalize (Plugin.call p cx (.effectResult token result)).2.1 = cx' at hact ⊢
  cases hact with
  | told _ queued => exact queued.effects
  | settled _ _ queued => exact queued.effects
  | wished _ other => exact absurd rfl (other token result)
  | replied _ _ other => exact absurd rfl (other token result)

/-- Whatever it is called for. -/
theorem call_adds (p : Builtin X) (cx : Cx) (c : Call) :
    cx.Adds (Plugin.call p cx c).2.1 (Warrant X cx.serves p.settings c) := by
  cases c with
  | message peer env =>
    cases p with
    | clipboard p => exact clipboard_adds p cx peer env
    | command p => exact command_adds p cx peer env
    | media p => exact media_adds p cx peer env
    | session p => exact session_adds p cx peer env
    | touchpad p => exact touchpad_adds p cx peer env
    | wol p => exact wol_adds p cx peer env
    | share p => exact .none_ (share_effects p cx (.message peer env))
    | ping p =>
      refine .none_ ?_
      change (p.onMessage cx peer env).2.1.effects = _
      unfold PingPlugin.onMessage
      split <;> rfl
  | connected peer => exact .none_ (p.connected_effects cx peer)
  | disconnected peer =>
    cases p with
    | touchpad p =>
      change cx.Adds (p.onPeerDisconnected cx peer).2 _
      unfold TouchpadPlugin.onPeerDisconnected
      split
      · exact .one rfl .lift
      · exact .none_ rfl
    | clipboard | command | media | ping | session | share | wol => exact .none_ rfl
  | request peer ty body => exact p.request_adds cx peer ty body
  | effectResult token result => exact .none_ (p.effectResult_effects cx token result)
  | bulkListening t endpoint =>
    cases p with
    | share p => exact .none_ (share_effects p cx (.bulkListening t endpoint))
    | clipboard | command | media | ping | session | touchpad | wol => exact .none_ rfl
  | bulkFinished t ok detail =>
    cases p with
    | share p => exact .none_ (share_effects p cx (.bulkFinished t ok detail))
    | clipboard | command | media | ping | session | touchpad | wol => exact .none_ rfl
  | tick => cases p <;> exact .none_ rfl

theorem clipboard_settings (p : ClipboardPlugin X) (cx : Cx) (c : Call) :
    (Plugin.call p cx c).1.directions = p.directions := by
  cases c with
  | message peer env =>
    change (p.onMessage cx peer env).1.directions = _
    unfold ClipboardPlugin.onMessage
    split
    · split
      · unfold ClipboardPlugin.onAnswer
        split
        · rfl
        · split
          · rfl
          · split <;> rfl
      · unfold ClipboardPlugin.onSet
        split
        · rfl
        · split
          · rfl
          · split
            · rfl
            · split
              · rfl
              · split <;> rfl
    · rfl
    · rfl
  | request peer ty body =>
    have hecho : ∀ h, (p.takeEcho h).1.directions = p.directions := by
      intro h
      unfold ClipboardPlugin.takeEcho
      split <;> rfl
    have hoffer : ∀ deliberate, (p.offer cx body deliberate).1.directions = p.directions := by
      intro deliberate
      have htake := hecho (Clipboard.hash X body)
      unfold ClipboardPlugin.offer
      split
      · rfl
      · split
        · rfl
        · split
          · rename_i q heq
            rwa [heq] at htake
          · rename_i q heq
            rwa [heq] at htake
    change (p.onLocal cx peer ty body).1.directions = _
    unfold ClipboardPlugin.onLocal
    split
    · exact hoffer false
    · exact hoffer true
    · rfl
    · rfl
  | effectResult token result =>
    change (p.onEffectResult cx token result).1.directions = _
    unfold ClipboardPlugin.onEffectResult
    split
    · rfl
    · rfl
    · cases result <;> rfl
  | connected | disconnected | bulkListening | bulkFinished | tick => rfl

theorem command_settings (p : CommandPlugin X) (cx : Cx) (c : Call) :
    (Plugin.call p cx c).1.catalog = p.catalog := by
  cases c with
  | message peer env =>
    change (p.onMessage cx peer env).1.catalog = _
    unfold CommandPlugin.onMessage
    split
    · unfold CommandPlugin.onRun
      split
      · rfl
      · split <;> rfl
    · unfold CommandPlugin.onList
      dsimp only
      split <;> rfl
    all_goals rfl
  | request peer ty body =>
    change (p.onLocal cx peer ty body).1.catalog = _
    unfold CommandPlugin.onLocal
    split <;> rfl
  | effectResult token result =>
    change (p.onEffectResult cx token result).1.catalog = _
    unfold CommandPlugin.onEffectResult
    split <;> rfl
  | connected | disconnected | bulkListening | bulkFinished | tick => rfl

theorem wol_settings (p : WolPlugin X) (cx : Cx) (c : Call) :
    (Plugin.call p cx c).1.config = p.config ∧ (Plugin.call p cx c).1.allowlist = p.allowlist := by
  cases c with
  | message peer env =>
    change (p.onMessage cx peer env).1.config = _ ∧ (p.onMessage cx peer env).1.allowlist = _
    unfold WolPlugin.onMessage
    split
    case h_4 =>
      unfold WolPlugin.onRelay
      split
      · exact ⟨rfl, rfl⟩
      · dsimp only
        split
        · exact ⟨rfl, rfl⟩
        · split <;> exact ⟨rfl, rfl⟩
    all_goals exact ⟨rfl, rfl⟩
  | request peer ty body =>
    change (p.onLocal cx peer ty body).1.config = _ ∧ (p.onLocal cx peer ty body).1.allowlist = _
    unfold WolPlugin.onLocal
    split <;> exact ⟨rfl, rfl⟩
  | effectResult token result =>
    change (p.onEffectResult cx token result).1.config = _ ∧
      (p.onEffectResult cx token result).1.allowlist = _
    unfold WolPlugin.onEffectResult
    split <;> exact ⟨rfl, rfl⟩
  | connected | disconnected | bulkListening | bulkFinished | tick => exact ⟨rfl, rfl⟩

theorem call_settings (p : Builtin X) (cx : Cx) (c : Call) :
    (Plugin.call p cx c).1.settings = p.settings := by
  cases p with
  | clipboard p =>
    rw [boxes_clipboard p cx c]
    exact congrArg Settings.clipboard (clipboard_settings p cx c)
  | command p =>
    rw [boxes_command p cx c]
    exact congrArg Settings.command (command_settings p cx c)
  | wol p =>
    rw [boxes_wol p cx c]
    obtain ⟨hconfig, hallow⟩ := wol_settings p cx c
    exact congrArg₂ Settings.wol hconfig hallow
  | media | ping | session | share | touchpad => cases c <;> rfl

end Builtin

/-- When a step calls the plugin at `idx` for something it may ask its host for: a peer's message
comes over their session, the host itself has word for it, or a peer's last session is gone. -/
inductive Core.Occasion {P : Type} [Plugin P] (c : Core X P) (i : Core.Input X) (idx : ℕ) :
    Call → Prop where
  | message {peer env} (delivers : c.Delivers i idx peer env) : Occasion c i idx (.message peer env)
  | request {peer cap ty body} (event : i.event = .localCommand (.plugin peer cap ty body)) :
      Occasion c i idx (.request peer ty body)
  | parted {peer} (gone : c.parts i = some peer) : Occasion c i idx (.disconnected peer)

def Core.Warranted (c : Core X (Builtin X)) (i : Core.Input X) (e : Effect) : Prop :=
  ∃ (idx : ℕ) (st : Settings) (call : Call), (c.plugins.map Builtin.settings)[idx]? = some st ∧
    c.Occasion i idx call ∧ Warrant X c.serves st call e

namespace Builtin

theorem forEachPlugin_adds (ps : List (Builtin X)) (cx : Cx) {c : Call} (hall : c.forAll)
    (serves : EffectSet) : ∀ e ∈ (forEachPlugin (fun p cx => ((Plugin.call p cx c).1, (Plugin.call p cx c).2.1)) ps
      cx).2.effects, e ∈ cx.effects ∨
        ∃ (idx : ℕ) (p : Builtin X), ps[idx]? = some p ∧ Warrant X serves p.settings c e.2 := by
  induction ps generalizing cx with
  | nil => exact fun e he => .inl he
  | cons p ps ih =>
    intro e he
    obtain ⟨new, hnew, hmay⟩ := p.call_adds cx c
    rcases ih (Plugin.call p cx c).2.1 e he with he | ⟨idx, q, hq, hw⟩
    · rw [hnew] at he
      rcases List.mem_append.mp he with he | he
      · exact .inl he
      · exact .inr ⟨0, p, rfl, (hmay e he).forAll hall serves⟩
    · exact .inr ⟨idx + 1, q, hq, hw⟩

theorem forEachPlugin_settings (ps : List (Builtin X)) (cx : Cx) (c : Call) :
    (forEachPlugin (fun p cx => ((Plugin.call p cx c).1, (Plugin.call p cx c).2.1)) ps
      cx).1.map settings = ps.map settings := by
  induction ps generalizing cx with
  | nil => rfl
  | cons p ps ih => exact congrArg₂ List.cons (p.call_settings cx c) (ih (Plugin.call p cx c).2.1)

variable {s : Exec X (Builtin X)} {idx : ℕ} {cx : Cx} {c : Call}

/-- A plugin that is called keeps its settings, and asks for what it may. -/
theorem callPlugin_adds (hcx : cx.effects = []) :
    (s.callPlugin idx cx fun p cx => Plugin.call p cx c).1.core.plugins.map settings =
      s.core.plugins.map settings ∧
    ∀ e ∈ asked (s.callPlugin idx cx fun p cx => Plugin.call p cx c).1.actions,
      e ∈ asked s.actions ∨ ∃ st, (s.core.plugins.map settings)[idx]? = some st ∧
        Warrant X cx.serves st c e.2 := by
  cases hp : s.core.plugins[idx]? with
  | none =>
    unfold Exec.callPlugin
    rw [hp]
    exact ⟨rfl, fun e he => .inl he⟩
  | some p =>
    obtain ⟨-, -, -, hasked, hplugins⟩ := s.callPlugin_spec cx (fun p cx => Plugin.call p cx c) hp
    have hst : (s.core.plugins.map settings)[idx]? = some p.settings := by
      rw [List.getElem?_map, hp]
      rfl
    constructor
    · obtain ⟨hlt, hget⟩ := List.getElem?_eq_some_iff.mp hst
      rw [hplugins, List.map_set, p.call_settings cx c, ← hget]
      exact List.set_getElem_self hlt
    · intro e he
      rw [hasked] at he
      rcases List.mem_append.mp he with he | he
      · exact .inl he
      · obtain ⟨new, hnew, hmay⟩ := p.call_adds cx c
        rw [hnew, hcx] at he
        exact .inr ⟨p.settings, hst, hmay e he⟩

theorem callAllPlugins_adds (nowMs : ℕ) (hall : c.forAll) (serves : EffectSet) :
    (s.callAllPlugins nowMs fun p cx => ((Plugin.call p cx c).1,
      (Plugin.call p cx c).2.1)).core.plugins.map settings = s.core.plugins.map settings ∧
    ∀ e ∈ asked (s.callAllPlugins nowMs fun p cx => ((Plugin.call p cx c).1,
      (Plugin.call p cx c).2.1)).actions, e ∈ asked s.actions ∨
        ∃ (idx : ℕ) (st : Settings), (s.core.plugins.map settings)[idx]? = some st ∧
          Warrant X serves st c e.2 := by
  obtain ⟨-, -, -, hasked, hplugins⟩ := s.callAllPlugins_spec nowMs fun p cx =>
    ((Plugin.call p cx c).1, (Plugin.call p cx c).2.1)
  constructor
  · rw [hplugins]
    exact forEachPlugin_settings s.core.plugins (s.cx nowMs) c
  · intro e he
    rw [hasked] at he
    rcases List.mem_append.mp he with he | he
    · exact .inl he
    · rcases forEachPlugin_adds _ _ hall serves e he with he | ⟨idx, p, hp, hw⟩
      · cases he
      · refine .inr ⟨idx, p.settings, ?_, hw⟩
        rw [List.getElem?_map, hp]
        rfl

end Builtin

/-- Every stretch of a step keeps the settings, and asks for what it may. -/
theorem Rounds.warranted {c : Core X (Builtin X)} {i : Core.Input X} {s t : Exec X (Builtin X)}
    (h : Rounds i (c.start i) s t)
    (hs : s.core.plugins.map Builtin.settings = c.plugins.map Builtin.settings) :
    t.core.plugins.map Builtin.settings = c.plugins.map Builtin.settings ∧
      ∀ e ∈ asked t.actions, e ∈ asked s.actions ∨ c.Warranted i e.2 := by
  induction h with
  | calm h =>
    rw [h.plugins, h.asked]
    exact ⟨hs, fun e he => .inl he⟩
  | released plugins _ hasked =>
    rw [plugins, hasked]
    exact ⟨hs, fun e he => .inl he⟩
  | @called s idx cx call due other =>
    have hcx : cx.effects = [] := by cases due <;> rfl
    obtain ⟨hkept, hadds⟩ := @Builtin.callPlugin_adds X s idx cx call hcx
    refine ⟨hkept.trans hs, fun e he => ?_⟩
    rcases hadds e he with he | ⟨st, hst, hw⟩
    · exact .inl he
    · refine .inr ⟨idx, st, call, hs ▸ hst, ?_⟩
      cases due with
      | message event frame link decrypt decoded negotiated message owner state =>
        rw [state] at hw
        exact ⟨.message (.intro event frame link decrypt decoded negotiated message owner), hw⟩
      | request event owner state =>
        rw [state] at hw
        exact ⟨.request event, hw⟩
      | effectResult | listening | finished | expired => cases hw
  | @calledAll s call hall parted =>
    obtain ⟨hkept, hadds⟩ := Builtin.callAllPlugins_adds (s := s) i.now.monotonicMs hall
      c.serves
    refine ⟨hkept.trans hs, fun e he => ?_⟩
    rcases hadds e he with he | ⟨idx, st, hst, hw⟩
    · exact .inl he
    · refine .inr ⟨idx, st, call, hs ▸ hst, ?_, hw⟩
      cases call with
      | disconnected peer => exact .parted (parted peer rfl)
      | connected | tick => cases hw
      | message | request | effectResult | bulkListening | bulkFinished => cases hall
  | @refused s l u session env heard code =>
    have hplain := Exec.sendError_plain s u.peer env code
    obtain ⟨hledger, as, hactions, has⟩ := hplain
    have hplugins : (s.sendError u.peer env code).core.plugins = s.core.plugins :=
      congrArg Ledger.plugins hledger
    rw [hplugins, hactions, asked_append, asked_of_plain has, List.append_nil]
    exact ⟨hs, fun e he => .inl he⟩
  | @settled s token result idx event state owner =>
    obtain ⟨hkept, hadds⟩ := @Builtin.callPlugin_adds X
      { s with core.effectOwner := s.core.effectOwner.erase token } idx
      (s.cx i.now.monotonicMs) (.effectResult token result) rfl
    refine ⟨hkept.trans hs, fun e he => ?_⟩
    rcases hadds e he with he | ⟨st, -, hw⟩
    · exact .inl he
    · cases hw
  | trans _ _ ih ih' =>
    obtain ⟨hkept, hadds⟩ := ih hs
    obtain ⟨hkept', hadds'⟩ := ih' hkept
    refine ⟨hkept', fun e he => ?_⟩
    rcases hadds' e he with he | hw
    · exact hadds e he
    · exact .inr hw

theorem mem_asked {as : List Action} {token : EffectToken} {e : Effect} :
    (token, e) ∈ asked as ↔ .effect token e ∈ as := by
  constructor
  · intro h
    obtain ⟨a, ha, hasks⟩ := List.mem_filterMap.mp h
    cases a with
    | effect =>
      cases hasks
      exact ha
    | _ => cases hasks
  · exact fun h => List.mem_filterMap.mpr ⟨_, h, rfl⟩

namespace Mock

def willingLaptop : CoreBuilder crates (Builtin crates) :=
  { laptop [Builtin.command (CommandPlugin.new crates [⟨"shot", "Screenshot", false⟩])] with
    effects := [.command] }

def phoneAsks : Core.Input crates :=
  at_ 2 0 (phoneSeals (willingLaptop.build.run (phoneSharing Command.cap))
    ⟨wireVersion, 7, none, Command.cap, "run", crates.encode (⟨"shot"⟩ : Command.RunRequest), 0, none⟩)

end Mock

end Acrylius
