import Acrylius.Plugins.Acts
import Acrylius.Plugins.Announced
import Acrylius.Plugins.Moves

/-! Where what the built-in plugins put on the screen comes from: a message of the peer it names,
shown as it came or under our own number, or what this machine has to say about a transfer. -/
namespace Acrylius
open Proto Std

variable {X : Crates}

/-- What a plugin of this capability may show when it is called so. -/
inductive Word : String → Call → UiEvent → Prop where
  | heard {cap peer env} : Word cap (.message peer env) (.plugin peer cap env.ty env.body)
  /-- The number of a transfer is another here. -/
  | renumbered {peer env body} :
      Word Share.cap (.message peer env) (.plugin peer Share.cap env.ty body)
  | available {peer env} (ty : env.ty = "avail") :
      Word Touchpad.cap (.message peer env) (.plugin peer Touchpad.cap "avail" [])
  /-- The commands that the peer listed last. -/
  | listed {peer body list} :
      Word Command.cap (.request peer "list" body) (.plugin peer Command.cap "list" list)
  | unsendable {peer body refusal} :
      Word Share.cap (.request peer "offer" body) (.plugin peer Share.cap "reject" refusal)
  | ended {t ok detail peer body} :
      Word Share.cap (.bulkFinished t ok detail) (.plugin peer Share.cap "finished" body)
  | failed {cap call peer code detail} : Word cap call (.error peer code detail)

def Cx.Says (cap : String) (c : Call) (cx cx' : Cx) : Prop :=
  ∃ es, cx'.ui = cx.ui ++ es ∧ ∀ e ∈ es, Word cap c e

namespace Cx.Says
variable {cap : String} {c : Call} {cx cx' : Cx}

theorem same (h : cx'.ui = cx.ui) : cx.Says cap c cx' :=
  ⟨[], h.trans (List.append_nil _).symm, fun _ he => by cases he⟩

theorem one {e : UiEvent} (h : cx'.ui = cx.ui ++ [e]) (he : Word cap c e) : cx.Says cap c cx' := by
  refine ⟨[e], h, fun e' he' => ?_⟩
  rw [List.mem_singleton.mp he']
  exact he

theorem heard {peer : DeviceId} {env : Envelope} {ty : String} (hty : env.ty = ty)
    (h : cx'.ui = cx.ui ++ [.plugin peer cap ty env.body]) :
    cx.Says cap (.message peer env) cx' := by
  subst hty
  exact one h .heard

end Cx.Says

section Hooks
variable (cx : Cx)

theorem PingPlugin.call_says (p : PingPlugin X) (c : Call) :
    cx.Says Ping.cap c (Plugin.call p cx c).2.1 := by
  cases c with
  | message peer env =>
    show cx.Says _ _ (p.onMessage cx peer env).2.1
    unfold onMessage
    split
    · exact .same rfl
    · rename_i hty
      exact .heard hty rfl
    · exact .same rfl
  | request peer ty body =>
    show cx.Says _ _ (p.onLocal cx peer ty body).2.1
    unfold onLocal
    split
    · exact .same rfl
    · exact .same rfl
  | _ => exact .same rfl

theorem TouchpadPlugin.call_says (p : TouchpadPlugin X) (c : Call) :
    cx.Says Touchpad.cap c (Plugin.call p cx c).2.1 := by
  cases c with
  | message peer env =>
    show cx.Says _ _ (p.onMessage cx peer env).2.1
    unfold onMessage
    split
    · rename_i hty
      exact .one rfl (.available hty)
    · split
      · exact .same rfl
      · split
        · exact .same rfl
        · exact .same rfl
  | request peer ty body =>
    show cx.Says _ _ (p.onLocal cx peer ty body).2.1
    unfold onLocal
    split
    · exact .same rfl
    · exact .same rfl
    · exact .same rfl
    · exact .same rfl
  | connected peer =>
    show cx.Says _ _ (p.onPeerConnected cx peer).2
    unfold onPeerConnected
    dsimp only
    split
    · exact .same rfl
    · exact .same rfl
  | disconnected peer =>
    show cx.Says _ _ (p.onPeerDisconnected cx peer).2
    unfold onPeerDisconnected
    split
    · exact .same rfl
    · exact .same rfl
  | _ => exact .same rfl

theorem SharePlugin.call_says (p : SharePlugin X) (c : Call) :
    cx.Says Share.cap c (Plugin.call p cx c).2.1 := by
  have hmove := p.call_move cx c
  revert hmove
  generalize (Plugin.call p cx c).1 = p'
  generalize (Plugin.call p cx c).2.1 = cx'
  intro hmove
  have renumbered : ∀ {cx' : Cx} {peer : DeviceId} {env : Envelope} {ty : String} {body : Bytes},
      env.ty = ty → cx'.ui = cx.ui ++ [.plugin peer Share.cap ty body] →
      cx.Says Share.cap (.message peer env) cx' := by
    rintro cx' peer env ty body rfl hui
    exact .one hui .renumbered
  cases hmove with
  | offered ty => exact renumbered ty rfl
  | rejected ty => exact renumbered ty rfl
  | finished ty => exact renumbered ty rfl
  | unsendable =>
    refine ⟨[_, _], List.append_assoc .., fun e he => ?_⟩
    rcases List.mem_cons.mp he with rfl | he
    · exact .failed
    · rw [List.mem_singleton.mp he]
      exact .unsendable
  | ended ours => exact .one rfl .ended
  | _ => exact .same rfl

theorem WolPlugin.call_says (p : WolPlugin X) (c : Call) :
    cx.Says Wol.cap c (Plugin.call p cx c).2.1 := by
  cases c with
  | message peer env =>
    show cx.Says _ _ (p.onMessage cx peer env).2.1
    unfold onMessage
    split
    · exact .heard rfl rfl
    · exact .heard rfl rfl
    · exact .heard rfl rfl
    · unfold onRelay
      split
      · exact .same rfl
      · dsimp only
        split_ifs
        · exact .same rfl
        · exact .same rfl
        · exact .same rfl
    · exact .same rfl
  | request peer ty body =>
    show cx.Says _ _ (p.onLocal cx peer ty body).2.1
    unfold onLocal
    split
    · exact .same rfl
    · exact .same rfl
  | connected peer =>
    show cx.Says _ _ (p.onPeerConnected cx peer).2
    unfold onPeerConnected
    dsimp only
    split
    · exact .same rfl
    · exact .same rfl
  | effectResult token result =>
    show cx.Says _ _ (p.onEffectResult cx token result).2
    unfold onEffectResult
    split
    · exact .same rfl
    · cases result with
      | _ => exact .same rfl
  | _ => exact .same rfl

theorem CommandPlugin.call_says (p : CommandPlugin X) (c : Call) :
    cx.Says Command.cap c (Plugin.call p cx c).2.1 := by
  cases c with
  | message peer env =>
    show cx.Says _ _ (p.onMessage cx peer env).2.1
    unfold onMessage
    split
    · unfold onRun
      split
      · exact .same rfl
      · split
        · exact .same rfl
        · exact .same rfl
    · rename_i hty
      exact .heard hty rfl
    · exact .heard rfl rfl
    · exact .heard rfl rfl
    · exact .heard rfl rfl
    · exact .heard rfl rfl
    · exact .same rfl
  | request peer ty body =>
    show cx.Says _ _ (p.onLocal cx peer ty body).2.1
    unfold onLocal
    split
    · exact .same rfl
    · exact .one rfl .listed
    · exact .same rfl
  | connected peer =>
    show cx.Says _ _ (p.onPeerConnected cx peer).2
    unfold onPeerConnected
    dsimp only
    split
    · exact .same rfl
    · exact .same rfl
  | effectResult token result =>
    show cx.Says _ _ (p.onEffectResult cx token result).2
    unfold onEffectResult
    split
    · exact .same rfl
    · cases result with
      | _ => exact .same rfl
  | _ => exact .same rfl

theorem ClipboardPlugin.offer_ui (p : ClipboardPlugin X) (body : Bytes) (deliberate : Bool) :
    (p.offer cx body deliberate).2.1.ui = cx.ui := by
  unfold offer
  split
  · rfl
  · split
    · rfl
    · split
      · rfl
      · rw [Cx.tell_eq]

theorem ClipboardPlugin.call_says (p : ClipboardPlugin X) (c : Call) :
    cx.Says Clipboard.cap c (Plugin.call p cx c).2.1 := by
  cases c with
  | message peer env =>
    show cx.Says _ _ (p.onMessage cx peer env).2.1
    unfold onMessage
    split
    · rename_i hty
      split
      · unfold onAnswer
        split
        · exact .same rfl
        · split_ifs
          · exact .same rfl
          · exact .same rfl
          · exact .heard hty rfl
      · unfold onSet
        split
        · exact .same rfl
        · split_ifs
          · exact .same rfl
          · exact .same rfl
          · exact .same rfl
          · exact .same rfl
          · exact .heard hty rfl
    · exact .same rfl
    · exact .same rfl
  | request peer ty body =>
    show cx.Says _ _ (p.onLocal cx peer ty body).2.1
    unfold onLocal
    split
    · exact .same (p.offer_ui cx body false)
    · exact .same (p.offer_ui cx body true)
    · exact .same rfl
    · exact .same rfl
  | effectResult token result =>
    show cx.Says _ _ (p.onEffectResult cx token result).2
    unfold onEffectResult
    split
    · exact .same rfl
    · exact .same rfl
    · cases result with
      | _ => exact .same rfl
  | _ => exact .same rfl

theorem MediaPlugin.refresh_ui (p : MediaPlugin X) (state : Media.MediaState)
    (alreadyTold : Option DeviceId) : (p.refresh cx state alreadyTold).2.ui = cx.ui := by
  unfold refresh
  dsimp only
  split
  · unfold broadcastExcept
    rw [Cx.tell_eq]
  · rfl

theorem MediaPlugin.call_says (p : MediaPlugin X) (c : Call) :
    cx.Says Media.cap c (Plugin.call p cx c).2.1 := by
  cases c with
  | message peer env =>
    show cx.Says _ _ (p.onMessage cx peer env).2.1
    unfold onMessage
    split
    · exact .same rfl
    · rename_i hty
      exact .heard rfl rfl
    · split
      · exact .same rfl
      · split
        · exact .same rfl
        · exact .same rfl
  | request peer ty body =>
    show cx.Says _ _ (p.onLocal cx peer ty body).2.1
    unfold onLocal
    split
    · exact .same rfl
    · exact .same rfl
    · split
      · exact .same rfl
      · split
        · exact .same rfl
        · exact .same rfl
  | connected peer =>
    show cx.Says _ _ (p.onPeerConnected cx peer).2
    unfold onPeerConnected
    dsimp only
    split
    · exact .same rfl
    · exact .same rfl
  | effectResult token result =>
    show cx.Says _ _ (p.onEffectResult cx token result).2
    unfold onEffectResult
    split
    · exact .same rfl
    · unfold answer
      split
      · split
        · exact .same rfl
        · exact .same rfl
        · exact .same (refresh_ui cx _ _ _)
        · exact .same (refresh_ui cx _ _ _)
      · exact .same rfl
      · exact .same rfl
      · exact .same rfl
      · exact .same rfl
  | _ => exact .same rfl

theorem SessionPlugin.refresh_ui (p : SessionPlugin X) (state : SessionLock.SessionState)
    (alreadyTold : Option DeviceId) : (p.refresh cx state alreadyTold).2.ui = cx.ui := by
  unfold refresh
  split
  · rfl
  · unfold broadcastStateExcept
    rw [Cx.tell_eq]

theorem SessionPlugin.call_says (p : SessionPlugin X) (c : Call) :
    cx.Says SessionLock.cap c (Plugin.call p cx c).2.1 := by
  cases c with
  | message peer env =>
    show cx.Says _ _ (p.onMessage cx peer env).2.1
    unfold onMessage
    split
    · exact .same rfl
    · exact .same rfl
    · exact .same rfl
    · exact .heard rfl rfl
    · exact .heard rfl rfl
    · exact .same rfl
  | request peer ty body =>
    show cx.Says _ _ (p.onLocal cx peer ty).2.1
    unfold onLocal
    split
    · exact .same rfl
    · exact .same rfl
    · exact .same rfl
    · exact .same rfl
    · exact .same rfl
  | connected peer =>
    show cx.Says _ _ (p.onPeerConnected cx peer).2
    unfold onPeerConnected
    dsimp only
    split
    · exact .same rfl
    · exact .same rfl
  | effectResult token result =>
    show cx.Says _ _ (p.onEffectResult cx token result).2
    unfold onEffectResult
    split
    · exact .same rfl
    · unfold answer
      split
      · split
        · exact .same (refresh_ui cx _ _ _)
        · exact .same rfl
      · rename_i bytes _
        cases X.decode SessionLock.SessionState bytes with
        | some state => exact .same (refresh_ui cx { p with pending := p.pending.erase token } _ _)
        | none => exact .same rfl
      · exact .same rfl
      · exact .same rfl
      · exact .same rfl
      · exact .same rfl
      · exact .same rfl
  | _ => exact .same rfl

end Hooks

namespace Builtin

def cap : Builtin X → String
  | .clipboard _ => Clipboard.cap
  | .command _ => Command.cap
  | .media _ => Media.cap
  | .ping _ => Ping.cap
  | .session _ => SessionLock.cap
  | .share _ => Share.cap
  | .touchpad _ => Touchpad.cap
  | .wol _ => Wol.cap

theorem handles_iff (b : Builtin X) (c : String) : handles (Plugin.manifest b) c ↔ c = b.cap := by
  have hone : ∀ cap : String, handles ⟨"", [cap], [cap], []⟩ c ↔ c = cap := by
    intro cap
    simp [handles]
  cases b with
  | _ => exact hone _

theorem call_says (b : Builtin X) (cx : Cx) (c : Call) :
    cx.Says b.cap c (Plugin.call b cx c).2.1 := by
  cases b with
  | clipboard p =>
    rw [boxes_clipboard p cx c]
    exact p.call_says cx c
  | command p =>
    rw [boxes_command p cx c]
    exact p.call_says cx c
  | media p =>
    rw [boxes_media p cx c]
    exact p.call_says cx c
  | ping p =>
    rw [boxes_ping p cx c]
    exact p.call_says cx c
  | session p =>
    rw [boxes_session p cx c]
    exact p.call_says cx c
  | wol p =>
    rw [boxes_wol p cx c]
    exact p.call_says cx c
  | share p =>
    rw [boxes_share p cx c]
    exact p.call_says cx c
  | touchpad p =>
    rw [boxes_touchpad p cx c]
    exact p.call_says cx c

end Builtin

/-- What a step may show in a plugin's name, a peer's errors apart. -/
inductive Core.Source (c : Core X (Builtin X)) (i : Core.Input X) : UiEvent → Prop where
  | said {idx peer env} (delivers : c.Delivers i idx peer env) :
      Source c i (.plugin peer env.cap env.ty env.body)
  | renumbered {idx peer env body} (delivers : c.Delivers i idx peer env)
      (share : env.cap = Share.cap) : Source c i (.plugin peer env.cap env.ty body)
  | available {idx peer env} (delivers : c.Delivers i idx peer env) (ty : env.ty = "avail") :
      Source c i (.plugin peer Touchpad.cap "avail" [])
  | listed {peer cap body list} (event : i.event = .localCommand (.plugin peer cap "list" body)) :
      Source c i (.plugin peer Command.cap "list" list)
  | unsendable {peer cap body refusal}
      (event : i.event = .localCommand (.plugin peer cap "offer" body)) :
      Source c i (.plugin peer Share.cap "reject" refusal)
  /-- The host reports it, or nobody connected for it in time. -/
  | ended {peer body} (event : (∃ t ok detail, i.event = .bulkFinished t ok detail) ∨
      i.event = .tick) : Source c i (.plugin peer Share.cap "finished" body)

def UiEvent.named : UiEvent → Option UiEvent
  | .plugin peer cap ty body => if ty = "err" then none else some (.plugin peer cap ty body)
  | _ => none

theorem heeds_named : Heeds UiEvent.named := by
  intro e he
  cases e with
  | plugin peer cap ty body =>
    refine ⟨peer, cap, ty, body, rfl, ?_⟩
    rintro rfl
    cases he
  | _ => cases he

theorem UiEvent.eq_of_named {e e' : UiEvent} (h : e.named = some e') : e = e' := by
  cases e with
  | plugin peer cap ty body =>
    unfold named at h
    dsimp only at h
    split_ifs at h
    exact Option.some.inj h
  | _ => cases h

section Step
variable {c : Core X (Builtin X)} {i : Core.Input X}

theorem Due.source {s : Exec X (Builtin X)} {idx : ℕ} {cx : Cx} {call : Call} {b : Builtin X}
    {e : UiEvent} (due : Due i (c.start i) s idx cx call) (hb : s.core.plugins[idx]? = some b)
    (he : Word b.cap call e) (hnamed : e.named.isSome) : c.Source i e := by
  have hdelivers : ∀ {peer env}, call = .message peer env →
      c.Delivers i idx peer env ∧ env.cap = b.cap := by
    rintro peer env rfl
    cases due with
    | message event frame link decrypt decoded negotiated message owner state =>
      refine ⟨.intro event frame link decrypt decoded negotiated message owner, ?_⟩
      obtain ⟨hlt, hhandles, -⟩ := List.findIdx?_eq_some_iff_getElem.mp owner
      subst state
      have hsame : (c.start i).core.plugins[idx] = b :=
        Option.some.inj ((List.getElem?_eq_getElem hlt).symm.trans hb)
      rw [hsame] at hhandles
      exact (b.handles_iff _).mp hhandles
  generalize hcap : b.cap = cap at he hdelivers
  cases he with
  | heard =>
    obtain ⟨hmessage, rfl⟩ := hdelivers rfl
    exact .said hmessage
  | renumbered =>
    obtain ⟨hmessage, hshare⟩ := hdelivers rfl
    rw [← hshare]
    exact .renumbered hmessage hshare
  | available ty => exact .available (hdelivers rfl).1 ty
  | listed =>
    cases due with
    | request event => exact .listed event
  | unsendable =>
    cases due with
    | request event => exact .unsendable event
  | ended =>
    cases due with
    | finished event => exact .ended (.inl ⟨_, _, _, event⟩)
    | expired event => exact .ended (.inr event)
  | failed => cases hnamed

theorem forEachPlugin_named {call : Call} (hall : call.forAll) (ps : List (Builtin X)) (cx : Cx) :
    (forEachPlugin (fun p cx => ((Plugin.call p cx call).1, (Plugin.call p cx call).2.1)) ps
      cx).2.ui.filterMap UiEvent.named = cx.ui.filterMap UiEvent.named := by
  induction ps generalizing cx with
  | nil => rfl
  | cons p ps ih =>
    refine (ih _).trans ?_
    obtain ⟨es, hui, hes⟩ := p.call_says cx call
    have hnone : es.filterMap UiEvent.named = [] := by
      rw [List.filterMap_eq_nil_iff]
      intro e he
      have hword := hes e he
      generalize p.cap = cap at hword
      cases hword with
      | failed => rfl
      | _ => cases hall
    rw [hui, List.filterMap_append, hnone, List.append_nil]

/-- Every stretch of a step shows in the plugins' names only what has such a source. -/
theorem deeds_source {s t : Exec X (Builtin X)} (h : Deeds i (c.start i) s t) :
    ∀ e ∈ spoken UiEvent.named t.actions,
      e ∈ spoken UiEvent.named s.actions ∨ c.Source i e := by
  induction h with
  | plain h =>
    rw [Exec.spoken_of_plain heeds_named h]
    exact fun e he => .inl he
  | released plugins minted owners waits actions =>
    rw [actions]
    exact fun e he => .inl he
  | gaveUp event waiting late =>
    intro e he
    simp only [Exec.push, spoken_append] at he
    exact .inl (by simpa [spoken] using he)
  | trans _ _ ih ih' =>
    intro e he
    rcases ih' e he with he | hsource
    · exact ih e he
    · exact .inr hsource
  | @calledAll s call hall =>
    intro e he
    unfold Exec.callAllPlugins at he
    dsimp only at he
    rw [Exec.drainCx_spoken heeds_named, forEachPlugin_named hall] at he
    exact .inl (by simpa [Exec.cx, Cx.new] using he)
  | @called s idx cx call due =>
    intro e he
    have hcx : cx.ui = [] := by cases due <;> rfl
    cases hb : s.core.plugins[idx]? with
    | none =>
      unfold Exec.callPlugin at he
      rw [hb] at he
      exact .inl he
    | some b =>
      rw [Exec.callPlugin_spoken heeds_named s cx _ hb] at he
      rcases List.mem_append.mp he with he | he
      · exact .inl he
      · obtain ⟨es, hui, hes⟩ := b.call_says cx call
        rw [hui, hcx, List.nil_append] at he
        obtain ⟨e', he', hnamed⟩ := List.mem_filterMap.mp he
        obtain rfl := UiEvent.eq_of_named hnamed
        exact .inr (due.source hb (hes e' he') (by rw [hnamed]; rfl))

theorem Core.source_of_shown {peer : DeviceId} {cap ty : String} {body : Bytes} (hty : ty ≠ "err")
    (h : .ui (.plugin peer cap ty body) ∈ (c.handle i).2.actions) :
    c.Source i (.plugin peer cap ty body) := by
  have hnamed : UiEvent.named (.plugin peer cap ty body) = some (.plugin peer cap ty body) :=
    if_neg hty
  have hmem : UiEvent.plugin peer cap ty body ∈ spoken UiEvent.named (c.exec i).actions :=
    List.mem_filterMap.mpr ⟨_, h, hnamed⟩
  rcases deeds_source (c.exec_deeds i) _ hmem with hold | hsource
  · cases hold
  · exact hsource

end Step
end Acrylius
