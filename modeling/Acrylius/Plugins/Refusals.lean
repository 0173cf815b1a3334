import Acrylius.Core.Rounds
import Acrylius.Plugins.Acts

/-! The `err` messages a core sends, against what the daemon at the other end reads in them
(`control.rs`). -/
namespace Acrylius
open Proto Std

variable {X : Crates} {P : Type}

def reportedCode (X : Crates) (body : Bytes) : String :=
  match X.decode ErrorBody body with
  | some e => e.code
  | none => "unknown"

/-- The body decodes, to a code of the closed vocabulary, and that is the code reported. -/
def PendingSend.Readable (X : Crates) (m : PendingSend) : Prop :=
  ∃ (body : ErrorBody) (code : ErrorCode), X.decode ErrorBody m.body = some body ∧
    body.code = code.asStr ∧ reportedCode X m.body = code.asStr

theorem PendingSend.readable_of_format {m : PendingSend} {code : ErrorCode} {message : String}
    (h : m.body = X.encode ({ code := code.asStr, message } : ErrorBody)) : m.Readable X := by
  have hdec : X.decode ErrorBody m.body = some { code := code.asStr, message } := by
    rw [h]
    exact X.decode_encode _
  refine ⟨_, code, hdec, rfl, ?_⟩
  unfold reportedCode
  rw [hdec]

/-- A bare text is no `ErrorBody`. -/
theorem errorReply_unreadable (peer : DeviceId) (req : Envelope) (code : ErrorCode) :
    ¬ (Exec.errorReply X peer req code).Readable X := by
  rintro ⟨body, _, hdec, -, -⟩
  have hnone : X.decode ErrorBody (X.encode code.asStr) = none := by
    unfold Crates.decode Crates.encode
    rw [X.cborDecode_encode]
    rfl
  rw [Exec.errorReply, hnone] at hdec
  cases hdec

namespace Core
variable [Plugin P]

def Emits (c : Core X P) (i : Input X) (m : PendingSend) : Prop :=
  ∃ d, (d, m) ∈ (c.exec i).sends ∧ d.GoesOut m

theorem Emits.frame {c : Core X P} {i : Input X} {m : PendingSend} (h : c.Emits i m) :
    ∃ l msg, Action.linkSend l msg ∈ (c.handle i).2.actions := by
  obtain ⟨d, hmem, hgo⟩ := h
  obtain ⟨l, f, hframe⟩ := goesOut_iff.mp hgo
  obtain ⟨fs, y, -, hframes, -⟩ := c.step_frames i l
  refine ⟨l, f, mem_framesOn.mp ?_⟩
  rw [hframes]
  refine List.mem_append_right _ ?_
  rw [sealedOn, List.mem_filterMap]
  exact ⟨(d, m), hmem, by simp [hframe]⟩

def ErrsReadable (c : Core X P) (i : Input X) : Prop :=
  ∀ m, c.Emits i m → m.ty = "err" → m.Readable X

/-- The code under which the core itself turns down a message, if it does: the capability is not
negotiated, no plugin owns it, or the plugin that does returns an error. -/
def refusalCode (c : Core X P) (nowMs : ℕ) (u : UpLink X) (env : Envelope) : Option ErrorCode :=
  if env.cap ∉ u.canRecv then some .capNotNegotiated
  else if env.ty = "err" then none
  else match c.plugins.findIdx? fun p => handles (Plugin.manifest p) env.cap with
    | none => some .capNotNegotiated
    | some idx =>
      match c.plugins[idx]? with
      | none => none
      | some p =>
        let cx := ((Exec.cx ⟨c, [], [], []⟩ nowMs).forPeerLink (c.bulkSupportFor u.peer))
        match (Plugin.onMessage p cx u.peer env).2.2 with
        | .error e => some e.code
        | .ok () => none

/-- A message arrives that the core itself turns down, and the refusal goes out. -/
inductive Refuses (c : Core X P) (i : Input X) : Prop where
  | intro {l : LinkId} {u : UpLink X} {session : Session X} {env : Envelope} {code : ErrorCode}
      (heard : c.Hears i l u session env)
      (refused : (c.afterHearing i l u session).refusalCode i.now.monotonicMs u env = some code)
      (out : (c.afterHearing i l u session).GoesOut (Exec.errorReply X u.peer env code)) :
      Refuses c i

end Core

namespace Exec

/-- A hook that fails without having done anything leaves the core as it was. -/
theorem callPlugin_failed (s : Exec X P) (nowMs : ℕ) (b : Option BulkSupport) {idx : ℕ} {p : P}
    {hook : P → Cx → P × Cx × Except PluginError Unit} {e : PluginError}
    (hp : s.core.plugins[idx]? = some p)
    (h : hook p ((s.cx nowMs).forPeerLink b) = (p, (s.cx nowMs).forPeerLink b, .error e)) :
    s.callPlugin idx ((s.cx nowMs).forPeerLink b) hook = (s, some (.error e)) := by
  have hset : s.core.plugins.set idx p = s.core.plugins := by
    obtain ⟨hlt, rfl⟩ := List.getElem?_eq_some_iff.mp hp
    exact List.set_getElem_self hlt
  unfold callPlugin
  rw [hp]
  dsimp only
  rw [h]
  dsimp only
  rw [hset]
  rfl

/-- The message was handed over by a plugin, in the plugins' own form if it is an `err`. -/
theorem act_readable {awaits : P → EffectToken → Option Asker} {p p' : P} {cx cx' : Cx} {c : Call}
    (h : Act X awaits p cx c p' cx') :
    ∃ ms, cx'.sends = cx.sends ++ ms ∧ ∀ m ∈ ms, m.ty = "err" → m.Readable X := by
  cases h with
  | told ms queued idle => exact ⟨ms, queued.sends, fun m hm herr => absurd herr (idle m hm).2⟩
  | wanted asks => exact ⟨[], by rw [asks.sends, List.append_nil], fun m hm => by cases hm⟩
  | wished asks => exact ⟨[], by rw [asks.sends, List.append_nil], fun m hm => by cases hm⟩
  | @settled _ _ _ a _ _ ms _ queued idle answers =>
    refine ⟨ms ++ [a], queued.sends, ?_⟩
    intro m hm herr
    rcases List.mem_append.mp hm with hm | hm
    · exact absurd herr (idle m hm).2
    · obtain rfl := List.mem_singleton.mp hm
      obtain ⟨code, message, hbody⟩ := answers.format herr
      exact PendingSend.readable_of_format hbody
  | replied queued plain =>
    refine ⟨_, queued.sends, ?_⟩
    intro m hm herr
    rw [List.mem_singleton.mp hm] at herr
    exact absurd herr plain

theorem forEachPlugin_readable (c : Call) (ps : List (Builtin X)) (cx : Cx) :
    ∃ ms, (forEachPlugin (fun p cx => ((Plugin.call p cx c).1, (Plugin.call p cx c).2.1)) ps
        cx).2.sends = cx.sends ++ ms ∧ ∀ m ∈ ms, m.ty = "err" → m.Readable X := by
  induction ps generalizing cx with
  | nil => exact ⟨[], (List.append_nil _).symm, fun m hm => by cases hm⟩
  | cons p ps ih =>
    obtain ⟨ms, hms, hread⟩ := act_readable (p.call_act cx c)
    obtain ⟨ms', hms', hread'⟩ := ih (Plugin.call p cx c).2.1
    refine ⟨ms ++ ms', ?_, ?_⟩
    · rw [← List.append_assoc, ← hms]
      exact hms'
    · intro m hm
      rcases List.mem_append.mp hm with hm | hm
      · exact hread m hm
      · exact hread' m hm

theorem callPlugin_readable (s : Exec X (Builtin X)) {idx : ℕ} {cx : Cx} {c : Call}
    (hcx : cx.sends = []) : ∀ e ∈ (s.callPlugin idx cx fun p cx => Plugin.call p cx c).1.sends,
      e ∈ s.sends ∨ (e.2.ty = "err" → e.2.Readable X) := by
  intro e he
  cases hp : s.core.plugins[idx]? with
  | none =>
    unfold callPlugin at he
    rw [hp] at he
    exact .inl he
  | some p =>
    obtain ⟨new, hnew, hmap, -, -⟩ :=
      s.callPlugin_spec cx (fun p cx => Plugin.call p cx c) hp
    have hsends := congrArg Errands.sends hnew
    dsimp only [errands] at hsends
    rw [hsends] at he
    rcases List.mem_append.mp he with he | he
    · exact .inl he
    · obtain ⟨ms, hms, hread⟩ := act_readable (p.call_act cx c)
      rw [hcx, List.nil_append] at hms
      exact .inr (hread e.2 (hms ▸ hmap ▸ List.mem_map_of_mem he))

end Exec

theorem Due.sends [Plugin P] {i : Core.Input X} {s₀ s : Exec X P} {idx : ℕ} {cx : Cx} {c : Call}
    (h : Due i s₀ s idx cx c) : cx.sends = [] := by
  cases h <;> rfl

/-- In a step that hears nothing, every `err` is a plugin's. -/
theorem Rounds.readable {i : Core.Input X} {s₀ s t : Exec X (Builtin X)} (h : Rounds i s₀ s t)
    (deaf : ∀ l u session env, ¬ s₀.core.Hears i l u session env) :
    ∀ e ∈ t.sends, e ∈ s.sends ∨ (e.2.ty = "err" → e.2.Readable X) := by
  induction h with
  | calm h =>
    intro e he
    have hsends := congrArg Errands.sends h.errands
    dsimp only [Exec.errands] at hsends
    exact .inl (hsends ▸ he)
  | released _ errands _ =>
    intro e he
    have hsends := congrArg Errands.sends errands
    dsimp only [Exec.errands] at hsends
    exact .inl (hsends ▸ he)
  | called due => exact Exec.callPlugin_readable _ due.sends
  | @calledAll s c _ _ =>
    intro e he
    obtain ⟨new, hnew, hmap, -, -⟩ := s.callAllPlugins_spec i.now.monotonicMs fun p cx =>
      ((Plugin.call p cx c).1, (Plugin.call p cx c).2.1)
    have hsends := congrArg Errands.sends hnew
    dsimp only [Exec.errands] at hsends
    rw [hsends] at he
    rcases List.mem_append.mp he with he | he
    · exact .inl he
    · obtain ⟨ms, hms, hread⟩ :=
        Exec.forEachPlugin_readable c s.core.plugins (s.cx i.now.monotonicMs)
      have hnil : (s.cx i.now.monotonicMs).sends = [] := rfl
      rw [hnil, List.nil_append] at hms
      exact .inr (hread e.2 (hms ▸ hmap ▸ List.mem_map_of_mem he))
  | refused heard => exact absurd heard (deaf _ _ _ _)
  | @settled s token result idx _ _ _ =>
    exact Exec.callPlugin_readable (c := .effectResult token result)
      { s with core.effectOwner := s.core.effectOwner.erase token } rfl
  | trans _ _ ih ih' =>
    intro e he
    rcases ih' e he with he | hread
    · exact ih e he
    · exact .inr hread

namespace Core
variable {c : Core X (Builtin X)} {i : Input X} {l : LinkId} {u : UpLink X} {session : Session X}
  {env : Envelope}

/-- A message that arrives is turned down, shown to a person, or taken by its plugin. -/
inductive Fate (c : Core X (Builtin X)) (i : Input X) (u : UpLink X) (session : Session X)
    (env : Envelope) (s : Exec X (Builtin X)) : Prop where
  | refused (code : ErrorCode)
      (turned : s.core.refusalCode i.now.monotonicMs u env = some code)
      (exec : c.exec i = s.sendError u.peer env code)
  | shown (heeded : s.core.refusalCode i.now.monotonicMs u env = none) (err : env.ty = "err")
      (exec : c.exec i = s.ui (.plugin u.peer env.cap "err" env.body))
  | taken {idx : ℕ} {p : Builtin X} {cx : Cx}
      (heeded : s.core.refusalCode i.now.monotonicMs u env = none)
      (negotiated : env.cap ∈ u.canRecv) (message : env.ty ≠ "err")
      (owner : s.core.plugins.findIdx? (fun p => handles (Plugin.manifest p) env.cap) = some idx)
      (plugin : s.core.plugins[idx]? = some p)
      (context : cx = (s.cx i.now.monotonicMs).forPeerLink (s.core.bulkSupportFor u.peer))
      (ok : (Plugin.onMessage p cx u.peer env).2.2 = .ok ())
      (exec : c.exec i = (s.callPlugin idx cx fun p cx =>
        Plugin.call p cx (.message u.peer env)).1)

theorem Hears.fate (h : c.Hears i l u session env) :
    Fate c i u session env ⟨c.afterHearing i l u session, [], [], []⟩ := by
  have hexec := h.exec_eq
  generalize hs : (⟨c.afterHearing i l u session, [], [], []⟩ : Exec X (Builtin X)) = s at hexec ⊢
  by_cases hcap : env.cap ∈ u.canRecv
  case neg =>
    rw [if_pos hcap] at hexec
    refine .refused .capNotNegotiated ?_ hexec
    rw [refusalCode, if_pos hcap]
  rw [if_neg (not_not.mpr hcap)] at hexec
  by_cases hty : env.ty = "err"
  · rw [if_pos hty] at hexec
    refine .shown ?_ hty hexec
    rw [refusalCode, if_neg (not_not.mpr hcap), if_pos hty]
  rw [if_neg hty] at hexec
  unfold Exec.routeEnvelope at hexec
  dsimp only at hexec
  cases hidx : s.core.plugins.findIdx? fun p => handles (Plugin.manifest p) env.cap with
  | none =>
    rw [hidx] at hexec
    refine .refused .capNotNegotiated ?_ hexec
    rw [refusalCode, if_neg (not_not.mpr hcap), if_neg hty, hidx]
  | some idx =>
    rw [hidx] at hexec
    dsimp only at hexec
    obtain ⟨hlt, -⟩ := List.findIdx?_eq_some_iff_getElem.mp hidx
    have hp : s.core.plugins[idx]? = some s.core.plugins[idx] := List.getElem?_eq_getElem hlt
    have hsame : Exec.cx ⟨s.core, [], [], []⟩ i.now.monotonicMs = s.cx i.now.monotonicMs := rfl
    rcases s.core.plugins[idx].onMessage_sound ((s.cx i.now.monotonicMs).forPeerLink
      (s.core.bulkSupportFor u.peer)) u.peer env with hok | ⟨e, hfail⟩
    · refine .taken ?_ hcap hty hidx hp rfl hok ?_
      · rw [refusalCode, if_neg (not_not.mpr hcap), if_neg hty, hidx]
        dsimp only
        rw [hp, hsame]
        dsimp only
        rw [hok]
      · rw [hexec]
        unfold Exec.callPlugin
        rw [hp]
        dsimp only [Plugin.call]
        rw [hok]
    · refine .refused e.code ?_ ?_
      · rw [refusalCode, if_neg (not_not.mpr hcap), if_neg hty, hidx]
        dsimp only
        rw [hp, hsame]
        dsimp only
        rw [hfail]
      · rw [Exec.callPlugin_failed _ _ _ hp hfail] at hexec
        exact hexec

/-- In every step, the `err` messages that go out can be read exactly if none of them is the
core's own. -/
theorem errsReadable_iff (c : Core X (Builtin X)) (i : Input X) :
    c.ErrsReadable i ↔ ¬ c.Refuses i := by
  constructor
  · rintro hread @⟨l, u, session, env, code, heard, refused, out⟩
    cases heard.fate with
    | shown heeded => rw [heeded] at refused; cases refused
    | taken heeded => rw [heeded] at refused; cases refused
    | refused code' turned exec =>
      obtain rfl := Option.some.inj (turned.symm.trans refused)
      refine errorReply_unreadable (X := X) u.peer env code' (hread _ ⟨_, ?_, out⟩ rfl)
      rw [exec, Exec.sendError_eq]
      have hsends := congrArg Errands.sends
        (Exec.dispatchSend_errands ⟨c.afterHearing i l u session, [], [], []⟩
          (Exec.errorReply X u.peer env code'))
      dsimp only [Exec.errands] at hsends
      rw [hsends]
      exact List.mem_cons_self
  · intro hnot m hemits herr
    obtain ⟨d, hmem, hgo⟩ := hemits
    by_cases heard : ∃ l u session env, c.Hears i l u session env
    · obtain ⟨l, u, session, env, heard⟩ := heard
      cases heard.fate with
      | refused code turned exec =>
        rw [exec, Exec.sendError_eq] at hmem
        have hsends := congrArg Errands.sends
          (Exec.dispatchSend_errands ⟨c.afterHearing i l u session, [], [], []⟩
            (Exec.errorReply X u.peer env code))
        dsimp only [Exec.errands] at hsends
        rw [hsends] at hmem
        obtain ⟨rfl, rfl⟩ := Prod.mk.inj (List.mem_singleton.mp hmem)
        exact absurd ⟨heard, turned, hgo⟩ hnot
      | shown _ _ exec =>
        rw [exec] at hmem
        cases hmem
      | @taken idx p cx _ _ _ _ _ context _ exec =>
        rw [exec] at hmem
        have hcx : cx.sends = [] := by rw [context]; rfl
        rcases Exec.callPlugin_readable _ hcx _ hmem with hmem | hread
        · cases hmem
        · exact hread herr
    · have hdeaf : ∀ l u session env, ¬ (c.start i).core.Hears i l u session env := by
        rintro l u session env ⟨hevent, hframe, hlink, hdecrypt, hdecoded⟩
        exact heard ⟨l, u, session, env, hevent, hframe, hlink, hdecrypt, hdecoded⟩
      rcases (c.exec_rounds i).readable hdeaf _ hmem with hmem | hread
      · cases hmem
      · exact hread herr

/-- Along every run, every `err` that goes out is read at the other end under its own code exactly
if none of them is one of the core's own refusals. -/
theorem run_errsReadable_iff (b : CoreBuilder X (Builtin X)) (is : List (Input X)) :
    Lib.Along Core.step Core.ErrsReadable b.build is ↔
      Lib.Along Core.step (fun c i => ¬ c.Refuses i) b.build is :=
  Lib.Along.congr fun c i => c.errsReadable_iff i

end Core

namespace Mock

def sharingLaptop : Core crates (Builtin crates) :=
  (laptop [Builtin.share (SharePlugin.default crates)]).build.run (phoneLinked (.tcpLan 1))

def phoneWaves : Core.Input crates := at_ 2 0 (phoneSays sharingLaptop "wave" [])

def wave : Option (LinkId × UpLink crates × Session crates × Envelope) :=
  sharingLaptop.heard phoneWaves

end Mock

/-- A message of a kind the plugin does not know is refused with an `err` nobody can read. -/
theorem refusal_unreadable :
    ¬ ∀ (b : CoreBuilder Mock.crates (Builtin Mock.crates)) (is : List (Core.Input Mock.crates)),
      Lib.Along Core.step Core.ErrsReadable b.build is := by
  intro hall
  have hrun := hall (Mock.laptop [Builtin.share (SharePlugin.default Mock.crates)])
    (Mock.phoneLinked (.tcpLan 1) ++ [Mock.phoneWaves])
  obtain ⟨-, hlast, -⟩ := Lib.Along.append.mp hrun
  have hread : Mock.sharingLaptop.ErrsReadable Mock.phoneWaves := hlast
  have hsome : Mock.wave.isSome := by decide +kernel
  obtain ⟨⟨l, u, session, env⟩, hwave⟩ := Option.isSome_iff_exists.mp hsome
  have hcode : ∀ r ∈ Mock.wave, (Mock.sharingLaptop.afterHearing Mock.phoneWaves r.1 r.2.1
      r.2.2.1).refusalCode Mock.phoneWaves.now.monotonicMs r.2.1 r.2.2.2 = some .unknownType := by
    decide +kernel
  have hout : ∀ r ∈ Mock.wave, ((Mock.sharingLaptop.afterHearing Mock.phoneWaves r.1 r.2.1
      r.2.2.1).sealedFrame (Exec.errorReply Mock.crates r.2.1.peer r.2.2.2 .unknownType)).isSome := by
    decide +kernel
  refine (Core.errsReadable_iff _ _).mp hread ?_
  have hrefused := hcode (l, u, session, env) hwave
  obtain ⟨⟨l', f⟩, hframe⟩ := Option.isSome_iff_exists.mp (hout (l, u, session, env) hwave)
  exact .intro (Core.hears_of_heard hwave) hrefused (Core.goesOut_iff.mpr ⟨l', f, hframe⟩)

end Acrylius
