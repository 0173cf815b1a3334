import Acrylius.Core.Calls
import Acrylius.Core.Lockstep

/-! What passes in each direction: only negotiated capabilities leave, and only negotiated
capabilities reach the plugin that owns them. -/
namespace Acrylius
open Proto Std

variable {X : Crates} {P : Type}

namespace Core

/-- In this state the message goes out as this frame: over a link established with the peer it
is for, under a capability negotiated on that link, and no longer than the link takes. -/
inductive SendsOn (c : Core X P) (m : PendingSend) (l : LinkId) (msg : Bytes) : Prop where
  | intro {u : UpLink X} {ct : Bytes} {session : Session X} (link : c.links[l]? = some (.up u))
      (peer : u.peer = m.peer) (negotiated : m.cap ∈ u.canSend)
      (sealed : u.session.encrypt (X.encode (m.envelope (c.nextMsgId + 1))) = .ok (ct, session))
      (frame : msg = Frame.join .transport ct) (fits : msg.length ≤ u.maxMessage) :
      SendsOn c m l msg

theorem sendsOn_of_sealedFrame {c : Core X P} {m : PendingSend} {l : LinkId} {msg : Bytes}
    (h : c.sealedFrame m = some (l, msg)) : c.SendsOn m l msg := by
  unfold sealedFrame at h
  cases hb : c.bestLink m.peer with
  | none => simp [hb] at h
  | some e =>
    obtain ⟨l', u⟩ := e
    obtain ⟨hlink, hpeer⟩ := bestLink_up hb
    simp only [hb] at h
    split at h
    · cases h
    rename_i hcap
    split at h
    · rename_i ct session henc
      split at h
      · cases h
      · rename_i hfits
        cases h
        exact .intro hlink hpeer (not_not.mp hcap) henc rfl (Nat.le_of_not_lt hfits)
    · cases h

variable [Plugin P]

/-- This step brings the plugin at `idx` this message: decrypted on a link established with the
peer, under a capability negotiated on that link, and for the plugin that owns it. -/
inductive Delivers (c : Core X P) (i : Input X) (idx : ℕ) : DeviceId → Envelope → Prop where
  | intro {l : LinkId} {msg body plaintext : Bytes} {env : Envelope} {u : UpLink X}
      {session : Session X} (event : i.event = .linkRecv l msg)
      (frame : Frame.split msg = some (.transport, body)) (link : c.links[l]? = some (.up u))
      (decrypt : u.session.decrypt body = .ok (plaintext, session))
      (decoded : X.decode Envelope plaintext = some env) (negotiated : env.cap ∈ u.canRecv)
      (message : env.ty ≠ "err")
      (owner : c.plugins.findIdx? (fun p => handles (Plugin.manifest p) env.cap) = some idx) :
      Delivers c i idx u.peer env

end Core

variable [Plugin P]

theorem Due.delivers {c : Core X P} {i : Core.Input X} {r : Exec X P} {idx : ℕ} {cx : Cx}
    {peer : DeviceId} {env : Envelope} (h : Due i (c.start i) r idx cx (.message peer env)) :
    c.Delivers i idx peer env := by
  cases h with
  | message event frame link decrypt decoded negotiated message owner =>
    exact .intro event frame link decrypt decoded negotiated message owner

/-- The messages a plugin is handed in a step. -/
theorem Core.step_messages (c : Core X (Recorded P)) (i : Input X) {idx : ℕ} {p p' : Recorded P}
    (hp : c.plugins[idx]? = some p) (hp' : (c.step i).plugins[idx]? = some p') :
    ∃ new, p'.calls = p.calls ++ new ∧
      ∀ peer env, Call.message peer env ∈ new → c.Delivers i idx peer env := by
  obtain ⟨τs, hrun, hdue, -⟩ := c.step_turns i hp 0
  obtain rfl := Option.some.inj (hp'.symm.trans hrun)
  refine ⟨_, Recorded.run_calls p τs, ?_⟩
  intro peer env hmem
  obtain ⟨⟨cx, call⟩, hτ, rfl⟩ := List.mem_map.mp hmem
  rcases hdue _ hτ with hall | ⟨r, hdue⟩
  · cases hall
  · exact hdue.delivers

omit [Plugin P] in
theorem Touch.handshake {i : Core.Input X} {s : Exec X P} {l : LinkId} {fs : List Bytes}
    {y : Option (LinkState X)} (h : Touch i s l fs y) : ∀ f ∈ fs, isTransport f = false := by
  have replies : ∀ {kind : FrameKind} {reply : List Bytes}, kind ≠ .transport →
      ∀ f ∈ reply.map (Frame.join kind), isTransport f = false := by
    intro kind reply hk f hf
    obtain ⟨m, -, rfl⟩ := List.mem_map.mp hf
    simp [hk]
  cases h with
  | kept | gone | opened | received => simp
  | dialledSession | dialledPair | answered => simp
  | wasted | established | continued | paired => exact replies (by decide)

/-- The frames a step puts on a link: handshake messages first, then what was sealed, message by
message as it was handed to `dispatchSend`. -/
theorem Core.step_frames (c : Core X P) (i : Input X) (l : LinkId) :
    ∃ fs y, Touch i (c.start i) l fs y ∧
      framesOn l (c.handle i).2.actions = fs ++ Core.sealedOn l (c.exec i).sends ∧
      LinkFate false y (Core.sealedOn l (c.exec i).sends) ((c.step i).links[l]?) := by
  obtain ⟨end_, hhead, hafter⟩ := c.exec_outline i
  obtain ⟨mid, fs, htouch, hframes, hsends, hstir⟩ := hhead.touch l
  have hstir' := hstir.trace.mono (fun _ => Action.unstored_of_minor) (fun _ _ _ _ => LinkFate.drift)
  obtain ⟨as, hist, hact, hs, -, hf, hl⟩ :=
    hstir'.trans (fun _ _ _ _ _ _ => LinkFate.trans) hafter.trace
  have hhist : (c.exec i).sends = hist := by
    rw [hs, hsends]
    rfl
  have hfate := hl false (by simp) l
  rw [hf, ← hhist] at hfate
  refine ⟨fs, _, htouch, ?_, hfate⟩
  change framesOn l (c.exec i).actions = _
  rw [hact, framesOn_append, hframes, hf, hhist]
  rfl

theorem mem_framesOn {l : LinkId} {msg : Bytes} {as : List Action} :
    msg ∈ framesOn l as ↔ Action.linkSend l msg ∈ as := by
  unfold framesOn
  rw [List.mem_filterMap]
  constructor
  · rintro ⟨a, ha, h⟩
    cases a <;> simp_all
  · intro h
    exact ⟨_, h, by simp⟩

omit [Plugin P] in
theorem Core.isTransport_sealedOn {l : LinkId} {hist : List (Core X P × PendingSend)} {f : Bytes}
    (hf : f ∈ Core.sealedOn l hist) : isTransport f ∧ ∃ d m, (d, m) ∈ hist ∧ d.SendsOn m l f := by
  unfold sealedOn at hf
  obtain ⟨⟨d, m⟩, hmem, h⟩ := List.mem_filterMap.mp hf
  cases hs : d.sealedFrame m with
  | none => simp [hs] at h
  | some e =>
    obtain ⟨l', f'⟩ := e
    simp only [hs, Option.ite_none_right_eq_some, Option.some.injEq] at h
    obtain ⟨rfl, rfl⟩ := h
    have hsends := sendsOn_of_sealedFrame hs
    refine ⟨?_, d, m, hmem, hsends⟩
    obtain ⟨_, _, _, _, hframe, _⟩ := hsends
    rw [hframe, isTransport_join]
    rfl

/-- A link that was waiting for its first frame and is now up was answered in this step. -/
theorem Core.answered_of_up {c : Core X P} {i : Input X} {l : LinkId} {p : PendingLink}
    {u : UpLink X} {fs gs : List Bytes} {y : Option (LinkState X)}
    (htouch : Touch i (c.start i) l fs y) (hfate : LinkFate false y gs ((c.step i).links[l]?))
    (hp : c.links[l]? = some (.pending p)) (hu : (c.step i).links[l]? = some (.up u)) : fs ≠ [] := by
  rw [hu] at hfate
  obtain ⟨v, rfl, -⟩ := hfate.up_of
  have hstart : (c.start i).core.links[l]? = some (.pending p) := hp
  generalize hy : some (LinkState.up v) = y at htouch
  cases htouch with
  | kept => rw [hstart] at hy; cases hy
  | gone => cases hy
  | opened => cases hy
  | dialledSession => cases hy
  | dialledPair => cases hy
  | answered => cases hy
  | wasted => cases hy
  | continued => cases hy
  | paired _ _ _ after =>
    rcases after with rfl | ⟨q, rfl⟩
    · cases hy
    · cases hy
  | received _ _ link => rw [hstart] at link; cases link
  | established est =>
    obtain ⟨read, -, turn, -⟩ := est
    cases read with
    | opener =>
      obtain ⟨m, -, rfl⟩ := turn
      simp
    | reply _ _ link => rw [hstart] at link; cases link

namespace Core

/-- Every sealed frame of every step goes to the peer it is for, over a link established with it
at that moment, under a capability that link may send and within its size, after the handshake
message that brought the link up; and every message a plugin is handed was decrypted on a link
established with that peer, under a capability that link may receive and that plugin owns. -/
theorem capabilities_are_gated (b : CoreBuilder X P) (is : List (Input X)) (i : Input X) :
    (∀ l msg, Action.linkSend l msg ∈ ((b.recorded.build.run is).handle i).2.actions →
      isTransport msg → ∃ d m, (d, m) ∈ ((b.recorded.build.run is).exec i).sends ∧ d.SendsOn m l msg) ∧
    (∀ l, ∃ hs ts, framesOn l ((b.recorded.build.run is).handle i).2.actions = hs ++ ts ∧
      (∀ f ∈ hs, isTransport f = false) ∧ (∀ f ∈ ts, isTransport f) ∧
      ∀ p u, (b.recorded.build.run is).links[l]? = some (.pending p) →
        ((b.recorded.build.run is).step i).links[l]? = some (.up u) → hs ≠ []) ∧
    ∀ idx p p', (b.recorded.build.run is).plugins[idx]? = some p →
      ((b.recorded.build.run is).step i).plugins[idx]? = some p' →
      ∃ new, p'.calls = p.calls ++ new ∧ ∀ peer env, Call.message peer env ∈ new →
        (b.recorded.build.run is).Delivers i idx peer env := by
  generalize b.recorded.build.run is = c
  refine ⟨?_, ?_, fun idx p p' hp hp' => c.step_messages i hp hp'⟩
  · intro l msg hmsg htransport
    obtain ⟨fs, y, htouch, hframes, -⟩ := c.step_frames i l
    have hmem := mem_framesOn.mpr hmsg
    rw [hframes] at hmem
    rcases List.mem_append.mp hmem with h | h
    · rw [htouch.handshake msg h] at htransport
      cases htransport
    · exact (isTransport_sealedOn h).2
  · intro l
    obtain ⟨fs, y, htouch, hframes, hfate⟩ := c.step_frames i l
    exact ⟨fs, _, hframes, htouch.handshake, fun f hf => (isTransport_sealedOn hf).1,
      fun p u hp hu => answered_of_up htouch hfate hp hu⟩

end Core
end Acrylius
