import Acrylius.Core.Gate
import Acrylius.Mock

/-! An `err` that arrives, and whether it is answered with another. -/
namespace Acrylius
open Proto Std

variable {X : Crates} {P : Type}

namespace Core

/-- A message handed over in this state goes out: the freshest link with its peer may send its
capability, seals it, and takes the frame. -/
inductive GoesOut (c : Core X P) (m : PendingSend) : Prop where
  | intro {l : LinkId} {u : UpLink X} {ct : Bytes} {session : Session X}
      (best : c.bestLink m.peer = some (l, u)) (negotiated : m.cap ∈ u.canSend)
      (sealed : u.session.encrypt (X.encode (m.envelope (c.nextMsgId + 1))) = .ok (ct, session))
      (fits : (Frame.join .transport ct).length ≤ u.maxMessage) : GoesOut c m

theorem goesOut_iff {c : Core X P} {m : PendingSend} :
    c.GoesOut m ↔ ∃ l f, c.sealedFrame m = some (l, f) := by
  constructor
  · rintro @⟨l, u, ct, session, hbest, hcap, hsealed, hfits⟩
    have hnot := Nat.not_lt.mpr hfits
    refine ⟨l, Frame.join .transport ct, ?_⟩
    unfold sealedFrame
    simp only [hbest, hcap, not_true_eq_false, if_false, hsealed, if_neg hnot]
  · rintro ⟨l, f, h⟩
    unfold sealedFrame at h
    cases hbest : c.bestLink m.peer with
    | none => simp [hbest] at h
    | some e =>
      obtain ⟨l', u⟩ := e
      simp only [hbest] at h
      split at h
      · cases h
      · rename_i hcap
        split at h
        · rename_i ct session hsealed
          split at h
          · cases h
          · rename_i hfits
            exact ⟨hbest, not_not.mp hcap, hsealed, Nat.le_of_not_lt hfits⟩
        · cases h

/-- A message that arrives in this step: decrypted on an established link, and an envelope. -/
inductive Hears (c : Core X P) (i : Input X) (l : LinkId) (u : UpLink X) (session : Session X)
    (env : Envelope) : Prop where
  | intro {msg body plaintext : Bytes} (event : i.event = .linkRecv l msg)
      (frame : Frame.split msg = some (.transport, body)) (link : c.links[l]? = some (.up u))
      (decrypt : u.session.decrypt body = .ok (plaintext, session))
      (decoded : X.decode Envelope plaintext = some env) : Hears c i l u session env

def heard (c : Core X P) (i : Input X) : Option (LinkId × UpLink X × Session X × Envelope) :=
  match i.event with
  | .linkRecv l msg =>
    match Frame.split msg, c.links[l]? with
    | some (.transport, body), some (.up u) =>
      match u.session.decrypt body with
      | .ok (plaintext, session) =>
        (X.decode Envelope plaintext).map fun env => (l, u, session, env)
      | .error _ => none
    | _, _ => none
  | _ => none

theorem hears_of_heard {c : Core X P} {i : Input X} {l : LinkId} {u : UpLink X}
    {session : Session X} {env : Envelope} (h : c.heard i = some (l, u, session, env)) :
    c.Hears i l u session env := by
  unfold heard at h
  split at h
  · rename_i l' msg hevent
    split at h
    · rename_i body u' hframe hlink
      split at h
      · rename_i plaintext session' hdecrypt
        obtain ⟨env', hdecoded, heq⟩ := Option.map_eq_some_iff.mp h
        cases heq
        exact ⟨hevent, hframe, hlink, hdecrypt, hdecoded⟩
      · cases h
    · cases h
  · cases h

/-- The core once it has decrypted the message: the link's session has moved on, and the link
counts as heard from. -/
def afterHearing (c : Core X P) (i : Input X) (l : LinkId) (u : UpLink X) (session : Session X) :
    Core X P :=
  { c with
    wallMs := i.now.wallMs
    links := c.links.insert l (.up { u with session, lastRecvMs := i.now.monotonicMs }) }

end Core

namespace Exec

def errorReply (X : Crates) (peer : DeviceId) (req : Envelope) (code : ErrorCode) : PendingSend where
  peer := peer
  cap := req.cap
  ty := "err"
  body := X.encode code.asStr
  re := some req.id

theorem sendError_eq (s : Exec X P) (peer : DeviceId) (req : Envelope) (code : ErrorCode) :
    s.sendError peer req code = s.dispatchSend (errorReply X peer req code) := rfl

/-- Handing a message over either sends the one frame it is sealed as, or tells a person. -/
theorem dispatchSend_actions (s : Exec X P) (m : PendingSend) :
    ∃ e, (s.dispatchSend m).actions = s.actions ++
      [(s.core.sealedFrame m).elim (.ui e) fun r => .linkSend r.1 r.2] := by
  unfold dispatchSend Core.sealedFrame
  dsimp only
  cases s.core.bestLink m.peer with
  | none => exact ⟨_, rfl⟩
  | some e =>
    obtain ⟨l, u⟩ := e
    dsimp only
    by_cases hcap : m.cap ∈ u.canSend
    · rw [if_neg (not_not.mpr hcap), if_neg (not_not.mpr hcap)]
      cases u.session.encrypt (X.encode (m.envelope (s.core.nextMsgId + 1))) with
      | error e => exact ⟨_, rfl⟩
      | ok r =>
        dsimp only
        by_cases hbig : u.maxMessage < (Frame.join .transport r.1).length
        · rw [if_pos hbig, if_pos hbig]
          exact ⟨_, rfl⟩
        · rw [if_neg hbig, if_neg hbig]
          exact ⟨.peerUnreachable m.peer, rfl⟩
    · rw [if_pos hcap, if_pos hcap]
      exact ⟨_, rfl⟩

/-- So it sends exactly if the message goes out. -/
theorem dispatchSend_sends (s : Exec X P) (m : PendingSend)
    (quiet : ∀ l msg, Action.linkSend l msg ∉ s.actions) :
    (∃ l msg, Action.linkSend l msg ∈ (s.dispatchSend m).actions) ↔ s.core.GoesOut m := by
  obtain ⟨e, hactions⟩ := s.dispatchSend_actions m
  rw [hactions, Core.goesOut_iff]
  constructor
  · rintro ⟨l, msg, hmem⟩
    rcases List.mem_append.mp hmem with hmem | hmem
    · exact absurd hmem (quiet l msg)
    · cases hframe : s.core.sealedFrame m with
      | none => simp [hframe] at hmem
      | some r => exact ⟨r.1, r.2, rfl⟩
  · rintro ⟨l, f, hframe⟩
    exact ⟨l, f, by simp [hframe]⟩

theorem onLinkRecv_heard [Plugin P] {s : Exec X P} {nowMs : ℕ} {seed : X.Seed} {l : LinkId}
    {msg body plaintext : Bytes} {u : UpLink X} {session : Session X} {env : Envelope}
    (frame : Frame.split msg = some (.transport, body)) (link : s.core.links[l]? = some (.up u))
    (decrypt : u.session.decrypt body = .ok (plaintext, session))
    (decoded : X.decode Envelope plaintext = some env) :
    s.onLinkRecv nowMs seed l msg =
      let r := s.insertLink l (.up { u with session, lastRecvMs := nowMs })
      if env.cap ∉ u.canRecv then r.sendError u.peer env .capNotNegotiated
      else if env.ty = "err" then r.ui (.plugin u.peer env.cap "err" env.body)
      else r.routeEnvelope nowMs u.peer env := by
  have hback : (s.unlink l).insertLink l (.up { u with session, lastRecvMs := nowMs }) =
      s.insertLink l (.up { u with session, lastRecvMs := nowMs }) := by
    simp only [insertLink, unlink, Lib.erase_insert]
  rw [← hback]
  unfold onLinkRecv
  simp only [frame, link]
  unfold onTransportFrame
  simp only [ne_eq, not_true_eq_false, if_false, decrypt, decoded]
  rfl

end Exec

namespace Core
variable [Plugin P] {c : Core X P} {i : Input X} {l : LinkId} {u : UpLink X} {session : Session X}
  {env : Envelope}

/-- A message that arrives is refused for its capability, shown if it is an `err`, and else given
to the plugin it is for. -/
theorem Hears.exec_eq (h : c.Hears i l u session env) :
    c.exec i = if env.cap ∉ u.canRecv then
        Exec.sendError ⟨c.afterHearing i l u session, [], [], []⟩ u.peer env .capNotNegotiated
      else if env.ty = "err" then
        Exec.ui ⟨c.afterHearing i l u session, [], [], []⟩ (.plugin u.peer env.cap "err" env.body)
      else Exec.routeEnvelope ⟨c.afterHearing i l u session, [], [], []⟩ i.now.monotonicMs u.peer
        env := by
  obtain ⟨hevent, hframe, hlink, hdecrypt, hdecoded⟩ := h
  unfold exec
  rw [hevent]
  dsimp only [Exec.onEvent]
  rw [Exec.onLinkRecv_heard hframe hlink hdecrypt hdecoded]
  rfl

/-- An `err` that arrives is shown to a person, or, where its capability may not be received,
refused like any other message. -/
theorem Hears.exec_err (h : c.Hears i l u session env) (err : env.ty = "err") :
    c.exec i = if env.cap ∈ u.canRecv then
        Exec.ui ⟨c.afterHearing i l u session, [], [], []⟩ (.plugin u.peer env.cap "err" env.body)
      else Exec.sendError ⟨c.afterHearing i l u session, [], [], []⟩ u.peer env
        .capNotNegotiated := by
  rw [h.exec_eq, if_pos err, ite_not]

/-- An `err` is answered with nothing exactly if its capability may be received on the link it
came over, or the answer would not go out. -/
theorem err_unanswered_iff (h : c.Hears i l u session env) (err : env.ty = "err") :
    (∀ l' msg, Action.linkSend l' msg ∉ (c.handle i).2.actions) ↔
      env.cap ∈ u.canRecv ∨ ¬ (c.afterHearing i l u session).GoesOut
        (Exec.errorReply X u.peer env .capNotNegotiated) := by
  change (∀ l' msg, Action.linkSend l' msg ∉ (c.exec i).actions) ↔ _
  rw [h.exec_err err]
  by_cases hcap : env.cap ∈ u.canRecv
  · rw [if_pos hcap]
    refine iff_of_true ?_ (.inl hcap)
    intro l' msg hmem
    cases List.mem_singleton.mp hmem
  · rw [if_neg hcap, Exec.sendError_eq]
    have hsends := Exec.dispatchSend_sends ⟨c.afterHearing i l u session, [], [], []⟩
      (Exec.errorReply X u.peer env .capNotNegotiated) fun _ _ => List.not_mem_nil
    rw [or_iff_right hcap, ← hsends]
    push Not
    rfl

end Core

namespace Mock

/-- A phone that may be sent to but sends nothing, by what it says of itself. -/
def listener : List (Core.Input crates) :=
  [at_ 0 0 (.linkUp 0 (.tcpLan 1) none),
    at_ 1 5 (.linkRecv 0 (openerFrame 2 1 { phoneHello 1 with capsIn := [Share.cap] }))]

def heardFrom (is : List (Core.Input crates)) : Core crates (SharePlugin crates) :=
  (laptop [SharePlugin.default crates]).build.run is

def phoneErrs (is : List (Core.Input crates)) : Core.Input crates :=
  at_ 2 0 (phoneSays (heardFrom is) "err" [])

end Mock

/-- An `err` under a capability the phone shares goes unanswered. -/
theorem shared_err_unanswered : ¬ ∃ l msg, Action.linkSend l msg ∈
    ((Mock.heardFrom (Mock.phoneLinked (.tcpLan 1))).handle
      (Mock.phoneErrs (Mock.phoneLinked (.tcpLan 1)))).2.actions := by
  rintro ⟨l', msg, hmem⟩
  have hkind : ∀ r ∈ (Mock.heardFrom (Mock.phoneLinked (.tcpLan 1))).heard
      (Mock.phoneErrs (Mock.phoneLinked (.tcpLan 1))),
      r.2.2.2.ty = "err" ∧ r.2.2.2.cap ∈ r.2.1.canRecv := by decide +kernel
  have hsome : ((Mock.heardFrom (Mock.phoneLinked (.tcpLan 1))).heard
      (Mock.phoneErrs (Mock.phoneLinked (.tcpLan 1)))).isSome := by decide +kernel
  obtain ⟨⟨l, u, session, env⟩, hheard⟩ := Option.isSome_iff_exists.mp hsome
  obtain ⟨herr, hcap⟩ := hkind _ hheard
  exact (Core.err_unanswered_iff (Core.hears_of_heard hheard) herr).mpr (.inl hcap) l' msg hmem

/-- An `err` under a capability the phone only receives is answered with an `err`. -/
theorem err_answered_with_err :
    ¬ ∀ (is : List (Core.Input Mock.crates)) (i : Core.Input Mock.crates) (l : LinkId)
      (u : UpLink Mock.crates) (session : Session Mock.crates) (env : Envelope),
      (Mock.heardFrom is).Hears i l u session env → env.ty = "err" →
        ∀ l' msg, Action.linkSend l' msg ∉ ((Mock.heardFrom is).handle i).2.actions := by
  intro hall
  have hkind : ∀ r ∈ (Mock.heardFrom Mock.listener).heard (Mock.phoneErrs Mock.listener),
      r.2.2.2.ty = "err" := by decide +kernel
  have hsome : ((Mock.heardFrom Mock.listener).heard (Mock.phoneErrs Mock.listener)).isSome := by
    decide +kernel
  have hsent : (framesOn 0 ((Mock.heardFrom Mock.listener).handle
      (Mock.phoneErrs Mock.listener)).2.actions) ≠ [] := by decide +kernel
  obtain ⟨⟨l, u, session, env⟩, hheard⟩ := Option.isSome_iff_exists.mp hsome
  obtain ⟨msg, hmsg⟩ := List.exists_mem_of_ne_nil _ hsent
  exact hall Mock.listener (Mock.phoneErrs Mock.listener) l u session env
    (Core.hears_of_heard hheard) (hkind _ hheard) 0 msg (mem_framesOn.mp hmsg)

end Acrylius
