import Acrylius.Core.Outlined
import Acrylius.Lib.Run

/-! One inversion lemma for each aspect of a step: the trust store, the pairing slot, links in
handshake and established links. -/
namespace Acrylius
open Proto Std

variable {X : Crates} {P : Type} [Plugin P]

namespace Core

def start (c : Core X P) (i : Input X) : Exec X P := ⟨{ c with wallMs := i.now.wallMs }, [], [], []⟩

theorem exec_outline (c : Core X P) (i : Input X) : Outline i (c.start i) (c.exec i) :=
  Exec.onEvent_outline

def run (c : Core X P) (is : List (Input X)) : Core X P := Lib.run step c is

@[simp] theorem run_nil (c : Core X P) : c.run [] = c := rfl

theorem run_append (c : Core X P) (is js : List (Input X)) :
    c.run (is ++ js) = (c.run is).run js :=
  Lib.run_append step c is js

/-- Where a pairing handshake stands after reading a frame and answering it, if it got there. -/
def pairingAfter (c : Core X P) (hs : Handshake X) : Option (Handshake X) :=
  if hs.isMyTurn then
    match hs.write (X.encode c.hello) with
    | .ok (_, hs') => some hs'
    | .error _ => none
  else some hs

/-- The events that give back the pairing slot without asking whose pairing it holds: an old pair
dial failing, a link going down in the middle of a pairing handshake, and a frame on which a
pairing handshake breaks. -/
def strikes (c : Core X P) (i : Input X) : Bool :=
  match i.event with
  | .dialFailed d _ => c.pendingPairDials.contains d
  | .linkDown l _ =>
    match c.links[l]? with
    | some (.handshaking h) => h.pairingFlow
    | _ => false
  | .linkRecv l msg =>
    match Frame.split msg, c.links[l]? with
    | some (.pairHandshake, body), some (.handshaking h) =>
      h.pairingFlow && match h.hs.read body with
        | .error _ => true
        | .ok (payload, hs) =>
          match ({ c with wallMs := i.now.wallMs }).pairingAfter hs with
          | some hs' =>
            hs'.isComplete && hs'.peerStatic.isSome && (X.decode Hello payload).isNone
          | none => false
    | _, _ => false
  | _ => false

end Core

inductive Established (i : Core.Input X) (s : Exec X P) (l : LinkId) :
    Hello → PeerRecord → List Bytes → UpLink X → Prop where
  | intro {attrs peer payload hs owes hello record record' reply hs' session}
      (read : SessionRead i s l attrs peer payload hs owes)
      (accept : Accepted s peer payload hello record record')
      (turn : hs.Turn owes (X.encode s.core.hello) reply hs')
      (open_ : hs'.intoSession attrs = .ok session) :
      Established i s l hello record' reply
        (freshLink s i.now.monotonicMs hs' session attrs peer record')

inductive Begun (i : Core.Input X) (s : Exec X P) : HandshakingLink X → Prop where
  | session {peer record pk psk hs m} {h : HandshakingLink X}
      (known : s.core.peers[peer]? = some record) (hpk : record.publicKeyArray = some pk)
      (build : Handshake.sessionInitiator s.core.identity psk pk i.seed = .ok hs)
      (write : hs.write (X.encode s.core.hello) = .ok (m, h.hs))
      (expect : h.expect = some peer) (flow : h.pairingFlow = false) : Begun i s h
  | pairDial {hs m} {h : HandshakingLink X}
      (build : Handshake.pairInitiator s.core.identity i.seed = .ok hs)
      (write : hs.write [] = .ok (m, h.hs)) (flow : h.pairingFlow) : Begun i s h
  | pairAnswer {hs₀ body payload hs m} {h : HandshakingLink X}
      (build : Handshake.pairResponder s.core.identity i.seed = .ok hs₀)
      (read : hs₀.read body = .ok (payload, hs))
      (write : hs.write (X.encode s.core.hello) = .ok (m, h.hs)) (flow : h.pairingFlow) :
      Begun i s h

inductive Continued (i : Core.Input X) (s : Exec X P) :
    HandshakingLink X → HandshakingLink X → Prop where
  | intro {h : HandshakingLink X} {body payload hs owes reply hs'}
      (read : h.hs.read body = .ok (payload, hs))
      (turn : hs.Turn owes (X.encode s.core.hello) reply hs') : Continued i s h { h with hs := hs' }

theorem Exec.callAllPlugins_trust_of {s : Exec X P} {v : View X P} (h : s.view = v) (nowMs : ℕ)
    (hook : P → Cx → P × Cx) : (s.callAllPlugins nowMs hook).core.trust = v.trust :=
  (Exec.callAllPlugins_stir s nowMs hook).trust.trans (congrArg View.trust h)

namespace Head
variable {i : Core.Input X} {s t : Exec X P} {l : LinkId}

theorem identity (h : Head i s t) : t.core.identity = s.core.identity := by
  cases h
  case idle => rfl
  case established view =>
    exact congrArg Trust.identity (Exec.callAllPlugins_trust_of view _ _)
  all_goals exact Exec.identity_of (by assumption)

theorem serves (h : Head i s t) : t.core.serves = s.core.serves := by
  cases h
  case idle => rfl
  case established view =>
    exact congrArg Trust.serves (Exec.callAllPlugins_trust_of view _ _)
  all_goals exact congrArg (fun v : View X P => v.trust.serves) (by assumption)

theorem caps (h : Head i s t) :
    t.core.capsOut = s.core.capsOut ∧ t.core.capsIn = s.core.capsIn := by
  have of_view : ∀ {v : View X P}, t.view = v → v.trust.capsOut = s.core.capsOut →
      v.trust.capsIn = s.core.capsIn →
      t.core.capsOut = s.core.capsOut ∧ t.core.capsIn = s.core.capsIn :=
    fun hv ho hi => ⟨(congrArg (fun v => v.trust.capsOut) hv).trans ho,
      (congrArg (fun v => v.trust.capsIn) hv).trans hi⟩
  cases h
  case idle => exact ⟨rfl, rfl⟩
  case established view =>
    exact ⟨congrArg Trust.capsOut (Exec.callAllPlugins_trust_of view _ _),
      congrArg Trust.capsIn (Exec.callAllPlugins_trust_of view _ _)⟩
  all_goals exact of_view (by assumption) rfl rfl

/-- The trust store and the host's store after a step that wrote one record. -/
def Wrote (s t : Exec X P) (peer : DeviceId) (record : PeerRecord) : Prop :=
  t.core.peers = s.core.peers.insert peer record ∧
    stored t.actions = stored s.actions ++ [("peer/" ++ record.deviceId, some (X.encode record))]

/-- The four ways the trust store is written, each with what the host is told to store. -/
theorem peers_cases (h : Head i s t) :
    (t.core.peers = s.core.peers ∧ stored t.actions = stored s.actions) ∨
    (∃ l attrs peer payload hs owes hello record record',
      SessionRead i s l attrs peer payload hs owes ∧
      Accepted s peer payload hello record record' ∧ Wrote s t peer record') ∨
    (∃ a deadline id, i.event = .localCommand (.confirmPairing true) ∧
      s.core.pairing = some ⟨deadline, some a⟩ ∧ a.record.id X = some id ∧
      Wrote s t id a.record) ∨
    ∃ peer, i.event = .localCommand (.revoke peer) ∧ t.core.peers = s.core.peers.erase peer ∧
      stored t.actions = stored s.actions ++ [("peer/" ++ peer.str, none)] := by
  have same : ∀ {v : View X P} {as : List Action}, t.view = v → v.trust.peers = s.core.peers →
      v.actions = s.actions ++ as → stored as = [] →
      t.core.peers = s.core.peers ∧ stored t.actions = stored s.actions := by
    intro v as hv hp ha hs
    rw [Exec.peers_of hv, Exec.actions_of hv, ha, stored_append, hs, List.append_nil]
    exact ⟨hp, rfl⟩
  have frames := fun l kind ms => stored_framesFor l kind ms
  cases h
  case idle => exact .inl ⟨rfl, rfl⟩
  case established mid read accept _ _ view =>
    refine .inr (.inl ⟨_, _, _, _, _, _, _, _, _, read, accept, ?_, ?_⟩)
    · exact congrArg Trust.peers (Exec.callAllPlugins_trust_of view _ _)
    · obtain ⟨as, -, hact, -, hminor, -⟩ := (Exec.callAllPlugins_stir mid i.now.monotonicMs
        fun p cx => Plugin.onPeerConnected p cx _).trace
      rw [hact, Exec.actions_of view, stored_append,
        stored_of_unstored fun a h => Action.unstored_of_minor (hminor a h)]
      simp [stored_append, frames, Exec.view]
  case wasted read accept _ has view =>
    refine .inr (.inl ⟨_, _, _, _, _, _, _, _, _, read, accept, Exec.peers_of view, ?_⟩)
    rw [Exec.actions_of view]
    simp [stored_append, frames, Exec.view, stored_refuses has]
  case confirmed event window key view =>
    refine .inr (.inr (.inl ⟨_, _, _, event, window, key, Exec.peers_of view, ?_⟩))
    rw [Exec.actions_of view]
    simp [Exec.view]
  case revoked event view =>
    refine .inr (.inr (.inr ⟨_, event, Exec.peers_of view, ?_⟩))
    rw [Exec.actions_of view]
    simp [stored, Exec.view]
  case failed hs view => exact .inl (same view rfl rfl (stored_refuses hs))
  case dialledSession view | dialledPair view | answered view | continued view =>
    exact .inl (same view rfl rfl (frames _ _ _))
  case abandoned has view | unwanted has view =>
    exact .inl (same view rfl rfl (by rw [stored_append, frames, stored_refuses has]; rfl))
  case awaited view => exact .inl (same view rfl rfl (by rw [stored_append, frames]; rfl))
  case opened view | received view | hungUp view | unkeyed view =>
    exact .inl (same view rfl (List.append_nil _).symm rfl)
  case lapsed w _ _ _ view =>
    refine .inl (same view rfl rfl ?_)
    cases w.awaiting <;> rfl
  case undialled view | denied view | claimed view => exact .inl (same view rfl rfl rfl)

omit [Plugin P] in
theorem Turn.after {c : Core X P} {hs hs' : Handshake X} {reply : List Bytes}
    (h : hs.Turn hs.isMyTurn (X.encode c.hello) reply hs') : c.pairingAfter hs = some hs' := by
  unfold Handshake.Turn at h
  unfold Core.pairingAfter
  split at h
  · obtain ⟨m, hw, -⟩ := h
    rename_i hmine
    rw [if_pos hmine, hw]
  · rename_i hmine
    rw [if_neg hmine, h.2]

theorem pairing_cases (h : Head i s t) (hwall : s.core.wallMs = i.now.wallMs) :
    t.core.pairing = s.core.pairing ∨
    (s.core.pairing = none ∧ ∃ d, t.core.pairing = some ⟨d, none⟩) ∨
    (∃ l h payload reply hs' hash pk hello d d', PairRead i s l h payload reply hs' ∧
      hs'.handshakeHash = .ok hash ∧ hs'.peerStatic = some pk ∧
      s.core.pairing = some ⟨d, none⟩ ∧ t.core.pairing = some ⟨d', some {
        link := l
        record := Exec.pairedRecord X hash pk hello
        sas := Pairing.sas X hash
        via := h.via }⟩) ∨
    (∃ accept d a, i.event = .localCommand (.confirmPairing accept) ∧
      s.core.pairing = some ⟨d, some a⟩ ∧
      (t.core.pairing = none ∨ t.core.pairing = some ⟨d, none⟩)) ∨
    (i.event = .tick ∧ t.core.pairing = none ∧
      ∃ w, s.core.pairing = some w ∧ w.deadline ≤ i.now.monotonicMs) ∨
    (s.core.strikes i ∧ t.core.pairing = none) := by
  have wall : { s.core with wallMs := i.now.wallMs } = s.core := by rw [← hwall]
  cases h
  case idle => exact .inl rfl
  case established view =>
    exact .inl (congrArg Trust.pairing (Exec.callAllPlugins_trust_of view _ _))
  case answered free _ _ _ _ _ view => exact .inr (.inl ⟨free, _, Exec.pairing_of view⟩)
  case claimed free view => exact .inr (.inl ⟨free, _, Exec.pairing_of view⟩)
  case awaited read hash static _ window view =>
    exact .inr (.inr (.inl ⟨_, _, _, _, _, _, _, _, _, _, read, hash, static, window,
      Exec.pairing_of view⟩))
  case denied event window view =>
    exact .inr (.inr (.inr (.inl ⟨_, _, _, event, window, .inl (Exec.pairing_of view)⟩)))
  case confirmed event window _ view =>
    exact .inr (.inr (.inr (.inl ⟨_, _, _, event, window, .inl (Exec.pairing_of view)⟩)))
  case unkeyed event window _ view =>
    exact .inr (.inr (.inr (.inl ⟨_, _, _, event, window, .inr (Exec.pairing_of view)⟩)))
  case lapsed event window due view =>
    exact .inr (.inr (.inr (.inr (.inl ⟨event, Exec.pairing_of view, _, window, due⟩))))
  case undialled event dialled view =>
    refine .inr (.inr (.inr (.inr (.inr ⟨?_, Exec.pairing_of view⟩))))
    simpa [Core.strikes, event] using dialled
  case hungUp event link flow view =>
    refine .inr (.inr (.inr (.inr (.inr ⟨?_, Exec.pairing_of view⟩))))
    simp [Core.strikes, event, link, flow]
  case abandoned l msg body h reply as event frame link flow unread has view =>
    refine .inr (.inr (.inr (.inr (.inr ⟨?_, Exec.pairing_of view⟩))))
    simp only [Core.strikes, event, frame, link, flow, Bool.true_and, wall]
    rcases unread with ⟨⟨e, he⟩, -⟩ | ⟨payload, hs', hread, hdone, hkey, hdec⟩
    · rw [he]
    · obtain ⟨msg', body', hs, he', hf', hr, hturn⟩ := hread.read
      obtain rfl : msg = msg' := by simpa using event.symm.trans he'
      obtain rfl : body = body' := by simpa using frame.symm.trans hf'
      rw [hr]
      dsimp only
      rw [Turn.after hturn]
      simp [hdone, hkey, hdec]
  all_goals exact .inl (Exec.pairing_of (by assumption))

theorem handshaking_cases (h : Head i s t) {h' : HandshakingLink X}
    (hh : t.core.links[l]? = some (.handshaking h')) :
    (∃ h₀, s.core.links[l]? = some (.handshaking h₀) ∧ h' = { h₀ with fallback := h'.fallback }) ∨
    Begun i s h' ∨ ∃ h₀, s.core.links[l]? = some (.handshaking h₀) ∧ Continued i s h₀ h' := by
  have kept : s.core.links[l]? = some (.handshaking h') → (∃ h₀,
      s.core.links[l]? = some (.handshaking h₀) ∧ h' = { h₀ with fallback := h'.fallback }) :=
    fun h => ⟨h', h, rfl⟩
  cases h
  case idle => exact .inl (kept hh)
  case established mid _ _ _ _ view =>
    obtain ⟨as, hist, -, -, -, -, hl⟩ := (Exec.callAllPlugins_stir mid _ _).trace
    have hdrift := hl false (by simp) l
    rw [hh] at hdrift
    obtain ⟨h₀, hmid, he, -⟩ := hdrift.handshaking_of
    rw [Exec.links_of view] at hmid
    rcases Lib.getElem?_of_insert hmid with ⟨-, h⟩ | ⟨-, h⟩
    · cases h
    · exact .inl ⟨h₀, h, he⟩
  case dialledSession known hpk _ build write state expect flow _ view =>
    rw [Exec.links_of view] at hh
    rcases Lib.getElem?_of_insert hh with ⟨-, h⟩ | ⟨-, h⟩
    · cases h
      subst state
      exact .inr (.inl (.session known hpk build write expect flow))
    · exact .inl (kept h)
  case dialledPair _ build write state flow _ view =>
    rw [Exec.links_of view] at hh
    rcases Lib.getElem?_of_insert hh with ⟨-, h⟩ | ⟨-, h⟩
    · cases h
      subst state
      exact .inr (.inl (.pairDial build write flow))
    · exact .inl (kept h)
  case answered build read write state flow view =>
    rw [Exec.links_of view] at hh
    rcases Lib.getElem?_of_insert hh with ⟨-, h⟩ | ⟨-, h⟩
    · cases h
      subst state
      exact .inr (.inl (.pairAnswer build read write flow))
    · exact .inl (kept h)
  case continued link read turn _ view =>
    rw [Exec.links_of view] at hh
    rcases Lib.getElem?_of_insert hh with ⟨rfl, h⟩ | ⟨-, h⟩
    · cases h
      exact .inr (.inr ⟨_, link, .intro read turn⟩)
    · exact .inl (kept h)
  case lapsed w _ _ _ view =>
    rw [Exec.links_of view] at hh
    obtain ⟨d, a⟩ := w
    cases a with
    | none => exact .inl (kept hh)
    | some a => exact .inl (kept (Lib.getElem?_of_erase hh).2)
  case opened view | awaited view | received view =>
    rw [Exec.links_of view] at hh
    rcases Lib.getElem?_of_insert hh with ⟨-, h⟩ | ⟨-, h⟩
    · cases h
    · exact .inl (kept h)
  case failed view | wasted view | abandoned view | unwanted view | hungUp view | denied view |
      confirmed view =>
    rw [Exec.links_of view] at hh
    exact .inl (kept (Lib.getElem?_of_erase hh).2)
  all_goals
    rename_i view
    rw [Exec.links_of view] at hh
    exact .inl (kept hh)

/-- Where an established link comes from: it was established before, it took a frame, or it came
up in this very step. -/
theorem up_cases (h : Head i s t) {v : UpLink X} (hv : t.core.links[l]? = some (.up v)) :
    (∃ u fs, s.core.links[l]? = some (.up u) ∧ Sealing false u fs v) ∨
    (∃ msg body u plaintext session, i.event = .linkRecv l msg ∧
      Frame.split msg = some (.transport, body) ∧ s.core.links[l]? = some (.up u) ∧
      u.session.decrypt body = .ok (plaintext, session) ∧
      v = { u with session, lastRecvMs := i.now.monotonicMs }) ∨
    ∃ hello record' reply u fs, Established i s l hello record' reply u ∧ Sealing false u fs v ∧
      t.core.peers = s.core.peers.insert u.peer record' := by
  have kept : s.core.links[l]? = some (.up v) →
      (∃ u fs, s.core.links[l]? = some (.up u) ∧ Sealing false u fs v) :=
    fun h => ⟨v, [], h, .nil v⟩
  cases h
  case idle => exact .inl (kept hv)
  case established mid read accept turn open_ view =>
    obtain ⟨u, _, hmid, hs⟩ := (Exec.callAllPlugins_stir mid _ _).up_of hv
    rw [Exec.links_of view] at hmid
    rcases Lib.getElem?_of_insert hmid with ⟨rfl, h⟩ | ⟨-, h⟩
    · cases h
      refine .inr (.inr ⟨_, _, _, _, _, .intro read accept turn open_, hs, ?_⟩)
      exact congrArg Trust.peers (Exec.callAllPlugins_trust_of view _ _)
    · exact .inl ⟨u, _, h, hs⟩
  case received event frame link decrypt view =>
    rw [Exec.links_of view] at hv
    rcases Lib.getElem?_of_insert hv with ⟨rfl, h⟩ | ⟨-, h⟩
    · cases h
      exact .inr (.inl ⟨_, _, _, _, _, event, frame, link, decrypt, rfl⟩)
    · exact .inl (kept h)
  case lapsed w _ _ _ view =>
    rw [Exec.links_of view] at hv
    obtain ⟨d, a⟩ := w
    cases a with
    | none => exact .inl (kept hv)
    | some a => exact .inl (kept (Lib.getElem?_of_erase hv).2)
  case opened view | awaited view | dialledSession view | dialledPair view | answered view |
      continued view =>
    rw [Exec.links_of view] at hv
    rcases Lib.getElem?_of_insert hv with ⟨-, h⟩ | ⟨-, h⟩
    · cases h
    · exact .inl (kept h)
  case failed view | wasted view | abandoned view | unwanted view | hungUp view | denied view |
      confirmed view =>
    rw [Exec.links_of view] at hv
    exact .inl (kept (Lib.getElem?_of_erase hv).2)
  all_goals
    rename_i view
    rw [Exec.links_of view] at hv
    exact .inl (kept hv)

end Head
end Acrylius
