import Acrylius.Core.Admission

/-! Established links: each is with a paired device, the one its session handshake authenticated,
and a device that was revoked has none until it is paired again. -/
namespace Acrylius
open Proto Std

variable {X : Crates} {P : Type}

/-- What the core relies on about the static keys of `snow`'s `IKpsk2`. -/
structure Crates.StaticLaw (X : Crates) : Prop where
  /-- An initiator knows the static key it was built to reach. -/
  build : ∀ {params prologue lp psk pk seed st},
    X.build params prologue lp psk (some pk) true seed = .ok st →
      X.getRemoteStatic st = some pk.bytes
  /-- Once known, the key stays. -/
  read : ∀ {st st' m p k}, X.getRemoteStatic st = some k → X.readMessage st m = .ok (p, st') →
    X.getRemoteStatic st' = some k
  write : ∀ {st st' m p k}, X.getRemoteStatic st = some k → X.writeMessage st p = .ok (m, st') →
    X.getRemoteStatic st' = some k
  /-- Message 1 is read to the same payload and caller whatever the PSK and the randomness. -/
  opener : ∀ {lp psk psk' seed seed' st st' m p p' r r'},
    X.build Mode.session.params Mode.session.prologue lp (some (2, psk)) none false seed = .ok st →
    X.build Mode.session.params Mode.session.prologue lp (some (2, psk')) none false seed' = .ok st' →
    X.readMessage st m = .ok (p, r) → X.readMessage st' m = .ok (p', r') →
      p' = p ∧ X.getRemoteStatic r' = X.getRemoteStatic r

theorem Mock.HandshakeState.read_remote {s s' : HandshakeState} {m p k : Bytes}
    (h : s.read m = .ok (p, s')) (hk : s.remote = some k) : s'.remote = some k := by
  unfold HandshakeState.read at h
  split at h
  · cases h
  · split at h <;> split at h <;> cases h <;> simp [HandshakeState.after, hk]

theorem Mock.HandshakeState.write_remote {s s' : HandshakeState} {m p : Bytes}
    (h : s.write p = .ok (m, s')) : s'.remote = s.remote := by
  unfold HandshakeState.write at h
  dsimp only at h
  split_ifs at h
  cases h
  rfl

theorem Mock.staticLaw : Mock.crates.StaticLaw where
  build h := by
    cases h
    rfl
  read hk hr := Mock.HandshakeState.read_remote hr hk
  write hk hw := (Mock.HandshakeState.write_remote hw).trans hk
  opener h h' hr hr' := by
    cases h
    cases h'
    dsimp only [Mock.crates, Mock.HandshakeState.read, Mock.HandshakeState.finished,
      Mock.HandshakeState.myTurn] at hr hr'
    split_ifs at hr hr' <;> cases hr <;> cases hr' <;> exact ⟨rfl, rfl⟩

namespace Handshake

theorem build_ok {mode : Mode} {id : Identity X} {psk pk : Option Key32} {init : Bool}
    {seed : X.Seed} {hs : Handshake X} (h : build mode id psk pk init seed = .ok hs) :
    X.build mode.params mode.prologue id.privateKey (psk.map (mode.pskIndex, ·)) pk init seed =
      .ok hs.state ∧ hs.mode = mode := by
  unfold build at h
  cases hb : X.build mode.params mode.prologue id.privateKey (psk.map (mode.pskIndex, ·)) pk init
      seed with
  | error e => simp [hb, Crates.lift, bind, Except.bind] at h
  | ok st =>
    simp only [hb, Crates.lift, bind, Except.bind, pure, Except.pure, Except.ok.injEq] at h
    subst h
    exact ⟨rfl, rfl⟩

theorem read_ok {hs hs' : Handshake X} {m p : Bytes} (h : hs.read m = .ok (p, hs')) :
    X.readMessage hs.state m = .ok (p, hs'.state) := by
  unfold read at h
  split_ifs at h
  cases hr : X.readMessage hs.state m with
  | error e => simp [hr, Crates.lift, bind, Except.bind] at h
  | ok r =>
    simp only [hr, Crates.lift, bind, Except.bind, pure, Except.pure, Except.ok.injEq,
      Prod.mk.injEq] at h
    obtain ⟨rfl, rfl⟩ := h
    rfl

theorem write_ok {hs hs' : Handshake X} {m p : Bytes} (h : hs.write p = .ok (m, hs')) :
    X.writeMessage hs.state p = .ok (m, hs'.state) := by
  unfold write at h
  split_ifs at h
  cases hr : X.writeMessage hs.state p with
  | error e => simp [hr, Crates.lift, bind, Except.bind] at h
  | ok r =>
    simp only [hr, Crates.lift, bind, Except.bind, pure, Except.pure, Except.ok.injEq,
      Prod.mk.injEq] at h
    obtain ⟨rfl, rfl⟩ := h
    rfl

theorem peerStatic_eq_some {hs : Handshake X} {pk : Key32} :
    hs.peerStatic = some pk ↔ X.getRemoteStatic hs.state = some pk.bytes := by
  unfold peerStatic
  rw [Option.bind_eq_some_iff]
  constructor
  · rintro ⟨b, hb, hk⟩
    rw [hb, Key32.bytes_of_ofBytes hk]
  · intro h
    exact ⟨pk.bytes, h, Key32.ofBytes_bytes pk⟩

/-- A static key that is known stays known for the rest of the handshake. -/
theorem Run.static (law : X.StaticLaw) {hs hs' : Handshake X} (h : Run hs hs') {pk : Key32}
    (hk : hs.peerStatic = some pk) : hs'.peerStatic = some pk := by
  rw [peerStatic_eq_some] at hk ⊢
  induction h with
  | refl => exact hk
  | read _ hr ih => exact law.read ih (read_ok hr)
  | write _ hw ih => exact law.write ih (write_ok hw)

theorem sessionInitiator_static (law : X.StaticLaw) {id : Identity X} {psk pk : Key32}
    {seed : X.Seed} {hs : Handshake X} (h : sessionInitiator id psk pk seed = .ok hs) :
    hs.peerStatic = some pk :=
  peerStatic_eq_some.mpr (law.build (build_ok h).1)

/-- The caller a probe learns is the one the real responder authenticates. -/
theorem sessionIdentify_static (law : X.StaticLaw) {id : Identity X} {psk pk : Key32}
    {seed seed' : X.Seed} {body payload : Bytes} {hs₀ hs : Handshake X}
    (hid : sessionIdentify id body seed = .ok pk)
    (hb : sessionResponder id psk seed' = .ok hs₀) (hr : hs₀.read body = .ok (payload, hs)) :
    hs.peerStatic = some pk := by
  unfold sessionIdentify at hid
  cases hp : sessionResponder id zeroPsk seed with
  | error e => simp [hp, bind, Except.bind] at hid
  | ok probe =>
    cases hpr : probe.read body with
    | error e => simp [hp, hpr, bind, Except.bind] at hid
    | ok r =>
      obtain ⟨p, probe'⟩ := r
      simp only [hp, hpr, bind, Except.bind] at hid
      split at hid
      · rename_i pk' hk
        obtain rfl : pk' = pk := by simpa [pure, Except.pure] using hid
        rw [peerStatic_eq_some] at hk ⊢
        exact (law.opener (build_ok hp).1 (build_ok hb).1 (read_ok hpr) (read_ok hr)).2.trans hk
      · simp [throw, throwThe, MonadExceptOf.throw] at hid

/-- A session handshake of this device that authenticates a key: as initiator the key of the peer
it expects, as responder the one a probe of message 1 learned and the real responder accepted. -/
inductive IsSession (id : Identity X) : Handshake X → PublicKey → Prop where
  | initiator {psk pk seed hs₀ hs} (build : sessionInitiator id psk pk seed = .ok hs₀)
      (run : Run hs₀ hs) : IsSession id hs pk
  | responder {psk pk seed seed' hs₀ body payload hs₁ hs}
      (caller : sessionIdentify id body seed = .ok pk)
      (build : sessionResponder id psk seed' = .ok hs₀) (read : hs₀.read body = .ok (payload, hs₁))
      (run : Run hs₁ hs) : IsSession id hs pk

theorem IsSession.static (law : X.StaticLaw) {id : Identity X} {hs : Handshake X} {pk : PublicKey}
    (h : IsSession id hs pk) : hs.peerStatic = some pk := by
  cases h with
  | initiator build run => exact run.static law (sessionInitiator_static law build)
  | responder caller build read run =>
    exact run.static law (sessionIdentify_static law caller build read)

theorem IsSession.run {id : Identity X} {hs hs' : Handshake X} {pk : PublicKey}
    (h : IsSession id hs pk) (hr : Run hs hs') : IsSession id hs' pk := by
  have trans : ∀ {a b c : Handshake X}, Run a b → Run b c → Run a c := by
    intro a b c hab hbc
    induction hbc with
    | refl => exact hab
    | read _ h ih => exact ih.read h
    | write _ h ih => exact ih.write h
  cases h with
  | initiator build run => exact .initiator build (trans run hr)
  | responder caller build read run => exact .responder caller build read (trans run hr)

end Handshake

inductive Session.Run : Session X → Session X → Prop where
  | refl (s : Session X) : Run s s
  | encrypt {s s' s'' : Session X} {p ct : Bytes} (before : Run s s')
      (h : s'.encrypt p = .ok (ct, s'')) : Run s s''
  | decrypt {s s' s'' : Session X} {ct p : Bytes} (before : Run s s')
      (h : s'.decrypt ct = .ok (p, s'')) : Run s s''

theorem Session.Run.sealing {b : Bool} {s₀ : Session X} {u v : UpLink X} {fs : List Bytes}
    (h : Run s₀ u.session) (hs : Sealing b u fs v) : Run s₀ v.session := by
  induction hs with
  | nil => exact h
  | sent _ enc ih => exact ih.encrypt enc
  | lost _ _ enc ih => exact ih.encrypt enc

/-- The link carries the session of a handshake that authenticated the peer it names. -/
def UpLink.Authenticated (id : Identity X) (u : UpLink X) : Prop :=
  ∃ hs pk attrs session, Handshake.IsSession id hs pk ∧ hs.peerStatic = some pk ∧
    u.peer = DeviceId.of X pk ∧ u.handshakeHash = X.getHandshakeHash hs.state ∧
    hs.intoSession attrs = .ok session ∧ Session.Run session u.session

theorem UpLink.Authenticated.sealing {b : Bool} {id : Identity X} {u v : UpLink X}
    {fs : List Bytes} (h : u.Authenticated id) (hs : Sealing b u fs v) : v.Authenticated id := by
  obtain ⟨hs', pk, attrs, session, h1, h2, h3, h4, h5, h6⟩ := h
  have hsame := hs.same
  refine ⟨hs', pk, attrs, session, h1, h2, ?_, ?_, h5, h6.sealing hs⟩
  · rw [hsame]; exact h3
  · rw [hsame]; exact h4

namespace Exec

theorem acceptHello_of_accepted {s : Exec X P} {peer : DeviceId} {payload : Bytes} {hello : Hello}
    {record record' : PeerRecord} (h : Accepted s peer payload hello record record') :
    s.acceptHello peer payload = (push { s with core.peers := s.core.peers.insert peer record' }
      (Core.peerBlob X record'), true) := by
  unfold acceptHello
  rw [h.decoded]
  dsimp only
  rw [h.known]
  dsimp only
  rw [h.fresh]
  dsimp only
  rw [h.updated]

section Opening
variable [Plugin P] {s : Exec X P} {hs hs' : Handshake X} {attrs : LinkAttrs} {session : Session X}
  {peer : DeviceId} {payload : Bytes} {hello : Hello} {record record' : PeerRecord}

/-- A handshake that can be moved into transport mode brings its link up. -/
theorem finishSession_up (nowMs : ℕ) (l : LinkId) (hopen : hs.intoSession attrs = .ok session)
    (hknown : s.core.peers[peer]? = some record) :
    ∃ u, (s.finishSession nowMs l hs attrs peer).core.links[l]? = some (.up u) ∧ u.peer = peer := by
  unfold finishSession
  dsimp only
  split
  · rename_i e he
    rw [hopen] at he
    cases he
  · split
    · rename_i hnone
      rw [hknown] at hnone
      cases hnone
    · exact Stir.up_to (callAllPlugins_stir _ _ _) ⟨_, ExtTreeMap.getElem?_insert_self, rfl⟩

theorem onSessionOpener_up (nowMs : ℕ) {seed : X.Seed} (l : LinkId) {p : PendingLink}
    {body m : Bytes} {pk psk : Key32} {known : PeerRecord} {hs₀ : Handshake X}
    (caller : Handshake.sessionIdentify s.core.identity body seed = .ok pk)
    (hknown : s.core.peers[DeviceId.of X pk]? = some known) (key : known.sessionPskArray = some psk)
    (build : Handshake.sessionResponder s.core.identity psk seed = .ok hs₀)
    (read : hs₀.read body = .ok (payload, hs))
    (accept : Accepted s (DeviceId.of X pk) payload hello record record')
    (write : hs.write (X.encode s.core.hello) = .ok (m, hs'))
    (hopen : hs'.intoSession p.attrs = .ok session) :
    ∃ u, (s.onSessionOpener nowMs seed l p body).core.links[l]? = some (.up u) ∧
      u.peer = DeviceId.of X pk := by
  unfold onSessionOpener
  rw [caller]
  dsimp only
  rw [hknown]
  dsimp only
  rw [key]
  dsimp only
  rw [build]
  dsimp only
  rw [read]
  dsimp only
  rw [acceptHello_of_accepted accept]
  have hhello : (push { s with core.peers := s.core.peers.insert (DeviceId.of X pk) record' }
      (Core.peerBlob X record')).core.hello = s.core.hello := rfl
  dsimp only
  rw [hhello, write]
  exact finishSession_up nowMs l hopen ExtTreeMap.getElem?_insert_self

theorem onSessionReply_up (nowMs : ℕ) (l : LinkId) {h : HandshakingLink X}
    (expect : h.expect = some peer) (accept : Accepted s peer payload hello record record')
    (hopen : h.hs.intoSession h.attrs = .ok session) :
    ∃ u, (s.onSessionReply nowMs l h payload).core.links[l]? = some (.up u) ∧ u.peer = peer := by
  unfold onSessionReply
  rw [expect]
  dsimp only
  rw [acceptHello_of_accepted accept]
  exact finishSession_up nowMs l hopen ExtTreeMap.getElem?_insert_self

end Opening
end Exec

theorem Established.up [Plugin P] {c : Core X P} {i : Core.Input X} {l : LinkId} {hello : Hello}
    {record' : PeerRecord} {reply : List Bytes} {u : UpLink X}
    (h : Established i (c.start i) l hello record' reply u) :
    ∃ v, (c.step i).links[l]? = some (.up v) ∧ v.peer = u.peer := by
  have frame_taken : ∀ msg, i.event = .linkRecv l msg →
      c.step i = ((c.start i).onLinkRecv i.now.monotonicMs i.seed l msg).core := by
    intro msg he
    unfold Core.step Core.exec Core.start
    rw [he]
    rfl
  cases h with
  | intro read accept turn hopen =>
    have kept : Accepted ((c.start i).unlink l) _ _ _ _ _ :=
      ⟨accept.decoded, accept.known, accept.fresh, accept.updated⟩
    cases read with
    | opener event frame link caller known key build hread =>
      obtain ⟨m, write, -⟩ := turn
      rw [frame_taken _ event]
      unfold Exec.onLinkRecv
      rw [frame]
      dsimp only
      rw [link]
      exact Exec.onSessionOpener_up (s := (c.start i).unlink l) _ l caller known key build hread
        kept write hopen
    | reply event frame link flow hread done expect =>
      obtain ⟨-, rfl⟩ := turn
      rw [frame_taken _ event]
      unfold Exec.onLinkRecv
      rw [frame]
      dsimp only
      rw [link]
      dsimp only
      unfold Exec.onHandshakeFrame Exec.afterHandshakeRead
      simp only [flow, hread, done, Bool.false_eq_true, if_false, Bool.not_true, ne_eq, not_true_eq_false, Bool.false_and]
      exact Exec.onSessionReply_up (s := (c.start i).unlink l) _ l expect kept hopen

/-- Records lie under the id of their own key, handshakes towards a peer were built for its key,
and every established link is with a paired device that its handshake authenticated. -/
structure Core.Authentic (c : Core X P) : Prop where
  keyed : ∀ (p : DeviceId) (r : PeerRecord), c.peers[p]? = some r → r.id X = some p
  expecting : ∀ (l : LinkId) (h : HandshakingLink X), c.links[l]? = some (.handshaking h) →
    h.pairingFlow = false → ∃ pk, h.expect = some (DeviceId.of X pk) ∧
      Handshake.IsSession c.identity h.hs pk
  up : ∀ (l : LinkId) (u : UpLink X), c.links[l]? = some (.up u) →
    u.peer ∈ c.peers ∧ u.Authenticated c.identity

variable [Plugin P]

theorem CoreBuilder.authentic (b : CoreBuilder X P) : b.build.Authentic where
  keyed _ _ h := (Lib.index_some b.peers h).2
  expecting l h hl := by simp [build] at hl
  up l u hl := by simp [build] at hl

namespace Core
variable {c : Core X P} {i : Input X}

theorem step_keyed (h : ∀ (p : DeviceId) (r : PeerRecord), c.peers[p]? = some r → r.id X = some p)
    (p : DeviceId) (r : PeerRecord) (hp : (c.step i).peers[p]? = some r) : r.id X = some p := by
  rcases c.step_peers_cases i with ⟨hpeers, -⟩ |
    ⟨_, _, peer, _, _, _, _, record, record', -, hacc, hpeers, -⟩ |
    ⟨a, _, id, -, -, hid, hpeers, -⟩ | ⟨peer, -, hpeers, -⟩ <;> rw [hpeers] at hp
  · exact h p r hp
  · rcases Lib.getElem?_of_insert hp with ⟨rfl, rfl⟩ | ⟨-, hp⟩
    · have := h p record hacc.known
      rw [hacc.updated]
      exact this
    · exact h p r hp
  · rcases Lib.getElem?_of_insert hp with ⟨rfl, rfl⟩ | ⟨-, hp⟩
    · exact hid
    · exact h p r hp
  · exact h p r (Lib.getElem?_of_erase hp).2

/-- A step keeps every key of the trust store but the one it revokes. -/
theorem mem_peers_step {p : DeviceId} (h : p ∈ c.peers)
    (hrev : i.event ≠ .localCommand (.revoke p)) : p ∈ (c.step i).peers := by
  rcases c.step_peers_cases i with ⟨hpeers, -⟩ | ⟨_, _, peer, _, _, _, _, _, _, -, -, hpeers, -⟩ |
    ⟨_, _, id, -, -, -, hpeers, -⟩ | ⟨peer, he, hpeers, -⟩ <;> rw [hpeers]
  · exact h
  · exact ExtTreeMap.mem_insert.mpr (.inr h)
  · exact ExtTreeMap.mem_insert.mpr (.inr h)
  · refine ExtTreeMap.mem_erase.mpr ⟨?_, h⟩
    intro hk
    have : peer = p := LawfulEqOrd.eq_of_compare hk
    exact hrev (this ▸ he)

theorem step_revoked {p : DeviceId} (he : i.event = .localCommand (.revoke p)) {l : LinkId}
    {v : UpLink X} (hv : (c.step i).links[l]? = some (.up v)) : v.peer ≠ p := by
  unfold step exec at hv
  rw [he] at hv
  exact Exec.handleRevoke_gone hv

/-- Where the peer of an established link comes from. -/
theorem step_up_cases {l : LinkId} {v : UpLink X} (hv : (c.step i).links[l]? = some (.up v)) :
    (∃ u fs, c.links[l]? = some (.up u) ∧ Sealing false u fs v) ∨
    (∃ msg body u plaintext session fs, i.event = .linkRecv l msg ∧
      Frame.split msg = some (.transport, body) ∧ c.links[l]? = some (.up u) ∧
      u.session.decrypt body = .ok (plaintext, session) ∧
      Sealing false { u with session, lastRecvMs := i.now.monotonicMs } fs v) ∨
    ∃ hello record' reply u fs, Established i (c.start i) l hello record' reply u ∧
      Sealing false u fs v ∧ (c.step i).peers = c.peers.insert u.peer record' := by
  obtain ⟨mid, hhead, htrust, hafter⟩ := step_trust (c := c) (i := i)
  obtain ⟨w, gs, hw, hs⟩ := hafter.up_of hv
  rcases hhead.up_cases hw with ⟨u, fs, hu, hs'⟩ | ⟨msg, body, u, p, session, he, hf, hu, hd, rfl⟩ |
    ⟨hello, record', reply, u, fs, hest, hs', hins⟩
  · exact .inl ⟨u, _, hu, hs'.trans hs⟩
  · exact .inr (.inl ⟨msg, body, u, p, session, _, he, hf, hu, hd, hs⟩)
  · have hpeers : (c.step i).peers = mid.core.peers := congrArg Trust.peers htrust
    exact .inr (.inr ⟨hello, record', reply, u, _, hest, hs'.trans hs, hpeers.trans hins⟩)

omit [Plugin P] in
theorem Established.authenticated (law : X.StaticLaw) (h : c.Authentic) {l : LinkId} {hello : Hello}
    {record' : PeerRecord} {reply : List Bytes} {u : UpLink X}
    (he : Established i (c.start i) l hello record' reply u) :
    u.Authenticated c.identity := by
  cases he with
  | intro read accept turn open_ =>
    cases read with
    | opener event frame link caller known key build hread =>
      have hs := Handshake.IsSession.responder caller build hread (.turn (.refl _) turn)
      exact ⟨_, _, _, _, hs, hs.static law, rfl, rfl, open_, .refl _⟩
    | reply event frame link flow hread done expect =>
      obtain ⟨pk, hexp, hs⟩ := h.expecting l _ link flow
      have hs' := hs.run (.turn (.read (.refl _) hread) turn)
      refine ⟨_, _, _, _, hs', hs'.static law, ?_, rfl, open_, .refl _⟩
      exact Option.some.inj (expect.symm.trans hexp)

theorem Authentic.step (law : X.StaticLaw) (h : c.Authentic) (i : Input X) :
    (c.step i).Authentic := by
  have hid : (c.step i).identity = c.identity := step_identity
  refine ⟨fun p r => step_keyed h.keyed p r, ?_, ?_⟩
  · intro l h' hl hflow
    rw [hid]
    obtain ⟨mid, hhead, -, hafter⟩ := step_trust (c := c) (i := i)
    obtain ⟨h₁, hl₁, he₁⟩ := hafter.handshaking_of hl
    rw [he₁] at hflow ⊢
    rcases hhead.handshaking_cases hl₁ with ⟨h₀, hl₀, he₀⟩ | hbegun | ⟨h₀, hl₀, hcont⟩
    · rw [he₀] at hflow ⊢
      exact h.expecting l h₀ hl₀ hflow
    · cases hbegun with
      | session known hpk build write expect _ =>
        have hkey := h.keyed _ _ known
        rw [PeerRecord.id, hpk, Option.map_some, Option.some.injEq] at hkey
        exact ⟨_, hkey ▸ expect, .initiator build (.write (.refl _) write)⟩
      | pairDial _ _ flow => simp [flow] at hflow
      | pairAnswer _ _ _ flow => simp [flow] at hflow
    · cases hcont with
      | intro read turn =>
        obtain ⟨pk, hexp, hs⟩ := h.expecting l h₀ hl₀ hflow
        exact ⟨pk, hexp, hs.run (.turn (.read (.refl _) read) turn)⟩
  · intro l v hv
    rw [hid]
    have kept : ∀ u : UpLink X, c.links[l]? = some (.up u) → v.peer = u.peer →
        v.peer ∈ (c.step i).peers := by
      intro u hu hp
      refine mem_peers_step (hp ▸ (h.up l u hu).1) ?_
      intro hrev
      exact step_revoked hrev hv rfl
    rcases step_up_cases hv with ⟨u, fs, hu, hs⟩ | ⟨_, _, u, _, session, fs, -, -, hu, hd, hs⟩ |
      ⟨hello, record', reply, u, fs, hest, hs, hins⟩
    · exact ⟨kept u hu hs.peer_eq, (h.up l u hu).2.sealing hs⟩
    · refine ⟨kept u hu hs.peer_eq, UpLink.Authenticated.sealing ?_ hs⟩
      obtain ⟨hs', pk, attrs, s₀, h1, h2, h3, h4, h5, h6⟩ := (h.up l u hu).2
      exact ⟨hs', pk, attrs, s₀, h1, h2, h3, h4, h5, h6.decrypt hd⟩
    · have hmem : u.peer ∈ (c.step i).peers := by
        rw [hins]
        exact ExtTreeMap.mem_insert_self
      exact ⟨hs.peer_eq ▸ hmem, (Established.authenticated law h hest).sealing hs⟩

/-- The step stores the peer: a person confirms a record on screen that is this peer's. -/
def Stores (c : Core X P) (i : Input X) (p : DeviceId) : Prop :=
  i.event = .localCommand (.confirmPairing true) ∧
    ∃ d a, c.pairing = some ⟨d, some a⟩ ∧ a.record.id X = some p

/-- A device that is not in the trust store stays out of it until it is paired. -/
theorem not_mem_peers_step {p : DeviceId} (hp : p ∉ c.peers) (hs : ¬ c.Stores i p) :
    p ∉ (c.step i).peers := by
  rcases c.step_peers_cases i with ⟨hpeers, -⟩ |
    ⟨_, _, peer, _, _, _, _, record, _, -, hacc, hpeers, -⟩ |
    ⟨a, d, id, he, hw, hid, hpeers, -⟩ | ⟨peer, -, hpeers, -⟩ <;> rw [hpeers]
  · exact hp
  · rw [ExtTreeMap.mem_insert]
    rintro (hk | hm)
    · have hk : peer = p := LawfulEqOrd.eq_of_compare hk
      subst hk
      exact hp (ExtTreeMap.mem_iff_isSome_getElem?.mpr (by
        have hknown : c.peers[peer]? = some record := hacc.known
        simp [hknown]))
    · exact hp hm
  · rw [ExtTreeMap.mem_insert]
    rintro (hk | hm)
    · have hk : id = p := LawfulEqOrd.eq_of_compare hk
      subst hk
      exact hs ⟨he, d, a, hw, hid⟩
    · exact hp hm
  · rw [ExtTreeMap.mem_erase]
    exact fun h => hp h.2

theorem not_mem_peers_revoke {p : DeviceId} (he : i.event = .localCommand (.revoke p)) :
    p ∉ (c.step i).peers := by
  have hpeers : (c.step i).peers = c.peers.erase p := by
    unfold step exec
    rw [he]
    exact Exec.handleRevoke_peers _ _ _
  rw [hpeers]
  simp

theorem run_authentic (law : X.StaticLaw) (b : CoreBuilder X P) (is : List (Input X)) :
    (b.build.run is).Authentic :=
  Lib.run_inv (fun _ i h => h.step law i) b.authentic is

/-- Every established link is with a paired device whose key its handshake authenticated; a device
that was revoked has no such link until a person pairs it again. -/
theorem up_paired_and_authenticated (law : X.StaticLaw) (b : CoreBuilder X P)
    (is : List (Input X)) :
    (∀ (l : LinkId) (u : UpLink X), (b.build.run is).links[l]? = some (.up u) →
      u.peer ∈ (b.build.run is).peers ∧ u.Authenticated (b.build.run is).identity) ∧
    ∀ (i : Input X) (p : DeviceId), i.event = .localCommand (.revoke p) →
      ∀ js, Lib.Along step (fun c j => ¬ c.Stores j p) ((b.build.run is).step i) js →
        ∀ (l : LinkId) (u : UpLink X),
          (((b.build.run is).step i).run js).links[l]? = some (.up u) → u.peer ≠ p := by
  refine ⟨(run_authentic law b is).up, ?_⟩
  intro i p he js hjs l u hu hp
  have hout : p ∉ (((b.build.run is).step i).run js).peers :=
    hjs.inv (I := fun c => p ∉ c.peers) (fun c j hc hj => not_mem_peers_step hc hj)
      (not_mem_peers_revoke he)
  have hrun : (((b.build.run is).step i).run js).Authentic :=
    Lib.run_inv (fun _ i h => h.step law i) ((run_authentic law b is).step law i) js
  exact hout (hp ▸ (hrun.up l u hu).1)

def isUp (c : Core X P) (l : LinkId) : Bool :=
  match c.links[l]? with
  | some (.up _) => true
  | _ => false

omit [Plugin P] in
theorem up_of_isUp {l : LinkId} (h : c.isUp l) : ∃ u, c.links[l]? = some (.up u) := by
  unfold isUp at h
  split at h
  · exact ⟨_, ‹_›⟩
  · cases h

def phoneConnects : List (Input Mock.crates) :=
  phoneWaiting ++ [Mock.at_ 0 0 (.localCommand (.confirmPairing true)),
    Mock.at_ 0 0 (.linkUp 2 (.tcpLan 1) none)]

def phoneOpener (l : LinkId) : Input Mock.crates :=
  Mock.at_ 0 0 (.linkRecv l (Mock.openerFrame 5 1 (Mock.phoneHello 1)))

def phoneCalls : List (Input Mock.crates) := phoneConnects ++ [phoneOpener 2]

theorem phone_up_and_authenticated :
    (∃ u, ((Mock.fresh (P := Unit) 1 []).build.run phoneCalls).links[2]? = some (.up u) ∧
      u.Authenticated ((Mock.fresh (P := Unit) 1 []).build.run phoneCalls).identity) ∧
    ∀ (l : LinkId) (u : UpLink Mock.crates),
      (((Mock.fresh (P := Unit) 1 []).build.run phoneCalls).step (Mock.at_ 0 0 (.localCommand
        (.revoke (DeviceId.of Mock.crates (Mock.device 5).publicKey))))).links[l]? = some (.up u) →
        u.peer ≠ DeviceId.of Mock.crates (Mock.device 5).publicKey := by
  obtain ⟨hup, hrev⟩ :=
    up_paired_and_authenticated Mock.staticLaw (Mock.fresh (P := Unit) 1 []) phoneCalls
  obtain ⟨u, hu⟩ := up_of_isUp (c := (Mock.fresh (P := Unit) 1 []).build.run phoneCalls) (l := 2)
    (by decide +kernel)
  refine ⟨⟨u, hu, (hup 2 u hu).2⟩, fun l v hv => ?_⟩
  have hgone := hrev (Mock.at_ 0 0 (.localCommand
    (.revoke (DeviceId.of Mock.crates (Mock.device 5).publicKey)))) _ rfl [] (.nil _) l v
  rw [run_nil] at hgone
  exact hgone hv

end Core
end Acrylius
