import Acrylius.Core.Sessions

/-! The replay watermark: what a `Hello` that opens a session leaves behind, and how long it
stands. -/
namespace Acrylius
open Proto Std

variable {X : Crates} {P : Type} [Plugin P]

omit [Plugin P] in
/-- A step reads at most one session handshake message, in one way. -/
theorem SessionRead.unique {i : Core.Input X} {s : Exec X P} {l : LinkId}
    {attrs attrs' : LinkAttrs} {peer peer' : DeviceId} {payload payload' : Bytes}
    {hs hs' : Handshake X} {owes owes' : Bool} (h : SessionRead i s l attrs peer payload hs owes)
    (h' : SessionRead i s l attrs' peer' payload' hs' owes') :
    peer' = peer ∧ payload' = payload := by
  cases h with
  | opener event frame link caller known key build read =>
    cases h' with
    | opener event' frame' link' caller' known' key' build' read' =>
      obtain rfl := (Event.linkRecv.inj (event'.symm.trans event)).2
      obtain ⟨-, rfl⟩ := Prod.mk.inj (Option.some.inj (frame'.symm.trans frame))
      obtain rfl := Except.ok.inj (caller'.symm.trans caller)
      obtain rfl := Option.some.inj (known'.symm.trans known)
      obtain rfl := Option.some.inj (key'.symm.trans key)
      obtain rfl := Except.ok.inj (build'.symm.trans build)
      exact ⟨rfl, (Prod.mk.inj (Except.ok.inj (read'.symm.trans read))).1⟩
    | reply _ _ link' => cases Option.some.inj (link'.symm.trans link)
  | reply event frame link flow read done expect =>
    cases h' with
    | opener _ _ link' => cases Option.some.inj (link'.symm.trans link)
    | reply event' frame' link' flow' read' done' expect' =>
      obtain rfl := (Event.linkRecv.inj (event'.symm.trans event)).2
      obtain ⟨-, rfl⟩ := Prod.mk.inj (Option.some.inj (frame'.symm.trans frame))
      obtain rfl := LinkState.handshaking.inj (Option.some.inj (link'.symm.trans link))
      exact ⟨Option.some.inj (expect'.symm.trans expect),
        (Prod.mk.inj (Except.ok.inj (read'.symm.trans read))).1⟩

/-- What an answer of `IKpsk2` adds to its payload: an ephemeral key and the tag. -/
def answerOverhead : ℕ := 48

/-- What the core relies on about a responder of `IKpsk2` and message 1. -/
structure Crates.ResponderLaw (X : Crates) : Prop where
  /-- The message is read or not, whatever the PSK and the randomness. -/
  read : ∀ {id : Identity X} {psk : Key32} {seed : X.Seed} {hs hs' : Handshake X} {m p : Bytes},
    Handshake.sessionResponder id psk seed = .ok hs → hs.read m = .ok (p, hs') → ∀ psk' seed',
      ∃ r p' r', Handshake.sessionResponder id psk' seed' = .ok r ∧ r.read m = .ok (p', r')
  /-- It is answered with any payload that leaves room for the rest of the answer. -/
  answer : ∀ {id : Identity X} {psk : Key32} {seed : X.Seed} {hs hs' : Handshake X} {m p : Bytes},
    Handshake.sessionResponder id psk seed = .ok hs → hs.read m = .ok (p, hs') →
      ∀ payload, (∃ r, hs'.write payload = .ok r) ↔
        payload.length + answerOverhead ≤ maxNoiseMessage
  /-- The answer completes the handshake. -/
  complete : ∀ {id : Identity X} {psk : Key32} {seed : X.Seed} {hs hs' hs'' : Handshake X}
    {m p payload m' : Bytes},
    Handshake.sessionResponder id psk seed = .ok hs → hs.read m = .ok (p, hs') →
      hs'.write payload = .ok (m', hs'') →
        hs''.isComplete ∧ ∃ t, X.intoTransportMode hs''.state = .ok t

namespace Mock

def responder (mine psk : Bytes) (seed : UInt8) : Handshake crates :=
  ⟨(⟨true, false, mine, psk, none, seed, 0, []⟩ : HandshakeState), .session⟩

def answering (mine psk : Bytes) (seed : UInt8) (m : Bytes) : Handshake crates :=
  ⟨(⟨true, false, mine, psk, some ((m.drop 33).take 32), seed, 1, m⟩ : HandshakeState), .session⟩

def answer (psk : Bytes) (seed : UInt8) (payload : Bytes) : Bytes :=
  seed :: (psk ++ List.replicate 15 0) ++ payload

theorem length_answer (psk : Key32) (seed : UInt8) (payload : Bytes) :
    (answer psk.bytes seed payload).length = payload.length + answerOverhead := by
  simp only [answer, answerOverhead, List.length_append, List.length_cons, List.length_replicate,
    psk.size]
  omega

def answered (mine psk : Bytes) (seed : UInt8) (m m' : Bytes) : Handshake crates :=
  ⟨(⟨true, false, mine, psk, some ((m.drop 33).take 32), seed, 2, m ++ m'⟩ : HandshakeState),
    .session⟩

theorem read_responder {mine psk m p : Bytes} {seed : UInt8} {hs : Handshake crates} :
    (responder mine psk seed).read m = .ok (p, hs) ↔
      m.length ≤ maxNoiseMessage ∧ 65 ≤ m.length ∧ (m.drop 1).take 32 = mine ∧ m.drop 65 = p ∧
        answering mine psk seed m = hs := by
  have hread : crates.readMessage (responder mine psk seed).state m =
      if m.length < 65 ∨ (m.drop 1).take 32 ≠ mine then .error "decrypt error"
      else .ok (m.drop 65, (answering mine psk seed m).state) := rfl
  unfold Handshake.read
  rw [hread]
  split_ifs with hmax hdone hm
  · simp [hmax]
  · cases hdone
  · refine ⟨fun h => (by cases h), fun h => absurd hm ?_⟩
    exact not_or_intro (by omega) (not_not_intro h.2.2.1)
  · have hle := Nat.le_of_not_lt hmax
    constructor
    · intro h
      cases h
      exact ⟨hle, by omega, by tauto, rfl, rfl⟩
    · rintro ⟨-, -, -, rfl, rfl⟩
      rfl

theorem write_answering {mine psk m payload m' : Bytes} {seed : UInt8} {hs : Handshake crates} :
    (answering mine psk seed m).write payload = .ok (m', hs) ↔
      (answer psk seed payload).length ≤ maxNoiseMessage ∧ answer psk seed payload = m' ∧
        answered mine psk seed m m' = hs := by
  have hwrite : crates.writeMessage (answering mine psk seed m).state payload =
      if maxNoiseMessage < (answer psk seed payload).length then .error "message too long"
      else .ok (answer psk seed payload,
        (answered mine psk seed m (answer psk seed payload)).state) := rfl
  unfold Handshake.write
  rw [hwrite]
  split_ifs with hdone hmax
  · cases hdone
  · refine ⟨fun h => (by cases h), fun h => ?_⟩
    omega
  · constructor
    · intro h
      cases h
      exact ⟨Nat.le_of_not_lt hmax, rfl, rfl⟩
    · rintro ⟨-, rfl, rfl⟩
      rfl

theorem responderLaw : crates.ResponderLaw where
  read := by
    intro id psk seed hs hs' m p hb hr psk' seed'
    obtain rfl : responder _ psk.bytes seed = hs := Except.ok.inj hb
    obtain ⟨hmax, hlen, hmine, -⟩ := read_responder.mp hr
    exact ⟨responder _ psk'.bytes seed', _, _, rfl,
      read_responder.mpr ⟨hmax, hlen, hmine, rfl, rfl⟩⟩
  answer := by
    intro id psk seed hs hs' m p hb hr payload
    obtain rfl : responder _ psk.bytes seed = hs := Except.ok.inj hb
    obtain ⟨-, -, -, -, rfl⟩ := read_responder.mp hr
    rw [← length_answer psk seed payload]
    constructor
    · rintro ⟨⟨m', r⟩, hw⟩
      exact (write_answering.mp hw).1
    · intro h
      exact ⟨_, write_answering.mpr ⟨h, rfl, rfl⟩⟩
  complete := by
    intro id psk seed hs hs' hs'' m p payload m' hb hr hw
    obtain rfl : responder _ psk.bytes seed = hs := Except.ok.inj hb
    obtain ⟨-, -, -, -, rfl⟩ := read_responder.mp hr
    obtain ⟨-, -, rfl⟩ := write_answering.mp hw
    exact ⟨rfl, _, rfl⟩

end Mock

namespace Handshake

theorem sessionIdentify_ok {id : Identity X} {body : Bytes} {seed : X.Seed} {pk : Key32} :
    sessionIdentify id body seed = .ok pk ↔ ∃ probe p probe',
      sessionResponder id zeroPsk seed = .ok probe ∧ probe.read body = .ok (p, probe') ∧
        probe'.peerStatic = some pk := by
  unfold sessionIdentify
  cases hp : sessionResponder id zeroPsk seed with
  | error e => simp [bind, Except.bind]
  | ok probe =>
    cases hr : probe.read body with
    | error e => simp [hr, bind, Except.bind]
    | ok r =>
      obtain ⟨p, probe'⟩ := r
      cases hk : probe'.peerStatic with
      | none => simp [hr, hk, bind, Except.bind, throw, throwThe, MonadExceptOf.throw]
      | some k => simp [hr, hk, bind, Except.bind, pure, Except.pure]

/-- A message 1 that was read once is read again, to the same payload and caller. -/
theorem read_again (law : X.StaticLaw) (again : X.ResponderLaw) {id : Identity X}
    {psk : Key32} {seed : X.Seed} {body payload : Bytes} {hs₀ hs : Handshake X}
    (hb : sessionResponder id psk seed = .ok hs₀) (hr : hs₀.read body = .ok (payload, hs))
    (psk' : Key32) (seed' : X.Seed) : ∃ r₀ r, sessionResponder id psk' seed' = .ok r₀ ∧
      r₀.read body = .ok (payload, r) ∧ r.peerStatic = hs.peerStatic := by
  obtain ⟨r₀, p, r, hb', hr'⟩ := again.read hb hr psk' seed'
  obtain ⟨rfl, hstatic⟩ := law.opener (build_ok hb).1 (build_ok hb').1 (read_ok hr) (read_ok hr')
  refine ⟨r₀, r, hb', hr', ?_⟩
  unfold peerStatic
  rw [hstatic]

theorem intoSession_eq_ok {hs : Handshake X} {attrs : LinkAttrs} (done : hs.isComplete)
    (stateful : attrs.supportsStatefulCipher) {t : X.TransportState}
    (moved : X.intoTransportMode hs.state = .ok t) : hs.intoSession attrs = .ok ⟨t, 0⟩ := by
  unfold intoSession
  simp [done, stateful, moved, Crates.lift, bind, Except.bind, pure, Except.pure]

theorem stateful_of_intoSession {hs : Handshake X} {attrs : LinkAttrs} {session : Session X}
    (h : hs.intoSession attrs = .ok session) : attrs.supportsStatefulCipher := by
  unfold intoSession at h
  split_ifs at h with hdone hno
  simpa using hno

end Handshake

theorem Proto.Hello.checkFreshness_eq_ok {h : Hello} {nowMs seen : ℕ} (new : seen < h.tsMs)
    (late : nowMs ≤ h.tsMs + maxSkewMs) (early : h.tsMs ≤ nowMs + maxSkewMs) :
    h.checkFreshness nowMs seen = .ok h.tsMs := by
  unfold Hello.checkFreshness
  dsimp only
  rw [if_neg (by omega), if_neg (by omega)]

namespace Core
variable {c : Core X P} {i : Input X} {l : LinkId} {p : DeviceId} {hello : Hello}

/-- In this step a session handshake message from `p` was read on the link, carrying this `Hello`,
and the link came up with `p`. -/
structure Opens (c : Core X P) (i : Input X) (l : LinkId) (p : DeviceId) (hello : Hello) : Prop where
  read : ∃ attrs payload hs owes, SessionRead i (c.start i) l attrs p payload hs owes ∧
    X.decode Hello payload = some hello
  up : ∃ u, (c.step i).links[l]? = some (.up u) ∧ u.peer = p

/-- Every link that comes up is opened by a `Hello`. -/
theorem opens_of_newly_up {v : UpLink X} (hv : (c.step i).links[l]? = some (.up v))
    (hnew : ∀ u : UpLink X, c.links[l]? ≠ some (.up u)) : ∃ hello, c.Opens i l v.peer hello := by
  rcases step_up_cases hv with ⟨u, _, hu, -⟩ | ⟨_, _, u, _, _, _, -, -, hu, -⟩ |
    ⟨hello, record', reply, u, fs, hest, hs, -⟩
  · exact absurd hu (hnew u)
  · exact absurd hu (hnew u)
  · cases hest with
    | intro read accept turn open_ =>
      have hp := hs.peer_eq
      rw [hp]
      exact ⟨hello, ⟨_, _, _, _, read, accept.decoded⟩, v, hv, hp⟩

def upPeer (c : Core X P) (l : LinkId) : Option DeviceId :=
  match c.links[l]? with
  | some (.up u) => some u.peer
  | _ => none

theorem opens_of_upPeer (hold : c.upPeer l = none) (hp : (c.step i).upPeer l = some p) :
    ∃ hello, c.Opens i l p hello := by
  unfold upPeer at hp
  split at hp
  · rename_i u hu
    obtain rfl := Option.some.inj hp
    refine opens_of_newly_up hu fun v hv => ?_
    simp [upPeer, hv] at hold
  · cases hp

/-- A `Hello` that opens a session passed the freshness check against the stored record, whose
watermark it became. -/
theorem Opens.accepted (h : c.Opens i l p hello) : ∃ record record',
    c.peers[p]? = some record ∧
    hello.checkFreshness i.now.wallMs record.greatestSeen = .ok hello.tsMs ∧
    record'.greatestSeen = hello.tsMs ∧ (c.step i).peers = c.peers.insert p record' := by
  obtain ⟨attrs, payload, hs, owes, hread, hdec⟩ := h.read
  obtain ⟨v, hv, hp⟩ := h.up
  have hold : ∀ u : UpLink X, c.links[l]? ≠ some (.up u) := by
    intro u hu
    cases hread with
    | opener _ _ link => cases Option.some.inj (hu.symm.trans link)
    | reply _ _ link => cases Option.some.inj (hu.symm.trans link)
  rcases step_up_cases hv with ⟨u, _, hu, -⟩ | ⟨_, _, u, _, _, _, -, -, hu, -⟩ |
    ⟨hello', record', reply, u, fs, hest, hs', hins⟩
  · exact absurd hu (hold u)
  · exact absurd hu (hold u)
  · cases hest with
    | intro read accept turn open_ =>
      obtain ⟨rfl, rfl⟩ := hread.unique read
      obtain rfl := Option.some.inj (accept.decoded.symm.trans hdec)
      refine ⟨_, record', accept.known, accept.fresh, ?_, hins⟩
      rw [accept.updated]

/-- The caller and the `Hello` that open a session are those of the one message read. -/
theorem Opens.unique {p' : DeviceId} {hello' : Hello} (h : c.Opens i l p hello)
    (h' : c.Opens i l p' hello') : p' = p ∧ hello' = hello := by
  obtain ⟨attrs, payload, hs, owes, hread, hdec⟩ := h.read
  obtain ⟨attrs', payload', hs', owes', hread', hdec'⟩ := h'.read
  obtain ⟨rfl, rfl⟩ := hread.unique hread'
  exact ⟨rfl, Option.some.inj (hdec'.symm.trans hdec)⟩

theorem Opens.within_skew (h : c.Opens i l p hello) :
    i.now.wallMs ≤ hello.tsMs + maxSkewMs ∧ hello.tsMs ≤ i.now.wallMs + maxSkewMs := by
  obtain ⟨record, record', -, hfresh, -⟩ := h.accepted
  exact (Hello.checkFreshness_ok hfresh).2.2

/-- The stored watermark of a device, if it is paired at all, is at least `ts`. -/
def Floor (c : Core X P) (p : DeviceId) (ts : ℕ) : Prop :=
  ∀ r, c.peers[p]? = some r → ts ≤ r.greatestSeen

theorem Opens.floor (h : c.Opens i l p hello) : (c.step i).Floor p hello.tsMs := by
  obtain ⟨record, record', -, -, hseen, hins⟩ := h.accepted
  intro r hr
  rw [hins, ExtTreeMap.getElem?_insert_self] at hr
  cases hr
  exact hseen.ge

/-- No older `Hello` opens a session above a watermark. -/
theorem Opens.above {ts : ℕ} (h : c.Opens i l p hello) (hf : c.Floor p ts) : ts < hello.tsMs := by
  obtain ⟨record, record', hknown, hfresh, -⟩ := h.accepted
  have := hf record hknown
  have := (Hello.checkFreshness_ok hfresh).2.1
  omega

theorem Floor.step {ts : ℕ} (h : c.Floor p ts) (hs : ¬ c.Stores i p) : (c.step i).Floor p ts := by
  intro r hr
  rcases c.step_peers_cases i with ⟨hpeers, -⟩ |
    ⟨_, _, peer, _, _, _, _, record, record', -, hacc, hpeers, -⟩ |
    ⟨a, d, id, he, hw, hid, hpeers, -⟩ | ⟨peer, -, hpeers, -⟩ <;> rw [hpeers] at hr
  · exact h r hr
  · rcases Lib.getElem?_of_insert hr with ⟨rfl, rfl⟩ | ⟨-, hr⟩
    · have hold := h record hacc.known
      have := (Hello.checkFreshness_ok hacc.fresh).2.1
      rw [hacc.updated]
      dsimp only
      omega
    · exact h r hr
  · rcases Lib.getElem?_of_insert hr with ⟨rfl, rfl⟩ | ⟨-, hr⟩
    · exact absurd ⟨he, d, a, hw, hid⟩ hs
    · exact h r hr
  · exact h r (Lib.getElem?_of_erase hr).2

theorem floor_run {ts : ℕ} (h : c.Floor p ts) {js : List (Input X)}
    (hjs : Lib.Along step (fun c j => ¬ c.Stores j p) c js) : (c.run js).Floor p ts :=
  hjs.inv (I := fun c => c.Floor p ts) (fun _ _ hc hj => hc.step hj) h

/-- As responder: message 1 arrived on a link that had said nothing yet, and the link came up. -/
structure OpensFrom (c : Core X P) (i : Input X) (l : LinkId) (body : Bytes) : Prop where
  event : i.event = .linkRecv l (Frame.join .sessionHandshake body)
  waiting : ∃ q, c.links[l]? = some (.pending q)
  up : ∃ u, (c.step i).links[l]? = some (.up u)

/-- Who sent a message 1 that opened a session, and what it carried. -/
theorem OpensFrom.opener {body : Bytes} (h : c.OpensFrom i l body) :
    ∃ pk psk hs₀ payload hs hello, Handshake.sessionIdentify c.identity body i.seed = .ok pk ∧
      Handshake.sessionResponder c.identity psk i.seed = .ok hs₀ ∧
      hs₀.read body = .ok (payload, hs) ∧ X.decode Hello payload = some hello ∧
      c.Opens i l (DeviceId.of X pk) hello := by
  obtain ⟨q, hq⟩ := h.waiting
  obtain ⟨u, hu⟩ := h.up
  obtain ⟨hello, hopens⟩ := opens_of_newly_up hu fun v hv => by
    cases Option.some.inj (hv.symm.trans hq)
  obtain ⟨attrs, payload, hs, owes, hread, hdec⟩ := hopens.read
  generalize hp : u.peer = p at hopens hread
  cases hread with
  | opener event frame link caller known key build read =>
    obtain rfl := (Event.linkRecv.inj (event.symm.trans h.event)).2
    rw [Frame.split_join] at frame
    obtain ⟨-, rfl⟩ := Prod.mk.inj (Option.some.inj frame)
    exact ⟨_, _, _, payload, hs, hello, caller, build, read, hdec, hopens⟩
  | reply _ _ link => cases Option.some.inj (link.symm.trans hq)

/-- A message 1 names one sender and one `Hello`, whenever and under whatever PSK it is read. -/
theorem OpensFrom.same (law : X.StaticLaw) {c' : Core X P} {i' : Input X} {l' : LinkId}
    {body : Bytes} (h : c.OpensFrom i l body) (h' : c'.OpensFrom i' l' body)
    (hid : c'.identity = c.identity) :
    ∃ p hello, c.Opens i l p hello ∧ c'.Opens i' l' p hello := by
  obtain ⟨pk, psk, hs₀, payload, hs, hello, hcall, hbuild, hread, hdec, hopens⟩ := h.opener
  obtain ⟨pk', psk', hs₀', payload', hs', hello', hcall', hbuild', hread', hdec', hopens'⟩ :=
    h'.opener
  rw [hid] at hcall' hbuild'
  obtain ⟨rfl, hstatic⟩ := law.opener (Handshake.build_ok hbuild).1 (Handshake.build_ok hbuild').1
    (Handshake.read_ok hread) (Handshake.read_ok hread')
  have hpk := Handshake.sessionIdentify_static law hcall hbuild hread
  have hpk' := Handshake.sessionIdentify_static law hcall' hbuild' hread'
  rw [Handshake.peerStatic_eq_some] at hpk hpk'
  rw [hpk', hpk, Option.some.injEq] at hstatic
  obtain rfl : pk' = pk := by
    cases pk; cases pk'; simpa using hstatic
  obtain rfl := Option.some.inj (hdec'.symm.trans hdec)
  exact ⟨_, hello', hopens, hopens'⟩

theorem run_identity (c : Core X P) (is : List (Input X)) : (c.run is).identity = c.identity :=
  Lib.run_inv (I := fun c' : Core X P => c'.identity = c.identity)
    (fun _ _ h => step_identity.trans h) rfl is

/-- Nothing but its timestamp keeps a session opener of `p` with this `Hello` from opening a
session on the link. -/
structure Admits (c : Core X P) (i : Input X) (l : LinkId) (p : DeviceId) (hello : Hello) :
    Prop where
  link : ∃ q, c.links[l]? = some (.pending q) ∧ q.attrs.supportsStatefulCipher
  known : ∃ r, c.peers[p]? = some r ∧ r.sessionPskArray.isSome ∧ r.greatestSeen < hello.tsMs
  room : (X.encode (c.start i).core.hello).length + answerOverhead ≤ maxNoiseMessage

/-- A message 1 that opened a session opens another where it is admitted and the clock allows it. -/
theorem OpensFrom.again (law : X.StaticLaw) (again : X.ResponderLaw) {c' : Core X P} {i' : Input X}
    {l' : LinkId} {body : Bytes} (h : c.OpensFrom i l body) (hop : c.Opens i l p hello)
    (hid : c'.identity = c.identity)
    (he : i'.event = .linkRecv l' (Frame.join .sessionHandshake body))
    (hadm : c'.Admits i' l' p hello) (late : i'.now.wallMs ≤ hello.tsMs + maxSkewMs)
    (early : hello.tsMs ≤ i'.now.wallMs + maxSkewMs) : c'.OpensFrom i' l' body := by
  obtain ⟨pk, psk₀, hs₀, payload, hs, hello', hcall, hbuild, hread, hdec, hop'⟩ := h.opener
  obtain ⟨rfl, rfl⟩ := hop.unique hop'
  obtain ⟨⟨q, hq, hstateful⟩, ⟨r, hr, hpsk, hnew⟩, hroom⟩ := hadm
  obtain ⟨psk, hpsk⟩ := Option.isSome_iff_exists.mp hpsk
  -- The probe and the responder read it as they did before, under another PSK.
  obtain ⟨probe, p₁, probe', hprobe, hread₁, hstatic⟩ := Handshake.sessionIdentify_ok.mp hcall
  obtain ⟨r₁, r₁', hb₁, hrd₁, hst₁⟩ :=
    Handshake.read_again law again hprobe hread₁ Handshake.zeroPsk i'.seed
  obtain ⟨r₂, r₂', hb₂, hrd₂, -⟩ := Handshake.read_again law again hbuild hread psk i'.seed
  have hcall' : Handshake.sessionIdentify c.identity body i'.seed = .ok pk :=
    Handshake.sessionIdentify_ok.mpr ⟨_, _, _, hb₁, hrd₁, hst₁.trans hstatic⟩
  rw [← hid] at hcall' hb₂
  obtain ⟨⟨m, r₃⟩, hwrite⟩ := (again.answer hb₂ hrd₂ _).mpr hroom
  obtain ⟨hdone, t, hmoved⟩ := again.complete hb₂ hrd₂ hwrite
  have hopen := Handshake.intoSession_eq_ok hdone hstateful hmoved
  have hest : Established i' (c'.start i') l' hello' _ _ _ :=
    .intro (.opener he (Frame.split_join _ _) hq hcall' hr hpsk hb₂ hrd₂)
      ⟨hdec, hr, Hello.checkFreshness_eq_ok hnew late early, rfl⟩ ⟨m, hwrite, rfl⟩ hopen
  obtain ⟨v, hv, -⟩ := hest.up
  exact ⟨he, ⟨q, hq⟩, v, hv⟩

/-- A message 1 that opens a session was admitted. -/
theorem OpensFrom.admits (again : X.ResponderLaw) {body : Bytes} (h : c.OpensFrom i l body)
    (hop : c.Opens i l p hello) : c.Admits i l p hello := by
  obtain ⟨q, hq⟩ := h.waiting
  obtain ⟨v, hv⟩ := h.up
  obtain ⟨r, -, hr, hfresh, -⟩ := hop.accepted
  obtain ⟨attrs, payload, hs, owes, hread, -⟩ := hop.read
  have hnew := (Hello.checkFreshness_ok hfresh).2.1
  rcases step_up_cases hv with ⟨u, _, hu, -⟩ | ⟨_, _, u, _, _, _, -, -, hu, -⟩ |
    ⟨hello', record', reply, u, fs, hest, hs', hins⟩
  · cases Option.some.inj (hu.symm.trans hq)
  · cases Option.some.inj (hu.symm.trans hq)
  · cases hest with
    | intro read accept turn hopen =>
      obtain ⟨rfl, -⟩ := hread.unique read
      cases read with
      | opener event frame link caller known key build read =>
        obtain rfl := Option.some.inj (known.symm.trans hr)
        obtain ⟨m, hwrite, -⟩ := turn
        refine ⟨⟨_, link, ?_⟩, ⟨_, hr, ?_, hnew⟩, ?_⟩
        · exact Handshake.stateful_of_intoSession hopen
        · rw [key]
          rfl
        · exact (again.answer build read _).mp ⟨_, hwrite⟩
      | reply _ _ link => cases Option.some.inj (link.symm.trans hq)

/-- A message 1 that opened a session and is delivered again after its sender was paired anew, where
nothing else keeps it out, comes too late: the clock is past the skew allowed for it. -/
def LateAfterPairing (c : Core X P) (is : List (Input X)) : Prop :=
  ∀ pre i₁ mid i₂ post, is = pre ++ i₁ :: (mid ++ i₂ :: post) →
    ∀ l₁ l₂ body p hello, (c.run pre).OpensFrom i₁ l₁ body → (c.run pre).Opens i₁ l₁ p hello →
      i₂.event = .linkRecv l₂ (Frame.join .sessionHandshake body) →
      ¬ Lib.Along step (fun c j => ¬ c.Stores j p) ((c.run pre).step i₁) mid →
      (c.run (pre ++ i₁ :: mid)).Admits i₂ l₂ p hello →
      hello.tsMs + maxSkewMs < i₂.now.wallMs ∨ i₂.now.wallMs + maxSkewMs < hello.tsMs

/-- No message 1 brings up two sessions, whatever is replayed, revoked and paired in between, exactly
in the runs in which none is replayed soon enough after a new pairing of its sender. -/
theorem opens_once_iff (law : X.StaticLaw) (again : X.ResponderLaw) (b : CoreBuilder X P)
    (is : List (Input X)) :
    (∀ pre i₁ mid i₂ post, is = pre ++ i₁ :: (mid ++ i₂ :: post) → ∀ l₁ l₂ body,
      (b.build.run pre).OpensFrom i₁ l₁ body →
        ¬ (b.build.run (pre ++ i₁ :: mid)).OpensFrom i₂ l₂ body) ↔
      b.build.LateAfterPairing is := by
  have hid : ∀ xs ys : List (Input X),
      (b.build.run xs).identity = (b.build.run ys).identity := by
    intro xs ys
    rw [run_identity, run_identity]
  constructor
  · intro honce pre i₁ mid i₂ post his l₁ l₂ body p hello h₁ hop₁ he₂ _ hadm
    by_contra hskew
    refine honce pre i₁ mid i₂ post his l₁ l₂ body h₁ ?_
    exact h₁.again law again hop₁ (hid _ _) he₂ hadm (by omega) (by omega)
  · intro hlate pre i₁ mid i₂ post his l₁ l₂ body h₁ h₂
    obtain ⟨p, hello, hop₁, hop₂⟩ := h₁.same law h₂ (hid _ _)
    by_cases hpaired : Lib.Along step (fun c j => ¬ c.Stores j p) ((b.build.run pre).step i₁) mid
    · have hfloor := floor_run hop₁.floor hpaired
      rw [run_append] at hop₂
      exact absurd (hop₂.above hfloor) (lt_irrefl _)
    · have hskew := hop₂.within_skew
      rcases hlate pre i₁ mid i₂ post his l₁ l₂ body p hello h₁ hop₁ h₂.event hpaired
        (h₂.admits again hop₂) with h | h <;> omega

/-- A run that pairs nobody once a session has been opened meets the condition. -/
theorem lateAfterPairing_of_append {xs ys : List (Input X)}
    (hxs : ∀ x ∈ xs, ∀ l body, x.event ≠ .linkRecv l (Frame.join .sessionHandshake body))
    (hys : ∀ y ∈ ys, y.event ≠ .localCommand (.confirmPairing true)) :
    c.LateAfterPairing (xs ++ ys) := by
  intro pre i₁ mid i₂ post his l₁ l₂ body p hello hop _ _ hpaired hadm
  refine absurd ?_ hpaired
  have hmid : ∀ j ∈ mid, j.event ≠ .localCommand (.confirmPairing true) := by
    intro j hj
    rcases List.append_eq_append_iff.mp his with ⟨zs, -, hys'⟩ | ⟨zs, hxs', hys'⟩
    · refine hys j (hys' ▸ ?_)
      simp [hj]
    · cases zs with
      | nil =>
        refine hys j ?_
        rw [List.nil_append] at hys'
        simp [← hys', hj]
      | cons z zs =>
        obtain ⟨rfl, -⟩ := List.cons.inj hys'
        exact absurd hop.event (hxs i₁ (by simp [hxs']) l₁ body)
  clear hpaired hadm his
  generalize (c.run pre).step i₁ = c₁
  induction mid generalizing c₁ with
  | nil => trivial
  | cons j mid ih =>
    refine ⟨fun hs => hmid j (by simp) hs.1, ih (fun j' h => hmid j' (List.mem_cons_of_mem _ h)) _⟩

def isPending (c : Core X P) (l : LinkId) : Bool :=
  match c.links[l]? with
  | some (.pending _) => true
  | _ => false

theorem opensFrom_of_check {body : Bytes}
    (he : i.event = .linkRecv l (Frame.join .sessionHandshake body)) (hp : c.isPending l)
    (hu : (c.step i).isUp l) : c.OpensFrom i l body := by
  refine ⟨he, ?_, up_of_isUp hu⟩
  unfold isPending at hp
  split at hp
  · exact ⟨_, ‹_›⟩
  · cases hp

/-- The phone's opener, delivered again on another link under the same pairing, is refused. -/
theorem phone_opener_opens_once :
    ((Mock.fresh (P := Unit) 1 []).build.run phoneConnects).OpensFrom (phoneOpener 2) 2
      (Mock.opener 5 1 (Mock.phoneHello 1)) ∧
    ¬ ((Mock.fresh (P := Unit) 1 []).build.run (phoneConnects ++ phoneOpener 2 ::
      [Mock.at_ 0 0 (.linkUp 3 (.tcpLan 1) none)])).OpensFrom (phoneOpener 3) 3
        (Mock.opener 5 1 (Mock.phoneHello 1)) := by
  have hfirst : ((Mock.fresh (P := Unit) 1 []).build.run phoneConnects).OpensFrom (phoneOpener 2) 2
      (Mock.opener 5 1 (Mock.phoneHello 1)) :=
    opensFrom_of_check rfl (by decide +kernel) (by decide +kernel)
  refine ⟨hfirst, (opens_once_iff Mock.staticLaw Mock.responderLaw _ _).mpr
    (lateAfterPairing_of_append ?_ ?_) phoneConnects (phoneOpener 2)
    [Mock.at_ 0 0 (.linkUp 3 (.tcpLan 1) none)] (phoneOpener 3) [] rfl 2 3 _ hfirst⟩
  · intro x hx l body
    simp only [phoneConnects, phoneWaiting, Mock.pairFrames, List.map_cons, List.map_nil,
      List.cons_append, List.nil_append, List.mem_cons, List.not_mem_nil, or_false] at hx
    rcases hx with rfl | rfl | rfl | rfl | rfl <;> simp [Mock.at_, Frame.join, FrameKind.toByte]
  · intro y hy
    simp only [List.mem_cons, List.not_mem_nil, or_false, List.cons_append,
      List.nil_append] at hy
    rcases hy with rfl | rfl | rfl <;> simp [Mock.at_, phoneOpener]

def phonePairsAgain : List (Input Mock.crates) :=
  [Mock.at_ 0 0 (.localCommand (.revoke (DeviceId.of Mock.crates (Mock.device 5).publicKey))),
    Mock.at_ 0 0 (.linkUp 3 (.tcpLan 1) none)] ++
  (Mock.pairFrames 5).map (fun m => Mock.at_ 0 0 (.linkRecv 3 m)) ++
  [Mock.at_ 0 0 (.localCommand (.confirmPairing true)), Mock.at_ 0 0 (.linkUp 4 (.tcpLan 1) none)]

/-- The opener it sent before then opens a second session. -/
theorem phone_opener_opens_twice :
    ((Mock.fresh (P := Unit) 1 []).build.run phoneConnects).OpensFrom (phoneOpener 2) 2
      (Mock.opener 5 1 (Mock.phoneHello 1)) ∧
    ((Mock.fresh (P := Unit) 1 []).build.run
      (phoneConnects ++ phoneOpener 2 :: phonePairsAgain)).OpensFrom (phoneOpener 4) 4
        (Mock.opener 5 1 (Mock.phoneHello 1)) :=
  ⟨opensFrom_of_check rfl (by decide +kernel) (by decide +kernel),
    opensFrom_of_check rfl (by decide +kernel) (by decide +kernel)⟩

end Core
end Acrylius
