import Acrylius.Core.Advance
import Acrylius.Core.Answers
import Acrylius.Core.Discipline

/-! Walking the routes of an attempt: what each way it can fail must lead to, and which of them the
core goes on from. -/
namespace Acrylius
open Proto Std

variable {X : Crates} {P : Type}

/-- Where an attempt is kept while it is under way. -/
inductive Place where
  | dial (d : DialToken)
  | link (l : LinkId)

/-- The frame ends a session handshake: it is no frame, is of the wrong kind, is not decrypted, or
its `Hello` is refused. With what the core has to say of it. -/
inductive HandshakingLink.Breaks (s : Exec X P) (h : HandshakingLink X) (msg : Bytes) :
    String → Prop
  | malformed (frame : Frame.split msg = none) : Breaks s h msg "malformed frame"
  | wrongKind {kind : FrameKind} {body : Bytes} (frame : Frame.split msg = some (kind, body))
      (wrong : kind ≠ .sessionHandshake) : Breaks s h msg "handshake frame of the wrong kind"
  | undecryptable {body : Bytes} {e : NoiseError}
      (frame : Frame.split msg = some (.sessionHandshake, body))
      (read : h.hs.read body = .error e) : Breaks s h msg e.toString
  | refused {body payload : Bytes} {hs : Handshake X} {peer : DeviceId}
      (frame : Frame.split msg = some (.sessionHandshake, body))
      (read : h.hs.read body = .ok (payload, hs)) (done : hs.isComplete)
      (expect : h.expect = some peer) (refused : (s.acceptHello peer payload).2 = false) :
      Breaks s h msg "stale or replayed response"

namespace Core

def attempt (c : Core X P) : Place → Option PeerDial
  | .dial d => (c.pendingPeerDials[d]?).map (·.2)
  | .link l => match c.links[l]? with
    | some (.handshaking h) => h.fallback
    | _ => none

/-- The ways the attempt at a place fails, with the reason the core has for each. -/
inductive Fails (c : Core X P) (i : Input X) : Place → String → Prop
  | dialFailed {d : DialToken} {reason : String} (event : i.event = .dialFailed d reason) :
      Fails c i (.dial d) reason
  | dialTimeout {d : DialToken} {e : ℕ × PeerDial} (event : i.event = .tick)
      (dial : c.pendingPeerDials[d]? = some e) (due : e.1 ≤ i.now.monotonicMs) :
      Fails c i (.dial d) "peer didn't answer"
  | handshakeTimeout {l : LinkId} {h : HandshakingLink X} (event : i.event = .tick)
      (link : c.links[l]? = some (.handshaking h)) (due : h.deadline ≤ i.now.monotonicMs) :
      Fails c i (.link l) "got answer that cut off half way"
  | linkDown {l : LinkId} {reason : LinkDownReason} (event : i.event = .linkDown l reason) :
      Fails c i (.link l) "connection closed before session was established"
  | frame {l : LinkId} {msg : Bytes} {h : HandshakingLink X} {why : String}
      (event : i.event = .linkRecv l msg) (link : c.links[l]? = some (.handshaking h))
      (breaks : h.Breaks (c.start i) msg why) : Fails c i (.link l) why

/-- The core as a step meets the failures it reports: a pairing that lapses in the same tick has
gone, with the link it waited on. -/
def faces (c : Core X P) (i : Input X) : Core X P :=
  match i.event with
  | .tick => ((c.start i).lapsePairing i.now.monotonicMs).core
  | _ => c

def Stops (c : Core X P) (i : Input X) (a : PeerDial) (why : String) : Prop :=
  ∃ w, (c.faces i).Fails i w why ∧ (c.faces i).attempt w = some a

/-- The peer is paired, and has no session on a transport as good as the route's. -/
def Wants (c : Core X P) (p : DeviceId) (r : TransportId × String) : Prop :=
  p ∈ c.peers ∧ ∀ (l : LinkId) (u : UpLink X), c.links[l]? = some (.up u) → u.peer = p →
    r.1 < u.transport

variable [Plugin P]

/-- The route is dialled in the step, and the others are kept for later. -/
def GoesOn (c : Core X P) (i : Input X) (p : DeviceId) (r : TransportId × String)
    (rs : List (TransportId × String)) : Prop :=
  ∃ d, (p, d) ∈ (c.exec i).dials ∧ Action.dial r.1 r.2 d ∈ (c.handle i).2.actions ∧
    ∀ e : ℕ × PeerDial, (c.step i).pendingPeerDials[d]? = some e → e.2.peer = p ∧ e.2.routes = rs

/-- Every attempt that fails is gone on with: its next route is dialled if it is wanted, and after
the last one the reason is recorded. In a tick a later word on the peer may take its place. -/
structure WalksOn (c : Core X P) (i : Input X) : Prop where
  dials : ∀ a why r rs, c.Stops i a why → a.routes = r :: rs → (c.faces i).Wants a.peer r →
    c.GoesOn i a.peer r rs
  records : ∀ a why, c.Stops i a why → a.routes = [] → ¬ (c.faces i).Reaches a.peer →
    ∃ why', (c.step i).dialTrouble[a.peer]? = some why' ∧
      (why' = why ∨ i.event = .tick ∧ why' ∈ ["peer didn't answer", Exec.nowhere])

/-- No frame ends an attempt that has a route left to dial, and no other failure does while there is
a session on a worse transport; and none ends one that has no route left, but for a reason already
on file. -/
structure Unbroken (c : Core X P) (i : Input X) : Prop where
  dials : ∀ a why r rs, c.Stops i a why → a.routes = r :: rs → (c.faces i).Wants a.peer r →
    (∀ l msg, i.event ≠ .linkRecv l msg) ∧ ¬ (c.faces i).Reaches a.peer
  records : ∀ a why, c.Stops i a why → a.routes = [] → ¬ (c.faces i).Reaches a.peer →
    (∀ l msg, i.event ≠ .linkRecv l msg) ∨ c.dialTrouble[a.peer]? = some why

end Core

namespace Exec
variable {s t : Exec X P} {nowMs : ℕ} {l : LinkId} {p : DeviceId}

/-- The route was dialled on the way, and the others are kept with it. -/
def Dialled (p : DeviceId) (r : TransportId × String) (rs : List (TransportId × String))
    (s : Exec X P) : Prop :=
  ∃ d, (p, d) ∈ s.dials ∧ Action.dial r.1 r.2 d ∈ s.actions ∧ d ≤ s.core.nextDial ∧
    ∀ e : ℕ × PeerDial, s.core.pendingPeerDials[d]? = some e → e.2.peer = p ∧ e.2.routes = rs

theorem Dialled.advance {put : Option (LinkId × PeerDial)} {r : TransportId × String}
    {rs : List (TransportId × String)} (h : s.Dialled p r rs) (hadv : Advances put s t) :
    t.Dialled p r rs := by
  obtain ⟨d, hd, hact, hle, hkept⟩ := h
  obtain ⟨ds, as, hds, has, -, hdials⟩ := hadv.made
  refine ⟨d, ?_, ?_, hle.trans hadv.next, fun e he => ?_⟩
  · rw [hds]
    exact List.mem_append_left _ hd
  · rw [has]
    exact List.mem_append_left _ hact
  · rcases hdials d e he with ⟨e', he', hsame⟩ | ⟨hlate, -⟩
    · obtain ⟨hpeer, hroutes⟩ := hkept e' he'
      exact ⟨hsame.1.trans hpeer, hsame.2.trans hroutes⟩
    · exact absurd hle (Nat.not_le.mpr hlate)

def Recorded (reasons : List String) (p : DeviceId) (s : Exec X P) : Prop :=
  ∃ why ∈ reasons, s.core.dialTrouble[p]? = some why

theorem tryNextRoute_of_reaches {a : PeerDial} {why : String} (h : s.core.Reaches a.peer) :
    s.tryNextRoute nowMs a why = s :=
  if_pos (Core.bestLink_isSome.mpr h)

theorem tryNextRoute_dialled {a : PeerDial} {why : String} {r : TransportId × String}
    {rs : List (TransportId × String)} (h : ¬ s.core.Reaches a.peer) (hr : a.routes = r :: rs) :
    (s.tryNextRoute nowMs a why).Dialled a.peer r rs := by
  have hnone : ¬ (s.core.bestLink a.peer).isSome := fun hb => h (Core.bestLink_isSome.mp hb)
  unfold tryNextRoute
  rw [if_neg hnone, hr]
  refine ⟨s.core.nextDial + 1, ?_, ?_, le_rfl, fun e he => ?_⟩
  · exact List.mem_append_right _ (List.mem_singleton.mpr rfl)
  · exact List.mem_append_right _ (List.mem_singleton.mpr rfl)
  · have heq := he.symm.trans ExtTreeMap.getElem?_insert_self
    cases heq
    exact ⟨rfl, rfl⟩

theorem tryNextRoute_recorded {a : PeerDial} {why : String} (h : ¬ s.core.Reaches a.peer)
    (hr : a.routes = []) :
    (s.tryNextRoute nowMs a why).core.dialTrouble[a.peer]? = some why := by
  have hnone : ¬ (s.core.bestLink a.peer).isSome := fun hb => h (Core.bestLink_isSome.mp hb)
  unfold tryNextRoute
  rw [if_neg hnone, hr]
  dsimp only
  split
  · exact ExtTreeMap.getElem?_insert_self
  · exact ExtTreeMap.getElem?_insert_self

theorem tryNextRoute_made (a : PeerDial) (why : String) :
    ∀ m ∈ (s.tryNextRoute nowMs a why).dials, m ∈ s.dials ∨ ¬ s.core.Reaches m.1 := by
  intro m hm
  by_cases h : s.core.Reaches a.peer
  · rw [tryNextRoute_of_reaches h] at hm
    exact .inl hm
  · have hnone : ¬ (s.core.bestLink a.peer).isSome := fun hb => h (Core.bestLink_isSome.mp hb)
    unfold tryNextRoute at hm
    rw [if_neg hnone] at hm
    split at hm
    · dsimp only at hm
      split at hm
      · exact .inl hm
      · exact .inl hm
    · rcases List.mem_append.mp hm with hm | hm
      · exact .inl hm
      · rw [List.mem_singleton.mp hm]
        exact .inr h

theorem Recorded.tryNextRoute {reasons : List String} (h : s.Recorded reasons p) (a : PeerDial)
    {why : String} (hwhy : why ∈ reasons) : (s.tryNextRoute nowMs a why).Recorded reasons p := by
  obtain ⟨why', hmem, hfile⟩ := h
  have hput : ∃ why'' ∈ reasons, (s.core.dialTrouble.insert a.peer why)[p]? = some why'' := by
    by_cases hp : p = a.peer
    · subst hp
      exact ⟨why, hwhy, ExtTreeMap.getElem?_insert_self⟩
    · exact ⟨why', hmem, (Lib.getElem?_insert_of_ne hp).trans hfile⟩
  unfold Exec.tryNextRoute
  split
  · exact ⟨why', hmem, hfile⟩
  · split
    · dsimp only
      split
      · exact hput
      · exact hput
    · exact ⟨why', hmem, hfile⟩

end Exec

/-- A stretch that keeps every session's peer, and dials nobody who has one. -/
structure Sifts (s t : Exec X P) : Prop where
  reaches : ∀ p, t.core.Reaches p ↔ s.core.Reaches p
  made : ∀ m ∈ t.dials, m ∈ s.dials ∨ ¬ s.core.Reaches m.1

namespace Sifts
variable {s t r : Exec X P}

theorem refl (s : Exec X P) : Sifts s s := ⟨fun _ => .rfl, fun _ hm => .inl hm⟩

theorem trans (h : Sifts s t) (h' : Sifts t r) : Sifts s r := by
  refine ⟨fun p => (h'.reaches p).trans (h.reaches p), fun m hm => ?_⟩
  rcases h'.made m hm with hm | hdown
  · exact h.made m hm
  · exact .inr fun hr => hdown ((h.reaches m.1).mpr hr)

theorem still (h : Still s t) : Sifts s t :=
  ⟨fun _ => h.reaches, fun m hm => .inl (by rwa [h.made] at hm)⟩

theorem tryNextRoute (s : Exec X P) (nowMs : ℕ) (a : PeerDial) (why : String) :
    Sifts s (s.tryNextRoute nowMs a why) :=
  ⟨fun _ => Exec.tryNextRoute_reaches s a why, Exec.tryNextRoute_made a why⟩

end Sifts

namespace Exec
variable {s t : Exec X P} {nowMs : ℕ} {l : LinkId} {p : DeviceId}

theorem closeStale_links (s : Exec X P) (l : LinkId) :
    (s.closeStale nowMs l).core.links = s.core.links.erase l := by
  unfold closeStale
  dsimp only
  split
  · split
    · rw [tryNextRoute_links]
      rfl
    · rfl
  · rfl

theorem unlink_sifts (hl : ∀ u : UpLink X, s.core.links[l]? ≠ some (.up u)) :
    Sifts s (s.unlink l) := by
  refine ⟨fun p => ⟨unlink_reaches, ?_⟩, fun _ hm => .inl hm⟩
  rintro ⟨m, u, hu, hp⟩
  have hne : m ≠ l := by
    rintro rfl
    exact hl u hu
  exact ⟨m, u, (Lib.getElem?_erase_of_ne hne).trans hu, hp⟩

theorem closeStale_sifts (hl : ∀ u : UpLink X, s.core.links[l]? ≠ some (.up u)) :
    Sifts s (s.closeStale nowMs l) := by
  have hgone : Sifts s ((s.unlink l).push (.close l .closed)) :=
    ⟨(unlink_sifts hl).reaches, fun _ hm => .inl hm⟩
  unfold closeStale
  dsimp only
  split
  · split
    · exact hgone.trans (.tryNextRoute _ nowMs _ _)
    · exact hgone
  · exact hgone

theorem expireDial_sifts (s : Exec X P) (d : DialToken) : Sifts s (s.expireDial nowMs d) := by
  unfold expireDial
  split
  · exact .refl s
  · have hgone : Sifts s { s with core.pendingPeerDials := s.core.pendingPeerDials.erase d } :=
      ⟨fun _ => .rfl, fun _ hm => .inl hm⟩
    exact hgone.trans (.tryNextRoute _ nowMs _ _)

theorem foldl_closeStale_links (nowMs : ℕ) (ls : List LinkId) (s : Exec X P) (m : LinkId) :
    (ls.foldl (fun s l => s.closeStale nowMs l) s).core.links[m]? =
      if m ∈ ls then none else s.core.links[m]? := by
  induction ls generalizing s with
  | nil => rfl
  | cons l ls ih =>
    rw [List.foldl_cons, ih, closeStale_links]
    by_cases hls : m ∈ ls
    · rw [if_pos hls, if_pos (List.mem_cons_of_mem _ hls)]
    · rw [if_neg hls]
      by_cases hml : m = l
      · subst hml
        rw [if_pos List.mem_cons_self]
        exact ExtTreeMap.getElem?_erase_self
      · rw [if_neg (by simp [hml, hls]), Lib.getElem?_erase_of_ne hml]

theorem foldl_closeStale_sifts (ls : List LinkId) (s : Exec X P)
    (hls : ∀ l ∈ ls, ∀ u : UpLink X, s.core.links[l]? ≠ some (.up u)) :
    Sifts s (ls.foldl (fun s l => s.closeStale nowMs l) s) := by
  induction ls generalizing s with
  | nil => exact .refl s
  | cons l ls ih =>
    refine (closeStale_sifts (hls l List.mem_cons_self)).trans (ih _ fun m hm u hu => ?_)
    rw [closeStale_links] at hu
    exact hls m (List.mem_cons_of_mem _ hm) u (Lib.getElem?_of_erase hu).2

theorem foldl_expireDial_sifts (ds : List DialToken) (s : Exec X P) :
    Sifts s (ds.foldl (fun s d => s.expireDial nowMs d) s) := by
  induction ds generalizing s with
  | nil => exact .refl s
  | cons d ds ih => exact (expireDial_sifts s d).trans (ih _)

theorem closeStale_dials (s : Exec X P) (nowMs : ℕ) (l : LinkId) :
    s.core.nextDial ≤ (s.closeStale nowMs l).core.nextDial ∧ ∀ d ≤ s.core.nextDial,
      (s.closeStale nowMs l).core.pendingPeerDials[d]? = s.core.pendingPeerDials[d]? := by
  have hsame : s.core.nextDial ≤ s.core.nextDial ∧ ∀ d ≤ s.core.nextDial,
      s.core.pendingPeerDials[d]? = s.core.pendingPeerDials[d]? := ⟨le_rfl, fun _ _ => rfl⟩
  unfold closeStale
  dsimp only
  split
  · split
    · exact tryNextRoute_dials ((s.unlink l).push (.close l .closed)) nowMs _ _
    · exact hsame
  · exact hsame

theorem expireDial_dials (s : Exec X P) (nowMs : ℕ) (d : DialToken) :
    s.core.nextDial ≤ (s.expireDial nowMs d).core.nextDial ∧ ∀ d' ≤ s.core.nextDial, d' ≠ d →
      (s.expireDial nowMs d).core.pendingPeerDials[d']? = s.core.pendingPeerDials[d']? := by
  unfold expireDial
  split
  · exact ⟨le_rfl, fun _ _ _ => rfl⟩
  · obtain ⟨hle, hkept⟩ := tryNextRoute_dials { s with
      core.pendingPeerDials := s.core.pendingPeerDials.erase d } nowMs _ "peer didn't answer"
    refine ⟨hle, fun d' hd' hne => (hkept d' hd').trans ?_⟩
    exact Lib.getElem?_erase_of_ne hne

theorem foldl_closeStale_dials (ls : List LinkId) (s : Exec X P) :
    s.core.nextDial ≤ (ls.foldl (fun s l => s.closeStale nowMs l) s).core.nextDial ∧
      ∀ d ≤ s.core.nextDial, (ls.foldl (fun s l => s.closeStale nowMs l)
        s).core.pendingPeerDials[d]? = s.core.pendingPeerDials[d]? := by
  induction ls generalizing s with
  | nil => exact ⟨le_rfl, fun _ _ => rfl⟩
  | cons l ls ih =>
    obtain ⟨hle, hkept⟩ := closeStale_dials s nowMs l
    obtain ⟨hle', hkept'⟩ := ih (s.closeStale nowMs l)
    exact ⟨hle.trans hle', fun d hd => (hkept' d (hd.trans hle)).trans (hkept d hd)⟩

theorem foldl_expireDial_dials (nowMs : ℕ) (ds : List DialToken) (s : Exec X P) {d : DialToken}
    (hd : d ≤ s.core.nextDial) (hds : d ∉ ds) :
    (ds.foldl (fun s d => s.expireDial nowMs d) s).core.pendingPeerDials[d]? =
      s.core.pendingPeerDials[d]? := by
  induction ds generalizing s with
  | nil => rfl
  | cons d' ds ih =>
    obtain ⟨hne, hds⟩ := List.ne_and_not_mem_of_not_mem_cons hds
    obtain ⟨hle, hkept⟩ := expireDial_dials s nowMs d'
    exact (ih (s.expireDial nowMs d') (hd.trans hle) hds).trans (hkept d hd hne)

end Exec

namespace Exec.Recorded
variable {s t : Exec X P} {nowMs : ℕ} {p : DeviceId} {reasons : List String}

theorem of_trouble (h : s.Recorded reasons p) (ht : t.core.dialTrouble = s.core.dialTrouble) :
    t.Recorded reasons p := by
  unfold Recorded
  rw [ht]
  exact h

theorem foldl {α : Type} {f : Exec X P → α → Exec X P} (as : List α)
    (hf : ∀ s a, s.Recorded reasons p → (f s a).Recorded reasons p) (h : s.Recorded reasons p) :
    (as.foldl f s).Recorded reasons p := by
  induction as generalizing s with
  | nil => exact h
  | cons a as ih => exact ih (hf s a h)

theorem closeStale (h : s.Recorded reasons p)
    (hwhy : "got answer that cut off half way" ∈ reasons) (l : LinkId) :
    (s.closeStale nowMs l).Recorded reasons p := by
  have hgone : ((s.unlink l).push (.close l .closed)).Recorded reasons p := h.of_trouble rfl
  unfold Exec.closeStale
  dsimp only
  split
  · split
    · exact hgone.tryNextRoute _ hwhy
    · exact hgone
  · exact hgone

theorem expireDial (h : s.Recorded reasons p) (hwhy : "peer didn't answer" ∈ reasons)
    (d : DialToken) : (s.expireDial nowMs d).Recorded reasons p := by
  unfold Exec.expireDial
  split
  · exact h
  · have hgone : Recorded reasons p { s with
        core.pendingPeerDials := s.core.pendingPeerDials.erase d } := h.of_trouble rfl
    exact hgone.tryNextRoute _ hwhy

theorem connectRoutes (h : s.Recorded reasons p) (hwhy : nowhere ∈ reasons) (q : DeviceId)
    (routes : List (TransportId × String)) (byHand : Bool) :
    (s.connectRoutes nowMs q routes byHand).Recorded reasons p := by
  obtain ⟨why, hmem, hfile⟩ := h
  have hput : ∃ why' ∈ reasons, (s.core.dialTrouble.insert q nowhere)[p]? = some why' := by
    by_cases hp : p = q
    · subst hp
      exact ⟨nowhere, hwhy, ExtTreeMap.getElem?_insert_self⟩
    · exact ⟨why, hmem, (Lib.getElem?_insert_of_ne hp).trans hfile⟩
  unfold Exec.connectRoutes
  split
  · dsimp only
    split
    · exact hput
    · exact hput
  · exact ⟨why, hmem, hfile⟩

theorem connectPeer (h : s.Recorded reasons p) (hwhy : nowhere ∈ reasons) (q : DeviceId)
    (byHand : Bool) : (s.connectPeer nowMs q byHand).Recorded reasons p := by
  unfold Exec.connectPeer
  dsimp only
  split
  · exact h
  · split
    · exact h.connectRoutes hwhy _ _ _
    · split
      · exact h.of_trouble rfl
      · exact h
    · split
      · exact h.of_trouble rfl
      · split
        · exact h
        · split
          · exact h
          · exact h.connectRoutes hwhy _ _ _

theorem heartbeat (h : s.Recorded reasons p) (hwhy : nowhere ∈ reasons) :
    (s.heartbeat nowMs).Recorded reasons p := by
  unfold Exec.heartbeat
  split
  · refine .foldl _ (fun s q hs => hs.connectPeer hwhy q false) ?_
    exact h.of_trouble rfl
  · exact h

end Exec.Recorded

/-- The words a tick may have for a peer after those on a handshake. -/
def laterReasons : List String := ["peer didn't answer", Exec.nowhere]

/-- Somewhere on the way an attempt is gone on with, while the sessions are those of `c`, and what
follows leaves the outcome alone but for the later reasons. -/
def Resumed (nowMs : ℕ) (c : Core X P) (later : List String) (a : PeerDial) (why : String)
    (t : Exec X P) : Prop :=
  ∃ x : Exec X P, (∀ p, x.core.Reaches p ↔ c.Reaches p) ∧
    Advances none (x.tryNextRoute nowMs a why) t ∧
    ∀ p, (x.tryNextRoute nowMs a why).Recorded (why :: later) p → t.Recorded (why :: later) p

namespace Resumed
variable {nowMs : ℕ} {c : Core X P} {later : List String} {a : PeerDial} {why : String}
  {t : Exec X P}

theorem dialled (h : Resumed nowMs c later a why t) (hdown : ¬ c.Reaches a.peer)
    {r : TransportId × String} {rs : List (TransportId × String)} (hr : a.routes = r :: rs) :
    t.Dialled a.peer r rs := by
  obtain ⟨x, hreach, hadv, -⟩ := h
  have hdown' : ¬ x.core.Reaches a.peer := fun hx => hdown ((hreach a.peer).mp hx)
  exact (Exec.tryNextRoute_dialled hdown' hr).advance hadv

theorem recorded (h : Resumed nowMs c later a why t) (hdown : ¬ c.Reaches a.peer)
    (hr : a.routes = []) : t.Recorded (why :: later) a.peer := by
  obtain ⟨x, hreach, -, hkeep⟩ := h
  have hdown' : ¬ x.core.Reaches a.peer := fun hx => hdown ((hreach a.peer).mp hx)
  exact hkeep a.peer ⟨why, List.mem_cons_self, Exec.tryNextRoute_recorded hdown' hr⟩

end Resumed

namespace Exec
variable {s : Exec X P} {nowMs : ℕ}

/-- What closing the stale links makes of one whose handshake carries an attempt. -/
theorem closeStaleLinks_resumed (ho : s.core.Orderly) {l : LinkId} {h : HandshakingLink X}
    {a : PeerDial} (hl : s.core.links[l]? = some (.handshaking h)) (hdue : h.deadline ≤ nowMs)
    (ha : h.fallback = some a) : ∃ x : Exec X P, (∀ p, x.core.Reaches p ↔ s.core.Reaches p) ∧
      Advances none (x.tryNextRoute nowMs a "got answer that cut off half way")
        (s.closeStaleLinks nowMs) ∧
      ∀ reasons p, "got answer that cut off half way" ∈ reasons →
        (x.tryNextRoute nowMs a "got answer that cut off half way").Recorded reasons p →
        (s.closeStaleLinks nowMs).Recorded reasons p := by
  have hmem : l ∈ (s.core.links.toList.filter fun e => stale nowMs e.2).map (·.1) := by
    refine List.mem_map.mpr ⟨(l, .handshaking h), List.mem_filter.mpr ⟨?_, ?_⟩, rfl⟩
    · exact ExtTreeMap.mem_toList_iff_getElem?_eq_some.mpr hl
    · simpa [stale] using hdue
  have hnodup : ((s.core.links.toList.filter fun e => stale nowMs e.2).map (·.1)).Nodup :=
    Lib.nodup_map_filter_toList _ _
  have hdown : ∀ m ∈ (s.core.links.toList.filter fun e => stale nowMs e.2).map (·.1),
      ∀ u : UpLink X, s.core.links[m]? ≠ some (.up u) := by
    intro m hm u hu
    obtain ⟨⟨m', st⟩, hst, rfl⟩ := List.mem_map.mp hm
    obtain ⟨hst, hstale⟩ := List.mem_filter.mp hst
    rw [ExtTreeMap.mem_toList_iff_getElem?_eq_some.mp hst] at hu
    cases hu
    cases hstale
  unfold closeStaleLinks
  obtain ⟨ls, ms, hsplit⟩ := List.append_of_mem hmem
  rw [hsplit] at hnodup hdown ⊢
  have hls : l ∉ ls := by
    have hmid := List.nodup_middle.mp hnodup
    exact fun hin => (List.nodup_cons.mp hmid).1 (List.mem_append_left _ hin)
  rw [List.foldl_append, List.foldl_cons]
  have hfirst : Sifts s (ls.foldl (fun s l => s.closeStale nowMs l) s) :=
    foldl_closeStale_sifts ls s fun m hm => hdown m (List.mem_append_left _ hm)
  have hlinks := foldl_closeStale_links nowMs ls s l
  have horder : (ls.foldl (fun s l => s.closeStale nowMs l) s).core.Orderly :=
    .foldl _ (fun s l hs => closeStale_orderly hs l) ho
  rw [if_neg hls, hl] at hlinks
  generalize ls.foldl (fun s l => s.closeStale nowMs l) s = x at hfirst hlinks horder ⊢
  have hturn : x.closeStale nowMs l = ((x.unlink l).push (.close l .closed)).tryNextRoute nowMs a
      "got answer that cut off half way" := by
    unfold closeStale
    rw [hlinks]
    dsimp only
    rw [ha]
    rfl
  have hnext : (x.closeStale nowMs l).core.Orderly := closeStale_orderly horder l
  have hgone : Sifts x (x.unlink l) := unlink_sifts fun u hu => by
    rw [hlinks] at hu
    cases hu
  have hrest : ∀ t : Exec X P, t.core.Orderly →
      Advances none t (ms.foldl (fun s l => s.closeStale nowMs l) t) := fun t ht =>
    .foldl _ (fun _ m hs => closeStale_advances hs m) (fun _ m hs => closeStale_orderly hs m) ht
  refine ⟨(x.unlink l).push (.close l .closed), fun p => ?_, ?_, fun reasons p hin hfile => ?_⟩
  · exact (hgone.reaches p).trans (hfirst.reaches p)
  · rw [← hturn]
    exact hrest _ hnext
  · rw [← hturn] at hfile
    exact .foldl _ (fun s m hs => hs.closeStale hin m) hfile

theorem expireDials_resumed (ho : s.core.Orderly) {d : DialToken} {e : ℕ × PeerDial}
    (he : s.core.pendingPeerDials[d]? = some e) (hdue : e.1 ≤ nowMs) :
    ∃ x : Exec X P, (∀ p, x.core.Reaches p ↔ s.core.Reaches p) ∧
      Advances none (x.tryNextRoute nowMs e.2 "peer didn't answer") (s.expireDials nowMs) ∧
      ∀ reasons p, "peer didn't answer" ∈ reasons →
        (x.tryNextRoute nowMs e.2 "peer didn't answer").Recorded reasons p →
        (s.expireDials nowMs).Recorded reasons p := by
  have hmem : d ∈ (s.core.pendingPeerDials.toList.filter fun e => e.2.1 ≤ nowMs).map (·.1) := by
    refine List.mem_map.mpr ⟨(d, e), List.mem_filter.mpr ⟨?_, ?_⟩, rfl⟩
    · exact ExtTreeMap.mem_toList_iff_getElem?_eq_some.mpr he
    · simpa using hdue
  have hnodup : ((s.core.pendingPeerDials.toList.filter fun e => e.2.1 ≤ nowMs).map (·.1)).Nodup :=
    Lib.nodup_map_filter_toList _ _
  unfold expireDials
  obtain ⟨ds, ds', hsplit⟩ := List.append_of_mem hmem
  rw [hsplit] at hnodup ⊢
  have hds : d ∉ ds := by
    have hmid := List.nodup_middle.mp hnodup
    exact fun hin => (List.nodup_cons.mp hmid).1 (List.mem_append_left _ hin)
  rw [List.foldl_append, List.foldl_cons]
  have hfirst : Sifts s (ds.foldl (fun s d => s.expireDial nowMs d) s) := foldl_expireDial_sifts ds s
  have hkept := foldl_expireDial_dials nowMs ds s (ho.issued d e he) hds
  have horder : (ds.foldl (fun s d => s.expireDial nowMs d) s).core.Orderly :=
    .foldl _ (fun s d hs => expireDial_orderly hs d) ho
  rw [he] at hkept
  generalize ds.foldl (fun s d => s.expireDial nowMs d) s = x at hfirst hkept horder ⊢
  have hturn : x.expireDial nowMs d = tryNextRoute { x with
      core.pendingPeerDials := x.core.pendingPeerDials.erase d } nowMs e.2 "peer didn't answer" := by
    unfold expireDial
    rw [hkept]
  have hnext : (x.expireDial nowMs d).core.Orderly := expireDial_orderly horder d
  have hrest : ∀ t : Exec X P, t.core.Orderly →
      Advances none t (ds'.foldl (fun s d => s.expireDial nowMs d) t) := fun t ht =>
    .foldl _ (fun _ d hs => expireDial_advances hs d) (fun _ d hs => expireDial_orderly hs d) ht
  refine ⟨{ x with core.pendingPeerDials := x.core.pendingPeerDials.erase d }, hfirst.reaches, ?_,
    fun reasons p hin hfile => ?_⟩
  · rw [← hturn]
    exact hrest _ hnext
  · rw [← hturn] at hfile
    exact .foldl _ (fun s d hs => hs.expireDial hin d) hfile

theorem closeStaleLinks_sifts (s : Exec X P) (nowMs : ℕ) : Sifts s (s.closeStaleLinks nowMs) := by
  refine foldl_closeStale_sifts _ s fun m hm u hu => ?_
  obtain ⟨⟨m', st⟩, hst, rfl⟩ := List.mem_map.mp hm
  obtain ⟨hst, hstale⟩ := List.mem_filter.mp hst
  rw [ExtTreeMap.mem_toList_iff_getElem?_eq_some.mp hst] at hu
  cases hu
  cases hstale

section Hooks
variable [Plugin P]

def afterWait (s : Exec X P) (nowMs : ℕ) : Exec X P :=
  (((s.closeStaleLinks nowMs).expireDials nowMs).heartbeat nowMs).wakePlugins nowMs

/-- From where the dials are given up, a tick keeps what was done. -/
theorem afterExpire_rest (nowMs : ℕ) (ho : s.core.Orderly) :
    Advances none s ((s.heartbeat nowMs).wakePlugins nowMs) ∧ ∀ reasons p, nowhere ∈ reasons →
      s.Recorded reasons p → ((s.heartbeat nowMs).wakePlugins nowMs).Recorded reasons p := by
  have hwake := wakePlugins_still (s.heartbeat nowMs) nowMs
  refine ⟨(heartbeat_advances ho).trans (.still hwake), fun reasons p hin hs => ?_⟩
  exact (hs.heartbeat hin).of_trouble hwake.trouble

theorem afterWait_handshake (ho : s.core.Orderly) {l : LinkId} {h : HandshakingLink X}
    {a : PeerDial} (hl : s.core.links[l]? = some (.handshaking h)) (hdue : h.deadline ≤ nowMs)
    (ha : h.fallback = some a) : Resumed nowMs s.core laterReasons a
      "got answer that cut off half way" (s.afterWait nowMs) := by
  obtain ⟨x, hreach, hadv, hfile⟩ := closeStaleLinks_resumed ho hl hdue ha
  have hclosed : (s.closeStaleLinks nowMs).core.Orderly :=
    .foldl _ (fun s l hs => closeStale_orderly hs l) ho
  have hexpired : ((s.closeStaleLinks nowMs).expireDials nowMs).core.Orderly :=
    .foldl _ (fun s d hs => expireDial_orderly hs d) hclosed
  obtain ⟨hrest, hkeep⟩ := afterExpire_rest nowMs hexpired
  refine ⟨x, hreach, (hadv.trans (expireDials_advances hclosed)).trans hrest, fun p hx => ?_⟩
  have hstale := hfile _ p List.mem_cons_self hx
  have hdials : ((s.closeStaleLinks nowMs).expireDials nowMs).Recorded
      ("got answer that cut off half way" :: laterReasons) p :=
    .foldl _ (fun s d hs => hs.expireDial (by simp [laterReasons]) d) hstale
  exact hkeep _ p (by simp [laterReasons]) hdials

theorem afterWait_dial (ho : s.core.Orderly) {d : DialToken} {e : ℕ × PeerDial}
    (he : s.core.pendingPeerDials[d]? = some e) (hdue : e.1 ≤ nowMs) :
    Resumed nowMs s.core laterReasons e.2 "peer didn't answer" (s.afterWait nowMs) := by
  have hclosed : (s.closeStaleLinks nowMs).core.Orderly :=
    .foldl _ (fun s l hs => closeStale_orderly hs l) ho
  have hexpired : ((s.closeStaleLinks nowMs).expireDials nowMs).core.Orderly :=
    .foldl _ (fun s d hs => expireDial_orderly hs d) hclosed
  have hkept : (s.closeStaleLinks nowMs).core.pendingPeerDials[d]? = some e :=
    ((foldl_closeStale_dials _ s).2 d (ho.issued d e he)).trans he
  obtain ⟨x, hreach, hadv, hfile⟩ := expireDials_resumed hclosed hkept hdue
  obtain ⟨hrest, hkeep⟩ := afterExpire_rest nowMs hexpired
  have hsift := closeStaleLinks_sifts s nowMs
  refine ⟨x, fun p => (hreach p).trans (hsift.reaches p), hadv.trans hrest, fun p hx => ?_⟩
  exact hkeep _ p (by simp [laterReasons]) (hfile _ p List.mem_cons_self hx)

/-- A tick dials nobody who has a session. -/
theorem afterWait_made (ho : s.core.Orderly) : ∀ m ∈ (s.afterWait nowMs).dials,
    m ∈ s.dials ∨ ¬ s.core.Reaches m.1 := by
  have hclosed : (s.closeStaleLinks nowMs).core.Orderly :=
    .foldl _ (fun s l hs => closeStale_orderly hs l) ho
  have hexpired : ((s.closeStaleLinks nowMs).expireDials nowMs).core.Orderly :=
    .foldl _ (fun s d hs => expireDial_orderly hs d) hclosed
  have hsift : Sifts s ((s.closeStaleLinks nowMs).expireDials nowMs) :=
    (closeStaleLinks_sifts s nowMs).trans (foldl_expireDial_sifts _ _)
  intro m hm
  unfold afterWait at hm
  rw [(wakePlugins_still _ nowMs).made] at hm
  generalize (s.closeStaleLinks nowMs).expireDials nowMs = x at hexpired hsift hm
  have hbeat : m ∈ x.dials ∨ ¬ x.core.Reaches m.1 := by
    unfold heartbeat at hm
    split at hm
    · dsimp only at hm
      have hset : Core.Orderly { x.core with
          reconnectAt := some (nowMs + x.core.config.reconnectEveryMs) } :=
        hexpired.of_tables rfl rfl rfl
      obtain ⟨made, hmade, -, -, hin, -⟩ := connectAll_dials (s := { x with
        core.reconnectAt := some (nowMs + x.core.config.reconnectEveryMs) }) nowMs
        (x.core.peers.keys.filter fun id =>
          (x.core.bestLink id).isNone && x.core.addrs.contains id)
        (ExtTreeMap.nodup_keys.filter _) hset
      have hm' := hmade.dials ▸ hm
      rcases List.mem_append.mp hm' with hold | hnew
      · exact .inl hold
      · obtain ⟨m', hin', rfl⟩ := List.mem_map.mp hnew
        have hwaiting := (List.mem_filter.mp (hin m' hin').1).2
        refine .inr fun hr => ?_
        have hsome := Core.bestLink_isSome.mpr hr
        have hnone := (Bool.and_eq_true_iff.mp hwaiting).1
        rw [Option.isNone_iff_eq_none] at hnone
        rw [hnone] at hsome
        cases hsome
    · exact .inl hm
  rcases hbeat with hm | hdown
  · exact hsift.made m hm
  · exact .inr fun hr => hdown ((hsift.reaches m.1).mpr hr)

end Hooks
end Exec

theorem acceptHello_unlink (s : Exec X P) (l : LinkId) (peer : DeviceId) (payload : Bytes) :
    ((s.unlink l).acceptHello peer payload).2 = (s.acceptHello peer payload).2 := by
  have hpeers : (s.unlink l).core.peers = s.core.peers := rfl
  have hwall : (s.unlink l).core.wallMs = s.core.wallMs := rfl
  unfold Exec.acceptHello
  rw [hpeers, hwall]
  cases X.decode Hello payload with
  | none => rfl
  | some hello =>
    dsimp only
    cases s.core.peers[peer]? with
    | none => rfl
    | some record =>
      dsimp only
      cases hello.checkFreshness s.core.wallMs record.greatestSeen <;> rfl

theorem Exec.onHandshakeFrame_session [Plugin P] (s : Exec X P) (nowMs : ℕ) (l : LinkId)
    {g : HandshakingLink X} (hflow : g.pairingFlow = false) (kind : FrameKind) (body : Bytes) :
    s.onHandshakeFrame nowMs l g kind body =
      if kind ≠ .sessionHandshake then s.failLink l "handshake frame of the wrong kind"
      else match g.hs.read body with
        | .error e => s.failLink l e.toString
        | .ok (payload, hs) => s.afterHandshakeRead nowMs l { g with hs } payload := by
  unfold onHandshakeFrame
  rw [hflow]
  rfl

/-- A frame that ends a session handshake leaves no dial and no new trouble. -/
theorem Exec.onLinkRecv_breaks [Plugin P] {s : Exec X P} (nowMs : ℕ) (seed : X.Seed) {l : LinkId}
    {msg : Bytes} {g : HandshakingLink X} {why : String}
    (hl : s.core.links[l]? = some (.handshaking g)) (hflow : g.pairingFlow = false)
    (hbreaks : g.Breaks s msg why) : (s.onLinkRecv nowMs seed l msg).dials = s.dials ∧
      (s.onLinkRecv nowMs seed l msg).core.dialTrouble = s.core.dialTrouble := by
  have hframe : ∀ kind body, Frame.split msg = some (kind, body) →
      s.onLinkRecv nowMs seed l msg = (s.unlink l).onHandshakeFrame nowMs l g kind body := by
    intro kind body frame
    unfold onLinkRecv
    rw [frame]
    dsimp only
    rw [hl]
    rfl
  cases hbreaks with
  | malformed frame =>
    unfold onLinkRecv
    rw [frame]
    exact ⟨rfl, rfl⟩
  | wrongKind frame wrong =>
    rw [hframe _ _ frame, onHandshakeFrame_session _ _ _ hflow, if_pos wrong]
    exact ⟨rfl, rfl⟩
  | undecryptable frame read =>
    rw [hframe _ _ frame, onHandshakeFrame_session _ _ _ hflow, if_neg (by simp), read]
    exact ⟨rfl, rfl⟩
  | @refused body payload hs peer frame read done expect refused =>
    have hread := acceptHello_still (s.unlink l) peer payload
    have hno : ((s.unlink l).acceptHello peer payload).2 = false :=
      (acceptHello_unlink _ _ _ _).trans refused
    rw [hframe _ _ frame, onHandshakeFrame_session _ _ _ hflow, if_neg (by simp), read]
    have hreply : (s.unlink l).afterHandshakeRead nowMs l { g with hs } payload =
        (s.unlink l).onSessionReply nowMs l { g with hs } payload := by
      unfold afterHandshakeRead
      simp only [done, hflow, Bool.not_true, Bool.false_eq_true, if_false]
    dsimp only
    rw [hreply]
    unfold onSessionReply
    dsimp only
    rw [expect]
    dsimp only
    split
    · rename_i heq
      rw [heq] at hread
      exact ⟨hread.made, hread.trouble⟩
    · rename_i heq
      rw [heq] at hno
      cases hno

namespace Core
variable {c : Core X P} {i : Input X} {a : PeerDial} {why : String}

theorem attempt_dial {d : DialToken} (h : c.attempt (.dial d) = some a) :
    ∃ t, c.pendingPeerDials[d]? = some (t, a) := by
  obtain ⟨⟨t, a'⟩, he, rfl⟩ := Option.map_eq_some_iff.mp h
  exact ⟨t, he⟩

theorem attempt_link {l : LinkId} (h : c.attempt (.link l) = some a) :
    ∃ g, c.links[l]? = some (.handshaking g) ∧ g.fallback = some a := by
  unfold attempt at h
  dsimp only at h
  split at h
  · rename_i g hg
    exact ⟨g, hg, h⟩
  · cases h

theorem faces_of_other (h : i.event ≠ .tick) : c.faces i = c := by
  unfold faces
  split
  · contradiction
  · rfl

theorem faces_of_tick (h : i.event = .tick) :
    c.faces i = ((c.start i).lapsePairing i.now.monotonicMs).core := by
  unfold faces
  rw [h]

variable [Plugin P]

theorem exec_frame (ho : c.Orderly) (h : c.Stops i a why) {l : LinkId} {msg : Bytes}
    (he : i.event = .linkRecv l msg) :
    (c.exec i).dials = [] ∧ (c.exec i).core.dialTrouble = c.dialTrouble := by
  obtain ⟨w, hfails, hattempt⟩ := h
  rw [faces_of_other (by rw [he]; nofun)] at hfails hattempt
  cases hfails with
  | @frame l msg g why event link breaks =>
    obtain ⟨g', hg', ha⟩ := attempt_link hattempt
    rw [link] at hg'
    cases hg'
    have hflow : g.pairingFlow = false := (ho.carried _ g link).session (by rw [ha]; rfl)
    have hexec : c.exec i = (c.start i).onLinkRecv i.now.monotonicMs i.seed l msg := by
      unfold exec
      rw [event]
      rfl
    rw [hexec]
    exact Exec.onLinkRecv_breaks i.now.monotonicMs i.seed link hflow breaks
  | dialFailed event | dialTimeout event | handshakeTimeout event | linkDown event =>
    rw [event] at he
    cases he

theorem exec_dialFailed (hap : c.Apart) {d : DialToken} {reason : String} {t : ℕ}
    (he : i.event = .dialFailed d reason) (hd : c.pendingPeerDials[d]? = some (t, a)) :
    c.exec i = Exec.tryNextRoute { c.start i with
      core.pendingPeerDials := c.pendingPeerDials.erase d } i.now.monotonicMs a reason := by
  have hpair : d ∉ (c.start i).core.pendingPairDials := fun hmem => by
    rw [hap.free d hmem] at hd
    cases hd
  have hd' : (c.start i).core.pendingPeerDials[d]? = some (t, a) := hd
  have hexec : c.exec i = (c.start i).onDialFailed i.now.monotonicMs d reason := by
    unfold exec
    rw [he]
    rfl
  rw [hexec]
  unfold Exec.onDialFailed
  rw [if_neg hpair, hd']
  rfl

theorem exec_linkDown (ho : c.Orderly) {l : LinkId} {reason : LinkDownReason}
    {g : HandshakingLink X} (he : i.event = .linkDown l reason)
    (hl : c.links[l]? = some (.handshaking g)) (ha : g.fallback = some a) :
    c.exec i = ((c.start i).unlink l).tryNextRoute i.now.monotonicMs a
      "connection closed before session was established" := by
  have hflow : g.pairingFlow = false := (ho.carried _ g hl).session (by rw [ha]; rfl)
  have hl' : (c.start i).core.links[l]? = some (.handshaking g) := hl
  have hexec : c.exec i = (c.start i).onLinkDown i.now.monotonicMs l := by
    unfold exec
    rw [he]
    rfl
  rw [hexec]
  unfold Exec.onLinkDown
  dsimp only
  rw [hl']
  dsimp only
  rw [ha, hflow]
  rfl

/-- Every failure but by a frame is gone on from. -/
theorem exec_resumed (ho : c.Orderly) (hap : c.Apart) (h : c.Stops i a why)
    (hframe : ∀ l msg, i.event ≠ .linkRecv l msg) :
    ∃ later, (∀ why' ∈ later, i.event = .tick ∧ why' ∈ laterReasons) ∧
      Resumed i.now.monotonicMs (c.faces i) later a why (c.exec i) := by
  have hstart : (c.start i).core.Orderly := ⟨ho.issued, ho.ascending, ho.carried⟩
  have htick : i.event = .tick → c.exec i = (((c.start i).lapsePairing
      i.now.monotonicMs).giveUpWaiting i.now.monotonicMs).afterWait i.now.monotonicMs := by
    intro he
    unfold exec
    rw [he]
    rfl
  have hlapsed : ((c.start i).lapsePairing i.now.monotonicMs).core.Orderly :=
    Exec.lapsePairing_orderly hstart
  have hwait := Exec.giveUpWaiting_still ((c.start i).lapsePairing i.now.monotonicMs) i.now.monotonicMs
  have hreach : ∀ p, (((c.start i).lapsePairing i.now.monotonicMs).giveUpWaiting
      i.now.monotonicMs).core.Reaches p ↔
      ((c.start i).lapsePairing i.now.monotonicMs).core.Reaches p := fun p => hwait.reaches
  have rebase : ∀ {b : PeerDial} {said : String} {t : Exec X P},
      Resumed i.now.monotonicMs (((c.start i).lapsePairing i.now.monotonicMs).giveUpWaiting
        i.now.monotonicMs).core laterReasons b said t →
      Resumed i.now.monotonicMs ((c.start i).lapsePairing i.now.monotonicMs).core laterReasons
        b said t := by
    rintro b said t ⟨x, hx, hadv, hkeep⟩
    exact ⟨x, fun p => (hx p).trans (hreach p), hadv, hkeep⟩
  obtain ⟨w, hfails, hattempt⟩ := h
  cases hfails with
  | @dialFailed d reason event =>
    rw [faces_of_other (by rw [event]; nofun)] at hattempt ⊢
    obtain ⟨t, hd⟩ := attempt_dial hattempt
    refine ⟨[], by simp, { c.start i with core.pendingPeerDials := c.pendingPeerDials.erase d },
      fun _ => .rfl, ?_, fun p hx => ?_⟩
    · rw [exec_dialFailed hap event hd]
      exact .refl _
    · rwa [exec_dialFailed hap event hd]
  | @linkDown l reason event =>
    rw [faces_of_other (by rw [event]; nofun)] at hattempt ⊢
    obtain ⟨g, hg, ha⟩ := attempt_link hattempt
    have hgone : Sifts (c.start i) ((c.start i).unlink l) := Exec.unlink_sifts fun u hu => by
      have heq := hu.symm.trans hg
      cases heq
    refine ⟨[], by simp, (c.start i).unlink l, hgone.reaches, ?_, fun p hx => ?_⟩
    · rw [exec_linkDown ho event hg ha]
      exact .refl _
    · rwa [exec_linkDown ho event hg ha]
  | @dialTimeout d e event dial due =>
    rw [faces_of_tick event] at hattempt dial ⊢
    obtain ⟨t, hd⟩ := attempt_dial hattempt
    rw [dial] at hd
    cases hd
    refine ⟨laterReasons, fun _ hmem => ⟨event, hmem⟩, rebase ?_⟩
    have hkept : (((c.start i).lapsePairing i.now.monotonicMs).giveUpWaiting
        i.now.monotonicMs).core.pendingPeerDials[d]? = some (t, a) := by
      rw [hwait.peerDials]
      exact dial
    rw [htick event]
    exact Exec.afterWait_dial (hlapsed.still hwait) hkept due
  | @handshakeTimeout l g event link due =>
    rw [faces_of_tick event] at hattempt link ⊢
    obtain ⟨g', hg', ha⟩ := attempt_link hattempt
    rw [link] at hg'
    cases hg'
    refine ⟨laterReasons, fun _ hmem => ⟨event, hmem⟩, rebase ?_⟩
    rw [htick event]
    exact Exec.afterWait_handshake (hlapsed.still hwait)
      ((hwait.links l).handshaking_iff.mpr link) due ha
  | frame event => exact absurd event (hframe _ _)

/-- A step that reports a failure dials nobody who has a session. -/
theorem exec_made (ho : c.Orderly) (hap : c.Apart) (h : c.Stops i a why)
    (hframe : ∀ l msg, i.event ≠ .linkRecv l msg) :
    ∀ m ∈ (c.exec i).dials, ¬ (c.faces i).Reaches m.1 := by
  have hstart : (c.start i).core.Orderly := ⟨ho.issued, ho.ascending, ho.carried⟩
  have htick : i.event = .tick →
      ∀ m ∈ (c.exec i).dials, ¬ ((c.start i).lapsePairing i.now.monotonicMs).core.Reaches m.1 := by
    intro he m hm
    have hexec : c.exec i = (((c.start i).lapsePairing i.now.monotonicMs).giveUpWaiting
        i.now.monotonicMs).afterWait i.now.monotonicMs := by
      unfold exec
      rw [he]
      rfl
    have hwait := Exec.giveUpWaiting_still ((c.start i).lapsePairing i.now.monotonicMs) i.now.monotonicMs
    have hnone : ((c.start i).lapsePairing i.now.monotonicMs).dials = [] := by
      unfold Exec.lapsePairing
      split
      · rfl
      · split
        · rfl
        · dsimp only
          split <;> rfl
    rw [hexec] at hm
    have hlapsed : ((c.start i).lapsePairing i.now.monotonicMs).core.Orderly :=
      Exec.lapsePairing_orderly hstart
    have hwaited := hlapsed.still hwait
    rcases Exec.afterWait_made hwaited m hm with hold | hdown
    · rw [hwait.made, hnone] at hold
      cases hold
    · exact fun hr => hdown (hwait.reaches.mpr hr)
  obtain ⟨w, hfails, hattempt⟩ := h
  cases hfails with
  | dialFailed event =>
    rw [faces_of_other (by rw [event]; nofun)] at hattempt ⊢
    obtain ⟨t, hd⟩ := attempt_dial hattempt
    rw [exec_dialFailed hap event hd]
    intro m hm
    rcases Exec.tryNextRoute_made _ _ m hm with hold | hdown
    · cases hold
    · exact hdown
  | @linkDown l reason event =>
    rw [faces_of_other (by rw [event]; nofun)] at hattempt ⊢
    obtain ⟨g, hg, ha⟩ := attempt_link hattempt
    have hgone : Sifts (c.start i) ((c.start i).unlink l) := Exec.unlink_sifts fun u hu => by
      have heq := hu.symm.trans hg
      cases heq
    rw [exec_linkDown ho event hg ha]
    intro m hm
    rcases Exec.tryNextRoute_made _ _ m hm with hold | hdown
    · cases hold
    · exact fun hr => hdown ((hgone.reaches m.1).mpr hr)
  | dialTimeout event | handshakeTimeout event =>
    rw [faces_of_tick event]
    exact htick event
  | frame event => exact absurd event (hframe _ _)

/-- A step goes on with every attempt that fails exactly if none is cut off. -/
theorem walksOn_iff (ho : c.Orderly) (hap : c.Apart) : c.WalksOn i ↔ c.Unbroken i := by
  constructor
  · intro h
    constructor
    · intro a why r rs hstop hr hwants
      obtain ⟨d, hd, -⟩ := h.dials a why r rs hstop hr hwants
      have hframe : ∀ l msg, i.event ≠ .linkRecv l msg := by
        intro l msg he
        rw [(exec_frame ho hstop he).1] at hd
        cases hd
      exact ⟨hframe, exec_made ho hap hstop hframe _ hd⟩
    · intro a why hstop hr hdown
      obtain ⟨why', hfile, hsame⟩ := h.records a why hstop hr hdown
      by_cases hframe : ∀ l msg, i.event ≠ .linkRecv l msg
      · exact .inl hframe
      · right
        push Not at hframe
        obtain ⟨l, msg, he⟩ := hframe
        have hwhy : why' = why := by
          rcases hsame with hsame | ⟨htick, -⟩
          · exact hsame
          · rw [he] at htick
            cases htick
        change (c.exec i).core.dialTrouble[a.peer]? = some why' at hfile
        rw [(exec_frame ho hstop he).2, hwhy] at hfile
        exact hfile
  · intro h
    constructor
    · intro a why r rs hstop hr hwants
      obtain ⟨hframe, hdown⟩ := h.dials a why r rs hstop hr hwants
      obtain ⟨later, -, hresumed⟩ := exec_resumed ho hap hstop hframe
      obtain ⟨d, hd, hact, -, hkept⟩ := hresumed.dialled hdown hr
      exact ⟨d, hd, hact, hkept⟩
    · intro a why hstop hr hdown
      rcases h.records a why hstop hr hdown with hframe | hfile
      · obtain ⟨later, hlater, hresumed⟩ := exec_resumed ho hap hstop hframe
        obtain ⟨why', hmem, hfile⟩ := hresumed.recorded hdown hr
        refine ⟨why', hfile, ?_⟩
        rcases List.mem_cons.mp hmem with rfl | hmem
        · exact .inl rfl
        · exact .inr (hlater why' hmem)
      · by_cases hframe : ∀ l msg, i.event ≠ .linkRecv l msg
        · obtain ⟨later, hlater, hresumed⟩ := exec_resumed ho hap hstop hframe
          obtain ⟨why', hmem, hfile⟩ := hresumed.recorded hdown hr
          refine ⟨why', hfile, ?_⟩
          rcases List.mem_cons.mp hmem with rfl | hmem
          · exact .inl rfl
          · exact .inr (hlater why' hmem)
        · push Not at hframe
          obtain ⟨l, msg, he⟩ := hframe
          refine ⟨why, ?_, .inl rfl⟩
          change (c.exec i).core.dialTrouble[a.peer]? = some why
          rw [(exec_frame ho hstop he).2]
          exact hfile

/-- The routes dialled for the attempt at a place, first to last, after a run. A route is left out
of those tried only where a dial that times out at once has its turn in the step that made it. -/
inductive Walk (c : Core X P) : List (Input X) → Place → List (TransportId × String) → Prop
  | begins {is : List (Input X)} {i : Input X} {p : DeviceId} {d : DialToken}
      {r : TransportId × String} (dialled : (p, d) ∈ ((c.run is).exec i).dials)
      (route : Action.dial r.1 r.2 d ∈ ((c.run is).handle i).2.actions) :
      Walk c (is ++ [i]) (.dial d) [r]
  | stays {is : List (Input X)} {i : Input X} {w : Place} {tried : List (TransportId × String)}
      (walk : Walk c is w tried)
      (same : ((c.run (is ++ [i])).attempt w).map (·.routes) =
        ((c.run is).attempt w).map (·.routes)) : Walk c (is ++ [i]) w tried
  | connects {is : List (Input X)} {i : Input X} {d : DialToken} {l : LinkId} {attrs : LinkAttrs}
      {tried : List (TransportId × String)} (walk : Walk c is (.dial d) tried)
      (event : i.event = .linkUp l attrs (some d)) : Walk c (is ++ [i]) (.link l) tried
  | goesOn {is : List (Input X)} {i : Input X} {w : Place} {why : String} {a : PeerDial}
      {d : DialToken} {r : TransportId × String} {gone rs tried : List (TransportId × String)}
      (walk : Walk c is w tried) (fails : ((c.run is).faces i).Fails i w why)
      (attempt : ((c.run is).faces i).attempt w = some a) (routes : a.routes = gone ++ r :: rs)
      (dialled : (a.peer, d) ∈ ((c.run is).exec i).dials)
      (route : Action.dial r.1 r.2 d ∈ ((c.run is).handle i).2.actions)
      (rest : ∀ e : ℕ × PeerDial, ((c.run is).step i).pendingPeerDials[d]? = some e →
        e.2.routes = rs) : Walk c (is ++ [i]) (.dial d) (tried ++ gone ++ [r])

theorem run_snoc (is : List (Input X)) (i : Input X) : c.run (is ++ [i]) = (c.run is).step i :=
  c.run_append is [i]

omit [Plugin P] in
/-- A pairing that lapses adds to no attempt. -/
theorem attempt_of_faces {w : Place} (h : (c.faces i).attempt w = some a) :
    c.attempt w = some a := by
  by_cases he : i.event = .tick
  · rw [faces_of_tick he] at h
    unfold Exec.lapsePairing at h
    split at h
    · exact h
    · split at h
      · exact h
      · dsimp only at h
        split at h
        · cases w with
          | dial d => exact h
          | link l =>
            obtain ⟨g, hg, ha⟩ := attempt_link h
            have hg' := (Lib.getElem?_of_erase hg).2
            change c.links[l]? = some (.handshaking g) at hg'
            unfold attempt
            dsimp only
            rw [hg']
            exact ha
        · exact h
  · rwa [faces_of_other he] at h

/-- The attempt on a link that came up is that of its dial. -/
theorem attempt_of_linkUp {l : LinkId} {attrs : LinkAttrs} {d : DialToken}
    (he : i.event = .linkUp l attrs (some d)) (h : (c.step i).attempt (.link l) = some a) :
    c.attempt (.dial d) = some a := by
  obtain ⟨g, hg, ha⟩ := attempt_link h
  have hexec : c.exec i = (c.start i).onLinkUp i.now.monotonicMs i.seed l attrs (some d) := by
    unfold exec
    rw [he]
    rfl
  change (c.exec i).core.links[l]? = some (.handshaking g) at hg
  rw [hexec] at hg
  have gone : ∀ (s : Exec X P) (detail : String),
      (s.failLink l detail).core.links[l]? ≠ some (.handshaking g) := by
    intro s detail hl
    exact (Lib.getElem?_of_erase hl).1 rfl
  unfold Exec.onLinkUp at hg
  dsimp only at hg
  split at hg
  · unfold Exec.startPairInitiator at hg
    split at hg
    · exact absurd hg (gone _ _)
    · split at hg
      · exact absurd hg (gone _ _)
      · have heq := hg.symm.trans ExtTreeMap.getElem?_insert_self
        cases heq
        cases ha
  · split at hg
    · rename_i d' t pending heq
      obtain ⟨hd, rfl⟩ : (c.start i).core.pendingPeerDials[d]? = some (t, pending) ∧ d = d' := by
        simpa using heq
      have hstart : (c.start i).core.pendingPeerDials[d]? = c.pendingPeerDials[d]? := rfl
      unfold attempt
      dsimp only
      rw [← hstart, hd]
      unfold Exec.startSessionInitiator at hg
      split at hg
      · exact absurd hg (gone _ _)
      · split at hg
        · split at hg
          · exact absurd hg (gone _ _)
          · split at hg
            · exact absurd hg (gone _ _)
            · have heq := hg.symm.trans ExtTreeMap.getElem?_insert_self
              cases heq
              exact ha
        · exact absurd hg (gone _ _)
    · have heq := hg.symm.trans ExtTreeMap.getElem?_insert_self
      cases heq

theorem exec_advances (ho : c.Orderly) (i : Input X) : Advances (match i.event with
      | .linkUp l _ dial => (c.start i).risen l dial
      | _ => none) (c.start i) (c.exec i) := by
  have hstart : (c.start i).core.Orderly := ⟨ho.issued, ho.ascending, ho.carried⟩
  exact Exec.onEvent_advances hstart i.seed i.event

/-- The routes tried and those left are in the order of their transports. -/
theorem Walk.ascending (b : CoreBuilder X P) {is : List (Input X)} {w : Place}
    {tried : List (TransportId × String)} (h : Walk b.build is w tried) :
    Ascending tried ∧ ∀ a, (b.build.run is).attempt w = some a → Ascending (tried ++ a.routes) := by
  induction h with
  | @begins is i p d r dialled route =>
    refine ⟨List.pairwise_singleton _ _, fun a ha => ?_⟩
    rw [run_snoc] at ha
    obtain ⟨t, hd⟩ := attempt_dial ha
    obtain ⟨ds, as, -, has, hroutes, -⟩ := (exec_advances (b.orderly.run is) i).made
    have hmem : Action.dial r.1 r.2 d ∈ as := by
      have hact : ((b.build.run is).exec i).actions = as := has
      rw [← hact]
      exact route
    exact (hroutes r d hmem).2.2 (t, a) hd
  | @stays is i w tried walk same ih =>
    refine ⟨ih.1, fun a ha => ?_⟩
    rw [ha, Option.map_some] at same
    obtain ⟨a', ha', hroutes⟩ := Option.map_eq_some_iff.mp same.symm
    rw [← hroutes]
    exact ih.2 a' ha'
  | @connects is i d l attrs tried walk event ih =>
    refine ⟨ih.1, fun a ha => ih.2 a ?_⟩
    rw [run_snoc] at ha
    exact attempt_of_linkUp event ha
  | @goesOn is i w why a d r gone rs tried walk fails attempt routes dialled route rest ih =>
    have hall : Ascending ((tried ++ gone ++ [r]) ++ rs) := by
      have hbefore := ih.2 a (attempt_of_faces attempt)
      rw [routes] at hbefore
      simpa using hbefore
    refine ⟨(List.pairwise_append.mp hall).1, fun a' ha' => ?_⟩
    rw [run_snoc] at ha'
    obtain ⟨t, hd⟩ := attempt_dial ha'
    rw [rest (t, a') hd]
    exact hall

theorem exists_walk (b : CoreBuilder X P) (is : List (Input X)) {w : Place} {a : PeerDial}
    (h : (b.build.run is).attempt w = some a) : ∃ tried, Walk b.build is w tried := by
  induction is using List.reverseRecOn generalizing w a with
  | nil =>
    cases w with
    | dial d =>
      obtain ⟨t, hd⟩ := attempt_dial h
      simp [CoreBuilder.build] at hd
    | link l =>
      obtain ⟨g, hg, -⟩ := attempt_link h
      simp [CoreBuilder.build] at hg
  | append_singleton is i ih =>
    have hadv := exec_advances (b.orderly.run is) i
    -- What was there before with the same routes was walked before.
    have stays : ∀ {a'}, (b.build.run is).attempt w = some a' → a'.routes = a.routes →
        ∃ tried, Walk b.build (is ++ [i]) w tried := by
      intro a' ha' hroutes
      obtain ⟨tried, hwalk⟩ := ih ha'
      refine ⟨tried, hwalk.stays ?_⟩
      rw [h, ha', Option.map_some, Option.map_some, hroutes]
    have h' := h
    rw [run_snoc] at h'
    cases w with
    | dial d =>
      obtain ⟨t, hd⟩ := attempt_dial h'
      obtain ⟨ds, as, hds, has, -, hdials⟩ := hadv.made
      rcases hdials d (t, a) hd with ⟨e', he', -, hroutes⟩ | ⟨-, hmem, r, hr⟩
      · have he : (b.build.run is).pendingPeerDials[d]? = some e' := he'
        have hbefore : (b.build.run is).attempt (.dial d) = some e'.2 := by
          unfold attempt
          dsimp only
          rw [he]
          rfl
        exact stays hbefore hroutes.symm
      · have hdialled : (a.peer, d) ∈ ((b.build.run is).exec i).dials := by
          rw [hds]
          exact List.mem_append_right _ hmem
        have hact : ((b.build.run is).handle i).2.actions = as := has
        exact ⟨[r], .begins hdialled (by rwa [hact])⟩
    | link l =>
      obtain ⟨g, hg, ha⟩ := attempt_link h'
      rcases hadv.links l g a hg ha with ⟨g', a', hg', ha', -, hroutes⟩ | ⟨a', hput, -, hroutes⟩
      · have hlink : (b.build.run is).links[l]? = some (.handshaking g') := hg'
        have hbefore : (b.build.run is).attempt (.link l) = some a' := by
          unfold attempt
          dsimp only
          rw [hlink]
          exact ha'
        exact stays hbefore hroutes.symm
      · cases he : i.event with
        | linkUp l' attrs dial =>
          rw [he] at hput
          obtain ⟨e, hbind, heq⟩ := Option.map_eq_some_iff.mp hput
          cases heq
          obtain ⟨d, rfl, hd⟩ := Option.bind_eq_some_iff.mp hbind
          have hpending : (b.build.run is).pendingPeerDials[d]? = some e := hd
          have hbefore : (b.build.run is).attempt (.dial d) = some e.2 := by
            unfold attempt
            dsimp only
            rw [hpending]
            rfl
          obtain ⟨tried, hwalk⟩ := ih hbefore
          exact ⟨tried, hwalk.connects he⟩
        | _ =>
          rw [he] at hput
          cases hput

/-- In a run every attempt that fails is gone on with, and no route is dialled twice in one, exactly
if none is cut off. -/
theorem routes_walked_iff (b : CoreBuilder X P) (is : List (Input X)) :
    (Lib.Along step WalksOn b.build is ∧
      ∀ w tried, Walk b.build is w tried → tried.Nodup) ↔
    Lib.Along step Unbroken b.build is := by
  have hwalks : ∀ w tried, Walk b.build is w tried → tried.Nodup :=
    fun _ _ hwalk => (hwalk.ascending b).1.nodup
  rw [and_iff_left hwalks]
  have hfree : Lib.Along step (fun (_ : Core X P) (_ : Input X) => True) b.build is :=
    Lib.along_of_forall (fun _ _ => trivial) _ _
  refine Lib.Along.iff_of_inv (I := fun c => c.Orderly ∧ c.Apart) ?_ ?_ hfree ⟨b.orderly, b.apart⟩
  · intro c i hc _
    exact walksOn_iff hc.1 hc.2
  · intro c i hc _ _
    exact ⟨hc.1.step i, hc.2.step hc.1 i⟩

end Core

/-- A phone known on two transports is asked for; the dial on the first comes up, and the answer to
its handshake is a frame that is not one. -/
def Mock.brokenFirst : List (Core.Input Mock.crates) :=
  Mock.addressed ++ [Mock.at_ 0 0 (.localCommand (.setPeerAddress Mock.caller 2 "ble")),
    Mock.askFor, Mock.at_ 1 0 (.linkUp (.new 1 1) (.tcpLan 1) (some 1))]

/-- Then the second transport is not tried. -/
theorem second_route_untried : ¬ ∀ is : List (Core.Input Mock.crates),
    Lib.Along Core.step Core.WalksOn (Mock.paired (P := Unit) 1 5 []).build is ∧
      ∀ w tried, Core.Walk (Mock.paired (P := Unit) 1 5 []).build is w tried → tried.Nodup := by
  intro h
  obtain ⟨halong, -⟩ := h (Mock.brokenFirst ++ [Mock.at_ 2 0 (.linkRecv (.new 1 1) [])])
  have hwalks := (Lib.Along.append.mp halong).2.1
  change ((Mock.paired (P := Unit) 1 5 []).build.run Mock.brokenFirst).WalksOn _ at hwalks
  have hroutes : (((Mock.paired (P := Unit) 1 5 []).build.run Mock.brokenFirst).attempt
      (.link (.new 1 1))).map (fun a => (a.peer, a.routes)) =
      some (Mock.caller, [((2 : TransportId), "ble")]) := by decide +kernel
  obtain ⟨a, ha, heq⟩ := Option.map_eq_some_iff.mp hroutes
  obtain ⟨hpeer, hrest⟩ := Prod.mk.inj heq
  obtain ⟨g, hg, -⟩ := Core.attempt_link ha
  have hstop : ((Mock.paired (P := Unit) 1 5 []).build.run Mock.brokenFirst).Stops
      (Mock.at_ 2 0 (.linkRecv (.new 1 1) [])) a "malformed frame" :=
    ⟨.link (.new 1 1), .frame rfl hg (.malformed rfl), ha⟩
  have hwants : ((Mock.paired (P := Unit) 1 5 []).build.run Mock.brokenFirst).Wants a.peer
      (2, "ble") := by
    rw [hpeer]
    refine ⟨by decide +kernel, fun l u hu hp => ?_⟩
    have hmem := Core.mem_upLinks.mpr ⟨hu, hp⟩
    have hnone : (((Mock.paired (P := Unit) 1 5 []).build.run Mock.brokenFirst).upLinks
        Mock.caller).isEmpty = true := by decide +kernel
    rw [List.isEmpty_iff.mp hnone] at hmem
    cases hmem
  obtain ⟨d, hd, -⟩ := hwalks.dials a _ _ _ hstop hrest hwants
  have hnone : (((Mock.paired (P := Unit) 1 5 []).build.run Mock.brokenFirst).exec
      (Mock.at_ 2 0 (.linkRecv (.new 1 1) []))).dials = [] := by decide +kernel
  rw [hnone] at hd
  cases hd

end Acrylius
