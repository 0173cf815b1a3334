import Acrylius.Core.Attempts
import Acrylius.Rt.Store

/-! A connection asked for by hand: the attempts that owe an answer, and the steps that end one
without giving it. -/
namespace Acrylius
open Proto Std

variable {X : Crates} {P : Type}

/-- The attempt is for this peer, and a person asked for it. -/
def PeerDial.AskedFor (p : DeviceId) (a : PeerDial) : Prop := a.peer = p ∧ a.byHand = true

def HandshakingLink.AskedFor (p : DeviceId) (h : HandshakingLink X) : Prop :=
  ∃ a, h.fallback = some a ∧ a.AskedFor p

def UiEvent.answers (p : DeviceId) : UiEvent → Bool
  | .peerReachable q _ | .peerUnreachable q => q = p
  | .error q _ _ => q = some p
  | _ => false

def Answered (p : DeviceId) (as : List Action) : Prop := ∃ e, Action.ui e ∈ as ∧ e.answers p

theorem answered_iff {p : DeviceId} {as : List Action} : Answered p as ↔
    as.any fun | .ui e => e.answers p | _ => false := by
  rw [List.any_eq_true]
  constructor
  · rintro ⟨e, he, ha⟩
    exact ⟨.ui e, he, ha⟩
  · rintro ⟨a, ha, hans⟩
    cases a with
    | ui e => exact ⟨e, ha, hans⟩
    | _ => cases hans

instance (p : DeviceId) (as : List Action) : Decidable (Answered p as) :=
  decidable_of_iff _ answered_iff.symm

theorem Answered.left {p : DeviceId} {as : List Action} (h : Answered p as) (bs : List Action) :
    Answered p (as ++ bs) := by
  obtain ⟨e, he, ha⟩ := h
  exact ⟨e, List.mem_append_left _ he, ha⟩

theorem Answered.right {p : DeviceId} {bs : List Action} (h : Answered p bs) (as : List Action) :
    Answered p (as ++ bs) := by
  obtain ⟨e, he, ha⟩ := h
  exact ⟨e, List.mem_append_right _ he, ha⟩

namespace Core

/-- The link carries an attempt somebody asked for. -/
def Carrying (c : Core X P) (p : DeviceId) (l : LinkId) : Prop :=
  ∃ h, c.links[l]? = some (.handshaking h) ∧ h.AskedFor p

/-- An attempt for the peer that a person asked for is in flight. -/
def ByHand (c : Core X P) (p : DeviceId) : Prop :=
  (∃ (d : DialToken) (e : ℕ × PeerDial), c.pendingPeerDials[d]? = some e ∧ e.2.AskedFor p) ∨
    ∃ l, c.Carrying p l

/-- Such an attempt has run out of time. -/
def Due (c : Core X P) (nowMs : ℕ) (p : DeviceId) : Prop :=
  (∃ (d : DialToken) (e : ℕ × PeerDial), c.pendingPeerDials[d]? = some e ∧ e.2.AskedFor p ∧
    e.1 ≤ nowMs) ∨
  ∃ (l : LinkId) (h : HandshakingLink X), c.links[l]? = some (.handshaking h) ∧ h.AskedFor p ∧
    h.deadline ≤ nowMs

/-- While a session is there, no attempt asked for has run out of time. -/
def Safe (c : Core X P) (nowMs : ℕ) (p : DeviceId) : Prop := c.Reaches p → ¬ c.Due nowMs p

/-- A session handshake with the peer can be begun. -/
def sessionStarts (c : Core X P) (seed : X.Seed) (p : DeviceId) : Bool :=
  match c.peers[p]? with
  | none => false
  | some record =>
    match record.publicKeyArray, record.sessionPskArray with
    | some pk, some psk =>
      match Handshake.sessionInitiator c.identity psk pk seed with
      | .error _ => false
      | .ok hs => (hs.write (X.encode c.hello)).isOk
    | _, _ => false

/-- A `Hello` that completes a handshake leads to a session, or is refused by an error that names
the peer. -/
def takesReply (c : Core X P) (p : DeviceId) (hs : Handshake X) (attrs : LinkAttrs)
    (payload : Bytes) : Bool :=
  match X.decode Hello payload with
  | none => true
  | some hello =>
    match c.peers[p]? with
    | none => false
    | some record =>
      match hello.checkFreshness c.wallMs record.greatestSeen with
      | .error _ => true
      | .ok _ => (hs.intoSession attrs).isOk

/-- A frame leads a session handshake on, to a session, or to an error that names the peer. -/
def takesFrame (c : Core X P) (p : DeviceId) (h : HandshakingLink X) (msg : Bytes) : Bool :=
  match Frame.split msg with
  | none => false
  | some (kind, body) => kind = .sessionHandshake && match h.hs.read body with
    | .error _ => false
    | .ok (payload, hs) => !hs.isComplete || c.takesReply p hs h.attrs payload

/-- The event ends an attempt somebody asked for without a word about the peer: a frame that breaks
its handshake; a dial that comes up where no handshake can be begun; a link that comes up under
the id of the handshake; an attempt that ends while a session is there; and a pairing given up
whose link has become that of the handshake. -/
def Silent (c : Core X P) (i : Input X) (p : DeviceId) : Prop :=
  match i.event with
  | .linkRecv l msg => ∃ h, c.links[l]? = some (.handshaking h) ∧ h.AskedFor p ∧
      c.takesFrame p h msg = false
  | .linkUp l _ dial => c.Carrying p l ∨ ∃ d e, dial = some d ∧ c.pendingPairDials[d]? = none ∧
      c.pendingPeerDials[d]? = some e ∧ e.2.AskedFor p ∧ c.sessionStarts i.seed p = false
  | .linkDown l _ => c.Reaches p ∧ c.Carrying p l
  | .dialFailed d _ => c.Reaches p ∧ ∃ e, c.pendingPeerDials[d]? = some e ∧ e.2.AskedFor p
  | .tick => c.Reaches p ∧ c.Due i.now.monotonicMs p ∨ ∃ w a, c.pairing = some w ∧
      w.deadline ≤ i.now.monotonicMs ∧ w.awaiting = some a ∧ c.Carrying p a.link
  | .localCommand (.confirmPairing accept) => ∃ w a, c.pairing = some w ∧ w.awaiting = some a ∧
      (accept = true → (a.record.id X).isSome) ∧ c.Carrying p a.link
  | _ => False

end Core

/-- A stretch of a step in which no attempt asked for ends without an answer. `held` stands for an
attempt that has been taken out of its table. -/
def Answering (p : DeviceId) (held : Prop) (s t : Exec X P) : Prop :=
  ∃ as, t.actions = s.actions ++ as ∧
    (held ∨ s.core.ByHand p → t.core.ByHand p ∨ Answered p as)

namespace Answering
variable {p : DeviceId} {held held' : Prop} {s t r : Exec X P} {l : LinkId}

theorem mono (h : Answering p held s t) (hh : held' → held) : Answering p held' s t := by
  obtain ⟨as, ha, hans⟩ := h
  exact ⟨as, ha, fun hb => hans (hb.imp_left hh)⟩

theorem trans (h : Answering p held s t) (h' : Answering p False t r) : Answering p held s r := by
  obtain ⟨as, ha, hans⟩ := h
  obtain ⟨bs, hb, hans'⟩ := h'
  refine ⟨as ++ bs, by rw [hb, ha, List.append_assoc], fun hby => ?_⟩
  rcases hans hby with hby | hans
  · exact (hans' (.inr hby)).imp_right fun h => h.right as
  · exact .inr (hans.left bs)

theorem unheld (h : Answering p False s t) (hno : ¬ held) : Answering p held s t := h.mono hno

theorem after (h : Answering p False s t) (h' : Answering p held t r) : Answering p held s r := by
  obtain ⟨as, ha, hans⟩ := h
  obtain ⟨bs, hb, hans'⟩ := h'
  refine ⟨as ++ bs, by rw [hb, ha, List.append_assoc], fun hby => ?_⟩
  rcases hby with hheld | hby
  · exact (hans' (.inl hheld)).imp_right fun h => h.right as
  · rcases hans (.inr hby) with hby | hans
    · exact (hans' (.inr hby)).imp_right fun h => h.right as
    · exact .inr (hans.left bs)

theorem of_kept {as : List Action} (ha : t.actions = s.actions ++ as)
    (hdials : ∀ (d : DialToken) (e : ℕ × PeerDial), s.core.pendingPeerDials[d]? = some e →
      t.core.pendingPeerDials[d]? = some e)
    (hlinks : ∀ l, s.core.Carrying p l → t.core.Carrying p l) : Answering p False s t := by
  refine ⟨as, ha, fun hby => .inl ?_⟩
  rcases hby with hf | ⟨d, e, he, hasked⟩ | ⟨l, hl⟩
  · exact hf.elim
  · exact .inl ⟨d, e, hdials d e he, hasked⟩
  · exact .inr ⟨l, hlinks l hl⟩

theorem of_same (hdials : t.core.pendingPeerDials = s.core.pendingPeerDials)
    (hlinks : t.core.links = s.core.links) (ha : t.actions = s.actions) :
    Answering p False s t := by
  refine of_kept (ha.trans (List.append_nil _).symm) (fun d e he => by rwa [hdials]) ?_
  intro l hl
  unfold Core.Carrying at hl ⊢
  rwa [hlinks]

theorem refl (s : Exec X P) : Answering p False s s := of_same rfl rfl rfl

theorem still (h : Still s t) : Answering p False s t := by
  obtain ⟨as, ha, -⟩ := h.mute
  refine of_kept ha (fun d e he => by rwa [h.peerDials]) ?_
  rintro l ⟨g, hg, hasked⟩
  exact ⟨g, (h.links l).handshaking_iff.mpr hg, hasked⟩

theorem push (s : Exec X P) (a : Action) : Answering p False s (s.push a) :=
  of_kept rfl (fun _ _ he => he) fun _ hl => hl

theorem ui (s : Exec X P) (e : UiEvent) : Answering p False s (s.ui e) := push s (.ui e)

theorem told (s : Exec X P) (e : UiEvent) (he : e.answers p) (held : Prop) :
    Answering p held s (s.ui e) :=
  ⟨[.ui e], rfl, fun _ => .inr ⟨e, by simp, he⟩⟩

theorem unlink (s : Exec X P) (hl : ¬ s.core.Carrying p l) : Answering p False s (s.unlink l) := by
  refine of_kept (List.append_nil _).symm (fun _ _ he => he) ?_
  rintro m ⟨g, hg, hasked⟩
  have hne : m ≠ l := by
    rintro rfl
    exact hl ⟨g, hg, hasked⟩
  exact ⟨g, (Lib.getElem?_erase_of_ne hne).trans hg, hasked⟩

theorem take (h : Answering p (s.core.Carrying p l) (s.unlink l) t) : Answering p False s t := by
  obtain ⟨as, ha, hans⟩ := h
  refine ⟨as, ha, fun hby => hans ?_⟩
  rcases hby with hf | ⟨d, e, he, hasked⟩ | ⟨m, hm⟩
  · exact hf.elim
  · exact .inr (.inl ⟨d, e, he, hasked⟩)
  · by_cases hml : m = l
    · exact .inl (hml ▸ hm)
    · obtain ⟨g, hg, hasked⟩ := hm
      exact .inr (.inr ⟨m, g, (Lib.getElem?_erase_of_ne hml).trans hg, hasked⟩)

theorem takeDial {d : DialToken}
    (h : Answering p (∃ e, s.core.pendingPeerDials[d]? = some e ∧ e.2.AskedFor p)
      { s with core.pendingPeerDials := s.core.pendingPeerDials.erase d } t) :
    Answering p False s t := by
  obtain ⟨as, ha, hans⟩ := h
  refine ⟨as, ha, fun hby => hans ?_⟩
  rcases hby with hf | ⟨d', e, he, hasked⟩ | ⟨m, hm⟩
  · exact hf.elim
  · by_cases hd : d' = d
    · exact .inl ⟨e, hd ▸ he, hasked⟩
    · exact .inr (.inl ⟨d', e, (Lib.getElem?_erase_of_ne hd).trans he, hasked⟩)
  · exact .inr (.inr ⟨m, hm⟩)

theorem insert (s : Exec X P) (hl : ¬ s.core.Carrying p l) (st : LinkState X) :
    Answering p (∃ g, st = .handshaking g ∧ g.AskedFor p) s (s.insertLink l st) := by
  refine ⟨[], (List.append_nil _).symm, fun hby => .inl ?_⟩
  rcases hby with ⟨g, rfl, hasked⟩ | ⟨d, e, he, hasked⟩ | ⟨m, g, hg, hasked⟩
  · exact .inr ⟨l, g, ExtTreeMap.getElem?_insert_self, hasked⟩
  · exact .inl ⟨d, e, he, hasked⟩
  · have hne : m ≠ l := by
      rintro rfl
      exact hl ⟨g, hg, hasked⟩
    exact .inr ⟨m, g, (Lib.getElem?_insert_of_ne hne).trans hg, hasked⟩

theorem foldl {α : Type} {I : Exec X P → Prop} {f : Exec X P → α → Exec X P} (as : List α)
    (hf : ∀ a ∈ as, ∀ s, I s → Answering p False s (f s a) ∧ I (f s a)) (hs : I s) :
    Answering p False s (as.foldl f s) ∧ I (as.foldl f s) := by
  induction as generalizing s with
  | nil => exact ⟨refl s, hs⟩
  | cons a as ih =>
    obtain ⟨hone, hnext⟩ := hf a (by simp) s hs
    obtain ⟨hrest, hlast⟩ := ih (fun b hb => hf b (List.mem_cons_of_mem _ hb)) hnext
    exact ⟨hone.trans hrest, hlast⟩

end Answering

namespace Core
variable {c : Core X P} {p : DeviceId}

theorem not_carrying_of_none {l : LinkId} (h : c.links[l]? = none) : ¬ c.Carrying p l := by
  rintro ⟨g, hg, -⟩
  rw [h] at hg
  cases hg

theorem not_carrying_of_up {l : LinkId} {u : UpLink X} (h : c.links[l]? = some (.up u)) :
    ¬ c.Carrying p l := by
  rintro ⟨g, hg, -⟩
  rw [h] at hg
  cases hg

theorem not_carrying_of_pending {l : LinkId} {q : PendingLink}
    (h : c.links[l]? = some (.pending q)) : ¬ c.Carrying p l := by
  rintro ⟨g, hg, -⟩
  rw [h] at hg
  cases hg

end Core

theorem Core.Safe.shrink {c d : Core X P} {p : DeviceId} {nowMs : ℕ} (h : c.Safe nowMs p)
    (hreach : d.Reaches p → c.Reaches p) (hdue : d.Due nowMs p → c.Due nowMs p) :
    d.Safe nowMs p := fun hr hd => h (hreach hr) (hdue hd)

theorem Core.Safe.of_tables {c d : Core X P} {p : DeviceId} {nowMs : ℕ} (h : c.Safe nowMs p)
    (hlinks : d.links = c.links) (hdials : d.pendingPeerDials = c.pendingPeerDials) :
    d.Safe nowMs p := by
  unfold Core.Safe Core.Reaches Core.Due at h ⊢
  rwa [hlinks, hdials]

theorem Core.Safe.still {s t : Exec X P} {p : DeviceId} {nowMs : ℕ} (h : s.core.Safe nowMs p)
    (hst : Still s t) : t.core.Safe nowMs p := by
  refine h.shrink hst.reaches.mp ?_
  rintro (⟨d, e, he, hasked, hdue⟩ | ⟨l, g, hg, hasked, hdue⟩)
  · rw [hst.peerDials] at he
    exact .inl ⟨d, e, he, hasked, hdue⟩
  · exact .inr ⟨l, g, (hst.links l).handshaking_iff.mp hg, hasked, hdue⟩

theorem Still.carrying {s t : Exec X P} (h : Still s t) {p : DeviceId} {l : LinkId} :
    t.core.Carrying p l ↔ s.core.Carrying p l := by
  unfold Core.Carrying
  simp only [(h.links l).handshaking_iff]

namespace Exec
variable {p : DeviceId} {nowMs : ℕ} {l : LinkId} {s : Exec X P}

@[simp] theorem unlink_getElem? (s : Exec X P) (l : LinkId) :
    (s.unlink l).core.links[l]? = none := by
  simp [unlink]

theorem failLink_answers (hl : ¬ s.core.Carrying p l) (detail : String) :
    Answering p False s (s.failLink l detail) :=
  ((Answering.unlink s hl).trans (.push _ _)).trans (.ui _ _)

theorem dialPeer_answers (h : s.core.Orderly) (peer : DeviceId) (route : TransportId × String)
    (routes : List (TransportId × String)) (byHand : Bool) :
    Answering p (peer = p ∧ byHand = true) s (s.dialPeer nowMs peer route routes byHand) := by
  refine ⟨[_], rfl, fun hby => .inl ?_⟩
  rcases hby with hasked | ⟨d, e, he, hasked⟩ | hl
  · exact .inl ⟨s.core.nextDial + 1, _, ExtTreeMap.getElem?_insert_self, hasked⟩
  · have hissued := h.issued d e he
    have hne : d ≠ s.core.nextDial + 1 := by
      rintro rfl
      exact Nat.not_succ_le_self _ hissued
    exact .inl ⟨d, e, (Lib.getElem?_insert_of_ne hne).trans he, hasked⟩
  · exact .inr hl

/-- Going on with an attempt, as long as no session is there, dials on or tells the end. -/
theorem tryNextRoute_answers (h : s.core.Orderly) (a : PeerDial) (why : String)
    (hdown : a.AskedFor p → ¬ s.core.Reaches p) :
    Answering p (a.AskedFor p) s (s.tryNextRoute nowMs a why) := by
  unfold tryNextRoute
  split
  · rename_i hbest
    refine (Answering.refl s).mono fun hasked => hdown hasked ?_
    rw [← hasked.1]
    exact Core.bestLink_isSome.mp hbest
  · split
    · dsimp only
      have noted : ∀ trouble, Answering p False s { s with core.dialTrouble := trouble } :=
        fun _ => .of_same rfl rfl rfl
      by_cases hasked : a.AskedFor p
      · rw [if_pos hasked.2]
        exact (noted _).after (.told _ (.peerUnreachable _) (decide_eq_true hasked.1) _)
      · refine Answering.unheld ?_ hasked
        split
        · exact (noted _).trans (.ui _ _)
        · exact noted _
    · exact dialPeer_answers h _ _ _ _

theorem connectRoutes_answers (h : s.core.Orderly) (peer : DeviceId)
    (routes : List (TransportId × String)) (byHand : Bool) :
    Answering p (peer = p ∧ byHand = true) s (s.connectRoutes nowMs peer routes byHand) := by
  unfold connectRoutes
  split
  · dsimp only
    have noted : ∀ trouble, Answering p False s { s with core.dialTrouble := trouble } :=
      fun _ => .of_same rfl rfl rfl
    by_cases hasked : peer = p ∧ byHand = true
    · rw [if_pos hasked.2]
      exact ((noted _).trans (.ui _ _)).after (.told _ (.peerUnreachable _) (decide_eq_true hasked.1) _)
    · refine Answering.unheld ?_ hasked
      split
      · exact ((noted _).trans (.ui _ _)).trans (.ui _ _)
      · exact noted _
  · exact dialPeer_answers h _ _ _ _

theorem adoptAttempt_answers (peer : DeviceId) :
    Answering p (peer = p ∧ (s.core.Dialling p ∨
      ∃ (l : LinkId) (h : HandshakingLink X) (a : PeerDial),
        s.core.links[l]? = some (.handshaking h) ∧ h.fallback = some a ∧ a.peer = p))
      s (s.adoptAttempt peer) := by
  have adopted : ∀ a : PeerDial, (peer = p ∧ a.peer = p) ∨ a.AskedFor p →
      PeerDial.AskedFor p (if a.peer = peer then { a with byHand := true } else a) := by
    rintro a (⟨rfl, hp⟩ | ⟨hp, hby⟩)
    · rw [if_pos hp]
      exact ⟨hp, rfl⟩
    · split
      · exact ⟨hp, rfl⟩
      · exact ⟨hp, hby⟩
  have dial : ∀ (d : DialToken) (e : ℕ × PeerDial), s.core.pendingPeerDials[d]? = some e →
      (peer = p ∧ e.2.peer = p) ∨ e.2.AskedFor p → (s.adoptAttempt peer).core.ByHand p := by
    intro d e he hasked
    refine .inl ⟨d, (e.1, if e.2.peer = peer then { e.2 with byHand := true } else e.2), ?_,
      adopted e.2 hasked⟩
    · unfold adoptAttempt
      rw [ExtTreeMap.getElem?_map, he]
      rfl
  have link : ∀ (l : LinkId) (h : HandshakingLink X) (a : PeerDial),
      s.core.links[l]? = some (.handshaking h) → h.fallback = some a →
      (peer = p ∧ a.peer = p) ∨ a.AskedFor p → (s.adoptAttempt peer).core.ByHand p := by
    intro l h a hl hf hasked
    refine .inr ⟨l, { h with fallback := h.fallback.map fun a =>
      if a.peer = peer then { a with byHand := true } else a }, ?_, _, ?_, adopted a hasked⟩
    · unfold adoptAttempt
      rw [ExtTreeMap.getElem?_map, hl]
      rfl
    · rw [hf]
      rfl
  refine ⟨[], (List.append_nil _).symm, fun hby => .inl ?_⟩
  rcases hby with ⟨hp, ⟨d, e, he, hpeer⟩ | ⟨l, h, a, hl, hf, hpeer⟩⟩ | ⟨d, e, he, hasked⟩ |
    ⟨l, h, hl, a, hf, hasked⟩
  · exact dial d e he (.inl ⟨hp, hpeer⟩)
  · exact link l h a hl hf (.inl ⟨hp, hpeer⟩)
  · exact dial d e he (.inr hasked)
  · exact link l h a hl hf (.inr hasked)

/-- Asking for a connection gets an attempt in flight, or an answer at once. -/
theorem connectPeer_answers (h : s.core.Orderly) (peer : DeviceId) (byHand : Bool) :
    Answering p (peer = p ∧ byHand = true) s (s.connectPeer nowMs peer byHand) := by
  unfold connectPeer
  dsimp only
  cases byHand with
  | false =>
    refine Answering.unheld ?_ (by simp)
    split
    · exact .refl s
    · split
      · exact (connectRoutes_answers h _ _ _).mono nofun
      · exact .refl s
      · split
        · exact .ui s _
        · split
          · exact .refl s
          · split
            · exact .refl s
            · exact (connectRoutes_answers h _ _ _).mono nofun
  | true =>
    split
    · rename_i hauto
      simp at hauto
    · cases hst : s.core.peerState peer with
      | unreachable => exact connectRoutes_answers h _ _ _
      | reachable =>
        dsimp only
        rw [if_pos rfl]
        by_cases hp : peer = p
        · exact .told s (.peerReachable _ _) (decide_eq_true hp) _
        · exact (Answering.ui s _).mono fun hh => hp hh.1
      | connecting =>
        dsimp only
        rw [if_pos rfl]
        refine (adoptAttempt_answers peer).mono fun hh => ⟨hh.1, ?_⟩
        obtain ⟨rfl, -⟩ := hh
        rcases s.core.peerState_cases peer with ⟨l, -, hst', -⟩ | ⟨l, ⟨g, hg, hexp⟩, -, -⟩ |
          ⟨-, -, hdial, -⟩
        · rw [hst] at hst'
          cases hst'
        · have hmeant := (h.carried l g hg).meant
          rw [hexp] at hmeant
          obtain ⟨a, ha, hpeer⟩ := Option.map_eq_some_iff.mp hmeant
          exact .inr ⟨l, g, a, hg, ha, hpeer⟩
        · exact .inl (hdial.mp hst)

theorem startSessionInitiator_answers (hl : ¬ s.core.Carrying p l) (seed : X.Seed) (a : PeerDial)
    (attrs : LinkAttrs) (deadline : ℕ) (hstarts : a.AskedFor p → s.core.sessionStarts seed p) :
    Answering p (a.AskedFor p) s
      (s.startSessionInitiator seed l a.peer attrs deadline (some a)) := by
  have failed : ∀ detail, (a.AskedFor p → s.core.sessionStarts seed p = false) →
      Answering p (a.AskedFor p) s (s.failLink l detail) := by
    intro detail hno
    refine (failLink_answers hl detail).mono fun hasked => ?_
    have hyes := hstarts hasked
    rw [hno hasked] at hyes
    cases hyes
  unfold startSessionInitiator
  split
  · rename_i hrec
    refine failed _ fun hasked => ?_
    rw [Core.sessionStarts, ← hasked.1, hrec]
  · rename_i record hrec
    split
    · rename_i pk psk hpk hpsk
      split
      · rename_i e hbuild
        refine failed _ fun hasked => ?_
        simp only [Core.sessionStarts, ← hasked.1, hrec, hpk, hpsk, hbuild]
      · rename_i hs hbuild
        split
        · rename_i e hwrite
          refine failed _ fun hasked => ?_
          simp only [Core.sessionStarts, ← hasked.1, hrec, hpk, hpsk, hbuild, hwrite]
          rfl
        · refine Answering.after ?_
            ((Answering.insert _ ?_ _).mono fun hasked => ⟨_, rfl, a, rfl, hasked⟩)
          · exact .push s _
          · exact hl
    · rename_i hno
      refine failed _ fun hasked => ?_
      rw [Core.sessionStarts, ← hasked.1, hrec]
      dsimp only
      split
      · rename_i pk psk hpk hpsk
        exact absurd hpsk (hno pk psk hpk)
      · rfl

theorem startPairInitiator_answers (hl : ¬ s.core.Carrying p l) (seed : X.Seed) (attrs : LinkAttrs)
    (deadline : ℕ) (via : TransportId × String) :
    Answering p False s (s.startPairInitiator seed l attrs deadline via) := by
  unfold startPairInitiator
  split
  · exact failLink_answers hl _
  · split
    · exact failLink_answers hl _
    · refine Answering.trans ?_ ((Answering.insert _ ?_ _).mono nofun)
      · exact .push s _
      · exact hl

theorem onLinkUp_answers (hl : ¬ s.core.Carrying p l) (seed : X.Seed) (attrs : LinkAttrs)
    (dial : Option DialToken)
    (hstarts : ∀ d e, dial = some d → s.core.pendingPairDials[d]? = none →
      s.core.pendingPeerDials[d]? = some e → e.2.AskedFor p → s.core.sessionStarts seed p) :
    Answering p False s (s.onLinkUp nowMs seed l attrs dial) := by
  unfold onLinkUp
  dsimp only
  split
  · refine Answering.trans ?_ (startPairInitiator_answers ?_ seed attrs _ _)
    · exact .of_same rfl rfl rfl
    · exact hl
  · rename_i hpair
    split
    · rename_i d t a heq
      obtain ⟨d', hdial, hd⟩ := Option.bind_eq_some_iff.mp heq
      obtain ⟨e, he, heq'⟩ := Option.map_eq_some_iff.mp hd
      cases heq'
      have hnone : s.core.pendingPairDials[d]? = none := by
        have hbind := Option.bind_eq_none_iff.mp hpair d hdial
        exact Option.map_eq_none_iff.mp hbind
      refine Answering.takeDial (d := d) ?_
      have hstart := startSessionInitiator_answers (p := p) (l := l) (s := { s with
        core.pendingPeerDials := s.core.pendingPeerDials.erase d }) hl seed a attrs
        (nowMs + s.core.config.handshakeTimeoutMs) (hstarts d _ hdial hnone he)
      refine hstart.mono ?_
      rintro ⟨e', he', hasked⟩
      rw [he] at he'
      cases he'
      exact hasked
    · exact (Answering.insert s hl _).mono nofun

theorem pairingAttemptFailed_answers (hl : ¬ s.core.Carrying p l) :
    Answering p False s (s.pairingAttemptFailed nowMs l) := by
  have hfailed := failLink_answers hl "pairing handshake failed"
  unfold pairingAttemptFailed
  refine (hfailed.trans ?_).trans (.ui _ _)
  exact .of_same rfl rfl rfl

theorem pairingCompleted_answers (hl : ¬ s.core.Carrying p l) (h : HandshakingLink X)
    (payload : Bytes) : Answering p False s (s.pairingCompleted nowMs l h payload) := by
  unfold pairingCompleted
  split
  · split
    · exact pairingAttemptFailed_answers hl
    · have hput : Answering p False s (s.insertLink l (.pending ⟨h.attrs, h.deadline⟩)) :=
        (Answering.insert s hl _).mono nofun
      have hl' : ¬ (s.insertLink l (.pending ⟨h.attrs, h.deadline⟩)).core.Carrying p l :=
        Core.not_carrying_of_pending ExtTreeMap.getElem?_insert_self
      dsimp only
      split
      · exact hput.trans (failLink_answers hl' _)
      · exact hput.trans (failLink_answers hl' _)
      · refine (hput.trans ?_).trans (.ui _ _)
        exact .of_same rfl rfl rfl
  · exact failLink_answers hl _

theorem onPairOpener_answers (hl : ¬ s.core.Carrying p l) (seed : X.Seed) (q : PendingLink)
    (body : Bytes) : Answering p False s (s.onPairOpener nowMs seed l q body) := by
  unfold onPairOpener
  split
  · exact failLink_answers hl _
  · split
    · exact failLink_answers hl _
    · split
      · refine Answering.trans ?_ (failLink_answers ?_ _)
        · exact .of_same rfl rfl rfl
        · exact hl
      · split
        · exact failLink_answers hl _
        · refine Answering.trans ?_ ((Answering.insert _ ?_ _).mono nofun)
          · refine Answering.trans ?_ (.push _ _)
            exact .of_same rfl rfl rfl
          · exact hl

theorem acceptHello_known {peer : DeviceId} {payload : Bytes} {t : Exec X P}
    (h : s.acceptHello peer payload = (t, true)) : ∃ record, t.core.peers[peer]? = some record := by
  unfold acceptHello at h
  split at h
  · cases h
  · split at h
    · cases h
    · split at h
      · cases h
        exact ⟨_, ExtTreeMap.getElem?_insert_self⟩
      · cases h

section Hooks
variable [Plugin P]

theorem finishSession_answers (hl : ¬ s.core.Carrying p l) (hs : Handshake X) (attrs : LinkAttrs)
    (peer : DeviceId) :
    Answering p (peer = p ∧ (hs.intoSession attrs).isOk ∧ (s.core.peers[peer]?).isSome) s
      (s.finishSession nowMs l hs attrs peer) := by
  unfold finishSession
  dsimp only
  cases hopen : hs.intoSession attrs with
  | error e => exact (failLink_answers hl _).mono fun h => by cases h.2.1
  | ok session =>
    dsimp only
    cases hrec : s.core.peers[peer]? with
    | none => exact (failLink_answers hl _).mono fun h => by cases h.2.2
    | some record =>
      dsimp only
      refine Answering.trans ?_ (.still (callAllPlugins_still _ _ _))
      by_cases hp : peer = p
      · refine Answering.after ?_ (.told _ (.peerReachable _ _) (decide_eq_true hp) _)
        exact ((Answering.insert s hl _).mono nofun).trans (.of_same rfl rfl rfl)
      · refine Answering.unheld (.trans ?_ (.ui _ _)) fun h => hp h.1
        exact ((Answering.insert s hl _).mono nofun).trans (.of_same rfl rfl rfl)

omit [Plugin P] in
theorem afterHello_answers (hl : ¬ s.core.Carrying p l) {peer : DeviceId} {payload : Bytes}
    {next : Exec X P → Exec X P}
    (hnext : ∀ t : Exec X P, ¬ t.core.Carrying p l → Answering p False t (next t))
    (detail : String) : Answering p False s (match s.acceptHello peer payload with
      | (s, false) => s.failLink l detail
      | (s, true) => next s) := by
  have hread := acceptHello_still s peer payload
  split
  · rename_i t heq
    rw [heq] at hread
    have hl' : ¬ t.core.Carrying p l := fun h => hl (hread.carrying.mp h)
    exact (Answering.still hread).trans (failLink_answers hl' _)
  · rename_i t heq
    rw [heq] at hread
    have hl' : ¬ t.core.Carrying p l := fun h => hl (hread.carrying.mp h)
    exact (Answering.still hread).trans (hnext t hl')

theorem onSessionOpener_answers (hl : ¬ s.core.Carrying p l) (seed : X.Seed) (q : PendingLink)
    (body : Bytes) : Answering p False s (s.onSessionOpener nowMs seed l q body) := by
  unfold onSessionOpener
  split
  · exact failLink_answers hl _
  · dsimp only
    split
    · exact failLink_answers hl _
    · split
      · exact failLink_answers hl _
      · split
        · exact failLink_answers hl _
        · split
          · exact failLink_answers hl _
          · refine afterHello_answers hl (fun t ht => ?_) _
            split
            · exact failLink_answers ht _
            · refine Answering.trans ?_ ((finishSession_answers ?_ _ _ _).mono nofun)
              · exact .push t _
              · exact ht

theorem onFirstFrame_answers (hl : ¬ s.core.Carrying p l) (seed : X.Seed) (q : PendingLink)
    (kind : FrameKind) (body : Bytes) :
    Answering p False s (s.onFirstFrame nowMs seed l q kind body) := by
  cases kind with
  | pairHandshake => exact onPairOpener_answers hl seed q body
  | sessionHandshake => exact onSessionOpener_answers hl seed q body
  | transport => exact failLink_answers hl _

/-- The reply to an attempt asked for ends in a session or in an error that names the peer. -/
theorem onSessionReply_answers (hl : ¬ s.core.Carrying p l) {h : HandshakingLink X}
    (hexp : h.AskedFor p → h.expect = some p) (payload : Bytes) :
    Answering p (h.AskedFor p ∧ s.core.takesReply p h.hs h.attrs payload) s
      (s.onSessionReply nowMs l h payload) := by
  unfold onSessionReply
  by_cases hasked : h.AskedFor p
  · rw [hexp hasked]
    dsimp only
    have hread := acceptHello_still s p payload
    split
    · rename_i t heq
      rw [heq] at hread
      have hl' : ¬ t.core.Carrying p l := fun h => hl (hread.carrying.mp h)
      refine Answering.trans ?_ (failLink_answers hl' _)
      have herr : s.core.takesReply p h.hs h.attrs payload = true →
          ∃ code detail, t = s.ui (.error (some p) code detail) := by
        intro htakes
        unfold acceptHello at heq
        unfold Core.takesReply at htakes
        split at heq
        · cases heq
          exact ⟨_, _, rfl⟩
        · rename_i hello hdec
          rw [hdec] at htakes
          split at heq
          · rename_i hrec
            simp [hrec] at htakes
          · split at heq
            · cases heq
            · cases heq
              exact ⟨_, _, rfl⟩
      by_cases htakes : s.core.takesReply p h.hs h.attrs payload = true
      · obtain ⟨code, detail, rfl⟩ := herr htakes
        exact .told s (.error (some p) code detail) (decide_eq_true rfl) _
      · exact (Answering.still hread).mono fun hh => htakes hh.2
    · rename_i t heq
      obtain ⟨record, hrec⟩ := acceptHello_known heq
      have hopen : s.core.takesReply p h.hs h.attrs payload → (h.hs.intoSession h.attrs).isOk := by
        intro htakes
        unfold acceptHello at heq
        unfold Core.takesReply at htakes
        split at heq
        · cases heq
        · rename_i hello hdec
          rw [hdec] at htakes
          split at heq
          · cases heq
          · rename_i record hrec
            split at heq
            · rename_i seen hfresh
              simpa only [hrec, hfresh] using htakes
            · cases heq
      rw [heq] at hread
      have hl' : ¬ t.core.Carrying p l := fun h => hl (hread.carrying.mp h)
      refine (Answering.still hread).after ((finishSession_answers hl' _ _ _).mono fun hh => ?_)
      exact ⟨rfl, hopen hh.2, by rw [hrec]; rfl⟩
  · refine Answering.unheld ?_ fun hh => hasked hh.1
    split
    · exact failLink_answers hl _
    · exact afterHello_answers hl (fun t ht => (finishSession_answers ht _ _ _).mono nofun) _

theorem afterHandshakeRead_answers (hl : ¬ s.core.Carrying p l) {h : HandshakingLink X}
    (hc : h.Carries) (payload : Bytes) :
    Answering p (h.AskedFor p ∧ (!h.hs.isComplete ∨ s.core.takesReply p h.hs h.attrs payload)) s
      (s.afterHandshakeRead nowMs l h payload) := by
  have hexp : h.AskedFor p → h.expect = some p := by
    rintro ⟨a, ha, hpeer, -⟩
    rw [← hc.meant, ha, ← hpeer]
    rfl
  unfold afterHandshakeRead
  split
  · exact (Answering.insert s hl _).mono fun hh => ⟨h, rfl, hh.1⟩
  · rename_i hdone
    split
    · rename_i hflow
      refine (pairingCompleted_answers hl h payload).mono fun hh => ?_
      obtain ⟨⟨a, ha, -⟩, -⟩ := hh
      have hno := hc.session (by rw [ha]; rfl)
      rw [hflow] at hno
      cases hno
    · refine (onSessionReply_answers hl hexp payload).mono fun hh => ⟨hh.1, ?_⟩
      exact hh.2.resolve_left hdone

theorem onHandshakeFrame_answers (hl : ¬ s.core.Carrying p l) {h : HandshakingLink X}
    (hc : h.Carries) (kind : FrameKind) (body : Bytes) :
    Answering p (h.AskedFor p ∧ kind = .sessionHandshake ∧ (match h.hs.read body with
        | .error _ => false
        | .ok (payload, hs) => !hs.isComplete || s.core.takesReply p hs h.attrs payload) = true) s
      (s.onHandshakeFrame nowMs l h kind body) := by
  have hflow : h.AskedFor p → h.pairingFlow = false := by
    rintro ⟨a, ha, -⟩
    exact hc.session (by rw [ha]; rfl)
  unfold onHandshakeFrame
  by_cases hkind : kind = if h.pairingFlow then .pairHandshake else .sessionHandshake
  case neg =>
    rw [if_pos hkind]
    refine (failLink_answers hl _).mono fun hh => hkind ?_
    rw [hh.2.1, hflow hh.1]
    rfl
  rw [if_neg (not_not.mpr hkind)]
  cases h.hs.read body with
  | error e =>
    dsimp only
    refine Answering.unheld ?_ fun hh => by simp at hh
    split
    · exact pairingAttemptFailed_answers hl
    · exact failLink_answers hl _
  | ok r =>
    obtain ⟨payload, hs⟩ := r
    have hc' : ∀ hs : Handshake X, HandshakingLink.Carries { h with hs } := fun _ =>
      ⟨hc.meant, hc.ascending, hc.session⟩
    dsimp only
    split
    · rename_i hpair
      have hno : ¬ h.AskedFor p := by
        intro hasked
        rw [hflow hasked] at hpair
        cases hpair
      refine Answering.unheld ?_ fun hh => hno hh.1
      split
      · refine Answering.trans ?_ ((afterHandshakeRead_answers ?_ (hc' _) _).mono nofun)
        · exact .push s _
        · exact hl
      · exact failLink_answers hl _
    · refine (afterHandshakeRead_answers hl (hc' hs) payload).mono fun hh => ⟨hh.1, ?_⟩
      simpa using hh.2.2

theorem lostUpLink_answers (s : Exec X P) (u : UpLink X) :
    Answering p False s (s.lostUpLink nowMs u) := by
  unfold lostUpLink
  split
  · exact .ui s _
  · refine Answering.trans ?_ (.still (callAllPlugins_still _ _ _))
    exact (Answering.ui s _).trans (.of_same rfl rfl rfl)

/-- A lost link that carried an attempt asked for is answered unless a session is there. -/
theorem onLinkDown_answers (ho : s.core.Orderly) (l : LinkId)
    (hdown : s.core.Carrying p l → ¬ s.core.Reaches p) :
    Answering p False s (s.onLinkDown nowMs l) := by
  refine Answering.take (l := l) ?_
  have less : (s.unlink l).core.Reaches p → s.core.Reaches p := by
    rintro ⟨m, u, hu, hp⟩
    exact ⟨m, u, (Lib.getElem?_of_erase hu).2, hp⟩
  unfold onLinkDown
  dsimp only
  cases hl : s.core.links[l]? with
  | none => exact (Answering.refl _).mono (Core.not_carrying_of_none hl)
  | some st =>
    cases st with
    | pending q => exact (Answering.refl _).mono (Core.not_carrying_of_pending hl)
    | up u => exact (lostUpLink_answers _ u).mono (Core.not_carrying_of_up hl)
    | handshaking g =>
      have hback : Answering p False (s.unlink l) (if g.pairingFlow then { s.unlink l with
          core.pairing := none } else s.unlink l) := by
        split
        · exact .of_same rfl rfl rfl
        · exact .refl _
      have horder : (if g.pairingFlow then { s.unlink l with
          core.pairing := none } else s.unlink l).core.Orderly := by
        split
        · exact (ho.unlink l).of_tables rfl rfl rfl
        · exact ho.unlink l
      have hreach : (if g.pairingFlow then { s.unlink l with
          core.pairing := none } else s.unlink l).core.Reaches p → s.core.Reaches p := by
        split
        · exact less
        · exact less
      have held : s.core.Carrying p l → g.AskedFor p := by
        rintro ⟨g', hg', hasked⟩
        rw [hl] at hg'
        cases hg'
        exact hasked
      dsimp only
      cases hf : g.fallback with
      | none =>
        refine hback.mono fun hc => ?_
        obtain ⟨a, ha, -⟩ := held hc
        rw [hf] at ha
        cases ha
      | some a =>
        refine hback.after ((tryNextRoute_answers horder a _ ?_).mono fun hc => ?_)
        · intro hasked hr
          exact hdown ⟨g, hl, a, hf, hasked⟩ (hreach hr)
        · obtain ⟨a', ha', hasked⟩ := held hc
          rw [hf] at ha'
          cases ha'
          exact hasked

omit [Plugin P] in
theorem tryNextRoute_links (s : Exec X P) (a : PeerDial) (why : String) :
    (s.tryNextRoute nowMs a why).core.links = s.core.links := by
  unfold tryNextRoute
  split
  · rfl
  · split
    · dsimp only
      split <;> rfl
    · rfl

theorem onLinkDown_carrying {l m : LinkId} (h : (s.onLinkDown nowMs l).core.Carrying p m) :
    s.core.Carrying p m := by
  have less : (s.unlink l).core.Carrying p m → s.core.Carrying p m := by
    rintro ⟨g, hg, hasked⟩
    exact ⟨g, (Lib.getElem?_of_erase hg).2, hasked⟩
  unfold onLinkDown at h
  dsimp only at h
  cases hl : s.core.links[l]? with
  | none =>
    rw [hl] at h
    exact less h
  | some st =>
    rw [hl] at h
    cases st with
    | pending q => exact less h
    | up u =>
      obtain ⟨g, hg, hasked⟩ := h
      have hlinks := lostUpLink_links (s.unlink l) nowMs u m
      exact less ⟨g, hlinks.handshaking_iff.mp hg, hasked⟩
    | handshaking g =>
      have hback : (if g.pairingFlow then { s.unlink l with
          core.pairing := none } else s.unlink l).core.links = (s.unlink l).core.links := by
        split <;> rfl
      obtain ⟨g', hg', hasked⟩ := h
      refine less ⟨g', ?_, hasked⟩
      rw [← hback]
      dsimp only at hg'
      split at hg'
      · rw [tryNextRoute_links] at hg'
        exact hg'
      · exact hg'

theorem failUpLink_answers (ho : s.core.Orderly) (hl : ¬ s.core.Carrying p l) (u : UpLink X)
    (detail : String) : Answering p False s (s.failUpLink nowMs l u detail) := by
  have hput : Answering p False s (s.insertLink l (.up u)) := (Answering.insert s hl _).mono nofun
  have horder : (s.insertLink l (.up u)).core.Orderly := ho.insertLink l trivial
  unfold failUpLink
  refine ((hput.trans (.push _ _)).trans (.ui _ _)).trans (onLinkDown_answers ?_ l fun hc => ?_)
  · exact horder.of_tables rfl rfl rfl
  · exact absurd hc (Core.not_carrying_of_up ExtTreeMap.getElem?_insert_self)

theorem onTransportFrame_answers (ho : s.core.Orderly) (hl : ¬ s.core.Carrying p l) (u : UpLink X)
    (kind : FrameKind) (body : Bytes) :
    Answering p False s (s.onTransportFrame nowMs l u kind body) := by
  unfold onTransportFrame
  split
  · exact failUpLink_answers ho hl u _
  · split
    · exact failUpLink_answers ho hl u _
    · rename_i plaintext session _
      have hput : Answering p False s
          (s.insertLink l (.up { u with session, lastRecvMs := nowMs })) :=
        (Answering.insert s hl _).mono nofun
      dsimp only
      split
      · exact hput.trans (.ui _ _)
      · split
        · exact hput.trans (.still (sendError_still _ _ _ _))
        · split
          · exact hput.trans (.ui _ _)
          · exact hput.trans (.still (routeEnvelope_still _ _ _ _))

/-- A frame that the attempt on its link can take leaves nothing unanswered. -/
theorem onLinkRecv_answers (ho : s.core.Orderly) (seed : X.Seed) (l : LinkId) (msg : Bytes)
    (htakes : ∀ h, s.core.links[l]? = some (.handshaking h) → h.AskedFor p →
      s.core.takesFrame p h msg) : Answering p False s (s.onLinkRecv nowMs seed l msg) := by
  have hgone : ¬ (s.unlink l).core.Carrying p l := Core.not_carrying_of_none (unlink_getElem? s l)
  unfold onLinkRecv
  cases hf : Frame.split msg with
  | none =>
    refine failLink_answers ?_ _
    rintro ⟨h, hl, hasked⟩
    have hyes := htakes h hl hasked
    rw [Core.takesFrame, hf] at hyes
    cases hyes
  | some r =>
    obtain ⟨kind, body⟩ := r
    refine Answering.take (l := l) ?_
    dsimp only
    cases hl : s.core.links[l]? with
    | none => exact (failLink_answers hgone _).mono (Core.not_carrying_of_none hl)
    | some st =>
      cases st with
      | pending q =>
        exact (onFirstFrame_answers hgone seed q kind body).mono (Core.not_carrying_of_pending hl)
      | up u =>
        exact (onTransportFrame_answers (ho.unlink l) hgone u kind body).mono
          (Core.not_carrying_of_up hl)
      | handshaking h =>
        refine (onHandshakeFrame_answers hgone (ho.carried l h hl) kind body).mono ?_
        rintro ⟨h', hl', hasked⟩
        rw [hl] at hl'
        cases hl'
        have hyes := htakes h hl hasked
        rw [Core.takesFrame, hf] at hyes
        dsimp only at hyes
        rw [Bool.and_eq_true, decide_eq_true_eq] at hyes
        exact ⟨hasked, hyes.1, hyes.2⟩

theorem closeUpLinks_answers (ho : s.core.Orderly) (peer : DeviceId) (reason : LinkDownReason) :
    Answering p False s (s.closeUpLinks nowMs peer reason) := by
  refine (Answering.foldl (I := fun t => t.core.Orderly ∧
    ∀ e ∈ s.core.upLinks peer, ¬ t.core.Carrying p e.1) _ ?_ ⟨ho, ?_⟩).1
  · rintro e he t ⟨horder, hfree⟩
    have hpush : (t.push (.close e.1 reason)).core.Orderly := horder.push _
    refine ⟨?_, onLinkDown_orderly hpush e.1, fun e' he' hc => hfree e' he' ?_⟩
    · refine (Answering.push t _).trans (onLinkDown_answers hpush e.1 fun hc => ?_)
      exact absurd hc (hfree e he)
    · have hc' : (t.push (.close e.1 reason)).core.Carrying p e'.1 := onLinkDown_carrying hc
      exact hc'
  · intro e he
    exact Core.not_carrying_of_up (Core.mem_upLinks.mp he).1

theorem handleRevoke_answers (ho : s.core.Orderly) (peer : DeviceId) :
    Answering p False s (s.handleRevoke nowMs peer) := by
  unfold handleRevoke
  dsimp only
  have hgone : Answering p False s { s with core := { s.core with
      peers := s.core.peers.erase peer
      addrs := s.core.addrs.erase peer
      dialTrouble := s.core.dialTrouble.erase peer } } := .of_same rfl rfl rfl
  have hclosed : Answering p False s (closeUpLinks (push { s with core := { s.core with
      peers := s.core.peers.erase peer
      addrs := s.core.addrs.erase peer
      dialTrouble := s.core.dialTrouble.erase peer } } (.persist ("peer/" ++ peer.str) none .secret))
      nowMs peer (.protocol .notPaired)) := by
    refine (hgone.trans (.push _ _)).trans (closeUpLinks_answers ?_ peer _)
    exact ho.of_tables rfl rfl rfl
  split
  · exact (hclosed.trans (.ui _ _)).trans (.still (announce_still _ _))
  · exact hclosed.trans (.ui _ _)

omit [Plugin P] in
theorem keepRoutes_answers (s : Exec X P) (id : DeviceId) (a : AwaitingConfirm) :
    Answering p False s (s.keepRoutes id a) := by
  unfold keepRoutes
  dsimp only
  split
  · exact .of_same rfl rfl rfl
  · split
    · exact .of_same rfl rfl rfl
    · exact .refl s

omit [Plugin P] in
theorem confirmPairing_answers (accept : Bool)
    (hfree : ∀ w a, s.core.pairing = some w → w.awaiting = some a →
      (accept = true → (a.record.id X).isSome) → ¬ s.core.Carrying p a.link) :
    Answering p False s (s.confirmPairing nowMs accept) := by
  unfold confirmPairing
  split
  · rename_i deadline a hw
    split
    · rename_i hno
      have hl := hfree _ a hw rfl fun hyes => by simp [hyes] at hno
      refine Answering.trans ((Answering.push s (.close a.link (.protocol .notAllowed))).trans
        (.unlink _ hl)) ?_
      refine Answering.trans ?_ (.ui _ _)
      exact .of_same rfl rfl rfl
    · split
      · exact .of_same rfl rfl rfl
      · rename_i id hid
        have hl := hfree _ a hw rfl fun _ => by simp [hid]
        have hkept := keepRoutes_answers (p := p) s id a
        have hlinks : (s.keepRoutes id a).core.links = s.core.links := by
          unfold keepRoutes
          dsimp only
          split
          · rfl
          · split <;> rfl
        have hl' : ¬ (s.keepRoutes id a).core.Carrying p a.link := by
          unfold Core.Carrying at hl ⊢
          rwa [hlinks]
        have hsaid := (hkept.trans (.push _ (Core.peerBlob X a.record))).trans
          (.ui _ (.pairingComplete id a.record.name))
        have hclosed := hsaid.trans (.push _ (.close a.link .closed))
        have hgone := hclosed.trans (.unlink (l := a.link) _ hl')
        exact hgone.trans (.of_same rfl rfl rfl)
  · exact .refl s

theorem onLocal_answers (ho : s.core.Orderly) (cmd : LocalCommand)
    (hfree : ∀ accept, cmd = .confirmPairing accept → ∀ w a, s.core.pairing = some w →
      w.awaiting = some a → (accept = true → (a.record.id X).isSome) →
        ¬ s.core.Carrying p a.link) :
    Answering p (cmd = .connect p) s (s.onLocal nowMs cmd) := by
  cases cmd <;> dsimp only [onLocal]
  case requestPairing transport addr =>
    refine Answering.unheld ?_ nofun
    unfold requestPairing
    split
    · exact .ui s _
    · refine Answering.trans ?_ (.push _ _)
      exact .of_same rfl rfl rfl
  case confirmPairing accept =>
    exact (confirmPairing_answers accept (hfree accept rfl)).mono nofun
  case setPeerAddress peer transport addr =>
    refine Answering.unheld ?_ nofun
    split
    · exact .of_same rfl rfl rfl
    · exact .ui s _
  case connect peer =>
    refine (connectPeer_answers ho peer true).mono fun h => ?_
    cases h
    exact ⟨rfl, rfl⟩
  case reconsiderRoutes =>
    refine Answering.unheld ?_ nofun
    refine (Answering.foldl (I := fun t => t.core.Orderly) _ (fun q _ t ht => ?_) ho).1
    exact ⟨(connectPeer_answers ht q false).mono nofun, connectPeer_orderly ht q false⟩
  case disconnect peer => exact (closeUpLinks_answers ho peer .closed).mono nofun
  case revoke peer => exact (handleRevoke_answers ho peer).mono nofun
  case plugin peer cap ty body =>
    exact (Answering.still (onLocalPlugin_still s nowMs peer cap ty body)).mono nofun

end Hooks

section Tick

theorem unlink_due (h : (s.unlink l).core.Due nowMs p) : s.core.Due nowMs p := by
  rcases h with hdial | ⟨m, g, hg, hasked, hdue⟩
  · exact .inl hdial
  · exact .inr ⟨m, g, (Lib.getElem?_of_erase hg).2, hasked, hdue⟩

theorem unlink_reaches (h : (s.unlink l).core.Reaches p) : s.core.Reaches p := by
  obtain ⟨m, u, hu, hp⟩ := h
  exact ⟨m, u, (Lib.getElem?_of_erase hu).2, hp⟩

theorem tryNextRoute_reaches (s : Exec X P) (a : PeerDial) (why : String) :
    (s.tryNextRoute nowMs a why).core.Reaches p ↔ s.core.Reaches p := by
  unfold Core.Reaches
  rw [tryNextRoute_links]

/-- A dial made on the way is due only if it is for the peer. -/
theorem tryNextRoute_due (a : PeerDial) (why : String)
    (h : (s.tryNextRoute nowMs a why).core.Due nowMs p) :
    s.core.Due nowMs p ∨ a.AskedFor p := by
  unfold tryNextRoute at h
  split at h
  · exact .inl h
  · split at h
    · dsimp only at h
      split at h
      · exact .inl h
      · exact .inl h
    · rename_i next rest _
      rcases h with ⟨d, e, he, hasked, hdue⟩ | hlink
      · by_cases hd : d = s.core.nextDial + 1
        · subst hd
          have he' : some (nowMs + s.core.config.dialTimeoutMs,
              ⟨a.peer, rest, a.byHand⟩) = some e := by
            rw [← he]
            exact ExtTreeMap.getElem?_insert_self.symm
          cases he'
          exact .inr hasked
        · exact .inl (.inl ⟨d, e, (Lib.getElem?_insert_of_ne hd).symm.trans he, hasked, hdue⟩)
      · exact .inl (.inr hlink)

theorem tryNextRoute_dials (s : Exec X P) (nowMs : ℕ) (a : PeerDial) (why : String) :
    s.core.nextDial ≤ (s.tryNextRoute nowMs a why).core.nextDial ∧ ∀ d ≤ s.core.nextDial,
      (s.tryNextRoute nowMs a why).core.pendingPeerDials[d]? = s.core.pendingPeerDials[d]? := by
  unfold tryNextRoute
  split
  · exact ⟨le_rfl, fun d _ => rfl⟩
  · split
    · dsimp only
      split
      · exact ⟨le_rfl, fun d _ => rfl⟩
      · exact ⟨le_rfl, fun d _ => rfl⟩
    · refine ⟨Nat.le_succ _, fun d hd => Lib.getElem?_insert_of_ne ?_⟩
      rintro rfl
      exact Nat.not_succ_le_self _ hd

theorem goOn_safe (a : PeerDial) (why : String) (h : s.core.Safe nowMs p)
    (hdown : a.AskedFor p → ¬ s.core.Reaches p) : (s.tryNextRoute nowMs a why).core.Safe nowMs p := by
  intro hr hdue
  rw [tryNextRoute_reaches] at hr
  rcases tryNextRoute_due a why hdue with hd | hasked
  · exact h hr hd
  · exact hdown hasked hr

theorem lapsePairing_answers (hfree : ∀ w a, s.core.pairing = some w → w.deadline ≤ nowMs →
    w.awaiting = some a → ¬ s.core.Carrying p a.link) :
    Answering p False s (s.lapsePairing nowMs) := by
  unfold lapsePairing
  split
  · exact .refl s
  · rename_i w hw
    split
    · exact .refl s
    · rename_i hlapsed
      dsimp only
      split
      · rename_i a ha
        have hgone : Answering p False s ((s.push (.close a.link .closed)).unlink a.link) :=
          (Answering.push s _).trans (.unlink _ (hfree w a hw (Nat.le_of_not_lt hlapsed) ha))
        refine Answering.trans (hgone.trans (.of_same ?_ ?_ ?_)) (.ui _ _)
        · rfl
        · rfl
        · rfl
      · refine Answering.trans (.of_same ?_ ?_ ?_) (.ui _ _)
        · rfl
        · rfl
        · rfl

theorem lapsePairing_safe (h : s.core.Safe nowMs p) :
    (s.lapsePairing nowMs).core.Safe nowMs p := by
  unfold lapsePairing
  split
  · exact h
  · split
    · exact h
    · dsimp only
      split
      · rename_i a _
        have hgone : (s.unlink a.link).core.Safe nowMs p := h.shrink unlink_reaches unlink_due
        exact hgone.of_tables rfl rfl
      · exact h

/-- What closing the stale links keeps: no attempt left in the list is waiting for later. -/
def StaleFirst (nowMs : ℕ) (p : DeviceId) (ls : List LinkId) (s : Exec X P) : Prop :=
  s.core.Orderly ∧ s.core.Safe nowMs p ∧
    ∀ l ∈ ls, ∀ h, s.core.links[l]? = some (.handshaking h) → h.deadline ≤ nowMs

theorem closeStale_answers {ls : List LinkId} (h : StaleFirst nowMs p ls s) (hl : l ∈ ls) :
    Answering p False s (s.closeStale nowMs l) ∧ StaleFirst nowMs p ls (s.closeStale nowMs l) := by
  obtain ⟨ho, hsafe, hstale⟩ := h
  have hsafe' : ((s.unlink l).push (.close l .closed)).core.Safe nowMs p :=
    hsafe.shrink unlink_reaches unlink_due
  have kept : ∀ m ∈ ls, ∀ h, (s.unlink l).core.links[m]? = some (.handshaking h) →
      h.deadline ≤ nowMs := fun m hm h hg => hstale m hm h (Lib.getElem?_of_erase hg).2
  have hnext : (s.closeStale nowMs l).core.Orderly := closeStale_orderly ho l
  unfold closeStale at hnext ⊢
  dsimp only at hnext ⊢
  cases hlk : s.core.links[l]? with
  | none =>
    rw [hlk] at hnext
    refine ⟨?_, hnext, hsafe', kept⟩
    exact (Answering.unlink s (Core.not_carrying_of_none hlk)).trans (.push _ _)
  | some st =>
    rw [hlk] at hnext
    cases st with
    | pending q =>
      refine ⟨?_, hnext, hsafe', kept⟩
      exact (Answering.unlink s (Core.not_carrying_of_pending hlk)).trans (.push _ _)
    | up u =>
      refine ⟨?_, hnext, hsafe', kept⟩
      exact (Answering.unlink s (Core.not_carrying_of_up hlk)).trans (.push _ _)
    | handshaking g =>
      dsimp only at hnext ⊢
      cases hf : g.fallback with
      | none =>
        rw [hf] at hnext
        refine ⟨?_, hnext, hsafe', kept⟩
        refine (Answering.unlink s ?_).trans (.push _ _)
        rintro ⟨g', hg', a, ha, -⟩
        rw [hlk] at hg'
        cases hg'
        rw [hf] at ha
        cases ha
      | some a =>
        rw [hf] at hnext
        dsimp only at hnext ⊢
        have hdown : a.AskedFor p → ¬ ((s.unlink l).push (.close l .closed)).core.Reaches p :=
          fun hasked hr => hsafe (unlink_reaches hr)
            (.inr ⟨l, g, hlk, ⟨a, hf, hasked⟩, hstale l hl g hlk⟩)
        have horder : ((s.unlink l).push (.close l .closed)).core.Orderly := (ho.unlink l).push _
        refine ⟨?_, hnext, goOn_safe a _ hsafe' hdown, fun m hm h hg => ?_⟩
        · refine Answering.take (l := l) ((Answering.push _ _).after
            ((tryNextRoute_answers horder a _ hdown).mono ?_))
          rintro ⟨g', hg', a', ha', hasked⟩
          rw [hlk] at hg'
          cases hg'
          rw [hf] at ha'
          cases ha'
          exact hasked
        · rw [tryNextRoute_links] at hg
          exact kept m hm h hg

theorem dialOver_answers (ho : s.core.Orderly) {d : DialToken} {t : ℕ} {a : PeerDial}
    (he : s.core.pendingPeerDials[d]? = some (t, a)) (why : String)
    (hdown : a.AskedFor p → ¬ s.core.Reaches p) :
    Answering p False s (tryNextRoute { s with
      core.pendingPeerDials := s.core.pendingPeerDials.erase d } nowMs a why) := by
  have horder := ho.eraseDial d
  refine Answering.takeDial (d := d) ?_
  refine (tryNextRoute_answers (s := { s with
    core.pendingPeerDials := s.core.pendingPeerDials.erase d }) horder a why hdown).mono ?_
  rintro ⟨e', he', hasked⟩
  rw [he] at he'
  cases he'
  exact hasked

/-- What dropping the dials without an answer keeps. -/
def DueFirst (nowMs : ℕ) (p : DeviceId) (ds : List DialToken) (s : Exec X P) : Prop :=
  s.core.Orderly ∧ s.core.Safe nowMs p ∧ ∀ d ∈ ds, d ≤ s.core.nextDial ∧
    ∀ e : ℕ × PeerDial, s.core.pendingPeerDials[d]? = some e → e.1 ≤ nowMs

theorem expireDial_answers {ds : List DialToken} {d : DialToken} (h : DueFirst nowMs p ds s)
    (hd : d ∈ ds) :
    Answering p False s (s.expireDial nowMs d) ∧ DueFirst nowMs p ds (s.expireDial nowMs d) := by
  obtain ⟨ho, hsafe, hdue⟩ := h
  unfold expireDial
  split
  · exact ⟨.refl s, ho, hsafe, hdue⟩
  · rename_i t a he
    have hlate : a.AskedFor p → ¬ s.core.Reaches p := fun hasked hr =>
      hsafe hr (.inl ⟨d, _, he, hasked, (hdue d hd).2 _ he⟩)
    have horder := ho.eraseDial d
    have hsafe' : Core.Safe { s.core with
        pendingPeerDials := s.core.pendingPeerDials.erase d } nowMs p := by
      refine hsafe.shrink id ?_
      rintro (⟨d', e', he', hasked, hlate⟩ | hlink)
      · exact .inl ⟨d', e', (Lib.getElem?_of_erase he').2, hasked, hlate⟩
      · exact .inr hlink
    have less : ∀ d' (e : ℕ × PeerDial), (s.core.pendingPeerDials.erase d)[d']? = some e →
        s.core.pendingPeerDials[d']? = some e := fun d' e he => (Lib.getElem?_of_erase he).2
    dsimp only
    obtain ⟨hnext, hsame⟩ := tryNextRoute_dials { s with
      core.pendingPeerDials := s.core.pendingPeerDials.erase d } nowMs a "peer didn't answer"
    refine ⟨dialOver_answers ho he _ hlate,
      tryNextRoute_orderly horder (ho.ascending d _ he) _, goOn_safe a _ hsafe' hlate,
      fun d' hd' => ?_⟩
    obtain ⟨hle, hkept⟩ := hdue d' hd'
    refine ⟨hle.trans hnext, fun e he => hkept e (less d' e ?_)⟩
    exact (hsame d' hle).symm.trans he

theorem heartbeat_answers (h : s.core.Orderly) : Answering p False s (s.heartbeat nowMs) := by
  unfold heartbeat
  split
  · refine Answering.trans ?_ (Answering.foldl (I := fun t => t.core.Orderly) _ ?_ ?_).1
    · exact .of_same rfl rfl rfl
    · rintro q - t ht
      exact ⟨(connectPeer_answers ht q false).mono nofun, connectPeer_orderly ht q false⟩
    · exact h.of_tables rfl rfl rfl
  · exact .refl s

theorem onTick_answers [Plugin P] (ho : s.core.Orderly) (hsafe : s.core.Safe nowMs p)
    (hfree : ∀ w a, s.core.pairing = some w → w.deadline ≤ nowMs → w.awaiting = some a →
      ¬ s.core.Carrying p a.link) :
    Answering p False s (s.onTick nowMs) := by
  have hlapsed : Answering p False s (s.lapsePairing nowMs) := lapsePairing_answers hfree
  have ho₁ : (s.lapsePairing nowMs).core.Orderly := lapsePairing_orderly ho
  have hsafe₁ : (s.lapsePairing nowMs).core.Safe nowMs p := lapsePairing_safe hsafe
  have hstill := giveUpWaiting_still (s.lapsePairing nowMs) nowMs
  have hwaited := hlapsed.trans (.still hstill)
  have ho₂ := ho₁.still hstill
  have hsafe₂ := hsafe₁.still hstill
  unfold onTick
  dsimp only
  generalize (s.lapsePairing nowMs).giveUpWaiting nowMs = t at *
  obtain ⟨hclosed, ho₃, hsafe₃, -⟩ := Answering.foldl (p := p) (s := t)
    (I := StaleFirst nowMs p ((t.core.links.toList.filter fun e => stale nowMs e.2).map (·.1)))
    _ (fun l hl s hs => closeStale_answers hs hl) ⟨ho₂, hsafe₂, fun l hl h hg => by
      obtain ⟨e, he, rfl⟩ := List.mem_map.mp hl
      obtain ⟨hmem, hst⟩ := List.mem_filter.mp he
      rw [ExtTreeMap.mem_toList_iff_getElem?_eq_some.mp hmem] at hg
      rw [Option.some.inj hg] at hst
      exact of_decide_eq_true hst⟩
  have hclosed' := hwaited.trans hclosed
  rw [show (((t.core.links.toList.filter fun e => stale nowMs e.2).map (·.1)).foldl
    (fun s l => s.closeStale nowMs l) t) = t.closeStaleLinks nowMs from rfl] at hclosed' ho₃ hsafe₃
  generalize t.closeStaleLinks nowMs = r at *
  obtain ⟨hexpired, ho₄, -, -⟩ := Answering.foldl (p := p) (s := r)
    (I := DueFirst nowMs p
      ((r.core.pendingPeerDials.toList.filter fun e => e.2.1 ≤ nowMs).map (·.1)))
    _ (fun d hd s hs => expireDial_answers hs hd) ⟨ho₃, hsafe₃, fun d hd => by
      obtain ⟨e, he, rfl⟩ := List.mem_map.mp hd
      obtain ⟨hmem, hlate⟩ := List.mem_filter.mp he
      have hget := ExtTreeMap.mem_toList_iff_getElem?_eq_some.mp hmem
      refine ⟨ho₃.issued _ _ hget, fun e' he' => ?_⟩
      rw [hget] at he'
      rw [← Option.some.inj he']
      exact of_decide_eq_true hlate⟩
  have hdone := hclosed'.trans hexpired
  exact (hdone.trans (heartbeat_answers ho₄)).trans (.still (wakePlugins_still _ nowMs))

theorem onDialFailed_answers (ho : s.core.Orderly) (d : DialToken) (reason : String)
    (hdown : ∀ e, s.core.pendingPeerDials[d]? = some e → e.2.AskedFor p → ¬ s.core.Reaches p) :
    Answering p False s (s.onDialFailed nowMs d reason) := by
  unfold onDialFailed
  split
  · refine Answering.trans ?_ (.ui _ _)
    exact .of_same rfl rfl rfl
  · split
    · rename_i t a he
      exact dialOver_answers ho he _ (hdown _ he)
    · exact .refl s

theorem onDiscovered_answers (ho : s.core.Orderly) (transport : TransportId)
    (peer : DiscoveredPeer) : Answering p False s (s.onDiscovered nowMs transport peer) := by
  unfold onDiscovered
  split
  · exact .refl s
  · dsimp only
    split
    · refine Answering.trans ?_ ((connectPeer_answers ?_ _ false).mono nofun)
      · exact .of_same rfl rfl rfl
      · exact ho.of_tables rfl rfl rfl
    · refine Answering.trans ?_ (.still (announce_still _ _))
      exact .of_same rfl rfl rfl

end Tick

/-- No step that is not silent leaves the peer's attempts unanswered, and asking for a connection
starts one. -/
theorem onEvent_answers [Plugin P] {c : Core X P} {p : DeviceId} {i : Core.Input X}
    (ho : c.Orderly) (hsay : ¬ c.Silent i p) :
    Answering p (i.event = .localCommand (.connect p)) ⟨c, [], [], []⟩
      (onEvent ⟨c, [], [], []⟩ i.now.monotonicMs i.seed i.event) := by
  obtain ⟨now, seed, e⟩ := i
  cases e <;> dsimp only [onEvent]
  case linkUp l attrs dial =>
    refine (onLinkUp_answers ?_ seed attrs dial ?_).mono nofun
    · exact fun hl => hsay (.inl hl)
    · intro d e hdial hnone he hasked
      by_contra hno
      exact hsay (.inr ⟨d, e, hdial, hnone, he, hasked, Bool.eq_false_iff.mpr hno⟩)
  case linkRecv l msg =>
    refine (onLinkRecv_answers ho seed l msg fun h hl hasked => ?_).mono nofun
    by_contra hno
    exact hsay ⟨h, hl, hasked, Bool.eq_false_iff.mpr hno⟩
  case linkDown l reason =>
    refine (onLinkDown_answers ho l fun hl hr => ?_).mono nofun
    exact hsay ⟨hr, hl⟩
  case dialFailed d reason =>
    refine (onDialFailed_answers ho d reason fun e he hasked hr => ?_).mono nofun
    exact hsay ⟨hr, e, he, hasked⟩
  case discovered transport peer => exact (onDiscovered_answers ho transport peer).mono nofun
  case undiscovered transport addr =>
    exact (Answering.still (onUndiscovered_still _ transport addr)).mono nofun
  case bulkListening t endpoint =>
    exact (Answering.still (dispatchToTransferOwner_still _ _ t _)).mono nofun
  case bulkStarted t => exact (Answering.of_same rfl rfl rfl).mono nofun
  case bulkFinished t ok detail =>
    refine Answering.unheld ?_ nofun
    exact (Answering.still (dispatchToTransferOwner_still _ _ t _)).trans (.of_same rfl rfl rfl)
  case tick =>
    refine (onTick_answers ho (fun hr hdue => ?_) fun w a hw hlapsed ha hl => ?_).mono nofun
    · exact hsay (.inl ⟨hr, hdue⟩)
    · exact hsay (.inr ⟨w, a, hw, hlapsed, ha, hl⟩)
  case localCommand cmd =>
    refine (onLocal_answers ho cmd ?_).mono fun h => by cases h; rfl
    rintro accept rfl w a hw ha hid hl
    exact hsay ⟨w, a, hw, ha, hid, hl⟩
  case effectDone token result =>
    exact (Answering.still (onEffectDone_still _ _ token result)).mono nofun

end Exec

namespace Core
variable [Plugin P] {p : DeviceId}

theorem step_answers {c : Core X P} (ho : c.Orderly) {i : Input X}
    (hsay : ¬ (c.start i).core.Silent i p)
    (hby : i.event = .localCommand (.connect p) ∨ c.ByHand p) :
    (c.step i).ByHand p ∨ Answered p (c.handle i).2.actions := by
  have ho' : (c.start i).core.Orderly := ho.of_tables rfl rfl rfl
  obtain ⟨as, hacts, hans⟩ := Exec.onEvent_answers ho' hsay
  have hacts' : (c.handle i).2.actions = as := hacts
  rw [hacts']
  exact hans hby

/-- A run whose steps are not silent keeps an attempt asked for until it is answered. -/
theorem run_answers {c : Core X P} (ho : c.Orderly) {is : List (Input X)}
    (hsay : Lib.Along step (fun c j => ¬ (c.start j).core.Silent j p) c is) (hby : c.ByHand p) :
    (c.run is).ByHand p ∨ Answered p (Host.emitted c is) := by
  induction is generalizing c with
  | nil => exact .inl hby
  | cons i is ih =>
    rcases step_answers ho hsay.1 (.inr hby) with hnext | hans
    · exact (ih (ho.step i) hsay.2 hnext).imp_right fun h => h.right _
    · exact .inr (hans.left _)

/-- A connection asked for by hand has an attempt in flight until the peer is reported on, in every
run whose steps do not end one in silence. -/
theorem connect_answered (b : CoreBuilder X P) (js : List (Input X)) (i : Input X)
    (ks : List (Input X)) (hask : i.event = .localCommand (.connect p))
    (hsay : Lib.Along step (fun c j => ¬ (c.start j).core.Silent j p) (b.build.run js) (i :: ks))
    (hyet : ¬ Answered p (Host.emitted (b.build.run js) (i :: ks))) :
    (b.build.run (js ++ i :: ks)).ByHand p := by
  have hrun : b.build.run (js ++ i :: ks) = ((b.build.run js).step i).run ks :=
    Lib.run_append step b.build js (i :: ks)
  have ho := b.orderly.run js
  rw [hrun]
  rcases step_answers ho hsay.1 (.inl hask) with hnext | hans
  · have hrest := run_answers (ho.step i) hsay.2 hnext
    exact hrest.resolve_right fun h => hyet (h.right _)
  · exact absurd (hans.left _) hyet

omit [Plugin P] in
theorem not_byHand_of_empty {c : Core X P} (hdials : c.pendingPeerDials.isEmpty = true)
    (hlinks : c.links.isEmpty = true) : ¬ c.ByHand p := by
  rw [ExtTreeMap.isEmpty_iff] at hdials hlinks
  rintro (⟨d, e, he, -⟩ | ⟨l, h, hl, -⟩)
  · simp [hdials] at he
  · simp [hlinks] at hl

omit [Plugin P] in
theorem not_silent_tick {c : Core X P} {i : Input X} (hi : i.event = .tick)
    (hdown : c.bestLink p = none) (hpair : c.pairing = none) : ¬ c.Silent i p := by
  unfold Silent
  rw [hi]
  rintro (⟨hr, -⟩ | ⟨w, a, hw, -⟩)
  · rw [← bestLink_isSome, hdown] at hr
    cases hr
  · rw [hpair] at hw
    cases hw

end Core

def Mock.addressed : List (Core.Input Mock.crates) :=
  [Mock.at_ 0 0 (.localCommand (.setPeerAddress Mock.caller 1 "10.0.0.9:7"))]

def Mock.askFor : Core.Input Mock.crates := Mock.at_ 0 0 (.localCommand (.connect Mock.caller))

/-- A dial asked for is still out one tick later. -/
theorem asked_still_dialling :
    ((Mock.paired (P := Unit) 1 5 []).build.run
      (Mock.addressed ++ [Mock.askFor, Mock.at_ 1 0 .tick])).ByHand Mock.caller := by
  refine Core.connect_answered (Mock.paired 1 5 []) Mock.addressed Mock.askFor
    [Mock.at_ 1 0 .tick] rfl ⟨nofun, ?_, trivial⟩ (by decide +kernel)
  refine Core.not_silent_tick rfl ?_ ?_
  · exact Option.isNone_iff_eq_none.mp (by decide +kernel)
  · exact Option.isNone_iff_eq_none.mp (by decide +kernel)

/-- The dial comes up, and the answer to its handshake is a frame that is not one. -/
def Mock.brokenReply : List (Core.Input Mock.crates) :=
  [Mock.at_ 1 0 (.linkUp (.new 1 1) (.tcpLan 1) (some 1)), Mock.at_ 2 0 (.linkRecv (.new 1 1) [])]

/-- Then the attempt is gone, and nobody was told. -/
theorem broken_reply_unanswered :
    ¬ ∀ js ks : List (Core.Input Mock.crates),
      ¬ Answered Mock.caller (Host.emitted ((Mock.paired (P := Unit) 1 5 []).build.run js)
        (Mock.askFor :: ks)) →
      ((Mock.paired (P := Unit) 1 5 []).build.run (js ++ Mock.askFor :: ks)).ByHand
        Mock.caller := by
  intro h
  have hby := h Mock.addressed Mock.brokenReply (by decide +kernel)
  exact Core.not_byHand_of_empty (by decide +kernel) (by decide +kernel) hby

end Acrylius
