import Acrylius.Core.Attempts

/-! How a stretch of a step moves attempts on: each is kept where it was with the routes it has left,
put on a link by the dial that came up, or dialled here under a token of its own. -/
namespace Acrylius
open Proto Std

variable {X : Crates} {P : Type}

/-- The same peer and the same routes left; somebody may have asked for it since. -/
def PeerDial.Same (a b : PeerDial) : Prop := b.peer = a.peer ∧ b.routes = a.routes

/-- A stretch of a step in which attempts end, stay or move on. `put` is the attempt of a dial that
came up, with its link. -/
structure Advances (put : Option (LinkId × PeerDial)) (s t : Exec X P) : Prop where
  next : s.core.nextDial ≤ t.core.nextDial
  made : ∃ ds as, t.dials = s.dials ++ ds ∧ t.actions = s.actions ++ as ∧
    (∀ r d, Action.dial r.1 r.2 d ∈ as → s.core.nextDial < d ∧ d ≤ t.core.nextDial ∧
      ∀ e : ℕ × PeerDial, t.core.pendingPeerDials[d]? = some e → Ascending (r :: e.2.routes)) ∧
    ∀ (d : DialToken) (e : ℕ × PeerDial), t.core.pendingPeerDials[d]? = some e →
      (∃ e' : ℕ × PeerDial, s.core.pendingPeerDials[d]? = some e' ∧ e'.2.Same e.2) ∨
        s.core.nextDial < d ∧ (e.2.peer, d) ∈ ds ∧
          ∃ r : TransportId × String, Action.dial r.1 r.2 d ∈ as
  links : ∀ (l : LinkId) (h : HandshakingLink X) (a : PeerDial),
    t.core.links[l]? = some (.handshaking h) → h.fallback = some a →
    (∃ h' a', s.core.links[l]? = some (.handshaking h') ∧ h'.fallback = some a' ∧ a'.Same a) ∨
      ∃ b, put = some (l, b) ∧ b.Same a
  pairs : ∀ d ∈ t.core.pendingPairDials, d ∈ s.core.pendingPairDials ∨
    s.core.nextDial < d ∧ d ≤ t.core.nextDial ∧ t.core.pendingPeerDials[d]? = none

theorem PeerDial.Same.refl (a : PeerDial) : a.Same a := ⟨rfl, rfl⟩

theorem PeerDial.Same.trans {a b c : PeerDial} (h : a.Same b) (h' : b.Same c) : a.Same c :=
  ⟨h'.1.trans h.1, h'.2.trans h.2⟩

namespace Advances
variable {put : Option (LinkId × PeerDial)} {s t r : Exec X P}

theorem trans (h : Advances put s t) (h' : Advances put t r) : Advances put s r := by
  obtain ⟨ds, as, hds, has, hroutes, hdials⟩ := h.made
  obtain ⟨ds', as', hds', has', hroutes', hdials'⟩ := h'.made
  have hnext := h.next
  have hnext' := h'.next
  have hold : ∀ (d : DialToken) (e : ℕ × PeerDial), d ≤ t.core.nextDial →
      r.core.pendingPeerDials[d]? = some e →
      ∃ e' : ℕ × PeerDial, t.core.pendingPeerDials[d]? = some e' ∧ e'.2.Same e.2 := by
    intro d e hd he
    rcases hdials' d e he with hsame | ⟨hlate, -⟩
    · exact hsame
    · exact absurd hd (Nat.not_le.mpr hlate)
  refine ⟨hnext.trans hnext', ⟨ds ++ ds', as ++ as', ?_, ?_, ?_, ?_⟩, ?_, ?_⟩
  · rw [hds', hds, List.append_assoc]
  · rw [has', has, List.append_assoc]
  · intro x d hmem
    rcases List.mem_append.mp hmem with hmem | hmem
    · obtain ⟨hlt, hle, hasc⟩ := hroutes x d hmem
      refine ⟨hlt, hle.trans hnext', fun e he => ?_⟩
      obtain ⟨e', he', -, hsame⟩ := hold d e hle he
      rw [hsame]
      exact hasc e' he'
    · obtain ⟨hlt, hle, hasc⟩ := hroutes' x d hmem
      exact ⟨Nat.lt_of_le_of_lt hnext hlt, hle, hasc⟩
  · intro d e he
    rcases hdials' d e he with ⟨e', he', hsame⟩ | ⟨hlt, hmem, x, hx⟩
    · rcases hdials d e' he' with ⟨e'', he'', hsame'⟩ | ⟨hlt, hmem, x, hx⟩
      · exact .inl ⟨e'', he'', hsame'.trans hsame⟩
      · rw [← hsame.1] at hmem
        exact .inr ⟨hlt, List.mem_append_left _ hmem, x, List.mem_append_left _ hx⟩
    · exact .inr ⟨Nat.lt_of_le_of_lt hnext hlt, List.mem_append_right _ hmem, x,
        List.mem_append_right _ hx⟩
  · intro l g a hl ha
    rcases h'.links l g a hl ha with ⟨g', a', hl', ha', hsame⟩ | hp
    · rcases h.links l g' a' hl' ha' with ⟨g'', a'', hl'', ha'', hsame'⟩ | ⟨b, hb, hsame'⟩
      · exact .inl ⟨g'', a'', hl'', ha'', hsame'.trans hsame⟩
      · exact .inr ⟨b, hb, hsame'.trans hsame⟩
    · exact .inr hp
  · intro d hd
    rcases h'.pairs d hd with hd | ⟨hlt, hle, hnone⟩
    · rcases h.pairs d hd with hd | ⟨hlt, hle, hnone⟩
      · exact .inl hd
      · refine .inr ⟨hlt, hle.trans hnext', ?_⟩
        by_contra hsome
        obtain ⟨e, he⟩ := Option.ne_none_iff_exists'.mp hsome
        obtain ⟨e', he', -⟩ := hold d e hle he
        rw [hnone] at he'
        cases he'
    · exact .inr ⟨Nat.lt_of_le_of_lt hnext hlt, hle, hnone⟩

theorem of_same (hnext : t.core.nextDial = s.core.nextDial)
    (hdials : t.core.pendingPeerDials = s.core.pendingPeerDials)
    (hlinks : ∀ (l : LinkId) (h : HandshakingLink X), t.core.links[l]? = some (.handshaking h) →
      h.fallback.isSome → s.core.links[l]? = some (.handshaking h))
    (hpairs : ∀ d ∈ t.core.pendingPairDials, d ∈ s.core.pendingPairDials)
    (hmade : t.dials = s.dials)
    (hact : ∃ as, t.actions = s.actions ++ as ∧ ∀ a ∈ as, a.isDial = false) :
    Advances put s t := by
  obtain ⟨as, has, hmute⟩ := hact
  refine ⟨hnext.ge, ⟨[], as, by simpa using hmade, has, ?_, ?_⟩, ?_, fun d hd => .inl (hpairs d hd)⟩
  · intro x d hmem
    cases hmute _ hmem
  · intro d e he
    rw [hdials] at he
    exact .inl ⟨e, he, .refl _⟩
  · intro l g a hl ha
    exact .inl ⟨g, a, hlinks l g hl (by rw [ha]; rfl), ha, .refl _⟩

theorem of_tables (hnext : t.core.nextDial = s.core.nextDial)
    (hdials : t.core.pendingPeerDials = s.core.pendingPeerDials)
    (hlinks : t.core.links = s.core.links)
    (hpairs : t.core.pendingPairDials = s.core.pendingPairDials)
    (hmade : t.dials = s.dials) (hact : t.actions = s.actions) : Advances put s t := by
  refine .of_same hnext hdials ?_ ?_ hmade ⟨[], by simpa using hact, by simp⟩
  · intro l g hg _
    rwa [hlinks] at hg
  · intro d hd
    rwa [hpairs] at hd

theorem refl (s : Exec X P) : Advances put s s := .of_tables rfl rfl rfl rfl rfl rfl

theorem still (h : Still s t) : Advances put s t := by
  refine .of_same h.nextDial h.peerDials ?_ ?_ h.made h.mute
  · intro l g hg _
    exact (h.links l).handshaking_iff.mp hg
  · intro d hd
    rwa [h.pairDials] at hd

theorem push (s : Exec X P) (a : Action) (h : a.isDial = false) : Advances put s (s.push a) :=
  still (.push s a h)

theorem ui (s : Exec X P) (e : UiEvent) : Advances put s (s.ui e) := push s (.ui e) rfl

theorem unlink (s : Exec X P) (l : LinkId) : Advances put s (s.unlink l) := by
  refine .of_same rfl rfl ?_ (fun d hd => hd) rfl ⟨[], (List.append_nil _).symm, by simp⟩
  intro m g hg _
  exact (Lib.getElem?_of_erase hg).2

theorem eraseDial (s : Exec X P) (d : DialToken) :
    Advances put s { s with core.pendingPeerDials := s.core.pendingPeerDials.erase d } := by
  refine ⟨le_rfl, ⟨[], [], (List.append_nil _).symm, (List.append_nil _).symm, by simp, ?_⟩, ?_,
    fun d hd => .inl hd⟩
  · intro d' e he
    exact .inl ⟨e, (Lib.getElem?_of_erase he).2, .refl _⟩
  · intro l g a hl ha
    exact .inl ⟨g, a, hl, ha, .refl _⟩

/-- A link gets a state that carries no attempt, or one that may be put there. -/
theorem insertLink (s : Exec X P) (l : LinkId) (st : LinkState X)
    (hput : ∀ h a, st = .handshaking h → h.fallback = some a →
      (∃ h' a', s.core.links[l]? = some (.handshaking h') ∧ h'.fallback = some a' ∧ a'.Same a) ∨
        ∃ b, put = some (l, b) ∧ b.Same a) : Advances put s (s.insertLink l st) := by
  refine ⟨le_rfl, ⟨[], [], (List.append_nil _).symm, (List.append_nil _).symm, by simp, ?_⟩, ?_,
    fun d hd => .inl hd⟩
  · intro d e he
    exact .inl ⟨e, he, .refl _⟩
  · intro m g a hm ha
    rcases Lib.getElem?_of_insert hm with ⟨rfl, rfl⟩ | ⟨-, hm⟩
    · exact hput g a rfl ha
    · exact .inl ⟨g, a, hm, ha, .refl _⟩

/-- A link may be taken out of the table and put back with the attempt it carried. -/
theorem take {l : LinkId} {g : HandshakingLink X} (hl : s.core.links[l]? = some (.handshaking g))
    (h : Advances (g.fallback.map (l, ·)) (s.unlink l) t) : Advances none s t := by
  refine ⟨h.next, h.made, fun m g' a hm ha => .inl ?_, h.pairs⟩
  rcases h.links m g' a hm ha with ⟨g'', a'', hl'', ha'', hsame⟩ | ⟨b, hb, hsame⟩
  · exact ⟨g'', a'', (Lib.getElem?_of_erase hl'').2, ha'', hsame⟩
  · obtain ⟨b', hb', heq⟩ := Option.map_eq_some_iff.mp hb
    cases heq
    exact ⟨g, b, hl, hb', hsame⟩

theorem foldl {α : Type} {f : Exec X P → α → Exec X P} (as : List α)
    (hf : ∀ s a, s.core.Orderly → Advances put s (f s a))
    (ho : ∀ s a, s.core.Orderly → (f s a).core.Orderly) (h : s.core.Orderly) :
    Advances put s (as.foldl f s) := by
  induction as generalizing s with
  | nil => exact .refl s
  | cons a as ih => exact (hf s a h).trans (ih (ho s a h))

end Advances

namespace Exec
variable {s : Exec X P} {nowMs : ℕ} {l : LinkId} {put : Option (LinkId × PeerDial)}

theorem failLink_advances (s : Exec X P) (l : LinkId) (detail : String) :
    Advances put s (s.failLink l detail) :=
  ((Advances.unlink s l).trans (.push _ (.close l (.protocol .notAllowed)) rfl)).trans (.ui _ _)

/-- A dial gets a token that was never used, and keeps the routes behind its own. -/
theorem dialPeer_advances (s : Exec X P) (peer : DeviceId) (route : TransportId × String)
    {routes : List (TransportId × String)} (hr : Ascending (route :: routes)) (byHand : Bool) :
    Advances put s (s.dialPeer nowMs peer route routes byHand) := by
  have hself : (s.core.pendingPeerDials.insert (s.core.nextDial + 1)
      (nowMs + s.core.config.dialTimeoutMs, ⟨peer, routes, byHand⟩))[s.core.nextDial + 1]? =
      some (nowMs + s.core.config.dialTimeoutMs, ⟨peer, routes, byHand⟩) :=
    ExtTreeMap.getElem?_insert_self
  refine ⟨Nat.le_succ _, ⟨[_], [_], rfl, rfl, ?_, ?_⟩, ?_, fun d hd => .inl hd⟩
  · intro x d hmem
    obtain ⟨htransport, haddr, rfl⟩ := Action.dial.inj (List.mem_singleton.mp hmem)
    obtain rfl : x = route := Prod.ext htransport haddr
    refine ⟨Nat.lt_succ_self _, le_rfl, fun e he => ?_⟩
    have heq := he.symm.trans hself
    cases heq
    exact hr
  · intro d e he
    rcases Lib.getElem?_of_insert he with ⟨rfl, rfl⟩ | ⟨-, he⟩
    · exact .inr ⟨Nat.lt_succ_self _, List.mem_singleton.mpr rfl, route, List.mem_singleton.mpr rfl⟩
    · exact .inl ⟨e, he, .refl _⟩
  · intro l g a hl ha
    exact .inl ⟨g, a, hl, ha, .refl _⟩

theorem tryNextRoute_advances (s : Exec X P) {a : PeerDial} (ha : Ascending a.routes)
    (why : String) : Advances put s (s.tryNextRoute nowMs a why) := by
  unfold tryNextRoute
  split
  · exact .refl s
  · split
    · dsimp only
      have htrouble : Advances put s { s with
          core.dialTrouble := s.core.dialTrouble.insert a.peer why } :=
        .of_tables rfl rfl rfl rfl rfl rfl
      split
      · exact htrouble.trans (.ui _ _)
      · exact htrouble
    · rename_i route routes heq
      rw [heq] at ha
      exact dialPeer_advances s _ _ ha _

theorem adoptAttempt_advances (peer : DeviceId) : Advances put s (s.adoptAttempt peer) := by
  have same : ∀ a : PeerDial,
      a.Same (if a.peer = peer then { a with byHand := true } else a) := by
    intro a
    split <;> exact ⟨rfl, rfl⟩
  unfold adoptAttempt
  refine ⟨le_rfl, ⟨[], [], (List.append_nil _).symm, (List.append_nil _).symm, by simp, ?_⟩, ?_,
    fun d hd => .inl hd⟩
  · intro d e he
    rw [ExtTreeMap.getElem?_map, Option.map_eq_some_iff] at he
    obtain ⟨e', he', rfl⟩ := he
    exact .inl ⟨e', he', same e'.2⟩
  · intro l g a hl ha
    rw [ExtTreeMap.getElem?_map, Option.map_eq_some_iff] at hl
    obtain ⟨st, hst, heq⟩ := hl
    cases st with
    | pending => cases heq
    | up => cases heq
    | handshaking g' =>
      cases heq
      obtain ⟨a', ha', rfl⟩ := Option.map_eq_some_iff.mp ha
      exact .inl ⟨g', a', hst, ha', same a'⟩

theorem connectRoutes_advances (s : Exec X P) (peer : DeviceId)
    {routes : List (TransportId × String)} (hr : Ascending routes) (byHand : Bool) :
    Advances put s (s.connectRoutes nowMs peer routes byHand) := by
  unfold connectRoutes
  split
  · dsimp only
    have htrouble : Advances put s { s with
        core.dialTrouble := s.core.dialTrouble.insert peer nowhere } :=
      .of_tables rfl rfl rfl rfl rfl rfl
    split
    · exact (htrouble.trans (.ui _ _)).trans (.ui _ _)
    · exact htrouble
  · exact dialPeer_advances s _ _ hr _

theorem connectPeer_advances (s : Exec X P) (peer : DeviceId) (byHand : Bool) :
    Advances put s (s.connectPeer nowMs peer byHand) := by
  have known : ∀ k : Option Routes, Ascending (k.elim [] Routes.inPreferenceOrder) := by
    intro k
    cases k with
    | none => exact .nil
    | some r => exact r.ascending
  unfold connectPeer
  dsimp only
  split
  · exact .refl s
  · split
    · exact connectRoutes_advances s _ (known _) _
    · split
      · exact adoptAttempt_advances _
      · exact .refl s
    · split
      · exact .ui _ _
      · split
        · exact .refl s
        · split
          · exact .refl s
          · exact connectRoutes_advances s _ ((known _).filter _) _

theorem startPairInitiator_advances (s : Exec X P) (seed : X.Seed) (l : LinkId) (attrs : LinkAttrs)
    (deadline : ℕ) (via : TransportId × String) :
    Advances put s (s.startPairInitiator seed l attrs deadline via) := by
  unfold startPairInitiator
  split
  · exact failLink_advances s _ _
  · split
    · exact failLink_advances s _ _
    · refine (Advances.push s _ rfl).trans (.insertLink _ l _ fun g a hg ha => ?_)
      cases hg
      cases ha

/-- The link of a dial that came up carries the attempt of that dial. -/
theorem startSessionInitiator_advances (s : Exec X P) (seed : X.Seed) (l : LinkId) (a : PeerDial)
    (attrs : LinkAttrs) (deadline : ℕ) : Advances (some (l, a)) s
      (s.startSessionInitiator seed l a.peer attrs deadline (some a)) := by
  unfold startSessionInitiator
  split
  · exact failLink_advances s _ _
  · split
    · split
      · exact failLink_advances s _ _
      · split
        · exact failLink_advances s _ _
        · refine (Advances.push s _ rfl).trans (.insertLink _ l _ fun g b hg hb => .inr ?_)
          cases hg
          cases hb
          exact ⟨a, rfl, .refl a⟩
    · exact failLink_advances s _ _

/-- The attempt a link that comes up would carry on. -/
def risen (s : Exec X P) (l : LinkId) (dial : Option DialToken) : Option (LinkId × PeerDial) :=
  (dial.bind fun d => s.core.pendingPeerDials[d]?).map fun e => (l, e.2)

theorem onLinkUp_advances (s : Exec X P) (seed : X.Seed) (l : LinkId) (attrs : LinkAttrs)
    (dial : Option DialToken) :
    Advances (s.risen l dial) s (s.onLinkUp nowMs seed l attrs dial) := by
  unfold onLinkUp
  dsimp only
  split
  · rename_i d via heq
    refine Advances.trans ?_ (startPairInitiator_advances _ seed l attrs _ via)
    refine .of_same rfl rfl (fun _ _ hg _ => hg) (fun d' hd => ?_) rfl
      ⟨[], (List.append_nil _).symm, by simp⟩
    exact (Lib.mem_erase.mp hd).2
  · split
    · rename_i d t a heq
      obtain ⟨d', hdial, hd⟩ := Option.bind_eq_some_iff.mp heq
      obtain ⟨e, he, heq'⟩ := Option.map_eq_some_iff.mp hd
      cases heq'
      have hrisen : s.risen l dial = some (l, a) := by
        unfold risen
        rw [hdial, Option.bind_some, he]
        rfl
      rw [hrisen]
      exact (Advances.eraseDial s d).trans (startSessionInitiator_advances _ seed l a attrs _)
    · refine .insertLink s l _ fun g a hg _ => ?_
      cases hg

theorem pairingAttemptFailed_advances (s : Exec X P) (l : LinkId) :
    Advances put s (s.pairingAttemptFailed nowMs l) := by
  refine ((failLink_advances s l "pairing handshake failed").trans (.of_tables ?_ ?_ ?_ ?_ ?_ ?_)).trans
    (.ui _ _) <;> rfl

theorem insertPending_advances (s : Exec X P) (l : LinkId) (q : PendingLink) :
    Advances put s (s.insertLink l (.pending q)) := by
  refine .insertLink s l _ fun g a hg _ => ?_
  cases hg

theorem insertUp_advances (s : Exec X P) (l : LinkId) (u : UpLink X) :
    Advances put s (s.insertLink l (.up u)) := by
  refine .insertLink s l _ fun g a hg _ => ?_
  cases hg

theorem pairingCompleted_advances (s : Exec X P) (l : LinkId) (g : HandshakingLink X)
    (payload : Bytes) : Advances put s (s.pairingCompleted nowMs l g payload) := by
  unfold pairingCompleted
  split
  · split
    · exact pairingAttemptFailed_advances s l
    · have hput : Advances put s (s.insertLink l (.pending ⟨g.attrs, g.deadline⟩)) :=
        insertPending_advances s l _
      dsimp only
      split
      · exact hput.trans (failLink_advances _ _ _)
      · exact hput.trans (failLink_advances _ _ _)
      · refine (hput.trans (.of_tables ?_ ?_ ?_ ?_ ?_ ?_)).trans (.ui _ _) <;> rfl
  · exact failLink_advances s _ _

theorem confirmPairing_advances (s : Exec X P) (accept : Bool) :
    Advances put s (s.confirmPairing nowMs accept) := by
  have kept : ∀ (id : DeviceId) (a : AwaitingConfirm), Advances put s (s.keepRoutes id a) := by
    intro id a
    unfold keepRoutes
    dsimp only
    split
    · exact .of_tables rfl rfl rfl rfl rfl rfl
    · split
      · exact .of_tables rfl rfl rfl rfl rfl rfl
      · exact .refl s
  unfold confirmPairing
  split
  · rename_i a _
    split
    · refine (((Advances.push s (.close a.link (.protocol .notAllowed)) rfl).trans
        (.unlink _ a.link)).trans
        (.of_tables ?_ ?_ ?_ ?_ ?_ ?_)).trans (.ui _ _) <;> rfl
    · split
      · exact .of_tables rfl rfl rfl rfl rfl rfl
      · rename_i id _
        dsimp only
        have htold := ((kept id a).trans (.push _ (Core.peerBlob X a.record) rfl)).trans
          (.ui _ (.pairingComplete id a.record.name))
        have hfiled : Advances put s { ((s.keepRoutes id a).push (Core.peerBlob X a.record)).ui
            (.pairingComplete id a.record.name) with
            core.peers := (s.keepRoutes id a).core.peers.insert id a.record
            core.pairing := none } := htold.trans (.of_tables rfl rfl rfl rfl rfl rfl)
        refine ((hfiled.trans (.push _ (.close a.link .closed) rfl)).trans
          (.unlink _ a.link)).trans (.of_tables ?_ ?_ ?_ ?_ ?_ ?_) <;> rfl
  · exact .refl s

theorem onPairOpener_advances (s : Exec X P) (seed : X.Seed) (l : LinkId) (q : PendingLink)
    (body : Bytes) : Advances put s (s.onPairOpener nowMs seed l q body) := by
  unfold onPairOpener
  split
  · exact failLink_advances s _ _
  · split
    · exact failLink_advances s _ _
    · split
      · refine Advances.trans (.of_tables ?_ ?_ ?_ ?_ ?_ ?_) (failLink_advances _ _ _) <;> rfl
      · split
        · exact failLink_advances s _ _
        · dsimp only
          have hbegun : Advances put s { s with core := s.core.beginPairing nowMs } :=
            .of_tables rfl rfl rfl rfl rfl rfl
          refine (hbegun.trans (.push _ _ rfl)).trans (.insertLink _ l _ fun g a hg ha => ?_)
          cases hg
          cases ha

section Hooks
variable [Plugin P]

theorem lostUpLink_advances (s : Exec X P) (u : UpLink X) :
    Advances put s (s.lostUpLink nowMs u) := by
  unfold lostUpLink
  split
  · exact .ui _ _
  · dsimp only
    have htold : Advances put s { s.ui (.peerUnreachable u.peer) with core.reconnectAt := some 0 } :=
      (Advances.ui s _).trans (.of_tables rfl rfl rfl rfl rfl rfl)
    exact htold.trans (.still (callAllPlugins_still _ _ _))

theorem onLinkDown_advances (h : s.core.Orderly) (l : LinkId) :
    Advances put s (s.onLinkDown nowMs l) := by
  have hgone : Advances put s (s.unlink l) := .unlink s l
  unfold onLinkDown
  dsimp only
  cases hl : s.core.links[l]? with
  | none => exact hgone
  | some st =>
    cases st with
    | pending => exact hgone
    | up u => exact hgone.trans (lostUpLink_advances _ u)
    | handshaking g =>
      have hback : Advances put (s.unlink l) (if g.pairingFlow then { s.unlink l with
          core.pairing := none } else s.unlink l) := by
        split
        · exact .of_tables rfl rfl rfl rfl rfl rfl
        · exact .refl _
      dsimp only
      cases hf : g.fallback with
      | none => exact hgone.trans hback
      | some a =>
        refine (hgone.trans hback).trans ?_
        exact tryNextRoute_advances _ ((h.carried l g hl).ascending a hf) _

theorem failUpLink_advances (h : s.core.Orderly) (l : LinkId) (u : UpLink X) (detail : String) :
    Advances put s (s.failUpLink nowMs l u detail) := by
  have hput : (s.insertLink l (.up u)).core.Orderly := h.insertLink l trivial
  have hsaid : Advances put s (((s.insertLink l (.up u)).push (.close l (.protocol .notAllowed))).ui
      (.error (some u.peer) .notAllowed detail)) :=
    ((insertUp_advances s l u).trans (.push _ (.close l (.protocol .notAllowed)) rfl)).trans (.ui _ _)
  refine hsaid.trans (onLinkDown_advances ?_ l)
  exact hput.of_tables rfl rfl rfl

theorem finishSession_advances (s : Exec X P) (l : LinkId) (hs : Handshake X) (attrs : LinkAttrs)
    (peer : DeviceId) : Advances put s (s.finishSession nowMs l hs attrs peer) := by
  unfold finishSession
  dsimp only
  split
  · exact failLink_advances s _ _
  · split
    · exact failLink_advances s _ _
    · have hup : ∀ u : UpLink X, Advances put s { s.insertLink l (.up u) with
          core.dialTrouble := s.core.dialTrouble.erase peer } := fun u =>
        (insertUp_advances s l u).trans (.of_tables rfl rfl rfl rfl rfl rfl)
      exact ((hup _).trans (.ui _ _)).trans (.still (callAllPlugins_still _ _ _))

omit [Plugin P] in
theorem afterHello_advances (s : Exec X P) {peer : DeviceId} {payload : Bytes}
    {next : Exec X P → Exec X P} (hnext : ∀ s : Exec X P, Advances put s (next s))
    (detail : String) : Advances put s (match s.acceptHello peer payload with
      | (s, false) => s.failLink l detail
      | (s, true) => next s) := by
  have hread : Advances put s (s.acceptHello peer payload).1 := .still (acceptHello_still s peer payload)
  split
  · rename_i heq
    rw [heq] at hread
    exact hread.trans (failLink_advances _ _ _)
  · rename_i heq
    rw [heq] at hread
    exact hread.trans (hnext _)

theorem onSessionOpener_advances (s : Exec X P) (seed : X.Seed) (l : LinkId) (q : PendingLink)
    (body : Bytes) : Advances put s (s.onSessionOpener nowMs seed l q body) := by
  unfold onSessionOpener
  split
  · exact failLink_advances s _ _
  · dsimp only
    split
    · exact failLink_advances s _ _
    · split
      · exact failLink_advances s _ _
      · split
        · exact failLink_advances s _ _
        · split
          · exact failLink_advances s _ _
          · refine afterHello_advances s (fun s => ?_) _
            split
            · exact failLink_advances s _ _
            · exact (Advances.push s _ rfl).trans (finishSession_advances _ _ _ _ _)

theorem onFirstFrame_advances (s : Exec X P) (seed : X.Seed) (l : LinkId) (q : PendingLink)
    (kind : FrameKind) (body : Bytes) : Advances put s (s.onFirstFrame nowMs seed l q kind body) := by
  unfold onFirstFrame
  split
  · exact onPairOpener_advances s seed l q body
  · exact onSessionOpener_advances s seed l q body
  · exact failLink_advances s _ _

theorem afterHandshakeRead_advances (s : Exec X P) (l : LinkId) (g : HandshakingLink X)
    (payload : Bytes) :
    Advances (g.fallback.map (l, ·)) s (s.afterHandshakeRead nowMs l g payload) := by
  unfold afterHandshakeRead
  split
  · refine .insertLink s l _ fun g' a hg ha => .inr ⟨a, ?_, .refl a⟩
    cases hg
    rw [ha]
    rfl
  · split
    · exact pairingCompleted_advances s l g payload
    · unfold onSessionReply
      split
      · exact failLink_advances s _ _
      · exact afterHello_advances s (fun s => finishSession_advances s _ _ _ _) _

theorem onHandshakeFrame_advances (s : Exec X P) (l : LinkId) (g : HandshakingLink X)
    (kind : FrameKind) (body : Bytes) :
    Advances (g.fallback.map (l, ·)) s (s.onHandshakeFrame nowMs l g kind body) := by
  have goes : ∀ (s : Exec X P) (hs : Handshake X) (payload : Bytes),
      Advances (g.fallback.map (l, ·)) s
        (s.afterHandshakeRead nowMs l { g with hs } payload) :=
    fun s hs payload => afterHandshakeRead_advances s l { g with hs } payload
  unfold onHandshakeFrame
  by_cases hkind : kind = if g.pairingFlow then .pairHandshake else .sessionHandshake
  case neg =>
    rw [if_pos hkind]
    exact failLink_advances s _ _
  rw [if_neg (not_not.mpr hkind)]
  cases g.hs.read body with
  | error e =>
    dsimp only
    split
    · exact pairingAttemptFailed_advances s l
    · exact failLink_advances s _ _
  | ok r =>
    dsimp only
    split
    · split
      · exact (Advances.push s _ rfl).trans (goes _ _ _)
      · exact failLink_advances s _ _
    · exact goes s _ _

theorem onTransportFrame_advances (h : s.core.Orderly) (l : LinkId) (u : UpLink X)
    (kind : FrameKind) (body : Bytes) :
    Advances put s (s.onTransportFrame nowMs l u kind body) := by
  unfold onTransportFrame
  split
  · exact failUpLink_advances h l u _
  · split
    · exact failUpLink_advances h l u _
    · rename_i plaintext session _
      have hput : Advances put s (s.insertLink l (.up { u with session, lastRecvMs := nowMs })) :=
        insertUp_advances s l _
      dsimp only
      split
      · exact hput.trans (.ui _ _)
      · split
        · exact hput.trans (.still (sendError_still _ _ _ _))
        · split
          · exact hput.trans (.ui _ _)
          · exact hput.trans (.still (routeEnvelope_still _ _ _ _))

theorem onLinkRecv_advances (h : s.core.Orderly) (seed : X.Seed) (l : LinkId) (msg : Bytes) :
    Advances none s (s.onLinkRecv nowMs seed l msg) := by
  have hgone : Advances none s (s.unlink l) := .unlink s l
  unfold onLinkRecv
  split
  · exact failLink_advances s _ _
  · dsimp only
    cases hl : s.core.links[l]? with
    | none => exact hgone.trans (failLink_advances _ _ _)
    | some st =>
      cases st with
      | pending q => exact hgone.trans (onFirstFrame_advances _ seed l q _ _)
      | handshaking g => exact .take hl (onHandshakeFrame_advances _ l g _ _)
      | up u => exact hgone.trans (onTransportFrame_advances (h.unlink l) l u _ _)

theorem closeUpLinks_advances (h : s.core.Orderly) (peer : DeviceId) (reason : LinkDownReason) :
    Advances put s (s.closeUpLinks nowMs peer reason) := by
  refine .foldl _ (fun s e hs => ?_) (fun s e hs => ?_) h
  · have hclosed : Advances put s (s.push (.close e.1 reason)) := .push s _ rfl
    exact hclosed.trans (onLinkDown_advances (hs.push _) e.1)
  · exact onLinkDown_orderly (hs.push _) e.1

theorem handleRevoke_advances (h : s.core.Orderly) (peer : DeviceId) :
    Advances put s (s.handleRevoke nowMs peer) := by
  have herased : Core.Orderly (push { s with core := { s.core with
      peers := s.core.peers.erase peer
      addrs := s.core.addrs.erase peer
      dialTrouble := s.core.dialTrouble.erase peer } }
      (.persist ("peer/" ++ peer.str) none .secret)).core := h.of_tables rfl rfl rfl
  have hfiled : Advances put s (push { s with core := { s.core with
      peers := s.core.peers.erase peer
      addrs := s.core.addrs.erase peer
      dialTrouble := s.core.dialTrouble.erase peer } }
      (.persist ("peer/" ++ peer.str) none .secret)) := by
    refine Advances.trans (.of_tables ?_ ?_ ?_ ?_ ?_ ?_) (.push _ _ rfl) <;> rfl
  have hclosed : Advances put s (closeUpLinks (push { s with core := { s.core with
      peers := s.core.peers.erase peer
      addrs := s.core.addrs.erase peer
      dialTrouble := s.core.dialTrouble.erase peer } }
      (.persist ("peer/" ++ peer.str) none .secret)) nowMs peer (.protocol .notPaired)) :=
    hfiled.trans (closeUpLinks_advances herased peer _)
  unfold handleRevoke
  dsimp only
  split
  · exact (hclosed.trans (.ui _ _)).trans (.still (announce_still _ _))
  · exact hclosed.trans (.ui _ _)

omit [Plugin P] in
/-- A pairing dial gets a token that was never used, and no attempt is kept under it. -/
theorem requestPairing_advances (h : s.core.Orderly) (transport : TransportId) (addr : String) :
    Advances put s (s.requestPairing nowMs transport addr) := by
  have hfree : s.core.pendingPeerDials[s.core.nextDial + 1]? = none := by
    by_contra hsome
    obtain ⟨e, he⟩ := Option.ne_none_iff_exists'.mp hsome
    exact Nat.not_succ_le_self _ (h.issued _ e he)
  unfold requestPairing
  split
  · exact .ui _ _
  · refine ⟨Nat.le_succ _, ⟨[], [_], (List.append_nil _).symm, rfl, ?_, ?_⟩, ?_, ?_⟩
    · intro x d hmem
      obtain ⟨-, -, rfl⟩ := Action.dial.inj (List.mem_singleton.mp hmem)
      refine ⟨Nat.lt_succ_self _, le_rfl, fun e he => ?_⟩
      have hnone := hfree.symm.trans he
      cases hnone
    · intro d e he
      exact .inl ⟨e, he, .refl _⟩
    · intro l g a hl ha
      exact .inl ⟨g, a, hl, ha, .refl _⟩
    · intro d hd
      rcases Lib.mem_insert.mp hd with rfl | hd
      · exact .inr ⟨Nat.lt_succ_self _, le_rfl, hfree⟩
      · exact .inl hd

theorem onLocal_advances (h : s.core.Orderly) (cmd : LocalCommand) :
    Advances put s (s.onLocal nowMs cmd) := by
  cases cmd <;> dsimp only [onLocal]
  case requestPairing transport addr => exact requestPairing_advances h transport addr
  case confirmPairing accept => exact confirmPairing_advances s accept
  case setPeerAddress peer transport addr =>
    split
    · exact .of_tables rfl rfl rfl rfl rfl rfl
    · exact .ui _ _
  case connect peer => exact connectPeer_advances s peer true
  case reconsiderRoutes =>
    exact .foldl _ (fun s p _ => connectPeer_advances s p false)
      (fun s p hs => connectPeer_orderly hs p false) h
  case disconnect peer => exact closeUpLinks_advances h peer .closed
  case revoke peer => exact handleRevoke_advances h peer
  case plugin peer cap ty body => exact .still (onLocalPlugin_still s nowMs peer cap ty body)

omit [Plugin P] in
theorem closeStale_advances (h : s.core.Orderly) (l : LinkId) :
    Advances put s (s.closeStale nowMs l) := by
  have hgone : Advances put s ((s.unlink l).push (.close l .closed)) :=
    (Advances.unlink s l).trans (.push _ _ rfl)
  unfold closeStale
  dsimp only
  cases hl : s.core.links[l]? with
  | none => exact hgone
  | some st =>
    cases st with
    | pending => exact hgone
    | up => exact hgone
    | handshaking g =>
      dsimp only
      cases hf : g.fallback with
      | none => exact hgone
      | some a =>
        exact hgone.trans (tryNextRoute_advances _ ((h.carried l g hl).ascending a hf) _)

omit [Plugin P] in
theorem expireDial_advances (h : s.core.Orderly) (d : DialToken) :
    Advances put s (s.expireDial nowMs d) := by
  unfold expireDial
  split
  · exact .refl s
  · rename_i he
    exact (Advances.eraseDial s d).trans
      (tryNextRoute_advances _ (h.ascending d _ he) _)

omit [Plugin P] in
theorem heartbeat_advances (h : s.core.Orderly) : Advances put s (s.heartbeat nowMs) := by
  unfold heartbeat
  split
  · have hset : Advances put s { s with
        core.reconnectAt := some (nowMs + s.core.config.reconnectEveryMs) } :=
      .of_tables rfl rfl rfl rfl rfl rfl
    refine hset.trans (.foldl _ (fun s p _ => connectPeer_advances s p false)
      (fun s p hs => connectPeer_orderly hs p false) ?_)
    exact h.of_tables rfl rfl rfl
  · exact .refl s

omit [Plugin P] in
theorem lapsePairing_advances (s : Exec X P) : Advances put s (s.lapsePairing nowMs) := by
  unfold lapsePairing
  split
  · exact .refl s
  · split
    · exact .refl s
    · dsimp only
      split
      · rename_i a _
        have hgone : Advances put s ((s.push (.close a.link .closed)).unlink a.link) :=
          (Advances.push s _ rfl).trans (.unlink _ _)
        refine (hgone.trans (.of_tables ?_ ?_ ?_ ?_ ?_ ?_)).trans (.ui _ _) <;> rfl
      · refine Advances.trans (.of_tables ?_ ?_ ?_ ?_ ?_ ?_) (.ui _ _) <;> rfl

omit [Plugin P] in
theorem closeStaleLinks_advances (h : s.core.Orderly) : Advances put s (s.closeStaleLinks nowMs) :=
  .foldl _ (fun _ l hs => closeStale_advances hs l) (fun _ l hs => closeStale_orderly hs l) h

omit [Plugin P] in
theorem expireDials_advances (h : s.core.Orderly) : Advances put s (s.expireDials nowMs) :=
  .foldl _ (fun _ d hs => expireDial_advances hs d) (fun _ d hs => expireDial_orderly hs d) h

theorem onTick_advances (h : s.core.Orderly) : Advances put s (s.onTick nowMs) := by
  have hlapsed : (s.lapsePairing nowMs).core.Orderly := lapsePairing_orderly h
  have hwaited := hlapsed.still (giveUpWaiting_still _ nowMs)
  have hclosed : (((s.lapsePairing nowMs).giveUpWaiting nowMs).closeStaleLinks nowMs).core.Orderly :=
    .foldl _ (fun s l hs => closeStale_orderly hs l) hwaited
  have hexpired : ((((s.lapsePairing nowMs).giveUpWaiting nowMs).closeStaleLinks
      nowMs).expireDials nowMs).core.Orderly :=
    .foldl _ (fun s d hs => expireDial_orderly hs d) hclosed
  exact (((((lapsePairing_advances s).trans (.still (giveUpWaiting_still _ nowMs))).trans
    (closeStaleLinks_advances hwaited)).trans (expireDials_advances hclosed)).trans
    (heartbeat_advances hexpired)).trans (.still (wakePlugins_still _ nowMs))

omit [Plugin P] in
theorem onDialFailed_advances (h : s.core.Orderly) (d : DialToken) (reason : String) :
    Advances put s (s.onDialFailed nowMs d reason) := by
  unfold onDialFailed
  split
  · dsimp only
    have hgone : Advances put s { s with core := { s.core with
        pendingPairDials := s.core.pendingPairDials.erase d
        pairing := none } } := by
      refine .of_same rfl rfl (fun _ _ hg _ => hg) (fun d' hd => ?_) rfl
        ⟨[], (List.append_nil _).symm, by simp⟩
      exact (Lib.mem_erase.mp hd).2
    exact hgone.trans (.ui _ _)
  · split
    · rename_i he
      exact (Advances.eraseDial s d).trans
        (tryNextRoute_advances _ (h.ascending d _ he) _)
    · exact .refl s

omit [Plugin P] in
theorem onDiscovered_advances (s : Exec X P) (transport : TransportId)
    (peer : DiscoveredPeer) : Advances put s (s.onDiscovered nowMs transport peer) := by
  unfold onDiscovered
  split
  · exact .refl s
  · dsimp only
    split
    · refine Advances.trans (.of_tables ?_ ?_ ?_ ?_ ?_ ?_) (connectPeer_advances _ _ _) <;> rfl
    · refine Advances.trans (.of_tables ?_ ?_ ?_ ?_ ?_ ?_) (.still (announce_still _ _)) <;> rfl

theorem onEvent_advances (h : s.core.Orderly) (seed : X.Seed) (e : Event) :
    Advances (match e with
      | .linkUp l _ dial => s.risen l dial
      | _ => none) s (s.onEvent nowMs seed e) := by
  cases e <;> dsimp only [onEvent]
  case linkUp l attrs dial => exact onLinkUp_advances s seed l attrs dial
  case linkRecv l msg => exact onLinkRecv_advances h seed l msg
  case linkDown l reason => exact onLinkDown_advances h l
  case dialFailed d reason => exact onDialFailed_advances h d reason
  case discovered transport peer => exact onDiscovered_advances s transport peer
  case undiscovered transport addr => exact .still (onUndiscovered_still s transport addr)
  case bulkListening t endpoint => exact .still (dispatchToTransferOwner_still s nowMs t _)
  case bulkStarted t => exact .of_tables rfl rfl rfl rfl rfl rfl
  case bulkFinished t ok detail =>
    have htold : Advances none s (s.dispatchToTransferOwner nowMs t fun p cx =>
        Plugin.onBulkFinished p cx t ok detail) := .still (dispatchToTransferOwner_still s nowMs t _)
    exact htold.trans (.of_tables rfl rfl rfl rfl rfl rfl)
  case tick => exact onTick_advances h
  case localCommand cmd => exact onLocal_advances h cmd
  case effectDone token result => exact .still (onEffectDone_still s nowMs token result)

end Hooks
end Exec

/-- A token is a pairing dial's or an attempt's, never both. -/
structure Core.Apart (c : Core X P) : Prop where
  issued : ∀ d ∈ c.pendingPairDials, d ≤ c.nextDial
  free : ∀ d ∈ c.pendingPairDials, c.pendingPeerDials[d]? = none

theorem Advances.apart {put : Option (LinkId × PeerDial)} {s t : Exec X P} (h : Advances put s t)
    (hs : s.core.Apart) : t.core.Apart := by
  constructor
  · intro d hd
    rcases h.pairs d hd with hd | ⟨-, hle, -⟩
    · exact (hs.issued d hd).trans h.next
    · exact hle
  · intro d hd
    rcases h.pairs d hd with hd | ⟨-, -, hnone⟩
    · by_contra hsome
      obtain ⟨e, he⟩ := Option.ne_none_iff_exists'.mp hsome
      obtain ⟨_, _, -, -, -, hdials⟩ := h.made
      rcases hdials d e he with ⟨e', he', -⟩ | ⟨hlate, -⟩
      · rw [hs.free d hd] at he'
        cases he'
      · exact absurd (hs.issued d hd) (Nat.not_le.mpr hlate)
    · exact hnone

section
variable [Plugin P]

theorem CoreBuilder.apart (b : CoreBuilder X P) : b.build.Apart :=
  ⟨fun d hd => by simp [build] at hd, fun d hd => by simp [build] at hd⟩

theorem Core.Apart.step {c : Core X P} (h : c.Apart) (ho : c.Orderly) (i : Core.Input X) :
    (c.step i).Apart := by
  have hstart : (c.start i).core.Orderly := ⟨ho.issued, ho.ascending, ho.carried⟩
  exact (Exec.onEvent_advances hstart i.seed i.event).apart ⟨h.issued, h.free⟩

end
end Acrylius
