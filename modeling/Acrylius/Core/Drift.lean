import Acrylius.Core.Machine

/-! What the plugin side and the dialling side of a step can do: the tables they keep, and how
a session moves on under the messages sealed on it. -/
namespace Acrylius
open Proto Std

variable {X : Crates} {P : Type}

/-- The frames a list of actions sends on one link, in order. -/
def framesOn (l : LinkId) (as : List Action) : List Bytes :=
  as.filterMap fun
    | .linkSend l' msg => if l' = l then some msg else none
    | _ => none

@[simp] theorem framesOn_nil (l : LinkId) : framesOn l [] = [] := rfl

@[simp] theorem framesOn_append (l : LinkId) (as bs : List Action) :
    framesOn l (as ++ bs) = framesOn l as ++ framesOn l bs := by
  simp [framesOn]

/-- Sealing adds the tag and nothing else, and never past Noise's own limit. -/
def Crates.SealLaw (X : Crates) : Prop :=
  ∀ t p ct t', X.transportWrite t p = .ok (ct, t') →
    ct.length = p.length + tagLen ∧ ct.length ≤ maxNoiseMessage

theorem Session.encrypt_ok {s s' : Session X} {p ct : Bytes} (h : s.encrypt p = .ok (ct, s')) :
    X.transportWrite s.state p = .ok (ct, s'.state) ∧ s'.sent = s.sent + 1 := by
  unfold Session.encrypt at h
  cases hw : X.transportWrite s.state p with
  | error e => simp [hw, Crates.lift, bind, Except.bind] at h
  | ok r =>
    obtain ⟨ct', t'⟩ := r
    simp only [hw, Crates.lift, bind, Except.bind, pure, Except.pure, Except.ok.injEq,
      Prod.mk.injEq] at h
    obtain ⟨rfl, rfl⟩ := h
    exact ⟨rfl, rfl⟩

namespace Core

theorem mem_upLinks {c : Core X P} {p : DeviceId} {l : LinkId} {u : UpLink X} :
    (l, u) ∈ c.upLinks p ↔ c.links[l]? = some (.up u) ∧ u.peer = p := by
  unfold upLinks
  simp only [List.mem_filterMap, Prod.exists]
  constructor
  · rintro ⟨l', st, hm, h⟩
    rw [ExtTreeMap.mem_toList_iff_getElem?_eq_some] at hm
    cases st with
    | up v =>
      simp only [Option.ite_none_right_eq_some, Option.some.injEq, Prod.mk.injEq] at h
      obtain ⟨hp, rfl, rfl⟩ := h
      exact ⟨hm, hp⟩
    | pending => simp at h
    | handshaking => simp at h
  · rintro ⟨hl, hp⟩
    exact ⟨l, .up u, ExtTreeMap.mem_toList_iff_getElem?_eq_some.mpr hl, by simp [hp]⟩

theorem upLink_key {p : DeviceId} {x : LinkId × LinkState X} {y : LinkId × UpLink X}
    (h : (match x with
      | (l, .up u) => if u.peer = p then some (l, u) else none
      | _ => none) = some y) : y.1 = x.1 := by
  obtain ⟨l, st⟩ := x
  cases st with
  | up u =>
    by_cases hp : u.peer = p
    · simp only [hp, if_true, Option.some.injEq] at h
      rw [← h]
    · simp [hp] at h
  | pending => cases h
  | handshaking => cases h

theorem upLinks_nodup (c : Core X P) (p : DeviceId) : ((c.upLinks p).map (·.1)).Nodup := by
  rw [List.Nodup, List.pairwise_map, upLinks, List.pairwise_filterMap]
  refine c.links.ordered_keys_toList.imp fun {a b} hlt e he e' he' heq => ?_
  rw [upLink_key he, upLink_key he'] at heq
  rw [heq, compare_self] at hlt
  cases hlt

/-- The link a message takes is an established link with that peer. -/
theorem bestLink_up {c : Core X P} {p : DeviceId} {l : LinkId} {u : UpLink X}
    (h : c.bestLink p = some (l, u)) : c.links[l]? = some (.up u) ∧ u.peer = p :=
  mem_upLinks.mp (List.argmax_mem h)

theorem bestLink_eq_none {c : Core X P} {p : DeviceId} :
    c.bestLink p = none ↔
      ∀ (l : LinkId) (u : UpLink X), c.links[l]? = some (.up u) → u.peer ≠ p := by
  rw [bestLink, List.argmax_eq_none, List.eq_nil_iff_forall_not_mem]
  constructor
  · intro h l u hl hp
    exact h (l, u) (mem_upLinks.mpr ⟨hl, hp⟩)
  · rintro h ⟨l, u⟩ hm
    obtain ⟨hl, hp⟩ := mem_upLinks.mp hm
    exact h l u hl hp

/-- Whether a message handed to `dispatchSend` in this state is one the chosen link can carry:
it is not sealed at all (no session, no capability, past Noise's limit), or its frame is no
longer than the link takes. -/
def fits (c : Core X P) (m : PendingSend) : Bool :=
  match c.bestLink m.peer with
  | none => true
  | some (_, u) =>
    let len := (X.encode (m.envelope (c.nextMsgId + 1))).length + tagLen
    m.cap ∉ u.canSend || len + 1 ≤ u.maxMessage || maxNoiseMessage < len

/-- The frame `dispatchSend` emits in this state, and the link that carries it. -/
def sealedFrame (c : Core X P) (m : PendingSend) : Option (LinkId × Bytes) :=
  match c.bestLink m.peer with
  | none => none
  | some (l, u) =>
    if m.cap ∉ u.canSend then none
    else match u.session.encrypt (X.encode (m.envelope (c.nextMsgId + 1))) with
      | .ok (ct, _) =>
        if u.maxMessage < (Frame.join .transport ct).length then none
        else some (l, Frame.join .transport ct)
      | .error _ => none

def sealedOn (l : LinkId) (hist : List (Core X P × PendingSend)) : List Bytes :=
  hist.filterMap fun e => match e.1.sealedFrame e.2 with
    | some (l', f) => if l' = l then some f else none
    | none => none

@[simp] theorem sealedOn_nil (l : LinkId) : sealedOn (X := X) (P := P) l [] = [] := rfl

@[simp] theorem sealedOn_append (l : LinkId) (h h' : List (Core X P × PendingSend)) :
    sealedOn l (h ++ h') = sealedOn l h ++ sealedOn l h' := by
  simp [sealedOn]

end Core

/-- A session after sealing some messages, with the frames that went out. `lockstep` rules out
a message that was sealed and then refused for its size. -/
inductive Sealing (lockstep : Bool) : UpLink X → List Bytes → UpLink X → Prop where
  | nil (u : UpLink X) : Sealing lockstep u [] u
  | sent {u u' : UpLink X} {fs : List Bytes} {p ct : Bytes} {session : Session X}
      (before : Sealing lockstep u fs u') (enc : u'.session.encrypt p = .ok (ct, session)) :
      Sealing lockstep u (fs ++ [Frame.join .transport ct]) { u' with session }
  | lost {u u' : UpLink X} {fs : List Bytes} {p ct : Bytes} {session : Session X}
      (h : lockstep = false) (before : Sealing lockstep u fs u')
      (enc : u'.session.encrypt p = .ok (ct, session)) :
      Sealing lockstep u fs { u' with session }

theorem Sealing.trans {b : Bool} {u v w : UpLink X} {fs gs : List Bytes}
    (h : Sealing b u fs v) (h' : Sealing b v gs w) : Sealing b u (fs ++ gs) w := by
  induction h' with
  | nil => simpa using h
  | sent _ enc ih => rw [← List.append_assoc]; exact ih.sent enc
  | lost hb _ enc ih => exact ih.lost hb enc

/-- Sealing touches nothing but the session. -/
theorem Sealing.same {b : Bool} {u v : UpLink X} {fs : List Bytes} (h : Sealing b u fs v) :
    v = { u with session := v.session } := by
  induction h with
  | nil => rfl
  | sent _ _ ih => rw [ih]
  | lost _ _ _ ih => rw [ih]

theorem Sealing.peer_eq {b : Bool} {u v : UpLink X} {fs : List Bytes} (h : Sealing b u fs v) :
    v.peer = u.peer := by
  rw [h.same]

/-- In lockstep, every successful `encrypt` is a frame that went out. -/
theorem Sealing.sent_eq {u v : UpLink X} {fs : List Bytes} (h : Sealing true u fs v) :
    v.session.sent = u.session.sent + fs.length := by
  induction h with
  | nil => simp
  | sent _ enc ih =>
    have := (Session.encrypt_ok enc).2
    simp only [List.length_append, List.length_cons, List.length_nil]
    omega
  | lost h => cases h

/-- What becomes of one entry of the link table while nothing on that link is at stake. -/
inductive LinkDrift (lockstep : Bool) :
    Option (LinkState X) → List Bytes → Option (LinkState X) → Prop where
  | none : LinkDrift lockstep none [] none
  | pending (p : PendingLink) : LinkDrift lockstep (some (.pending p)) [] (some (.pending p))
  | handshaking (h : HandshakingLink X) (fallback : Option PeerDial) :
      LinkDrift lockstep (some (.handshaking h)) [] (some (.handshaking { h with fallback }))
  | up {u u' : UpLink X} {fs : List Bytes} (h : Sealing lockstep u fs u') :
      LinkDrift lockstep (some (.up u)) fs (some (.up u'))

namespace LinkDrift

theorem refl {b : Bool} : ∀ st : Option (LinkState X), LinkDrift b st [] st
  | .none => .none
  | some (.pending p) => .pending p
  | some (.handshaking h) => .handshaking h h.fallback
  | some (.up u) => .up (.nil u)

theorem trans {b : Bool} {x y z : Option (LinkState X)} {fs gs : List Bytes}
    (h : LinkDrift b x fs y) (h' : LinkDrift b y gs z) : LinkDrift b x (fs ++ gs) z := by
  cases h with
  | none => cases h'; exact .none
  | pending => cases h'; exact .pending _
  | handshaking h fb => cases h' with | handshaking _ fb' => exact .handshaking h fb'
  | up hs => cases h' with | up hs' => exact .up (hs.trans hs')

theorem up_of {b : Bool} {x : Option (LinkState X)} {fs : List Bytes} {v : UpLink X}
    (h : LinkDrift b x fs (some (.up v))) : ∃ u, x = some (.up u) ∧ Sealing b u fs v := by
  cases h with
  | up hs => exact ⟨_, rfl, hs⟩

theorem of_none {b : Bool} {y : Option (LinkState X)} {fs : List Bytes} (h : LinkDrift b .none fs y) :
    y = .none ∧ fs = [] := by
  cases h with
  | none => exact ⟨rfl, rfl⟩

theorem pending_of {b : Bool} {x : Option (LinkState X)} {fs : List Bytes} {p : PendingLink}
    (h : LinkDrift b x fs (some (.pending p))) : x = some (.pending p) ∧ fs = [] := by
  cases h with
  | pending => exact ⟨rfl, rfl⟩

theorem handshaking_of {b : Bool} {x : Option (LinkState X)} {fs : List Bytes}
    {h' : HandshakingLink X} (h : LinkDrift b x fs (some (.handshaking h'))) :
    ∃ h₀, x = some (.handshaking h₀) ∧ h' = { h₀ with fallback := h'.fallback } ∧ fs = [] := by
  cases h with
  | handshaking h₀ fb => exact ⟨h₀, rfl, rfl, rfl⟩

end LinkDrift

/-- The same, except that the link may have left the table at some point. -/
def LinkFate (lockstep : Bool) (x : Option (LinkState X)) (fs : List Bytes)
    (y : Option (LinkState X)) : Prop :=
  ∃ z, LinkDrift lockstep x fs z ∧ (y = z ∨ y = none)

namespace LinkFate
variable {b : Bool} {x y z : Option (LinkState X)} {fs gs : List Bytes}

theorem drift (h : LinkDrift b x fs y) : LinkFate b x fs y := ⟨y, h, .inl rfl⟩

theorem trans (h : LinkFate b x fs y) (h' : LinkFate b y gs z) : LinkFate b x (fs ++ gs) z := by
  obtain ⟨w, hd, hy⟩ := h
  obtain ⟨w', hd', hz⟩ := h'
  rcases hy with rfl | rfl
  · exact ⟨w', hd.trans hd', hz⟩
  · cases hd'
    rw [List.append_nil]
    exact ⟨w, hd, .inr (or_self_iff.mp hz)⟩

theorem of_none (h : LinkFate b none fs y) : y = none ∧ fs = [] := by
  obtain ⟨z, hd, hy⟩ := h
  obtain ⟨rfl, rfl⟩ := hd.of_none
  exact ⟨or_self_iff.mp hy, rfl⟩

theorem up_of {v : UpLink X} (h : LinkFate b x fs (some (.up v))) :
    ∃ u, x = some (.up u) ∧ Sealing b u fs v := by
  obtain ⟨w, hd, rfl | h⟩ := h
  · exact hd.up_of
  · cases h

theorem pending_of {p : PendingLink} (h : LinkFate b x fs (some (.pending p))) :
    x = some (.pending p) := by
  obtain ⟨w, hd, rfl | h⟩ := h
  · exact hd.pending_of.1
  · cases h

theorem handshaking_of {h' : HandshakingLink X} (h : LinkFate b x fs (some (.handshaking h'))) :
    ∃ h₀, x = some (.handshaking h₀) ∧ h' = { h₀ with fallback := h'.fallback } := by
  obtain ⟨w, hd, rfl | h⟩ := h
  · obtain ⟨h₀, hx, he, -⟩ := hd.handshaking_of
    exact ⟨h₀, hx, he⟩
  · cases h

end LinkFate

/-- Actions that neither store anything nor give up a link. -/
def Action.minor : Action → Bool
  | .persist .. | .close .. => false
  | _ => true

def Action.unstored : Action → Bool
  | .persist .. => false
  | _ => true

theorem Action.unstored_of_minor {a : Action} (h : a.minor) : a.unstored := by
  cases a <;> simp_all [Action.minor, Action.unstored]

/-- The writes to the host's store among a list of actions, in order. -/
def stored (as : List Action) : List (String × Option Bytes) :=
  as.filterMap fun
    | .persist key value _ => some (key, value)
    | _ => none

@[simp] theorem stored_nil : stored [] = [] := rfl

@[simp] theorem stored_append (as bs : List Action) : stored (as ++ bs) = stored as ++ stored bs := by
  simp [stored]

@[simp] theorem stored_peerBlob (record : PeerRecord) (as : List Action) :
    stored (Core.peerBlob X record :: as) =
      ("peer/" ++ record.deviceId, some (X.encode record)) :: stored as := rfl

@[simp] theorem stored_ui (e : UiEvent) (as : List Action) : stored (.ui e :: as) = stored as := rfl

@[simp] theorem stored_close (l : LinkId) (r : LinkDownReason) (as : List Action) :
    stored (.close l r :: as) = stored as := rfl

theorem stored_of_unstored {as : List Action} (h : ∀ a ∈ as, a.unstored) : stored as = [] := by
  unfold stored
  rw [List.filterMap_eq_nil_iff]
  intro a ha
  have := h a ha
  cases a <;> simp_all [Action.unstored]

/-- Actions that put nothing on a link, store nothing and give up no link. -/
def Action.silent : Action → Bool
  | .linkSend .. | .persist .. | .close .. => false
  | _ => true

theorem Action.minor_of_silent {a : Action} (h : a.silent) : a.minor := by
  cases a <;> simp_all [Action.silent, Action.minor]

theorem framesOn_silent {a : Action} (h : a.silent) (l : LinkId) : framesOn l [a] = [] := by
  cases a <;> simp_all [Action.silent, framesOn]

/-- The part of the core that only trust decisions and the pairing flow write, and what the
builder and the host fix. -/
structure Trust (X : Crates) where
  identity : Identity X
  config : CoreConfig
  peers : ExtTreeMap DeviceId PeerRecord
  pairing : Option PairingWindow
  pairQuietUntil : ℕ
  pendingPairDials : ExtTreeMap DialToken (TransportId × String)
  capsOut : List String
  capsIn : List String
  serves : EffectSet
  wallMs : ℕ

def Core.trust (c : Core X P) : Trust X where
  identity := c.identity
  config := c.config
  peers := c.peers
  pairing := c.pairing
  pairQuietUntil := c.pairQuietUntil
  pendingPairDials := c.pendingPairDials
  capsOut := c.capsOut
  capsIn := c.capsIn
  serves := c.serves
  wallMs := c.wallMs

/-- What of a step in progress the link, trust and plugin side can see. -/
@[ext] structure View (X : Crates) (P : Type) where
  trust : Trust X
  links : ExtTreeMap LinkId (LinkState X)
  plugins : List P
  actions : List Action
  sends : List (Core X P × PendingSend)

def Exec.view (s : Exec X P) : View X P where
  trust := s.core.trust
  links := s.core.links
  plugins := s.core.plugins
  actions := s.actions
  sends := s.sends

section Projections
variable {t : Exec X P} {v : View X P} (h : t.view = v)
include h

theorem Exec.identity_of : t.core.identity = v.trust.identity :=
  congrArg (fun v => v.trust.identity) h

theorem Exec.peers_of : t.core.peers = v.trust.peers := congrArg (fun v => v.trust.peers) h

theorem Exec.pairing_of : t.core.pairing = v.trust.pairing := congrArg (fun v => v.trust.pairing) h

theorem Exec.links_of : t.core.links = v.links := congrArg View.links h

theorem Exec.plugins_of : t.core.plugins = v.plugins := congrArg View.plugins h

theorem Exec.actions_of : t.actions = v.actions := congrArg View.actions h

theorem Exec.sends_of : t.sends = v.sends := congrArg View.sends h

end Projections

/-- A stretch of a step by what it pushes and what becomes of each link: `R` relates a link's
state before, the frames put on it and its state after, in lockstep or not. -/
def Trace (allowed : Action → Bool)
    (R : Bool → Option (LinkState X) → List Bytes → Option (LinkState X) → Prop)
    (s t : Exec X P) : Prop :=
  ∃ as hist, t.actions = s.actions ++ as ∧ t.sends = s.sends ++ hist ∧
    (∀ a ∈ as, allowed a) ∧ (∀ l, framesOn l as = Core.sealedOn l hist) ∧
    ∀ b : Bool, (b = true → X.SealLaw ∧ ∀ e ∈ hist, e.1.fits e.2) →
      ∀ l, R b (s.core.links[l]?) (framesOn l as) (t.core.links[l]?)

namespace Trace
variable {allowed allowed' : Action → Bool} {s t r : Exec X P}
  {R R' : Bool → Option (LinkState X) → List Bytes → Option (LinkState X) → Prop}

theorem mono (ha : ∀ a, allowed a → allowed' a) (hR : ∀ b x fs y, R b x fs y → R' b x fs y)
    (h : Trace allowed R s t) : Trace allowed' R' s t := by
  obtain ⟨as, hist, hact, hs, hm, hf, hl⟩ := h
  exact ⟨as, hist, hact, hs, fun a h => ha a (hm a h), hf, fun b hb l => hR _ _ _ _ (hl b hb l)⟩

theorem trans (hR : ∀ b x fs y gs z, R b x fs y → R b y gs z → R b x (fs ++ gs) z)
    (h : Trace allowed R s t) (h' : Trace allowed R t r) : Trace allowed R s r := by
  obtain ⟨as, hist, ha, hs, hm, hf, hl⟩ := h
  obtain ⟨as', hist', ha', hs', hm', hf', hl'⟩ := h'
  refine ⟨as ++ as', hist ++ hist', ?_, ?_, ?_, ?_, ?_⟩
  · rw [ha', ha, List.append_assoc]
  · rw [hs', hs, List.append_assoc]
  · intro a hmem
    rcases List.mem_append.mp hmem with h1 | h1
    · exact hm a h1
    · exact hm' a h1
  · intro l
    simp [hf, hf']
  · intro b hb l
    rw [framesOn_append]
    refine hR _ _ _ _ _ _ (hl b ?_ l) (hl' b ?_ l)
    · intro h1
      exact ⟨(hb h1).1, fun e he => (hb h1).2 e (List.mem_append_left _ he)⟩
    · intro h1
      exact ⟨(hb h1).1, fun e he => (hb h1).2 e (List.mem_append_right _ he)⟩

end Trace

/-- A stretch of a step in which no link is gained or lost and no trust decision is made. -/
structure Stir (s s' : Exec X P) : Prop where
  trust : s'.core.trust = s.core.trust
  trace : Trace Action.minor LinkDrift s s'

namespace Stir
variable {s t r : Exec X P}

/-- Only tables that no link and no trust decision depends on differ. -/
theorem of_tables (links : t.core.links = s.core.links) (trust : t.core.trust = s.core.trust)
    (ha : t.actions = s.actions) (hs : t.sends = s.sends) : Stir s t :=
  ⟨trust, [], [], by simpa using ha, by simpa using hs, by simp, by simp,
    fun b _ l => by rw [links]; exact .refl _⟩

theorem trans (h : Stir s t) (h' : Stir t r) : Stir s r :=
  ⟨h'.trust.trans h.trust, h.trace.trans (fun _ _ _ _ _ _ => LinkDrift.trans) h'.trace⟩

theorem up_of (h : Stir s t) {l : LinkId} {v : UpLink X} (hv : t.core.links[l]? = some (.up v)) :
    ∃ u fs, s.core.links[l]? = some (.up u) ∧ Sealing false u fs v := by
  obtain ⟨as, hist, -, -, -, -, hd⟩ := h.trace
  have := hd false (by simp) l
  rw [hv] at this
  obtain ⟨u, hu, hs⟩ := this.up_of
  exact ⟨u, _, hu, hs⟩

theorem up_to (h : Stir s t) {l : LinkId} {p : DeviceId}
    (hup : ∃ u, s.core.links[l]? = some (.up u) ∧ u.peer = p) :
    ∃ v, t.core.links[l]? = some (.up v) ∧ v.peer = p := by
  obtain ⟨u, hu, rfl⟩ := hup
  obtain ⟨as, hist, -, -, -, -, hd⟩ := h.trace
  have hlink := hd false (by simp) l
  rw [hu] at hlink
  generalize t.core.links[l]? = y at hlink ⊢
  cases hlink with
  | up hs => exact ⟨_, rfl, hs.peer_eq⟩

theorem none_of (h : Stir s t) {l : LinkId} (hl : s.core.links[l]? = none) :
    t.core.links[l]? = none := by
  obtain ⟨as, hist, -, -, -, -, hd⟩ := h.trace
  have := hd false (by simp) l
  rw [hl] at this
  exact this.of_none.1

end Stir

/-- An observation of a plugin that only `onPeerConnected` and `onPeerDisconnected` change. -/
structure Plugin.Quiet [Plugin P] {α : Type} (obs : P → α) : Prop where
  message : ∀ p cx peer env, obs (Plugin.onMessage p cx peer env).1 = obs p
  command : ∀ p cx peer ty body, obs (Plugin.onLocal p cx peer ty body).1 = obs p
  effect : ∀ p cx token result, obs (Plugin.onEffectResult p cx token result).1 = obs p
  listening : ∀ p cx transfer endpoint, obs (Plugin.onBulkListening p cx transfer endpoint).1 = obs p
  finished : ∀ p cx transfer ok detail,
    obs (Plugin.onBulkFinished p cx transfer ok detail).1 = obs p
  tick : ∀ p cx, obs (Plugin.onTick p cx).1 = obs p

/-- A stretch in which, besides, no plugin hears of a peer coming or going. -/
structure Drift [Plugin P] (s s' : Exec X P) : Prop extends Stir s s' where
  plugins : ∀ {α : Type} (obs : P → α), Plugin.Quiet obs →
    s'.core.plugins.map obs = s.core.plugins.map obs

namespace Drift
variable [Plugin P] {s t r : Exec X P}

theorem identity (h : Drift s t) : t.core.identity = s.core.identity :=
  congrArg Trust.identity h.trust

theorem config (h : Drift s t) : t.core.config = s.core.config := congrArg Trust.config h.trust

theorem peers (h : Drift s t) : t.core.peers = s.core.peers := congrArg Trust.peers h.trust

theorem pairing (h : Drift s t) : t.core.pairing = s.core.pairing := congrArg Trust.pairing h.trust

theorem of_view (h : t.view = s.view) : Drift s t where
  toStir := .of_tables (congrArg View.links h) (congrArg View.trust h) (congrArg View.actions h)
    (congrArg View.sends h)
  plugins _ _ := by rw [show t.core.plugins = s.core.plugins from congrArg View.plugins h]

theorem refl (s : Exec X P) : Drift s s := of_view rfl

theorem trans (h : Drift s t) (h' : Drift t r) : Drift s r where
  toStir := h.toStir.trans h'.toStir
  plugins obs ho := (h'.plugins obs ho).trans (h.plugins obs ho)

theorem foldl {α : Type} {f : Exec X P → α → Exec X P} (hf : ∀ s a, Drift s (f s a))
    (as : List α) (s : Exec X P) : Drift s (as.foldl f s) := by
  induction as generalizing s with
  | nil => exact refl s
  | cons a as ih => exact (hf s a).trans (ih _)

theorem push (s : Exec X P) (a : Action) (h : a.silent) : Drift s (s.push a) where
  toStir := ⟨rfl, [a], [], rfl, by simp [Exec.push], by simpa using Action.minor_of_silent h,
    by simp [framesOn_silent h], fun b _ l => by rw [framesOn_silent h]; exact .refl _⟩
  plugins _ _ := rfl

theorem ui (s : Exec X P) (e : UiEvent) : Drift s (s.ui e) := push s (.ui e) rfl

end Drift
end Acrylius
