import Acrylius.Core.Inversion

/-! Pairing by itself. What a step does to the pairing slot, the quiet time, the dials made to
pair and the links in a pairing handshake is settled by the state before it and its event; the
rest of the core neither reads the answer nor changes it. -/
namespace Acrylius
open Proto Std

variable {X : Crates} {P : Type}

/-- Where pairing stands on a device: the slot and the quiet time, the dials made to pair, the
deadlines of the links in a pairing handshake, and whether this step has sent a message of one. -/
@[ext] structure Pairs where
  slot : Option PairingWindow
  quiet : ℕ
  dials : ExtTreeMap DialToken (TransportId × String)
  shaking : LinkId → Option ℕ
  spoke : Bool

namespace Pairs

/-- Whatever the link was doing, it is not in a pairing handshake any more. -/
def drop (p : Pairs) (l : LinkId) : Pairs := { p with shaking := Function.update p.shaking l none }

def shake (p : Pairs) (l : LinkId) (deadline : ℕ) : Pairs :=
  { p with shaking := Function.update p.shaking l (some deadline) }

theorem drop_of_none {p : Pairs} {l : LinkId} (h : p.shaking l = none) : p.drop l = p := by
  unfold drop
  rw [← h, Function.update_eq_self]

theorem shake_of_some {p : Pairs} {l : LinkId} {d : ℕ} (h : p.shaking l = some d) :
    p.shake l d = p := by
  unfold shake
  rw [← h, Function.update_eq_self]

@[simp] theorem drop_shaking_self (p : Pairs) (l : LinkId) : (p.drop l).shaking l = none :=
  Function.update_self ..

@[simp] theorem drop_drop (p : Pairs) (l : LinkId) : (p.drop l).drop l = p.drop l :=
  drop_of_none (drop_shaking_self p l)

@[simp] theorem drop_shake (p : Pairs) (l : LinkId) (d : ℕ) : (p.drop l).shake l d = p.shake l d := by
  simp [drop, shake]

end Pairs

/-- What a step means for pairing. -/
inductive Bid where
  /-- Nothing. -/
  | aside
  /-- A link is opened, fails or closes, and nothing else is looked at. -/
  | closed (l : LinkId)
  /-- A person asks to pair, and the slot is free. -/
  | claimed (d : DialToken) (via : TransportId × String)
  /-- A dial made to pair is answered, and the opener goes out. -/
  | dialled (d : DialToken) (l : LinkId)
  /-- A dial made to pair is answered, and the opener cannot be made. -/
  | undialled (d : DialToken) (l : LinkId)
  | dialLost (d : DialToken)
  /-- A stranger's opener is admitted and answered. -/
  | answered (l : LinkId) (deadline : ℕ)
  /-- A stranger's opener is admitted and makes no sense. -/
  | garbled (l : LinkId)
  /-- A handshake message is answered, and then this. -/
  | replied (b : Bid)
  /-- The handshake fails. -/
  | broken (l : LinkId)
  /-- The handshake is complete and the digits are shown. -/
  | awaited (l : LinkId) (a : AwaitingConfirm)
  | hungUp (l : LinkId)
  | denied (l : LinkId)
  | confirmed (l : LinkId)
  /-- A confirmed record that holds no key. -/
  | unkeyed
  | ticked

namespace Bid

/-- A pairing window past its deadline is closed, and with it the link somebody was to confirm. -/
def lapse (config : CoreConfig) (nowMs : ℕ) (p : Pairs) : Pairs :=
  match p.slot with
  | none => p
  | some w =>
    if nowMs < w.deadline then p
    else
      let p := w.awaiting.elim p fun a => p.drop a.link
      { p with
        slot := none
        quiet := nowMs + config.pairCooldownMs }

/-- Where pairing stands afterwards. -/
def apply (config : CoreConfig) (nowMs : ℕ) (p : Pairs) : Bid → Pairs
  | .aside => p
  | .closed l => p.drop l
  | .claimed d via => { p with
      slot := some ⟨nowMs + config.pairingWindowMs, none⟩
      dials := p.dials.insert d via }
  | .dialled d l => { p.shake l (nowMs + config.handshakeTimeoutMs) with
      dials := p.dials.erase d
      spoke := true }
  | .undialled d l => { p.drop l with dials := p.dials.erase d }
  | .dialLost d => { p with
      slot := none
      dials := p.dials.erase d }
  | .answered l deadline => { p.shake l deadline with
      slot := some ⟨nowMs + config.pairingWindowMs, none⟩
      spoke := true }
  | .garbled l => { p.drop l with quiet := nowMs + config.pairCooldownMs }
  | .replied b => { b.apply config nowMs p with spoke := true }
  | .broken l => { p.drop l with
      slot := none
      quiet := nowMs + config.pairCooldownMs }
  | .awaited l a => { p.drop l with slot := some ⟨nowMs + config.pairingWindowMs, some a⟩ }
  | .hungUp l => { p.drop l with slot := none }
  | .denied l => { p.drop l with
      slot := none
      quiet := nowMs + config.pairDeniedCooldownMs }
  | .confirmed l => { p.drop l with slot := none }
  | .unkeyed => { p with slot := p.slot.map fun w => { w with awaiting := none } }
  | .ticked =>
    let p := lapse config nowMs p
    { p with shaking := fun l => (p.shaking l).filter (nowMs < ·) }

/-- What has been checked by the time an event means this. -/
def Fits (p : Pairs) (nowMs : ℕ) : Bid → Prop
  | .aside | .closed _ | .ticked => True
  | .claimed _ _ => p.slot = none ∧ p.quiet ≤ nowMs
  | .dialled d _ | .undialled d _ | .dialLost d => d ∈ p.dials
  | .answered l _ | .garbled l => p.slot = none ∧ p.quiet ≤ nowMs ∧ p.shaking l = none
  | .replied b => b.Fits p nowMs
  | .broken l | .hungUp l => (p.shaking l).isSome
  | .awaited l _ => (p.shaking l).isSome ∧ ∃ deadline, p.slot = some ⟨deadline, none⟩
  | .denied l | .confirmed l => ∃ deadline a, p.slot = some ⟨deadline, some a⟩ ∧ a.link = l
  | .unkeyed => False

/-- Having spoken makes no difference to anything else. -/
theorem apply_spoke (config : CoreConfig) (nowMs : ℕ) (p : Pairs) (b : Bid) :
    b.apply config nowMs { p with spoke := true } =
      { b.apply config nowMs p with spoke := true } := by
  cases b with
  | replied b =>
    have := apply_spoke config nowMs p b
    simp only [apply, this]
  | ticked =>
    have hlapse : lapse config nowMs { p with spoke := true } =
        { lapse config nowMs p with spoke := true } := by
      obtain ⟨slot, quiet, dials, shaking, spoke⟩ := p
      unfold lapse
      rcases slot with _ | ⟨deadline, _ | a⟩
      · rfl
      · dsimp only
        split <;> rfl
      · dsimp only
        split <;> rfl
    simp only [apply, hlapse]
  | _ => rfl

end Bid

def LinkState.pairDeadline : LinkState X → Option ℕ
  | .handshaking h => if h.pairingFlow then some h.deadline else none
  | _ => none

def Action.isPairFrame : Action → Bool
  | .linkSend _ msg => (Frame.split msg).any (·.1 = .pairHandshake)
  | _ => false

/-- A record somebody is asked to confirm holds a key. -/
def Core.Keyed (c : Core X P) : Prop :=
  ∀ deadline a, c.pairing = some ⟨deadline, some a⟩ → (a.record.id X).isSome

namespace Exec

def pairs (s : Exec X P) : Pairs where
  slot := s.core.pairing
  quiet := s.core.pairQuietUntil
  dials := s.core.pendingPairDials
  shaking l := (s.core.links[l]?).bind LinkState.pairDeadline
  spoke := s.actions.any Action.isPairFrame

/-- What a pairing handshake that has read a message comes to. -/
def bidAfterRead (s : Exec X P) (l : LinkId) (h : HandshakingLink X) (hs : Handshake X)
    (payload : Bytes) : Bid :=
  if !hs.isComplete then .aside
  else match hs.handshakeHash, hs.peerStatic with
    | .ok hash, some pk =>
      match X.decode Hello payload with
      | none => .broken l
      | some hello =>
        match s.core.pairing with
        | some ⟨_, none⟩ => .awaited l {
            link := l
            record := pairedRecord X hash pk hello
            sas := Pairing.sas X hash
            via := h.via }
        | _ => .closed l
    | _, _ => .closed l

/-- A frame on a link in a pairing handshake. -/
def bidOnReply (s : Exec X P) (l : LinkId) (h : HandshakingLink X) (kind : FrameKind)
    (body : Bytes) : Bid :=
  if kind ≠ .pairHandshake then .closed l
  else match h.hs.read body with
    | .error _ => .broken l
    | .ok (payload, hs) =>
      if hs.isMyTurn then
        match hs.write (X.encode s.core.hello) with
        | .ok (_, hs) => .replied (s.bidAfterRead l h hs payload)
        | .error _ => .closed l
      else s.bidAfterRead l h hs payload

/-- A stranger's first pairing message. -/
def bidOnOpener (s : Exec X P) (nowMs : ℕ) (seed : X.Seed) (l : LinkId) (p : PendingLink)
    (body : Bytes) : Bid :=
  match s.core.whyNotPair nowMs, Handshake.pairResponder s.core.identity seed with
  | none, .ok hs =>
    match hs.read body with
    | .error _ => .garbled l
    | .ok (_, hs) =>
      match hs.write (X.encode s.core.hello) with
      | .error _ => .closed l
      | .ok _ => .answered l p.deadline
  | _, _ => .closed l

def bidOnFrame (s : Exec X P) (nowMs : ℕ) (seed : X.Seed) (l : LinkId) (msg : Bytes) : Bid :=
  match Frame.split msg, s.core.links[l]? with
  | some (.pairHandshake, body), some (.pending p) => s.bidOnOpener nowMs seed l p body
  | some (kind, body), some (.handshaking h) =>
    if h.pairingFlow then s.bidOnReply l h kind body else .closed l
  | _, _ => .closed l

def canOpen (s : Exec X P) (seed : X.Seed) : Bool :=
  match Handshake.pairInitiator s.core.identity seed with
  | .error _ => false
  | .ok hs =>
    match hs.write [] with
    | .error _ => false
    | .ok _ => true

/-- What the event means for pairing, in the state the step starts from. -/
def bid (s : Exec X P) (nowMs : ℕ) (seed : X.Seed) : Event → Bid
  | .linkUp l _ dial =>
    match dial.bind fun d => (s.core.pendingPairDials[d]?).map (d, ·) with
    | some (d, _) =>
      match s.canOpen seed with
      | true => .dialled d l
      | false => .undialled d l
    | none => .closed l
  | .linkRecv l msg => s.bidOnFrame nowMs seed l msg
  | .linkDown l _ => if (s.pairs.shaking l).isSome then .hungUp l else .closed l
  | .dialFailed d _ => if d ∈ s.core.pendingPairDials then .dialLost d else .aside
  | .tick => .ticked
  | .localCommand (.requestPairing transport addr) =>
    if (s.core.whyNotPair nowMs).isNone then .claimed (s.core.nextDial + 1) (transport, addr)
    else .aside
  | .localCommand (.confirmPairing accept) =>
    match s.core.pairing with
    | some ⟨_, some a⟩ =>
      if !accept then .denied a.link
      else if (a.record.id X).isSome then .confirmed a.link
      else .unkeyed
    | _ => .aside
  | _ => .aside

theorem whyNotPair_quiet {nowMs : ℕ} (s : Exec X P) (h : s.core.whyNotPair nowMs = none) :
    s.pairs.slot = none ∧ s.pairs.quiet ≤ nowMs := by
  have hfree : s.core.pairing = none := whyNotPair_eq_none h
  refine ⟨hfree, ?_⟩
  unfold Core.whyNotPair at h
  rw [hfree] at h
  split at h
  · cases h
  · dsimp only at h
    split at h
    · cases h
    · exact Nat.le_of_not_lt ‹_›

theorem bidAfterRead_fits (s : Exec X P) (nowMs : ℕ) {l : LinkId} {h : HandshakingLink X}
    (hl : (s.pairs.shaking l).isSome) (hs : Handshake X) (payload : Bytes) :
    (s.bidAfterRead l h hs payload).Fits s.pairs nowMs := by
  unfold bidAfterRead
  split
  · trivial
  · split
    · split
      · exact hl
      · split
        · exact ⟨hl, _, ‹_›⟩
        · trivial
    · trivial

theorem bidOnReply_fits (s : Exec X P) (nowMs : ℕ) {l : LinkId} {h : HandshakingLink X}
    (hl : (s.pairs.shaking l).isSome) (kind : FrameKind) (body : Bytes) :
    (s.bidOnReply l h kind body).Fits s.pairs nowMs := by
  unfold bidOnReply
  split
  · trivial
  · split
    · exact hl
    · split
      · split
        · exact bidAfterRead_fits s nowMs hl _ _
        · trivial
      · exact bidAfterRead_fits s nowMs hl _ _

theorem bidOnFrame_fits (s : Exec X P) (nowMs : ℕ) (seed : X.Seed) (l : LinkId) (msg : Bytes) :
    (s.bidOnFrame nowMs seed l msg).Fits s.pairs nowMs := by
  unfold bidOnFrame
  split
  · rename_i body p _ hl
    have hnone : s.pairs.shaking l = none := by simp [pairs, hl, LinkState.pairDeadline]
    unfold bidOnOpener
    split
    · rename_i hs hwhy _
      obtain ⟨hslot, hquiet⟩ := whyNotPair_quiet s hwhy
      split
      · exact ⟨hslot, hquiet, hnone⟩
      · split
        · trivial
        · exact ⟨hslot, hquiet, hnone⟩
    · trivial
  · rename_i kind body h _ hl
    split
    · rename_i hflow
      refine bidOnReply_fits s nowMs ?_ kind body
      simp [pairs, hl, LinkState.pairDeadline, hflow]
    · trivial
  · trivial

theorem bid_fits (s : Exec X P) (hkeyed : s.core.Keyed) (nowMs : ℕ) (seed : X.Seed) (e : Event) :
    (s.bid nowMs seed e).Fits s.pairs nowMs := by
  unfold bid
  split
  · split
    · rename_i d via hdial
      have hd : d ∈ s.core.pendingPairDials := by
        obtain ⟨d', -, hd'⟩ := Option.bind_eq_some_iff.mp hdial
        obtain ⟨via', hvia, he⟩ := Option.map_eq_some_iff.mp hd'
        cases he
        exact ExtTreeMap.mem_iff_isSome_getElem?.mpr (by simp [hvia])
      split
      · exact hd
      · exact hd
    · trivial
  · exact bidOnFrame_fits s nowMs seed _ _
  · split
    · assumption
    · trivial
  · split
    · assumption
    · trivial
  · trivial
  · split
    · rename_i hwhy
      exact whyNotPair_quiet s (Option.isNone_iff_eq_none.mp hwhy)
    · trivial
  · split
    · rename_i deadline a hslot
      split
      · exact ⟨deadline, a, hslot, rfl⟩
      · split
        · exact ⟨deadline, a, hslot, rfl⟩
        · exact ‹¬ (a.record.id X).isSome› (hkeyed deadline a hslot)
    · trivial
  · trivial

end Exec

namespace Core

/-- Where pairing stands between steps. -/
def pairs (c : Core X P) : Pairs := Exec.pairs ⟨c, [], [], []⟩

def bid (c : Core X P) (i : Input X) : Bid :=
  (c.start i).bid i.now.monotonicMs i.seed i.event

theorem bid_fits {c : Core X P} (h : c.Keyed) (i : Input X) :
    (c.bid i).Fits c.pairs i.now.monotonicMs :=
  (c.start i).bid_fits h _ _ _

end Core
end Acrylius
