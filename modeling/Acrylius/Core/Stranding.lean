import Acrylius.Core.Answers
import Acrylius.Core.Heartbeat

/-! The steps that leave a paired peer unreached with nothing to wait for: what a step ends of all
the core waits for, and what it makes the core wait for anew. -/
namespace Acrylius
open Proto Std

variable {X : Crates} {P : Type}

namespace Core

/-- The core waits for nothing, beside a paired peer with an address on file and no session. -/
structure Stranded (c : Core X P) : Prop where
  idle : ∀ w, c.deadline w = none
  peer : ∃ p, p ∈ c.peers ∧ p ∈ c.addrs ∧ ¬ c.Reaches p

def pairStarts (c : Core X P) (seed : X.Seed) : Bool :=
  match Handshake.pairInitiator c.identity seed with
  | .error _ => false
  | .ok hs => (hs.write []).isOk

def pairAnswers (c : Core X P) (nowMs : ℕ) (seed : X.Seed) (body : Bytes) : Bool :=
  (c.whyNotPair nowMs).isNone && match Handshake.pairResponder c.identity seed with
    | .error _ => false
    | .ok hs =>
      match hs.read body with
      | .error _ => false
      | .ok (_, hs) => (hs.write (X.encode c.hello)).isOk

/-- A handshake that has read a frame, once it has sent the message it may owe. -/
def turned (c : Core X P) (pairingFlow : Bool) (hs : Handshake X) : Option (Handshake X) :=
  if pairingFlow && hs.isMyTurn then
    match hs.write (X.encode c.hello) with
    | .ok (_, hs) => some hs
    | .error _ => none
  else some hs

def asks (c : Core X P) (hs : Handshake X) (payload : Bytes) : Bool :=
  hs.handshakeHash.isOk && hs.peerStatic.isSome && (X.decode Hello payload).isSome &&
    c.pairing.any (·.awaiting.isNone)

/-- A completed pairing handshake brings no `Hello`, and the pairing is given up. -/
def givesUp (hs : Handshake X) (payload : Bytes) : Bool :=
  hs.isComplete && hs.handshakeHash.isOk && hs.peerStatic.isSome && (X.decode Hello payload).isNone

/-- A frame leads a handshake on, to its next message or to a person. -/
def leadsOn (c : Core X P) (h : HandshakingLink X) (kind : FrameKind) (body : Bytes) : Bool :=
  kind = (if h.pairingFlow then .pairHandshake else .sessionHandshake) &&
    match h.hs.read body with
    | .error _ => false
    | .ok (payload, hs) => (c.turned h.pairingFlow hs).any fun hs =>
        !hs.isComplete || h.pairingFlow && c.asks hs payload

def breaks (c : Core X P) (h : HandshakingLink X) (kind : FrameKind) (body : Bytes) : Bool :=
  h.pairingFlow && kind = .pairHandshake && match h.hs.read body with
    | .error _ => true
    | .ok (payload, hs) => (c.turned true hs).any fun hs => givesUp hs payload

end Core

namespace Exec

/-- What the event ends, of all the core can wait for. An established link it takes away counts. -/
def Ends (s : Exec X P) (i : Core.Input X) (w : Wait) : Prop :=
  match i.event, w with
  | .linkUp l _ _, .link l' => l' = l
  | .linkUp _ _ dial, .dial d => dial = some d ∧ d ∉ s.core.pendingPairDials
  | .linkRecv l msg, .link l' => l' = l ∧ (Frame.split msg = none ∨ s.core.isUp l = false)
  | .linkRecv l msg, .pairing => ∃ kind body h, Frame.split msg = some (kind, body) ∧
      s.core.links[l]? = some (.handshaking h) ∧ s.core.breaks h kind body
  | .linkDown l _, .link l' => l' = l ∧ s.core.isUp l = false
  | .linkDown l _, .pairing => ∃ h, s.core.links[l]? = some (.handshaking h) ∧ h.pairingFlow
  | .dialFailed d _, .dial d' => d' = d ∧ d ∉ s.core.pendingPairDials
  | .dialFailed d _, .pairing => d ∈ s.core.pendingPairDials
  | .bulkStarted t, .bulk t' => t' = t
  | .bulkFinished t _ _, .bulk t' => t' = t
  | .localCommand (.confirmPairing false), .pairing => ∃ w a, s.core.pairing = some w ∧
      w.awaiting = some a
  | .localCommand (.confirmPairing false), .link l => ∃ w a, s.core.pairing = some w ∧
      w.awaiting = some a ∧ l = a.link
  | _, _ => False

/-- An attempt that failed goes on: there is a route left, and no session yet. -/
def GoesOn (s : Exec X P) (a : PeerDial) : Prop := a.routes ≠ [] ∧ ¬ s.core.Reaches a.peer

/-- The event gives the core something new to wait for: a handshake that is begun, answered or led
on, or a dial of the next route. -/
def Starts (s : Exec X P) (i : Core.Input X) : Prop :=
  match i.event with
  | .linkUp _ _ dial =>
    match dial.bind fun d => s.core.pendingPairDials[d]?,
      dial.bind fun d => s.core.pendingPeerDials[d]? with
    | some _, _ => s.core.pairStarts i.seed
    | none, some e => s.core.sessionStarts i.seed e.2.peer
    | none, none => True
  | .linkRecv l msg => ∃ kind body, Frame.split msg = some (kind, body) ∧
      ((∃ q, s.core.links[l]? = some (.pending q)) ∧ kind = .pairHandshake ∧
          s.core.pairAnswers i.now.monotonicMs i.seed body ∨
        ∃ h, s.core.links[l]? = some (.handshaking h) ∧ s.core.leadsOn h kind body)
  | .linkDown l _ => ∃ h a, s.core.links[l]? = some (.handshaking h) ∧ h.fallback = some a ∧
      s.GoesOn a
  | .dialFailed d _ => d ∉ s.core.pendingPairDials ∧ ∃ e, s.core.pendingPeerDials[d]? = some e ∧
      s.GoesOn e.2
  | _ => False

def Opens (s : Exec X P) (i : Core.Input X) (p : DeviceId) (l : LinkId) : Prop :=
  ∃ hello record' reply u, Established i s l hello record' reply u ∧ u.peer = p

/-- A paired peer whose address is on file, or told in this event, and every session with which the
event ends. -/
structure Loses (s : Exec X P) (i : Core.Input X) (p : DeviceId) : Prop where
  paired : p ∈ s.core.peers
  address : p ∈ s.core.addrs ∨
    ∃ transport addr, i.event = .localCommand (.setPeerAddress p transport addr)
  down : ∀ l, s.core.UpWith p l → s.Ends i (.link l)
  shut : ∀ l, ¬ s.Opens i p l

section Commands
attribute [local simp] Ends Starts
variable {s : Exec X P} {i : Core.Input X} {cmd : LocalCommand}

theorem not_starts_of_local (he : i.event = .localCommand cmd) : ¬ s.Starts i := by
  simp [he]

/-- No command but a denial ends anything. -/
theorem not_ends_of_local (he : i.event = .localCommand cmd) (hcmd : cmd ≠ .confirmPairing false)
    (w : Wait) : ¬ s.Ends i w := by
  cases cmd with
  | confirmPairing accept =>
    cases accept with
    | false => exact absurd rfl hcmd
    | true => cases w <;> simp [he]
  | _ => cases w <;> simp [he]

end Commands

end Exec

/-- The event ends all that the core waits for, gives it nothing new to wait for, and leaves a
paired peer with an address on file without a session. -/
structure Core.Strands (c : Core X P) (i : Core.Input X) : Prop where
  ends : ∀ w, (c.deadline w).isSome → (c.start i).Ends i w
  stops : ¬ (c.start i).Starts i
  peer : ∃ p, (c.start i).Loses i p

namespace Core
variable {c d e : Core X P}

/-- The core waits for as much, and reaches as much, as before: no wait is lost, no peer paired, no
address learned and no session lost. -/
structure Grows (c d : Core X P) : Prop where
  waits : ∀ w, (c.deadline w).isSome → (d.deadline w).isSome
  peers : ∀ p, p ∈ d.peers → p ∈ c.peers
  addrs : ∀ p, p ∈ d.addrs → p ∈ c.addrs
  reaches : ∀ p, c.Reaches p → d.Reaches p

/-- The core waits for the same and reaches the same as before. -/
structure Keeps (c d : Core X P) : Prop where
  waits : ∀ w, (d.deadline w).isSome ↔ (c.deadline w).isSome
  up : ∀ p l, d.UpWith p l ↔ c.UpWith p l
  peers : ∀ p, p ∈ d.peers ↔ p ∈ c.peers
  addrs : ∀ p, p ∈ d.addrs ↔ p ∈ c.addrs

namespace Keeps

theorem refl (c : Core X P) : c.Keeps c := ⟨fun _ => .rfl, fun _ _ => .rfl, fun _ => .rfl, fun _ => .rfl⟩

theorem trans (h : c.Keeps d) (h' : d.Keeps e) : c.Keeps e where
  waits w := (h'.waits w).trans (h.waits w)
  up p l := (h'.up p l).trans (h.up p l)
  peers p := (h'.peers p).trans (h.peers p)
  addrs p := (h'.addrs p).trans (h.addrs p)

theorem grows (h : c.Keeps d) : c.Grows d where
  waits w := (h.waits w).mpr
  peers p := (h.peers p).mp
  addrs p := (h.addrs p).mp
  reaches _ := fun ⟨l, hl⟩ => ⟨l, (h.up _ l).mpr hl⟩

/-- Only tables no wait, session, pairing or address is kept in differ. -/
theorem of_same (waits : d.deadline = c.deadline) (links : d.links = c.links)
    (peers : d.peers = c.peers) (addrs : d.addrs = c.addrs) : c.Keeps d where
  waits w := by rw [waits]
  up p l := by rw [UpWith, UpWith, links]
  peers p := by rw [peers]
  addrs p := by rw [addrs]

/-- Moving ciphers on and changing what nothing waits for keeps all there is. -/
theorem of_still {s t : Exec X P} (h : Still s t) (pairing : t.core.pairing = s.core.pairing)
    (bulk : t.core.bulkWait = s.core.bulkWait) (wake : t.core.pluginWake = s.core.pluginWake)
    (peers : ∀ p, p ∈ t.core.peers ↔ p ∈ s.core.peers) (addrs : t.core.addrs = s.core.addrs) :
    s.core.Keeps t.core where
  waits w := by
    cases w with
    | plugins => simp [deadline, wake]
    | reconnect => simp [deadline, h.reconnectAt]
    | dial d => simp [deadline, h.peerDials]
    | pairing => simp [deadline, pairing]
    | bulk t => simp [deadline, bulk]
    | link l =>
      rcases h.links l with heq | ⟨u, session, hx, hy⟩
      · simp [deadline, heq]
      · simp [deadline, hx, hy, LinkState.deadline]
  up p l := upWith_iff (h.links l)
  peers := peers
  addrs p := by rw [addrs]

end Keeps

namespace Grows

theorem of_same (waits : d.deadline = c.deadline) (links : d.links = c.links)
    (peers : d.peers = c.peers) (addrs : d.addrs = c.addrs) : c.Grows d :=
  (Keeps.of_same waits links peers addrs).grows

theorem refl (c : Core X P) : c.Grows c := .of_same rfl rfl rfl rfl

theorem push (s : Exec X P) (a : Action) : s.core.Grows (s.push a).core := .of_same rfl rfl rfl rfl

theorem trans (h : c.Grows d) (h' : d.Grows e) : c.Grows e where
  waits w hw := h'.waits w (h.waits w hw)
  peers p hp := h.peers p (h'.peers p hp)
  addrs p hp := h.addrs p (h'.addrs p hp)
  reaches p hp := h'.reaches p (h.reaches p hp)

theorem foldl {α : Type} {f : Exec X P → α → Exec X P}
    (hf : ∀ (s : Exec X P) a, s.core.Grows (f s a).core)
    (as : List α) (s : Exec X P) : s.core.Grows (as.foldl f s).core := by
  induction as generalizing s with
  | nil => exact .refl _
  | cons a as ih => exact (hf s a).trans (ih _)

/-- Where nothing is lost, nobody is stranded who was not before. -/
theorem stranded (h : c.Grows d) (hd : d.Stranded) : c.Stranded := by
  obtain ⟨hidle, p, hp, haddr, hdown⟩ := hd
  constructor
  · intro w
    by_contra hw
    have hsome := h.waits w (Option.isSome_iff_ne_none.mpr hw)
    rw [hidle w] at hsome
    cases hsome
  · exact ⟨p, h.peers p hp, h.addrs p haddr, fun hr => hdown (h.reaches p hr)⟩

end Grows

/-- The core waits for what it waited for, but for what is ended, and its sessions are those it had
on links that stay, and those that are opened. -/
structure Remains (ends : Wait → Prop) (opens : DeviceId → LinkId → Prop) (c d : Core X P) :
    Prop where
  waits : ∀ w, (d.deadline w).isSome ↔ (c.deadline w).isSome ∧ ¬ ends w
  up : ∀ p l, d.UpWith p l ↔ c.UpWith p l ∧ ¬ ends (.link l) ∨ opens p l
  peers : ∀ p, p ∈ d.peers ↔ p ∈ c.peers
  addrs : ∀ p, p ∈ d.addrs ↔ p ∈ c.addrs

namespace Remains
variable {ends : Wait → Prop} {opens : DeviceId → LinkId → Prop}

theorem keeps (h : Remains ends opens c d) (h' : d.Keeps e) : Remains ends opens c e where
  waits w := (h'.waits w).trans (h.waits w)
  up p l := (h'.up p l).trans (h.up p l)
  peers p := (h'.peers p).trans (h.peers p)
  addrs p := (h'.addrs p).trans (h.addrs p)

theorem stranded_iff (h : Remains ends opens c d) : d.Stranded ↔
    (∀ w, (c.deadline w).isSome → ends w) ∧ ∃ p, p ∈ c.peers ∧ p ∈ c.addrs ∧
      (∀ l, c.UpWith p l → ends (.link l)) ∧ ∀ l, ¬ opens p l := by
  have idle_iff : (∀ w, d.deadline w = none) ↔ ∀ w, (c.deadline w).isSome → ends w := by
    refine forall_congr' fun w => ?_
    rw [← Option.not_isSome_iff_eq_none, h.waits, not_and_not_right]
  have down_iff : ∀ p, ¬ d.Reaches p ↔
      (∀ l, c.UpWith p l → ends (.link l)) ∧ ∀ l, ¬ opens p l := by
    intro p
    rw [← forall_and, Core.Reaches, not_exists]
    refine forall_congr' fun l => ?_
    have hup := h.up p l
    rw [Core.UpWith] at hup
    rw [hup, not_or, not_and_not_right]
  constructor
  · rintro ⟨hidle, p, hp, haddr, hdown⟩
    exact ⟨idle_iff.mp hidle, p, (h.peers p).mp hp, (h.addrs p).mp haddr, (down_iff p).mp hdown⟩
  · rintro ⟨hends, p, hp, haddr, hdown⟩
    exact ⟨idle_iff.mpr hends, p, (h.peers p).mpr hp, (h.addrs p).mpr haddr, (down_iff p).mpr hdown⟩

end Remains
end Core

/-- A call after which a plugin has asked for no other wake-up and no other channel. -/
def Cx.Calm (cx cx' : Cx) : Prop := cx'.wakeAt = cx.wakeAt ∧ cx'.bulk = cx.bulk

/-- Neither a peer that connects nor a transfer that ends makes a plugin ask for a wake-up or a
channel. -/
structure Plugin.Calm (P : Type) [Plugin P] : Prop where
  connected : ∀ (p : P) (cx : Cx) (peer : DeviceId), cx.Calm (Plugin.onPeerConnected p cx peer).2
  finished : ∀ (p : P) (cx : Cx) (t : TransferId) (ok : Bool) (detail : String),
    cx.Calm (Plugin.onBulkFinished p cx t ok detail).2

theorem forEachPlugin_calm {hook : P → Cx → P × Cx} (hhook : ∀ (p : P) (cx : Cx), cx.Calm (hook p cx).2)
    (ps : List P) (cx : Cx) : cx.Calm (forEachPlugin hook ps cx).2 := by
  induction ps generalizing cx with
  | nil => exact ⟨rfl, rfl⟩
  | cons p ps ih =>
    have hfirst := hhook p cx
    have hrest := ih (hook p cx).2
    exact ⟨hrest.1.trans hfirst.1, hrest.2.trans hfirst.2⟩

namespace Exec

theorem dispatchSend_keeps (s : Exec X P) (m : PendingSend) :
    s.core.Keeps (s.dispatchSend m).core := by
  have same : (s.dispatchSend m).core.pairing = s.core.pairing ∧
      (s.dispatchSend m).core.bulkWait = s.core.bulkWait ∧
      (s.dispatchSend m).core.pluginWake = s.core.pluginWake ∧
      (s.dispatchSend m).core.peers = s.core.peers ∧
      (s.dispatchSend m).core.addrs = s.core.addrs := by
    unfold dispatchSend
    dsimp only
    split
    · exact ⟨rfl, rfl, rfl, rfl, rfl⟩
    · split
      · exact ⟨rfl, rfl, rfl, rfl, rfl⟩
      · split
        · split <;> exact ⟨rfl, rfl, rfl, rfl, rfl⟩
        · exact ⟨rfl, rfl, rfl, rfl, rfl⟩
  obtain ⟨hpair, hbulk, hwake, hpeers, haddrs⟩ := same
  exact .of_still (dispatchSend_still s m) hpair hbulk hwake (fun p => by rw [hpeers]) haddrs

theorem dispatchBulk_grows (s : Exec X P) (nowMs : ℕ) (b : BulkRequest) :
    s.core.Grows (s.dispatchBulk nowMs b).core := by
  have key : ∀ (peer offerer : DeviceId) (t : TransferId) (n : ℕ)
      (start : Exec X P → Bytes → Exec X P), (∀ (s : Exec X P) k, s.core.Grows (start s k).core) →
      s.core.Grows (s.withBulkKey peer t offerer n start).core := by
    intro peer offerer t n start h
    unfold withBulkKey
    split
    · exact .of_same rfl rfl rfl rfl
    · split
      · exact .of_same rfl rfl rfl rfl
      · exact h s _
  cases b <;> dsimp only [dispatchBulk]
  case cancel t => exact .refl s.core
  case send => exact key _ _ _ _ _ fun s _ => .refl s.core
  case listen peer t n bytes =>
    refine key _ _ _ _ _ fun s k => ⟨fun w hw => ?_, fun _ h => h, fun _ h => h, fun _ h => h⟩
    cases w with
    | bulk t' =>
      change (s.core.bulkWait.insert t (nowMs + bulkDialWaitMs))[t']?.isSome
      rw [ExtTreeMap.getElem?_insert]
      split
      · rfl
      · exact hw
    | _ => exact hw

theorem drainCx_grows (s : Exec X P) (cx : Cx) : s.core.Grows (s.drainCx cx).core := by
  have told : s.core.Grows (cx.ui.foldl ui s).core :=
    .foldl (fun s e => .push s (.ui e)) _ _
  have acted : ∀ r : Exec X P,
      r.core.Grows (cx.effects.foldl (fun s e => s.push (.effect e.1 e.2)) r).core :=
    .foldl (fun s e => .push s _) _
  have asked : ∀ r : Exec X P,
      r.core.Grows (cx.bulk.foldl (fun s b => s.dispatchBulk cx.nowMs b) r).core :=
    .foldl (fun s b => dispatchBulk_grows s _ b) _
  have sent : ∀ r : Exec X P, r.core.Grows (cx.sends.foldl dispatchSend r).core :=
    .foldl (fun s m => (dispatchSend_keeps s m).grows) _
  have all := ((told.trans (acted _)).trans (asked _)).trans (sent _)
  unfold drainCx
  cases hw : cx.wakeAt with
  | none => exact all
  | some t =>
    refine all.trans ⟨fun w h => ?_, fun _ h => h, fun _ h => h, fun _ h => h⟩
    cases w with
    | plugins => rfl
    | _ => exact h

/-- Without a wake-up and a channel, a context leaves the core waiting as before. -/
theorem drainCx_keeps (s : Exec X P) {cx : Cx} (hwake : cx.wakeAt = none) (hbulk : cx.bulk = []) :
    s.core.Keeps (s.drainCx cx).core := by
  have told : ∀ (es : List UiEvent) (r : Exec X P), (es.foldl ui r).core = r.core := by
    intro es
    induction es with
    | nil => exact fun r => rfl
    | cons e es ih => exact fun r => ih _
  have acted : ∀ (es : List (EffectToken × Effect)) (r : Exec X P),
      (es.foldl (fun s e => s.push (.effect e.1 e.2)) r).core = r.core := by
    intro es
    induction es with
    | nil => exact fun r => rfl
    | cons e es ih => exact fun r => ih _
  have sent : ∀ (ms : List PendingSend) (r : Exec X P),
      r.core.Keeps (ms.foldl dispatchSend r).core := by
    intro ms
    induction ms with
    | nil => exact fun r => .refl _
    | cons m ms ih => exact fun r => (dispatchSend_keeps r m).trans (ih _)
  unfold drainCx
  rw [hwake, hbulk]
  have hsent := sent cx.sends (cx.effects.foldl (fun s e => s.push (.effect e.1 e.2))
    (cx.ui.foldl ui s))
  rw [acted, told] at hsent
  exact hsent

theorem callPlugin_grows {α : Type} (s : Exec X P) (idx : ℕ) (cx : Cx)
    (hook : P → Cx → P × Cx × α) : s.core.Grows (s.callPlugin idx cx hook).1.core := by
  cases hp : s.core.plugins[idx]? with
  | none =>
    unfold callPlugin
    rw [hp]
    exact .refl s.core
  | some p =>
    rw [callPlugin_eq s cx hook hp]
    have handed : s.core.Keeps (s.handOver idx (hook p cx).1 (hook p cx).2.1).core :=
      .of_same rfl rfl rfl rfl
    exact handed.grows.trans (drainCx_grows _ _)

theorem callAllPlugins_grows (s : Exec X P) (nowMs : ℕ) (hook : P → Cx → P × Cx) :
    s.core.Grows (s.callAllPlugins nowMs hook).core := by
  unfold callAllPlugins
  refine Core.Grows.trans ?_ (drainCx_grows _ _)
  exact .of_same rfl rfl rfl rfl

theorem callAllPlugins_keeps (s : Exec X P) (nowMs : ℕ) {hook : P → Cx → P × Cx}
    (hhook : ∀ (p : P) (cx : Cx), cx.Calm (hook p cx).2) :
    s.core.Keeps (s.callAllPlugins nowMs hook).core := by
  have hcalm := forEachPlugin_calm hhook s.core.plugins (s.cx nowMs)
  unfold callAllPlugins
  refine Core.Keeps.trans ?_ (drainCx_keeps _ hcalm.1 hcalm.2)
  exact .of_same rfl rfl rfl rfl

theorem dispatchToTransferOwner_grows (s : Exec X P) (nowMs : ℕ) (t : TransferId)
    (hook : P → Cx → P × Cx) : s.core.Grows (s.dispatchToTransferOwner nowMs t hook).core := by
  unfold dispatchToTransferOwner
  split
  · exact .refl s.core
  · exact callPlugin_grows s _ _ _

theorem dispatchToTransferOwner_keeps (s : Exec X P) (nowMs : ℕ) (t : TransferId)
    {hook : P → Cx → P × Cx} (hhook : ∀ (p : P) (cx : Cx), cx.Calm (hook p cx).2) :
    s.core.Keeps (s.dispatchToTransferOwner nowMs t hook).core := by
  unfold dispatchToTransferOwner
  split
  · exact .refl s.core
  · rename_i idx _
    cases hp : s.core.plugins[idx]? with
    | none =>
      unfold callPlugin
      rw [hp]
      exact .refl s.core
    | some p =>
      rw [callPlugin_eq s _ _ hp]
      obtain ⟨hwake, hbulk⟩ := hhook p (s.cx nowMs)
      refine Core.Keeps.trans ?_ (drainCx_keeps _ hwake hbulk)
      exact .of_same rfl rfl rfl rfl

end Exec

namespace Exec
variable {nowMs : ℕ}

theorem dialPeer_grows (s : Exec X P) (peer : DeviceId) (route : TransportId × String)
    (routes : List (TransportId × String)) (byHand : Bool) :
    s.core.Grows (s.dialPeer nowMs peer route routes byHand).core := by
  refine ⟨fun w hw => ?_, fun _ h => h, fun _ h => h, fun _ h => h⟩
  cases w with
  | dial d =>
    simp only [Core.deadline, Option.isSome_map] at hw ⊢
    change (s.core.pendingPeerDials.insert (s.core.nextDial + 1)
      (nowMs + s.core.config.dialTimeoutMs, ⟨peer, routes, byHand⟩))[d]?.isSome
    rw [ExtTreeMap.getElem?_insert]
    split
    · rfl
    · exact hw
  | _ => exact hw

theorem dialPeer_awaits (s : Exec X P) (peer : DeviceId) (route : TransportId × String)
    (routes : List (TransportId × String)) (byHand : Bool) :
    ((s.dialPeer nowMs peer route routes byHand).core.deadline
      (.dial (s.core.nextDial + 1))).isSome := by
  simp only [Core.deadline, Option.isSome_map]
  change (s.core.pendingPeerDials.insert (s.core.nextDial + 1)
    (nowMs + s.core.config.dialTimeoutMs, ⟨peer, routes, byHand⟩))[s.core.nextDial + 1]?.isSome
  rw [ExtTreeMap.getElem?_insert_self]
  rfl

theorem connectRoutes_grows (s : Exec X P) (peer : DeviceId)
    (routes : List (TransportId × String)) (byHand : Bool) :
    s.core.Grows (s.connectRoutes nowMs peer routes byHand).core := by
  unfold connectRoutes
  split
  · dsimp only
    split
    · exact .of_same rfl rfl rfl rfl
    · exact .of_same rfl rfl rfl rfl
  · exact dialPeer_grows s _ _ _ _

theorem adoptAttempt_grows (s : Exec X P) (peer : DeviceId) :
    s.core.Grows (s.adoptAttempt peer).core := by
  refine ⟨fun w hw => ?_, fun _ h => h, fun _ h => h, ?_⟩
  · cases w with
    | dial d =>
      simp only [Core.deadline, Option.isSome_map] at hw ⊢
      unfold adoptAttempt
      rw [ExtTreeMap.getElem?_map, Option.isSome_map]
      exact hw
    | link l =>
      unfold adoptAttempt
      simp only [Core.deadline] at hw ⊢
      rw [ExtTreeMap.getElem?_map]
      cases hl : s.core.links[l]? with
      | none => simp [hl] at hw
      | some st =>
        rw [hl] at hw
        cases st with
        | up u => cases hw
        | pending q => rfl
        | handshaking h => rfl
    | _ => exact hw
  · rintro p ⟨l, u, hu, hp⟩
    refine ⟨l, u, ?_, hp⟩
    unfold adoptAttempt
    rw [ExtTreeMap.getElem?_map, hu]
    rfl

theorem connectPeer_grows (s : Exec X P) (peer : DeviceId) (byHand : Bool) :
    s.core.Grows (s.connectPeer nowMs peer byHand).core := by
  unfold connectPeer
  dsimp only
  split
  · exact .refl s.core
  · split
    · exact connectRoutes_grows s _ _ _
    · split
      · exact adoptAttempt_grows s _
      · exact .refl s.core
    · split
      · exact .of_same rfl rfl rfl rfl
      · split
        · exact .refl s.core
        · split
          · exact .refl s.core
          · exact connectRoutes_grows s _ _ _

/-- A peer with an address that is to be connected to has a session then, or is waited for. -/
theorem connectPeer_awaits {s : Exec X P} {peer : DeviceId} {known : Routes}
    (haddr : s.core.addrs[peer]? = some known) (hne : known.inPreferenceOrder ≠ []) :
    s.core.Reaches peer ∨ ∃ w, ((s.connectPeer nowMs peer false).core.deadline w).isSome := by
  by_cases hdial : s.core.Dialling peer
  · obtain ⟨d, e, he, -⟩ := hdial
    refine .inr ⟨.dial d, (connectPeer_grows s peer false).waits _ ?_⟩
    simp [Core.deadline, he]
  · rcases s.core.peerState_cases peer with ⟨l, hup, -, -⟩ | ⟨l, ⟨h, hl, -⟩, -, -⟩ |
      ⟨-, -, hconn, hnot⟩
    · exact .inl ⟨l, hup⟩
    · refine .inr ⟨.link l, (connectPeer_grows s peer false).waits _ ?_⟩
      simp [Core.deadline, hl, LinkState.deadline]
    · have hstate : s.core.peerState peer = .unreachable := by
        cases hst : s.core.peerState peer with
        | unreachable => rfl
        | connecting => exact absurd (hconn.mp hst) hdial
        | reachable => exact absurd hst hnot
      right
      have hany := mt Core.dialling_iff.mp hdial
      unfold connectPeer
      simp only [Bool.not_false, Bool.true_and]
      rw [if_neg hany, hstate, haddr]
      dsimp only [Option.orElse_some, Option.elim_some]
      obtain ⟨route, routes, hroutes⟩ := List.exists_cons_of_ne_nil hne
      rw [hroutes]
      exact ⟨_, dialPeer_awaits s peer route routes false⟩

end Exec

namespace Exec
variable {nowMs : ℕ}

theorem sendError_keeps (s : Exec X P) (peer : DeviceId) (req : Envelope) (code : ErrorCode) :
    s.core.Keeps (s.sendError peer req code).core :=
  dispatchSend_keeps s _

theorem requestPairing_grows (s : Exec X P) (transport : TransportId) (addr : String) :
    s.core.Grows (s.requestPairing nowMs transport addr).core := by
  unfold requestPairing
  split
  · exact .of_same rfl rfl rfl rfl
  · refine ⟨fun w hw => ?_, fun _ h => h, fun _ h => h, fun _ h => h⟩
    cases w with
    | pairing => rfl
    | _ => exact hw

theorem onUndiscovered_grows (s : Exec X P) (transport : TransportId) (addr : String) :
    s.core.Grows (s.onUndiscovered transport addr).core := by
  unfold onUndiscovered
  dsimp only
  refine Core.Grows.trans ?_ (.foldl (fun s fp => ?_) _ _)
  · exact .of_same rfl rfl rfl rfl
  · split
    · exact .of_same rfl rfl rfl rfl
    · exact .of_same rfl rfl rfl rfl

/-- A link that stays established with its peer is as good as before. -/
theorem insertUp_keeps {s : Exec X P} {l : LinkId} {u v : UpLink X}
    (hl : s.core.links[l]? = some (.up u)) (hp : v.peer = u.peer) :
    s.core.Keeps ((s.unlink l).insertLink l (.up v)).core := by
  have hlinks : ((s.unlink l).insertLink l (.up v)).core.links = s.core.links.insert l (.up v) :=
    Lib.erase_insert _ _ _
  have hother : ∀ m ≠ l, ((s.unlink l).insertLink l (.up v)).core.links[m]? = s.core.links[m]? := by
    intro m hm
    rw [hlinks, Lib.getElem?_insert_of_ne hm]
  have hself : ((s.unlink l).insertLink l (.up v)).core.links[l]? = some (.up v) :=
    ExtTreeMap.getElem?_insert_self
  refine ⟨fun w => ?_, fun p m => ?_, fun _ => .rfl, fun _ => .rfl⟩
  · cases w with
    | link m =>
      by_cases hm : m = l
      · subst hm
        simp [Core.deadline, hself, hl, LinkState.deadline]
      · simp only [Core.deadline, hother m hm]
    | _ => exact .rfl
  · by_cases hm : m = l
    · subst hm
      simp only [Core.UpWith, hself, hl, Option.some.injEq, LinkState.up.injEq, exists_eq_left', hp]
    · simp only [Core.UpWith, hother m hm]

section Hooks
variable [Plugin P]

theorem onLocalPlugin_grows (s : Exec X P) (peer : DeviceId) (cap ty : String) (body : Bytes) :
    s.core.Grows (s.onLocalPlugin nowMs peer cap ty body).core := by
  unfold onLocalPlugin
  split
  · exact .of_same rfl rfl rfl rfl
  · rename_i idx _
    have called := callPlugin_grows s idx ((s.cx nowMs).forPeerLink (s.core.bulkSupportFor peer))
      fun p cx => Plugin.onLocal p cx peer ty body
    dsimp only
    split
    · rename_i heq
      rw [heq] at called
      exact called.trans (.of_same rfl rfl rfl rfl)
    · rename_i heq
      rw [heq] at called
      exact called

theorem onEffectDone_grows (s : Exec X P) (token : EffectToken) (result : EffectResult) :
    s.core.Grows (s.onEffectDone nowMs token result).core := by
  unfold onEffectDone
  split
  · exact .refl s.core
  · refine Core.Grows.trans ?_ (callPlugin_grows _ _ _ _)
    exact .of_same rfl rfl rfl rfl

theorem routeEnvelope_grows (s : Exec X P) (peer : DeviceId) (env : Envelope) :
    s.core.Grows (s.routeEnvelope nowMs peer env).core := by
  unfold routeEnvelope
  split
  · exact (sendError_keeps s _ _ _).grows
  · rename_i idx _
    have called := callPlugin_grows s idx ((s.cx nowMs).forPeerLink (s.core.bulkSupportFor peer))
      fun p cx => Plugin.onMessage p cx peer env
    dsimp only
    split
    · rename_i heq
      rw [heq] at called
      exact called.trans (sendError_keeps _ _ _ _).grows
    · rename_i heq
      rw [heq] at called
      exact called

/-- Losing an established link loses nothing the core waits for, and sets the heartbeat if it was
the last with its peer. -/
theorem onLinkDown_up_cases {s : Exec X P} {l : LinkId} {u : UpLink X}
    (hl : s.core.links[l]? = some (.up u)) :
    (s.onLinkDown nowMs l).core.reconnectAt.isSome ∨ s.core.Grows (s.onLinkDown nowMs l).core := by
  by_cases hlast : s.core.LastLink l
  · exact .inl ((onLinkDown_armed s l).mpr (.inr hlast))
  · right
    have hmore : ∃ m, s.core.UpWith u.peer m ∧ m ≠ l := by
      rw [lastLink_iff hl] at hlast
      simpa only [not_forall, exists_prop] using hlast
    obtain ⟨m, hm, hne⟩ := hmore
    have hstays : (s.unlink l).core.Reaches u.peer := ⟨m, (unlink_upWith s l m u.peer).mpr ⟨hne, hm⟩⟩
    have hdown : s.onLinkDown nowMs l = (s.unlink l).ui (.peerReachable u.peer
        ((s.core.peers[u.peer]?).elim "" (·.name))) := by
      rw [onLinkDown_up hl]
      unfold lostUpLink
      rw [if_pos (Core.bestLink_isSome.mpr hstays)]
      rfl
    rw [hdown]
    refine ⟨fun w hw => ?_, fun _ h => h, fun _ h => h, fun p hp => ?_⟩
    · cases w with
      | link l' =>
        have hne' : l' ≠ l := by
          rintro rfl
          simp [Core.deadline, hl, LinkState.deadline] at hw
        have hsame : (s.unlink l).core.links[l']? = s.core.links[l']? :=
          Lib.getElem?_erase_of_ne hne'
        change ((s.unlink l).core.links[l']?.bind LinkState.deadline).isSome
        rw [hsame]
        exact hw
      | _ => exact hw
    · obtain ⟨k, hk⟩ := hp
      by_cases hkl : k = l
      · subst hkl
        obtain ⟨v, hv, rfl⟩ := hk
        obtain rfl := LinkState.up.inj (Option.some.inj (hl.symm.trans hv))
        exact hstays
      · exact ⟨k, (unlink_upWith s l k p).mpr ⟨hkl, hk⟩⟩

/-- A frame on an established link ends nothing the core waits for, or sets the heartbeat. -/
theorem onTransportFrame_cases {s : Exec X P} {l : LinkId} {u : UpLink X}
    (hl : s.core.links[l]? = some (.up u)) (kind : FrameKind) (body : Bytes) :
    ((s.unlink l).onTransportFrame nowMs l u kind body).core.reconnectAt.isSome ∨
      s.core.Grows ((s.unlink l).onTransportFrame nowMs l u kind body).core := by
  have failed : ∀ detail, ((s.unlink l).failUpLink nowMs l u detail).core.reconnectAt.isSome ∨
      s.core.Grows ((s.unlink l).failUpLink nowMs l u detail).core := by
    intro detail
    have hback : (s.core.links.erase l).insert l (.up u) = s.core.links := Lib.restore hl
    unfold failUpLink
    have hlink : (((((s.unlink l).insertLink l (.up u)).push
        (.close l (.protocol .notAllowed)))).ui (.error (some u.peer) .notAllowed
          detail)).core.links[l]? = some (.up u) := ExtTreeMap.getElem?_insert_self
    refine (onLinkDown_up_cases hlink).imp id fun h => ?_
    refine Core.Grows.trans ?_ h
    refine .of_same ?_ hback rfl rfl
    have hcore : ((((s.unlink l).insertLink l (.up u)).push
        (.close l (.protocol .notAllowed))).ui (.error (some u.peer) .notAllowed
          detail)).core = s.core := by
      change { s.core with links := (s.core.links.erase l).insert l (.up u) } = s.core
      rw [hback]
    rw [hcore]
  unfold onTransportFrame
  by_cases hkind : kind = .transport
  case neg =>
    rw [if_pos hkind]
    exact failed _
  rw [if_neg (not_not.mpr hkind)]
  cases hd : u.session.decrypt body with
  | error e => exact failed _
  | ok r =>
    obtain ⟨plaintext, session⟩ := r
    right
    dsimp only
    have moved : s.core.Grows ((s.unlink l).insertLink l
        (.up { u with session, lastRecvMs := nowMs })).core := by
      refine (insertUp_keeps hl ?_).grows
      rfl
    split
    · exact moved.trans (.of_same rfl rfl rfl rfl)
    · split
      · exact moved.trans (sendError_keeps _ _ _ _).grows
      · split
        · exact moved.trans (.of_same rfl rfl rfl rfl)
        · exact moved.trans (routeEnvelope_grows _ _ _)

end Hooks
end Exec

namespace Core.Remains
variable {ends : Wait → Prop} {opens : DeviceId → LinkId → Prop} {s t : Exec X P} {l : LinkId}

theorem unlink (s : Exec X P) (l : LinkId) :
    Remains (· = .link l) (fun _ _ => False) s.core (s.unlink l).core := by
  have gone : (s.unlink l).core.links[l]? = none := by simp [Exec.unlink]
  have kept : ∀ m ≠ l, (s.unlink l).core.links[m]? = s.core.links[m]? :=
    fun m hm => Lib.getElem?_erase_of_ne hm
  refine ⟨fun w => ?_, fun p m => ?_, fun _ => .rfl, fun _ => .rfl⟩
  · cases w with
    | link m =>
      by_cases hm : m = l
      · subst hm
        simp [deadline, gone]
      · simp [deadline, kept m hm, hm]
    | _ => simp [deadline, Exec.unlink]
  · by_cases hm : m = l
    · subst hm
      simp [UpWith, gone]
    · simp [UpWith, kept m hm, hm]

/-- A session that comes up on a link is the only thing the link is then. -/
theorem insertUp (s : Exec X P) (l : LinkId) (u : UpLink X) :
    Remains (· = .link l) (fun p m => p = u.peer ∧ m = l) s.core (s.insertLink l (.up u)).core := by
  have hself : (s.insertLink l (.up u)).core.links[l]? = some (.up u) :=
    ExtTreeMap.getElem?_insert_self
  have kept : ∀ m ≠ l, (s.insertLink l (.up u)).core.links[m]? = s.core.links[m]? :=
    fun m hm => Lib.getElem?_insert_of_ne hm
  refine ⟨fun w => ?_, fun p m => ?_, fun _ => .rfl, fun _ => .rfl⟩
  · cases w with
    | link m =>
      by_cases hm : m = l
      · subst hm
        simp [deadline, hself, LinkState.deadline]
      · simp [deadline, kept m hm, hm]
    | _ => simp [deadline, Exec.insertLink]
  · by_cases hm : m = l
    · subst hm
      simp [UpWith, hself, eq_comm]
    · simp [UpWith, kept m hm, hm]

/-- What is ended may be described otherwise, as far as it was there. -/
theorem congr {ends' : Wait → Prop} {opens' : DeviceId → LinkId → Prop} {c d : Core X P}
    (h : Remains ends opens c d) (hends : ∀ w, (c.deadline w).isSome → (ends' w ↔ ends w))
    (hlinks : ∀ p m, c.UpWith p m → (ends' (.link m) ↔ ends (.link m)))
    (hopens : ∀ p m, opens' p m ↔ opens p m) : Remains ends' opens' c d where
  waits w := by
    rw [h.waits]
    exact and_congr_right fun hw => not_congr (hends w hw).symm
  up p m := by
    rw [h.up, hopens]
    exact or_congr (and_congr_right fun hu => not_congr (hlinks p m hu).symm) .rfl
  peers := h.peers
  addrs := h.addrs

theorem unpair {c d : Core X P} (h : Remains ends opens c d) :
    Remains (fun w => ends w ∨ w = .pairing) opens c { d with pairing := none } where
  waits w := by
    by_cases hw : w = .pairing
    · subst hw
      simp [deadline]
    · have hsame : Core.deadline { d with pairing := none } w = d.deadline w := by
        cases w with
        | pairing => exact absurd rfl hw
        | _ => rfl
      rw [hsame, h.waits, not_or]
      simp [hw]
  up p m := by
    have hup := h.up p m
    simpa [UpWith] using hup
  peers := h.peers
  addrs := h.addrs

end Core.Remains

namespace Core

theorem Keeps.remains {c d : Core X P} (h : c.Keeps d) :
    Remains (fun _ => False) (fun _ _ => False) c d where
  waits w := by simp [h.waits w]
  up p l := by simp [h.up p l]
  peers := h.peers
  addrs := h.addrs

theorem Keeps.thenRemains {ends : Wait → Prop} {opens : DeviceId → LinkId → Prop}
    {c d e : Core X P} (h : c.Keeps d) (h' : Remains ends opens d e) : Remains ends opens c e where
  waits w := (h'.waits w).trans (and_congr_left' (h.waits w))
  up p l := (h'.up p l).trans (or_congr_left (and_congr_left' (h.up p l)))
  peers p := (h'.peers p).trans (h.peers p)
  addrs p := (h'.addrs p).trans (h.addrs p)

end Core

/-- A stretch of a step that ends nothing but a link, unless a session comes up on it. -/
def Drops (l : LinkId) (s t : Exec X P) : Prop :=
  ∃ opens, Core.Remains (· = .link l) opens s.core t.core ∧ ∀ p m, opens p m → m = l

/-- A stretch of a step that ends a link, and the pairing with it. -/
def Breaks (l : LinkId) (s t : Exec X P) : Prop :=
  Core.Remains (fun w => w = .link l ∨ w = .pairing) (fun _ _ => False) s.core t.core

namespace Drops
variable {l : LinkId} {s t r : Exec X P}

theorem keeps (h : Drops l s t) (h' : t.core.Keeps r.core) : Drops l s r := by
  obtain ⟨opens, hrem, hat⟩ := h
  exact ⟨opens, hrem.keeps h', hat⟩

theorem after (h : s.core.Keeps t.core) (h' : Drops l t r) : Drops l s r := by
  obtain ⟨opens, hrem, hat⟩ := h'
  exact ⟨opens, h.thenRemains hrem, hat⟩

end Drops

namespace Exec
variable {nowMs : ℕ} {l : LinkId}

theorem failLink_remains (s : Exec X P) (l : LinkId) (detail : String) :
    Core.Remains (· = .link l) (fun _ _ => False) s.core (s.failLink l detail).core :=
  (Core.Remains.unlink s l).keeps (.of_same rfl rfl rfl rfl)

theorem failLink_drops (s : Exec X P) (l : LinkId) (detail : String) :
    Drops l s (s.failLink l detail) :=
  ⟨_, failLink_remains s l detail, nofun⟩

theorem insertUp_drops (s : Exec X P) (l : LinkId) (u : UpLink X) :
    Drops l s (s.insertLink l (.up u)) :=
  ⟨_, Core.Remains.insertUp s l u, fun _ _ h => h.2⟩

theorem pairingAttemptFailed_breaks (s : Exec X P) (l : LinkId) :
    Breaks l s (s.pairingAttemptFailed nowMs l) := by
  have hfail := (failLink_remains s l "pairing handshake failed").unpair
  exact hfail.keeps (.of_same rfl rfl rfl rfl)

theorem acceptHello_keeps (s : Exec X P) (peer : DeviceId) (payload : Bytes) :
    s.core.Keeps (s.acceptHello peer payload).1.core := by
  unfold acceptHello
  split
  · exact .of_same rfl rfl rfl rfl
  · split
    · exact .refl s.core
    · rename_i record hrec
      split
      · refine ⟨fun _ => .rfl, fun _ _ => .rfl, fun p => ?_, fun _ => .rfl⟩
        dsimp only [push]
        rw [ExtTreeMap.mem_insert]
        refine or_iff_right_of_imp fun hp => ?_
        rw [← LawfulEqOrd.eq_of_compare hp]
        exact ExtTreeMap.mem_iff_isSome_getElem?.mpr (by rw [hrec]; rfl)
      · exact .of_same rfl rfl rfl rfl

theorem afterHello_drops (s : Exec X P) (l : LinkId) {peer : DeviceId} {payload : Bytes}
    {next : Exec X P → Exec X P} (hnext : ∀ s, Drops l s (next s)) (detail : String) :
    Drops l s (match s.acceptHello peer payload with
      | (s, false) => s.failLink l detail
      | (s, true) => next s) := by
  have hread := acceptHello_keeps s peer payload
  split
  · rename_i heq
    rw [heq] at hread
    exact .after hread (failLink_drops _ l detail)
  · rename_i heq
    rw [heq] at hread
    exact .after hread (hnext _)

section Hooks
variable [Plugin P] (law : Plugin.Calm P)
include law

theorem finishSession_drops (s : Exec X P) (l : LinkId) (hs : Handshake X) (attrs : LinkAttrs)
    (peer : DeviceId) : Drops l s (s.finishSession nowMs l hs attrs peer) := by
  unfold finishSession
  dsimp only
  split
  · exact failLink_drops s l _
  · split
    · exact failLink_drops s l _
    · apply (insertUp_drops s l _).keeps
      refine .trans ?_ (callAllPlugins_keeps _ _ fun p cx => law.connected p cx peer)
      exact .of_same rfl rfl rfl rfl

theorem onSessionOpener_drops (s : Exec X P) (seed : X.Seed) (l : LinkId) (p : PendingLink)
    (body : Bytes) : Drops l s (s.onSessionOpener nowMs seed l p body) := by
  unfold onSessionOpener
  split
  · exact failLink_drops s l _
  · dsimp only
    split
    · exact failLink_drops s l _
    · split
      · exact failLink_drops s l _
      · split
        · exact failLink_drops s l _
        · split
          · exact failLink_drops s l _
          · refine afterHello_drops s l (fun s => ?_) _
            split
            · exact failLink_drops s l _
            · refine .after ?_ (finishSession_drops law _ l _ _ _)
              exact .of_same rfl rfl rfl rfl

theorem onSessionReply_drops (s : Exec X P) (l : LinkId) (h : HandshakingLink X)
    (payload : Bytes) : Drops l s (s.onSessionReply nowMs l h payload) := by
  unfold onSessionReply
  split
  · exact failLink_drops s l _
  · exact afterHello_drops s l (fun s => finishSession_drops law s l _ _ _) _

end Hooks
end Exec

namespace Exec
variable {nowMs : ℕ} {l : LinkId}

def Awaits (s : Exec X P) : Prop := ∃ w, (s.core.deadline w).isSome

theorem insertLink_awaits (s : Exec X P) (l : LinkId) {st : LinkState X} {d : ℕ}
    (hst : st.deadline = some d) : (s.insertLink l st).Awaits := by
  refine ⟨.link l, ?_⟩
  have hl : (s.insertLink l st).core.links[l]? = some st := ExtTreeMap.getElem?_insert_self
  simp [Core.deadline, hl, hst]

theorem onPairOpener_fate (nowMs : ℕ) (s : Exec X P) (seed : X.Seed) (p : PendingLink) (body : Bytes) :
    s.core.pairAnswers nowMs seed body = true ∧ (s.onPairOpener nowMs seed l p body).Awaits ∨
    s.core.pairAnswers nowMs seed body = false ∧
      Drops l s (s.onPairOpener nowMs seed l p body) := by
  unfold onPairOpener Core.pairAnswers
  cases s.core.whyNotPair nowMs with
  | some why => exact .inr ⟨rfl, failLink_drops s l _⟩
  | none =>
    cases Handshake.pairResponder s.core.identity seed with
    | error e => exact .inr ⟨rfl, failLink_drops s l _⟩
    | ok hs =>
      dsimp only
      cases hs.read body with
      | error e =>
        refine .inr ⟨rfl, .after ?_ (failLink_drops _ l _)⟩
        exact .of_same rfl rfl rfl rfl
      | ok r =>
        obtain ⟨payload, hs'⟩ := r
        dsimp only
        cases hs'.write (X.encode s.core.hello) with
        | error e => exact .inr ⟨rfl, failLink_drops s l _⟩
        | ok r => exact .inl ⟨rfl, insertLink_awaits _ l rfl⟩

/-- What becomes of a handshake that has been read to its end, or to its next message. -/
def Turned (s t : Exec X P) (l : LinkId) (next broken : Bool) : Prop :=
  next = true ∧ t.Awaits ∨ next = false ∧ broken = true ∧ Breaks l s t ∨
    next = false ∧ broken = false ∧ Drops l s t

theorem Turned.dropped {s t : Exec X P} (h : Drops l s t) : Turned s t l false false :=
  .inr (.inr ⟨rfl, rfl, h⟩)

theorem Turned.after {s t r : Exec X P} {next broken : Bool} (h : s.core.Keeps t.core)
    (h' : Turned t r l next broken) : Turned s r l next broken := by
  rcases h' with h' | ⟨hn, hb, h'⟩ | ⟨hn, hb, h'⟩
  · exact .inl h'
  · exact .inr (.inl ⟨hn, hb, h.thenRemains h'⟩)
  · exact .inr (.inr ⟨hn, hb, .after h h'⟩)

theorem pairingCompleted_fate (nowMs : ℕ) (s : Exec X P) (h : HandshakingLink X) (payload : Bytes)
    (done : h.hs.isComplete) : Turned s (s.pairingCompleted nowMs l h payload) l
      (s.core.asks h.hs payload) (Core.givesUp h.hs payload) := by
  unfold pairingCompleted Core.asks Core.givesUp
  rw [done]
  cases hhash : h.hs.handshakeHash with
  | error e => exact .dropped (failLink_drops s l _)
  | ok hash =>
    cases hstatic : h.hs.peerStatic with
    | none => exact .dropped (failLink_drops s l _)
    | some pk =>
      dsimp only
      cases hdec : X.decode Hello payload with
      | none => exact .inr (.inl ⟨rfl, rfl, pairingAttemptFailed_breaks s l⟩)
      | some hello =>
        have back : ∀ detail, Drops l s ((s.insertLink l
            (.pending { attrs := h.attrs, deadline := h.deadline })).failLink l detail) := by
          intro detail
          have hgone : ((s.insertLink l (.pending ⟨h.attrs, h.deadline⟩)).failLink l
              detail).core.links = s.core.links.erase l := Lib.insert_erase _ _ _
          refine ⟨_, (Core.Remains.unlink s l).keeps (.of_same ?_ hgone rfl rfl), nofun⟩
          funext w
          cases w with
          | link m =>
            have hm : ((s.insertLink l (.pending ⟨h.attrs, h.deadline⟩)).failLink l
              detail).core.links[m]? = (s.unlink l).core.links[m]? := by rw [hgone]; rfl
            simp only [Core.deadline, hm]
          | _ => rfl
        dsimp only
        cases hw : s.core.pairing with
        | none =>
          have hw' : (s.insertLink l (.pending { attrs := h.attrs, deadline := h.deadline })
            ).core.pairing = none := hw
          rw [hw']
          exact .dropped (back _)
        | some w =>
          obtain ⟨deadline, awaiting⟩ := w
          have hw' : (s.insertLink l (.pending { attrs := h.attrs, deadline := h.deadline })
            ).core.pairing = some ⟨deadline, awaiting⟩ := hw
          rw [hw']
          cases awaiting with
          | some a => exact .dropped (back _)
          | none =>
            refine .inl ⟨rfl, .pairing, ?_⟩
            rfl

end Exec

namespace Exec
variable {nowMs : ℕ} {l : LinkId} [Plugin P]

theorem afterHandshakeRead_fate (law : Plugin.Calm P) (nowMs : ℕ) (s : Exec X P) (h : HandshakingLink X)
    (payload : Bytes) : Turned s (s.afterHandshakeRead nowMs l h payload) l
      (!h.hs.isComplete || h.pairingFlow && s.core.asks h.hs payload)
      (h.pairingFlow && Core.givesUp h.hs payload) := by
  unfold afterHandshakeRead
  cases hdone : h.hs.isComplete with
  | false => exact .inl ⟨rfl, insertLink_awaits s l rfl⟩
  | true =>
    cases hflow : h.pairingFlow with
    | true =>
      have hfate := pairingCompleted_fate (l := l) nowMs s h payload hdone
      simpa using hfate
    | false => exact .dropped (onSessionReply_drops law s l h payload)

theorem onHandshakeFrame_fate (law : Plugin.Calm P) (nowMs : ℕ) (s : Exec X P) (h : HandshakingLink X)
    (kind : FrameKind) (body : Bytes) : Turned s (s.onHandshakeFrame nowMs l h kind body) l
      (s.core.leadsOn h kind body) (s.core.breaks h kind body) := by
  unfold onHandshakeFrame Core.leadsOn Core.breaks
  by_cases hkind : kind = if h.pairingFlow then .pairHandshake else .sessionHandshake
  case neg =>
    rw [if_pos hkind]
    have hbroken : (h.pairingFlow && decide (kind = .pairHandshake)) = false := by
      cases hflow : h.pairingFlow with
      | false => rfl
      | true => simpa [hflow] using hkind
    rw [hbroken]
    simp only [hkind, decide_false, Bool.false_and]
    exact .dropped (failLink_drops s l _)
  have hbroken : (h.pairingFlow && decide (kind = .pairHandshake)) = h.pairingFlow := by
    cases hflow : h.pairingFlow with
    | false => rfl
    | true => simpa [hflow] using hkind
  rw [if_neg (not_not.mpr hkind), hbroken, decide_eq_true hkind]
  cases h.hs.read body with
  | error e =>
    cases hflow : h.pairingFlow with
    | true => exact .inr (.inl ⟨rfl, rfl, pairingAttemptFailed_breaks s l⟩)
    | false => exact .dropped (failLink_drops s l _)
  | ok r =>
    obtain ⟨payload, hs⟩ := r
    dsimp only
    by_cases hturn : (h.pairingFlow && hs.isMyTurn) = true
    · have hflow : h.pairingFlow = true := (Bool.and_eq_true_iff.mp hturn).1
      rw [if_pos hturn]
      cases hw : hs.write (X.encode s.core.hello) with
      | error e =>
        have hnone : s.core.turned true hs = none := by
          rw [hflow] at hturn
          rw [Core.turned, if_pos hturn, hw]
        rw [hflow, hnone]
        exact .dropped (failLink_drops s l _)
      | ok r =>
        obtain ⟨m, hs'⟩ := r
        have hsome : s.core.turned true hs = some hs' := by
          rw [hflow] at hturn
          rw [Core.turned, if_pos hturn, hw]
        have hfate : Turned (s.push (.linkSend l (Frame.join .pairHandshake m))) _ l
            (!hs'.isComplete || h.pairingFlow && s.core.asks hs' payload)
            (h.pairingFlow && Core.givesUp hs' payload) :=
          afterHandshakeRead_fate law nowMs _ { h with hs := hs' } payload
        have hsent : s.core.Keeps (s.push (.linkSend l (Frame.join .pairHandshake m))).core :=
          .of_same rfl rfl rfl rfl
        rw [hflow, hsome]
        rw [hflow] at hfate
        exact .after hsent hfate
    · rw [if_neg hturn]
      have hsome : s.core.turned h.pairingFlow hs = some hs := by
        rw [Core.turned, if_neg hturn]
      have hfate := afterHandshakeRead_fate (l := l) law nowMs s { h with hs } payload
      rw [hsome]
      cases hflow : h.pairingFlow with
      | false => simpa [hflow] using hfate
      | true =>
        rw [hflow] at hsome
        rw [hsome]
        simpa [hflow] using hfate

end Exec

namespace Core.Remains
variable {ends : Wait → Prop} {opens : DeviceId → LinkId → Prop} {c d : Core X P}

theorem trans {ends' : Wait → Prop} {e : Core X P} (h : Remains ends (fun _ _ => False) c d)
    (h' : Remains ends' opens d e) : Remains (fun w => ends w ∨ ends' w) opens c e where
  waits w := by
    rw [h'.waits, h.waits, not_or, and_assoc]
  up p l := by
    rw [h'.up, h.up, or_false, not_or, and_assoc]
  peers p := (h'.peers p).trans (h.peers p)
  addrs p := (h'.addrs p).trans (h.addrs p)

theorem eraseDial (c : Core X P) (t : DialToken) : Remains (· = .dial t) (fun _ _ => False) c
    { c with pendingPeerDials := c.pendingPeerDials.erase t } where
  waits w := by
    cases w with
    | dial t' =>
      by_cases ht : t' = t
      · subst ht
        simp [deadline]
      · simp [deadline, Lib.getElem?_erase_of_ne ht, ht]
    | _ => simp [deadline]
  up p l := by simp [UpWith]
  peers _ := .rfl
  addrs _ := .rfl

theorem eraseBulk (c : Core X P) (t : TransferId) : Remains (· = .bulk t) (fun _ _ => False) c
    { c with bulkWait := c.bulkWait.erase t } where
  waits w := by
    cases w with
    | bulk t' =>
      by_cases ht : t' = t
      · subst ht
        simp [deadline]
      · simp [deadline, Lib.getElem?_erase_of_ne ht, ht]
    | _ => simp [deadline]
  up p l := by simp [UpWith]
  peers _ := .rfl
  addrs _ := .rfl

end Core.Remains

namespace Exec
variable {nowMs : ℕ} {s t : Exec X P} {l : LinkId} {i : Core.Input X}

/-- The step gives the core something to wait for, or ends what it ends and no more. -/
def Fate (i : Core.Input X) (s t : Exec X P) : Prop :=
  s.Starts i ∧ t.Awaits ∨ ¬ s.Starts i ∧ Core.Remains (s.Ends i) (s.Opens i) s.core t.core

theorem startPairInitiator_fate (s : Exec X P) (seed : X.Seed) (l : LinkId) (attrs : LinkAttrs)
    (deadline : ℕ) (via : TransportId × String) :
    s.core.pairStarts seed = true ∧ (s.startPairInitiator seed l attrs deadline via).Awaits ∨
    s.core.pairStarts seed = false ∧ Core.Remains (· = .link l) (fun _ _ => False) s.core
      (s.startPairInitiator seed l attrs deadline via).core := by
  unfold startPairInitiator Core.pairStarts
  cases Handshake.pairInitiator s.core.identity seed with
  | error e => exact .inr ⟨rfl, failLink_remains s l _⟩
  | ok hs =>
    dsimp only
    cases hs.write [] with
    | error e => exact .inr ⟨rfl, failLink_remains s l _⟩
    | ok r => exact .inl ⟨rfl, insertLink_awaits _ l rfl⟩

theorem startSessionInitiator_fate (s : Exec X P) (seed : X.Seed) (l : LinkId) (peer : DeviceId)
    (attrs : LinkAttrs) (deadline : ℕ) (fallback : Option PeerDial) :
    s.core.sessionStarts seed peer = true ∧
      (s.startSessionInitiator seed l peer attrs deadline fallback).Awaits ∨
    s.core.sessionStarts seed peer = false ∧
      Core.Remains (· = .link l) (fun _ _ => False) s.core
        (s.startSessionInitiator seed l peer attrs deadline fallback).core := by
  unfold startSessionInitiator Core.sessionStarts
  cases s.core.peers[peer]? with
  | none => exact .inr ⟨rfl, failLink_remains s l _⟩
  | some record =>
    dsimp only
    cases record.publicKeyArray with
    | none => exact .inr ⟨rfl, failLink_remains s l _⟩
    | some pk =>
      cases record.sessionPskArray with
      | none => exact .inr ⟨rfl, failLink_remains s l _⟩
      | some psk =>
        dsimp only
        cases Handshake.sessionInitiator s.core.identity psk pk seed with
        | error e => exact .inr ⟨rfl, failLink_remains s l _⟩
        | ok hs =>
          dsimp only
          cases hs.write (X.encode s.core.hello) with
          | error e => exact .inr ⟨rfl, failLink_remains s l _⟩
          | ok r => exact .inl ⟨rfl, insertLink_awaits _ l rfl⟩

theorem tryNextRoute_fate (nowMs : ℕ) (s : Exec X P) (a : PeerDial) (why : String) :
    s.GoesOn a ∧ (s.tryNextRoute nowMs a why).Awaits ∨
    ¬ s.GoesOn a ∧ s.core.Keeps (s.tryNextRoute nowMs a why).core := by
  unfold tryNextRoute GoesOn
  by_cases hr : (s.core.bestLink a.peer).isSome
  · rw [if_pos hr]
    exact .inr ⟨fun h => h.2 (Core.bestLink_isSome.mp hr), .refl s.core⟩
  · rw [if_neg hr]
    cases hroutes : a.routes with
    | nil =>
      refine .inr ⟨fun h => h.1 rfl, ?_⟩
      dsimp only
      split
      · exact .of_same rfl rfl rfl rfl
      · exact .of_same rfl rfl rfl rfl
    | cons route routes =>
      refine .inl ⟨⟨nofun, fun h => hr (Core.bestLink_isSome.mpr h)⟩, ?_⟩
      exact ⟨_, dialPeer_awaits s a.peer route routes a.byHand⟩

theorem not_opens (h : ∀ l msg, i.event ≠ .linkRecv l msg) (p : DeviceId) (l : LinkId) :
    ¬ s.Opens i p l := by
  rintro ⟨hello, record', reply, u, hest, -⟩
  cases hest with
  | intro read =>
    cases read with
    | opener event => exact h _ _ event
    | reply event => exact h _ _ event

/-- Nothing is begun, and what is ended is as the event has it. -/
theorem Fate.ended {ends : Wait → Prop} (hno : ¬ s.Starts i)
    (hrecv : ∀ l msg, i.event ≠ .linkRecv l msg)
    (hrem : Core.Remains ends (fun _ _ => False) s.core t.core)
    (hends : ∀ w, (s.core.deadline w).isSome → (s.Ends i w ↔ ends w))
    (hlinks : ∀ p m, s.core.UpWith p m → (s.Ends i (.link m) ↔ ends (.link m))) : Fate i s t :=
  .inr ⟨hno, hrem.congr hends hlinks fun p m => iff_false_intro (not_opens hrecv p m)⟩

theorem onLinkUp_fate {attrs : LinkAttrs} {dial : Option DialToken}
    (he : i.event = .linkUp l attrs dial) :
    Fate i s (s.onLinkUp nowMs i.seed l attrs dial) := by
  have hrecv : ∀ l msg, i.event ≠ .linkRecv l msg := by simp [he]
  cases hpair : dial.bind fun d => s.core.pendingPairDials[d]? with
  | some via =>
    obtain ⟨d, rfl, hd⟩ := Option.bind_eq_some_iff.mp hpair
    have hmem : d ∈ s.core.pendingPairDials := ExtTreeMap.mem_iff_isSome_getElem?.mpr (by simp [hd])
    have hends : ∀ w, s.Ends i w ↔ w = .link l := by
      intro w
      cases w <;> simp [Ends, he, eq_comm]
      rintro rfl
      exact hmem
    have hstarts : s.Starts i ↔ s.core.pairStarts i.seed = true := by simp [Starts, he, hd]
    have hup : s.onLinkUp nowMs i.seed l attrs (some d) =
        ({ s with core.pendingPairDials := s.core.pendingPairDials.erase d }).startPairInitiator
          i.seed l attrs (nowMs + s.core.config.handshakeTimeoutMs) via := by
      simp [onLinkUp, hd]
    rw [hup]
    rcases startPairInitiator_fate
        { s with core.pendingPairDials := s.core.pendingPairDials.erase d } i.seed l attrs
        (nowMs + s.core.config.handshakeTimeoutMs) via with ⟨hyes, hwait⟩ | ⟨hno, hrem⟩
    · exact .inl ⟨hstarts.mpr hyes, hwait⟩
    · have hno' : s.core.pairStarts i.seed = false := hno
      refine .ended (by simp [hstarts, hno']) hrecv (Core.Keeps.thenRemains ?_ hrem)
        (fun w _ => hends w) fun p m _ => hends _
      exact .of_same rfl rfl rfl rfl
  | none =>
    cases hpeer : dial.bind fun d => s.core.pendingPeerDials[d]? with
    | none =>
      refine .inl ⟨by simp [Starts, he, hpair, hpeer], ?_⟩
      have hup : s.onLinkUp nowMs i.seed l attrs dial = s.insertLink l
          (.pending ⟨attrs, nowMs + s.core.config.handshakeTimeoutMs⟩) := by
        cases dial with
        | none => rfl
        | some d =>
          simp only [Option.bind_some] at hpair hpeer
          simp [onLinkUp, hpair, hpeer]
      rw [hup]
      exact insertLink_awaits s l rfl
    | some e =>
      obtain ⟨d, rfl, hd⟩ := Option.bind_eq_some_iff.mp hpeer
      rw [Option.bind_some] at hpair
      have hmem : d ∉ s.core.pendingPairDials := by
        rw [ExtTreeMap.mem_iff_isSome_getElem?, hpair]
        simp
      have hends : ∀ w, s.Ends i w ↔ w = .dial d ∨ w = .link l := by
        intro w
        cases w <;> simp [Ends, he, eq_comm]
        rintro rfl
        exact hmem
      have hstarts : s.Starts i ↔ s.core.sessionStarts i.seed e.2.peer = true := by
        simp [Starts, he, hpair, hd]
      have hup : s.onLinkUp nowMs i.seed l attrs (some d) =
          ({ s with core.pendingPeerDials := s.core.pendingPeerDials.erase d }
            ).startSessionInitiator i.seed l e.2.peer attrs
            (nowMs + s.core.config.handshakeTimeoutMs) (some e.2) := by
        simp [onLinkUp, hpair, hd]
      rw [hup]
      rcases startSessionInitiator_fate
          { s with core.pendingPeerDials := s.core.pendingPeerDials.erase d } i.seed l e.2.peer
          attrs (nowMs + s.core.config.handshakeTimeoutMs) (some e.2) with ⟨hyes, hwait⟩ | ⟨hno, hrem⟩
      · exact .inl ⟨hstarts.mpr hyes, hwait⟩
      · have hno' : s.core.sessionStarts i.seed e.2.peer = false := hno
        exact .ended (by simp [hstarts, hno']) hrecv ((Core.Remains.eraseDial s.core d).trans hrem)
          (fun w _ => hends w) fun p m _ => hends _

end Exec

namespace Core
variable [Plugin P] {c : Core X P} {i : Input X} {l : LinkId} {msg : Bytes}

/-- A frame on a link that is not established brings up the session it opens, and no other. -/
theorem opens_iff (he : i.event = .linkRecv l msg) (hup : c.isUp l = false) (p : DeviceId)
    (m : LinkId) : (c.start i).Opens i p m ↔ m = l ∧ (c.step i).UpWith p l := by
  constructor
  · rintro ⟨hello, record', reply, u, hest, rfl⟩
    have hm : m = l := by
      cases hest with
      | intro read =>
        cases read with
        | opener event => exact (Event.linkRecv.inj (event.symm.trans he)).1
        | reply event => exact (Event.linkRecv.inj (event.symm.trans he)).1
    subst hm
    exact ⟨rfl, hest.up⟩
  · rintro ⟨rfl, v, hv, rfl⟩
    have hold : ∀ u : UpLink X, c.links[m]? ≠ some (.up u) := by
      intro u hu
      simp [isUp, hu] at hup
    rcases step_up_cases hv with ⟨u, _, hu, -⟩ | ⟨_, _, u, _, _, _, -, -, hu, -⟩ |
      ⟨hello, record', reply, u, fs, hest, hs, -⟩
    · exact absurd hu (hold u)
    · exact absurd hu (hold u)
    · exact ⟨hello, record', reply, u, hest, hs.peer_eq.symm⟩

/-- The link a frame came on is lost, or brings up the session that the frame opens. -/
theorem fate_of_remains {ends : Wait → Prop} {opens : DeviceId → LinkId → Prop}
    (he : i.event = .linkRecv l msg) (hup : c.isUp l = false) (hno : ¬ (c.start i).Starts i)
    (hrem : Remains ends opens (c.start i).core (c.step i)) (hat : ∀ p m, opens p m → m = l)
    (hl : ends (.link l)) (hends : ∀ w, (c.start i).Ends i w ↔ ends w) :
    Exec.Fate i (c.start i) (c.exec i) := by
  refine .inr ⟨hno, hrem.congr (fun w _ => hends w) (fun p m _ => hends _) fun p m => ?_⟩
  rw [opens_iff he hup]
  have hopened : (c.step i).UpWith p l ↔ opens p l := by
    rw [hrem.up]
    simp [hl]
  rw [hopened]
  constructor
  · rintro ⟨rfl, h⟩
    exact h
  · intro h
    obtain rfl := hat p m h
    exact ⟨rfl, h⟩

theorem fate_of_turned (next broken : Bool) (he : i.event = .linkRecv l msg)
    (hup : c.isUp l = false)
    (hturned : Exec.Turned ((c.start i).unlink l) (c.exec i) l next broken)
    (hstarts : (c.start i).Starts i ↔ next = true)
    (hends : ∀ w, (c.start i).Ends i w ↔ w = .link l ∨ broken = true ∧ w = .pairing) :
    Exec.Fate i (c.start i) (c.exec i) := by
  have hunlink := Remains.unlink (c.start i) l
  rcases hturned with ⟨hn, hwait⟩ | ⟨hn, hb, hrem⟩ | ⟨hn, hb, opens, hrem, hat⟩
  · exact .inl ⟨hstarts.mpr hn, hwait⟩
  · refine fate_of_remains he hup (by simp [hstarts, hn]) (hunlink.trans hrem) nofun (.inl rfl)
      fun w => ?_
    simp [hends, hb]
  · refine fate_of_remains he hup (by simp [hstarts, hn]) (hunlink.trans hrem) hat (.inl rfl)
      fun w => ?_
    simp [hends, hb]

theorem onLinkRecv_fate (law : Plugin.Calm P) (he : i.event = .linkRecv l msg)
    (hup : Frame.split msg = none ∨ c.isUp l = false) : Exec.Fate i (c.start i) (c.exec i) := by
  have hexec : c.exec i = (c.start i).onLinkRecv i.now.monotonicMs i.seed l msg := by
    unfold exec start
    rw [he]
    rfl
  cases hf : Frame.split msg with
  | none =>
    have hends : ∀ w, (c.start i).Ends i w ↔ w = .link l := by
      intro w
      cases w <;> simp [Exec.Ends, he, hf]
    have hno : ¬ (c.start i).Starts i := by simp [Exec.Starts, he, hf]
    have hshut : ∀ p m, ¬ (c.start i).Opens i p m := by
      rintro p m ⟨hello, record', reply, u, hest, -⟩
      cases hest with
      | intro read =>
        cases read with
        | opener event frame =>
          obtain rfl := (Event.linkRecv.inj (event.symm.trans he)).2
          cases hf.symm.trans frame
        | reply event frame =>
          obtain rfl := (Event.linkRecv.inj (event.symm.trans he)).2
          cases hf.symm.trans frame
    have hfail : c.exec i = (c.start i).failLink l "malformed frame" := by
      rw [hexec]
      unfold Exec.onLinkRecv
      rw [hf]
    rw [hfail]
    exact .inr ⟨hno, (Exec.failLink_remains _ l _).congr (fun w _ => hends w)
      (fun p m _ => hends _) fun p m => iff_false_intro (hshut p m)⟩
  | some r =>
    obtain ⟨kind, body⟩ := r
    have hup : c.isUp l = false := hup.resolve_left (by simp [hf])
    have hup' : (c.start i).core.isUp l = false := hup
    unfold Exec.onLinkRecv at hexec
    rw [hf] at hexec
    dsimp only at hexec
    cases hl : c.links[l]? with
    | none =>
      have hlink : (c.start i).core.links[l]? = none := hl
      rw [hlink] at hexec
      refine fate_of_turned false false he hup ?_ ?_ fun w => ?_
      · rw [hexec]
        exact .dropped (Exec.failLink_drops _ l _)
      · simp [Exec.Starts, he, hf, hlink]
      · cases w <;> simp [Exec.Ends, he, hf, hlink, hup']
    | some st =>
      cases st with
      | up u => simp [isUp, hl] at hup
      | pending q =>
        have hlink : (c.start i).core.links[l]? = some (.pending q) := hl
        have hends : ∀ w, (c.start i).Ends i w ↔ w = .link l ∨ false = true ∧ w = .pairing := by
          intro w
          cases w <;> simp [Exec.Ends, he, hf, hlink, hup']
        rw [hlink] at hexec
        cases kind with
        | transport =>
          refine fate_of_turned false false he hup ?_ ?_ hends
          · rw [hexec]
            exact .dropped (Exec.failLink_drops _ l _)
          · simp [Exec.Starts, he, hf, hlink]
        | sessionHandshake =>
          refine fate_of_turned false false he hup ?_ ?_ hends
          · rw [hexec]
            exact .dropped (Exec.onSessionOpener_drops law _ i.seed l q body)
          · simp [Exec.Starts, he, hf, hlink]
        | pairHandshake =>
          refine fate_of_turned ((c.start i).core.pairAnswers i.now.monotonicMs i.seed body) false
            he hup ?_ ?_ hends
          · rw [hexec]
            rcases Exec.onPairOpener_fate (l := l) i.now.monotonicMs
              ((c.start i).unlink l) i.seed q body with hyes | ⟨hno, hdrop⟩
            · exact .inl hyes
            · exact .inr (.inr ⟨hno, rfl, hdrop⟩)
          · simp [Exec.Starts, he, hf, hlink]
      | handshaking h =>
        have hlink : (c.start i).core.links[l]? = some (.handshaking h) := hl
        rw [hlink] at hexec
        refine fate_of_turned ((c.start i).core.leadsOn h kind body)
          ((c.start i).core.breaks h kind body) he hup ?_ ?_ fun w => ?_
        · rw [hexec]
          exact Exec.onHandshakeFrame_fate law _ ((c.start i).unlink l) h kind body
        · simp [Exec.Starts, he, hf, hlink]
        · cases w <;> simp [Exec.Ends, he, hf, hlink, hup']

end Core

namespace Exec
variable {nowMs : ℕ} {s : Exec X P} {l : LinkId} {i : Core.Input X}

/-- An attempt that may go on has ended. -/
theorem fate_of_attempt {ends : Wait → Prop} {mid : Exec X P} {a : PeerDial} (why : String)
    (hrecv : ∀ l msg, i.event ≠ .linkRecv l msg)
    (hrem : Core.Remains ends (fun _ _ => False) s.core mid.core)
    (hstarts : s.Starts i ↔ mid.GoesOn a)
    (hends : ∀ w, (s.core.deadline w).isSome → (s.Ends i w ↔ ends w))
    (hlinks : ∀ p m, s.core.UpWith p m → (s.Ends i (.link m) ↔ ends (.link m))) :
    Fate i s (mid.tryNextRoute nowMs a why) := by
  rcases tryNextRoute_fate nowMs mid a why with ⟨hyes, hwait⟩ | ⟨hno, hkeeps⟩
  · exact .inl ⟨hstarts.mpr hyes, hwait⟩
  · exact .ended (mt hstarts.mp hno) hrecv (hrem.keeps hkeeps) hends hlinks

theorem onDialFailed_fate {d : DialToken} {reason : String} (he : i.event = .dialFailed d reason) :
    Fate i s (s.onDialFailed nowMs d reason) := by
  have hrecv : ∀ l msg, i.event ≠ .linkRecv l msg := by simp [he]
  unfold onDialFailed
  by_cases hpair : d ∈ s.core.pendingPairDials
  · rw [if_pos hpair]
    have hends : ∀ w, s.Ends i w ↔ False ∨ w = .pairing := by
      intro w
      cases w <;> simp [Ends, he, hpair]
    have hrem := (Core.Keeps.refl s.core).remains.unpair
    refine .ended (by simp [Starts, he, hpair]) hrecv (hrem.keeps ?_) (fun w _ => hends w)
      fun p m _ => hends _
    exact .of_same rfl rfl rfl rfl
  · rw [if_neg hpair]
    have hends : ∀ w, s.Ends i w ↔ w = .dial d := by
      intro w
      cases w <;> simp [Ends, he, hpair]
    cases hd : s.core.pendingPeerDials[d]? with
    | none =>
      have hrem : Core.Remains (fun _ => False) (fun _ _ => False) s.core s.core :=
        (Core.Keeps.refl s.core).remains
      refine .ended (by simp [Starts, he, hd]) hrecv hrem (fun w hw => ?_) fun p m _ => by
        simp [hends]
      rw [hends, iff_false]
      rintro rfl
      simp [Core.deadline, hd] at hw
    | some e =>
      obtain ⟨t, a⟩ := e
      refine fate_of_attempt reason hrecv (Core.Remains.eraseDial s.core d) ?_ (fun w _ => hends w)
        fun p m _ => hends _
      have hsame : s.GoesOn a ↔
          GoesOn { s with core.pendingPeerDials := s.core.pendingPeerDials.erase d } a := .rfl
      rw [← hsame]
      simp [Starts, he, hpair, hd]

end Exec

namespace Exec
variable {nowMs : ℕ} {s : Exec X P} {l : LinkId} {i : Core.Input X} [Plugin P]

theorem onLinkDown_fate {reason : LinkDownReason} (he : i.event = .linkDown l reason)
    (hup : s.core.isUp l = false) : Fate i s (s.onLinkDown nowMs l) := by
  have hrecv : ∀ l msg, i.event ≠ .linkRecv l msg := by simp [he]
  have plain : (∀ h, s.core.links[l]? ≠ some (.handshaking h)) → Fate i s (s.unlink l) := by
    intro hno
    have hends : ∀ w, s.Ends i w ↔ w = .link l := by
      intro w
      cases w <;> simp [Ends, he, hup, hno]
    exact .ended (by simp [Starts, he, hno]) hrecv (Core.Remains.unlink s l) (fun w _ => hends w)
      fun p m _ => hends _
  unfold onLinkDown
  cases hl : s.core.links[l]? with
  | none => exact plain (by simp [hl])
  | some st =>
    cases st with
    | up u => simp [Core.isUp, hl] at hup
    | pending q => exact plain (by simp [hl])
    | handshaking h =>
      dsimp only
      -- The peer is reached as before: no session was on the link.
      have hreach : ∀ p, (s.unlink l).core.Reaches p ↔ s.core.Reaches p := by
        intro p
        refine exists_congr fun m => (unlink_upWith s l m p).trans (and_iff_right_of_imp ?_)
        rintro ⟨u, hu, -⟩ rfl
        cases hl.symm.trans hu
      have gaveUp : ∀ {ends : Wait → Prop} (mid : Exec X P) {t : Exec X P},
          Core.Remains ends (fun _ _ => False) s.core mid.core →
          (∀ w, s.Ends i w ↔ ends w) → mid.core.links = (s.unlink l).core.links →
          (h.fallback = none → t = mid) → (∀ a, h.fallback = some a → t = mid.tryNextRoute nowMs a
            "connection closed before session was established") → Fate i s t := by
        intro ends mid t hrem hends hlinks hnone hsome
        cases hf : h.fallback with
        | none =>
          rw [hnone hf]
          exact .ended (by simp [Starts, he, hl, hf]) hrecv hrem (fun w _ => hends w)
            (fun p m _ => hends _)
        | some a =>
          rw [hsome a hf]
          refine fate_of_attempt _ hrecv hrem ?_ (fun w _ => hends w) fun p m _ => hends _
          have hmid : mid.core.Reaches a.peer ↔ s.core.Reaches a.peer := by
            rw [← hreach, Core.Reaches, Core.Reaches, hlinks]
          simp [Starts, he, hl, hf, GoesOn, hmid]
      cases hflow : h.pairingFlow with
      | true =>
        refine gaveUp { s.unlink l with core.pairing := none } (Core.Remains.unlink s l).unpair
          (fun w => ?_) rfl (fun hf => by rw [hf]; rfl) fun a hf => by rw [hf]; rfl
        cases w <;> simp [Ends, he, hup, hl, hflow]
      | false =>
        refine gaveUp (s.unlink l) (Core.Remains.unlink s l) (fun w => ?_) rfl
          (fun hf => by rw [hf]; rfl) fun a hf => by rw [hf]; rfl
        cases w <;> simp [Ends, he, hup, hl, hflow]

theorem bulkFinished_fate (law : Plugin.Calm P) {t : TransferId} {ok : Bool} {detail : String}
    (he : i.event = .bulkFinished t ok detail) :
    Fate i s (s.onEvent nowMs i.seed (.bulkFinished t ok detail)) := by
  have hends : ∀ w, s.Ends i w ↔ w = .bulk t := by
    intro w
    cases w <;> simp [Ends, he]
  have told := dispatchToTransferOwner_keeps s nowMs t fun p cx => law.finished p cx t ok detail
  refine .ended (by simp [Starts, he]) (by simp [he]) (told.thenRemains
    ((Core.Remains.eraseBulk _ t).keeps ?_)) (fun w _ => hends w) fun p m _ => hends _
  exact .of_same rfl rfl rfl rfl

theorem bulkStarted_fate {t : TransferId} (he : i.event = .bulkStarted t) :
    Fate i s (s.onEvent nowMs i.seed (.bulkStarted t)) := by
  have hends : ∀ w, s.Ends i w ↔ w = .bulk t := by
    intro w
    cases w <;> simp [Ends, he]
  exact .ended (by simp [Starts, he]) (by simp [he]) (Core.Remains.eraseBulk s.core t)
    (fun w _ => hends w) fun p m _ => hends _

omit [Plugin P] in
theorem denied_fate (he : i.event = .localCommand (.confirmPairing false)) :
    Fate i s (s.confirmPairing nowMs false) := by
  have hrecv : ∀ l msg, i.event ≠ .linkRecv l msg := by simp [he]
  have quiet : (∀ w a, s.core.pairing = some w → w.awaiting ≠ some a) → Fate i s s := by
    intro hno
    have hends : ∀ w, s.Ends i w ↔ False := by
      intro w
      cases w <;> simp only [Ends, he, iff_false, not_exists, not_and]
      case pairing => exact fun w a hw ha => hno w a hw ha
      case link l => exact fun w a hw ha => absurd ha (hno w a hw)
    exact .ended (by simp [Starts, he]) hrecv (Core.Keeps.refl s.core).remains
      (fun w _ => hends w) fun p m _ => hends _
  unfold confirmPairing
  cases hw : s.core.pairing with
  | none => exact quiet (by simp [hw])
  | some w =>
    obtain ⟨deadline, awaiting⟩ := w
    cases awaiting with
    | none =>
      refine quiet fun w a hw' => ?_
      obtain rfl := Option.some.inj (hw.symm.trans hw')
      simp
    | some a =>
      have hends : ∀ w, s.Ends i w ↔ w = .link a.link ∨ w = .pairing := by
        intro w
        cases w <;> simp [Ends, he, hw]
      refine .ended (by simp [Starts, he]) hrecv ((Core.Remains.unlink s a.link).unpair.keeps ?_)
        (fun w _ => hends w) fun p m _ => hends _
      exact .of_same rfl rfl rfl rfl

end Exec

namespace Exec
variable [Plugin P] {s : Exec X P} {nowMs : ℕ}

omit [Plugin P] in
theorem announce_grows (s : Exec X P) (fp : Fingerprint) : s.core.Grows (s.announce fp).core := by
  unfold announce
  split
  · exact .refl s.core
  · split
    · exact .refl s.core
    · split
      · exact .refl s.core
      · exact .push s _

theorem closeUpLinks_cases (s : Exec X P) (nowMs : ℕ) (p : DeviceId) (reason : LinkDownReason) :
    (s.closeUpLinks nowMs p reason).core.reconnectAt.isSome ∨
      (s.closeUpLinks nowMs p reason).core = s.core := by
  by_cases hr : s.core.Reaches p
  · exact .inl ((closeUpLinks_armed s nowMs p reason).mpr (.inr hr))
  · right
    have hnil : s.core.upLinks p = [] := by
      rw [← List.isEmpty_iff]
      by_contra hne
      exact hr ((Core.upLinks_isEmpty s.core p).mp (by simpa using hne))
    unfold closeUpLinks
    rw [hnil]
    rfl

theorem handleRevoke_cases (s : Exec X P) (nowMs : ℕ) (p : DeviceId) :
    (s.handleRevoke nowMs p).core.reconnectAt.isSome ∨
      s.core.Grows (s.handleRevoke nowMs p).core := by
  have closed : ∀ r : Exec X P, s.core.Grows r.core →
      ((r.closeUpLinks nowMs p (.protocol .notPaired)).ui
        (.revoked p)).core.reconnectAt.isSome ∨
      s.core.Grows ((r.closeUpLinks nowMs p (.protocol .notPaired)).ui (.revoked p)).core := by
    intro r hr
    refine (closeUpLinks_cases r nowMs p (.protocol .notPaired)).imp id fun h => ?_
    have hclosed : s.core.Grows (r.closeUpLinks nowMs p (.protocol .notPaired)).core := by
      rw [h]
      exact hr
    exact hclosed.trans (.push _ _)
  have shown : ∀ (t : Exec X P) (fp : Fingerprint),
      t.core.reconnectAt.isSome ∨ s.core.Grows t.core →
      (t.announce fp).core.reconnectAt.isSome ∨ s.core.Grows (t.announce fp).core := by
    intro t fp h
    rw [(announce_still t fp).reconnectAt]
    exact h.imp id fun h => h.trans (announce_grows t fp)
  have forgotten : s.core.Grows { s.core with
      peers := s.core.peers.erase p
      addrs := s.core.addrs.erase p
      dialTrouble := s.core.dialTrouble.erase p } :=
    ⟨fun _ h => h, fun _ h => ExtTreeMap.mem_of_mem_erase h,
      fun _ h => ExtTreeMap.mem_of_mem_erase h, fun _ h => h⟩
  unfold handleRevoke
  dsimp only
  split
  · exact shown _ _ (closed _ forgotten)
  · exact closed _ forgotten

omit [Plugin P] in
theorem confirmPairing_cases (s : Exec X P) (nowMs : ℕ) :
    (s.confirmPairing nowMs true).core.reconnectAt.isSome ∨
      s.core.Grows (s.confirmPairing nowMs true).core := by
  unfold confirmPairing
  cases hw : s.core.pairing with
  | none => exact .inr (.refl s.core)
  | some w =>
    obtain ⟨deadline, awaiting⟩ := w
    cases awaiting with
    | none => exact .inr (.refl s.core)
    | some a =>
      dsimp only [Bool.not_true, Bool.false_eq_true, ↓reduceIte]
      cases a.record.id X with
      | some id => exact .inl rfl
      | none =>
        refine .inr ⟨fun w hw' => ?_, fun _ h => h, fun _ h => h, fun _ h => h⟩
        cases w with
        | pairing => rfl
        | _ => exact hw'

omit [Plugin P] in
theorem set_preferred (routes : Routes) (transport : TransportId) (addr : String) :
    (routes.set transport addr).inPreferenceOrder ≠ [] := by
  intro hnil
  have hmem : (transport, addr) ∈ (routes.set transport addr).inPreferenceOrder :=
    ExtTreeMap.mem_toList_iff_getElem?_eq_some.mpr ExtTreeMap.getElem?_insert_self
  rw [hnil] at hmem
  cases hmem

omit [Plugin P] in
/-- A peer whose address has just been learned is waited for once it is connected to, or has a
session. -/
theorem learned_stranded {r : Exec X P} {id : DeviceId} {known : Routes}
    (haddrs : r.core.addrs = s.core.addrs.insert id known) (hne : known.inPreferenceOrder ≠ [])
    (hgrows : s.core.Grows { r.core with addrs := s.core.addrs })
    (h : (r.connectPeer nowMs id false).core.Stranded) : s.core.Stranded := by
  have grown : r.core.Grows (r.connectPeer nowMs id false).core := connectPeer_grows r id false
  obtain ⟨hidle, q, hq, haddr, hdown⟩ := h
  have hset : r.core.addrs[id]? = some known := by
    rw [haddrs]
    exact ExtTreeMap.getElem?_insert_self
  have hwait : r.core.Reaches id ∨
      ∃ w, ((r.connectPeer nowMs id false).core.deadline w).isSome := connectPeer_awaits hset hne
  have hreach : r.core.Reaches id := by
    refine hwait.resolve_right ?_
    rintro ⟨w, hw⟩
    rw [hidle w] at hw
    cases hw
  have hqid : q ≠ id := by
    rintro rfl
    exact hdown (grown.reaches _ hreach)
  refine hgrows.stranded ⟨fun w => ?_, q, grown.peers q hq, ?_, fun hr => hdown (grown.reaches q hr)⟩
  · by_contra hw
    have hsome := grown.waits w (Option.isSome_iff_ne_none.mpr hw)
    rw [hidle w] at hsome
    cases hsome
  · have hmem := grown.addrs q haddr
    rw [haddrs, ExtTreeMap.mem_insert] at hmem
    exact hmem.resolve_left fun heq => hqid (LawfulEqOrd.eq_of_compare heq).symm

omit [Plugin P] in
/-- A sighting makes the core wait for the peer it is of, or finds a session. -/
theorem onDiscovered_stranded (transport : TransportId) (peer : DiscoveredPeer)
    (h : (s.onDiscovered nowMs transport peer).core.Stranded) : s.core.Stranded := by
  unfold onDiscovered at h
  split at h
  · exact h
  · dsimp only at h
    split at h
    · refine learned_stranded rfl (set_preferred _ _ _) ?_ h
      exact .of_same rfl rfl rfl rfl
    · refine Core.Grows.stranded (.trans ?_ (announce_grows _ _)) h
      exact .of_same rfl rfl rfl rfl

end Exec

namespace Core
variable {c : Core X P} {i : Input X}

/-- A core that waits for its heartbeat is not stranded. -/
theorem not_stranded_of_armed (h : c.reconnectAt.isSome) : ¬ c.Stranded := by
  intro hs
  have hnone := hs.idle .reconnect
  rw [deadline] at hnone
  rw [hnone] at h
  cases h

/-- Where the event ends nothing, only a stranded core is left stranded. -/
theorem strands_of_endless (hends : ∀ w, ¬ (c.start i).Ends i w) (hgood : ¬ c.Stranded)
    (haddr : ∀ p transport addr, i.event ≠ .localCommand (.setPeerAddress p transport addr)) :
    ¬ c.Strands i := by
  rintro ⟨hall, -, p, hp, haddr', hdown, -⟩
  refine hgood ⟨fun w => ?_, p, hp, ?_, fun ⟨l, hl⟩ => hends _ (hdown l hl)⟩
  · by_contra hw
    exact hends w (hall w (Option.isSome_iff_ne_none.mpr hw))
  · rcases haddr' with h | ⟨transport, addr, h⟩
    · exact h
    · exact absurd h (haddr p transport addr)

/-- Where nothing is begun and no more ended than the event has it, the step leaves the core
stranded exactly if it strands a peer. -/
theorem stranded_iff_of_fate {t : Exec X P} (h : Exec.Fate i (c.start i) t)
    (haddr : ∀ p transport addr, i.event ≠ .localCommand (.setPeerAddress p transport addr)) :
    t.core.Stranded ↔ c.Strands i := by
  rcases h with ⟨hstarts, w, hw⟩ | ⟨hno, hrem⟩
  · refine iff_of_false (fun hs => ?_) fun hs => hs.stops hstarts
    rw [hs.idle w] at hw
    cases hw
  · rw [hrem.stranded_iff]
    constructor
    · rintro ⟨hall, p, hp, haddr', hdown, hshut⟩
      exact ⟨hall, hno, p, hp, .inl haddr', hdown, hshut⟩
    · rintro ⟨hall, -, p, hp, haddr', hdown, hshut⟩
      refine ⟨hall, p, hp, ?_, hdown, hshut⟩
      rcases haddr' with h | ⟨transport, addr, h⟩
      · exact h
      · exact absurd h (haddr p transport addr)

/-- Where nothing is lost, or the heartbeat is set, nobody is stranded. -/
theorem stranded_iff_of_grows {t : Exec X P} (hgood : ¬ c.Stranded)
    (h : t.core.reconnectAt.isSome ∨ (c.start i).core.Grows t.core)
    (hends : ∀ w, ¬ (c.start i).Ends i w)
    (haddr : ∀ p transport addr, i.event ≠ .localCommand (.setPeerAddress p transport addr)) :
    t.core.Stranded ↔ c.Strands i := by
  have hstart : c.Grows (c.start i).core := .of_same rfl rfl rfl rfl
  refine iff_of_false ?_ (strands_of_endless hends hgood haddr)
  rcases h with h | h
  · exact not_stranded_of_armed h
  · exact mt (hstart.trans h).stranded hgood

variable [Plugin P]

/-- An address strands the peer it is told of, if nothing is waited for and no session is there. -/
theorem stranded_told_iff {p : DeviceId} {transport : TransportId} {addr : String}
    (hgood : ¬ c.Stranded) (he : i.event = .localCommand (.setPeerAddress p transport addr)) :
    ((c.start i).onLocal i.now.monotonicMs
      (.setPeerAddress p transport addr)).core.Stranded ↔ c.Strands i := by
  have hends : ∀ w, ¬ (c.start i).Ends i w := Exec.not_ends_of_local he nofun
  have idle_iff : (∀ w, (c.deadline w).isSome → (c.start i).Ends i w) ↔ ∀ w, c.deadline w = none := by
    refine forall_congr' fun w => ?_
    rw [← Option.not_isSome_iff_eq_none]
    exact ⟨fun h hw => hends w (h hw), fun h hw => absurd hw h⟩
  by_cases hp : p ∈ c.peers
  case neg =>
    have hsame : ((c.start i).onLocal i.now.monotonicMs (.setPeerAddress p transport addr)) =
        (c.start i).ui (.error (some p) .notPaired (p.str ++ " is not a paired device")) :=
      if_neg hp
    have hstart : c.Grows (c.start i).core := .of_same rfl rfl rfl rfl
    rw [hsame]
    refine iff_of_false (mt (hstart.trans (.push _ _)).stranded hgood) ?_
    rintro ⟨hall, -, q, hq, haddr, hdown, -⟩
    rcases haddr with haddr | ⟨_, _, heq⟩
    · exact hgood ⟨idle_iff.mp hall, q, hq, haddr, fun ⟨l, hl⟩ => hends _ (hdown l hl)⟩
    · rw [he] at heq
      cases heq
      exact hp hq
  have hcore : ((c.start i).onLocal i.now.monotonicMs (.setPeerAddress p transport addr)).core =
      { (c.start i).core with
        addrs := c.addrs.insert p (((c.addrs[p]?).getD ∅).set transport addr) } := by
    have hp' : p ∈ (c.start i).core.peers := hp
    simp only [Exec.onLocal, if_pos hp']
    rfl
  rw [hcore]
  constructor
  · rintro ⟨hidle, q, hq, haddr, hdown⟩
    refine ⟨idle_iff.mpr hidle, Exec.not_starts_of_local he, q, hq, ?_, fun l hl => ?_, ?_⟩
    · rcases ExtTreeMap.mem_insert.mp haddr with heq | haddr
      · rw [← LawfulEqOrd.eq_of_compare heq]
        exact .inr ⟨transport, addr, he⟩
      · exact .inl haddr
    · exact absurd ⟨l, hl⟩ hdown
    · exact Exec.not_opens (by simp [he]) q
  · rintro ⟨hall, -, q, hq, haddr, hdown, -⟩
    refine ⟨idle_iff.mp hall, q, hq, ExtTreeMap.mem_insert.mpr ?_, fun ⟨l, hl⟩ =>
      hends _ (hdown l hl)⟩
    rcases haddr with haddr | ⟨_, _, heq⟩
    · exact .inr haddr
    · rw [he] at heq
      cases heq
      exact .inl compare_self

/-- A command leaves the core stranded exactly if it strands a peer. -/
theorem stranded_local_iff (hgood : ¬ c.Stranded) {cmd : LocalCommand}
    (he : i.event = .localCommand cmd) :
    ((c.start i).onLocal i.now.monotonicMs cmd).core.Stranded ↔ c.Strands i := by
  cases cmd with
  | requestPairing transport addr =>
    exact stranded_iff_of_grows hgood (.inr (Exec.requestPairing_grows _ _ _))
      (Exec.not_ends_of_local he nofun) (by simp [he])
  | confirmPairing accept =>
    cases accept with
    | false => exact stranded_iff_of_fate (Exec.denied_fate he) (by simp [he])
    | true =>
      exact stranded_iff_of_grows hgood (Exec.confirmPairing_cases _ _)
        (Exec.not_ends_of_local he nofun) (by simp [he])
  | setPeerAddress p transport addr => exact stranded_told_iff hgood he
  | connect p =>
    exact stranded_iff_of_grows hgood (.inr (Exec.connectPeer_grows _ _ _))
      (Exec.not_ends_of_local he nofun) (by simp [he])
  | reconsiderRoutes =>
    refine stranded_iff_of_grows hgood (.inr ?_) (Exec.not_ends_of_local he nofun) (by simp [he])
    exact .foldl (fun s p => Exec.connectPeer_grows s p false) _ _
  | disconnect p =>
    refine stranded_iff_of_grows hgood ?_ (Exec.not_ends_of_local he nofun) (by simp [he])
    refine (Exec.closeUpLinks_cases (c.start i) i.now.monotonicMs p .closed).imp id fun h => ?_
    have hsame : ((c.start i).onLocal i.now.monotonicMs (.disconnect p)).core =
        (c.start i).core := h
    rw [hsame]
    exact .refl _
  | revoke p =>
    exact stranded_iff_of_grows hgood (Exec.handleRevoke_cases _ _ p)
      (Exec.not_ends_of_local he nofun) (by simp [he])
  | plugin p cap ty body =>
    exact stranded_iff_of_grows hgood (.inr (Exec.onLocalPlugin_grows _ _ _ _ _))
      (Exec.not_ends_of_local he nofun) (by simp [he])

/-- A step leaves the core waiting for nothing beside a peer it should reach exactly if it
strands one. -/
theorem stranded_step_iff (law : Plugin.Calm P) (hgood : ¬ c.Stranded) :
    (c.step i).Stranded ↔ c.Strands i := by
  have hstart : c.Grows (c.start i).core := .of_same rfl rfl rfl rfl
  have hexec : c.exec i = (c.start i).onEvent i.now.monotonicMs i.seed i.event := rfl
  change (c.exec i).core.Stranded ↔ c.Strands i
  cases he : i.event with
  | linkUp l attrs dial =>
    rw [hexec, he]
    exact stranded_iff_of_fate (Exec.onLinkUp_fate he) (by simp [he])
  | linkRecv l msg =>
    by_cases hup : Frame.split msg = none ∨ c.isUp l = false
    · exact stranded_iff_of_fate (onLinkRecv_fate law he hup) (by simp [he])
    · rw [not_or] at hup
      obtain ⟨⟨kind, body⟩, hf⟩ := Option.ne_none_iff_exists'.mp hup.1
      obtain ⟨u, hu⟩ := up_of_isUp (Bool.of_not_eq_false hup.2)
      have hlink : (c.start i).core.links[l]? = some (.up u) := hu
      refine stranded_iff_of_grows hgood ?_ (fun w => ?_) (by simp [he])
      · have hrecv : (c.start i).onLinkRecv i.now.monotonicMs i.seed l msg =
            ((c.start i).unlink l).onTransportFrame i.now.monotonicMs l u kind body := by
          unfold Exec.onLinkRecv
          rw [hf]
          dsimp only
          rw [hlink]
          rfl
        rw [hexec, he]
        dsimp only [Exec.onEvent]
        rw [hrecv]
        exact Exec.onTransportFrame_cases hlink kind body
      · have hup' : (c.start i).core.isUp l = true := Bool.of_not_eq_false hup.2
        cases w <;> simp [Exec.Ends, he, hf, hlink, hup']
  | linkDown l reason =>
    cases hup : c.isUp l with
    | false =>
      rw [hexec, he]
      exact stranded_iff_of_fate (Exec.onLinkDown_fate he hup) (by simp [he])
    | true =>
      obtain ⟨u, hu⟩ := up_of_isUp hup
      have hlink : (c.start i).core.links[l]? = some (.up u) := hu
      refine stranded_iff_of_grows hgood ?_ (fun w => ?_) (by simp [he])
      · rw [hexec, he]
        exact Exec.onLinkDown_up_cases hlink
      · have hup' : (c.start i).core.isUp l = true := hup
        cases w <;> simp [Exec.Ends, he, hlink, hup']
  | dialFailed d reason =>
    rw [hexec, he]
    exact stranded_iff_of_fate (Exec.onDialFailed_fate he) (by simp [he])
  | discovered transport peer =>
    refine iff_of_false (fun h => hgood ?_) (strands_of_endless (fun w => ?_) hgood (by simp [he]))
    · rw [hexec, he] at h
      exact hstart.stranded (Exec.onDiscovered_stranded transport peer h)
    · cases w <;> simp [Exec.Ends, he]
  | undiscovered transport addr =>
    refine stranded_iff_of_grows hgood (.inr ?_) (fun w => ?_) (by simp [he])
    · rw [hexec, he]
      exact Exec.onUndiscovered_grows _ _ _
    · cases w <;> simp [Exec.Ends, he]
  | tick =>
    refine stranded_iff_of_grows hgood (.inl ((step_armed c i).mpr (.inr ?_))) (fun w => ?_) (by simp [he])
    · simp [Arms, he]
    · cases w <;> simp [Exec.Ends, he]
  | bulkListening t endpoint =>
    refine stranded_iff_of_grows hgood (.inr ?_) (fun w => ?_) (by simp [he])
    · rw [hexec, he]
      exact Exec.dispatchToTransferOwner_grows _ _ _ _
    · cases w <;> simp [Exec.Ends, he]
  | bulkStarted t =>
    rw [hexec, he]
    exact stranded_iff_of_fate (Exec.bulkStarted_fate he) (by simp [he])
  | bulkFinished t ok detail =>
    rw [hexec, he]
    exact stranded_iff_of_fate (Exec.bulkFinished_fate law he) (by simp [he])
  | effectDone token result =>
    refine stranded_iff_of_grows hgood (.inr ?_) (fun w => ?_) (by simp [he])
    · rw [hexec, he]
      exact Exec.onEffectDone_grows _ _ _
    · cases w <;> simp [Exec.Ends, he]
  | localCommand cmd =>
    rw [hexec, he]
    exact stranded_local_iff hgood he

omit [Plugin P] in
theorem Waiting.of_idle (idle : ∀ w, c.deadline w = none) {p : DeviceId} (paired : p ∈ c.peers)
    (address : p ∈ c.addrs) (down : ¬ c.Reaches p) : c.Waiting p := by
  refine ⟨paired, address, down, ?_, ?_⟩
  · rintro ⟨d, e, he, -⟩
    have hd := idle (.dial d)
    simp [deadline, he] at hd
  · rintro l ⟨g, hg, -⟩
    have hl := idle (.link l)
    simp [deadline, hg, LinkState.deadline] at hl

/-- A peer that waits is to be retried unless the core is stranded. -/
theorem retried_iff_not_stranded (c : Core X P) (i : Input X) :
    c.Retried i ↔ ¬ (c.step i).Stranded := by
  constructor
  · rintro hret ⟨hidle, p, hp, haddr, hdown⟩
    have hsome : (c.step i).nextDeadline.isSome := hret ⟨p, .of_idle hidle hp haddr hdown⟩
    obtain ⟨w, d, hw⟩ := nextDeadline_isSome.mp hsome
    rw [hidle w] at hw
    cases hw
  · rintro hgood ⟨p, hp⟩
    change (c.step i).nextDeadline.isSome
    rw [nextDeadline_isSome]
    by_contra hnone
    refine hgood ⟨fun w => ?_, p, hp.paired, hp.address, hp.down⟩
    by_contra hw
    obtain ⟨d, hd⟩ := Option.ne_none_iff_exists'.mp hw
    exact hnone ⟨w, d, hd⟩

/-- Every peer that waits is to be retried, after every event of a run, exactly if no event of the
run strands a peer. -/
theorem retried_iff (law : Plugin.Calm P) (b : CoreBuilder X P) (is : List (Input X)) :
    (∀ js i, js ++ [i] <+: is → (b.build.run js).Retried i) ↔
      Lib.Along step (fun c i => ¬ c.Strands i) b.build is := by
  have hfresh : ¬ b.build.Stranded := by
    rintro ⟨-, p, -, haddr, -⟩
    simp [CoreBuilder.build] at haddr
  have hstep : ∀ (c : Core X P) i, True → ¬ c.Stranded → (¬ (c.step i).Stranded ↔ ¬ c.Strands i) :=
    fun c i _ hgood => not_congr (stranded_step_iff law hgood)
  have hstates := Lib.along_iff_states (fun _ _ _ => trivial) hstep trivial hfresh is
  rw [← hstates]
  have last : ∀ js i, b.build.run (js ++ [i]) = (b.build.run js).step i := by
    intro js i
    exact Lib.run_append step b.build js [i]
  constructor
  · intro hall js hjs
    rcases List.eq_nil_or_concat js with rfl | ⟨ks, i, rfl⟩
    · exact hfresh
    · rw [List.concat_eq_append] at hjs ⊢
      have hstep := (retried_iff_not_stranded _ i).mp (hall ks i hjs)
      rwa [← last] at hstep
  · intro hall js i hjs
    have hnext := hall (js ++ [i]) hjs
    rw [retried_iff_not_stranded, ← last]
    exact hnext

omit [Plugin P] in
/-- Once the heartbeat is set no event strands anybody. -/
theorem not_strands_of_armed {c : Core X P} (h : c.reconnectAt.isSome) (i : Input X) :
    ¬ c.Strands i := by
  intro hstrands
  have hends := hstrands.ends .reconnect h
  unfold Exec.Ends at hends
  split at hends <;> simp_all

end Core

/-- The share plugin asks for a channel on a person's word or a peer's only. -/
theorem SharePlugin.calm : Plugin.Calm (SharePlugin X) := by
  constructor
  · intro p cx peer
    have hmove : Move p cx (.connected peer) (Plugin.onPeerConnected p cx peer).1
        (Plugin.onPeerConnected p cx peer).2 := p.call_move cx (.connected peer)
    revert hmove
    generalize (Plugin.onPeerConnected p cx peer).1 = p'
    generalize (Plugin.onPeerConnected p cx peer).2 = cx'
    intro hmove
    cases hmove
    exact ⟨rfl, rfl⟩
  · intro p cx t ok detail
    have hmove : Move p cx (.bulkFinished t ok detail) (Plugin.onBulkFinished p cx t ok detail).1
        (Plugin.onBulkFinished p cx t ok detail).2 := p.call_move cx (.bulkFinished t ok detail)
    revert hmove
    generalize (Plugin.onBulkFinished p cx t ok detail).1 = p'
    generalize (Plugin.onBulkFinished p cx t ok detail).2 = cx'
    intro hmove
    cases hmove <;> exact ⟨rfl, rfl⟩

/-- A laptop that has ticked is told where the phone is, tries it, and is refused. -/
def Mock.phoneRefused : List (Core.Input Mock.crates) :=
  [Mock.at_ 0 0 .tick, Mock.at_ 1 0 (.localCommand (.setPeerAddress Mock.phone 1 "10.0.0.9:7")),
    Mock.at_ 10000 0 .tick, Mock.at_ 10001 0 (.dialFailed 1 "refused")]

/-- The phone waits in the end, and the laptop knows when to try it again. -/
theorem refused_is_retried :
    ((Mock.laptop [SharePlugin.default Mock.crates]).build.run Mock.phoneRefused).Waiting
      Mock.phone ∧
    ∀ js i, js ++ [i] <+: Mock.phoneRefused →
      ((Mock.laptop [SharePlugin.default Mock.crates]).build.run js).Retried i := by
  constructor
  · exact Core.waiting_of_empty (by decide +kernel) (by decide +kernel) (by decide +kernel)
      (by decide +kernel)
  · refine (Core.retried_iff SharePlugin.calm _ _).mpr ⟨?_, ?_, ?_, ?_, trivial⟩
    · rintro ⟨-, -, p, -, haddr | ⟨_, _, htold⟩, -, -⟩
      · exact absurd haddr (by simp [Core.start, CoreBuilder.build])
      · cases htold
    · exact Core.not_strands_of_armed (by decide +kernel) _
    · exact Core.not_strands_of_armed (by decide +kernel) _
    · exact Core.not_strands_of_armed (by decide +kernel) _

end Acrylius
