import Acrylius.Core.Inversion
import Acrylius.Mock

/-! Who gets into the trust store: only a record that a person confirmed, which is the one a
pairing handshake of this device authenticated. -/
namespace Acrylius
open Proto Std

variable {X : Crates} {P : Type}

/-- Reading and writing messages, in any order. -/
inductive Handshake.Run : Handshake X → Handshake X → Prop where
  | refl (hs : Handshake X) : Run hs hs
  | read {hs hs' hs'' : Handshake X} {m p : Bytes} (before : Run hs hs')
      (h : hs'.read m = .ok (p, hs'')) : Run hs hs''
  | write {hs hs' hs'' : Handshake X} {p m : Bytes} (before : Run hs hs')
      (h : hs'.write p = .ok (m, hs'')) : Run hs hs''

theorem Handshake.Run.turn {hs₀ hs hs' : Handshake X} {owes : Bool} {p : Bytes} {reply : List Bytes}
    (h : Run hs₀ hs) (hturn : hs.Turn owes p reply hs') : Run hs₀ hs' := by
  unfold Handshake.Turn at hturn
  split at hturn
  · obtain ⟨m, hw, -⟩ := hturn
    exact h.write hw
  · exact hturn.2 ▸ h

/-- A pairing handshake of this device, from either end, however far it got. -/
def Handshake.IsPairing (id : Identity X) (hs : Handshake X) : Prop :=
  ∃ seed hs₀, (pairInitiator id seed = .ok hs₀ ∨ pairResponder id seed = .ok hs₀) ∧ Run hs₀ hs

/-- A record and its digits come out of one completed pairing handshake: the key and the id are
those of the static key it authenticated, the PSK and the digits derive from its hash. -/
structure AwaitingConfirm.Authentic (id : Identity X) (a : AwaitingConfirm) (hs : Handshake X)
    (hash : Bytes) (pk : PublicKey) : Prop where
  pairing : hs.IsPairing id
  complete : hs.handshakeHash = .ok hash
  static : hs.peerStatic = some pk
  key : a.record.publicKey = pk.bytes
  named : a.record.deviceId = (DeviceId.of X pk).str
  psk : a.record.sessionPsk = (Pairing.sessionPsk X hash).bytes
  digits : a.sas = Pairing.sas X hash

theorem AwaitingConfirm.Authentic.id_eq {id : Identity X} {a : AwaitingConfirm} {hs : Handshake X}
    {hash : Bytes} {pk : PublicKey} (ha : a.Authentic id hs hash pk) :
    a.record.id X = some (DeviceId.of X pk) := by
  rw [PeerRecord.id, PeerRecord.publicKeyArray, ha.key, Key32.ofBytes_bytes, Option.map_some]

/-- Every pairing in flight and every record on screen is this device's own doing. -/
structure Core.PairingOrigin (c : Core X P) : Prop where
  links : ∀ (l : LinkId) (h : HandshakingLink X), c.links[l]? = some (.handshaking h) →
    h.pairingFlow → h.hs.IsPairing c.identity
  waiting : ∀ d a, c.pairing = some ⟨d, some a⟩ → ∃ hs hash pk, a.Authentic c.identity hs hash pk

variable [Plugin P]

namespace Core
variable {c : Core X P} {i : Input X}

theorem step_trust : ∃ mid, Head i (c.start i) mid ∧
    (c.step i).trust = mid.core.trust ∧ Aftermath i.now.monotonicMs mid (c.exec i) := by
  obtain ⟨mid, hhead, hafter⟩ := c.exec_outline i
  exact ⟨mid, hhead, hafter.trust, hafter⟩

theorem step_identity : (c.step i).identity = c.identity := by
  obtain ⟨mid, hhead, htrust, -⟩ := step_trust (c := c) (i := i)
  exact (congrArg Trust.identity htrust).trans hhead.identity

theorem step_serves : (c.step i).serves = c.serves := by
  obtain ⟨mid, hhead, htrust, -⟩ := step_trust (c := c) (i := i)
  exact (congrArg Trust.serves htrust).trans hhead.serves

theorem PairingOrigin.step (h : c.PairingOrigin) (i : Input X) : (c.step i).PairingOrigin := by
  obtain ⟨mid, hhead, htrust, hafter⟩ := step_trust (c := c) (i := i)
  have hid : (c.step i).identity = c.identity := step_identity
  refine ⟨?_, ?_⟩
  · intro l h' hl hflow
    rw [hid]
    obtain ⟨h₁, hl₁, he₁⟩ := hafter.handshaking_of hl
    have hs₁ : h'.hs = h₁.hs := by rw [he₁]
    have hf₁ : h₁.pairingFlow := by rw [he₁] at hflow; exact hflow
    rw [hs₁]
    rcases hhead.handshaking_cases hl₁ with ⟨h₀, hl₀, he₀⟩ | hbegun | ⟨h₀, hl₀, hcont⟩
    · have hs₀ : h₁.hs = h₀.hs := by rw [he₀]
      rw [hs₀]
      exact h.links l h₀ hl₀ (by rw [he₀] at hf₁; exact hf₁)
    · cases hbegun with
      | session _ _ _ _ _ flow => simp [flow] at hf₁
      | pairDial build write => exact ⟨_, _, .inl build, .write (.refl _) write⟩
      | pairAnswer build read write =>
        exact ⟨_, _, .inr build, .write (.read (.refl _) read) write⟩
    · cases hcont with
      | intro read turn =>
        obtain ⟨seed, hs₀, hb, hrun⟩ := h.links l h₀ hl₀ hf₁
        exact ⟨seed, hs₀, hb, (hrun.read read).turn turn⟩
  · intro d a hp
    rw [hid]
    have hp' : mid.core.pairing = some ⟨d, some a⟩ := (congrArg Trust.pairing htrust).symm.trans hp
    rcases hhead.pairing_cases rfl with hsame | ⟨-, d', h'⟩ |
      ⟨l, h', payload, reply, hs', hash, pk, hello, d₀, d', hread, hhash, hpk, -, heq⟩ |
      ⟨_, _, _, _, _, h' | h'⟩ | ⟨-, h', -⟩ | ⟨-, h'⟩
    · exact h.waiting d a (hsame.symm.trans hp')
    · simp [h'] at hp'
    · rw [heq] at hp'
      simp only [Option.some.injEq, PairingWindow.mk.injEq] at hp'
      obtain ⟨-, rfl⟩ := hp'
      obtain ⟨msg, body, hs, -, -, hr, hturn⟩ := hread.read
      obtain ⟨seed, hs₀, hb, hrun⟩ := h.links l h' hread.link hread.flow
      exact ⟨hs', hash, pk, ⟨seed, hs₀, hb, (hrun.read hr).turn hturn⟩, hhash, hpk, rfl, rfl, rfl, rfl⟩
    all_goals simp [h'] at hp'

end Core

theorem CoreBuilder.pairingOrigin (b : CoreBuilder X P) : b.build.PairingOrigin where
  links l h hl := by simp [CoreBuilder.build] at hl
  waiting d a hp := by simp [CoreBuilder.build] at hp

namespace Core
variable {c : Core X P} {i : Input X}

theorem step_peers_cases (c : Core X P) (i : Input X) :
    ((c.step i).peers = c.peers ∧ stored (c.exec i).actions = []) ∨
    (∃ l attrs peer payload hs owes hello record record',
      SessionRead i (c.start i) l attrs peer payload hs owes ∧
      Accepted (c.start i) peer payload hello record record' ∧
      (c.step i).peers = c.peers.insert peer record' ∧
      stored (c.exec i).actions = [("peer/" ++ record'.deviceId, some (X.encode record'))]) ∨
    (∃ a deadline id, i.event = .localCommand (.confirmPairing true) ∧
      c.pairing = some ⟨deadline, some a⟩ ∧ a.record.id X = some id ∧
      (c.step i).peers = c.peers.insert id a.record ∧
      stored (c.exec i).actions = [("peer/" ++ a.record.deviceId, some (X.encode a.record))]) ∨
    ∃ peer, i.event = .localCommand (.revoke peer) ∧ (c.step i).peers = c.peers.erase peer ∧
      stored (c.exec i).actions = [("peer/" ++ peer.str, none)] := by
  obtain ⟨mid, hhead, htrust, hafter⟩ := step_trust (c := c) (i := i)
  have hpeers : (c.step i).peers = mid.core.peers := congrArg Trust.peers htrust
  have hstored : stored (c.exec i).actions = stored mid.actions := by
    obtain ⟨as, -, hact, -, has, -⟩ := hafter.trace
    rw [hact, stored_append, stored_of_unstored has, List.append_nil]
  rw [hpeers, hstored]
  exact hhead.peers_cases

/-- What identifies a paired device: its key and the PSK shared with it. -/
def credentials (c : Core X P) (p : DeviceId) : Option (Bytes × Bytes) :=
  (c.peers[p]?).map fun r => (r.publicKey, r.sessionPsk)

/-- The step in which a device enters the trust store: a person confirmed the record on screen,
and that record, which one pairing handshake authenticated, is what is stored and persisted. -/
structure Admission (c : Core X P) (i : Input X) (p : DeviceId) : Prop where
  asked : i.event = .localCommand (.confirmPairing true)
  waiting : ∃ d a hs hash pk shown, c.pairing = some ⟨d, some a⟩ ∧
    a.Authentic c.identity hs hash pk ∧ p = DeviceId.of X pk ∧
    c.pendingPairing = some shown ∧ shown.sas = Pairing.sas X hash ∧
    (c.step i).peers = c.peers.insert p a.record ∧
    stored (c.handle i).2.actions = [("peer/" ++ a.record.deviceId, some (X.encode a.record))]

/-- Whatever else a step does, it only drops credentials or keeps them. -/
theorem credentials_step (c : Core X P) (i : Input X) (p : DeviceId) :
    (c.step i).credentials p = none ∨ (c.step i).credentials p = c.credentials p ∨
    ∃ a deadline, i.event = .localCommand (.confirmPairing true) ∧
      c.pairing = some ⟨deadline, some a⟩ ∧ a.record.id X = some p ∧
      (c.step i).peers = c.peers.insert p a.record ∧
      stored (c.exec i).actions = [("peer/" ++ a.record.deviceId, some (X.encode a.record))] := by
  unfold credentials
  rcases c.step_peers_cases i with ⟨hp, -⟩ |
    ⟨_, _, peer, _, _, _, _, record, record', -, hacc, hp, -⟩ |
    ⟨a, deadline, id, he, hw, hid, hp, hs⟩ | ⟨peer, -, hp, -⟩
  · exact .inr (.inl (by rw [hp]))
  · right; left
    rw [hp, ExtTreeMap.getElem?_insert]
    split
    · rename_i hk
      have hk : peer = p := LawfulEqOrd.eq_of_compare hk
      subst hk
      have hknown : c.peers[peer]? = some record := hacc.known
      simp [hknown, hacc.updated]
    · rfl
  · by_cases hk : id = p
    · subst hk
      exact .inr (.inr ⟨a, deadline, he, hw, hid, hp, hs⟩)
    · right; left
      rw [hp, Lib.getElem?_insert_of_ne (Ne.symm hk)]
  · by_cases hk : p = peer
    · subst hk
      simp [hp]
    · right; left
      rw [hp, Lib.getElem?_erase_of_ne hk]

theorem run_pairingOrigin (b : CoreBuilder X P) (is : List (Input X)) :
    (b.build.run is).PairingOrigin :=
  Lib.run_inv (fun _ i h => h.step i) b.pairingOrigin is

omit [Plugin P] in
theorem pendingPairing_of_authentic {d : ℕ} {a : AwaitingConfirm} {hs : Handshake X} {hash : Bytes}
    {pk : PublicKey} (hw : c.pairing = some ⟨d, some a⟩)
    (ha : a.Authentic c.identity hs hash pk) :
    ∃ shown, c.pendingPairing = some shown ∧ shown.sas = Pairing.sas X hash := by
  have hkey : a.record.publicKeyArray = some pk := by
    rw [PeerRecord.publicKeyArray, ha.key, Key32.ofBytes_bytes]
  refine ⟨⟨a.record.name, Fingerprint.of X pk, a.sas⟩, ?_, ha.digits⟩
  simp [pendingPairing, hw, PeerRecord.fingerprint, hkey]

/-- The trust store grows, and a stored key or PSK changes, only when a person confirms the record
on screen; no run without such a confirmation admits or alters anybody. -/
theorem peers_admission (b : CoreBuilder X P) (is : List (Input X)) :
    (∀ i p, ((b.build.run is).step i).credentials p ≠ none →
      ((b.build.run is).step i).credentials p ≠ (b.build.run is).credentials p →
      (b.build.run is).Admission i p) ∧
    ∀ js, (∀ j ∈ js, j.event ≠ .localCommand (.confirmPairing true)) → ∀ p,
      ((b.build.run is).run js).credentials p = none ∨
      ((b.build.run is).run js).credentials p = (b.build.run is).credentials p := by
  constructor
  · intro i p hsome hnew
    rcases credentials_step (b.build.run is) i p with h | h | ⟨a, d, he, hw, hid, hp, hs⟩
    · exact absurd h hsome
    · exact absurd h hnew
    · obtain ⟨hs', hash, pk, ha⟩ := (run_pairingOrigin b is).waiting d a hw
      obtain ⟨shown, hshown, hsas⟩ := pendingPairing_of_authentic hw ha
      have hid' := Option.some.inj (hid.symm.trans ha.id_eq)
      exact ⟨he, d, a, hs', hash, pk, shown, hw, ha, hid', hshown, hsas, hp, hs⟩
  · intro js hjs p
    generalize b.build.run is = c
    induction js generalizing c with
    | nil => exact .inr rfl
    | cons j js ih =>
      have hrest := ih (fun j' h => hjs j' (List.mem_cons_of_mem _ h)) (c.step j)
      have hj := hjs j (by simp)
      rcases credentials_step c j p with h | h | ⟨_, _, he, -⟩
      · rw [h, or_self] at hrest
        exact .inl hrest
      · rw [h] at hrest
        exact hrest
      · exact absurd he hj

def phoneWaiting : List (Input Mock.crates) :=
  Mock.at_ 0 0 (.linkUp 1 (.tcpLan 1) none) ::
    (Mock.pairFrames 5).map fun m => Mock.at_ 0 0 (.linkRecv 1 m)

theorem phone_admission : ((Mock.fresh (P := Unit) 1 []).build.run phoneWaiting).Admission
    (Mock.at_ 0 0 (.localCommand (.confirmPairing true)))
    (DeviceId.of Mock.crates (Mock.device 5).publicKey) :=
  (peers_admission (Mock.fresh 1 []) phoneWaiting).1 _ _ (by decide +kernel) (by decide +kernel)

end Core
end Acrylius
