import Acrylius.Core.Calls
import Acrylius.Core.Presence

/-! What the core keeps about one peer and says about it, through every operation of a step: a
peer of whom nothing is kept is not dialled, and is spoken of only to a plugin that writes to it. -/
namespace Acrylius
open Proto Std

variable {X : Crates} {P : Type}

def UiEvent.presence : UiEvent → Option DeviceId
  | .peerReachable peer _ | .peerUnreachable peer => some peer
  | _ => none

theorem UiEvent.presence_of_own (e : UiEvent) (h : e.own) : e.presence = none := by
  cases e with
  | plugin | error => rfl
  | _ => cases h

def Action.presence : Action → Option DeviceId
  | .ui e => e.presence
  | _ => none

/-- Whom a link is for, and whom its failure would have dialled. -/
inductive Face where
  | pending
  | handshaking (expect next : Option DeviceId)
  | up (peer : DeviceId)

def Face.Regards (p : DeviceId) : Face → Prop
  | .pending => False
  | .handshaking expect next => expect = some p ∨ next = some p
  | .up peer => peer = p

def LinkState.face : LinkState X → Face
  | .pending _ => .pending
  | .handshaking h => .handshaking h.expect (h.fallback.map (·.peer))
  | .up u => .up u.peer

/-- What is kept about peers outside the link table. -/
structure Roll where
  peers : ExtTreeMap DeviceId PeerRecord
  addrs : ExtTreeMap DeviceId Routes
  trouble : ExtTreeMap DeviceId String
  dials : ExtTreeMap DialToken (ℕ × PeerDial)

namespace Core

def face (c : Core X P) (l : LinkId) : Option Face := (c.links[l]?).map LinkState.face

def roll (c : Core X P) : Roll where
  peers := c.peers
  addrs := c.addrs
  trouble := c.dialTrouble
  dials := c.pendingPeerDials

theorem face_of {c : Core X P} {l : LinkId} {st : LinkState X} (h : c.links[l]? = some st) :
    c.face l = some st.face := by
  rw [face, h]
  rfl

theorem reaches_iff_face {c : Core X P} {p : DeviceId} :
    c.Reaches p ↔ ∃ l, c.face l = some (.up p) := by
  constructor
  · rintro ⟨l, u, hu, rfl⟩
    exact ⟨l, face_of hu⟩
  · rintro ⟨l, hl⟩
    obtain ⟨st, hst, hface⟩ := Option.map_eq_some_iff.mp hl
    cases st with
    | up u => exact ⟨l, u, hst, Face.up.inj hface⟩
    | pending => cases hface
    | handshaking => cases hface

end Core

def Cx.Demure (cx : Cx) : Prop := ∀ e ∈ cx.ui, e.presence = none

theorem Cx.demure_of_nil {cx : Cx} (h : cx.ui = []) : cx.Demure := by
  intro e he
  rw [h] at he
  cases he

/-- A plugin leaves reports on presence to the core: it emits its own events and errors only. -/
def Plugin.Modest (P : Type) [Plugin P] : Prop :=
  ∀ (p : P) (cx : Cx) (c : Call), cx.Demure → (Plugin.call p cx c).2.1.Demure

/-- A stretch of a step that keeps what is known of every peer, makes no dial for one, and reports
on a peer that has no link exactly when a message is meant for it. -/
structure Aloof (s t : Exec X P) : Prop where
  roll : t.core.roll = s.core.roll
  made : t.dials = s.dials
  face : ∀ l, t.core.face l = s.core.face l
  told : ∃ as hist, t.actions = s.actions ++ as ∧ t.sends = s.sends ++ hist ∧
    ∀ q, ¬ s.core.Reaches q → ((∃ a ∈ as, a.presence = some q) ↔ ∃ m ∈ hist, m.2.peer = q)

namespace Aloof
variable {s t r : Exec X P}

theorem of_same (hroll : t.core.roll = s.core.roll) (hlinks : t.core.links = s.core.links)
    (hmade : t.dials = s.dials) (hact : t.actions = s.actions) (hsends : t.sends = s.sends) :
    Aloof s t where
  roll := hroll
  made := hmade
  face l := by rw [Core.face, Core.face, hlinks]
  told := ⟨[], [], by simpa using hact, by simpa using hsends, by simp⟩

theorem refl (s : Exec X P) : Aloof s s := of_same rfl rfl rfl rfl rfl

theorem trans (h : Aloof s t) (h' : Aloof t r) : Aloof s r where
  roll := h'.roll.trans h.roll
  made := h'.made.trans h.made
  face l := (h'.face l).trans (h.face l)
  told := by
    obtain ⟨as, hist, ha, hs, hq⟩ := h.told
    obtain ⟨as', hist', ha', hs', hq'⟩ := h'.told
    refine ⟨as ++ as', hist ++ hist', ?_, ?_, ?_⟩
    · rw [ha', ha, List.append_assoc]
    · rw [hs', hs, List.append_assoc]
    · intro q hnot
      have hnot' : ¬ t.core.Reaches q := by
        simpa only [Core.reaches_iff_face, h.face] using hnot
      simp only [List.mem_append, or_and_right, exists_or, hq q hnot, hq' q hnot']

theorem foldl {α : Type} {f : Exec X P → α → Exec X P} (as : List α)
    (hf : ∀ s, ∀ a ∈ as, Aloof s (f s a)) (s : Exec X P) : Aloof s (as.foldl f s) := by
  induction as generalizing s with
  | nil => exact refl s
  | cons a as ih =>
    exact (hf s a List.mem_cons_self).trans (ih (fun s b hb => hf s b (List.mem_cons_of_mem _ hb)) _)

theorem push (s : Exec X P) (a : Action) (h : a.presence = none) : Aloof s (s.push a) where
  roll := rfl
  made := rfl
  face _ := rfl
  told := ⟨[a], [], rfl, (List.append_nil _).symm, by simp [h]⟩

theorem ui (s : Exec X P) (e : UiEvent) (h : e.presence = none) : Aloof s (s.ui e) :=
  push s (.ui e) h

end Aloof

namespace Exec

/-- A message handed on, with what was said of the peer it is for. -/
private theorem sent_aloof {s t : Exec X P} {m : PendingSend} {a : Action}
    (hroll : t.core.roll = s.core.roll) (hmade : t.dials = s.dials)
    (hface : ∀ l, t.core.face l = s.core.face l) (hact : t.actions = s.actions ++ [a])
    (hsends : t.sends = s.sends ++ [(s.core, m)])
    (ha : ∀ q, ¬ s.core.Reaches q → (a.presence = some q ↔ m.peer = q)) : Aloof s t where
  roll := hroll
  made := hmade
  face := hface
  told := ⟨[a], [(s.core, m)], hact, hsends, fun q hq => by simpa using ha q hq⟩

theorem dispatchSend_aloof (s : Exec X P) (m : PendingSend) : Aloof s (s.dispatchSend m) := by
  unfold dispatchSend
  dsimp only
  cases hb : s.core.bestLink m.peer with
  | none =>
    refine sent_aloof rfl rfl (fun _ => rfl) rfl rfl fun q _ => ?_
    simp [Action.presence, UiEvent.presence]
  | some e =>
    obtain ⟨l, u⟩ := e
    obtain ⟨hl, hp⟩ := Core.bestLink_up hb
    -- The message has a link to take, so nobody who has none is meant by it.
    have hmute : ∀ {a : Action}, a.presence = none → ∀ q, ¬ s.core.Reaches q →
        (a.presence = some q ↔ m.peer = q) := by
      intro a ha q hq
      constructor
      · intro h
        cases ha.symm.trans h
      · rintro rfl
        exact (hq ⟨l, u, hl, hp⟩).elim
    have hface : ∀ (session : Session X) (l' : LinkId),
        ((s.core.links.insert l (.up { u with session }))[l']?).map LinkState.face =
          s.core.face l' := by
      intro session l'
      by_cases he : l' = l
      · subst he
        rw [ExtTreeMap.getElem?_insert_self, Core.face_of hl]
        rfl
      · rw [Lib.getElem?_insert_of_ne he]
        rfl
    dsimp only
    split
    · exact sent_aloof rfl rfl (fun _ => rfl) rfl rfl (hmute rfl)
    · split
      · split
        · exact sent_aloof rfl rfl (hface _) rfl rfl (hmute rfl)
        · exact sent_aloof rfl rfl (hface _) rfl rfl (hmute rfl)
      · exact sent_aloof rfl rfl (fun _ => rfl) rfl rfl (hmute rfl)

theorem sendError_aloof (s : Exec X P) (peer : DeviceId) (req : Envelope) (code : ErrorCode) :
    Aloof s (s.sendError peer req code) :=
  dispatchSend_aloof s _

theorem withBulkKey_aloof (s : Exec X P) (peer : DeviceId) (transfer : TransferId)
    (offerer : DeviceId) (numbered : ℕ) (start : Exec X P → Bytes → Exec X P)
    (hstart : ∀ s key, Aloof s (start s key)) :
    Aloof s (s.withBulkKey peer transfer offerer numbered start) := by
  unfold withBulkKey
  split
  · exact ⟨rfl, rfl, fun _ => rfl, [_, _], [], List.append_assoc _ _ _, (List.append_nil _).symm,
      by simp [Action.presence, UiEvent.presence]⟩
  · split
    · exact .ui s _ rfl
    · exact hstart s _

theorem dispatchBulk_aloof (s : Exec X P) (nowMs : ℕ) (b : BulkRequest) :
    Aloof s (s.dispatchBulk nowMs b) := by
  cases b <;> dsimp only [dispatchBulk]
  case cancel transfer => exact .push s _ rfl
  case listen peer transfer offeredAs expectBytes =>
    refine withBulkKey_aloof s peer transfer peer offeredAs _ fun s key => ?_
    refine Aloof.trans ?_ (.push _ (.bulkListen transfer offeredAs key expectBytes) rfl)
    exact .of_same rfl rfl rfl rfl rfl
  case send peer transfer endpoint =>
    exact withBulkKey_aloof s peer transfer _ transfer _ fun s key =>
      .push s (.bulkSend transfer endpoint key) rfl

theorem drainCx_aloof (s : Exec X P) {cx : Cx} (h : cx.Demure) : Aloof s (s.drainCx cx) := by
  unfold drainCx
  dsimp only
  have hsaid := (((Aloof.foldl cx.ui (fun s e he => Aloof.ui s e (h e he)) s).trans
    (Aloof.foldl cx.effects (fun s e _ => Aloof.push s (.effect e.1 e.2) rfl) _)).trans
    (Aloof.foldl cx.bulk (fun s b _ => dispatchBulk_aloof s cx.nowMs b) _)).trans
    (Aloof.foldl cx.sends (fun s m _ => dispatchSend_aloof s m) _)
  split
  · exact hsaid
  · exact hsaid.trans (.of_same rfl rfl rfl rfl rfl)

theorem callPlugin_aloof {α : Type} (s : Exec X P) (idx : ℕ) (cx : Cx)
    (hook : P → Cx → P × Cx × α) (h : ∀ p, (hook p cx).2.1.Demure) :
    Aloof s (s.callPlugin idx cx hook).1 := by
  unfold callPlugin
  split
  · exact .refl s
  · rename_i p hp
    refine Aloof.trans ?_ (drainCx_aloof _ (h p))
    exact .of_same rfl rfl rfl rfl rfl

theorem forEachPlugin_demure {hook : P → Cx → P × Cx}
    (h : ∀ p cx, cx.Demure → (hook p cx).2.Demure) (ps : List P) {cx : Cx} (hcx : cx.Demure) :
    (forEachPlugin hook ps cx).2.Demure := by
  induction ps generalizing cx with
  | nil => exact hcx
  | cons p ps ih => exact ih (h p cx hcx)

theorem callAllPlugins_aloof (s : Exec X P) (nowMs : ℕ) (hook : P → Cx → P × Cx)
    (h : ∀ p cx, cx.Demure → (hook p cx).2.Demure) : Aloof s (s.callAllPlugins nowMs hook) := by
  unfold callAllPlugins
  refine Aloof.trans ?_ (drainCx_aloof _ (forEachPlugin_demure h _ (Cx.demure_of_nil rfl)))
  exact .of_same rfl rfl rfl rfl rfl

end Exec

/-- Nothing is kept about the peer, no dial was made for it in this step, and it was reported on
exactly if a message was meant for it. -/
structure Clear (p : DeviceId) (s : Exec X P) : Prop where
  store : p ∉ s.core.peers
  keyed : ∀ (q : DeviceId) (r : PeerRecord), s.core.peers[q]? = some r → r.id X = some q
  addrs : p ∉ s.core.addrs
  trouble : p ∉ s.core.dialTrouble
  dials : ∀ (d : DialToken) (e : ℕ × PeerDial), s.core.pendingPeerDials[d]? = some e → e.2.peer ≠ p
  links : ∀ (l : LinkId) (st : LinkState X), s.core.links[l]? = some st → ¬ st.face.Regards p
  made : ∀ e ∈ s.dials, e.1 ≠ p
  told : (∃ a ∈ s.actions, a.presence = some p) ↔ ∃ m ∈ s.sends, m.2.peer = p

namespace Clear
variable {p : DeviceId} {s t : Exec X P}

theorem of_same (h : Clear p s) (hroll : t.core.roll = s.core.roll)
    (hlinks : t.core.links = s.core.links) (hmade : t.dials = s.dials)
    (hact : t.actions = s.actions) (hsends : t.sends = s.sends) : Clear p t where
  store := by
    rw [show t.core.peers = s.core.peers from congrArg Roll.peers hroll]
    exact h.store
  keyed := by
    rw [show t.core.peers = s.core.peers from congrArg Roll.peers hroll]
    exact h.keyed
  addrs := by
    rw [show t.core.addrs = s.core.addrs from congrArg Roll.addrs hroll]
    exact h.addrs
  trouble := by
    rw [show t.core.dialTrouble = s.core.dialTrouble from congrArg Roll.trouble hroll]
    exact h.trouble
  dials := by
    rw [show t.core.pendingPeerDials = s.core.pendingPeerDials from congrArg Roll.dials hroll]
    exact h.dials
  links := by
    rw [hlinks]
    exact h.links
  made := by
    rw [hmade]
    exact h.made
  told := by
    rw [hact, hsends]
    exact h.told

theorem not_reaches (h : Clear p s) : ¬ s.core.Reaches p := by
  rintro ⟨l, u, hu, hp⟩
  exact h.links l _ hu hp

theorem ne_of_known (h : Clear p s) {q : DeviceId} {r : PeerRecord}
    (hq : s.core.peers[q]? = some r) : q ≠ p := by
  rintro rfl
  exact h.store (ExtTreeMap.mem_iff_isSome_getElem?.mpr (by simp [hq]))

theorem aloof (h : Clear p s) (ha : Aloof s t) : Clear p t := by
  have hsame : Clear p { t with core.links := s.core.links, actions := s.actions, sends := s.sends } :=
    h.of_same ha.roll rfl ha.made rfl rfl
  refine ⟨hsame.store, hsame.keyed, hsame.addrs, hsame.trouble, hsame.dials, ?_, hsame.made, ?_⟩
  · intro l st hst
    obtain ⟨st', hst', hface⟩ := Option.map_eq_some_iff.mp ((ha.face l).symm.trans (Core.face_of hst))
    rw [← hface]
    exact h.links l st' hst'
  · obtain ⟨as, hist, hact, hsends, hq⟩ := ha.told
    rw [hact, hsends]
    simp only [List.mem_append, or_and_right, exists_or, h.told, hq p h.not_reaches]

theorem push (h : Clear p s) (a : Action) (ha : a.presence ≠ some p) : Clear p (s.push a) := by
  refine ⟨h.store, h.keyed, h.addrs, h.trouble, h.dials, h.links, h.made, ?_⟩
  have hact : (s.push a).actions = s.actions ++ [a] := rfl
  have hsends : (s.push a).sends = s.sends := rfl
  rw [hact, hsends]
  simpa [or_and_right, exists_or, ha] using h.told

theorem ui (h : Clear p s) (e : UiEvent) (he : e.presence ≠ some p) : Clear p (s.ui e) :=
  h.push (.ui e) he

theorem add (h : Clear p s) (a : Action) (ha : a.presence = none) : Clear p (s.push a) :=
  h.push a (by simp [ha])

theorem say (h : Clear p s) (e : UiEvent) (he : e.presence = none) : Clear p (s.ui e) :=
  h.add (.ui e) he

theorem unlink (h : Clear p s) (l : LinkId) : Clear p (s.unlink l) :=
  ⟨h.store, h.keyed, h.addrs, h.trouble, h.dials,
    fun l' st hst => h.links l' st (Lib.getElem?_of_erase hst).2, h.made, h.told⟩

theorem insertLink (h : Clear p s) (l : LinkId) {st : LinkState X} (hst : ¬ st.face.Regards p) :
    Clear p (s.insertLink l st) := by
  refine ⟨h.store, h.keyed, h.addrs, h.trouble, h.dials, ?_, h.made, h.told⟩
  intro l' st' hst'
  rcases Lib.getElem?_of_insert hst' with ⟨-, rfl⟩ | ⟨-, hold⟩
  · exact hst
  · exact h.links l' st' hold

theorem foldl {α : Type} {f : Exec X P → α → Exec X P} {as : List α}
    (hf : ∀ s, ∀ a ∈ as, Clear p s → Clear p (f s a)) (h : Clear p s) : Clear p (as.foldl f s) := by
  induction as generalizing s with
  | nil => exact h
  | cons a as ih =>
    exact ih (fun s b hb => hf s b (List.mem_cons_of_mem _ hb)) (hf s a List.mem_cons_self h)

theorem eraseDial (h : Clear p s) (d : DialToken) :
    Clear p { s with core.pendingPeerDials := s.core.pendingPeerDials.erase d } :=
  ⟨h.store, h.keyed, h.addrs, h.trouble,
    fun d' e he => h.dials d' e (Lib.getElem?_of_erase he).2, h.links, h.made, h.told⟩

theorem insertTrouble (h : Clear p s) {q : DeviceId} (hq : q ≠ p) (why : String) :
    Clear p { s with core.dialTrouble := s.core.dialTrouble.insert q why } := by
  refine ⟨h.store, h.keyed, h.addrs, ?_, h.dials, h.links, h.made, h.told⟩
  rw [Lib.mem_insert]
  rintro (he | hm)
  · exact hq he.symm
  · exact h.trouble hm

theorem insertAddrs (h : Clear p s) {q : DeviceId} (hq : q ≠ p) (routes : Routes) :
    Clear p { s with core.addrs := s.core.addrs.insert q routes } := by
  refine ⟨h.store, h.keyed, ?_, h.trouble, h.dials, h.links, h.made, h.told⟩
  rw [Lib.mem_insert]
  rintro (he | hm)
  · exact hq he.symm
  · exact h.addrs hm

theorem insertPeer (h : Clear p s) {q : DeviceId} (hq : q ≠ p) {r : PeerRecord}
    (hr : r.id X = some q) : Clear p { s with core.peers := s.core.peers.insert q r } := by
  refine ⟨?_, ?_, h.addrs, h.trouble, h.dials, h.links, h.made, h.told⟩
  · rw [Lib.mem_insert]
    rintro (he | hm)
    · exact hq he.symm
    · exact h.store hm
  · intro q' r' hr'
    rcases Lib.getElem?_of_insert hr' with ⟨rfl, rfl⟩ | ⟨-, hold⟩
    · exact hr
    · exact h.keyed q' r' hold

end Clear
end Acrylius
