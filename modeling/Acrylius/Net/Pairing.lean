import Acrylius.Core.Admission
import Acrylius.Net.InStep

/-! Two cores that pair over a reliable ordered link, each with whatever else happens to it: the
digits that two people compare, and what the two devices would keep of each other. -/
namespace Acrylius
open Proto Std

variable {X : Crates} {P : Type}

/-- A pairing handshake of a device, as initiator or not, and the messages it wrote and read. -/
inductive Handshake.Script (id : Identity X) : Bool → Handshake X → List Bytes → Prop where
  | dial {seed : X.Seed} {hs : Handshake X} (build : pairInitiator id seed = .ok hs) :
      Script id true hs []
  | answer {seed : X.Seed} {hs : Handshake X} (build : pairResponder id seed = .ok hs) :
      Script id false hs []
  | read {b : Bool} {hs hs' : Handshake X} {ms : List Bytes} {m p : Bytes}
      (before : Script id b hs ms) (h : hs.read m = .ok (p, hs')) : Script id b hs' (ms ++ [m])
  | write {b : Bool} {hs hs' : Handshake X} {ms : List Bytes} {m p : Bytes}
      (before : Script id b hs ms) (h : hs.write p = .ok (m, hs')) : Script id b hs' (ms ++ [m])

/-- What the core relies on about `XX`: two ends that wrote and read the same messages are finished
or not together, and if they are, they have one hash and each other's static key. -/
structure Crates.PairLaw (X : Crates) : Prop where
  finished : ∀ {ida idb : Identity X} {hs hs' : Handshake X} {ms : List Bytes},
    hs.Script ida true ms → hs'.Script idb false ms → hs.isComplete = hs'.isComplete
  agree : ∀ {ida idb : Identity X} {hs hs' : Handshake X} {ms : List Bytes},
    hs.Script ida true ms → hs'.Script idb false ms → hs.isComplete →
    hs.handshakeHash = hs'.handshakeHash ∧ hs.peerStatic = some idb.publicKey ∧
      hs'.peerStatic = some ida.publicKey

def Core.shownOn (c : Core X P) (l : LinkId) : Option AwaitingConfirm :=
  (c.pairing.bind (·.awaiting)).filter (·.link = l)

def AwaitingConfirm.Of (id : Identity X) (b : Bool) (ms : List Bytes) (a : AwaitingConfirm) : Prop :=
  ∃ hs hash pk hello, Handshake.Script id b hs ms ∧ hs.handshakeHash = .ok hash ∧
    hs.peerStatic = some pk ∧ a.record = Exec.pairedRecord X hash pk hello ∧
    a.sas = Pairing.sas X hash

def Handshake.Wrote (id : Identity X) (b : Bool) (ms : List Bytes) (m : Bytes) : Prop :=
  ∃ hs p hs', Script id b hs ms ∧ hs.write p = .ok (m, hs')

/-- Where one end of the link stands after these messages: it is gone, it has heard nothing yet, it
is in the middle of the handshake, or it is done with it. -/
inductive Half (id : Identity X) (b : Bool) (ms : List Bytes) :
    Option (LinkState X) → Option AwaitingConfirm → Prop where
  | gone {w : Option AwaitingConfirm} (shown : ∀ a, w = some a → a.Of id b ms) : Half id b ms none w
  | fresh {q : PendingLink} (hb : b = false) (hms : ms = []) : Half id b ms (some (.pending q)) none
  | talking {h : HandshakingLink X} (flow : h.pairingFlow) (script : h.hs.Script id b ms) :
      Half id b ms (some (.handshaking h)) none
  | finished {q : PendingLink} {hs : Handshake X} {w : Option AwaitingConfirm}
      (script : hs.Script id b ms) (done : hs.isComplete) (shown : ∀ a, w = some a → a.Of id b ms) :
      Half id b ms (some (.pending q)) w

theorem Handshake.complete_of_hash {hs : Handshake X} {hash : Bytes}
    (h : hs.handshakeHash = .ok hash) : hs.isComplete := by
  unfold handshakeHash at h
  split at h
  · assumption
  · cases h

section Half
variable {id : Identity X} {b : Bool} {ms : List Bytes} {st st' : Option (LinkState X)}
  {w w' : Option AwaitingConfirm} {fs : List Bytes}

theorem AwaitingConfirm.of_none (a : AwaitingConfirm) (ha : none = some a) : a.Of id b ms := by
  cases ha

theorem AwaitingConfirm.Of.complete {a : AwaitingConfirm} (h : a.Of id b ms) :
    ∃ hs : Handshake X, hs.Script id b ms ∧ hs.isComplete := by
  obtain ⟨hs, hash, pk, hello, hscript, hhash, -⟩ := h
  exact ⟨hs, hscript, Handshake.complete_of_hash hhash⟩

theorem Half.shown (h : Half id b ms st w) {a : AwaitingConfirm} (ha : w = some a) :
    a.Of id b ms := by
  cases h with
  | gone shown => exact shown a ha
  | fresh | talking => cases ha
  | finished _ _ shown => exact shown a ha

/-- Whatever else happens says nothing on the link, and leaves it or drops it. -/
theorem Half.fate (h : Half id b ms st w) (hf : LinkFate false st fs st') :
    fs = [] ∧ Half id b ms st' w := by
  obtain ⟨z, hdrift, hz⟩ := hf
  cases h with
  | gone shown =>
    cases hdrift
    obtain rfl | rfl := hz <;> exact ⟨rfl, .gone shown⟩
  | fresh hb hms =>
    cases hdrift
    obtain rfl | rfl := hz
    · exact ⟨rfl, .fresh hb hms⟩
    · exact ⟨rfl, .gone AwaitingConfirm.of_none⟩
  | talking flow script =>
    cases hdrift
    obtain rfl | rfl := hz
    · exact ⟨rfl, .talking flow script⟩
    · exact ⟨rfl, .gone AwaitingConfirm.of_none⟩
  | finished script done shown =>
    cases hdrift
    obtain rfl | rfl := hz
    · exact ⟨rfl, .finished script done shown⟩
    · exact ⟨rfl, .gone shown⟩

theorem Half.unsessioned (h : Half id b ms st w) : Unsessioned st := by
  intro s hs
  cases h with
  | gone => cases hs
  | fresh | finished =>
    cases hs
    exact .inl ⟨_, rfl⟩
  | talking flow =>
    cases hs
    exact .inr ⟨_, rfl, flow⟩

theorem Half.unshown (h : Half id b ms st w)
    (hopen : ∀ hs : Handshake X, hs.Script id b ms → hs.isComplete = false) : w = none := by
  cases w with
  | none => rfl
  | some a =>
    obtain ⟨hs, hscript, hdone⟩ := (h.shown rfl).complete
    exact absurd (hdone.symm.trans (hopen hs hscript)) (by decide)

theorem Half.of_handshaking {h : HandshakingLink X} (hh : Half id b ms (some (.handshaking h)) w) :
    h.pairingFlow ∧ h.hs.Script id b ms := by
  cases hh with
  | talking flow script => exact ⟨flow, script⟩

theorem Half.of_pending {q : PendingLink} (hh : Half id b ms (some (.pending q)) w)
    (hopen : ∀ hs : Handshake X, hs.Script id b ms → hs.isComplete = false) :
    b = false ∧ ms = [] := by
  cases hh with
  | fresh hb hms => exact ⟨hb, hms⟩
  | finished script done => exact absurd (done.symm.trans (hopen _ script)) (by decide)

theorem Half.not_up {u : UpLink X} : ¬ Half id b ms (some (.up u)) w := by
  rintro ⟨⟩

/-- An end heard the next message and replied so, or it took no notice and waits for nothing. -/
def TakesTurn (id : Identity X) (b : Bool) (ms : List Bytes) (m : Bytes) (reply : List Bytes)
    (st : Option (LinkState X)) (w : Option AwaitingConfirm) : Prop :=
  Half id b (ms ++ m :: reply) st w ∧
      (∀ r ∈ reply, reply = [r] ∧ Handshake.Wrote id b (ms ++ [m]) r) ∨
    reply = [] ∧ w = none ∧ Unsessioned st

theorem Handshake.Script.turn {hs hs' hs'' : Handshake X} {m p q : Bytes} {owes : Bool}
    {reply : List Bytes} (h : hs.Script id b ms) (hread : hs.read m = .ok (p, hs'))
    (hturn : hs'.Turn owes q reply hs'') :
    hs''.Script id b (ms ++ m :: reply) ∧
      ∀ r ∈ reply, reply = [r] ∧ Wrote id b (ms ++ [m]) r := by
  have hnext := h.read hread
  unfold Turn at hturn
  split at hturn
  · obtain ⟨m', hwrite, rfl⟩ := hturn
    refine ⟨?_, ?_⟩
    · have hboth := hnext.write hwrite
      rwa [List.append_assoc] at hboth
    · intro r hr
      rw [List.mem_singleton.mp hr]
      exact ⟨rfl, hs', q, hs'', hnext, hwrite⟩
  · obtain ⟨rfl, rfl⟩ := hturn
    exact ⟨hnext, fun r hr => absurd hr List.not_mem_nil⟩

end Half

/-- A pairing message that is read in the middle of the handshake. -/
theorem PairRead.turn {i : Core.Input X} {s : Exec X P} {l : LinkId} {b : Bool} {ms : List Bytes}
    {m payload : Bytes} {h : HandshakingLink X} {reply : List Bytes} {hs' : Handshake X}
    (hread : PairRead i s l h payload reply hs')
    (hhalf : Half s.core.identity b ms (s.core.links[l]?) (s.core.shownOn l))
    (he : i.event = .linkRecv l (Frame.join .pairHandshake m)) :
    hs'.Script s.core.identity b (ms ++ m :: reply) ∧
      ∀ r ∈ reply, reply = [r] ∧ Handshake.Wrote s.core.identity b (ms ++ [m]) r := by
  obtain ⟨msg, body, hs, hevent, hframe, hr, hturn⟩ := hread.read
  cases hevent.symm.trans he
  rw [Frame.split_join] at hframe
  cases hframe
  rw [hread.link] at hhalf
  exact hhalf.of_handshaking.2.turn hr hturn

variable [Plugin P]

namespace Core
variable {c : Core X P} {i : Input X} {l : LinkId} {b : Bool} {ms : List Bytes}

theorem shownOn_none_of {w : Option PairingWindow} (h : w.bind (·.awaiting) = none) :
    (w.bind (·.awaiting)).filter (·.link = l) = none := by rw [h, Option.filter_none]

theorem shownOn_foreign (he : i.event.touches l = false) :
    (c.step i).shownOn l = c.shownOn l ∨ (c.step i).shownOn l = none := by
  obtain ⟨mid, hhead, htrust, -⟩ := step_trust (c := c) (i := i)
  have hpairing : (c.step i).pairing = mid.core.pairing := congrArg Trust.pairing htrust
  unfold shownOn
  rw [hpairing]
  rcases hhead.pairing_cases rfl with hsame | ⟨-, d', h'⟩ |
    ⟨l', h', payload, reply, hs', hash, pk, hello, d₀, d', hread, -, -, -, heq⟩ |
    ⟨_, _, _, _, _, h' | h'⟩ | ⟨-, h', -⟩ | ⟨-, h'⟩
  · exact .inl (by rw [hsame]; rfl)
  · exact .inr (shownOn_none_of (by rw [h']; rfl))
  · obtain ⟨msg, _, _, hevent, -⟩ := hread.read
    have hne : l' ≠ l := by
      rw [hevent] at he
      simpa [Event.touches] using he
    right
    rw [heq]
    simp [Option.filter, hne]
  · exact .inr (shownOn_none_of (by rw [h']; rfl))
  · exact .inr (shownOn_none_of (by rw [h']; rfl))
  · exact .inr (shownOn_none_of (by rw [h']; rfl))
  · exact .inr (shownOn_none_of (by rw [h']; rfl))

theorem half_foreign {w : Option AwaitingConfirm} (h : Half c.identity b ms (c.links[l]?) w)
    (he : i.event.touches l = false) : framesOn l (c.handle i).2.actions = [] ∧
      Half (c.step i).identity b ms ((c.step i).links[l]?) w := by
  rw [step_identity]
  exact h.fate (c.step_foreign i he false (by simp))

/-- The head of a step, and then what follows it, at a link that is not established. -/
theorem half_after {mid : Exec X P} (h : Half c.identity b ms (mid.core.links[l]?) (mid.core.shownOn l))
    (htrust : (c.step i).trust = mid.core.trust) (hafter : Aftermath i.now.monotonicMs mid (c.exec i)) :
    framesOn l (c.handle i).2.actions = framesOn l mid.actions ∧
      Half (c.step i).identity b ms ((c.step i).links[l]?) ((c.step i).shownOn l) := by
  obtain ⟨as, hist, hact, -, -, -, hl⟩ := hafter.trace
  obtain ⟨hframes, hhalf⟩ := h.fate (hl false (by simp) l)
  have hshown : (c.step i).shownOn l = mid.core.shownOn l := by
    unfold shownOn
    rw [show (c.step i).pairing = mid.core.pairing from congrArg Trust.pairing htrust]
  rw [step_identity, hshown]
  refine ⟨?_, hhalf⟩
  change framesOn l (c.exec i).actions = _
  rw [hact, framesOn_append, hframes, List.append_nil]

omit [Plugin P] in
theorem shownOn_congr {c' : Core X P} (h : c'.pairing = c.pairing) : c'.shownOn l = c.shownOn l := by
  unfold shownOn
  rw [h]

omit [Plugin P] in
theorem shownOn_of_unshown {w : Option PairingWindow} (h : c.pairing = w)
    (hw : w.bind (·.awaiting) = none) : c.shownOn l = none := by
  unfold shownOn
  rw [h]
  exact shownOn_none_of hw

end Core

/-- The head of a step in which a message of the handshake arrives. -/
theorem Head.takesTurn {i : Core.Input X} {s t : Exec X P} {l : LinkId} {b : Bool} {ms : List Bytes}
    {m : Bytes} (h : Head i s t)
    (hhalf : Half s.core.identity b ms (s.core.links[l]?) (s.core.shownOn l))
    (hopen : ∀ hs : Handshake X, hs.Script s.core.identity b ms → hs.isComplete = false)
    (he : i.event = .linkRecv l (Frame.join .pairHandshake m)) :
    ∃ reply, framesOn l t.actions = framesOn l s.actions ++ reply.map (Frame.join .pairHandshake) ∧
      TakesTurn s.core.identity b ms m reply (t.core.links[l]?) (t.core.shownOn l) := by
  have hnone : s.core.shownOn l = none := hhalf.unshown hopen
  have hsplit : Frame.split (Frame.join .pairHandshake m) = some (.pairHandshake, m) :=
    Frame.split_join _ _
  have not_session : ∀ {l' attrs peer payload hs owes},
      ¬ SessionRead i s l' attrs peer payload hs owes := by
    intro l' attrs peer payload hs owes hread
    have hkind : ∀ {msg body : Bytes}, i.event = .linkRecv l' msg →
        Frame.split msg ≠ some (.sessionHandshake, body) := by
      intro msg body hevent
      cases hevent.symm.trans he
      rw [hsplit]
      simp
    cases hread with
    | opener event frame => exact hkind event frame
    | reply event frame => exact hkind event frame
  have gone : t.core.links = s.core.links.erase l → t.core.links[l]? = none := by
    intro hlinks
    rw [hlinks, ExtTreeMap.getElem?_erase_self]
  have kept : ∀ {st : LinkState X}, t.core.links = s.core.links.insert l st →
      t.core.links[l]? = some st := by
    intro st hlinks
    rw [hlinks, ExtTreeMap.getElem?_insert_self]
  cases h
  case idle =>
    exact ⟨[], (List.append_nil _).symm, .inr ⟨rfl, hnone, hhalf.unsessioned⟩⟩
  case opened event _ => cases event.symm.trans he
  case dialledSession event _ _ _ _ _ _ _ _ _ _ => cases event.symm.trans he
  case dialledPair event _ _ _ _ _ _ _ => cases event.symm.trans he
  case hungUp event _ _ _ => cases event.symm.trans he
  case undialled event _ _ => cases event.symm.trans he
  case lapsed event _ _ _ => cases event.symm.trans he
  case denied event _ _ => cases event.symm.trans he
  case unkeyed event _ _ _ => cases event.symm.trans he
  case confirmed event _ _ _ => cases event.symm.trans he
  case claimed event _ _ => cases event.symm.trans he
  case revoked event _ => cases event.symm.trans he
  case failed l' dials quiet as may has view =>
    obtain rfl : l' = l := by
      obtain ⟨attrs, dial, event⟩ | ⟨msg, event, -⟩ := may
      · cases event.symm.trans he
      · cases event.symm.trans he
        rfl
    refine ⟨[], ?_, .inl ⟨?_, fun r hr => absurd hr List.not_mem_nil⟩⟩
    · rw [Exec.actions_of view, framesOn_append, framesOn_refuses has]
      rfl
    · have hshown : t.core.shownOn l' = none :=
        (Core.shownOn_congr (Exec.pairing_of view)).trans hnone
      rw [gone (Exec.links_of view), hshown]
      exact .gone AwaitingConfirm.of_none
  case answered l' msg body payload hs₀ hs hs' m' p' h' event frame link free build read write state
      flow view =>
    cases event.symm.trans he
    rw [hsplit] at frame
    cases frame
    rw [link] at hhalf
    obtain ⟨rfl, rfl⟩ := hhalf.of_pending hopen
    have hscript := (Handshake.Script.answer build).read read
    have hshown : t.core.shownOn l = none := Core.shownOn_of_unshown (Exec.pairing_of view) rfl
    refine ⟨[m'], ?_, .inl ⟨?_, ?_⟩⟩
    · rw [Exec.actions_of view, framesOn_append, framesOn_framesFor, if_pos rfl]
      rfl
    · rw [kept (Exec.links_of view), hshown]
      subst state
      exact .talking flow (hscript.write write)
    · intro r hr
      obtain rfl := List.mem_singleton.mp hr
      exact ⟨rfl, hs, _, hs', hscript, write⟩
  case wasted read _ _ _ _ =>
    exact absurd read not_session
  case established read _ _ _ _ =>
    exact absurd read not_session
  case continued l' msg kind body payload reply hs hs' h' event frame fits link read turn waiting
      view =>
    cases event.symm.trans he
    rw [hsplit] at frame
    cases frame
    rw [link] at hhalf
    obtain ⟨hflow, hsaid⟩ := hhalf.of_handshaking
    obtain ⟨hscript, hreply⟩ := hsaid.turn read turn
    refine ⟨reply, ?_, .inl ⟨?_, hreply⟩⟩
    · rw [Exec.actions_of view, framesOn_append, framesOn_framesFor, if_pos rfl]
      rfl
    · have hshown : t.core.shownOn l = none :=
        (Core.shownOn_congr (Exec.pairing_of view)).trans hnone
      rw [kept (Exec.links_of view), hshown]
      exact .talking hflow hscript
  case abandoned l' msg body h' reply as event frame link flow unread has view =>
    cases event.symm.trans he
    have hshown : t.core.shownOn l = none := Core.shownOn_of_unshown (Exec.pairing_of view) rfl
    refine ⟨reply, ?_, .inl ⟨?_, ?_⟩⟩
    · rw [Exec.actions_of view, framesOn_append, framesOn_append, framesOn_refuses has,
        framesOn_framesFor, if_pos rfl, List.append_nil]
      rfl
    · rw [gone (Exec.links_of view), hshown]
      exact .gone AwaitingConfirm.of_none
    · obtain ⟨-, rfl⟩ | ⟨payload, hs', hread, -⟩ := unread
      · exact fun r hr => absurd hr List.not_mem_nil
      · exact (hread.turn hhalf he).2
  case unwanted l' h' payload reply hs' as read has view =>
    obtain ⟨msg, _, _, event, -⟩ := read.read
    cases event.symm.trans he
    have hshown : t.core.shownOn l = none :=
      (Core.shownOn_congr (Exec.pairing_of view)).trans hnone
    refine ⟨reply, ?_, .inl ⟨?_, (read.turn hhalf he).2⟩⟩
    · rw [Exec.actions_of view, framesOn_append, framesOn_append, framesOn_refuses has,
        framesOn_framesFor, if_pos rfl, List.append_nil]
      rfl
    · rw [gone (Exec.links_of view), hshown]
      exact .gone AwaitingConfirm.of_none
  case awaited l' h' payload reply hs' hash pk hello deadline read hash_ok static decoded window
      view =>
    obtain ⟨msg, _, _, event, -⟩ := read.read
    cases event.symm.trans he
    obtain ⟨hscript, hreply⟩ := read.turn hhalf he
    refine ⟨reply, ?_, .inl ⟨?_, hreply⟩⟩
    · rw [Exec.actions_of view, framesOn_append, framesOn_append, framesOn_framesFor, if_pos rfl]
      exact congrArg (framesOn l s.actions ++ ·) (List.append_nil _)
    · rw [kept (Exec.links_of view)]
      refine .finished hscript (Handshake.complete_of_hash hash_ok)
        fun a ha => ⟨hs', hash, pk, hello, hscript, hash_ok, static, ?_⟩
      unfold Core.shownOn at ha
      rw [Exec.pairing_of view] at ha
      obtain ⟨ha, -⟩ := Option.filter_eq_some_iff.mp ha
      cases ha
      exact ⟨rfl, rfl⟩
  case received l' msg body u plaintext session event frame link decrypt view =>
    cases event.symm.trans he
    rw [link] at hhalf
    exact absurd hhalf Half.not_up

namespace Core
variable {c : Core X P} {i : Input X} {l : LinkId} {b : Bool} {ms : List Bytes} {m : Bytes}

theorem half_recv (h : Half c.identity b ms (c.links[l]?) (c.shownOn l))
    (hopen : ∀ hs : Handshake X, hs.Script c.identity b ms → hs.isComplete = false)
    (he : i.event = .linkRecv l (Frame.join .pairHandshake m)) :
    ∃ reply, framesOn l (c.handle i).2.actions = reply.map (Frame.join .pairHandshake) ∧
      TakesTurn c.identity b ms m reply ((c.step i).links[l]?) ((c.step i).shownOn l) := by
  obtain ⟨mid, hhead, htrust, hafter⟩ := step_trust (c := c) (i := i)
  obtain ⟨reply, hframes, hturns⟩ := hhead.takesTurn h hopen he
  refine ⟨reply, ?_⟩
  rcases hturns with ⟨hhalf, hwrote⟩ | ⟨rfl, hnone, hun⟩
  · obtain ⟨hsame, hnext⟩ := half_after hhalf htrust hafter
    rw [step_identity] at hnext
    exact ⟨hsame.trans hframes, .inl ⟨hnext, hwrote⟩⟩
  · obtain ⟨as, hist, hact, -, -, -, hl⟩ := hafter.trace
    obtain ⟨hquiet, hun'⟩ := (hl false (by simp) l).unsessioned hun
    have hshown : (c.step i).shownOn l = none :=
      (shownOn_congr (congrArg Trust.pairing htrust)).trans hnone
    refine ⟨?_, .inr ⟨rfl, hshown, hun'⟩⟩
    change framesOn l (c.exec i).actions = _
    rw [hact, framesOn_append, hframes, hquiet]
    rfl

end Core

omit [Plugin P] in
theorem Handshake.open_of_write {hs : Handshake X} {p : Bytes} {r : Bytes × Handshake X}
    (h : hs.write p = .ok r) : hs.isComplete = false := by
  unfold write at h
  split at h
  · cases h
  · rename_i hopen
    exact Bool.eq_false_iff.mpr hopen

/-- How far the two ends of a link have got: level, one of them ahead by a message, which is in
flight, or they will not get on with it. -/
inductive Meeting (ida idb : Identity X) : Option (LinkState X) → Option AwaitingConfirm →
    List Bytes → Option (LinkState X) → Option AwaitingConfirm → List Bytes → Prop where
  | level {x y wa wb ms} (hx : Half ida true ms x wa) (hy : Half idb false ms y wb) :
      Meeting ida idb x wa [] y wb []
  | ahead {x y wa wb ms m} (hx : Half ida true (ms ++ [m]) x wa) (hy : Half idb false ms y wb)
      (wrote : Handshake.Wrote ida true ms m) :
      Meeting ida idb x wa [Frame.join .pairHandshake m] y wb []
  | behind {x y wa wb ms m} (hx : Half ida true ms x wa) (hy : Half idb false (ms ++ [m]) y wb)
      (wrote : Handshake.Wrote idb false ms m) :
      Meeting ida idb x wa [] y wb [Frame.join .pairHandshake m]
  | stuck {x y wa wb} (hx : Unsessioned x) (hy : Unsessioned y) (hw : wa = none ∨ wb = none) :
      Meeting ida idb x wa [] y wb []

/-- What two people compared is of one handshake. -/
theorem Meeting.agree {ida idb : Identity X} {x y : Option (LinkState X)} {p q : AwaitingConfirm}
    {ab ba : List Bytes} (law : X.PairLaw) (h : Meeting ida idb x (some p) ab y (some q) ba) :
    ∃ ms, p.Of ida true ms ∧ q.Of idb false ms := by
  have open_ : ∀ {id : Identity X} {b : Bool} {ms : List Bytes} {m : Bytes},
      Handshake.Wrote id b ms m → ∃ hs, Handshake.Script id b hs ms ∧ hs.isComplete = false := by
    rintro id b ms m ⟨hs, p, hs', hscript, hwrite⟩
    exact ⟨hs, hscript, Handshake.open_of_write hwrite⟩
  cases h with
  | level hx hy => exact ⟨_, hx.shown rfl, hy.shown rfl⟩
  | ahead hx hy wrote =>
    obtain ⟨hs, hscript, hopen⟩ := open_ wrote
    obtain ⟨hs', hscript', hdone⟩ := (hy.shown rfl).complete
    have hsame := law.finished hscript hscript'
    rw [hopen, hdone] at hsame
    cases hsame
  | behind hx hy wrote =>
    obtain ⟨hs, hscript, hopen⟩ := open_ wrote
    obtain ⟨hs', hscript', hdone⟩ := (hx.shown rfl).complete
    have hsame := law.finished hscript' hscript
    rw [hopen, hdone] at hsame
    cases hsame
  | stuck hx hy hw =>
    rcases hw with hw | hw <;> cases hw

namespace Duplex
variable {la lb : LinkId} {w : Duplex X P} {wa wb : Option AwaitingConfirm}

/-- How far a pair of cores has got, with what each end showed on the link so far. -/
structure Meets (la lb : LinkId) (wa wb : Option AwaitingConfirm) (w : Duplex X P) : Prop where
  along : Meeting w.a.identity w.b.identity (w.a.links[la]?) wa w.ab (w.b.links[lb]?) wb w.ba
  nowA : w.a.shownOn la = wa ∨ w.a.shownOn la = none
  nowB : w.b.shownOn lb = wb ∨ w.b.shownOn lb = none

theorem Meets.atA (h : w.Meets la lb wa wb) {i : Core.Input X} (he : i.event.touches la = false) :
    (w.atA la i).Meets la lb wa wb := by
  refine ⟨?_, ?_, h.nowB⟩
  · have halong := h.along
    generalize hab : w.ab = ab at halong
    generalize hba : w.ba = ba at halong
    cases halong with
    | level hx hy =>
      obtain ⟨hframes, hx'⟩ := Core.half_foreign hx he
      simp only [Duplex.atA, hab, hba, hframes, List.append_nil]
      exact .level hx' hy
    | ahead hx hy wrote =>
      obtain ⟨hframes, hx'⟩ := Core.half_foreign hx he
      simp only [Duplex.atA, hab, hba, hframes, List.append_nil]
      exact .ahead hx' hy (by rw [Core.step_identity]; exact wrote)
    | behind hx hy wrote =>
      obtain ⟨hframes, hx'⟩ := Core.half_foreign hx he
      simp only [Duplex.atA, hab, hba, hframes, List.append_nil]
      exact .behind hx' hy wrote
    | stuck hx hy hw =>
      obtain ⟨hframes, hx'⟩ := (w.a.step_foreign i he false (by simp)).unsessioned hx
      simp only [Duplex.atA, hab, hba, hframes, List.append_nil]
      exact .stuck hx' hy hw
  · rcases Core.shownOn_foreign (c := w.a) he with hsame | hnone
    · exact h.nowA.imp hsame.trans hsame.trans
    · exact .inr hnone

theorem Meets.atB (h : w.Meets la lb wa wb) {i : Core.Input X} (he : i.event.touches lb = false) :
    (w.atB lb i).Meets la lb wa wb := by
  refine ⟨?_, h.nowA, ?_⟩
  · have halong := h.along
    generalize hab : w.ab = ab at halong
    generalize hba : w.ba = ba at halong
    cases halong with
    | level hx hy =>
      obtain ⟨hframes, hy'⟩ := Core.half_foreign hy he
      simp only [Duplex.atB, hab, hba, hframes, List.append_nil]
      exact .level hx hy'
    | ahead hx hy wrote =>
      obtain ⟨hframes, hy'⟩ := Core.half_foreign hy he
      simp only [Duplex.atB, hab, hba, hframes, List.append_nil]
      exact .ahead hx hy' wrote
    | behind hx hy wrote =>
      obtain ⟨hframes, hy'⟩ := Core.half_foreign hy he
      simp only [Duplex.atB, hab, hba, hframes, List.append_nil]
      exact .behind hx hy' (by rw [Core.step_identity]; exact wrote)
    | stuck hx hy hw =>
      obtain ⟨hframes, hy'⟩ := (w.b.step_foreign i he false (by simp)).unsessioned hy
      simp only [Duplex.atB, hab, hba, hframes, List.append_nil]
      exact .stuck hx hy' hw
  · rcases Core.shownOn_foreign (c := w.b) he with hsame | hnone
    · exact h.nowB.imp hsame.trans hsame.trans
    · exact .inr hnone

theorem Meets.toB (law : X.PairLaw) (h : w.Meets la lb wa wb) {f : Bytes} {rest : List Bytes}
    (hab : w.ab = f :: rest) (now : Now) (seed : X.Seed) :
    ∃ wb', ({ w with ab := rest }.atB lb ⟨now, seed, .linkRecv lb f⟩).Meets la lb wa wb' ∧
      ∀ q, wb = some q → wb' = some q := by
  obtain ⟨halong, hnowA, hnowB⟩ := h
  generalize hba : w.ba = ba at halong
  rw [hab] at halong
  cases halong with
  | ahead hx hy wrote =>
    rename_i ms m
    have hopen : ∀ hs : Handshake X, hs.Script w.b.identity false ms → hs.isComplete = false := by
      obtain ⟨hs, p, hs', hscript, hwrite⟩ := wrote
      intro hs₁ hscript₁
      exact (law.finished hscript hscript₁).symm.trans (Handshake.open_of_write hwrite)
    obtain rfl := hy.unshown hopen
    have hnone : w.b.shownOn lb = none := hnowB.elim id id
    rw [← hnone] at hy
    obtain ⟨reply, hframes, hturns⟩ := Core.half_recv
      (i := ⟨now, seed, .linkRecv lb (Frame.join .pairHandshake m)⟩) hy hopen rfl
    have halong : Meeting w.a.identity w.b.identity (w.a.links[la]?) wa []
        ((w.b.step ⟨now, seed, .linkRecv lb (Frame.join .pairHandshake m)⟩).links[lb]?)
        ((w.b.step ⟨now, seed, .linkRecv lb (Frame.join .pairHandshake m)⟩).shownOn lb)
        (reply.map (Frame.join .pairHandshake)) := by
      rcases hturns with ⟨hhalf, hwrote⟩ | ⟨rfl, hquiet, hun⟩
      · cases reply with
        | nil => exact .level hx hhalf
        | cons r rs =>
          obtain ⟨hone, hr⟩ := hwrote r List.mem_cons_self
          cases hone
          rw [List.append_cons] at hhalf
          exact .behind hx hhalf hr
      · exact .stuck hx.unsessioned hun (.inr hquiet)
    refine ⟨_, ⟨?_, hnowA, .inl rfl⟩, fun q hq => by cases hq⟩
    simp only [Duplex.atB, hframes, List.nil_append, Core.step_identity]
    exact halong

theorem Meets.toA (law : X.PairLaw) (h : w.Meets la lb wa wb) {f : Bytes} {rest : List Bytes}
    (hba : w.ba = f :: rest) (now : Now) (seed : X.Seed) :
    ∃ wa', ({ w with ba := rest }.atA la ⟨now, seed, .linkRecv la f⟩).Meets la lb wa' wb ∧
      ∀ p, wa = some p → wa' = some p := by
  obtain ⟨halong, hnowA, hnowB⟩ := h
  generalize hab : w.ab = ab at halong
  rw [hba] at halong
  cases halong with
  | behind hx hy wrote =>
    rename_i ms m
    have hopen : ∀ hs : Handshake X, hs.Script w.a.identity true ms → hs.isComplete = false := by
      obtain ⟨hs, p, hs', hscript, hwrite⟩ := wrote
      intro hs₁ hscript₁
      exact (law.finished hscript₁ hscript).trans (Handshake.open_of_write hwrite)
    obtain rfl := hx.unshown hopen
    have hnone : w.a.shownOn la = none := hnowA.elim id id
    rw [← hnone] at hx
    obtain ⟨reply, hframes, hturns⟩ := Core.half_recv
      (i := ⟨now, seed, .linkRecv la (Frame.join .pairHandshake m)⟩) hx hopen rfl
    have halong : Meeting w.a.identity w.b.identity
        ((w.a.step ⟨now, seed, .linkRecv la (Frame.join .pairHandshake m)⟩).links[la]?)
        ((w.a.step ⟨now, seed, .linkRecv la (Frame.join .pairHandshake m)⟩).shownOn la)
        (reply.map (Frame.join .pairHandshake)) (w.b.links[lb]?) wb [] := by
      rcases hturns with ⟨hhalf, hwrote⟩ | ⟨rfl, hquiet, hun⟩
      · cases reply with
        | nil => exact .level hhalf hy
        | cons r rs =>
          obtain ⟨hone, hr⟩ := hwrote r List.mem_cons_self
          cases hone
          rw [List.append_cons] at hhalf
          exact .ahead hhalf hy hr
      · exact .stuck hun hy.unsessioned (.inl hquiet)
    refine ⟨_, ⟨?_, .inl rfl, hnowB⟩, fun q hq => by cases hq⟩
    simp only [Duplex.atA, hframes, List.nil_append, Core.step_identity]
    exact halong

theorem Meets.step (law : X.PairLaw) (h : w.Meets la lb wa wb) (m : Move X) :
    ∃ wa' wb', (w.step la lb m).Meets la lb wa' wb' ∧ (∀ p, wa = some p → wa' = some p) ∧
      ∀ q, wb = some q → wb' = some q := by
  cases m with
  | a i =>
    simp only [Duplex.step]
    split_ifs with he
    · exact ⟨wa, wb, h, fun _ => id, fun _ => id⟩
    · exact ⟨wa, wb, h.atA (Bool.not_eq_true _ ▸ he), fun _ => id, fun _ => id⟩
  | b i =>
    simp only [Duplex.step]
    split_ifs with he
    · exact ⟨wa, wb, h, fun _ => id, fun _ => id⟩
    · exact ⟨wa, wb, h.atB (Bool.not_eq_true _ ▸ he), fun _ => id, fun _ => id⟩
  | toA now seed =>
    simp only [Duplex.step]
    split
    · exact ⟨wa, wb, h, fun _ => id, fun _ => id⟩
    · rename_i f rest hba
      obtain ⟨wa', h', hkeep⟩ := h.toA law hba now seed
      exact ⟨wa', wb, h', hkeep, fun _ => id⟩
  | toB now seed =>
    simp only [Duplex.step]
    split
    · exact ⟨wa, wb, h, fun _ => id, fun _ => id⟩
    · rename_i f rest hab
      obtain ⟨wb', h', hkeep⟩ := h.toB law hab now seed
      exact ⟨wa, wb', h', fun _ => id, hkeep⟩

/-- Over a run, whatever an end showed at any time is what it showed. -/
theorem Meets.run (law : X.PairLaw) (ms : List (Move X)) (h : w.Meets la lb wa wb) :
    ∃ wa' wb', (Lib.run (Duplex.step la lb) w ms).Meets la lb wa' wb' ∧
      ((∀ p, wa = some p → wa' = some p) ∧ ∀ q, wb = some q → wb' = some q) ∧
      ∀ ns, ns <+: ms →
        (∀ p, (Lib.run (Duplex.step la lb) w ns).a.shownOn la = some p → wa' = some p) ∧
        ∀ q, (Lib.run (Duplex.step la lb) w ns).b.shownOn lb = some q → wb' = some q := by
  have shown : ∀ {st v : Option AwaitingConfirm}, st = v ∨ st = none → ∀ p, st = some p →
      v = some p := by
    rintro st v (rfl | rfl) p hp
    · exact hp
    · cases hp
  induction ms generalizing w wa wb with
  | nil =>
    refine ⟨wa, wb, h, ⟨fun _ => id, fun _ => id⟩, fun ns hns => ?_⟩
    obtain rfl := List.prefix_nil.mp hns
    exact ⟨shown h.nowA, shown h.nowB⟩
  | cons m ms ih =>
    obtain ⟨wa₁, wb₁, h₁, hkeepA, hkeepB⟩ := h.step law m
    obtain ⟨wa', wb', h', ⟨hstayA, hstayB⟩, hseen⟩ := ih h₁
    refine ⟨wa', wb', h', ⟨fun p hp => hstayA p (hkeepA p hp),
      fun q hq => hstayB q (hkeepB q hq)⟩, fun ns hns => ?_⟩
    cases ns with
    | nil =>
      exact ⟨fun p hp => hstayA p (hkeepA p (shown h.nowA p hp)),
        fun q hq => hstayB q (hkeepB q (shown h.nowB q hq))⟩
    | cons n ns =>
      obtain ⟨rfl, hrest⟩ := List.cons_prefix_cons.mp hns
      exact hseen ns hrest

theorem step_identities (w : Duplex X P) (m : Move X) :
    (w.step la lb m).a.identity = w.a.identity ∧ (w.step la lb m).b.identity = w.b.identity := by
  cases m with
  | a i =>
    simp only [Duplex.step]
    split_ifs
    · exact ⟨rfl, rfl⟩
    · exact ⟨Core.step_identity, rfl⟩
  | b i =>
    simp only [Duplex.step]
    split_ifs
    · exact ⟨rfl, rfl⟩
    · exact ⟨rfl, Core.step_identity⟩
  | toA now seed =>
    simp only [Duplex.step]
    split
    · exact ⟨rfl, rfl⟩
    · exact ⟨Core.step_identity, rfl⟩
  | toB now seed =>
    simp only [Duplex.step]
    split
    · exact ⟨rfl, rfl⟩
    · exact ⟨rfl, Core.step_identity⟩

/-- One device called the other to pair, on a link where neither shows anything yet. -/
structure Calls (la lb : LinkId) (a c : Core X P) (i j : Core.Input X) : Prop
    extends Joined la lb a c i j where
  asked : ∀ attrs d, i.event = .linkUp la attrs (some d) → d ∈ a.pendingPairDials
  quietA : a.shownOn la = none
  quietB : c.shownOn lb = none

end Duplex

namespace Core
variable {c : Core X P} {i : Input X} {l : LinkId}

/-- A link that was dialled to pair: the first message goes out, or the link is refused. -/
theorem calls_half {attrs : LinkAttrs} {d : DialToken} (he : i.event = .linkUp l attrs (some d))
    (hasked : d ∈ c.pendingPairDials) (hquiet : c.shownOn l = none) :
    (c.step i).shownOn l = none ∧
      (framesOn l (c.handle i).2.actions = [] ∧ (c.step i).links[l]? = none ∨
        ∃ m, framesOn l (c.handle i).2.actions = [Frame.join .pairHandshake m] ∧
          Half c.identity true [m] ((c.step i).links[l]?) none ∧
          Handshake.Wrote c.identity true [] m) := by
  obtain ⟨via, hvia⟩ : ∃ via, c.pendingPairDials[d]? = some via :=
    ⟨_, ExtTreeMap.getElem?_eq_some_getElem hasked⟩
  have hexec : ∃ s : Exec X P, s.core.identity = c.identity ∧ s.core.pairing = c.pairing ∧
      s.actions = [] ∧ ∃ deadline, c.exec i = s.startPairInitiator i.seed l attrs deadline via := by
    refine ⟨{ c.start i with core.pendingPairDials := c.pendingPairDials.erase d }, rfl, rfl, rfl,
      i.now.monotonicMs + c.config.handshakeTimeoutMs, ?_⟩
    unfold exec Exec.onEvent
    rw [he]
    dsimp only
    unfold Exec.onLinkUp
    simp only [Option.bind_some, hvia, Option.map_some]
    rfl
  obtain ⟨s, hid, hpairing, hacts, deadline, hexec⟩ := hexec
  have refused : ∀ detail, (s.failLink l detail).core.shownOn l = none ∧
      framesOn l (s.failLink l detail).actions = [] ∧ (s.failLink l detail).core.links[l]? = none := by
    intro detail
    obtain ⟨e, hview⟩ := Exec.failLink_view s l detail
    refine ⟨(shownOn_congr ((Exec.pairing_of hview).trans hpairing)).trans hquiet, ?_, ?_⟩
    · rw [Exec.actions_of hview]
      change framesOn l (s.actions ++ _) = []
      rw [hacts]
      rfl
    · rw [Exec.links_of hview, ExtTreeMap.getElem?_erase_self]
  change (c.exec i).core.shownOn l = none ∧ (framesOn l (c.exec i).actions = [] ∧
    (c.exec i).core.links[l]? = none ∨ ∃ m, framesOn l (c.exec i).actions = _ ∧
      Half c.identity true [m] ((c.exec i).core.links[l]?) none ∧ _)
  rw [hexec]
  unfold Exec.startPairInitiator
  split
  · obtain ⟨hshown, hframes, hgone⟩ := refused _
    exact ⟨hshown, .inl ⟨hframes, hgone⟩⟩
  · rename_i hs hbuild
    rw [hid] at hbuild
    split
    · obtain ⟨hshown, hframes, hgone⟩ := refused _
      exact ⟨hshown, .inl ⟨hframes, hgone⟩⟩
    · rename_i m hs' hwrite
      have hscript := Handshake.Script.dial hbuild
      refine ⟨(shownOn_congr hpairing).trans hquiet, .inr ⟨m, ?_, ?_, hs, [], hs', hscript, hwrite⟩⟩
      · change framesOn l (s.actions ++ _) = _
        rw [hacts]
        simp [framesOn]
      · simp only [Exec.insertLink, Exec.push, ExtTreeMap.getElem?_insert_self]
        exact .talking rfl (hscript.write hwrite)

theorem accepts_half {attrs : LinkAttrs} (he : i.event = .linkUp l attrs none)
    (hquiet : c.shownOn l = none) : (c.step i).shownOn l = none ∧
      framesOn l (c.handle i).2.actions = [] ∧
      Half c.identity false [] ((c.step i).links[l]?) none := by
  have hexec : c.exec i = (c.start i).insertLink l
      (.pending { attrs, deadline := i.now.monotonicMs + c.config.handshakeTimeoutMs }) := by
    unfold exec Exec.onEvent
    rw [he]
    rfl
  change (c.exec i).core.shownOn l = none ∧ framesOn l (c.exec i).actions = [] ∧
    Half c.identity false [] ((c.exec i).core.links[l]?) none
  rw [hexec]
  refine ⟨(shownOn_congr rfl).trans hquiet, rfl, ?_⟩
  simp only [Exec.insertLink, ExtTreeMap.getElem?_insert_self]
  exact .fresh rfl rfl

theorem confirm_keeps {p : AwaitingConfirm} {id : DeviceId} (hp : c.shownOn l = some p)
    (hid : p.record.id X = some id) (now : Now) (seed : X.Seed) :
    (c.step ⟨now, seed, .localCommand (.confirmPairing true)⟩).peers[id]? = some p.record := by
  obtain ⟨hshown, -⟩ := Option.filter_eq_some_iff.mp hp
  obtain ⟨⟨deadline, awaiting⟩, hpairing, hwait⟩ := Option.bind_eq_some_iff.mp hshown
  obtain rfl : awaiting = some p := hwait
  simp only [step, exec, Exec.onEvent, Exec.onLocal, Exec.confirmPairing, hpairing, hid,
    Bool.not_true, Bool.false_eq_true, if_false, Exec.push, Exec.ui,
    ExtTreeMap.getElem?_insert_self]

end Core

namespace Duplex
variable {la lb : LinkId}

theorem meets_join {a c : Core X P} {i j : Core.Input X} (h : Calls la lb a c i j) :
    (join la lb a c i j).Meets la lb none none := by
  obtain ⟨attrs, d, hi⟩ := h.dialled
  obtain ⟨attrs', hj⟩ := h.accepted
  obtain ⟨hshownB, hframesB, hy⟩ := Core.accepts_half hj h.quietB
  obtain ⟨hshownA, hx⟩ := Core.calls_half hi (h.asked attrs d hi) h.quietA
  refine ⟨?_, .inl hshownA, .inl hshownB⟩
  simp only [join, hframesB, Core.step_identity]
  obtain ⟨hframesA, hgone⟩ | ⟨m, hframesA, hx, hwrote⟩ := hx
  · rw [hframesA, hgone]
    exact .level (.gone AwaitingConfirm.of_none) hy
  · rw [hframesA]
    exact .ahead hx hy hwrote

end Duplex

omit [Plugin P] in
theorem Exec.id_pairedRecord (hash : Bytes) (pk : PublicKey) (hello : Hello) :
    (pairedRecord X hash pk hello).id X = some (DeviceId.of X pk) := by
  rw [PeerRecord.id, PeerRecord.publicKeyArray]
  simp [pairedRecord, Key32.ofBytes_bytes]

/-- Two people who see the digits on the two ends of one link, whenever each saw them, see the same
digits, and two devices they confirm on keep each other's key and one secret. -/
theorem paired_devices_agree (law : X.PairLaw) {la lb : LinkId} {a c : Core X P}
    {i j : Core.Input X} (h : Duplex.Calls la lb a c i j) {ms ma mb : List (Move X)}
    (hma : ma <+: ms) (hmb : mb <+: ms) {p q : AwaitingConfirm}
    (hp : (Lib.run (Duplex.step la lb) (Duplex.join la lb a c i j) ma).a.shownOn la = some p)
    (hq : (Lib.run (Duplex.step la lb) (Duplex.join la lb a c i j) mb).b.shownOn lb = some q) :
    p.sas = q.sas ∧ ∀ (now now' : Now) (seed seed' : X.Seed), ∃ r r',
      ((Lib.run (Duplex.step la lb) (Duplex.join la lb a c i j) ma).a.step
        ⟨now, seed, .localCommand (.confirmPairing true)⟩).peers[
          DeviceId.of X c.identity.publicKey]? = some r ∧
      ((Lib.run (Duplex.step la lb) (Duplex.join la lb a c i j) mb).b.step
        ⟨now', seed', .localCommand (.confirmPairing true)⟩).peers[
          DeviceId.of X a.identity.publicKey]? = some r' ∧
      r.publicKey = c.identity.publicKey.bytes ∧ r'.publicKey = a.identity.publicKey.bytes ∧
      r.sessionPsk = r'.sessionPsk := by
  obtain ⟨wa, wb, hmeets, -, hseen⟩ := (Duplex.meets_join h).run law ms
  obtain rfl := (hseen ma hma).1 p hp
  obtain rfl := (hseen mb hmb).2 q hq
  have hids : (Lib.run (Duplex.step la lb) (Duplex.join la lb a c i j) ms).a.identity = a.identity ∧
      (Lib.run (Duplex.step la lb) (Duplex.join la lb a c i j) ms).b.identity = c.identity :=
    Lib.run_inv (I := fun w : Duplex X P => w.a.identity = a.identity ∧ w.b.identity = c.identity)
      (fun w m hw => ⟨(Duplex.step_identities w m).1.trans hw.1,
        (Duplex.step_identities w m).2.trans hw.2⟩) ⟨Core.step_identity, Core.step_identity⟩ ms
  have halong := hmeets.along
  rw [hids.1, hids.2] at halong
  obtain ⟨ns, hpof, hqof⟩ := halong.agree law
  obtain ⟨hs, hash, pk, hello, hscript, hhash, hpk, hrecord, hsas⟩ := hpof
  obtain ⟨hs', hash', pk', hello', hscript', hhash', hpk', hrecord', hsas'⟩ := hqof
  obtain ⟨hsame, hstatic, hstatic'⟩ :=
    law.agree hscript hscript' (Handshake.complete_of_hash hhash)
  obtain rfl : hash = hash' := Except.ok.inj (hhash.symm.trans (hsame.trans hhash'))
  obtain rfl := Option.some.inj (hpk.symm.trans hstatic)
  obtain rfl := Option.some.inj (hpk'.symm.trans hstatic')
  have hid : p.record.id X = some (DeviceId.of X c.identity.publicKey) :=
    hrecord ▸ Exec.id_pairedRecord hash _ hello
  have hid' : q.record.id X = some (DeviceId.of X a.identity.publicKey) :=
    hrecord' ▸ Exec.id_pairedRecord hash _ hello'
  refine ⟨hsas.trans hsas'.symm, fun now now' seed seed' => ⟨p.record, q.record,
    Core.confirm_keeps hp hid now seed, Core.confirm_keeps hq hid' now' seed', ?_, ?_, ?_⟩⟩
  · rw [hrecord]
    rfl
  · rw [hrecord']
    rfl
  · rw [hrecord, hrecord']
    rfl

namespace Mock

theorem HandshakeState.write_ok {s s' : HandshakeState} {p m : Bytes} (h : s.write p = .ok (m, s')) :
    s.finished = false ∧ s.myTurn = true := by
  unfold HandshakeState.write at h
  dsimp only at h
  split_ifs at h with hturn
  simpa using hturn

/-- After the first message of `XX`, every message carries its writer's key after one byte. -/
theorem HandshakeState.read_pair {s s' : HandshakeState} {p m : Bytes} (hik : s.ik = false)
    (h : s.read m = .ok (p, s')) : s.finished = false ∧ s.myTurn = false ∧
      s' = s.after m (if s.stage = 0 then s.remote else s.remote.or (some ((m.drop 1).take 32))) := by
  unfold HandshakeState.read at h
  rw [hik] at h
  by_cases hturn : (s.finished || s.myTurn) = true
  · rw [if_pos hturn] at h
    cases h
  rw [if_neg hturn] at h
  obtain ⟨hopen, hyours⟩ := Bool.or_eq_false_iff.mp (Bool.not_eq_true _ ▸ hturn)
  refine ⟨hopen, hyours, ?_⟩
  cases hstage : s.stage with
  | zero =>
    simp only [hstage] at h
    split_ifs at h
    cases h
    rfl
  | succ n =>
    simp only [hstage] at h
    split_ifs at h
    cases h
    rfl

/-- Which message of `XX` carries the key of an end. -/
def keyAt (b : Bool) : ℕ := if b then 2 else 1

/-- Where an end stands after these messages: its key is in its own, the other's in the other's. -/
structure AtXX (key : Bytes) (b : Bool) (s : HandshakeState) (ms : List Bytes) : Prop where
  ik : s.ik = false
  initiator : s.initiator = b
  mine : s.mine = key
  stage : s.stage = ms.length
  transcript : s.transcript = ms.flatten
  bound : ms.length ≤ 3
  own : ∀ m, ms[keyAt b]? = some m → (m.drop 1).take 32 = key
  remote : s.remote = (ms[keyAt (!b)]?).map fun m => (m.drop 1).take 32

section AtXX
variable {key m : Bytes} {b : Bool} {s : HandshakeState} {ms : List Bytes} {remote : Option Bytes}

theorem getElem?_snoc (k : ℕ) :
    (ms ++ [m])[k]? = if k = ms.length then some m else ms[k]? := by
  split_ifs with hk
  · rw [hk, List.getElem?_concat_length]
  · rcases Nat.lt_or_gt_of_ne hk with hlt | hgt
    · rw [List.getElem?_append_left hlt]
    · rw [List.getElem?_eq_none (Nat.le_of_lt hgt), List.getElem?_eq_none]
      rw [List.length_append, List.length_singleton]
      omega

theorem AtXX.next (h : AtXX key b s ms) (hlen : ms.length < 3)
    (hown : keyAt b = ms.length → (m.drop 1).take 32 = key)
    (hremote : remote = if keyAt (!b) = ms.length then some ((m.drop 1).take 32) else s.remote) :
    AtXX key b (s.after m remote) (ms ++ [m]) where
  ik := h.ik
  initiator := h.initiator
  mine := h.mine
  stage := by simp [HandshakeState.after, h.stage]
  transcript := by simp [HandshakeState.after, h.transcript]
  bound := by
    rw [List.length_append, List.length_singleton]
    omega
  own m' hm' := by
    rw [getElem?_snoc] at hm'
    split_ifs at hm' with hk
    · cases hm'
      exact hown hk
    · exact h.own m' hm'
  remote := by
    change remote = _
    rw [hremote, getElem?_snoc]
    split_ifs
    · rfl
    · exact h.remote

theorem AtXX.finished_eq (h : AtXX key b s ms) : s.finished = decide (ms.length = 3) := by
  rw [HandshakeState.finished, h.ik, h.stage]
  rfl

/-- Whose turn it is goes by how many messages there were. -/
theorem AtXX.turn (h : AtXX key b s ms) (hopen : s.finished = false) :
    ms.length < 3 ∧ s.myTurn = (b == decide (ms.length % 2 = 0)) := by
  have hstage := h.stage
  have hbound := h.bound
  constructor
  · have hthree := of_decide_eq_false (h.finished_eq.symm.trans hopen)
    omega
  · rw [HandshakeState.myTurn, h.initiator, hstage]
    rcases Nat.mod_two_eq_zero_or_one ms.length with hz | hz <;> cases b <;> simp [hz]

theorem AtXX.read {p : Bytes} {s' : HandshakeState} (h : AtXX key b s ms)
    (hread : s.read m = .ok (p, s')) : AtXX key b s' (ms ++ [m]) := by
  obtain ⟨hopen, hyours, rfl⟩ := HandshakeState.read_pair h.ik hread
  obtain ⟨hlen, hturn⟩ := h.turn hopen
  rw [hyours] at hturn
  have hstage := h.stage
  refine h.next hlen (fun hk => ?_) ?_
  · -- its own key is in a message it writes
    rw [← hk] at hturn
    cases b <;> cases hturn
  · rw [hstage]
    split_ifs with hz hk hk
    · rw [hz] at hk
      cases b <;> cases hk
    · rfl
    · rw [h.remote, List.getElem?_eq_none (Nat.le_of_eq hk.symm)]
      rfl
    · cases b
      · simp only [keyAt, Bool.not_false, if_true] at hk
        have hone : ms.length = 1 := by omega
        rw [hone] at hturn
        cases hturn
      · simp only [keyAt, Bool.not_true, Bool.false_eq_true, if_false] at hk
        have htwo : ms.length = 2 := by omega
        rw [htwo] at hturn
        cases hturn

theorem AtXX.write {p : Bytes} {s' : HandshakeState} (h : AtXX key b s ms) (hsize : key.length = 32)
    (hwrite : s.write p = .ok (m, s')) : AtXX key b s' (ms ++ [m]) := by
  obtain ⟨hm, rfl⟩ := HandshakeState.write_eq hwrite
  obtain ⟨hopen, hmine⟩ := HandshakeState.write_ok hwrite
  obtain ⟨hlen, hturn⟩ := h.turn hopen
  rw [hmine] at hturn
  refine h.next hlen (fun hk => ?_) ?_
  · have htokens : s.tokens = s.seed :: key := by
      rw [HandshakeState.tokens, h.ik, h.stage, ← hk, h.mine]
      cases b <;> rfl
    rw [hm, htokens, List.cons_append, List.drop_one, List.tail_cons, List.take_left' hsize]
  · rw [if_neg]
    intro hk
    rw [← hk] at hturn
    cases b <;> cases hturn

end AtXX

theorem AtXX.of_script {id : Identity crates} {b : Bool} {hs : Handshake crates} {ms : List Bytes}
    (h : Handshake.Script id b hs ms) : AtXX id.publicKey.bytes b hs.state ms := by
  have fresh : ∀ {init : Bool} {seed : UInt8} {hs : Handshake crates},
      Handshake.build .pair id none none init seed = .ok hs →
        AtXX id.publicKey.bytes init hs.state [] := by
    intro init seed hs hbuild
    have hstate := (Handshake.build_ok hbuild).1
    obtain ⟨state, mode⟩ := hs
    cases hstate
    exact ⟨by simp [Mode.params], rfl, congrArg Key32.bytes id.derived.symm, rfl, rfl, by decide,
      by simp, by simp⟩
  induction h with
  | dial build => exact fresh build
  | answer build => exact fresh build
  | read _ h ih => exact ih.read (Handshake.read_ok h)
  | write _ h ih => exact ih.write id.publicKey.size (Handshake.write_ok h)

/-- What an end knows of the other once all three messages went. -/
theorem AtXX.peer {id id' : Identity crates} {b : Bool} {hs : Handshake crates} {s : HandshakeState}
    {ms : List Bytes} (h : AtXX id.publicKey.bytes b hs.state ms)
    (h' : AtXX id'.publicKey.bytes (!b) s ms) (hdone : ms.length = 3) :
    hs.peerStatic = some id'.publicKey := by
  have hlt : keyAt (!b) < ms.length := by
    rw [hdone]
    cases b <;> decide
  have hremote := h.remote
  rw [List.getElem?_eq_getElem hlt, Option.map_some,
    h'.own _ (List.getElem?_eq_getElem hlt)] at hremote
  change Option.bind (HandshakeState.remote hs.state) Key32.ofBytes = _
  rw [hremote, Option.bind_some, Key32.ofBytes_bytes]

theorem pairLaw : crates.PairLaw where
  finished h h' := (AtXX.of_script h).finished_eq.trans (AtXX.of_script h').finished_eq.symm
  agree {ida idb hs hs' ms} h h' hdone := by
    have hx := AtXX.of_script h
    have hy := AtXX.of_script h'
    have hdone' : hs'.isComplete := (hy.finished_eq.trans hx.finished_eq.symm).trans hdone
    have hthree : ms.length = 3 := of_decide_eq_true (hx.finished_eq.symm.trans hdone)
    refine ⟨?_, hx.peer hy hthree, hy.peer hx hthree⟩
    rw [Handshake.handshakeHash, Handshake.handshakeHash, if_pos hdone, if_pos hdone']
    exact congrArg Except.ok (hx.transcript.trans hy.transcript.symm)

def askToPair : List (Core.Input crates) :=
  [at_ 1 0 (.localCommand (.requestPairing 1 "10.0.0.5"))]

def metA : Core crates Unit := (fresh 1 []).build.run askToPair
def metB : Core crates Unit := (fresh 5 []).build

def meetA : Core.Input crates := at_ 1 7 (.linkUp 1 (.tcpLan 1) (some 1))
def meetB : Core.Input crates := at_ 1 8 (.linkUp 2 (.tcpLan 1) none)

def threeMessages : List (Move crates) :=
  [.toB ⟨1, 1⟩ (9 : UInt8), .toA ⟨1, 1⟩ (0 : UInt8), .toB ⟨1, 1⟩ (0 : UInt8)]

theorem met : Duplex.Calls 1 2 metA metB meetA meetB where
  freshA := by
    rw [← Option.isNone_iff_eq_none]
    decide +kernel
  freshB := by simp [metB, CoreBuilder.build]
  dialled := ⟨_, _, rfl⟩
  accepted := ⟨_, rfl⟩
  asked attrs d h := by
    cases h
    decide +kernel
  quietA := by
    rw [← Option.isNone_iff_eq_none]
    decide +kernel
  quietB := by
    rw [← Option.isNone_iff_eq_none]
    decide +kernel

/-- The dialling end shows its digits after two messages, the other after three. -/
theorem they_agree : ∃ p q,
    (Lib.run (Duplex.step 1 2) (Duplex.join 1 2 metA metB meetA meetB)
      (threeMessages.take 2)).a.shownOn 1 = some p ∧
    (Lib.run (Duplex.step 1 2) (Duplex.join 1 2 metA metB meetA meetB)
      threeMessages).b.shownOn 2 = some q ∧ p.sas = q.sas := by
  obtain ⟨p, hp⟩ := Option.isSome_iff_exists.mp (show ((Lib.run (Duplex.step 1 2)
    (Duplex.join 1 2 metA metB meetA meetB) (threeMessages.take 2)).a.shownOn 1).isSome by
      decide +kernel)
  obtain ⟨q, hq⟩ := Option.isSome_iff_exists.mp (show ((Lib.run (Duplex.step 1 2)
    (Duplex.join 1 2 metA metB meetA meetB) threeMessages).b.shownOn 2).isSome by decide +kernel)
  exact ⟨p, q, hp, hq, (paired_devices_agree pairLaw met (List.take_prefix 2 threeMessages)
    (List.prefix_refl _) hp hq).1⟩

end Mock
end Acrylius
