import Acrylius.Net.Stream

/-! Two cores joined by one reliable ordered link, each with whatever else happens to it: the
dialling end's session handshake, and the two streams that follow. -/
namespace Acrylius
open Proto Std

variable {X : Crates} {P : Type}

/-- Two cores and what is in flight on the link between them, oldest first. -/
structure Duplex (X : Crates) (P : Type) where
  a : Core X P
  b : Core X P
  ab : List Bytes
  ba : List Bytes

/-- What can happen: an event of its own at either end, or a delivery. -/
inductive Move (X : Crates) where
  | a (i : Core.Input X)
  | b (i : Core.Input X)
  | toA (now : Now) (seed : X.Seed)
  | toB (now : Now) (seed : X.Seed)

namespace Duplex
variable [Plugin P] (la lb : LinkId)

def atA (w : Duplex X P) (i : Core.Input X) : Duplex X P :=
  { w with a := w.a.step i, ab := w.ab ++ framesOn la (w.a.handle i).2.actions }

def atB (w : Duplex X P) (i : Core.Input X) : Duplex X P :=
  { w with b := w.b.step i, ba := w.ba ++ framesOn lb (w.b.handle i).2.actions }

/-- The link carries only what the ends put on it: nothing else is reported to them about it but
its loss. -/
def step (w : Duplex X P) : Move X → Duplex X P
  | .a i => if i.event.touches la then w else w.atA la i
  | .b i => if i.event.touches lb then w else w.atB lb i
  | .toA now seed =>
    match w.ba with
    | [] => w
    | f :: rest => ({ w with ba := rest }).atA la ⟨now, seed, .linkRecv la f⟩
  | .toB now seed =>
    match w.ab with
    | [] => w
    | f :: rest => ({ w with ab := rest }).atB lb ⟨now, seed, .linkRecv lb f⟩

/-- `a` dialled and `b` accepted: both are told of the link. -/
def join (a b : Core X P) (i j : Core.Input X) : Duplex X P where
  a := a.step i
  b := b.step j
  ab := framesOn la (a.handle i).2.actions
  ba := framesOn lb (b.handle j).2.actions

end Duplex

def NoSession (q : List Bytes) : Prop :=
  ∀ f ∈ q, ∀ body, Frame.split f ≠ some (.sessionHandshake, body)

/-- No session was opened on the link from this end, and none is up. -/
def Unsessioned (st : Option (LinkState X)) : Prop :=
  ∀ s, st = some s → (∃ q, s = .pending q) ∨ ∃ h, s = .handshaking h ∧ h.pairingFlow

structure Caps where
  ao : List String
  ai : List String
  bo : List String
  bi : List String

def Offers (X : Crates) (out in_ : List String) (payload : Bytes) : Prop :=
  ∃ hello : Hello, payload = X.encode hello ∧ hello.capsOut = out ∧ hello.capsIn = in_

def Negotiated (send recv : List String) (st : Option (LinkState X)) : Prop :=
  ∀ u, st = some (.up u) → u.canSend = send ∧ u.canRecv = recv

/-- The dialling end wrote message 1 and waits for message 2, or has given up. -/
structure Calling (m1 p : Bytes) (st : Option (LinkState X)) : Prop where
  dialled : ∃ hs, X.Dialled m1 p hs
  state : st = none ∨
    ∃ h, st = some (.handshaking h) ∧ h.pairingFlow = false ∧ X.Dialled m1 p h.hs.state

def Shaking (st : Option (LinkState X)) : Prop :=
  st = none ∨ ∃ h, st = some (.handshaking h) ∧ h.pairingFlow = false

/-- How far a link has got. With `b`, every message sealed is a message sent, and the streams are
in step. -/
inductive Phase (b : Bool) (K : Caps) : Option (LinkState X) → List Bytes →
    Option (LinkState X) → List Bytes → Prop where
  | idle {x ab y ba} (hx : Unsessioned x) (hy : Unsessioned y) (hab : NoSession ab)
      (hba : NoSession ba) : Phase b K x ab y ba
  | calling {x y m1 p} (hx : Calling m1 p x) (hp : Offers X K.ao K.ai p)
      (hy : y = none ∨ ∃ q, y = some (.pending q)) :
      Phase b K x [Frame.join .sessionHandshake m1] y []
  | answered {x y m1 m2 p q st stream} (hx : Calling m1 p x) (hq : Offers X K.bo K.bi q)
      (hst : X.Answered m1 m2 q st) (hy : UpOrNone y) (hs : NoSession stream)
      (hstream : ∀ C : X.Cipher, b = true → stream = [] ∧ y = none ∨ ∃ tr,
        X.intoTransportMode st = .ok tr ∧ Sends C (C.sendKey tr) 0 y stream ∧
          Receives C (C.recvKey tr) 0 y)
      (hcaps : X.PayloadLaw → Negotiated (negotiate K.bo K.ai) (negotiate K.ao K.bi) y) :
      Phase b K x [] y (Frame.join .sessionHandshake m2 :: stream)
  | ended {x y ba} (hx : Shaking x) (hba : NoSession ba) : Phase b K x [] y ba
  | open_ {x ab y ba} (hx : UpOrNone x) (hy : UpOrNone y)
      (hstream : ∀ C : X.Cipher, b = true → ∃ ka kb n m, Sends C ka n x ab ∧ Receives C ka n y ∧
        Sends C kb m y ba ∧ Receives C kb m x)
      (hcaps : X.PayloadLaw → Negotiated (negotiate K.ao K.bi) (negotiate K.bo K.ai) x ∧
        Negotiated (negotiate K.bo K.ai) (negotiate K.ao K.bi) y) : Phase b K x ab y ba

theorem Calling.shaking {m1 p : Bytes} {st : Option (LinkState X)} (h : Calling m1 p st) :
    Shaking st := by
  obtain hnone | ⟨h₀, hh, hflow, -⟩ := h.state
  · exact .inl hnone
  · exact .inr ⟨h₀, hh, hflow⟩

section Fate
variable {x y : Option (LinkState X)} {fs q : List Bytes} {b : Bool}

theorem NoSession.append {q' : List Bytes} (h : NoSession q) (h' : NoSession q') :
    NoSession (q ++ q') := by
  intro f hf
  rcases List.mem_append.mp hf with hf | hf
  · exact h f hf
  · exact h' f hf

theorem NoSession.map_join {kind : FrameKind} (hk : kind ≠ .sessionHandshake) (ms : List Bytes) :
    NoSession (ms.map (Frame.join kind)) := by
  intro f hf body
  obtain ⟨m, -, rfl⟩ := List.mem_map.mp hf
  rw [Frame.split_join]
  intro h
  exact hk (Prod.mk.inj (Option.some.inj h)).1

theorem LinkFate.noSession (h : LinkFate b x fs y) : NoSession fs := by
  obtain ⟨z, hd, -⟩ := h
  cases hd with
  | none | pending | handshaking =>
    intro f hf
    cases hf
  | up hs =>
    intro f hf body hsplit
    have := hs.isTransport f hf
    simp [isTransport, hsplit] at this

theorem LinkFate.unsessioned (h : LinkFate b x fs y) (hx : Unsessioned x) :
    fs = [] ∧ Unsessioned y := by
  obtain ⟨z, hd, hy⟩ := h
  have hgone : Unsessioned (X := X) none := fun s hs => by cases hs
  cases hd with
  | none =>
    obtain rfl | rfl := hy <;> exact ⟨rfl, hgone⟩
  | pending q =>
    refine ⟨rfl, ?_⟩
    obtain rfl | rfl := hy
    · exact hx
    · exact hgone
  | handshaking h fb =>
    refine ⟨rfl, ?_⟩
    obtain rfl | rfl := hy
    · intro s hs
      obtain ⟨q, hq⟩ | ⟨h', hh, hflow⟩ := hx _ rfl
      · cases hq
      · cases hh
        cases hs
        exact .inr ⟨_, rfl, hflow⟩
    · exact hgone
  | up hs =>
    obtain ⟨q, hq⟩ | ⟨h', hh, -⟩ := hx _ rfl
    · cases hq
    · cases hh

theorem LinkFate.calling {m1 p : Bytes} (h : LinkFate b x fs y) (hx : Calling m1 p x) :
    fs = [] ∧ Calling m1 p y := by
  obtain ⟨hdial, rfl | ⟨h₀, rfl, hflow, hd⟩⟩ := hx
  · obtain ⟨rfl, rfl⟩ := h.of_none
    exact ⟨rfl, hdial, .inl rfl⟩
  · obtain ⟨z, hdrift, hy⟩ := h
    cases hdrift with
    | handshaking _ fb =>
      refine ⟨rfl, hdial, ?_⟩
      obtain rfl | rfl := hy
      · exact .inr ⟨_, rfl, hflow, hd⟩
      · exact .inl rfl

theorem LinkFate.waiting (h : LinkFate b x fs y) (hx : x = none ∨ ∃ q, x = some (.pending q)) :
    fs = [] ∧ (y = none ∨ ∃ q, y = some (.pending q)) := by
  obtain rfl | ⟨q, rfl⟩ := hx
  · obtain ⟨rfl, rfl⟩ := h.of_none
    exact ⟨rfl, .inl rfl⟩
  · obtain ⟨z, hdrift, hy⟩ := h
    cases hdrift with
    | pending _ =>
      refine ⟨rfl, ?_⟩
      obtain rfl | rfl := hy
      · exact .inr ⟨q, rfl⟩
      · exact .inl rfl

theorem LinkFate.shaking (h : LinkFate b x fs y) (hx : Shaking x) : fs = [] ∧ Shaking y := by
  obtain rfl | ⟨h₀, rfl, hflow⟩ := hx
  · obtain ⟨rfl, rfl⟩ := h.of_none
    exact ⟨rfl, .inl rfl⟩
  · obtain ⟨z, hdrift, hy⟩ := h
    cases hdrift with
    | handshaking _ fb =>
      refine ⟨rfl, ?_⟩
      obtain rfl | rfl := hy
      · exact .inr ⟨_, rfl, hflow⟩
      · exact .inl rfl

theorem LinkFate.negotiated {send recv : List String} (h : LinkFate b x fs y)
    (hx : Negotiated send recv x) : Negotiated send recv y := by
  intro v hv
  rw [hv] at h
  obtain ⟨u, rfl, hs⟩ := h.up_of
  rw [hs.same]
  exact hx u rfl

end Fate

namespace Phase
variable {b : Bool} {K : Caps} {x y z : Option (LinkState X)} {ab ba fs : List Bytes}

theorem atA (law : b = true → X.SealLaw) (h : Phase b K x ab y ba) (hf : LinkFate b x fs z) :
    Phase b K z (ab ++ fs) y ba := by
  cases h with
  | idle hx hy hab hba =>
    obtain ⟨rfl, hz⟩ := hf.unsessioned hx
    rw [List.append_nil]
    exact .idle hz hy hab hba
  | calling hx hp hy =>
    obtain ⟨rfl, hz⟩ := hf.calling hx
    exact .calling hz hp hy
  | answered hx hq hst hy hs hstream hcaps =>
    obtain ⟨rfl, hz⟩ := hf.calling hx
    exact .answered hz hq hst hy hs hstream hcaps
  | ended hx hba =>
    obtain ⟨rfl, hz⟩ := hf.shaking hx
    exact .ended hz hba
  | open_ hx hy hstream hcaps =>
    refine .open_ (hf.upOrNone hx) hy ?_ fun hlaw => ⟨hf.negotiated (hcaps hlaw).1, (hcaps hlaw).2⟩
    rintro C rfl
    obtain ⟨ka, kb, n, m, hsa, hra, hsb, hrb⟩ := hstream C rfl
    exact ⟨ka, kb, n, m, hf.sends (law rfl) hx hsa, hra, hsb, hf.receives (law rfl) hrb⟩

theorem atB (law : b = true → X.SealLaw) (h : Phase b K x ab y ba) (hf : LinkFate b y fs z) :
    Phase b K x ab z (ba ++ fs) := by
  cases h with
  | idle hx hy hab hba =>
    obtain ⟨rfl, hz⟩ := hf.unsessioned hy
    rw [List.append_nil]
    exact .idle hx hz hab hba
  | calling hx hp hy =>
    obtain ⟨rfl, hz⟩ := hf.waiting hy
    exact .calling hx hp hz
  | answered hx hq hst hy hs hstream hcaps =>
    refine .answered hx hq hst (hf.upOrNone hy) (hs.append hf.noSession) ?_
      fun hlaw => hf.negotiated (hcaps hlaw)
    rintro C rfl
    obtain ⟨rfl, rfl⟩ | ⟨tr, htr, hsend, hrecv⟩ := hstream C rfl
    · obtain ⟨rfl, rfl⟩ := hf.of_none
      exact .inl ⟨rfl, rfl⟩
    · exact .inr ⟨tr, htr, hf.sends (law rfl) hy hsend, hf.receives (law rfl) hrecv⟩
  | ended hx hba => exact .ended hx (hba.append hf.noSession)
  | open_ hx hy hstream hcaps =>
    refine .open_ hx (hf.upOrNone hy) ?_ fun hlaw => ⟨(hcaps hlaw).1, hf.negotiated (hcaps hlaw).2⟩
    rintro C rfl
    obtain ⟨ka, kb, n, m, hsa, hra, hsb, hrb⟩ := hstream C rfl
    exact ⟨ka, kb, n, m, hsa, hf.receives (law rfl) hra, hf.sends (law rfl) hy hsb, hrb⟩

end Phase

section Delivery
variable {i : Core.Input X} {s : Exec X P} {l : LinkId} {f : Bytes} {fs : List Bytes}
  {y : Option (LinkState X)}

/-- A session handshake message is read off a session handshake frame, on a link that is not
established. -/
theorem SessionRead.of_recv {attrs peer payload hs owes}
    (h : SessionRead i s l attrs peer payload hs owes) (he : i.event = .linkRecv l f) :
    (∃ body, Frame.split f = some (.sessionHandshake, body)) ∧
      ¬ UpOrNone (s.core.links[l]?) := by
  cases h with
  | opener event frame link =>
    obtain rfl := (Event.linkRecv.inj (event.symm.trans he)).2
    refine ⟨⟨_, frame⟩, fun hup => ?_⟩
    obtain ⟨u, hu⟩ := hup _ link
    cases hu
  | reply event frame link =>
    obtain rfl := (Event.linkRecv.inj (event.symm.trans he)).2
    refine ⟨⟨_, frame⟩, fun hup => ?_⟩
    obtain ⟨u, hu⟩ := hup _ link
    cases hu

theorem SessionRead.at_pending {attrs peer payload hs owes m q}
    (h : SessionRead i s l attrs peer payload hs owes)
    (he : i.event = .linkRecv l (Frame.join .sessionHandshake m))
    (hl : s.core.links[l]? = some (.pending q)) : owes = true ∧ X.Read m payload hs.state := by
  cases h with
  | opener event frame link caller known key build read =>
    obtain rfl := (Event.linkRecv.inj (event.symm.trans he)).2
    rw [Frame.split_join] at frame
    cases frame
    exact ⟨rfl, _, _, _, _, (Handshake.build_ok build).1, Handshake.read_ok read⟩
  | reply _ _ link => cases link.symm.trans hl

theorem SessionRead.at_handshaking {attrs peer payload hs owes m h₀}
    (h : SessionRead i s l attrs peer payload hs owes)
    (he : i.event = .linkRecv l (Frame.join .sessionHandshake m))
    (hl : s.core.links[l]? = some (.handshaking h₀)) :
    owes = false ∧ X.readMessage h₀.hs.state m = .ok (payload, hs.state) := by
  cases h with
  | opener _ _ link => cases link.symm.trans hl
  | reply event frame link flow read =>
    obtain rfl := (Event.linkRecv.inj (event.symm.trans he)).2
    rw [Frame.split_join] at frame
    cases frame
    obtain rfl := LinkState.handshaking.inj (Option.some.inj (link.symm.trans hl))
    exact ⟨rfl, Handshake.read_ok read⟩

theorem Handshake.Turn.owed {hs hs' : Handshake X} {p : Bytes} {reply : List Bytes}
    (h : hs.Turn true p reply hs') :
    ∃ m, reply = [m] ∧ X.writeMessage hs.state p = .ok (m, hs'.state) := by
  obtain ⟨m, hw, hr⟩ := h
  exact ⟨m, hr, Handshake.write_ok hw⟩

theorem Handshake.Turn.done {hs hs' : Handshake X} {p : Bytes} {reply : List Bytes}
    (h : hs.Turn false p reply hs') : reply = [] ∧ hs' = hs := h

theorem Touch.unsessioned (h : Touch i s l fs y) (he : i.event = .linkRecv l f)
    (hx : Unsessioned (s.core.links[l]?))
    (hf : ∀ body, Frame.split f ≠ some (.sessionHandshake, body)) :
    NoSession fs ∧ Unsessioned y := by
  have hnil : NoSession [] := fun f hf => by cases hf
  have hpair : ∀ ms : List Bytes, NoSession (ms.map (Frame.join .pairHandshake)) :=
    NoSession.map_join (by decide)
  cases h with
  | kept => exact ⟨hnil, hx⟩
  | gone => exact ⟨hnil, fun s hs => by cases hs⟩
  | opened event => cases event.symm.trans he
  | dialledSession event => cases event.symm.trans he
  | dialledPair event => cases event.symm.trans he
  | @answered _ m _ _ _ _ flow =>
    refine ⟨hpair [m], fun s hs => ?_⟩
    cases hs
    exact .inr ⟨_, rfl, flow⟩
  | wasted read =>
    obtain ⟨⟨body, hbody⟩, -⟩ := read.of_recv he
    exact absurd hbody (hf body)
  | established est =>
    cases est with
    | intro read =>
      obtain ⟨⟨body, hbody⟩, -⟩ := read.of_recv he
      exact absurd hbody (hf body)
  | continued _ link flow =>
    refine ⟨hpair _, fun s hs => ?_⟩
    cases hs
    obtain ⟨q, hq⟩ | ⟨h', hh, hflow⟩ := hx _ link
    · cases hq
    · cases hh
      exact .inr ⟨_, rfl, flow.trans hflow⟩
  | paired _ _ _ after =>
    refine ⟨hpair _, fun s hs => ?_⟩
    obtain rfl | ⟨q, rfl⟩ := after
    · cases hs
    · cases hs
      exact .inl ⟨q, rfl⟩
  | received _ _ link =>
    obtain ⟨q, hq⟩ | ⟨h', hh, -⟩ := hx _ link
    · cases hq
    · cases hh

theorem Touch.upOrNone (h : Touch i s l fs y) (he : i.event = .linkRecv l f)
    (hx : UpOrNone (s.core.links[l]?)) : fs = [] ∧ UpOrNone y ∧
      (s.core.links[l]? = none → y = none) ∧
      ∀ send recv, Negotiated send recv (s.core.links[l]?) → Negotiated send recv y := by
  have hgone : UpOrNone (X := X) none := fun s hs => by cases hs
  cases h with
  | kept => exact ⟨rfl, hx, id, fun _ _ => id⟩
  | gone => exact ⟨rfl, hgone, fun _ => rfl, fun _ _ _ u hu => by cases hu⟩
  | opened event => cases event.symm.trans he
  | dialledSession event => cases event.symm.trans he
  | dialledPair event => cases event.symm.trans he
  | answered _ link =>
    obtain ⟨u, hu⟩ := hx _ link
    cases hu
  | wasted read => exact absurd hx (read.of_recv he).2
  | established est =>
    cases est with
    | intro read => exact absurd hx (read.of_recv he).2
  | continued _ link =>
    obtain ⟨u, hu⟩ := hx _ link
    cases hu
  | paired _ link =>
    obtain ⟨u, hu⟩ := hx _ link
    cases hu
  | received _ _ link =>
    refine ⟨rfl, fun s hs => ⟨_, (Option.some.inj hs).symm⟩, ?_, fun send recv hn v hv => ?_⟩
    · intro hnone
      cases link.symm.trans hnone
    cases hv
    have hcaps := hn _ link
    exact hcaps

/-- What a frame does to a link whose handshake waits for message 2. -/
theorem Touch.shaking (h : Touch i s l fs y) (he : i.event = .linkRecv l f)
    (hx : Shaking (s.core.links[l]?)) : (fs = [] ∧ Shaking y) ∨
      ∃ hello record' u, Established i s l hello record' [] u ∧ fs = [] ∧ y = some (.up u) := by
  have shaking : ∀ {st}, s.core.links[l]? = some st →
      ∃ h, st = .handshaking h ∧ h.pairingFlow = false := by
    intro st hst
    obtain hnone | ⟨h, hh, hflow⟩ := hx
    · cases hst.symm.trans hnone
    · exact ⟨h, Option.some.inj (hst.symm.trans hh), hflow⟩
  have owes : ∀ {attrs peer payload hs owes}, SessionRead i s l attrs peer payload hs owes →
      owes = false := by
    intro attrs peer payload hs owes hread
    cases hread with
    | opener _ _ link =>
      obtain ⟨h, hh, -⟩ := shaking link
      cases hh
    | reply => rfl
  cases h with
  | kept => exact .inl ⟨rfl, hx⟩
  | gone => exact .inl ⟨rfl, .inl rfl⟩
  | opened event => cases event.symm.trans he
  | dialledSession event => cases event.symm.trans he
  | dialledPair event => cases event.symm.trans he
  | answered _ link =>
    obtain ⟨h, hh, -⟩ := shaking link
    cases hh
  | continued _ link flow silent =>
    obtain ⟨h, hh, hflow⟩ := shaking link
    cases hh
    rw [silent hflow]
    exact .inl ⟨rfl, .inr ⟨_, rfl, flow.trans hflow⟩⟩
  | paired _ link flow =>
    obtain ⟨h, hh, hflow⟩ := shaking link
    cases hh
    rw [hflow] at flow
    cases flow
  | received _ _ link =>
    obtain ⟨h, hh, -⟩ := shaking link
    cases hh
  | wasted read hreply =>
    refine .inl ⟨?_, .inl rfl⟩
    obtain rfl | ⟨hs', hturn⟩ := hreply
    · rfl
    · obtain rfl := owes read
      rw [hturn.done.1]
      rfl
  | established est =>
    cases est with
    | intro read accept turn open_ =>
      obtain rfl := owes read
      obtain ⟨rfl, rfl⟩ := turn.done
      exact .inr ⟨_, _, _, .intro read accept ⟨rfl, rfl⟩ open_, rfl, rfl⟩

theorem Touch.linkUp {attrs : LinkAttrs} {dial : Option DialToken} (h : Touch i s l fs y)
    (he : i.event = .linkUp l attrs dial) (hx : s.core.links[l]? = none) :
    (fs = [] ∧ (y = none ∨ ∃ q, y = some (.pending q))) ∨ (∃ d, dial = some d) ∧ ∃ m h,
      y = some (.handshaking h) ∧ ((fs = [Frame.join .sessionHandshake m] ∧
        h.pairingFlow = false ∧ X.Dialled m (X.encode s.core.hello) h.hs.state) ∨
      (fs = [Frame.join .pairHandshake m] ∧ h.pairingFlow)) := by
  have unread : ∀ {attrs peer payload hs owes}, ¬ SessionRead i s l attrs peer payload hs owes := by
    intro attrs peer payload hs owes hread
    cases hread with
    | opener event => cases event.symm.trans he
    | reply event => cases event.symm.trans he
  cases h with
  | kept => exact .inl ⟨rfl, .inl hx⟩
  | gone => exact .inl ⟨rfl, .inl rfl⟩
  | opened => exact .inl ⟨rfl, .inr ⟨_, rfl⟩⟩
  | dialledSession event build write flow =>
    cases event.symm.trans he
    exact .inr ⟨⟨_, rfl⟩, _, _, rfl, .inl ⟨rfl, flow, _, _, _, _, _, (Handshake.build_ok build).1,
      Handshake.write_ok write⟩⟩
  | dialledPair event flow =>
    cases event.symm.trans he
    exact .inr ⟨⟨_, rfl⟩, _, _, rfl, .inr ⟨rfl, flow⟩⟩
  | answered event => cases event.symm.trans he
  | continued event => cases event.symm.trans he
  | paired event => cases event.symm.trans he
  | received event => cases event.symm.trans he
  | wasted read => exact absurd read unread
  | established est =>
    cases est with
    | intro read => exact absurd read unread

theorem Offers.hello (c : Core X P) : Offers X c.capsOut c.capsIn (X.encode c.hello) :=
  ⟨c.hello, rfl, rfl, rfl⟩

theorem Accepted.caps {peer : DeviceId} {payload : Bytes} {hello : Hello} {record record' : PeerRecord}
    {out in_ : List String} (h : Accepted s peer payload hello record record')
    (ho : Offers X out in_ payload) : record'.capsOut = out ∧ record'.capsIn = in_ := by
  obtain ⟨hello', rfl, rfl, rfl⟩ := ho
  have hdec := h.decoded
  rw [Crates.decode_encode, Option.some.injEq] at hdec
  rw [h.updated, hdec]
  exact ⟨rfl, rfl⟩

end Delivery

namespace Phase
variable [Plugin P] {b : Bool} {K : Caps} {c : Core X P} {i : Core.Input X} {l : LinkId} {f : Bytes}
  {x y : Option (LinkState X)} {ab ba rest : List Bytes}

theorem stream_received {C : X.Cipher} {k k' : C.Key} {n m : ℕ}
    (he : i.event = .linkRecv l f) (hup : UpOrNone (c.links[l]?)) (law : X.SealLaw)
    (hfit : c.AllFit i) (hsend : Sends C k n x (f :: rest)) (hrecv : Receives C k n (c.links[l]?))
    (hback : Sends C k' m (c.links[l]?) ab) :
    Sends C k (n + 1) x rest ∧ Receives C k (n + 1) ((c.step i).links[l]?) ∧
      Sends C k' m ((c.step i).links[l]?) (ab ++ framesOn l (c.handle i).2.actions) := by
  obtain ⟨⟨ct, rfl, hlen, hseal⟩, hrest⟩ := hsend.sealed
  have hsend' : Sends C k (n + 1) x rest := by
    refine ⟨hrest, fun u hu => ?_⟩
    obtain ⟨hk, hn⟩ := hsend.next u hu
    rw [List.length_cons] at hn
    exact ⟨hk, by omega⟩
  refine ⟨hsend', ?_⟩
  have hlock : true = true → X.SealLaw ∧ ∀ e ∈ (c.exec i).sends, e.1.fits e.2 :=
    fun _ => ⟨law, hfit⟩
  cases hc : c.links[l]? with
  | none =>
    obtain ⟨fs, gs, z, htouch, hframes, hfate⟩ := c.step_link i l true hlock
    obtain ⟨rfl, -, hz, -⟩ := htouch.upOrNone he (hc ▸ hup)
    obtain rfl := hz hc
    obtain ⟨hgone, rfl⟩ := hfate.of_none
    rw [hgone, hframes, List.append_nil, List.append_nil]
    exact ⟨fun u hu => (by cases hu), hc ▸ hback⟩
  | some st =>
    obtain ⟨u, rfl⟩ := hup st hc
    obtain ⟨p, session, hdec, hsk, hrk, hsn, hrn⟩ := (hc ▸ hrecv).decrypt hlen hseal
    have hdrift := c.step_received i he hc hdec true hlock
    have hfate : LinkFate true _ _ _ := .drift hdrift
    obtain ⟨hk', hn'⟩ := hback.next u hc
    have hmid : Sends C k' m
        (some (.up { u with session, lastRecvMs := i.now.monotonicMs })) ab := by
      refine ⟨hback.sealed, fun v hv => ?_⟩
      cases hv
      exact ⟨hsk.trans hk', hsn.trans hn'⟩
    have hrecv' : Receives C k (n + 1)
        (some (.up { u with session, lastRecvMs := i.now.monotonicMs })) := by
      intro v hv
      cases hv
      exact ⟨hrk, hrn⟩
    refine ⟨hfate.receives law hrecv', hfate.sends law ?_ hmid⟩
    intro s hs
    exact ⟨_, (Option.some.inj hs).symm⟩

/-- The state of a link that has just come up, towards one cipher. -/
theorem sends_fresh {C : X.Cipher} {u : UpLink X} {st : X.HandshakeState}
    (h : X.intoTransportMode st = .ok u.session.state) :
    Sends C (C.sendKey u.session.state) 0 (some (.up u)) [] ∧
      Receives C (C.recvKey u.session.state) 0 (some (.up u)) := by
  obtain ⟨hsn, hrn⟩ := C.fresh h
  refine ⟨⟨trivial, fun v hv => ?_⟩, fun v hv => ?_⟩
  · cases hv
    exact ⟨rfl, hsn⟩
  · cases hv
    exact ⟨rfl, hrn⟩

theorem sends_none {C : X.Cipher} (k : C.Key) (n : ℕ) : Sends C k n none [] :=
  ⟨trivial, fun _ hu => by cases hu⟩

theorem receives_none {C : X.Cipher} (k : C.Key) (n : ℕ) : Receives C k n none :=
  fun _ hu => by cases hu

theorem upOrNone_up (u : UpLink X) : UpOrNone (some (.up u)) :=
  fun _ hs => ⟨u, (Option.some.inj hs).symm⟩

theorem upOrNone_none : UpOrNone (X := X) none := fun _ hs => by cases hs

theorem deliver_opener {m1 p : Bytes} (hx : Calling m1 p x) (hp : Offers X K.ao K.ai p)
    (hcaps : c.capsOut = K.bo ∧ c.capsIn = K.bi)
    (he : i.event = .linkRecv l (Frame.join .sessionHandshake m1))
    (hy : c.links[l]? = none ∨ ∃ q, c.links[l]? = some (.pending q))
    (hlock : b = true → X.SealLaw ∧ ∀ e ∈ (c.exec i).sends, e.1.fits e.2) :
    Phase b K x [] ((c.step i).links[l]?) (framesOn l (c.handle i).2.actions) := by
  obtain ⟨fs, gs, z, htouch, hframes, hfate⟩ := c.step_link i l b hlock
  rw [hframes]
  have dead : NoSession fs → Phase b K x [] ((c.step i).links[l]?) (fs ++ gs) :=
    fun hfs => .ended hx.shaking (hfs.append hfate.noSession)
  have hnil : NoSession [] := fun f hf => by cases hf
  have hpair : ∀ ms : List Bytes, NoSession (ms.map (Frame.join .pairHandshake)) :=
    NoSession.map_join (by decide)
  have pending : ∀ {attrs peer payload hs owes},
      SessionRead i (c.start i) l attrs peer payload hs owes →
        owes = true ∧ X.Read m1 payload hs.state := by
    intro attrs peer payload hs owes hread
    obtain hy | ⟨q, hq⟩ := hy
    · refine absurd ?_ (hread.of_recv he).2
      intro st hst
      cases hst.symm.trans hy
    · exact hread.at_pending he hq
  cases htouch with
  | kept => exact dead hnil
  | gone => exact dead hnil
  | opened event => cases event.symm.trans he
  | dialledSession event => cases event.symm.trans he
  | dialledPair event => cases event.symm.trans he
  | answered => exact dead (hpair [_])
  | continued => exact dead (hpair _)
  | paired => exact dead (hpair _)
  | received _ _ link => exact dead hnil
  | wasted read hreply =>
    obtain rfl | ⟨hs', hturn⟩ := hreply
    · exact dead hnil
    · obtain ⟨rfl, hread⟩ := pending read
      obtain ⟨m2, rfl, hwrite⟩ := hturn.owed
      obtain ⟨hgone, rfl⟩ := hfate.of_none
      rw [hgone]
      refine .answered hx (hcaps.1 ▸ hcaps.2 ▸ Offers.hello _) ⟨_, _, hread, hwrite⟩ upOrNone_none
        hnil (fun C hb => .inl ⟨rfl, rfl⟩) fun hlaw u hu => by cases hu
  | established est =>
    cases est with
    | intro read accept turn open_ =>
      obtain ⟨rfl, hread⟩ := pending read
      obtain ⟨m2, rfl, hwrite⟩ := turn.owed
      have hinto := (Handshake.intoSession_ok open_).1
      refine .answered hx (hcaps.1 ▸ hcaps.2 ▸ Offers.hello _) ⟨_, _, hread, hwrite⟩
        (hfate.upOrNone (upOrNone_up _)) hfate.noSession ?_ fun hlaw => hfate.negotiated ?_
      · rintro C rfl
        obtain ⟨hsend, hrecv⟩ := sends_fresh (C := C) (u := freshLink _ _ _ _ _ _ _) hinto
        exact .inr ⟨_, hinto, hfate.sends (hlock rfl).1 (upOrNone_up _) hsend,
          hfate.receives (hlock rfl).1 hrecv⟩
      · intro u hu
        cases hu
        obtain ⟨hs₀, hdial⟩ := hx.dialled
        obtain rfl := hlaw.opener hdial hread
        obtain ⟨hout, hin⟩ := accept.caps hp
        have hcaps' : (c.start i).core.capsOut = K.bo ∧ (c.start i).core.capsIn = K.bi := hcaps
        simp only [freshLink, hout, hin, hcaps'.1, hcaps'.2, and_self]

theorem deliver_reply {m1 m2 p q : Bytes} {st : X.HandshakeState} {stream : List Bytes}
    (hx : Calling m1 p (c.links[l]?)) (hq : Offers X K.bo K.bi q) (hst : X.Answered m1 m2 q st)
    (hy : UpOrNone y) (hs : NoSession stream)
    (hstream : ∀ C : X.Cipher, b = true → stream = [] ∧ y = none ∨ ∃ tr,
      X.intoTransportMode st = .ok tr ∧ Sends C (C.sendKey tr) 0 y stream ∧
        Receives C (C.recvKey tr) 0 y)
    (hback : X.PayloadLaw → Negotiated (negotiate K.bo K.ai) (negotiate K.ao K.bi) y)
    (hcaps : c.capsOut = K.ao ∧ c.capsIn = K.ai)
    (he : i.event = .linkRecv l (Frame.join .sessionHandshake m2))
    (hlock : b = true → X.SealLaw ∧ ∀ e ∈ (c.exec i).sends, e.1.fits e.2) :
    Phase b K ((c.step i).links[l]?) (framesOn l (c.handle i).2.actions) y stream := by
  obtain ⟨fs, gs, z, htouch, hframes, hfate⟩ := c.step_link i l b hlock
  rw [hframes]
  obtain ⟨rfl, hz⟩ | ⟨hello, record', u, hest, rfl, rfl⟩ := htouch.shaking he hx.shaking
  · obtain ⟨rfl, hz'⟩ := hfate.shaking hz
    exact .ended hz' hs
  cases hest with
  | intro read accept turn open_ =>
    obtain hnone | ⟨h, hh, -, hdial⟩ := hx.state
    · refine absurd ?_ (read.of_recv he).2
      intro st hst
      cases hst.symm.trans hnone
    obtain ⟨rfl, hread⟩ := read.at_handshaking he hh
    obtain ⟨-, rfl⟩ := turn.done
    have hinto := (Handshake.intoSession_ok open_).1
    refine .open_ (hfate.upOrNone (upOrNone_up _)) hy ?_ fun hlaw => ⟨hfate.negotiated ?_,
      hback hlaw⟩
    · rintro C rfl
      obtain ⟨hsend, hrecv⟩ := sends_fresh (C := C) (u := freshLink _ _ _ _ _ _ _) hinto
      have hsend' := hfate.sends (hlock rfl).1 (upOrNone_up _) hsend
      have hrecv' := hfate.receives (hlock rfl).1 hrecv
      obtain ⟨rfl, rfl⟩ | ⟨tr, htr, hsb, hrb⟩ := hstream C rfl
      · exact ⟨_, _, 0, 0, hsend', receives_none _ _, sends_none _ _, hrecv'⟩
      · obtain ⟨hka, hkb⟩ := C.agree hdial hst hread hinto htr
        rw [← hka] at hrb
        rw [← hkb] at hsb
        exact ⟨_, _, 0, 0, hsend', hrb, hsb, hrecv'⟩
    · intro u hu
      cases hu
      obtain rfl := hlaw.reply hdial hst hread
      obtain ⟨hout, hin⟩ := accept.caps hq
      have hcaps' : (c.start i).core.capsOut = K.ao ∧ (c.start i).core.capsIn = K.ai := hcaps
      simp only [freshLink, hout, hin, hcaps'.1, hcaps'.2, and_self]

theorem deliverB (h : Phase b K x (f :: rest) (c.links[l]?) ba)
    (hcaps : c.capsOut = K.bo ∧ c.capsIn = K.bi) (he : i.event = .linkRecv l f)
    (hlock : b = true → X.SealLaw ∧ ∀ e ∈ (c.exec i).sends, e.1.fits e.2) :
    Phase b K x rest ((c.step i).links[l]?) (ba ++ framesOn l (c.handle i).2.actions) := by
  generalize hq : f :: rest = q at h
  generalize hst : c.links[l]? = st at h
  cases h with
  | idle hx hy hab hba =>
    subst hq hst
    obtain ⟨fs, gs, z, htouch, hframes, hfate⟩ := c.step_link i l b hlock
    obtain ⟨hfs, hz⟩ := htouch.unsessioned he hy (hab f (by simp))
    obtain ⟨-, hz'⟩ := hfate.unsessioned hz
    rw [hframes]
    exact .idle hx hz' (fun g hg => hab g (List.mem_cons_of_mem _ hg))
      (hba.append (hfs.append hfate.noSession))
  | calling hx hp hy =>
    subst hst
    obtain ⟨rfl, rfl⟩ := List.cons.inj hq
    exact deliver_opener hx hp hcaps he hy hlock
  | answered => cases hq
  | ended => cases hq
  | open_ hx hy hstream hneg =>
    subst hq hst
    obtain ⟨fs, gs, z, htouch, hframes, hfate⟩ := c.step_link i l b hlock
    obtain ⟨-, hz, -, hzn⟩ := htouch.upOrNone he hy
    refine .open_ hx (hfate.upOrNone hz) ?_ fun hlaw => ⟨(hneg hlaw).1,
      hfate.negotiated (hzn _ _ (hneg hlaw).2)⟩
    rintro C rfl
    obtain ⟨ka, kb, n, m, hsa, hra, hsb, hrb⟩ := hstream C rfl
    obtain ⟨hsa', hra', hsb'⟩ :=
      stream_received he hy (hlock rfl).1 (hlock rfl).2 hsa hra hsb
    exact ⟨ka, kb, n + 1, m, hsa', hra', hsb', hrb⟩

theorem deliverA (h : Phase b K (c.links[l]?) ab y (f :: rest))
    (hcaps : c.capsOut = K.ao ∧ c.capsIn = K.ai) (he : i.event = .linkRecv l f)
    (hlock : b = true → X.SealLaw ∧ ∀ e ∈ (c.exec i).sends, e.1.fits e.2) :
    Phase b K ((c.step i).links[l]?) (ab ++ framesOn l (c.handle i).2.actions) y rest := by
  generalize hq : f :: rest = q at h
  generalize hst : c.links[l]? = st at h
  cases h with
  | idle hx hy hab hba =>
    subst hq hst
    obtain ⟨fs, gs, z, htouch, hframes, hfate⟩ := c.step_link i l b hlock
    obtain ⟨hfs, hz⟩ := htouch.unsessioned he hx (hba f (by simp))
    obtain ⟨-, hz'⟩ := hfate.unsessioned hz
    rw [hframes]
    exact .idle hz' hy (hab.append (hfs.append hfate.noSession))
      (fun g hg => hba g (List.mem_cons_of_mem _ hg))
  | calling => cases hq
  | answered hx hq' hst' hy hs hstream hneg =>
    subst hst
    obtain ⟨rfl, rfl⟩ := List.cons.inj hq
    exact deliver_reply hx hq' hst' hy hs hstream hneg hcaps he hlock
  | ended hx hba =>
    subst hq hst
    obtain ⟨fs, gs, z, htouch, hframes, hfate⟩ := c.step_link i l b hlock
    obtain ⟨rfl, hz⟩ | ⟨_, _, _, hest, -⟩ := htouch.shaking he hx
    · obtain ⟨rfl, hz'⟩ := hfate.shaking hz
      rw [hframes]
      exact .ended hz' fun g hg => hba g (List.mem_cons_of_mem _ hg)
    · cases hest with
      | intro read =>
        obtain ⟨⟨body, hbody⟩, -⟩ := read.of_recv he
        exact absurd hbody (hba f (by simp) body)
  | open_ hx hy hstream hneg =>
    subst hq hst
    obtain ⟨fs, gs, z, htouch, hframes, hfate⟩ := c.step_link i l b hlock
    obtain ⟨-, hz, -, hzn⟩ := htouch.upOrNone he hx
    refine .open_ (hfate.upOrNone hz) hy ?_ fun hlaw => ⟨hfate.negotiated (hzn _ _ (hneg hlaw).1),
      (hneg hlaw).2⟩
    rintro C rfl
    obtain ⟨ka, kb, n, m, hsa, hra, hsb, hrb⟩ := hstream C rfl
    obtain ⟨hsb', hrb', hsa'⟩ :=
      stream_received he hx (hlock rfl).1 (hlock rfl).2 hsb hrb hsa
    exact ⟨ka, kb, n, m + 1, hsa', hra, hsb', hrb'⟩

end Phase

namespace Duplex
variable [Plugin P] {la lb : LinkId} {b : Bool} {K : Caps} {w : Duplex X P}

/-- Every message handed to `dispatchSend` in this move fits the link it takes. -/
def AllFit (la lb : LinkId) (w : Duplex X P) : Move X → Prop
  | .a i => w.a.AllFit i
  | .b i => w.b.AllFit i
  | .toA now seed => ∀ f ∈ w.ba.head?, w.a.AllFit ⟨now, seed, .linkRecv la f⟩
  | .toB now seed => ∀ f ∈ w.ab.head?, w.b.AllFit ⟨now, seed, .linkRecv lb f⟩

/-- The two cores keep their capabilities, and the link between them is in some phase. -/
structure Wired (b : Bool) (K : Caps) (la lb : LinkId) (w : Duplex X P) : Prop where
  capsA : w.a.capsOut = K.ao ∧ w.a.capsIn = K.ai
  capsB : w.b.capsOut = K.bo ∧ w.b.capsIn = K.bi
  phase : Phase b K (w.a.links[la]?) w.ab (w.b.links[lb]?) w.ba

theorem capsOut_step {c : Core X P} {out in_ : List String} (h : c.capsOut = out ∧ c.capsIn = in_)
    (i : Core.Input X) : (c.step i).capsOut = out ∧ (c.step i).capsIn = in_ := by
  obtain ⟨ho, hi⟩ := c.step_caps i
  exact ⟨ho.trans h.1, hi.trans h.2⟩

theorem Wired.step (h : Wired b K la lb w) (m : Move X)
    (hlock : b = true → X.SealLaw ∧ w.AllFit la lb m) : Wired b K la lb (w.step la lb m) := by
  cases m with
  | a i =>
    simp only [Duplex.step]
    split_ifs with he
    · exact h
    · rw [Bool.not_eq_true] at he
      have hfate := w.a.step_foreign i he b hlock
      exact ⟨capsOut_step h.capsA i, h.capsB, h.phase.atA (fun hb => (hlock hb).1) hfate⟩
  | b i =>
    simp only [Duplex.step]
    split_ifs with he
    · exact h
    · rw [Bool.not_eq_true] at he
      have hfate := w.b.step_foreign i he b hlock
      exact ⟨h.capsA, capsOut_step h.capsB i, h.phase.atB (fun hb => (hlock hb).1) hfate⟩
  | toA now seed =>
    simp only [Duplex.step]
    split
    · exact h
    · rename_i f rest hba
      have hphase := h.phase
      rw [hba] at hphase
      refine ⟨capsOut_step h.capsA _, h.capsB, hphase.deliverA h.capsA rfl fun hb => ?_⟩
      obtain ⟨law, hfit⟩ := hlock hb
      exact ⟨law, hfit f (by simp [hba])⟩
  | toB now seed =>
    simp only [Duplex.step]
    split
    · exact h
    · rename_i f rest hab
      have hphase := h.phase
      rw [hab] at hphase
      refine ⟨h.capsA, capsOut_step h.capsB _, hphase.deliverB h.capsB rfl fun hb => ?_⟩
      obtain ⟨law, hfit⟩ := hlock hb
      exact ⟨law, hfit f (by simp [hab])⟩

structure Joined (la lb : LinkId) (a c : Core X P) (i j : Core.Input X) : Prop where
  freshA : a.links[la]? = none
  freshB : c.links[lb]? = none
  dialled : ∃ attrs d, i.event = .linkUp la attrs (some d)
  accepted : ∃ attrs, j.event = .linkUp lb attrs none

theorem wired_join {a c : Core X P} {i j : Core.Input X} (h : Joined la lb a c i j) :
    Wired b ⟨a.capsOut, a.capsIn, c.capsOut, c.capsIn⟩ la lb (join la lb a c i j) := by
  refine ⟨a.step_caps i, c.step_caps j, ?_⟩
  have open_ : ∀ {x : Option (LinkState X)}, (x = none ∨ ∃ q, x = some (.pending q)) →
      Unsessioned x := by
    rintro x (rfl | ⟨q, rfl⟩) s hs
    · cases hs
    · cases hs
      exact .inl ⟨q, rfl⟩
  have hnil : NoSession [] := fun f hf => by cases hf
  obtain ⟨attrs, hj⟩ := h.accepted
  obtain ⟨fs', gs', y, htouch', hframes', hfate'⟩ := c.step_link j lb false (by simp)
  obtain ⟨rfl, hy⟩ | ⟨⟨d, hd⟩, -⟩ := htouch'.linkUp hj h.freshB
  case inr => cases hd
  obtain ⟨rfl, hy'⟩ := hfate'.waiting hy
  obtain ⟨attrs, d, hi⟩ := h.dialled
  obtain ⟨fs, gs, x, htouch, hframes, hfate⟩ := a.step_link i la false (by simp)
  dsimp only [join]
  rw [hframes, hframes']
  obtain ⟨rfl, hx⟩ | ⟨-, m, hs, rfl, ⟨rfl, hflow, hdial⟩ | ⟨rfl, hflow⟩⟩ := htouch.linkUp hi h.freshA
  · obtain ⟨rfl, hx'⟩ := hfate.waiting hx
    exact .idle (open_ hx') (open_ hy') hnil hnil
  · have hcall : Calling m _ (some (.handshaking hs)) := ⟨⟨_, hdial⟩, .inr ⟨hs, rfl, hflow, hdial⟩⟩
    obtain ⟨rfl, hcall'⟩ := hfate.calling hcall
    exact .calling hcall' (Offers.hello _) hy'
  · have hun : Unsessioned (some (LinkState.handshaking hs)) := by
      intro s hs'
      cases hs'
      exact .inr ⟨hs, rfl, hflow⟩
    obtain ⟨rfl, hun'⟩ := hfate.unsessioned hun
    exact .idle hun' (open_ hy') (NoSession.map_join (by decide) [m]) hnil

end Duplex
end Acrylius
