import Acrylius.Core.Lockstep

/-! An ideal cipher, and the frames that one end of a session has sealed and the other has yet to
open. -/
namespace Acrylius
open Proto Std

variable {X : Crates}

/-- A session initiator wrote message 1 with this payload and now waits for the answer. -/
def Crates.Dialled (X : Crates) (m1 p : Bytes) (st : X.HandshakeState) : Prop :=
  ∃ lp psk pk seed st₀, X.build Mode.session.params Mode.session.prologue lp
      (some (Mode.session.pskIndex, psk)) (some pk) true seed = .ok st₀ ∧
    X.writeMessage st₀ p = .ok (m1, st)

def Crates.Read (X : Crates) (m1 p : Bytes) (st : X.HandshakeState) : Prop :=
  ∃ lp psk seed st₀, X.build Mode.session.params Mode.session.prologue lp
      (some (Mode.session.pskIndex, psk)) none false seed = .ok st₀ ∧
    X.readMessage st₀ m1 = .ok (p, st)

def Crates.Answered (X : Crates) (m1 m2 q : Bytes) (st : X.HandshakeState) : Prop :=
  ∃ p st₁, X.Read m1 p st₁ ∧ X.writeMessage st₁ q = .ok (m2, st)

/-- What the core relies on about payloads: what was written is what is read. -/
structure Crates.PayloadLaw (X : Crates) : Prop where
  opener : ∀ {m1 p st p' st'}, X.Dialled m1 p st → X.Read m1 p' st' → p' = p
  reply : ∀ {m1 m2 p q st st₂ q' st'}, X.Dialled m1 p st → X.Answered m1 m2 q st₂ →
    X.readMessage st m2 = .ok (q', st') → q' = q

/-- What the core relies on about `snow`'s transport ciphers: a key and a counter in each
direction, and the counters are never said aloud. -/
structure Crates.Cipher (X : Crates) where
  Key : Type
  sendKey : X.TransportState → Key
  recvKey : X.TransportState → Key
  sendNonce : X.TransportState → ℕ
  recvNonce : X.TransportState → ℕ
  /-- The ciphertext was sealed under this key as the message with this number. -/
  Seals : Key → ℕ → Bytes → Prop
  fresh : ∀ {st t}, X.intoTransportMode st = .ok t → sendNonce t = 0 ∧ recvNonce t = 0
  write : ∀ {t p ct t'}, X.transportWrite t p = .ok (ct, t') →
    Seals (sendKey t) (sendNonce t) ct ∧ sendKey t' = sendKey t ∧ recvKey t' = recvKey t ∧
      sendNonce t' = sendNonce t + 1 ∧ recvNonce t' = recvNonce t
  opens : ∀ {t ct}, Seals (recvKey t) (recvNonce t) ct → ∃ p t', X.transportRead t ct = .ok (p, t')
  read : ∀ {t ct p t'}, X.transportRead t ct = .ok (p, t') →
    sendKey t' = sendKey t ∧ recvKey t' = recvKey t ∧ sendNonce t' = sendNonce t ∧
      recvNonce t' = recvNonce t + 1
  /-- The two ends of one handshake agree on the keys. -/
  agree : ∀ {m1 m2 p q st st₂ q' st' t tr}, X.Dialled m1 p st → X.Answered m1 m2 q st₂ →
    X.readMessage st m2 = .ok (q', st') → X.intoTransportMode st' = .ok t →
    X.intoTransportMode st₂ = .ok tr → sendKey t = recvKey tr ∧ recvKey t = sendKey tr

variable (C : X.Cipher)

/-- Consecutive messages under one key, the first with this number. -/
def Crates.Cipher.Sealed (k : C.Key) : ℕ → List Bytes → Prop
  | _, [] => True
  | n, f :: fs => (∃ ct, f = Frame.join .transport ct ∧ ct.length ≤ maxNoiseMessage ∧
      C.Seals k n ct) ∧ Crates.Cipher.Sealed k (n + 1) fs

theorem Crates.Cipher.Sealed.append {k : C.Key} {n : ℕ} {fs gs : List Bytes}
    (h : C.Sealed k n fs) (h' : C.Sealed k (n + fs.length) gs) : C.Sealed k n (fs ++ gs) := by
  induction fs generalizing n with
  | nil => exact h'
  | cons f fs ih =>
    refine ⟨h.1, ih h.2 ?_⟩
    rw [List.length_cons, ← Nat.add_assoc, Nat.add_right_comm] at h'
    exact h'

/-- What sealing messages on a link puts on the wire, and what it leaves of the session. -/
theorem Sealing.sealed {C : X.Cipher} (law : X.SealLaw) {u v : UpLink X} {fs : List Bytes}
    (h : Sealing true u fs v) :
    C.Sealed (C.sendKey u.session.state) (C.sendNonce u.session.state) fs ∧
      C.sendKey v.session.state = C.sendKey u.session.state ∧
      C.recvKey v.session.state = C.recvKey u.session.state ∧
      C.sendNonce v.session.state = C.sendNonce u.session.state + fs.length ∧
      C.recvNonce v.session.state = C.recvNonce u.session.state := by
  induction h with
  | nil => exact ⟨trivial, rfl, rfl, rfl, rfl⟩
  | @sent v fs p ct session _ enc ih =>
    obtain ⟨hs, hsk, hrk, hsn, hrn⟩ := ih
    have hw := (Session.encrypt_ok enc).1
    obtain ⟨hseal, hsk', hrk', hsn', hrn'⟩ := C.write hw
    rw [hsk, hsn] at hseal
    refine ⟨hs.append C ⟨⟨ct, rfl, (law _ _ _ _ hw).2, hseal⟩, trivial⟩, hsk'.trans hsk,
      hrk'.trans hrk, ?_, hrn'.trans hrn⟩
    rw [hsn', hsn, List.length_append]
    rfl
  | lost h => cases h

def UpOrNone (st : Option (LinkState X)) : Prop := ∀ s, st = some s → ∃ u, s = .up u

/-- What is in flight was sealed under `k` from message `n` on, and if the sender is still there
it goes on from where this ends. -/
structure Sends (k : C.Key) (n : ℕ) (st : Option (LinkState X)) (q : List Bytes) : Prop where
  sealed : C.Sealed k n q
  next : ∀ u, st = some (.up u) →
    C.sendKey u.session.state = k ∧ C.sendNonce u.session.state = n + q.length

def Receives (k : C.Key) (n : ℕ) (st : Option (LinkState X)) : Prop :=
  ∀ u, st = some (.up u) → C.recvKey u.session.state = k ∧ C.recvNonce u.session.state = n

section Fate
variable {C} {x y : Option (LinkState X)} {fs q : List Bytes} {k : C.Key} {n : ℕ}

/-- An established link is at the end still established and has sealed what was sent, or it is
gone. -/
theorem LinkFate.of_up {b : Bool} {u : UpLink X} (h : LinkFate b (some (.up u)) fs y) :
    ∃ v, Sealing b u fs v ∧ (y = some (.up v) ∨ y = none) := by
  obtain ⟨z, hd, hy⟩ := h
  cases hd with
  | up hs => exact ⟨_, hs, hy⟩

theorem LinkFate.upOrNone {b : Bool} (h : LinkFate b x fs y) (hx : UpOrNone x) : UpOrNone y := by
  cases x with
  | none =>
    obtain ⟨rfl, -⟩ := h.of_none
    exact hx
  | some st =>
    obtain ⟨u, rfl⟩ := hx st rfl
    obtain ⟨v, -, rfl | rfl⟩ := h.of_up
    · intro s hs
      exact ⟨v, (Option.some.inj hs).symm⟩
    · intro s hs
      cases hs

theorem LinkFate.sends (law : X.SealLaw) (h : LinkFate true x fs y) (hx : UpOrNone x)
    (hs : Sends C k n x q) : Sends C k n y (q ++ fs) := by
  cases x with
  | none =>
    obtain ⟨rfl, rfl⟩ := h.of_none
    rw [List.append_nil]
    exact hs
  | some st =>
    obtain ⟨u, rfl⟩ := hx st rfl
    obtain ⟨v, hseal, hy⟩ := h.of_up
    obtain ⟨hk, hn⟩ := hs.next u rfl
    obtain ⟨hsealed, hsk, -, hsn, -⟩ := hseal.sealed (C := C) law
    rw [hk, hn] at hsealed
    refine ⟨hs.sealed.append C hsealed, ?_⟩
    intro w hw
    obtain rfl | rfl := hy
    · cases hw
      refine ⟨hsk.trans hk, ?_⟩
      rw [hsn, hn, List.length_append, Nat.add_assoc]
    · cases hw

theorem LinkFate.receives (law : X.SealLaw) (h : LinkFate true x fs y) (hr : Receives C k n x) :
    Receives C k n y := by
  intro v hv
  rw [hv] at h
  obtain ⟨u, rfl, hseal⟩ := h.up_of
  obtain ⟨hk, hn⟩ := hr u rfl
  obtain ⟨-, -, hrk, -, hrn⟩ := hseal.sealed (C := C) law
  exact ⟨hrk.trans hk, hrn.trans hn⟩

end Fate

theorem Receives.decrypt {C : X.Cipher} {k : C.Key} {n : ℕ} {u : UpLink X} {ct : Bytes}
    (h : Receives C k n (some (.up u))) (hlen : ct.length ≤ maxNoiseMessage)
    (hseal : C.Seals k n ct) : ∃ p session, u.session.decrypt ct = .ok (p, session) ∧
      C.sendKey session.state = C.sendKey u.session.state ∧ C.recvKey session.state = k ∧
      C.sendNonce session.state = C.sendNonce u.session.state ∧
      C.recvNonce session.state = n + 1 := by
  obtain ⟨hk, hn⟩ := h u rfl
  subst hk hn
  obtain ⟨p, t, ht⟩ := C.opens hseal
  obtain ⟨hsk, hrk, hsn, hrn⟩ := C.read ht
  refine ⟨p, { u.session with state := t }, ?_, hsk, hrk, hsn, hrn⟩
  unfold Session.decrypt
  rw [if_neg (Nat.not_lt.mpr hlen), ht]
  rfl

end Acrylius
