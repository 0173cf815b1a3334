import Acrylius.Net.Duplex

/-! What two honest ends of one link can rely on: every sealed message is opened, and both
negotiated the same capabilities. -/
namespace Acrylius
open Proto Std

variable {X : Crates} {P : Type} [Plugin P]

namespace Duplex
variable {la lb : LinkId} {b : Bool} {K : Caps} {w : Duplex X P}

/-- The next sealed message at each end opens there. -/
def InStep (la lb : LinkId) (w : Duplex X P) : Prop :=
  (∀ ct rest (u : UpLink X), w.ab = Frame.join .transport ct :: rest →
    w.b.links[lb]? = some (.up u) → ∃ p session, u.session.decrypt ct = .ok (p, session)) ∧
  ∀ ct rest (u : UpLink X), w.ba = Frame.join .transport ct :: rest →
    w.a.links[la]? = some (.up u) → ∃ p session, u.session.decrypt ct = .ok (p, session)

theorem decrypt_of_stream {C : X.Cipher} {k : C.Key} {n : ℕ} {x : Option (LinkState X)}
    {ct : Bytes} {rest : List Bytes} {u : UpLink X}
    (hs : Sends C k n x (Frame.join .transport ct :: rest))
    (hr : Receives C k n (some (.up u))) : ∃ p session, u.session.decrypt ct = .ok (p, session) := by
  obtain ⟨⟨ct', hct, hlen, hseal⟩, -⟩ := hs.sealed
  obtain rfl : ct = ct' := by simpa [Frame.join] using hct
  obtain ⟨p, session, hdec, -⟩ := hr.decrypt hlen hseal
  exact ⟨p, session, hdec⟩

theorem not_unsessioned_up {u : UpLink X} : ¬ Unsessioned (some (LinkState.up u)) := by
  intro hu
  obtain ⟨q, hq⟩ | ⟨h', hh, -⟩ := hu _ rfl
  · cases hq
  · cases hh

theorem not_shaking_up {u : UpLink X} : ¬ Shaking (some (LinkState.up u)) := by
  rintro (hu | ⟨h', hh, -⟩)
  · cases hu
  · cases hh

omit [Plugin P] in
theorem Wired.inStep (C : X.Cipher) (h : Wired true K la lb w) : w.InStep la lb := by
  have hphase := h.phase
  generalize hx : w.a.links[la]? = x at hphase
  generalize hy : w.b.links[lb]? = y at hphase
  generalize hab : w.ab = ab at hphase
  generalize hba : w.ba = ba at hphase
  refine ⟨fun ct rest u hq hu => ?_, fun ct rest u hq hu => ?_⟩
  · rw [hu] at hy
    rw [hq] at hab
    subst hy hab
    cases hphase with
    | idle hx hy => exact absurd hy not_unsessioned_up
    | open_ hx hy hstream =>
      obtain ⟨ka, kb, n, m, hsa, hra, -⟩ := hstream C rfl
      exact decrypt_of_stream hsa hra
  · rw [hu] at hx
    rw [hq] at hba
    subst hx hba
    cases hphase with
    | idle hx => exact absurd hx not_unsessioned_up
    | ended hx => exact absurd hx not_shaking_up
    | open_ hx hy hstream =>
      obtain ⟨ka, kb, n, m, -, -, hsb, hrb⟩ := hstream C rfl
      exact decrypt_of_stream hsb hrb

omit [Plugin P] in
theorem Wired.negotiated (law : X.PayloadLaw) (h : Wired b K la lb w) {u v : UpLink X}
    (hu : w.a.links[la]? = some (.up u)) (hv : w.b.links[lb]? = some (.up v)) :
    (u.canSend = negotiate K.ao K.bi ∧ u.canRecv = negotiate K.bo K.ai) ∧
      v.canSend = negotiate K.bo K.ai ∧ v.canRecv = negotiate K.ao K.bi := by
  have hphase := h.phase
  rw [hu, hv] at hphase
  generalize w.ab = ab at hphase
  generalize w.ba = ba at hphase
  cases hphase with
  | idle hx => exact absurd hx not_unsessioned_up
  | calling hx => exact absurd hx.shaking not_shaking_up
  | answered hx => exact absurd hx.shaking not_shaking_up
  | ended hx => exact absurd hx not_shaking_up
  | open_ _ _ _ hcaps => exact ⟨(hcaps law).1 u rfl, (hcaps law).2 v rfl⟩

end Duplex

/-- As long as no message is sealed that its link cannot carry, every session sealed as many
messages as its link sent, and between two honest ends every sealed message opens. -/
theorem sealed_messages_are_sent_and_open (law : X.SealLaw) :
    (∀ (b : CoreBuilder X P) (is : List (Core.Input X)),
      Lib.Along Metered.step (fun m i => m.core.AllFit i) ⟨b.build, fun _ => 0⟩ is →
        ∀ (l : LinkId) (u : UpLink X),
          (Lib.run Metered.step ⟨b.build, fun _ => 0⟩ is).core.links[l]? = some (.up u) →
            u.session.sent = (Lib.run Metered.step ⟨b.build, fun _ => 0⟩ is).count l) ∧
    (X.Cipher → ∀ (la lb : LinkId) (a c : Core X P) (i j : Core.Input X),
      Duplex.Joined la lb a c i j → ∀ ms : List (Move X),
        Lib.Along (Duplex.step la lb) (Duplex.AllFit la lb) (Duplex.join la lb a c i j) ms →
          (Lib.run (Duplex.step la lb) (Duplex.join la lb a c i j) ms).InStep la lb) := by
  constructor
  · intro b is his
    exact his.inv (I := Metered.Balanced) (fun m i h hfit => h.step law hfit)
      (Metered.balanced_build b)
  · intro C la lb a c i j hjoin ms hms
    have hwired := hms.inv (I := Duplex.Wired true ⟨a.capsOut, a.capsIn, c.capsOut, c.capsIn⟩ la lb)
      (fun w m h hfit => h.step m fun _ => ⟨law, hfit⟩) (Duplex.wired_join hjoin)
    exact hwired.inStep C

/-- Two cores that finish one session handshake over a link agree on what may flow each way: the
sender's outgoing capabilities that the receiver handles, sorted and without duplicates. -/
theorem negotiation_agrees (law : X.PayloadLaw) (ba bb : CoreBuilder X P)
    (is js : List (Core.Input X)) (la lb : LinkId) (i j : Core.Input X)
    (hjoin : Duplex.Joined la lb (ba.build.run is) (bb.build.run js) i j) (ms : List (Move X))
    (u v : UpLink X)
    (hu : (Lib.run (Duplex.step la lb)
      (Duplex.join la lb (ba.build.run is) (bb.build.run js) i j) ms).a.links[la]? = some (.up u))
    (hv : (Lib.run (Duplex.step la lb)
      (Duplex.join la lb (ba.build.run is) (bb.build.run js) i j) ms).b.links[lb]? = some (.up v)) :
    u.canSend = v.canRecv ∧ v.canSend = u.canRecv ∧
    u.canSend = negotiate ba.build.capsOut bb.build.capsIn ∧
    v.canSend = negotiate bb.build.capsOut ba.build.capsIn ∧
    (u.canSend.Pairwise (· < ·) ∧ ∀ cap, cap ∈ u.canSend ↔
      cap ∈ ba.build.capsOut ∧ cap ∈ bb.build.capsIn) ∧
    v.canSend.Pairwise (· < ·) ∧ ∀ cap, cap ∈ v.canSend ↔
      cap ∈ bb.build.capsOut ∧ cap ∈ ba.build.capsIn := by
  have caps : ∀ (b : CoreBuilder X P) (is : List (Core.Input X)),
      (b.build.run is).capsOut = b.build.capsOut ∧ (b.build.run is).capsIn = b.build.capsIn :=
    fun b is => Lib.run_inv (I := fun c : Core X P => c.capsOut = b.build.capsOut ∧
      c.capsIn = b.build.capsIn) (fun c i h => Duplex.capsOut_step h i) ⟨rfl, rfl⟩ is
  have hstep : ∀ (K : Caps) (w : Duplex X P) (m : Move X), Duplex.Wired false K la lb w →
      Duplex.Wired false K la lb (w.step la lb m) := fun K w m h => h.step m (by simp)
  have hwired := Lib.run_inv (hstep _) (Duplex.wired_join hjoin) ms
  obtain ⟨⟨husend, hurecv⟩, hvsend, hvrecv⟩ := hwired.negotiated law hu hv
  obtain ⟨hao, hai⟩ := caps ba is
  obtain ⟨hbo, hbi⟩ := caps bb js
  dsimp only at husend hurecv hvsend hvrecv
  rw [hao, hbi] at husend hvrecv
  rw [hbo, hai] at hvsend hurecv
  refine ⟨husend.trans hvrecv.symm, hvsend.trans hurecv.symm, husend, hvsend, ⟨?_, ?_⟩, ?_, ?_⟩
  · rw [husend]
    exact sortDedup_pairwise _
  · intro cap
    rw [husend, mem_negotiate]
  · rw [hvsend]
    exact sortDedup_pairwise _
  · intro cap
    rw [hvsend, mem_negotiate]

namespace Mock

theorem sealLaw : crates.SealLaw := by
  intro t p ct t' h
  dsimp only [crates, TransportState.write] at h
  split_ifs at h with hlen
  cases h
  rw [List.length_append, length_tag]
  exact ⟨rfl, Nat.le_of_not_lt hlen⟩

theorem HandshakeState.write_eq {s s' : HandshakeState} {p m : Bytes} (h : s.write p = .ok (m, s')) :
    m = s.tokens ++ p ∧ s' = s.after m s.remote := by
  unfold HandshakeState.write at h
  dsimp only at h
  split_ifs at h
  cases h
  exact ⟨rfl, rfl⟩

/-- Messages 1 and 2 of a session carry the payload after 65 and 48 bytes. -/
theorem HandshakeState.read_eq {s s' : HandshakeState} {p m : Bytes} (hik : s.ik = true)
    (h : s.read m = .ok (p, s')) :
    p = m.drop (if s.stage = 0 then 65 else 48) ∧ ∃ remote, s' = s.after m remote := by
  unfold HandshakeState.read at h
  rw [hik] at h
  by_cases hturn : (s.finished || s.myTurn) = true
  · rw [if_pos hturn] at h
    cases h
  rw [if_neg hturn] at h
  cases hstage : s.stage with
  | zero =>
    simp only [hstage] at h
    split_ifs at h
    cases h
    exact ⟨rfl, _, rfl⟩
  | succ n =>
    simp only [hstage] at h
    split_ifs at h
    cases h
    exact ⟨rfl, _, rfl⟩

theorem of_dialled {m1 p : Bytes} {st : HandshakeState} (h : crates.Dialled m1 p st) :
    st.initiator = true ∧ st.ik = true ∧ st.stage = 1 ∧ st.transcript = m1 ∧ p = m1.drop 65 := by
  obtain ⟨lp, psk, pk, seed, st₀, hb, hw⟩ := h
  obtain ⟨rfl, rfl⟩ := HandshakeState.write_eq hw
  have hlen : (HandshakeState.tokens st₀).length = 65 := by
    have htokens : ∀ e : UInt8, (e :: (pk.bytes ++ (x25519 lp).bytes)).length = 65 := by
      intro e
      rw [List.length_cons, List.length_append, pk.size, (x25519 lp).size]
    cases hb
    exact htokens seed
  refine ⟨?_, ?_, ?_, ?_, (List.drop_left' hlen).symm⟩
  all_goals
    cases hb
    rfl

theorem of_read {m1 p : Bytes} {st : HandshakeState} (h : crates.Read m1 p st) :
    st.initiator = false ∧ st.ik = true ∧ st.stage = 1 ∧ st.transcript = m1 ∧ p = m1.drop 65 ∧
      st.psk.length = 32 := by
  obtain ⟨lp, psk, seed, st₀, hb, hr⟩ := h
  have hik : HandshakeState.ik st₀ = true := by
    cases hb
    simp
  obtain ⟨rfl, remote, rfl⟩ := HandshakeState.read_eq hik hr
  cases hb
  exact ⟨rfl, by simp [HandshakeState.after], rfl, rfl, rfl, psk.size⟩

theorem of_answered {m1 m2 q : Bytes} {st : HandshakeState} (h : crates.Answered m1 m2 q st) :
    st.initiator = false ∧ st.transcript = m1 ++ m2 ∧ q = m2.drop 48 := by
  obtain ⟨p, st₁, hread, hw⟩ := h
  obtain ⟨hi, hik, hstage, ht, -, hpsk⟩ := of_read hread
  obtain ⟨hm, rfl⟩ := HandshakeState.write_eq hw
  refine ⟨hi, by simp [HandshakeState.after, ht], ?_⟩
  have hlen : (HandshakeState.tokens st₁).length = 48 := by
    simp [HandshakeState.tokens, hik, hstage, hpsk]
  rw [hm]
  exact (List.drop_left' hlen).symm

theorem of_reply {m1 m2 p q : Bytes} {st st' : HandshakeState} (h : crates.Dialled m1 p st)
    (hr : crates.readMessage st m2 = .ok (q, st')) :
    st'.initiator = true ∧ st'.transcript = m1 ++ m2 ∧ q = m2.drop 48 := by
  obtain ⟨hi, hik, hstage, ht, -⟩ := of_dialled h
  obtain ⟨hq, remote, rfl⟩ := HandshakeState.read_eq hik hr
  rw [hstage] at hq
  exact ⟨hi, by simp [HandshakeState.after, ht], hq⟩

theorem payloadLaw : crates.PayloadLaw where
  opener hd hr := (of_read hr).2.2.2.2.1.trans (of_dialled hd).2.2.2.2.symm
  reply hd ha hr := (of_reply hd hr).2.2.trans (of_answered ha).2.2.symm

/-- The mock's two directions of one session, each named by its transcript. -/
def cipher : crates.Cipher where
  Key := Bool × Bytes
  sendKey t := (t.initiator, t.transcript)
  recvKey t := (!t.initiator, t.transcript)
  sendNonce := TransportState.sent
  recvNonce := TransportState.received
  Seals k n ct := ∃ p, ct = p ++ tag k.1 k.2 n
  fresh h := by
    dsimp only [crates] at h
    split_ifs at h
    cases h
    exact ⟨rfl, rfl⟩
  write h := by
    dsimp only [crates, TransportState.write] at h
    split_ifs at h
    cases h
    exact ⟨⟨_, rfl⟩, rfl, rfl, rfl, rfl⟩
  opens {t ct} h := by
    obtain ⟨p, rfl⟩ := h
    refine ⟨p, { t with received := t.received + 1 }, ?_⟩
    dsimp only [crates, TransportState.read]
    rw [List.length_append, length_tag, Nat.add_sub_cancel, List.take_left, if_pos rfl]
  read h := by
    dsimp only [crates, TransportState.read] at h
    split_ifs at h
    cases h
    exact ⟨rfl, rfl, rfl, rfl⟩
  agree hd ha hr hi hi' := by
    obtain ⟨hinit, ht, -⟩ := of_reply hd hr
    obtain ⟨hresp, ht', -⟩ := of_answered ha
    dsimp only [crates] at hi hi'
    split_ifs at hi hi'
    cases hi
    cases hi'
    simp [hinit, hresp, ht, ht']

def reachOut : List (Core.Input crates) :=
  [at_ 1 0 (.localCommand (.setPeerAddress (DeviceId.of crates (device 5).publicKey) 1 "lan")),
    at_ 1 0 (.localCommand (.connect (DeviceId.of crates (device 5).publicKey)))]

def greeted (sizeA sizeB : ℕ) : Duplex crates Greeter :=
  .join 1 1 ((paired 1 5 [⟨sizeA⟩]).build.run reachOut) ((paired 5 1 [⟨sizeB⟩]).build.run [])
    (at_ 1 7 (.linkUp 1 (.tcpLan 1) (some 1))) (at_ 1 8 (.linkUp 1 (.tcpLan 1) none))

def shakeHands : List (Move crates) := [.toB ⟨1, 1⟩ (9 : UInt8), .toA ⟨1, 1⟩ (0 : UInt8)]

def narrow : LinkAttrs := { LinkAttrs.tcpLan 1 with maxMessage := 100 }

def narrowCall : List (Core.Input crates) :=
  [at_ 1 0 (.linkUp 1 narrow none),
    at_ 1 0 (.linkRecv 1
      (openerFrame 1 5 ⟨wireVersion, 1, "", "phone", "ios", ["greet/1"], ["greet/1"]⟩))]

end Mock

instance (la lb : LinkId) (w : Duplex X P) : (m : Move X) → Decidable (w.AllFit la lb m)
  | .a i => inferInstanceAs (Decidable (w.a.AllFit i))
  | .b i => inferInstanceAs (Decidable (w.b.AllFit i))
  | .toA now seed => inferInstanceAs
      (Decidable (∀ f ∈ w.ba.head?, w.a.AllFit ⟨now, seed, .linkRecv la f⟩))
  | .toB now seed => inferInstanceAs
      (Decidable (∀ f ∈ w.ab.head?, w.b.AllFit ⟨now, seed, .linkRecv lb f⟩))

def Core.sealedBy (c : Core X P) (l : LinkId) : Option ℕ :=
  match c.links[l]? with
  | some (.up u) => some u.session.sent
  | _ => none

omit [Plugin P] in
theorem Core.up_of_sealedBy {c : Core X P} {l : LinkId} {n : ℕ} (h : c.sealedBy l = some n) :
    ∃ u, c.links[l]? = some (.up u) ∧ u.session.sent = n := by
  unfold sealedBy at h
  split at h
  · exact ⟨_, ‹_›, Option.some.inj h⟩
  · cases h

theorem greeters_joined : Duplex.Joined 1 1
    ((Mock.paired 1 5 [Mock.Greeter.mk 3]).build.run Mock.reachOut)
    ((Mock.paired 5 1 [Mock.Greeter.mk 4]).build.run [])
    (Mock.at_ 1 7 (.linkUp 1 (.tcpLan 1) (some 1))) (Mock.at_ 1 8 (.linkUp 1 (.tcpLan 1) none)) where
  freshA := by
    rw [← Option.isNone_iff_eq_none]
    decide +kernel
  freshB := by simp [CoreBuilder.build]
  dialled := ⟨_, _, rfl⟩
  accepted := ⟨_, rfl⟩

/-- Two greeters come up, and each can open the other's greeting. -/
theorem greetings_open : (∃ u, (Lib.run Metered.step
      ⟨(Mock.paired 5 1 [Mock.Greeter.mk 4]).build, fun _ => 0⟩ Mock.narrowCall).core.links[1]? =
        some (.up u) ∧ u.session.sent = (Lib.run Metered.step
          ⟨(Mock.paired 5 1 [Mock.Greeter.mk 4]).build, fun _ => 0⟩ Mock.narrowCall).count 1) ∧
    (Lib.run (Duplex.step 1 1) (Mock.greeted 3 4) Mock.shakeHands).InStep 1 1 := by
  obtain ⟨hsent, hopen⟩ := sealed_messages_are_sent_and_open (P := Mock.Greeter) Mock.sealLaw
  constructor
  · obtain ⟨u, hu, -⟩ := Core.up_of_sealedBy (n := 1) (l := 1) (c := (Lib.run Metered.step
      ⟨(Mock.paired 5 1 [Mock.Greeter.mk 4]).build, fun _ => 0⟩ Mock.narrowCall).core)
      (by decide +kernel)
    exact ⟨u, hu, hsent _ _ (by decide +kernel) 1 u hu⟩
  · exact hopen Mock.cipher 1 1 _ _ _ _ greeters_joined Mock.shakeHands (by decide +kernel)

/-- A greeting that is too long for the link is sealed and then not sent. -/
theorem long_greeting_is_sealed_unsent : ∃ u, (Lib.run Metered.step
      ⟨(Mock.paired 5 1 [Mock.Greeter.mk 200]).build, fun _ => 0⟩ Mock.narrowCall).core.links[1]? =
        some (.up u) ∧ u.session.sent = 1 ∧ (Lib.run Metered.step
      ⟨(Mock.paired 5 1 [Mock.Greeter.mk 200]).build, fun _ => 0⟩ Mock.narrowCall).count 1 = 0 := by
  obtain ⟨u, hu, hs⟩ := Core.up_of_sealedBy (n := 1) (l := 1) (c := (Lib.run Metered.step
      ⟨(Mock.paired 5 1 [Mock.Greeter.mk 200]).build, fun _ => 0⟩ Mock.narrowCall).core)
      (by decide +kernel)
  exact ⟨u, hu, hs, by decide +kernel⟩

theorem greeters_negotiated : ∃ u v,
    (Lib.run (Duplex.step 1 1) (Mock.greeted 3 4) Mock.shakeHands).a.links[1]? = some (.up u) ∧
    (Lib.run (Duplex.step 1 1) (Mock.greeted 3 4) Mock.shakeHands).b.links[1]? = some (.up v) ∧
    u.canSend = v.canRecv ∧ v.canSend = u.canRecv := by
  obtain ⟨u, hu⟩ := Core.up_of_isUp
    (c := (Lib.run (Duplex.step 1 1) (Mock.greeted 3 4) Mock.shakeHands).a) (l := 1)
    (by decide +kernel)
  obtain ⟨v, hv⟩ := Core.up_of_isUp
    (c := (Lib.run (Duplex.step 1 1) (Mock.greeted 3 4) Mock.shakeHands).b) (l := 1)
    (by decide +kernel)
  unfold Mock.greeted at hu hv ⊢
  obtain ⟨h, h', -⟩ := negotiation_agrees Mock.payloadLaw (Mock.paired 1 5 [Mock.Greeter.mk 3])
    (Mock.paired 5 1 [Mock.Greeter.mk 4]) Mock.reachOut [] 1 1 _ _ greeters_joined Mock.shakeHands
    u v hu hv
  exact ⟨u, v, hu, hv, h, h'⟩


end Acrylius
