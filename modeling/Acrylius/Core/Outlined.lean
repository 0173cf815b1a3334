import Acrylius.Core.Outline

/-! Every event is handled as outlined. -/
namespace Acrylius
open Proto Std

variable {X : Crates} {P : Type}

namespace Exec
variable [Plugin P] {i : Core.Input X} {s r : Exec X P} {l : LinkId}

omit [Plugin P] in
theorem insertLink_view (r : Exec X P) (l : LinkId) (st : LinkState X) :
    (r.insertLink l st).view = { r.view with links := r.view.links.insert l st } := rfl

omit [Plugin P] in
theorem setPairing_view (r : Exec X P) (w : Option PairingWindow) :
    ({ r with core.pairing := w }).view =
      { r.view with trust := { r.view.trust with pairing := w } } := rfl

omit [Plugin P] in
theorem push_view (r : Exec X P) (a : Action) :
    (r.push a).view = { r.view with actions := r.view.actions ++ [a] } := rfl

omit [Plugin P] in
theorem failLink_view (r : Exec X P) (l : LinkId) (detail : String) :
    ∃ e, (r.failLink l detail).view = { r.view with
      links := r.view.links.erase l
      actions := r.view.actions ++ [.close l (.protocol .notAllowed), .ui e] } :=
  ⟨_, View.ext rfl rfl rfl (by simp only [failLink, push, ui, view, List.append_assoc,
    List.cons_append, List.nil_append]; rfl) rfl⟩

theorem refuses_failure (l : LinkId) (e : UiEvent) :
    ∀ a ∈ [Action.close l (.protocol .notAllowed), .ui e], a.refuses l := by
  simp [Action.refuses]

theorem refuses_append {as bs : List Action} (ha : ∀ a ∈ as, a.refuses l)
    (hb : ∀ a ∈ bs, a.refuses l) : ∀ a ∈ as ++ bs, a.refuses l := by
  intro a h
  rcases List.mem_append.mp h with h | h
  · exact ha a h
  · exact hb a h

theorem failLink_head {as : List Action} {dials : ExtTreeMap DialToken (TransportId × String)}
    {quiet : ℕ} (detail : String) (may : Refusable i s l)
    (hlinks : r.core.links = s.core.links ∨ r.core.links = s.core.links.erase l)
    (htrust : r.core.trust =
      { s.core.trust with pendingPairDials := dials, pairQuietUntil := quiet })
    (hplugins : r.core.plugins = s.core.plugins) (hactions : r.actions = s.actions ++ as)
    (has : ∀ a ∈ as, a.refuses l) (hsends : r.sends = s.sends) :
    Head i s (r.failLink l detail) := by
  obtain ⟨e, he⟩ := failLink_view r l detail
  refine .failed may (refuses_append has (refuses_failure l e))
    (he.trans (View.ext htrust ?_ hplugins ?_ hsends))
  · rcases hlinks with h | h <;> simp [h, view, Lib.erase_erase]
  · simp [hactions, view]

/-- The same when nothing was pushed and no trust was touched before. -/
theorem failLink_head_plain (detail : String) (may : Refusable i s l)
    (hlinks : r.core.links = s.core.links ∨ r.core.links = s.core.links.erase l)
    (htrust : r.core.trust = s.core.trust) (hplugins : r.core.plugins = s.core.plugins)
    (hactions : r.actions = s.actions) (hsends : r.sends = s.sends) :
    Head i s (r.failLink l detail) :=
  failLink_head detail may hlinks htrust hplugins (hactions.trans (List.append_nil _).symm)
    (by simp) hsends

theorem onLinkUp_head {attrs : LinkAttrs} {dial : Option DialToken}
    (he : i.event = .linkUp l attrs dial) :
    Head i s (s.onLinkUp i.now.monotonicMs i.seed l attrs dial) := by
  have may : Refusable i s l := .inl ⟨attrs, dial, he⟩
  unfold onLinkUp
  dsimp only
  split
  · rename_i d via hd
    obtain ⟨d', rfl, hd⟩ := Option.bind_eq_some_iff.mp hd
    obtain ⟨via', hvia, hd⟩ := Option.map_eq_some_iff.mp hd
    cases hd
    unfold startPairInitiator
    split
    · exact failLink_head _ may (.inl rfl) rfl rfl (List.append_nil _).symm (by simp) rfl
    · rename_i hs hb
      split
      · exact failLink_head _ may (.inl rfl) rfl rfl (List.append_nil _).symm (by simp) rfl
      · rename_i m hs' hw
        exact .dialledPair he hvia hb hw rfl rfl rfl rfl
  · split
    · rename_i d x pending hd
      obtain ⟨d', rfl, -⟩ := Option.bind_eq_some_iff.mp hd
      unfold startSessionInitiator
      split
      · exact failLink_head_plain _ may (.inl rfl) rfl rfl rfl rfl
      · rename_i record hr
        split
        · rename_i pk psk hpk hpsk
          split
          · exact failLink_head_plain _ may (.inl rfl) rfl rfl rfl rfl
          · rename_i hs hb
            split
            · exact failLink_head_plain _ may (.inl rfl) rfl rfl rfl rfl
            · rename_i m hs' hw
              exact .dialledSession he hr hpk hpsk hb hw rfl rfl rfl rfl rfl
        · exact failLink_head_plain _ may (.inl rfl) rfl rfl rfl rfl
    · exact .opened he rfl

omit [Plugin P] in
theorem whyNotPair_eq_none {c : Core X P} {nowMs : ℕ} (h : c.whyNotPair nowMs = none) :
    c.pairing = none := by
  unfold Core.whyNotPair at h
  split at h
  · cases h
  · split at h
    · cases h
    · cases h
    · assumption

theorem onPairOpener_head {msg body : Bytes} {p : PendingLink} (he : i.event = .linkRecv l msg)
    (hf : Frame.split msg = some (.pairHandshake, body)) (hl : s.core.links[l]? = some (.pending p)) :
    Head i s ((s.unlink l).onPairOpener i.now.monotonicMs i.seed l p body) := by
  have may : Refusable i s l := .inr ⟨msg, he, .inr fun u hu => by simp [hl] at hu⟩
  unfold onPairOpener
  split
  · exact failLink_head_plain _ may (.inr rfl) rfl rfl rfl rfl
  · rename_i hwhy
    split
    · exact failLink_head_plain _ may (.inr rfl) rfl rfl rfl rfl
    · rename_i hs₀ hb
      split
      · exact failLink_head _ may (.inr rfl) rfl rfl (List.append_nil _).symm (by simp) rfl
      · rename_i payload hs hr
        split
        · exact failLink_head_plain _ may (.inr rfl) rfl rfl rfl rfl
        · rename_i m hs' hw
          refine .answered he hf hl (whyNotPair_eq_none hwhy) hb hr hw ?_ ?_
            (View.ext rfl (Lib.erase_insert _ _ _) rfl rfl rfl) <;> rfl

omit [Plugin P] in
/-- Accepting a `Hello` either changes one record and stores it, or only tells a person. -/
theorem acceptHello_cases (s : Exec X P) (peer : DeviceId) (payload : Bytes) :
    (∃ hello record record', Accepted s peer payload hello record record' ∧
      s.acceptHello peer payload = (({ s with core.peers := s.core.peers.insert peer record' }).push
        (Core.peerBlob X record'), true)) ∨
    ∃ r, s.acceptHello peer payload = (r, false) ∧ (r = s ∨ ∃ e, r = s.ui e) := by
  unfold acceptHello
  split
  · exact .inr ⟨_, rfl, .inr ⟨_, rfl⟩⟩
  · rename_i hello hd
    split
    · exact .inr ⟨_, rfl, .inl rfl⟩
    · rename_i record hr
      split
      · rename_i seen hfresh
        obtain rfl := (Hello.checkFreshness_ok hfresh).1
        exact .inl ⟨hello, record, _, ⟨hd, hr, hfresh, rfl⟩, rfl⟩
      · exact .inr ⟨_, rfl, .inr ⟨_, rfl⟩⟩

/-- A session handshake that reached its `Hello`: refused, accepted and then failed, or up. -/
theorem finishSession_head {attrs : LinkAttrs} {peer : DeviceId} {payload : Bytes}
    {hs hs' : Handshake X} {owes : Bool} {hello : Hello} {record record' : PeerRecord}
    {reply : List Bytes} (hread : SessionRead i s l attrs peer payload hs owes)
    (hacc : Accepted s peer payload hello record record')
    (hturn : hs.Turn owes (X.encode s.core.hello) reply hs')
    (hr : r.view = { s.view with
      trust := { s.view.trust with peers := s.core.peers.insert peer record' }
      links := s.view.links.erase l
      actions := s.view.actions ++ Core.peerBlob X record' :: framesFor l .sessionHandshake reply }) :
    Head i s (r.finishSession i.now.monotonicMs l hs' attrs peer) := by
  have hpeers : r.core.peers = s.core.peers.insert peer record' :=
    congrArg (fun v => v.trust.peers) hr
  unfold finishSession
  dsimp only
  split
  · rename_i e _
    obtain ⟨e, he⟩ := failLink_view r l e.toString
    rw [hr] at he
    exact .wasted hread hacc (.inr ⟨hs', hturn⟩) (refuses_failure l e)
      (he.trans (View.ext rfl (Lib.erase_erase _ _) rfl (by simp) rfl))
  · rename_i session hopen
    have hhash : hs'.handshakeHash = .ok (X.getHandshakeHash hs'.state) := by
      unfold Handshake.intoSession at hopen
      unfold Handshake.handshakeHash
      cases hc : hs'.isComplete with
      | false => simp [hc] at hopen
      | true => rfl
    rw [hpeers, ExtTreeMap.getElem?_insert_self]
    dsimp only
    refine .established hread hacc hturn hopen ?_
    have hcaps : r.core.capsOut = s.core.capsOut ∧ r.core.capsIn = s.core.capsIn :=
      ⟨congrArg (fun v => v.trust.capsOut) hr, congrArg (fun v => v.trust.capsIn) hr⟩
    have htrust : r.core.trust = _ := congrArg View.trust hr
    have hlinks : r.core.links = s.core.links.erase l := congrArg View.links hr
    have hplugins : r.core.plugins = s.core.plugins := congrArg View.plugins hr
    have hactions : r.actions = _ := congrArg View.actions hr
    have hsends : r.sends = s.sends := congrArg View.sends hr
    refine View.ext htrust ?_ hplugins ?_ hsends
    · simp [view, ui, push, insertLink, freshLink, hlinks, hhash, hcaps]
    · simp [view, ui, push, insertLink, hactions]

theorem refused_head (detail : String) (may : Refusable i s l)
    (h : r = s.unlink l ∨ ∃ e, r = (s.unlink l).ui e) : Head i s (r.failLink l detail) := by
  rcases h with rfl | ⟨e, rfl⟩
  · exact failLink_head_plain _ may (.inr rfl) rfl rfl rfl rfl
  · exact failLink_head _ may (.inr rfl) rfl rfl rfl (by simp [Action.refuses]) rfl

omit [Plugin P] in
theorem Accepted.of_unlink {peer : DeviceId} {payload : Bytes} {hello : Hello}
    {record record' : PeerRecord} (h : Accepted (s.unlink l) peer payload hello record record') :
    Accepted s peer payload hello record record' :=
  ⟨h.decoded, h.known, h.fresh, h.updated⟩

theorem onSessionOpener_head {msg body : Bytes} {p : PendingLink} (he : i.event = .linkRecv l msg)
    (hf : Frame.split msg = some (.sessionHandshake, body))
    (hl : s.core.links[l]? = some (.pending p)) :
    Head i s ((s.unlink l).onSessionOpener i.now.monotonicMs i.seed l p body) := by
  have may : Refusable i s l := .inr ⟨msg, he, .inr fun u hu => by simp [hl] at hu⟩
  unfold onSessionOpener
  split
  · exact failLink_head_plain _ may (.inr rfl) rfl rfl rfl rfl
  rename_i pk hid
  dsimp only
  split
  · exact failLink_head_plain _ may (.inr rfl) rfl rfl rfl rfl
  rename_i record hrec
  split
  · exact failLink_head_plain _ may (.inr rfl) rfl rfl rfl rfl
  rename_i psk hpsk
  split
  · exact failLink_head_plain _ may (.inr rfl) rfl rfl rfl rfl
  rename_i hs₀ hb
  split
  · exact failLink_head_plain _ may (.inr rfl) rfl rfl rfl rfl
  rename_i payload hs hr
  have hread : SessionRead i s l p.attrs (DeviceId.of X pk) payload hs true :=
    .opener he hf hl hid hrec hpsk hb hr
  rcases acceptHello_cases (s.unlink l) (DeviceId.of X pk) payload with
    ⟨hello, record, record', hacc, heq⟩ | ⟨r, heq, hsame⟩
  · rw [heq]
    dsimp only
    split
    · rename_i e _
      obtain ⟨e, hv⟩ := failLink_view ((({ s.unlink l with
        core.peers := (s.unlink l).core.peers.insert (DeviceId.of X pk) record' }).push
        (Core.peerBlob X record'))) l e.toString
      refine .wasted hread (Accepted.of_unlink hacc) (.inl rfl) (refuses_failure l e) (hv.trans ?_)
      exact View.ext rfl (Lib.erase_erase _ _) rfl (by simp [view, push, unlink, framesFor]) rfl
    · rename_i m hs' hw
      have hturn : hs.Turn true (X.encode s.core.hello) [m] hs' := ⟨m, hw, rfl⟩
      refine finishSession_head hread (Accepted.of_unlink hacc) hturn (View.ext rfl rfl rfl ?_ rfl)
      simp [view, push, unlink, framesFor]
  · rw [heq]
    exact refused_head _ may hsame

theorem onFirstFrame_head {msg body : Bytes} {kind : FrameKind} {p : PendingLink}
    (he : i.event = .linkRecv l msg) (hf : Frame.split msg = some (kind, body))
    (hl : s.core.links[l]? = some (.pending p)) :
    Head i s ((s.unlink l).onFirstFrame i.now.monotonicMs i.seed l p kind body) := by
  cases kind with
  | pairHandshake => exact onPairOpener_head he hf hl
  | sessionHandshake => exact onSessionOpener_head he hf hl
  | transport =>
    exact failLink_head_plain _ (.inr ⟨msg, he, .inr fun u hu => by simp [hl] at hu⟩) (.inr rfl)
      rfl rfl rfl rfl

theorem onSessionReply_head {msg body payload : Bytes} {h : HandshakingLink X} {hs : Handshake X}
    (he : i.event = .linkRecv l msg) (hf : Frame.split msg = some (.sessionHandshake, body))
    (hl : s.core.links[l]? = some (.handshaking h)) (hflow : h.pairingFlow = false)
    (hr : h.hs.read body = .ok (payload, hs)) (hdone : hs.isComplete) :
    Head i s ((s.unlink l).onSessionReply i.now.monotonicMs l { h with hs } payload) := by
  have may : Refusable i s l := .inr ⟨msg, he, .inr fun u hu => by simp [hl] at hu⟩
  unfold onSessionReply
  dsimp only
  split
  · exact failLink_head_plain _ may (.inr rfl) rfl rfl rfl rfl
  rename_i peer hexp
  have hread : SessionRead i s l h.attrs peer payload hs false :=
    .reply he hf hl hflow hr hdone hexp
  rcases acceptHello_cases (s.unlink l) peer payload with
    ⟨hello, record, record', hacc, heq⟩ | ⟨r, heq, hsame⟩
  · rw [heq]
    have hturn : hs.Turn false (X.encode s.core.hello) [] hs := ⟨rfl, rfl⟩
    exact finishSession_head hread (Accepted.of_unlink hacc) hturn (View.ext rfl rfl rfl rfl rfl)
  · rw [heq]
    exact refused_head _ may hsame

omit [Plugin P] in
theorem pairingAttemptFailed_view (r : Exec X P) (nowMs : ℕ) (l : LinkId) :
    ∃ as, (∀ a ∈ as, a.refuses l) ∧ (r.pairingAttemptFailed nowMs l).view = { r.view with
      trust := { r.view.trust with
        pairing := none
        pairQuietUntil := nowMs + r.core.config.pairCooldownMs }
      links := r.view.links.erase l
      actions := r.view.actions ++ as } := by
  obtain ⟨e, hv⟩ := failLink_view r l "pairing handshake failed"
  have hactions : (r.failLink l "pairing handshake failed").actions = _ := congrArg View.actions hv
  have hlast : ∀ a ∈ [Action.ui (.pairingFailed "the pairing handshake failed")], a.refuses l := by
    simp [Action.refuses]
  refine ⟨_, refuses_append (refuses_failure l e) hlast, View.ext rfl rfl rfl ?_ rfl⟩
  simp only [pairingAttemptFailed, view, ui, push, hactions, List.append_assoc]

/-- A pairing handshake that ran to its end: dropped, refused a place, or put on screen. -/
theorem pairingCompleted_head {msg body payload : Bytes} {h : HandshakingLink X}
    {hs' : Handshake X} {reply : List Bytes} (he : i.event = .linkRecv l msg)
    (hf : Frame.split msg = some (.pairHandshake, body)) (hread : PairRead i s l h payload reply hs')
    (hdone : hs'.isComplete)
    (hr : r.view = { s.view with
      links := s.view.links.erase l
      actions := s.view.actions ++ framesFor l .pairHandshake reply }) :
    Head i s (r.pairingCompleted i.now.monotonicMs l { h with hs := hs' } payload) := by
  have hlinks : r.core.links = s.core.links.erase l := congrArg View.links hr
  have hconfig : r.core.config = s.core.config := congrArg (fun v => v.trust.config) hr
  unfold pairingCompleted
  dsimp only
  split
  · rename_i hash pk hhash hpk
    split
    · rename_i hdec
      obtain ⟨as, has, hv⟩ := pairingAttemptFailed_view r i.now.monotonicMs l
      rw [hr, hconfig] at hv
      refine .abandoned he hf hread.link hread.flow (.inr ⟨payload, hs', hread, hdone, by simp [hpk], hdec⟩) has
        (hv.trans (View.ext rfl (Lib.erase_erase _ _) rfl (List.append_assoc _ _ _) rfl))
    · rename_i hello hdec
      have hq : (r.insertLink l (.pending ⟨h.attrs, h.deadline⟩)).view = { s.view with
          links := s.view.links.insert l (.pending ⟨h.attrs, h.deadline⟩)
          actions := s.view.actions ++ framesFor l .pairHandshake reply } := by
        rw [insertLink_view, hr]
        exact View.ext rfl (Lib.erase_insert _ _ _) rfl rfl rfl
      generalize r.insertLink l (.pending ⟨h.attrs, h.deadline⟩) = q at hq
      have unwanted : ∀ detail, Head i s (q.failLink l detail) := by
        intro detail
        obtain ⟨e, hv⟩ := failLink_view q l detail
        rw [hq] at hv
        exact .unwanted hread (refuses_failure l e)
          (hv.trans (View.ext rfl (Lib.insert_erase _ _ _) rfl (List.append_assoc _ _ _) rfl))
      split
      · exact unwanted _
      · exact unwanted _
      · rename_i deadline hw
        have hwindow : s.core.pairing = some ⟨deadline, none⟩ :=
          (congrArg (fun v => v.trust.pairing) hq).symm.trans hw
        have hcfg : q.core.config = s.core.config := congrArg (fun v => v.trust.config) hq
        refine .awaited hread hhash hpk hdec hwindow ?_
        rw [ui, push_view, setPairing_view, hcfg, hq]
        exact View.ext rfl rfl rfl (List.append_assoc _ _ _) rfl
  · obtain ⟨e, hv⟩ := failLink_view r l "handshake completed without a peer key"
    rw [hr] at hv
    refine .unwanted hread (refuses_failure l e)
      (hv.trans (View.ext rfl (Lib.erase_erase _ _) rfl (List.append_assoc _ _ _) rfl))

/-- A frame of a pairing in flight that was read, with the answer it owed already sent. -/
theorem afterPairRead_head {msg body payload : Bytes} {h : HandshakingLink X} {hs hs' : Handshake X}
    {reply : List Bytes} (he : i.event = .linkRecv l msg)
    (hf : Frame.split msg = some (.pairHandshake, body)) (hl : s.core.links[l]? = some (.handshaking h))
    (hflow : h.pairingFlow) (hread : h.hs.read body = .ok (payload, hs))
    (hturn : hs.Turn hs.isMyTurn (X.encode s.core.hello) reply hs')
    (hr : r.view = { s.view with
      links := s.view.links.erase l
      actions := s.view.actions ++ framesFor l .pairHandshake reply }) :
    Head i s (r.afterHandshakeRead i.now.monotonicMs l { h with hs := hs' } payload) := by
  unfold afterHandshakeRead
  dsimp only
  cases hdone : hs'.isComplete with
  | false =>
    refine .continued he hf (by simp [hflow]) hl hread (by simpa [hflow] using hturn) hdone ?_
    rw [if_pos (by decide), insertLink_view, hr]
    exact View.ext rfl (Lib.erase_insert _ _ _) rfl rfl rfl
  | true =>
    rw [if_neg (by decide), if_pos hflow]
    exact pairingCompleted_head he hf ⟨hl, hflow, msg, body, hs, he, hf, hread, hturn⟩ hdone hr

theorem onHandshakeFrame_head {msg body : Bytes} {kind : FrameKind} {h : HandshakingLink X}
    (he : i.event = .linkRecv l msg) (hf : Frame.split msg = some (kind, body))
    (hl : s.core.links[l]? = some (.handshaking h)) :
    Head i s ((s.unlink l).onHandshakeFrame i.now.monotonicMs l h kind body) := by
  have may : Refusable i s l := .inr ⟨msg, he, .inr fun u hu => by simp [hl] at hu⟩
  unfold onHandshakeFrame
  by_cases hkind : kind = if h.pairingFlow then .pairHandshake else .sessionHandshake
  case neg =>
    rw [if_pos hkind]
    exact failLink_head_plain _ may (.inr rfl) rfl rfl rfl rfl
  rw [if_neg (not_not.mpr hkind)]
  obtain ⟨hs₀, attrs, deadline, expect, flow, via, fallback⟩ := h
  cases flow with
  | false =>
    obtain rfl : kind = .sessionHandshake := hkind
    split
    · exact failLink_head_plain _ may (.inr rfl) rfl rfl rfl rfl
    · rename_i payload hs hread
      simp only [Bool.false_and, Bool.false_eq_true, if_false, afterHandshakeRead]
      cases hdone : hs.isComplete with
      | true => exact onSessionReply_head he hf hl rfl hread hdone
      | false =>
        have hturn : hs.Turn (false && hs.isMyTurn) (X.encode s.core.hello) [] hs := ⟨rfl, rfl⟩
        refine .continued he hf rfl hl hread hturn hdone ?_
        rw [if_pos (by decide), insertLink_view]
        exact View.ext rfl (Lib.erase_insert _ _ _) rfl (List.append_nil _).symm rfl
  | true =>
    obtain rfl : kind = .pairHandshake := hkind
    split
    · obtain ⟨as, has, hv⟩ := pairingAttemptFailed_view (s.unlink l) i.now.monotonicMs l
      rename_i e hread
      refine .abandoned he hf hl rfl (.inl ⟨⟨e, hread⟩, rfl⟩) has (hv.trans ?_)
      exact View.ext rfl (Lib.erase_erase _ _) rfl rfl rfl
    · rename_i payload hs hread
      simp only [Bool.true_and]
      cases hmine : hs.isMyTurn with
      | true =>
        rw [if_pos rfl]
        split
        · rename_i m hs' hw
          have hturn : hs.Turn hs.isMyTurn (X.encode s.core.hello) [m] hs' := by
            rw [hmine]
            exact ⟨m, hw, rfl⟩
          exact afterPairRead_head he hf hl rfl hread hturn rfl
        · exact failLink_head_plain _ may (.inr rfl) rfl rfl rfl rfl
      | false =>
        have hturn : hs.Turn hs.isMyTurn (X.encode s.core.hello) [] hs := by
          rw [hmine]
          exact ⟨rfl, rfl⟩
        refine afterPairRead_head he hf hl rfl hread hturn ?_
        exact View.ext rfl rfl rfl (List.append_nil _).symm rfl

/-- A link that is established or unknown goes down like any other. -/
theorem onLinkDown_aftermath {nowMs : ℕ} (s : Exec X P)
    (h : ∀ st, s.core.links[l]? = some st → ∃ u, st = .up u) :
    Aftermath nowMs s (s.onLinkDown nowMs l) := by
  unfold onLinkDown
  cases hl : s.core.links[l]? with
  | none => exact .forget (by simp [hl])
  | some st =>
    obtain ⟨u, rfl⟩ := h st hl
    exact .lose hl

theorem onLinkDown_outline {reason : LinkDownReason} (he : i.event = .linkDown l reason) :
    Outline i s (s.onLinkDown i.now.monotonicMs l) := by
  cases hl : s.core.links[l]? with
  | none => exact ⟨s, .idle, onLinkDown_aftermath s (by simp [hl])⟩
  | some st =>
    cases st with
    | up u => exact ⟨s, .idle, onLinkDown_aftermath s (by simp [hl])⟩
    | pending p =>
      unfold onLinkDown
      rw [hl]
      exact ⟨s, .idle, .forget (by simp [hl])⟩
    | handshaking h =>
      unfold onLinkDown
      rw [hl]
      dsimp only
      have retry (r : Exec X P) (why : String) := fallback_cases (R := Drift) (h := h) (.refl r)
        fun pending _ => tryNextRoute_drift r i.now.monotonicMs pending why
      cases hflow : h.pairingFlow with
      | true => exact ⟨_, .hungUp he hl hflow rfl, .drift (retry _ _)⟩
      | false =>
        exact ⟨s, .idle, .trans (.forget (by simp [hl])) (.drift (retry (s.unlink l) _))⟩

omit [Plugin P] in
theorem unlink_restore {u : UpLink X} (hl : s.core.links[l]? = some (.up u)) :
    { s.unlink l with core.links := (s.unlink l).core.links.insert l (.up u) } = s := by
  have := Lib.restore hl
  simp [unlink, this]

theorem failUpLink_aftermath {nowMs : ℕ} {u : UpLink X} (detail : String)
    (hl : s.core.links[l]? = some (.up u)) :
    Aftermath nowMs s ((s.unlink l).failUpLink nowMs l u detail) := by
  unfold failUpLink
  rw [unlink_restore hl]
  refine .trans (.trans (.close s l _) (.drift (Drift.ui _ _))) (onLinkDown_aftermath _ ?_)
  intro st hst
  exact ⟨u, Option.some.inj (hst.symm.trans hl)⟩

/-- A frame that decrypts leaves the link established, with its session moved on. -/
theorem onTransportFrame_received (s : Exec X P) (l : LinkId) (nowMs : ℕ) {body plaintext : Bytes}
    {u : UpLink X} {session : Session X}
    (hdec : u.session.decrypt body = .ok (plaintext, session)) :
    ∃ mid, mid.view = { s.view with
        links := s.view.links.insert l (.up { u with session, lastRecvMs := nowMs }) } ∧
      Drift mid ((s.unlink l).onTransportFrame nowMs l u .transport body) := by
  refine ⟨(s.unlink l).insertLink l (.up { u with session, lastRecvMs := nowMs }),
    View.ext rfl (Lib.erase_insert _ _ _) rfl rfl rfl, ?_⟩
  unfold onTransportFrame
  rw [if_neg (not_not.mpr rfl), hdec]
  dsimp only
  split
  · exact Drift.ui _ _
  · split
    · exact sendError_drift _ _ _ _
    · split
      · exact Drift.ui _ _
      · exact routeEnvelope_drift _ _ _ _

theorem onTransportFrame_outline {msg body : Bytes} {kind : FrameKind} {u : UpLink X}
    (he : i.event = .linkRecv l msg) (hf : Frame.split msg = some (kind, body))
    (hl : s.core.links[l]? = some (.up u)) :
    Outline i s ((s.unlink l).onTransportFrame i.now.monotonicMs l u kind body) := by
  by_cases hkind : kind = .transport
  case neg =>
    unfold onTransportFrame
    rw [if_pos hkind]
    exact ⟨s, .idle, failUpLink_aftermath _ hl⟩
  subst hkind
  cases hdec : u.session.decrypt body with
  | error e =>
    unfold onTransportFrame
    rw [if_neg (not_not.mpr rfl), hdec]
    exact ⟨s, .idle, failUpLink_aftermath _ hl⟩
  | ok r =>
    obtain ⟨mid, hview, hdrift⟩ := onTransportFrame_received s l i.now.monotonicMs hdec
    exact ⟨mid, .received he hf hl hdec hview, .drift hdrift⟩

theorem onLinkRecv_outline {msg : Bytes} (he : i.event = .linkRecv l msg) :
    Outline i s (s.onLinkRecv i.now.monotonicMs i.seed l msg) := by
  have of_head : ∀ {t : Exec X P}, Head i s t → Outline i s t :=
    fun h => ⟨_, h, .drift (Drift.refl _)⟩
  unfold onLinkRecv
  split
  · rename_i hf
    exact of_head (failLink_head_plain _ (.inr ⟨msg, he, .inl hf⟩) (.inl rfl) rfl rfl rfl rfl)
  · rename_i kind body hf
    dsimp only
    split
    · exact of_head (onFirstFrame_head he hf ‹_›)
    · exact of_head (onHandshakeFrame_head he hf ‹_›)
    · exact onTransportFrame_outline he hf ‹_›
    · rename_i hl
      exact of_head (failLink_head_plain _ (.inr ⟨msg, he, .inr fun u hu => by simp [hl] at hu⟩)
        (.inr rfl) rfl rfl rfl rfl)

def UpOrGone (s : Exec X P) (l : LinkId) : Prop :=
  ∀ st, s.core.links[l]? = some st → ∃ u, st = .up u

omit [Plugin P] in
theorem UpOrGone.stir {t : Exec X P} (h : UpOrGone s l) (hd : Stir s t) : UpOrGone t l := by
  intro st hst
  obtain ⟨as, hist, -, -, -, -, hlinks⟩ := hd.trace
  have hl := hlinks false (by simp) l
  rw [hst] at hl
  cases st with
  | pending p =>
    obtain ⟨u, hu⟩ := h _ hl.pending_of.1
    cases hu
  | handshaking h' =>
    obtain ⟨h₀, h₁, -⟩ := hl.handshaking_of
    obtain ⟨u, hu⟩ := h _ h₁
    cases hu
  | up u => exact ⟨u, rfl⟩

omit [Plugin P] in
theorem UpOrGone.unlink (h : UpOrGone s l) (l' : LinkId) : UpOrGone (s.unlink l') l := by
  intro st hst
  simp only [Exec.unlink, ExtTreeMap.getElem?_erase] at hst
  split at hst
  · cases hst
  · exact h st hst

theorem UpOrGone.linkDown (h : UpOrGone s l) (nowMs : ℕ) (l' : LinkId)
    (h' : UpOrGone s l') : UpOrGone (s.onLinkDown nowMs l') l := by
  unfold onLinkDown
  cases hl : s.core.links[l']? with
  | none => exact h.unlink l'
  | some st =>
    obtain ⟨u, rfl⟩ := h' st hl
    exact (h.unlink l').stir (lostUpLink_stir _ _ _)

theorem closeEach_aftermath {nowMs : ℕ} (reason : LinkDownReason) (es : List (LinkId × UpLink X))
    (s : Exec X P) (h : ∀ e ∈ es, UpOrGone s e.1) :
    Aftermath nowMs s (es.foldl (fun s e => (s.push (.close e.1 reason)).onLinkDown nowMs e.1) s) := by
  induction es generalizing s with
  | nil => exact .drift (Drift.refl s)
  | cons e es ih =>
    have he : UpOrGone (s.push (.close e.1 reason)) e.1 := h e (by simp)
    refine .trans (.trans (.close s e.1 reason) (onLinkDown_aftermath _ he)) (ih _ ?_)
    intro e' hmem
    exact UpOrGone.linkDown (s := s.push (.close e.1 reason)) (h e' (List.mem_cons_of_mem _ hmem))
      nowMs e.1 he

theorem onLinkDown_gone {nowMs : ℕ} (s : Exec X P) (h : UpOrGone s l) :
    (s.onLinkDown nowMs l).core.links[l]? = none := by
  have gone : (s.unlink l).core.links[l]? = none := by simp [Exec.unlink]
  unfold onLinkDown
  cases hl : s.core.links[l]? with
  | none => exact gone
  | some st =>
    obtain ⟨u, rfl⟩ := h st hl
    exact (lostUpLink_stir _ _ _).none_of gone

/-- Every link in the list is gone once they have been closed one after the other. -/
theorem closeEach_gone {nowMs : ℕ} (reason : LinkDownReason) (es : List (LinkId × UpLink X))
    (s : Exec X P) (h : ∀ e ∈ es, UpOrGone s e.1) : ∀ e ∈ es,
    (es.foldl (fun s e => (s.push (.close e.1 reason)).onLinkDown nowMs e.1) s).core.links[e.1]? =
      none := by
  induction es generalizing s with
  | nil => simp
  | cons e es ih =>
    have he : UpOrGone (s.push (.close e.1 reason)) e.1 := h e (by simp)
    have hrest : ∀ e' ∈ es,
        UpOrGone ((s.push (.close e.1 reason)).onLinkDown nowMs e.1) e'.1 := fun e' hmem =>
      UpOrGone.linkDown (s := s.push (.close e.1 reason)) (h e' (List.mem_cons_of_mem _ hmem))
        nowMs e.1 he
    intro e' hmem
    rw [List.foldl_cons]
    rcases List.mem_cons.mp hmem with rfl | hmem
    · exact (closeEach_aftermath reason es _ hrest).none_of (onLinkDown_gone _ he)
    · exact ih _ hrest e' hmem

omit [Plugin P] in
theorem upLinks_upOrGone (s : Exec X P) (peer : DeviceId) :
    ∀ e ∈ s.core.upLinks peer, UpOrGone s e.1 := by
  rintro ⟨l, u⟩ hmem st hst
  exact ⟨u, Option.some.inj (hst.symm.trans (Core.mem_upLinks.mp hmem).1)⟩

theorem closeUpLinks_aftermath {nowMs : ℕ} (s : Exec X P) (peer : DeviceId)
    (reason : LinkDownReason) : Aftermath nowMs s (s.closeUpLinks nowMs peer reason) :=
  closeEach_aftermath reason _ s (upLinks_upOrGone s peer)

theorem closeUpLinks_gone {nowMs : ℕ} (s : Exec X P) (peer : DeviceId) (reason : LinkDownReason)
    {v : UpLink X} (hv : (s.closeUpLinks nowMs peer reason).core.links[l]? = some (.up v)) :
    v.peer ≠ peer := by
  intro hp
  obtain ⟨u, fs, hu, hs⟩ := (closeUpLinks_aftermath s peer reason).up_of hv
  have hpeer : u.peer = peer := by rw [← hp, hs.same]
  have hgone : (s.closeUpLinks nowMs peer reason).core.links[l]? = none :=
    closeEach_gone reason _ s (upLinks_upOrGone s peer) (l, u) (Core.mem_upLinks.mpr ⟨hu, hpeer⟩)
  rw [hgone] at hv
  cases hv

/-- What follows the closing of a revoked peer's links only drifts. -/
theorem revoked_drift (r : Exec X P) (peer : DeviceId) (fp : Option Fingerprint) :
    Drift r (match fp with
      | some fp => (r.ui (.revoked peer)).announce fp
      | none => r.ui (.revoked peer)) := by
  split
  · exact (Drift.ui _ _).trans (announce_drift _ _)
  · exact Drift.ui _ _

theorem handleRevoke_outline {peer : DeviceId} (he : i.event = .localCommand (.revoke peer)) :
    Outline i s (s.handleRevoke i.now.monotonicMs peer) := by
  refine ⟨_, ?_, .trans (closeUpLinks_aftermath _ peer (.protocol .notPaired))
    (.drift (revoked_drift _ peer ((s.core.peers[peer]?).bind (·.fingerprint X))))⟩
  exact .revoked he rfl

theorem handleRevoke_peers (s : Exec X P) (nowMs : ℕ) (peer : DeviceId) :
    (s.handleRevoke nowMs peer).core.peers = s.core.peers.erase peer :=
  congrArg Trust.peers (Aftermath.trust (.trans (closeUpLinks_aftermath _ peer (.protocol .notPaired))
    (.drift (revoked_drift _ peer ((s.core.peers[peer]?).bind (·.fingerprint X))))))

theorem handleRevoke_gone {peer : DeviceId} {nowMs : ℕ} {v : UpLink X}
    (hv : (s.handleRevoke nowMs peer).core.links[l]? = some (.up v)) : v.peer ≠ peer := by
  obtain ⟨u, _, hu, hs⟩ :=
    (revoked_drift _ peer ((s.core.peers[peer]?).bind (·.fingerprint X))).toStir.up_of hv
  rw [hs.peer_eq]
  exact closeUpLinks_gone _ peer _ hu

theorem requestPairing_outline {transport : TransportId} {addr : String}
    (he : i.event = .localCommand (.requestPairing transport addr)) :
    Outline i s (s.requestPairing i.now.monotonicMs transport addr) := by
  unfold requestPairing
  split
  · exact ⟨s, .idle, .drift (Drift.ui _ _)⟩
  · rename_i hwhy
    exact ⟨_, .claimed he (whyNotPair_eq_none hwhy) rfl, .drift (Drift.refl _)⟩

theorem confirmPairing_outline {accept : Bool}
    (he : i.event = .localCommand (.confirmPairing accept)) :
    Outline i s (s.confirmPairing i.now.monotonicMs accept) := by
  have of_head : ∀ {t : Exec X P}, Head i s t → Outline i s t :=
    fun h => ⟨_, h, .drift (Drift.refl _)⟩
  unfold confirmPairing
  split
  · rename_i deadline a hw
    cases accept with
    | false =>
      refine of_head (.denied he hw ?_)
      exact View.ext rfl rfl rfl (List.append_assoc _ _ _) rfl
    | true =>
      rw [if_neg (by decide)]
      split
      · rename_i hid
        exact of_head (.unkeyed he hw hid rfl)
      · rename_i id hid
        have hv : (s.keepRoutes id a).view = s.view := by
          unfold keepRoutes
          dsimp only
          split
          · rfl
          · split <;> rfl
        generalize s.keepRoutes id a = r at hv
        obtain ⟨htrust, hlinks, hplugins, hactions, hsends⟩ := View.ext_iff.mp hv
        refine of_head (.confirmed he hw hid (View.ext ?_ ?_ hplugins ?_ hsends))
        · exact congrArg (fun tr : Trust X =>
            { tr with pairing := none, peers := tr.peers.insert id a.record }) htrust
        · exact congrArg (·.erase a.link) hlinks
        · have : r.actions = s.actions := hactions
          simp [ui, push, view, this]
  · exact of_head .idle

theorem onLocal_outline {cmd : LocalCommand} (he : i.event = .localCommand cmd) :
    Outline i s (s.onLocal i.now.monotonicMs cmd) := by
  have of_drift : ∀ {t : Exec X P}, Drift s t → Outline i s t := fun h => ⟨s, .idle, .drift h⟩
  cases cmd <;> dsimp only [onLocal]
  case requestPairing => exact requestPairing_outline he
  case confirmPairing => exact confirmPairing_outline he
  case setPeerAddress =>
    split
    · exact of_drift (Drift.of_view rfl)
    · exact of_drift (Drift.ui _ _)
  case connect => exact of_drift (connectPeer_drift _ _ _ _)
  case reconsiderRoutes =>
    exact of_drift (Drift.foldl (fun s peer => connectPeer_drift s _ peer false) _ _)
  case disconnect peer => exact ⟨s, .idle, closeUpLinks_aftermath s peer _⟩
  case revoke => exact handleRevoke_outline he
  case plugin => exact of_drift (onLocalPlugin_drift _ _ _ _ _ _)

theorem onDialFailed_outline {d : DialToken} {reason : String}
    (he : i.event = .dialFailed d reason) :
    Outline i s (s.onDialFailed i.now.monotonicMs d reason) := by
  unfold onDialFailed
  split
  · rename_i hd
    exact ⟨_, .undialled he hd rfl, .drift (Drift.refl _)⟩
  · split
    · refine ⟨s, .idle, .drift (Drift.trans ?_ (tryNextRoute_drift _ _ _ _))⟩
      exact Drift.of_view rfl
    · exact ⟨s, .idle, .drift (Drift.refl s)⟩

theorem lapsePairing_head (he : i.event = .tick) :
    Head i s (s.lapsePairing i.now.monotonicMs) := by
  unfold lapsePairing
  split
  · exact .idle
  · rename_i w hw
    split
    · exact .idle
    · rename_i hdue
      obtain ⟨deadline, awaiting⟩ := w
      cases awaiting with
      | none => exact .lapsed he hw (Nat.le_of_not_lt hdue) rfl
      | some a =>
        exact .lapsed he hw (Nat.le_of_not_lt hdue) (View.ext rfl rfl rfl (List.append_assoc _ _ _) rfl)

/-- A link that never became a session leaves without a word to the plugins. -/
theorem closeStale_aftermath {nowMs : ℕ} (s : Exec X P)
    (h : ∀ u : UpLink X, s.core.links[l]? ≠ some (.up u)) :
    Aftermath nowMs s (s.closeStale nowMs l) := by
  unfold closeStale
  have gone : Aftermath nowMs s ((s.unlink l).push (.close l .closed)) :=
    .trans (.forget h) (.close _ l _)
  dsimp only
  split
  · split
    · exact .trans gone (.drift (tryNextRoute_drift _ _ _ _))
    · exact gone
  · exact gone

theorem closeEachStale_aftermath {nowMs : ℕ} (ls : List LinkId) (s : Exec X P)
    (h : ∀ l ∈ ls, ∀ u : UpLink X, s.core.links[l]? ≠ some (.up u)) :
    Aftermath nowMs s (ls.foldl (fun s l => s.closeStale nowMs l) s) := by
  induction ls generalizing s with
  | nil => exact .drift (Drift.refl s)
  | cons l ls ih =>
    have hl : Aftermath nowMs s (s.closeStale nowMs l) := closeStale_aftermath s (h l (by simp))
    refine .trans hl (ih _ ?_)
    intro l' hmem v hv
    obtain ⟨u, _, hu, -⟩ := hl.up_of hv
    exact h l' (List.mem_cons_of_mem _ hmem) u hu

theorem closeStaleLinks_aftermath {nowMs : ℕ} (s : Exec X P) :
    Aftermath nowMs s (s.closeStaleLinks nowMs) := by
  refine closeEachStale_aftermath _ s ?_
  intro l hmem u hu
  simp only [List.mem_map, List.mem_filter] at hmem
  obtain ⟨⟨l', st⟩, ⟨hm, hstale⟩, rfl⟩ := hmem
  rw [ExtTreeMap.mem_toList_iff_getElem?_eq_some] at hm
  obtain rfl := Option.some.inj (hm.symm.trans hu)
  simp [stale] at hstale

theorem onTick_outline (he : i.event = .tick) : Outline i s (s.onTick i.now.monotonicMs) := by
  dsimp only [onTick]
  refine ⟨_, lapsePairing_head he, .trans (.drift (giveUpWaiting_drift _ i.now.monotonicMs)) ?_⟩
  refine .trans (closeStaleLinks_aftermath _) (.drift ?_)
  exact ((expireDials_drift _ _).trans (heartbeat_drift _ _)).trans (wakePlugins_drift _ _)

theorem onEvent_outline : Outline i s (s.onEvent i.now.monotonicMs i.seed i.event) := by
  have of_drift : ∀ {t : Exec X P}, Drift s t → Outline i s t := fun h => ⟨s, .idle, .drift h⟩
  cases he : i.event <;> dsimp only [onEvent]
  case linkUp => exact ⟨_, onLinkUp_head he, .drift (Drift.refl _)⟩
  case linkRecv => exact onLinkRecv_outline he
  case linkDown => exact onLinkDown_outline he
  case dialFailed => exact onDialFailed_outline he
  case discovered => exact of_drift (onDiscovered_drift _ _ _ _)
  case undiscovered => exact of_drift (onUndiscovered_drift _ _ _)
  case bulkListening transfer endpoint =>
    exact of_drift (dispatchToTransferOwner_drift _ _ _ fun obs ho p cx =>
      ho.listening p cx transfer endpoint)
  case bulkStarted => exact of_drift (Drift.of_view rfl)
  case bulkFinished transfer ok detail =>
    have h := dispatchToTransferOwner_drift s i.now.monotonicMs transfer fun obs ho p cx =>
      ho.finished p cx transfer ok detail
    exact of_drift (h.trans (Drift.of_view rfl))
  case tick => exact onTick_outline he
  case localCommand => exact onLocal_outline he
  case effectDone => exact of_drift (onEffectDone_drift _ _ _ _)

end Exec
end Acrylius
