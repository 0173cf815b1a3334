import Acrylius.Core.Inversion

/-! How one step treats one link: what the event itself does to it, then the fate it meets. -/
namespace Acrylius
open Proto Std

variable {X : Crates} {P : Type}

/-- Events that the transport reports about one link, its loss apart. -/
def Event.touches (l : LinkId) : Event → Bool
  | .linkUp l' _ _ | .linkRecv l' _ => l' = l
  | _ => false

/-- What the event itself puts on a link, and the state it leaves the link in. -/
inductive Touch (i : Core.Input X) (s : Exec X P) (l : LinkId) :
    List Bytes → Option (LinkState X) → Prop where
  | kept : Touch i s l [] (s.core.links[l]?)
  | gone : Touch i s l [] none
  | opened {attrs dial} {q : PendingLink} (event : i.event = .linkUp l attrs dial) :
      Touch i s l [] (some (.pending q))
  | dialledSession {attrs d psk pk hs m} {h : HandshakingLink X}
      (event : i.event = .linkUp l attrs (some d))
      (build : Handshake.sessionInitiator s.core.identity psk pk i.seed = .ok hs)
      (write : hs.write (X.encode s.core.hello) = .ok (m, h.hs)) (flow : h.pairingFlow = false) :
      Touch i s l [Frame.join .sessionHandshake m] (some (.handshaking h))
  | dialledPair {attrs d m} {h : HandshakingLink X} (event : i.event = .linkUp l attrs (some d))
      (flow : h.pairingFlow) : Touch i s l [Frame.join .pairHandshake m] (some (.handshaking h))
  | answered {msg m} {q : PendingLink} {h : HandshakingLink X} (event : i.event = .linkRecv l msg)
      (link : s.core.links[l]? = some (.pending q)) (flow : h.pairingFlow) :
      Touch i s l [Frame.join .pairHandshake m] (some (.handshaking h))
  | wasted {attrs peer payload hs owes reply}
      (read : SessionRead i s l attrs peer payload hs owes)
      (hreply : reply = [] ∨ ∃ hs', hs.Turn owes (X.encode s.core.hello) reply hs') :
      Touch i s l (reply.map (Frame.join .sessionHandshake)) none
  | established {hello record' reply} {u : UpLink X}
      (est : Established i s l hello record' reply u) :
      Touch i s l (reply.map (Frame.join .sessionHandshake)) (some (.up u))
  | continued {msg : Bytes} {reply : List Bytes} {h h' : HandshakingLink X}
      (event : i.event = .linkRecv l msg)
      (link : s.core.links[l]? = some (.handshaking h)) (flow : h'.pairingFlow = h.pairingFlow)
      (silent : h.pairingFlow = false → reply = []) :
      Touch i s l (reply.map (Frame.join .pairHandshake)) (some (.handshaking h'))
  | paired {msg : Bytes} {reply : List Bytes} {y : Option (LinkState X)} {h : HandshakingLink X}
      (event : i.event = .linkRecv l msg)
      (link : s.core.links[l]? = some (.handshaking h)) (flow : h.pairingFlow)
      (after : y = none ∨ ∃ q, y = some (.pending q)) :
      Touch i s l (reply.map (Frame.join .pairHandshake)) y
  | received {msg body u plaintext session} (event : i.event = .linkRecv l msg)
      (frame : Frame.split msg = some (.transport, body)) (link : s.core.links[l]? = some (.up u))
      (decrypt : u.session.decrypt body = .ok (plaintext, session)) :
      Touch i s l [] (some (.up { u with session, lastRecvMs := i.now.monotonicMs }))

/-- An event about something else leaves the link as it is, or drops it. -/
theorem Touch.foreign {i : Core.Input X} {s : Exec X P} {l : LinkId} {fs : List Bytes}
    {y : Option (LinkState X)} (h : Touch i s l fs y) (he : i.event.touches l = false) :
    fs = [] ∧ (y = s.core.links[l]? ∨ y = none) := by
  have read : ∀ {attrs peer payload hs owes}, SessionRead i s l attrs peer payload hs owes →
      ∃ msg, i.event = .linkRecv l msg := by
    intro attrs peer payload hs owes hr
    cases hr with
    | opener event => exact ⟨_, event⟩
    | reply event => exact ⟨_, event⟩
  cases h with
  | kept => exact ⟨rfl, .inl rfl⟩
  | gone => exact ⟨rfl, .inr rfl⟩
  | opened event
  | dialledSession event
  | dialledPair event
  | answered event
  | continued event
  | paired event
  | received event => simp [event, Event.touches] at he
  | wasted hread =>
    obtain ⟨msg, event⟩ := read hread
    simp [event, Event.touches] at he
  | established est =>
    cases est with
    | intro hread =>
      obtain ⟨msg, event⟩ := read hread
      simp [event, Event.touches] at he

theorem framesOn_framesFor (l l' : LinkId) (kind : FrameKind) (ms : List Bytes) :
    framesOn l (framesFor l' kind ms) = if l' = l then ms.map (Frame.join kind) else [] := by
  induction ms with
  | nil => simp [framesFor, framesOn]
  | cons m ms ih =>
    simp only [framesFor, framesOn, List.map_cons, List.filterMap_cons] at ih ⊢
    rw [ih]
    split <;> simp_all

theorem framesOn_refuses {l l' : LinkId} {as : List Action} (h : ∀ a ∈ as, a.refuses l') :
    framesOn l as = [] := by
  unfold framesOn
  rw [List.filterMap_eq_nil_iff]
  intro a ha
  have := h a ha
  cases a <;> simp_all [Action.refuses]

variable [Plugin P]

section Moves
variable {i : Core.Input X} {s t : Exec X P} {l l' : LinkId} {fs : List Bytes}

omit [Plugin P] in
/-- A link that is put into a state: the one we look at, or another one. -/
theorem Touch.insert {st : LinkState X} (h : Touch i s l' fs (some st)) :
    Touch i s l (if l' = l then fs else []) ((s.core.links.insert l' st)[l]?) := by
  by_cases hl : l' = l
  · subst hl
    rw [if_pos rfl, ExtTreeMap.getElem?_insert_self]
    exact h
  · rw [if_neg hl, Lib.getElem?_insert_of_ne (Ne.symm hl)]
    exact .kept

omit [Plugin P] in
theorem Touch.erase (h : Touch i s l' fs none) :
    Touch i s l (if l' = l then fs else []) ((s.core.links.erase l')[l]?) := by
  by_cases hl : l' = l
  · subst hl
    rw [if_pos rfl, ExtTreeMap.getElem?_erase_self]
    exact h
  · rw [if_neg hl, Lib.getElem?_erase_of_ne (Ne.symm hl)]
    exact .kept

omit [Plugin P] in
theorem Touch.given_up (i : Core.Input X) (s : Exec X P) (l l' : LinkId) :
    Touch i s l [] ((s.core.links.erase l')[l]?) := by
  have herase : Touch i s l (if l' = l then [] else []) ((s.core.links.erase l')[l]?) :=
    Touch.erase .gone
  rwa [ite_self] at herase

omit [Plugin P] in
theorem framesOn_reply {kind : FrameKind} {reply : List Bytes} {as : List Action}
    (h : framesOn l as = []) : framesOn l (framesFor l' kind reply ++ as) =
      if l' = l then reply.map (Frame.join kind) else [] := by
  rw [framesOn_append, h, List.append_nil, framesOn_framesFor]

theorem Touch.of_view {v : View X P} {as : List Action} (hv : t.view = v)
    (ha : v.actions = s.actions ++ as) (hs : v.sends = s.sends) (hfs : framesOn l as = fs)
    (h : Touch i s l fs (v.links[l]?)) : ∃ mid fs, Touch i s l fs (mid.core.links[l]?) ∧
      framesOn l mid.actions = framesOn l s.actions ++ fs ∧ mid.sends = s.sends ∧ Stir mid t := by
  refine ⟨t, fs, ?_, ?_, ?_, (Drift.refl t).toStir⟩
  · rw [Exec.links_of hv]
    exact h
  · rw [Exec.actions_of hv, ha, framesOn_append, hfs]
  · rw [Exec.sends_of hv, hs]

end Moves

/-- The event's own move, seen from one link; what follows it in the head only stirs. -/
theorem Head.touch {i : Core.Input X} {s t : Exec X P} (h : Head i s t) (l : LinkId) :
    ∃ mid fs, Touch i s l fs (mid.core.links[l]?) ∧
      framesOn l mid.actions = framesOn l s.actions ++ fs ∧ mid.sends = s.sends ∧ Stir mid t := by
  cases h
  case idle => exact ⟨s, [], .kept, by simp, rfl, (Drift.refl s).toStir⟩
  case opened q event view =>
    refine Touch.of_view view (List.append_nil _).symm rfl rfl ?_
    have := Touch.insert (s := s) (l := l) (.opened (q := q) event)
    rwa [ite_self] at this
  case dialledSession event _ _ _ build write state _ flow _ view =>
    subst state
    exact Touch.of_view view rfl rfl (framesOn_framesFor _ _ _ _)
      (Touch.insert (.dialledSession event build write flow))
  case dialledPair event _ _ _ _ flow _ view =>
    exact Touch.of_view view rfl rfl (framesOn_framesFor _ _ _ _)
      (Touch.insert (.dialledPair event flow))
  case failed has view =>
    exact Touch.of_view view rfl rfl (framesOn_refuses has) (Touch.given_up ..)
  case answered event _ link _ _ _ _ _ flow view =>
    exact Touch.of_view view rfl rfl (framesOn_framesFor _ _ _ _)
      (Touch.insert (.answered event link flow))
  case wasted read _ hreply has view =>
    exact Touch.of_view view rfl rfl (framesOn_reply (framesOn_refuses has))
      (Touch.erase (.wasted read hreply))
  case established mid read accept turn open_ view =>
    have htouch := Touch.insert (l := l) (.established (.intro read accept turn open_))
    have hlinks := Exec.links_of view
    dsimp only at hlinks
    rw [show s.core.links = s.view.links from rfl, ← hlinks] at htouch
    refine ⟨mid, _, htouch, ?_, Exec.sends_of view, Exec.callAllPlugins_stir _ _ _⟩
    rw [Exec.actions_of view, framesOn_append]
    exact congrArg (framesOn l s.actions ++ ·) (framesOn_reply rfl)
  case continued event frame fits link read turn waiting view =>
    refine Touch.of_view view rfl rfl (framesOn_framesFor _ _ _ _)
      (Touch.insert (.continued event link rfl ?_))
    intro hflow
    simp only [Handshake.Turn, hflow, Bool.false_and, Bool.false_eq_true, if_false] at turn
    exact turn.1
  case abandoned event _ link flow _ has view =>
    exact Touch.of_view view rfl rfl (framesOn_reply (framesOn_refuses has))
      (Touch.erase (.paired event link flow (.inl rfl)))
  case unwanted read has view =>
    obtain ⟨_, _, _, event, -⟩ := read.read
    exact Touch.of_view view rfl rfl (framesOn_reply (framesOn_refuses has))
      (Touch.erase (.paired event read.link read.flow (.inl rfl)))
  case awaited read _ _ _ _ view =>
    obtain ⟨_, _, _, event, -⟩ := read.read
    exact Touch.of_view view rfl rfl (framesOn_reply rfl)
      (Touch.insert (.paired event read.link read.flow (.inr ⟨_, rfl⟩)))
  case received event frame link decrypt view =>
    refine Touch.of_view view (List.append_nil _).symm rfl rfl ?_
    have := Touch.insert (l := l) (.received event frame link decrypt)
    rwa [ite_self] at this
  case hungUp view => exact Touch.of_view view (List.append_nil _).symm rfl rfl (Touch.given_up ..)
  case lapsed w _ _ _ view =>
    obtain ⟨d, a⟩ := w
    cases a with
    | none => exact Touch.of_view view rfl rfl rfl .kept
    | some a => exact Touch.of_view view rfl rfl rfl (Touch.given_up ..)
  case denied view | confirmed view => exact Touch.of_view view rfl rfl rfl (Touch.given_up ..)
  case unkeyed view => exact Touch.of_view view (List.append_nil _).symm rfl rfl .kept
  case undialled view | claimed view | revoked view => exact Touch.of_view view rfl rfl rfl .kept

/-- A step, seen from one link: what the event does to it, then the fate it meets. With
`lockstep`, every message sealed in the step is a message sent. -/
theorem Core.step_link (c : Core X P) (i : Input X) (l : LinkId) (lockstep : Bool)
    (hlock : lockstep = true → X.SealLaw ∧ ∀ e ∈ (c.exec i).sends, e.1.fits e.2) :
    ∃ fs gs y, Touch i (c.start i) l fs y ∧ framesOn l (c.handle i).2.actions = fs ++ gs ∧
      LinkFate lockstep y gs ((c.step i).links[l]?) := by
  obtain ⟨end_, hhead, hafter⟩ := c.exec_outline i
  obtain ⟨mid, fs, htouch, hframes, hsends, hstir⟩ := hhead.touch l
  have hstir' := hstir.trace.mono (fun _ => Action.unstored_of_minor) (fun _ _ _ _ => LinkFate.drift)
  obtain ⟨as, hist, hact, hs, -, -, hl⟩ :=
    hstir'.trans (fun _ _ _ _ _ _ => LinkFate.trans) hafter.trace
  refine ⟨fs, framesOn l as, _, htouch, ?_, hl lockstep ?_ l⟩
  · change framesOn l (c.exec i).actions = _
    rw [hact, framesOn_append, hframes]
    rfl
  · intro hb
    obtain ⟨hlaw, hfits⟩ := hlock hb
    refine ⟨hlaw, fun e he => hfits e ?_⟩
    rw [hs]
    exact List.mem_append_right _ he

theorem Core.step_received (c : Core X P) (i : Input X) {l : LinkId} {body plaintext : Bytes}
    {u : UpLink X} {session : Session X}
    (he : i.event = .linkRecv l (Frame.join .transport body))
    (hu : c.links[l]? = some (.up u)) (hdec : u.session.decrypt body = .ok (plaintext, session))
    (lockstep : Bool)
    (hlock : lockstep = true → X.SealLaw ∧ ∀ e ∈ (c.exec i).sends, e.1.fits e.2) :
    LinkDrift lockstep (some (.up { u with session, lastRecvMs := i.now.monotonicMs }))
      (framesOn l (c.handle i).2.actions) ((c.step i).links[l]?) := by
  obtain ⟨mid, hview, hdrift⟩ :=
    Exec.onTransportFrame_received (c.start i) l i.now.monotonicMs hdec
  have hexec : c.exec i =
      ((c.start i).unlink l).onTransportFrame i.now.monotonicMs l u .transport body := by
    unfold Core.exec
    rw [he]
    simp only [Exec.onEvent, Exec.onLinkRecv, Frame.split_join]
    rw [hu]
    rfl
  obtain ⟨as, hist, hact, hs, -, -, hl⟩ := hdrift.trace
  have hlink := hl lockstep ?_ l
  · have hlinks : mid.core.links[l]? =
        some (.up { u with session, lastRecvMs := i.now.monotonicMs }) := by
      rw [Exec.links_of hview]
      exact ExtTreeMap.getElem?_insert_self
    have hframes : framesOn l (c.handle i).2.actions = framesOn l as := by
      change framesOn l (c.exec i).actions = _
      rw [hexec, hact, framesOn_append, Exec.actions_of hview]
      rfl
    rw [hlinks, ← hexec, ← hframes] at hlink
    exact hlink
  · intro hb
    obtain ⟨hlaw, hfits⟩ := hlock hb
    refine ⟨hlaw, fun e he => hfits e ?_⟩
    rw [hexec, hs]
    exact List.mem_append_right _ he

/-- A step whose event is about something else: the link only meets its fate. -/
theorem Core.step_foreign (c : Core X P) (i : Input X) {l : LinkId} (he : i.event.touches l = false)
    (lockstep : Bool)
    (hlock : lockstep = true → X.SealLaw ∧ ∀ e ∈ (c.exec i).sends, e.1.fits e.2) :
    LinkFate lockstep (c.links[l]?) (framesOn l (c.handle i).2.actions)
      ((c.step i).links[l]?) := by
  obtain ⟨fs, gs, y, htouch, hframes, hfate⟩ := c.step_link i l lockstep hlock
  obtain ⟨rfl, hy⟩ := htouch.foreign he
  rw [hframes, List.nil_append]
  obtain rfl | rfl := hy
  · exact hfate
  · obtain ⟨hgone, rfl⟩ := hfate.of_none
    rw [hgone]
    exact ⟨_, .refl _, .inr rfl⟩

theorem Core.step_caps (c : Core X P) (i : Input X) :
    (c.step i).capsOut = c.capsOut ∧ (c.step i).capsIn = c.capsIn := by
  obtain ⟨mid, hhead, hafter⟩ := c.exec_outline i
  obtain ⟨hout, hin⟩ := hhead.caps
  have htrust := hafter.trust
  exact ⟨(congrArg Trust.capsOut htrust).trans hout, (congrArg Trust.capsIn htrust).trans hin⟩

end Acrylius
