import Acrylius.Rt.Store

/-! No link is leaked: a link that leaves the table was reported down or is closed, and only links
the host has named are closed. -/
namespace Acrylius
open Proto Std

variable {X : Crates} {P : Type}

theorem LinkDrift.isSome {b : Bool} {x y : Option (LinkState X)} {fs : List Bytes}
    (h : LinkDrift b x fs y) : y.isSome = x.isSome := by
  cases h <;> rfl

def Closed (l : LinkId) (as : List Action) : Prop := ∃ r, Action.close l r ∈ as

theorem Closed.left {l : LinkId} {as : List Action} (h : Closed l as) (bs : List Action) :
    Closed l (as ++ bs) := by
  obtain ⟨r, hr⟩ := h
  exact ⟨r, List.mem_append_left _ hr⟩

theorem Closed.right {l : LinkId} {bs : List Action} (h : Closed l bs) (as : List Action) :
    Closed l (as ++ bs) := by
  obtain ⟨r, hr⟩ := h
  exact ⟨r, List.mem_append_right _ hr⟩

theorem closed_append {l : LinkId} {as bs : List Action} :
    Closed l (as ++ bs) ↔ Closed l as ∨ Closed l bs := by
  constructor
  · rintro ⟨r, hr⟩
    rcases List.mem_append.mp hr with h | h
    · exact .inl ⟨r, h⟩
    · exact .inr ⟨r, h⟩
  · rintro (h | h)
    · exact h.left bs
    · exact h.right as

def Action.closes : Action → Bool
  | .close .. => true
  | _ => false

def Event.link : Event → Option LinkId
  | .linkUp l _ _ | .linkRecv l _ | .linkDown l _ => some l
  | _ => none

/-- The core holds ids of named links only. -/
structure Known (named : LinkId → Prop) (c : Core X P) : Prop where
  links : ∀ l, l ∈ c.links → named l
  awaiting : ∀ w a, c.pairing = some w → w.awaiting = some a → named a.link

theorem Known.mono {named named' : LinkId → Prop} {c : Core X P} (h : Known named c)
    (hn : ∀ l, named l → named' l) : Known named' c :=
  ⟨fun l hl => hn l (h.links l hl), fun w a hw ha => hn a.link (h.awaiting w a hw ha)⟩

/-- A stretch of a step that loses no link: of those in the table, and one taken in hand, each
stays or is closed; and only named links are closed. -/
def Custody (named : LinkId → Prop) (held : Option LinkId) (s t : Exec X P) : Prop :=
  Known named s.core → Known named t.core ∧ ∃ as, t.actions = s.actions ++ as ∧
    (∀ l, held = some l ∨ l ∈ s.core.links → l ∈ t.core.links ∨ Closed l as) ∧
    ∀ l, Closed l as → named l

namespace Custody
variable {named : LinkId → Prop} {held : Option LinkId} {s t r : Exec X P} {l : LinkId}

theorem weaken (h : Custody named held s t) : Custody named none s t := by
  intro hs
  obtain ⟨ht, as, hact, hkeep, hclosed⟩ := h hs
  exact ⟨ht, as, hact, fun l hl => hkeep l (.inr (hl.resolve_left nofun)), hclosed⟩

theorem trans (h : Custody named held s t) (h' : Custody named none t r) :
    Custody named held s r := by
  intro hs
  obtain ⟨ht, as, hact, hkeep, hclosed⟩ := h hs
  obtain ⟨hr, bs, hact', hkeep', hclosed'⟩ := h' ht
  refine ⟨hr, as ++ bs, by rw [hact', hact, List.append_assoc], ?_, ?_⟩
  · intro l hl
    rcases hkeep l hl with hl | hl
    · rcases hkeep' l (.inr hl) with hl | hl
      · exact .inl hl
      · exact .inr (hl.right as)
    · exact .inr (hl.left bs)
  · intro l hl
    rcases closed_append.mp hl with hl | hl
    · exact hclosed l hl
    · exact hclosed' l hl

theorem after (h : Custody named none s t) (h' : Custody named held t r) :
    Custody named held s r := by
  intro hs
  obtain ⟨ht, as, hact, hkeep, hclosed⟩ := h hs
  obtain ⟨hr, bs, hact', hkeep', hclosed'⟩ := h' ht
  refine ⟨hr, as ++ bs, by rw [hact', hact, List.append_assoc], ?_, ?_⟩
  · intro l hl
    have next : l ∈ r.core.links ∨ Closed l (as ++ bs) ∨ held ≠ some l := by
      by_cases hheld : held = some l
      · rcases hkeep' l (.inl hheld) with hl | hl
        · exact .inl hl
        · exact .inr (.inl (hl.right as))
      · exact .inr (.inr hheld)
    rcases next with hl' | hl' | hheld
    · exact .inl hl'
    · exact .inr hl'
    · rcases hkeep l (.inr (hl.resolve_left hheld)) with hl | hl
      · rcases hkeep' l (.inr hl) with hl | hl
        · exact .inl hl
        · exact .inr (hl.right as)
      · exact .inr (hl.left bs)
  · intro l hl
    rcases closed_append.mp hl with hl | hl
    · exact hclosed l hl
    · exact hclosed' l hl

/-- Nothing but actions that close no link, and perhaps a pairing given up. -/
theorem of_links {as : List Action} (hlinks : ∀ l, l ∈ t.core.links ↔ l ∈ s.core.links)
    (hpairing : ∀ w a, t.core.pairing = some w → w.awaiting = some a →
      s.core.pairing = some w ∨ named a.link)
    (hactions : t.actions = s.actions ++ as) (hclose : ∀ l, ¬ Closed l as) :
    Custody named none s t := by
  intro hs
  refine ⟨⟨fun l hl => hs.links l ((hlinks l).mp hl), ?_⟩, as, hactions, ?_, ?_⟩
  · intro w a hw ha
    rcases hpairing w a hw ha with hw' | hnamed
    · exact hs.awaiting w a hw' ha
    · exact hnamed
  · intro l hl
    exact .inl ((hlinks l).mpr (hl.resolve_left nofun))
  · exact fun l hl => absurd hl (hclose l)

theorem of_same (hlinks : t.core.links = s.core.links) (hpairing : t.core.pairing = s.core.pairing)
    (hactions : t.actions = s.actions) : Custody named none s t :=
  of_links (fun l => by rw [hlinks]) (fun w a hw _ => .inl (hpairing ▸ hw))
    (hactions.trans (List.append_nil _).symm) fun l hl => by
      obtain ⟨r, hr⟩ := hl
      cases hr

theorem refl (s : Exec X P) : Custody named none s s := of_same rfl rfl rfl

theorem push (s : Exec X P) (a : Action) (h : a.closes = false) :
    Custody named none s (s.push a) := by
  refine of_links (fun _ => .rfl) (fun w a hw _ => .inl hw) rfl ?_
  rintro l ⟨r, hr⟩
  rw [← List.mem_singleton.mp hr] at h
  cases h

theorem ui (s : Exec X P) (e : UiEvent) : Custody named none s (s.ui e) := push s (.ui e) rfl

theorem of_stir (h : Stir s t) : Custody named none s t := by
  obtain ⟨as, hist, hact, -, hminor, -, hdrift⟩ := h.trace
  refine of_links (fun l => ?_) (fun w a hw _ => .inl ?_) hact ?_
  · rw [ExtTreeMap.mem_iff_isSome_getElem?, ExtTreeMap.mem_iff_isSome_getElem?]
    rw [(hdrift false (by simp) l).isSome]
  · have hpairing : t.core.pairing = s.core.pairing := congrArg Trust.pairing h.trust
    rwa [← hpairing]
  · rintro l ⟨r, hr⟩
    have := hminor _ hr
    cases this

theorem of_drift [Plugin P] (h : Drift s t) : Custody named none s t := of_stir h.toStir

theorem insert (hnamed : named l) (s : Exec X P) (st : LinkState X) :
    Custody named (some l) s (s.insertLink l st) := by
  intro hs
  refine ⟨⟨fun l' hl' => ?_, hs.awaiting⟩, [], (List.append_nil _).symm, ?_, ?_⟩
  · rcases Lib.mem_insert.mp hl' with rfl | hl'
    · exact hnamed
    · exact hs.links l' hl'
  · rintro l' (hl' | hl')
    · exact .inl (Lib.mem_insert.mpr (.inl (Option.some.inj hl').symm))
    · exact .inl (Lib.mem_insert.mpr (.inr hl'))
  · rintro l' ⟨r, hr⟩
    cases hr

theorem drop (hnamed : named l) (s : Exec X P) (reason : LinkDownReason) :
    Custody named (some l) s ((s.unlink l).push (.close l reason)) := by
  intro hs
  refine ⟨⟨fun l' hl' => hs.links l' (Lib.mem_erase.mp hl').2, hs.awaiting⟩, _, rfl, ?_, ?_⟩
  · intro l' hl'
    by_cases h : l' = l
    · subst h
      exact .inr ⟨reason, by simp⟩
    · refine .inl (Lib.mem_erase.mpr ⟨h, hl'.resolve_left ?_⟩)
      rintro ⟨⟩
      exact h rfl
  · rintro l' ⟨r, hr⟩
    cases List.mem_singleton.mp hr
    exact hnamed

theorem take (h : Custody named (some l) (s.unlink l) t) : Custody named none s t := by
  intro hs
  have hs' : Known named (s.unlink l).core :=
    ⟨fun l' hl' => hs.links l' (Lib.mem_erase.mp hl').2, hs.awaiting⟩
  obtain ⟨ht, as, hact, hkeep, hclosed⟩ := h hs'
  refine ⟨ht, as, hact, fun l' hl' => ?_, hclosed⟩
  by_cases heq : l' = l
  · subst heq
    exact hkeep l' (.inl rfl)
  · exact hkeep l' (.inr (Lib.mem_erase.mpr ⟨heq, hl'.resolve_left nofun⟩))

theorem setPairing (s : Exec X P) (w : Option PairingWindow)
    (h : ∀ v a, w = some v → v.awaiting = some a → named a.link) :
    Custody named none s { s with core.pairing := w } :=
  of_links (fun _ => .rfl) (fun v a hv ha => .inr (h v a hv ha)) (List.append_nil _).symm
    fun l hl => by
      obtain ⟨r, hr⟩ := hl
      cases hr

theorem foldl {α : Type} {f : Exec X P → α → Exec X P} {as : List α}
    (hf : ∀ a ∈ as, ∀ s, Custody named none s (f s a)) (s : Exec X P) :
    Custody named none s (as.foldl f s) := by
  induction as generalizing s with
  | nil => exact refl s
  | cons a as ih =>
    have hrest := ih fun b hb => hf b (List.mem_cons_of_mem _ hb)
    exact (hf a (by simp) s).trans (hrest _)

end Custody

namespace Exec
variable {named : LinkId → Prop} {l : LinkId} {nowMs : ℕ}

theorem failLink_custody (hnamed : named l) (s : Exec X P) (detail : String) :
    Custody named (some l) s (s.failLink l detail) :=
  (Custody.drop hnamed s (.protocol .notAllowed)).trans (.ui _ _)

theorem startSessionInitiator_custody (hnamed : named l) (s : Exec X P) (seed : X.Seed)
    (peer : DeviceId) (attrs : LinkAttrs) (deadline : ℕ) (fallback : Option PeerDial) :
    Custody named (some l) s (s.startSessionInitiator seed l peer attrs deadline fallback) := by
  unfold startSessionInitiator
  split
  · exact failLink_custody hnamed s _
  · split
    · split
      · exact failLink_custody hnamed s _
      · split
        · exact failLink_custody hnamed s _
        · exact (Custody.push s _ rfl).after (.insert hnamed _ _)
    · exact failLink_custody hnamed s _

theorem startPairInitiator_custody (hnamed : named l) (s : Exec X P) (seed : X.Seed)
    (attrs : LinkAttrs) (deadline : ℕ) (via : TransportId × String) :
    Custody named (some l) s (s.startPairInitiator seed l attrs deadline via) := by
  unfold startPairInitiator
  split
  · exact failLink_custody hnamed s _
  · split
    · exact failLink_custody hnamed s _
    · exact (Custody.push s _ rfl).after (.insert hnamed _ _)

theorem onLinkUp_custody (hnamed : named l) (s : Exec X P) (seed : X.Seed) (attrs : LinkAttrs)
    (dial : Option DialToken) : Custody named (some l) s (s.onLinkUp nowMs seed l attrs dial) := by
  unfold onLinkUp
  dsimp only
  split
  · refine Custody.after ?_ (startPairInitiator_custody hnamed _ _ _ _ _)
    exact .of_same rfl rfl rfl
  · split
    · refine Custody.after ?_ (startSessionInitiator_custody hnamed _ _ _ _ _ _)
      exact .of_same rfl rfl rfl
    · exact .insert hnamed s _

theorem acceptHello_custody (s : Exec X P) (peer : DeviceId) (payload : Bytes) :
    Custody named none s (s.acceptHello peer payload).1 := by
  unfold acceptHello
  split
  · exact .ui s _
  · split
    · exact .refl s
    · split
      · dsimp only
        refine Custody.trans ?_ (.push _ _ rfl)
        exact .of_same rfl rfl rfl
      · exact .ui s _

theorem afterHello_custody (hnamed : named l) {peer : DeviceId} {payload : Bytes}
    {next : Exec X P → Exec X P} (s : Exec X P) (detail : String)
    (h : ∀ r, Custody named (some l) r (next r)) :
    Custody named (some l) s (match s.acceptHello peer payload with
      | (s, false) => s.failLink l detail
      | (s, true) => next s) := by
  have hread : Custody named none s (s.acceptHello peer payload).1 :=
    acceptHello_custody s peer payload
  split
  · rename_i r heq
    rw [heq] at hread
    exact hread.after (failLink_custody hnamed _ _)
  · rename_i r heq
    rw [heq] at hread
    exact hread.after (h r)

theorem endPairing_custody (s : Exec X P) (denied : Bool) :
    Custody named none s { s with core := s.core.endPairing nowMs denied } :=
  (Custody.setPairing s none nofun).trans (.of_same rfl rfl rfl)

theorem pairingAttemptFailed_custody (hnamed : named l) (s : Exec X P) :
    Custody named (some l) s (s.pairingAttemptFailed nowMs l) := by
  have failed := failLink_custody hnamed s "pairing handshake failed"
  exact failed.trans ((endPairing_custody _ false).trans (.ui _ _))

theorem pairingCompleted_custody (hnamed : named l) (s : Exec X P) (h : HandshakingLink X)
    (payload : Bytes) : Custody named (some l) s (s.pairingCompleted nowMs l h payload) := by
  unfold pairingCompleted
  split
  · split
    · exact pairingAttemptFailed_custody hnamed s
    · have waiting := Custody.insert hnamed s (.pending { attrs := h.attrs, deadline := h.deadline })
      dsimp only
      split
      · exact waiting.trans (failLink_custody hnamed _ _).weaken
      · exact waiting.trans (failLink_custody hnamed _ _).weaken
      · refine waiting.trans (.trans (.setPairing _ _ ?_) (.ui _ _))
        intro v a hv ha
        cases hv
        cases ha
        exact hnamed
  · exact failLink_custody hnamed s _

theorem onPairOpener_custody (hnamed : named l) (s : Exec X P) (seed : X.Seed) (p : PendingLink)
    (body : Bytes) : Custody named (some l) s (s.onPairOpener nowMs seed l p body) := by
  unfold onPairOpener
  split
  · exact failLink_custody hnamed s _
  · split
    · exact failLink_custody hnamed s _
    · split
      · refine Custody.after ?_ (failLink_custody hnamed _ _)
        exact .of_same rfl rfl rfl
      · split
        · exact failLink_custody hnamed s _
        · have begun : Custody named none s { s with core := s.core.beginPairing nowMs } :=
            .setPairing s _ fun v a hv ha => by
              cases hv
              cases ha
          exact (begun.trans (.push _ _ rfl)).after (.insert hnamed _ _)

/-- The links and the pairing a person answers: whose link it is was known. -/
theorem confirmPairing_custody (s : Exec X P) (accept : Bool) :
    Custody named none s (s.confirmPairing nowMs accept) := by
  intro hs
  revert hs
  unfold confirmPairing
  split
  · rename_i deadline a hw
    intro hs
    have hnamed : named a.link := hs.awaiting _ a hw rfl
    revert hs
    split
    · have denied := (Custody.drop hnamed s (.protocol .notAllowed)).weaken
      exact denied.trans ((endPairing_custody _ true).trans (.ui _ _))
    · split
      · exact Custody.setPairing s _ fun v a hv ha => by
          cases hv
          cases ha
      · rename_i id hid
        have kept : Custody named none s (s.keepRoutes id a) := by
          unfold keepRoutes
          dsimp only
          split
          · exact .of_same rfl rfl rfl
          · split
            · exact .of_same rfl rfl rfl
            · exact .refl s
        have told := kept.trans ((Custody.push _ (Core.peerBlob X a.record) rfl).trans
          (.ui _ (.pairingComplete id a.record.name)))
        have closed := (Custody.drop hnamed ((((s.keepRoutes id a).push
          (Core.peerBlob X a.record)).ui (.pairingComplete id a.record.name))) .closed).weaken
        refine (told.trans closed).trans ((Custody.setPairing _ none nofun).trans ?_)
        exact .of_same rfl rfl rfl
  · exact Custody.refl s

theorem lapsePairing_custody (s : Exec X P) : Custody named none s (s.lapsePairing nowMs) := by
  intro hs
  revert hs
  unfold lapsePairing
  split
  · exact Custody.refl s
  · rename_i w hw
    split
    · exact Custody.refl s
    · intro hs
      have hnamed : ∀ a, w.awaiting = some a → named a.link := fun a ha => hs.awaiting w a hw ha
      revert hs
      have lapsed : Custody named none s { s with core.pairing := none } := .setPairing s none nofun
      dsimp only
      split
      · rename_i a ha
        have closed := (Custody.drop (hnamed a ha) { s with core.pairing := none } .closed).weaken
        exact (lapsed.trans closed).trans ((endPairing_custody _ false).trans (.ui _ _))
      · exact lapsed.trans ((endPairing_custody _ false).trans (.ui _ _))

theorem requestPairing_custody (s : Exec X P) (transport : TransportId) (addr : String) :
    Custody named none s (s.requestPairing nowMs transport addr) := by
  unfold requestPairing
  split
  · exact .ui s _
  · have begun : Custody named none s { s with core := s.core.beginPairing nowMs } :=
      .setPairing s _ fun v a hv ha => by
        cases hv
        cases ha
    refine begun.trans (Custody.trans ?_ (.push _ _ rfl))
    exact .of_same rfl rfl rfl

section Plugins
variable [Plugin P]

theorem finishSession_custody (hnamed : named l) (s : Exec X P) (hs : Handshake X)
    (attrs : LinkAttrs) (peer : DeviceId) :
    Custody named (some l) s (s.finishSession nowMs l hs attrs peer) := by
  unfold finishSession
  dsimp only
  split
  · exact failLink_custody hnamed s _
  · split
    · exact failLink_custody hnamed s _
    · refine .trans (.trans ?_ (.ui _ _)) (.of_stir (callAllPlugins_stir _ _ _))
      exact (Custody.insert hnamed s _).trans (.of_same rfl rfl rfl)

theorem onSessionOpener_custody (hnamed : named l) (s : Exec X P) (seed : X.Seed) (p : PendingLink)
    (body : Bytes) : Custody named (some l) s (s.onSessionOpener nowMs seed l p body) := by
  unfold onSessionOpener
  split
  · exact failLink_custody hnamed s _
  dsimp only
  split
  · exact failLink_custody hnamed s _
  split
  · exact failLink_custody hnamed s _
  split
  · exact failLink_custody hnamed s _
  split
  · exact failLink_custody hnamed s _
  refine afterHello_custody hnamed s _ fun r => ?_
  split
  · exact failLink_custody hnamed r _
  · exact (Custody.push r _ rfl).after (finishSession_custody hnamed _ _ _ _)

theorem onFirstFrame_custody (hnamed : named l) (s : Exec X P) (seed : X.Seed) (p : PendingLink)
    (kind : FrameKind) (body : Bytes) :
    Custody named (some l) s (s.onFirstFrame nowMs seed l p kind body) := by
  cases kind with
  | pairHandshake => exact onPairOpener_custody hnamed s seed p body
  | sessionHandshake => exact onSessionOpener_custody hnamed s seed p body
  | transport => exact failLink_custody hnamed s _

theorem afterHandshakeRead_custody (hnamed : named l) (s : Exec X P) (h : HandshakingLink X)
    (payload : Bytes) : Custody named (some l) s (s.afterHandshakeRead nowMs l h payload) := by
  unfold afterHandshakeRead
  split
  · exact .insert hnamed s _
  · split
    · exact pairingCompleted_custody hnamed s h payload
    · unfold onSessionReply
      split
      · exact failLink_custody hnamed s _
      · exact afterHello_custody hnamed s _ fun r => finishSession_custody hnamed r _ _ _

theorem onHandshakeFrame_custody (hnamed : named l) (s : Exec X P) (h : HandshakingLink X)
    (kind : FrameKind) (body : Bytes) :
    Custody named (some l) s (s.onHandshakeFrame nowMs l h kind body) := by
  unfold onHandshakeFrame
  by_cases hkind : kind = if h.pairingFlow then .pairHandshake else .sessionHandshake
  case neg =>
    rw [if_pos hkind]
    exact failLink_custody hnamed s _
  rw [if_neg (not_not.mpr hkind)]
  cases h.hs.read body with
  | error e =>
    dsimp only
    split
    · exact pairingAttemptFailed_custody hnamed s
    · exact failLink_custody hnamed s _
  | ok r =>
    dsimp only
    split
    · split
      · exact (Custody.push s _ rfl).after (afterHandshakeRead_custody hnamed _ _ _)
      · exact failLink_custody hnamed s _
    · exact afterHandshakeRead_custody hnamed s _ _

/-- Once the link is out of the table, its death loses no other. -/
theorem onLinkDown_custody (s : Exec X P) (l : LinkId) :
    Custody named none (s.unlink l) (s.onLinkDown nowMs l) := by
  unfold onLinkDown
  dsimp only
  split
  · exact .of_stir (lostUpLink_stir _ _ _)
  · rename_i h hl
    have retry (r : Exec X P) (why : String) :=
      fallback_cases (R := Custody named none) (h := h) (.refl r)
        fun pending _ => .of_drift (tryNextRoute_drift r nowMs pending why)
    cases h.pairingFlow with
    | true => exact (Custody.setPairing (s.unlink l) none (by simp)).trans (retry _ _)
    | false => exact retry _ _
  · exact .refl _

theorem closeAndLose_custody (hnamed : named l) (s : Exec X P) (reason : LinkDownReason) :
    Custody named (some l) s ((s.push (.close l reason)).onLinkDown nowMs l) :=
  (Custody.drop hnamed s reason).trans (onLinkDown_custody (s.push (.close l reason)) l)

theorem failUpLink_custody (hnamed : named l) (s : Exec X P) (u : UpLink X) (detail : String) :
    Custody named (some l) s (s.failUpLink nowMs l u detail) := by
  unfold failUpLink
  have restored := Custody.insert hnamed s (.up u)
  have closed := Custody.drop hnamed (s.insertLink l (.up u)) (.protocol .notAllowed)
  have told := closed.trans (.ui _ (.error (some u.peer) .notAllowed detail))
  exact restored.trans (told.trans (onLinkDown_custody (ui (push (s.insertLink l (.up u))
    (.close l (.protocol .notAllowed))) (.error (some u.peer) .notAllowed detail)) l)).weaken

theorem onTransportFrame_custody (hnamed : named l) (s : Exec X P) (u : UpLink X)
    (kind : FrameKind) (body : Bytes) :
    Custody named (some l) s (s.onTransportFrame nowMs l u kind body) := by
  unfold onTransportFrame
  split
  · exact failUpLink_custody hnamed s _ _
  split
  · exact failUpLink_custody hnamed s _ _
  rename_i plaintext session _
  have read := Custody.insert hnamed s (.up { u with session, lastRecvMs := nowMs })
  dsimp only
  split
  · exact read.trans (.ui _ _)
  split
  · exact read.trans (.of_drift (sendError_drift _ _ _ _))
  split
  · exact read.trans (.ui _ _)
  · exact read.trans (.of_drift (routeEnvelope_drift _ _ _ _))

theorem onLinkRecv_custody (hnamed : named l) (s : Exec X P) (seed : X.Seed) (msg : Bytes) :
    Custody named none s (s.onLinkRecv nowMs seed l msg) := by
  unfold onLinkRecv
  split
  · exact (failLink_custody hnamed s _).weaken
  · refine Custody.take (l := l) ?_
    dsimp only
    split
    · exact onFirstFrame_custody hnamed _ _ _ _ _
    · exact onHandshakeFrame_custody hnamed _ _ _ _
    · exact onTransportFrame_custody hnamed _ _ _ _
    · exact failLink_custody hnamed _ _

theorem closeUpLinks_custody (s : Exec X P) (peer : DeviceId) (reason : LinkDownReason) :
    Custody named none s (s.closeUpLinks nowMs peer reason) := by
  intro hs
  refine Custody.foldl (fun e he r => ?_) s hs
  have hlink := (Core.mem_upLinks.mp he).1
  have hmem : e.1 ∈ s.core.links := by
    rw [ExtTreeMap.mem_iff_isSome_getElem?, hlink]
    rfl
  exact (closeAndLose_custody (hs.links e.1 hmem) r reason).weaken

theorem handleRevoke_custody (s : Exec X P) (peer : DeviceId) :
    Custody named none s (s.handleRevoke nowMs peer) := by
  have erased : Custody named none s (push { s with core := { s.core with
      peers := s.core.peers.erase peer
      addrs := s.core.addrs.erase peer
      dialTrouble := s.core.dialTrouble.erase peer } }
      (.persist ("peer/" ++ peer.str) none .secret)) := by
    refine .trans ?_ (.push _ _ rfl)
    exact .of_same rfl rfl rfl
  have closed : ∀ r : Exec X P,
      Custody named none r (r.closeUpLinks nowMs peer (.protocol .notPaired)) :=
    fun r => closeUpLinks_custody r peer _
  exact (erased.trans (closed _)).trans (.of_drift (revoked_drift _ peer ((s.core.peers[peer]?).bind (·.fingerprint X))))

theorem onLocal_custody (s : Exec X P) (cmd : LocalCommand) :
    Custody named none s (s.onLocal nowMs cmd) := by
  cases cmd <;> dsimp only [onLocal]
  case requestPairing => exact requestPairing_custody s _ _
  case confirmPairing => exact confirmPairing_custody s _
  case setPeerAddress =>
    split
    · exact .of_same rfl rfl rfl
    · exact .ui s _
  case connect => exact .of_drift (connectPeer_drift _ _ _ _)
  case reconsiderRoutes =>
    exact .of_drift (Drift.foldl (fun s peer => connectPeer_drift s nowMs peer false) _ _)
  case disconnect => exact closeUpLinks_custody s _ _
  case revoke => exact handleRevoke_custody s _
  case plugin => exact .of_drift (onLocalPlugin_drift _ _ _ _ _ _)

theorem closeStale_custody (hnamed : named l) (s : Exec X P) :
    Custody named none s (s.closeStale nowMs l) := by
  have closed := (Custody.drop hnamed s .closed).weaken
  unfold closeStale
  dsimp only
  split
  · split
    · exact closed.trans (.of_drift (tryNextRoute_drift _ _ _ _))
    · exact closed
  · exact closed

theorem closeStaleLinks_custody (s : Exec X P) :
    Custody named none s (s.closeStaleLinks nowMs) := by
  intro hs
  refine Custody.foldl (fun l hl r => closeStale_custody (hs.links l ?_) r) s hs
  obtain ⟨e, he, rfl⟩ := List.mem_map.mp hl
  have hlink := ExtTreeMap.mem_toList_iff_getElem?_eq_some.mp (List.mem_filter.mp he).1
  rw [ExtTreeMap.mem_iff_isSome_getElem?, hlink]
  rfl

theorem onTick_custody (s : Exec X P) : Custody named none s (s.onTick nowMs) := by
  have first : Custody named none s ((s.lapsePairing nowMs).giveUpWaiting nowMs) :=
    (lapsePairing_custody s).trans (.of_drift (giveUpWaiting_drift _ nowMs))
  have closed : ∀ r : Exec X P, Custody named none r (r.closeStaleLinks nowMs) :=
    closeStaleLinks_custody
  dsimp only [onTick]
  exact (first.trans (closed _)).trans (.of_drift (((expireDials_drift _ nowMs).trans
    (heartbeat_drift _ nowMs)).trans (wakePlugins_drift _ nowMs)))

theorem onDialFailed_custody (s : Exec X P) (d : DialToken) (reason : String) :
    Custody named none s (s.onDialFailed nowMs d reason) := by
  unfold onDialFailed
  split
  · refine .trans ?_ (.ui _ _)
    exact (Custody.setPairing s none nofun).trans (.of_same rfl rfl rfl)
  · split
    · refine .trans ?_ (.of_drift (tryNextRoute_drift _ _ _ _))
      exact .of_same rfl rfl rfl
    · exact .refl s

theorem onEvent_custody (nowMs : ℕ) (s : Exec X P) (seed : X.Seed) (e : Event)
    (hnamed : ∀ l, e.link = some l → named l) :
    (∃ l reason, e = .linkDown l reason ∧ Custody named none (s.unlink l) (s.onEvent nowMs seed e)) ∨
    (∃ l attrs dial, e = .linkUp l attrs dial ∧ Custody named (some l) s (s.onEvent nowMs seed e)) ∨
    (∀ l attrs dial, e ≠ .linkUp l attrs dial) ∧
      Custody named none s (s.onEvent nowMs seed e) := by
  cases e with
  | linkUp l attrs dial =>
    exact .inr (.inl ⟨l, attrs, dial, rfl, onLinkUp_custody (hnamed l rfl) s seed attrs dial⟩)
  | linkDown l reason => exact .inl ⟨l, reason, rfl, onLinkDown_custody s l⟩
  | linkRecv l msg => exact .inr (.inr ⟨nofun, onLinkRecv_custody (hnamed l rfl) s seed msg⟩)
  | dialFailed d reason => exact .inr (.inr ⟨nofun, onDialFailed_custody s d reason⟩)
  | discovered => exact .inr (.inr ⟨nofun, .of_drift (onDiscovered_drift _ _ _ _)⟩)
  | undiscovered => exact .inr (.inr ⟨nofun, .of_drift (onUndiscovered_drift _ _ _)⟩)
  | tick =>
    have htick : Custody named none s (s.onEvent nowMs seed .tick) := by
      dsimp only [onEvent]
      exact onTick_custody s
    exact .inr (.inr ⟨nofun, htick⟩)
  | bulkListening t endpoint =>
    exact .inr (.inr ⟨nofun, .of_drift (dispatchToTransferOwner_drift _ _ _ fun obs ho p cx =>
      ho.listening p cx t endpoint)⟩)
  | bulkStarted => exact .inr (.inr ⟨nofun, .of_same rfl rfl rfl⟩)
  | bulkFinished t ok detail =>
    refine .inr (.inr ⟨nofun, .trans (.of_drift (dispatchToTransferOwner_drift _ nowMs t
      fun obs ho p cx => ho.finished p cx t ok detail)) ?_⟩)
    exact .of_same rfl rfl rfl
  | localCommand cmd => exact .inr (.inr ⟨nofun, onLocal_custody s cmd⟩)
  | effectDone => exact .inr (.inr ⟨nofun, .of_drift (onEffectDone_drift _ _ _ _)⟩)

end Plugins
end Exec

section
variable [Plugin P]

def NamedIn (is : List (Core.Input X)) (l : LinkId) : Prop := ∃ i ∈ is, i.event.link = some l

def ReportedUp (is : List (Core.Input X)) (l : LinkId) : Prop :=
  ∃ i ∈ is, ∃ attrs dial, i.event = .linkUp l attrs dial

def ReportedDown (is : List (Core.Input X)) (l : LinkId) : Prop :=
  ∃ i ∈ is, ∃ reason, i.event = .linkDown l reason

/-- What a run that has emitted `as` has kept track of. -/
structure Accounted (is : List (Core.Input X)) (as : List Action) (c : Core X P) : Prop where
  known : Known (NamedIn is) c
  up : ∀ l, ReportedUp is l → l ∈ c.links ∨ ReportedDown is l ∨ Closed l as
  closed : ∀ l, Closed l as → NamedIn is l

theorem Accounted.step {is : List (Core.Input X)} {as : List Action} {c : Core X P}
    (h : Accounted is as c) (i : Core.Input X) :
    Accounted (is ++ [i]) (as ++ (c.handle i).2.actions) (c.step i) := by
  have older : ∀ l, NamedIn is l → NamedIn (is ++ [i]) l := by
    rintro l ⟨j, hj, hl⟩
    exact ⟨j, List.mem_append_left _ hj, hl⟩
  have olderDown : ∀ l, ReportedDown is l → ReportedDown (is ++ [i]) l := by
    rintro l ⟨j, hj, hl⟩
    exact ⟨j, List.mem_append_left _ hj, hl⟩
  have newer : ∀ l, i.event.link = some l → NamedIn (is ++ [i]) l := fun l hl => ⟨i, by simp, hl⟩
  have hstart : Known (NamedIn (is ++ [i])) (c.start i).core := by
    have hknown := h.known.mono older
    exact ⟨hknown.links, hknown.awaiting⟩
  have upCases : ∀ l, ReportedUp (is ++ [i]) l →
      ReportedUp is l ∨ ∃ attrs dial, i.event = .linkUp l attrs dial := by
    rintro l ⟨j, hj, hl⟩
    rcases List.mem_append.mp hj with hj | hj
    · exact .inl ⟨j, hj, hl⟩
    · obtain rfl := List.mem_singleton.mp hj
      exact .inr hl
  -- What a step of custody gives, whichever link was out of the table when it began.
  have settle : ∀ (held : Option LinkId) (s : Exec X P), Known (NamedIn (is ++ [i])) s.core →
      s.actions = [] → Custody (NamedIn (is ++ [i])) held s (c.exec i) →
      (∀ l, l ∈ c.links → l ∈ s.core.links ∨ ReportedDown (is ++ [i]) l) →
      (∀ l attrs dial, i.event = .linkUp l attrs dial → held = some l) →
      Accounted (is ++ [i]) (as ++ (c.handle i).2.actions) (c.step i) := by
    intro held s hs hnil hcustody hkept hheld
    obtain ⟨hknown, bs, hact, hkeep, hclosed⟩ := hcustody hs
    rw [hnil, List.nil_append] at hact
    have hact' : (c.handle i).2.actions = bs := hact
    rw [hact']
    have stays : ∀ l, held = some l ∨ l ∈ s.core.links →
        l ∈ (c.step i).links ∨ ReportedDown (is ++ [i]) l ∨ Closed l (as ++ bs) := by
      intro l hl
      rcases hkeep l hl with hl | hl
      · exact .inl hl
      · exact .inr (.inr (hl.right as))
    refine ⟨hknown, fun l hup => ?_, fun l hl => ?_⟩
    · rcases upCases l hup with hup | ⟨attrs, dial, hevent⟩
      · rcases h.up l hup with hl | hdown | hcl
        · rcases hkept l hl with hl | hdown
          · exact stays l (.inr hl)
          · exact .inr (.inl hdown)
        · exact .inr (.inl (olderDown l hdown))
        · exact .inr (.inr (hcl.left bs))
      · exact stays l (.inl (hheld l attrs dial hevent))
    · rcases closed_append.mp hl with hl | hl
      · exact older l (h.closed l hl)
      · exact hclosed l hl
  have cases := Exec.onEvent_custody i.now.monotonicMs (c.start i) i.seed i.event newer
  rcases cases with ⟨l, reason, hevent, hcustody⟩ | ⟨l, attrs, dial, hevent, hcustody⟩ |
    ⟨hother, hcustody⟩
  · refine settle none ((c.start i).unlink l)
      ⟨fun l' hl' => hstart.links l' (Lib.mem_erase.mp hl').2, hstart.awaiting⟩ rfl hcustody ?_ ?_
    · intro l' hl'
      by_cases heq : l' = l
      · subst heq
        exact .inr ⟨i, by simp, reason, hevent⟩
      · exact .inl (Lib.mem_erase.mpr ⟨heq, hl'⟩)
    · intro l' attrs dial hup
      rw [hevent] at hup
      cases hup
  · refine settle (some l) (c.start i) hstart rfl hcustody (fun l' hl' => .inl hl') ?_
    intro l' attrs' dial' hup
    rw [hevent] at hup
    cases hup
    rfl
  · exact settle none (c.start i) hstart rfl hcustody (fun l hl => .inl hl) fun l attrs dial hup =>
      absurd hup (hother l attrs dial)

theorem CoreBuilder.accounted (b : CoreBuilder X P) : Accounted [] [] b.build where
  known := ⟨fun l hl => by simp [build] at hl, fun w a hw => by cases hw⟩
  up l h := by
    obtain ⟨i, hi, -⟩ := h
    cases hi
  closed l h := by
    obtain ⟨r, hr⟩ := h
    cases hr

theorem Accounted.run {is : List (Core.Input X)} {as : List Action} {c : Core X P}
    (h : Accounted is as c) (js : List (Core.Input X)) :
    Accounted (is ++ js) (as ++ Host.emitted c js) (c.run js) := by
  induction js generalizing is as c with
  | nil => simpa [Host.emitted] using h
  | cons j js ih =>
    have hstep := ih (h.step j)
    simp only [List.append_assoc, List.singleton_append] at hstep
    exact hstep

/-- No link is leaked, whether or not the host uses an id twice: after every run, each link it has
reported up is in the table, was reported down or was closed; and every link closed is one that
some event of the run named. -/
theorem no_link_is_leaked (b : CoreBuilder X P) (is : List (Core.Input X)) :
    (∀ l, ReportedUp is l → l ∈ (b.build.run is).links ∨ ReportedDown is l ∨
      Closed l (Host.emitted b.build is)) ∧
    ∀ l, Closed l (Host.emitted b.build is) → NamedIn is l := by
  have h := b.accounted.run is
  rw [List.nil_append, List.nil_append] at h
  exact ⟨h.up, h.closed⟩

end

end Acrylius
