import Acrylius.Core.Sessions

/-! Who is there: what the plugins and the UI have been told about a peer against the links it
really has. -/
namespace Acrylius
open Proto Std

variable {X : Crates} {P : Type}

inductive Notice where
  | connected (peer : DeviceId)
  | disconnected (peer : DeviceId)
deriving DecidableEq

namespace Notice

/-- Whether `p` is there, for somebody who thought `b` and then hears this. -/
def hear (p : DeviceId) (b : Bool) : Notice → Bool
  | connected q => b || q = p
  | disconnected q => b && q ≠ p

def present (p : DeviceId) (log : List Notice) : Bool := log.foldl (hear p) false

theorem present_append (p : DeviceId) (log ns : List Notice) :
    present p (log ++ ns) = ns.foldl (hear p) (present p log) := by
  rw [present, List.foldl_append, present]

/-- Nobody stops thinking a peer is there without being told so. -/
theorem mem_of_foldl_hear {p : DeviceId} {ns : List Notice} {b : Bool} (hb : b = true)
    (h : ns.foldl (hear p) b = false) : disconnected p ∈ ns := by
  induction ns generalizing b with
  | nil => simp_all
  | cons n ns ih =>
    rw [List.foldl_cons] at h
    cases hn : hear p b n with
    | true => exact List.mem_cons_of_mem _ (ih hn h)
    | false =>
      cases n with
      | connected q => simp [hear, hb] at hn
      | disconnected q =>
        have hq : q = p := by simpa [hear, hb] using hn
        rw [hq]
        exact List.mem_cons_self

end Notice

/-- A plugin that also writes down what it is told about presence. -/
structure Logged (P : Type) where
  inner : P
  log : List Notice

namespace Logged
variable [Plugin P]

instance : Plugin (Logged P) where
  manifest p := Plugin.manifest p.inner
  onMessage p cx peer env :=
    let (p', r) := Plugin.onMessage p.inner cx peer env
    ({ p with inner := p' }, r)
  onPeerConnected p cx peer :=
    let (p', cx') := Plugin.onPeerConnected p.inner cx peer
    (⟨p', p.log ++ [.connected peer]⟩, cx')
  onPeerDisconnected p cx peer :=
    let (p', cx') := Plugin.onPeerDisconnected p.inner cx peer
    (⟨p', p.log ++ [.disconnected peer]⟩, cx')
  onLocal p cx peer ty body :=
    let (p', r) := Plugin.onLocal p.inner cx peer ty body
    ({ p with inner := p' }, r)
  onEffectResult p cx token result :=
    let (p', cx') := Plugin.onEffectResult p.inner cx token result
    ({ p with inner := p' }, cx')
  onBulkListening p cx transfer endpoint :=
    let (p', cx') := Plugin.onBulkListening p.inner cx transfer endpoint
    ({ p with inner := p' }, cx')
  onBulkFinished p cx transfer ok detail :=
    let (p', cx') := Plugin.onBulkFinished p.inner cx transfer ok detail
    ({ p with inner := p' }, cx')
  onTick p cx :=
    let (p', cx') := Plugin.onTick p.inner cx
    ({ p with inner := p' }, cx')

/-- Only the two presence hooks write to the log. -/
theorem quiet : Plugin.Quiet (P := Logged P) log :=
  ⟨fun _ _ _ _ => rfl, fun _ _ _ _ _ => rfl, fun _ _ _ _ => rfl, fun _ _ _ _ => rfl,
    fun _ _ _ _ _ => rfl, fun _ _ => rfl⟩

end Logged

def CoreBuilder.logged (b : CoreBuilder X P) : CoreBuilder X (Logged P) :=
  { b with plugins := b.plugins.map (⟨·, []⟩) }

def Core.Reaches (c : Core X P) (p : DeviceId) : Prop :=
  ∃ (l : LinkId) (u : UpLink X), c.links[l]? = some (.up u) ∧ u.peer = p

theorem Core.upLinks_isEmpty (c : Core X P) (p : DeviceId) :
    (c.upLinks p).isEmpty = false ↔ c.Reaches p := by
  rw [List.isEmpty_eq_false_iff_exists_mem]
  constructor
  · rintro ⟨⟨l, u⟩, hm⟩
    exact ⟨l, u, Core.mem_upLinks.mp hm⟩
  · rintro ⟨l, u, hu⟩
    exact ⟨(l, u), Core.mem_upLinks.mpr hu⟩

instance (c : Core X P) (p : DeviceId) : Decidable (c.Reaches p) :=
  decidable_of_iff _ (c.upLinks_isEmpty p)

/-- Every plugin thinks that exactly the peers with an established link are there. -/
def Core.Agrees (c : Core X (Logged P)) : Prop :=
  ∀ g ∈ c.plugins, ∀ p, Notice.present p g.log ↔ c.Reaches p

/-- The link a step takes out of the table without asking whether it was established. -/
def Core.drops (c : Core X P) (i : Core.Input X) : Option LinkId :=
  match i.event with
  | .linkUp l _ _ => some l
  | .linkRecv l msg => if (Frame.split msg).isNone then some l else none
  | .localCommand (.confirmPairing _) => do
    let w ← c.pairing
    let a ← w.awaiting
    return a.link
  | .tick => do
    let w ← c.pairing
    let a ← w.awaiting
    if w.deadline ≤ i.now.monotonicMs then some a.link else none
  | _ => none

/-- It takes the last established link of a peer. -/
def Core.losesSilently (c : Core X P) (i : Core.Input X) : Bool :=
  match c.drops i with
  | none => false
  | some l =>
    match c.links[l]? with
    | some (.up u) => (c.upLinks u.peer).all fun e => e.1 = l
    | _ => false

namespace Core
variable {Q : Type} {c : Core X P} {d : Core X Q} {l : LinkId}

/-- Should the link be established, its peer has another one. -/
def Spared (c : Core X P) (l : LinkId) : Prop :=
  ∀ u : UpLink X, c.links[l]? = some (.up u) →
    ∃ (l' : LinkId) (u' : UpLink X), l' ≠ l ∧ c.links[l']? = some (.up u') ∧ u'.peer = u.peer

theorem spared_of_drops {i : Input X} (h : c.losesSilently i = false) (hd : c.drops i = some l) :
    c.Spared l := by
  intro u hu
  simp only [losesSilently, hd, hu, List.all_eq_false, Prod.exists, decide_eq_true_eq] at h
  obtain ⟨l', u', hm, hne⟩ := h
  obtain ⟨hl', hp⟩ := mem_upLinks.mp hm
  exact ⟨l', u', hne, hl', hp⟩

theorem spared_of_not_up (h : ∀ u : UpLink X, c.links[l]? ≠ some (.up u)) : c.Spared l :=
  fun u hu => absurd hu (h u)

theorem spared_of_pending {q : PendingLink} (h : c.links[l]? = some (.pending q)) : c.Spared l :=
  spared_of_not_up fun _ hu => by cases hu.symm.trans h

theorem spared_of_handshaking {q : HandshakingLink X} (h : c.links[l]? = some (.handshaking q)) :
    c.Spared l :=
  spared_of_not_up fun _ hu => by cases hu.symm.trans h

theorem reaches_of_links (h : d.links = c.links) (p : DeviceId) : d.Reaches p ↔ c.Reaches p := by
  unfold Reaches
  rw [h]

/-- Giving up a link that is spared takes nobody away. -/
theorem reaches_of_spared (hs : c.Spared l) (hl : ∀ u : UpLink X, d.links[l]? ≠ some (.up u))
    (hother : ∀ l', l' ≠ l → d.links[l']? = c.links[l']?) (p : DeviceId) :
    d.Reaches p ↔ c.Reaches p := by
  constructor
  · rintro ⟨l', u, hu, hp⟩
    have hne : l' ≠ l := by
      rintro rfl
      exact hl u hu
    exact ⟨l', u, (hother l' hne).symm.trans hu, hp⟩
  · rintro ⟨l', u, hu, hp⟩
    by_cases hne : l' = l
    · obtain ⟨l₁, u₁, hne₁, hu₁, hp₁⟩ := hs u (hne ▸ hu)
      exact ⟨l₁, u₁, (hother l₁ hne₁).trans hu₁, hp₁.trans hp⟩
    · exact ⟨l', u, (hother l' hne).trans hu, hp⟩

theorem reaches_erase (hs : c.Spared l) (hd : d.links = c.links.erase l) (p : DeviceId) :
    d.Reaches p ↔ c.Reaches p := by
  refine reaches_of_spared hs ?_ ?_ p
  · intro u hu
    simp [hd] at hu
  · intro l' hne
    rw [hd, Lib.getElem?_erase_of_ne hne]

theorem reaches_insert {st : LinkState X} (hs : c.Spared l) (hst : ∀ u, st ≠ .up u)
    (hd : d.links = c.links.insert l st) (p : DeviceId) : d.Reaches p ↔ c.Reaches p := by
  refine reaches_of_spared hs ?_ ?_ p
  · intro u hu
    rw [hd, ExtTreeMap.getElem?_insert_self] at hu
    exact hst u (Option.some.inj hu)
  · intro l' hne
    rw [hd, Lib.getElem?_insert_of_ne hne]

/-- A link that was not established comes up, or one that was stays so with the same peer. -/
theorem reaches_insert_up {v : UpLink X}
    (hold : ∀ u : UpLink X, c.links[l]? = some (.up u) → u.peer = v.peer)
    (hd : d.links = c.links.insert l (.up v)) (p : DeviceId) :
    d.Reaches p ↔ v.peer = p ∨ c.Reaches p := by
  constructor
  · rintro ⟨l', u, hu, hp⟩
    rw [hd] at hu
    rcases Lib.getElem?_of_insert hu with ⟨-, h⟩ | ⟨-, h⟩
    · cases h
      exact .inl hp
    · exact .inr ⟨l', u, h, hp⟩
  · have hnew : d.links[l]? = some (.up v) := by
      rw [hd, ExtTreeMap.getElem?_insert_self]
    rintro (hp | ⟨l', u, hu, hp⟩)
    · exact ⟨l, v, hnew, hp⟩
    · by_cases hne : l' = l
      · exact ⟨l, v, hnew, (hold u (hne ▸ hu)).symm.trans hp⟩
      · refine ⟨l', u, ?_, hp⟩
        rw [hd, Lib.getElem?_insert_of_ne hne]
        exact hu

end Core

variable [Plugin P]

/-- A stretch of a step after which the plugins have been told what happened to each peer, and
the UI of each peer that is gone. -/
structure Announces (s t : Exec X (Logged P)) (as : List Action) (ns : List Notice) : Prop where
  actions : t.actions = s.actions ++ as
  told : t.core.plugins.map Logged.log = (s.core.plugins.map Logged.log).map (· ++ ns)
  right : ∀ p b, (b = true ↔ s.core.Reaches p) → (ns.foldl (Notice.hear p) b ↔ t.core.Reaches p)
  gone : ∀ p, s.core.Reaches p → ¬ t.core.Reaches p → .ui (.peerUnreachable p) ∈ as

namespace Announces
variable {s t r : Exec X (Logged P)} {as bs : List Action} {ns ms : List Notice}

omit [Plugin P] in
theorem trans (h : Announces s t as ns) (h' : Announces t r bs ms) :
    Announces s r (as ++ bs) (ns ++ ms) where
  actions := by rw [h'.actions, h.actions, List.append_assoc]
  told := by
    rw [h'.told, h.told, List.map_map]
    refine List.map_congr_left fun g _ => ?_
    simp
  right p b hb := by
    rw [List.foldl_append]
    exact h'.right p _ (h.right p b hb)
  gone p hs hr := by
    by_cases ht : t.core.Reaches p
    · exact List.mem_append_right _ (h'.gone p ht hr)
    · exact List.mem_append_left _ (h.gone p hs ht)

omit [Plugin P] in
theorem of_same (hact : t.actions = s.actions ++ as)
    (hp : t.core.plugins.map Logged.log = s.core.plugins.map Logged.log)
    (h : ∀ p, t.core.Reaches p ↔ s.core.Reaches p) : Announces s t as [] where
  actions := hact
  told := by simp [hp]
  right p b hb := hb.trans (h p).symm
  gone p hs ht := absurd ((h p).mpr hs) ht

omit [Plugin P] in
theorem of_view {v : View X (Logged P)} (hv : t.view = v) (hp : v.plugins = s.core.plugins)
    (ha : v.actions = s.actions ++ as) (h : ∀ p, t.core.Reaches p ↔ s.core.Reaches p) :
    ∃ as ns, Announces s t as ns := by
  refine ⟨as, [], .of_same ?_ ?_ h⟩
  · rw [Exec.actions_of hv, ha]
  · rw [Exec.plugins_of hv, hp]

end Announces

omit [Plugin P] in
theorem Stir.reaches {s t : Exec X P} (h : Stir s t) (p : DeviceId) :
    t.core.Reaches p ↔ s.core.Reaches p := by
  constructor
  · rintro ⟨l, v, hv, hp⟩
    obtain ⟨u, fs, hu, hs⟩ := h.up_of hv
    exact ⟨l, u, hu, hs.peer_eq ▸ hp⟩
  · rintro ⟨l, u, hu, hp⟩
    obtain ⟨as, hist, -, -, -, -, hd⟩ := h.trace
    have hl := hd false (by simp) l
    rw [hu] at hl
    generalize hx : t.core.links[l]? = x at hl
    cases hl with
    | up hs => exact ⟨l, _, hx, hs.peer_eq.trans hp⟩

theorem Drift.announces {s t : Exec X (Logged P)} (h : Drift s t) : ∃ as, Announces s t as [] := by
  obtain ⟨as, -, hact, -⟩ := h.trace
  exact ⟨as, .of_same hact (h.plugins _ Logged.quiet) h.reaches⟩

theorem Exec.callAllPlugins_logs (s : Exec X (Logged P)) (nowMs : ℕ)
    {hook : Logged P → Cx → Logged P × Cx} {n : Notice}
    (h : ∀ p cx, (hook p cx).1.log = p.log ++ [n]) :
    (s.callAllPlugins nowMs hook).core.plugins.map Logged.log =
      (s.core.plugins.map Logged.log).map (· ++ [n]) :=
  callAllPlugins_map s nowMs (f := (· ++ [n])) Logged.quiet h

omit [Plugin P] in
theorem Exec.unlink_links (s : Exec X P) (l : LinkId) :
    (s.unlink l).core.links = s.core.links.erase l := rfl

/-- The last established link of a peer is gone, the UI was told and the plugins are. -/
theorem Exec.tellGone_announces {nowMs : ℕ} {s mid : Exec X (Logged P)} {l : LinkId} {u : UpLink X}
    (hu : s.core.links[l]? = some (.up u))
    (hnone : ∀ (l' : LinkId) (u' : UpLink X),
      mid.core.links[l']? = some (.up u') → u'.peer ≠ u.peer)
    (hlinks : mid.core.links = s.core.links.erase l)
    (hact : mid.actions = s.actions ++ [.ui (.peerUnreachable u.peer)])
    (hplugins : mid.core.plugins = s.core.plugins) :
    ∃ as ns, Announces s
      (mid.callAllPlugins nowMs fun p cx => Plugin.onPeerDisconnected p cx u.peer) as ns := by
  have hreach : ∀ p, mid.core.Reaches p ↔ p ≠ u.peer ∧ s.core.Reaches p := by
    intro p
    constructor
    · rintro ⟨l', v, hv, rfl⟩
      refine ⟨hnone l' v hv, l', v, ?_, rfl⟩
      rw [hlinks] at hv
      exact (Lib.getElem?_of_erase hv).2
    · rintro ⟨hne, l', v, hv, rfl⟩
      have hl : l' ≠ l := by
        rintro rfl
        obtain rfl : v = u := by simpa using hv.symm.trans hu
        exact hne rfl
      refine ⟨l', v, ?_, rfl⟩
      rw [hlinks, Lib.getElem?_erase_of_ne hl]
      exact hv
  have hstir := callAllPlugins_stir mid nowMs fun p cx => Plugin.onPeerDisconnected p cx u.peer
  obtain ⟨as, -, hact', -⟩ := hstir.trace
  refine ⟨.ui (.peerUnreachable u.peer) :: as, [.disconnected u.peer], ?_, ?_, ?_, ?_⟩
  · rw [hact', hact, List.append_assoc]
    rfl
  · rw [callAllPlugins_logs mid nowMs fun _ _ => rfl, hplugins]
  · intro p b hb
    rw [hstir.reaches, hreach, ← hb]
    simp only [Notice.hear, List.foldl_cons, List.foldl_nil, Bool.and_eq_true, decide_eq_true_eq]
    rw [and_comm, ne_comm]
  · intro p hs ht
    rw [hstir.reaches, hreach] at ht
    by_cases hp : p = u.peer
    · rw [hp]
      exact List.mem_cons_self
    · exact absurd ⟨hp, hs⟩ ht

/-- The loss of an established link is announced, unless the peer has another one. -/
theorem Aftermath.lose_announces {nowMs : ℕ} {s : Exec X (Logged P)} {l : LinkId} {u : UpLink X}
    (hu : s.core.links[l]? = some (.up u)) :
    ∃ as ns, Announces s ((s.unlink l).lostUpLink nowMs u) as ns := by
  have hlinks := s.unlink_links l
  unfold Exec.lostUpLink
  split
  · rename_i hbest
    obtain ⟨⟨l', u'⟩, hb⟩ := Option.isSome_iff_exists.mp hbest
    obtain ⟨hu', hp'⟩ := Core.bestLink_up hb
    have hspared : s.core.Spared l := by
      intro v hv
      obtain rfl : v = u := by simpa using hv.symm.trans hu
      rw [hlinks] at hu'
      obtain ⟨hne, hu'⟩ := Lib.getElem?_of_erase hu'
      exact ⟨l', u', hne, hu', hp'⟩
    refine ⟨_, [], .of_same rfl rfl fun p => ?_⟩
    exact Core.reaches_erase hspared hlinks p
  · rename_i hbest
    have hnone : ∀ (l' : LinkId) (u' : UpLink X),
        (s.unlink l).core.links[l']? = some (.up u') → u'.peer ≠ u.peer :=
      Core.bestLink_eq_none.mp (Option.not_isSome_iff_eq_none.mp hbest)
    exact Exec.tellGone_announces hu hnone rfl rfl rfl

theorem Aftermath.announces {nowMs : ℕ} {s t : Exec X (Logged P)} (h : Aftermath nowMs s t) :
    ∃ as ns, Announces s t as ns := by
  induction h with
  | drift h =>
    obtain ⟨as, ha⟩ := h.announces
    exact ⟨as, [], ha⟩
  | close s l r => exact ⟨[.close l r], [], .of_same rfl rfl fun _ => Iff.rfl⟩
  | @forget s l h =>
    refine ⟨[], [], .of_same (List.append_nil _).symm rfl fun p => ?_⟩
    exact Core.reaches_erase (Core.spared_of_not_up h) (s.unlink_links l) p
  | lose h => exact lose_announces h
  | trans _ _ ih ih' =>
    obtain ⟨as, ns, ha⟩ := ih
    obtain ⟨bs, ms, hb⟩ := ih'
    exact ⟨as ++ bs, ns ++ ms, ha.trans hb⟩

omit [Plugin P] in
/-- A message of a handshake is read on a link that is not established. -/
theorem SessionRead.not_up {i : Core.Input X} {s : Exec X P} {l : LinkId} {attrs : LinkAttrs}
    {peer : DeviceId} {payload : Bytes} {hs : Handshake X} {owes : Bool}
    (h : SessionRead i s l attrs peer payload hs owes) (u : UpLink X) :
    s.core.links[l]? ≠ some (.up u) := by
  intro hu
  cases h with
  | opener _ _ link => cases hu.symm.trans link
  | reply _ _ link => cases hu.symm.trans link

theorem Exec.tellConnected_announces {nowMs : ℕ} {s mid : Exec X (Logged P)} {l : LinkId}
    {v : UpLink X} {as : List Action} (hnew : ∀ u : UpLink X, s.core.links[l]? ≠ some (.up u))
    (hlinks : mid.core.links = s.core.links.insert l (.up v))
    (hact : mid.actions = s.actions ++ as) (hplugins : mid.core.plugins = s.core.plugins) :
    ∃ as ns, Announces s
      (mid.callAllPlugins nowMs fun p cx => Plugin.onPeerConnected p cx v.peer) as ns := by
  have hstir := callAllPlugins_stir mid nowMs fun p cx => Plugin.onPeerConnected p cx v.peer
  have hreach := fun p => Core.reaches_insert_up (p := p) (fun u hu => absurd hu (hnew u)) hlinks
  obtain ⟨bs, -, hact', -⟩ := hstir.trace
  refine ⟨as ++ bs, [.connected v.peer], ?_, ?_, ?_, ?_⟩
  · rw [hact', hact, List.append_assoc]
  · rw [callAllPlugins_logs mid nowMs fun _ _ => rfl, hplugins]
  · intro p b hb
    rw [hstir.reaches, hreach, ← hb]
    simp only [Notice.hear, List.foldl_cons, List.foldl_nil, Bool.or_eq_true, decide_eq_true_eq]
    rw [or_comm]
  · intro p hs ht
    rw [hstir.reaches, hreach] at ht
    exact absurd (.inr hs) ht

omit [Plugin P] in
theorem Core.reaches_received {c d : Core X P} {l : LinkId} {u v : UpLink X}
    (hu : c.links[l]? = some (.up u)) (hd : d.links = c.links.insert l (.up v))
    (hpeer : v.peer = u.peer) (p : DeviceId) : d.Reaches p ↔ c.Reaches p := by
  rw [reaches_insert_up ?_ hd]
  · constructor
    · rintro (hp | hp)
      · exact ⟨l, u, hu, hpeer.symm.trans hp⟩
      · exact hp
    · exact .inr
  · intro w hw
    obtain rfl : w = u := by simpa using hw.symm.trans hu
    exact hpeer.symm

/-- The event's own move announces what it does, unless it takes a peer's last link silently. -/
theorem Head.announces {i : Core.Input X} {s t : Exec X (Logged P)} (h : Head i s t)
    (hloss : s.core.losesSilently i = false) : ∃ as ns, Announces s t as ns := by
  have spared : ∀ {l : LinkId}, s.core.drops i = some l → s.core.Spared l :=
    fun hd => Core.spared_of_drops hloss hd
  cases h
  case idle => exact ⟨[], [], .of_same (List.append_nil _).symm rfl fun _ => Iff.rfl⟩
  case opened event view =>
    exact Announces.of_view view rfl (List.append_nil _).symm
      (Core.reaches_insert (spared (by rw [Core.drops, event])) (by simp) (Exec.links_of view))
  case dialledSession event _ _ _ _ _ _ _ _ _ view =>
    exact Announces.of_view view rfl rfl
      (Core.reaches_insert (spared (by rw [Core.drops, event])) (by simp) (Exec.links_of view))
  case dialledPair event _ _ _ _ _ _ view =>
    exact Announces.of_view view rfl rfl
      (Core.reaches_insert (spared (by rw [Core.drops, event])) (by simp) (Exec.links_of view))
  case failed l dials quiet as may has view =>
    refine Announces.of_view view rfl rfl (Core.reaches_erase ?_ (Exec.links_of view))
    rcases may with ⟨attrs, dial, event⟩ | ⟨msg, event, hsplit | hnot⟩
    · exact spared (by rw [Core.drops, event])
    · exact spared (by simp [Core.drops, event, hsplit])
    · exact Core.spared_of_not_up hnot
  case answered link _ _ _ _ _ _ view =>
    exact Announces.of_view view rfl rfl
      (Core.reaches_insert (Core.spared_of_pending link) (by simp) (Exec.links_of view))
  case wasted hread _ _ _ view =>
    exact Announces.of_view view rfl rfl
      (Core.reaches_erase (Core.spared_of_not_up hread.not_up) (Exec.links_of view))
  case continued link _ _ _ view =>
    exact Announces.of_view view rfl rfl
      (Core.reaches_insert (Core.spared_of_handshaking link) (by simp) (Exec.links_of view))
  case abandoned link _ _ _ view =>
    exact Announces.of_view view rfl rfl
      (Core.reaches_erase (Core.spared_of_handshaking link) (Exec.links_of view))
  case unwanted hread _ view =>
    exact Announces.of_view view rfl rfl
      (Core.reaches_erase (Core.spared_of_handshaking hread.link) (Exec.links_of view))
  case awaited hread _ _ _ _ view =>
    exact Announces.of_view view rfl rfl
      (Core.reaches_insert (Core.spared_of_handshaking hread.link) (by simp) (Exec.links_of view))
  case hungUp link _ view =>
    exact Announces.of_view view rfl (List.append_nil _).symm
      (Core.reaches_erase (Core.spared_of_handshaking link) (Exec.links_of view))
  case received link _ view =>
    exact Announces.of_view view rfl (List.append_nil _).symm
      (Core.reaches_received link (Exec.links_of view) rfl)
  case lapsed w event window due view =>
    obtain ⟨d, a⟩ := w
    cases a with
    | none => exact Announces.of_view view rfl rfl (Core.reaches_of_links (Exec.links_of view))
    | some a =>
      refine Announces.of_view view rfl rfl (Core.reaches_erase (spared ?_) (Exec.links_of view))
      simp [Core.drops, event, window, due]
  case denied event window view =>
    refine Announces.of_view view rfl rfl (Core.reaches_erase (spared ?_) (Exec.links_of view))
    simp [Core.drops, event, window]
  case confirmed event window _ view =>
    refine Announces.of_view view rfl rfl (Core.reaches_erase (spared ?_) (Exec.links_of view))
    simp [Core.drops, event, window]
  case unkeyed view =>
    exact Announces.of_view view rfl (List.append_nil _).symm
      (Core.reaches_of_links (Exec.links_of view))
  case undialled view | claimed view | revoked view =>
    exact Announces.of_view view rfl rfl (Core.reaches_of_links (Exec.links_of view))
  case established hread _ _ _ view =>
    exact Exec.tellConnected_announces hread.not_up (Exec.links_of view)
      (Exec.actions_of view) (Exec.plugins_of view)

namespace Core
variable {c : Core X (Logged P)} {i : Input X}

theorem step_announces (hloss : c.losesSilently i = false) :
    ∃ ns, Announces (c.start i) (c.exec i) (c.handle i).2.actions ns := by
  obtain ⟨mid, hhead, hafter⟩ := c.exec_outline i
  obtain ⟨as, ns, hh⟩ := hhead.announces hloss
  obtain ⟨bs, ms, ha⟩ := hafter.announces
  have h := hh.trans ha
  have hact : (c.handle i).2.actions = as ++ bs := h.actions
  rw [hact]
  exact ⟨_, h⟩

theorem Agrees.step (h : c.Agrees) (hloss : c.losesSilently i = false) : (c.step i).Agrees := by
  obtain ⟨ns, ha⟩ := step_announces hloss
  intro g' hg' p
  have hlog : g'.log ∈ (c.plugins.map Logged.log).map (· ++ ns) := ha.told ▸ List.mem_map_of_mem hg'
  simp only [List.mem_map, exists_exists_and_eq_and] at hlog
  obtain ⟨g, hg, heq⟩ := hlog
  rw [← heq, Notice.present_append]
  exact ha.right p _ (h g hg p)

theorem logged_agrees (b : CoreBuilder X P) : b.logged.build.Agrees := by
  intro g hg p
  obtain ⟨q, -, rfl⟩ := List.mem_map.mp hg
  constructor
  · intro h
    cases h
  · rintro ⟨l, u, hu, -⟩
    simp [CoreBuilder.build] at hu

/-- As long as no peer's last link is taken silently, the plugins know exactly which peers have an
established link, and in the step in which a peer loses its last one they and the UI are told. -/
theorem plugins_agree_with_links (b : CoreBuilder X P) (is : List (Input X))
    (his : Lib.Along step (fun c i => c.losesSilently i = false) b.logged.build is) :
    (b.logged.build.run is).Agrees ∧
    ∀ i, (b.logged.build.run is).losesSilently i = false → ∀ p,
      (b.logged.build.run is).Reaches p → ¬ ((b.logged.build.run is).step i).Reaches p →
        .ui (.peerUnreachable p) ∈ ((b.logged.build.run is).handle i).2.actions ∧
        ∃ ns, Notice.disconnected p ∈ ns ∧
          ((b.logged.build.run is).step i).plugins.map Logged.log =
            (b.logged.build.run is).plugins.map fun g => g.log ++ ns := by
  have hagrees : (b.logged.build.run is).Agrees :=
    his.inv (I := Agrees) (fun _ _ h hloss => h.step hloss) (logged_agrees b)
  refine ⟨hagrees, ?_⟩
  intro i hloss p hbefore hafter
  obtain ⟨ns, ha⟩ := step_announces hloss
  refine ⟨ha.gone p hbefore hafter, ns, ?_, ?_⟩
  · have hfold : ns.foldl (Notice.hear p) true = false := by
      rw [Bool.eq_false_iff]
      intro h
      exact hafter ((ha.right p true ⟨fun _ => hbefore, fun _ => rfl⟩).mp h)
    exact Notice.mem_of_foldl_hear rfl hfold
  · have htold := ha.told
    rw [List.map_map] at htold
    exact htold

/-- The phone's link goes down: the plugin and the UI are told. -/
theorem phone_down_is_announced :
    ((Mock.fresh 1 [()]).logged.build.run phoneCalls).Agrees ∧
    .ui (.peerUnreachable (DeviceId.of Mock.crates (Mock.device 5).publicKey)) ∈
      (((Mock.fresh 1 [()]).logged.build.run phoneCalls).handle
        (Mock.at_ 0 0 (.linkDown 2 .closed))).2.actions := by
  obtain ⟨hagrees, hgone⟩ := plugins_agree_with_links (Mock.fresh 1 [()]) phoneCalls
    (by decide +kernel)
  refine ⟨hagrees, ?_⟩
  exact (hgone (Mock.at_ 0 0 (.linkDown 2 .closed)) (by decide +kernel) _ (by decide +kernel)
    (by decide +kernel)).1

/-- The phone's only link is dropped over a frame of no kind, and nobody is told. -/
theorem phone_dropped_silently :
    ¬ ((Mock.fresh 1 [()]).logged.build.run
      (phoneCalls ++ [Mock.at_ 0 0 (.linkRecv 2 [])])).Agrees ∧
    ((Mock.fresh 1 [()]).logged.build.run phoneCalls).Reaches
      (DeviceId.of Mock.crates (Mock.device 5).publicKey) ∧
    ¬ ((Mock.fresh 1 [()]).logged.build.run
      (phoneCalls ++ [Mock.at_ 0 0 (.linkRecv 2 [])])).Reaches
        (DeviceId.of Mock.crates (Mock.device 5).publicKey) ∧
    .ui (.peerUnreachable (DeviceId.of Mock.crates (Mock.device 5).publicKey)) ∉
      (((Mock.fresh 1 [()]).logged.build.run phoneCalls).handle
        (Mock.at_ 0 0 (.linkRecv 2 []))).2.actions := by
  have hgone : ¬ ((Mock.fresh 1 [()]).logged.build.run
      (phoneCalls ++ [Mock.at_ 0 0 (.linkRecv 2 [])])).Reaches
        (DeviceId.of Mock.crates (Mock.device 5).publicKey) := by decide +kernel
  have hthinks : ∃ g ∈ ((Mock.fresh 1 [()]).logged.build.run
      (phoneCalls ++ [Mock.at_ 0 0 (.linkRecv 2 [])])).plugins,
      Notice.present (DeviceId.of Mock.crates (Mock.device 5).publicKey) g.log := by
    decide +kernel
  refine ⟨?_, by decide +kernel, hgone, by decide +kernel⟩
  intro hagrees
  obtain ⟨g, hg, hp⟩ := hthinks
  exact hgone ((hagrees g hg _).mp hp)

end Core
end Acrylius
