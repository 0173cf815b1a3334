import Acrylius.Core.Conduct
import Acrylius.Rt.Tcp

/-! The action pump (`acrylius-rt`, `runtime.rs`) between a core and its TCP transport: the core
handles the transport's events one at a time, in the order in which they were sent, and the
transport takes its commands in the order in which the core asked. What else the runtime does with
an action is elsewhere. -/
namespace Acrylius
open Proto Std

def LinkId.transport (link : LinkId) : TransportId := link / 2 ^ 48

structure Runtime (X : Crates) (P : Type) where
  core : Core X P
  tcp : Tcp
  /-- How many of the transport's events the core has handled. -/
  handled : ℕ
  /-- Every command to the transport, and how many of them it took. -/
  cmds : List Tcp.Step
  taken : ℕ

namespace Runtime

/-- `Runtime::apply`, as far as the transport hears of it. -/
def apply (id : TransportId) : Action → Option Tcp.Step
  | .dial transport addr dial => if transport = id then some (.dial dial addr) else none
  | .linkSend link msg => some (.send link msg)
  | .close link _ => some (.close link)
  | _ => none

def foreign (id : TransportId) (e : Event) : Bool :=
  (Tcp.link? e).all fun l => LinkId.transport l ≠ id

end Runtime

def Tcp.Step.own : Tcp.Step → Bool
  | .dial .. | .send .. | .close .. => false
  | .accept | .dialled .. | .arrive .. | .hangUp .. | .task .. => true

namespace Runtime
variable {X : Crates} {P : Type}

def new (core : Core X P) (id : TransportId) : Runtime X P where
  core := core
  tcp := .new id
  handled := 0
  cmds := []
  taken := 0

inductive Step (X : Crates) where
  | event (now : Now) (seed : X.Seed)
  /-- An event comes from the timer, from an effect, from a person or from another transport. -/
  | other (i : Core.Input X)
  /-- The transport takes a command. -/
  | command
  | transport (s : Tcp.Step)

section
variable [Plugin P]

def handle (r : Runtime X P) (i : Core.Input X) : Runtime X P :=
  { r with
    core := r.core.step i
    cmds := r.cmds ++ (r.core.handle i).2.actions.filterMap (apply r.tcp.id) }

def handleNext (r : Runtime X P) (i : Core.Input X) : Runtime X P :=
  { r with handled := r.handled + 1 }.handle i

def step (r : Runtime X P) : Step X → Runtime X P
  | .event now seed =>
    match r.tcp.log[r.handled]? with
    | some e => r.handleNext ⟨now, seed, e⟩
    | none => r
  | .other i => if foreign r.tcp.id i.event then r.handle i else r
  | .command =>
    match r.cmds[r.taken]? with
    | some cmd => { r with tcp := r.tcp.step cmd, taken := r.taken + 1 }
    | none => r
  | .transport s => if s.own then { r with tcp := r.tcp.step s } else r

end

/-- What the core was told of a link, what it heard on it, and what it asked to be said. -/
def told (r : Runtime X P) (l : LinkId) : List Event :=
  (r.tcp.log.take r.handled).filter (Tcp.link? · = some l)

def heard (r : Runtime X P) (l : LinkId) : List Bytes := (r.told l).filterMap Tcp.msg?

def asked (r : Runtime X P) (l : LinkId) : List Bytes := Tcp.said l r.cmds

end Runtime

/-- A core at one end of a link: what it was told of it first, what it heard on it and what it asked
to be said. -/
structure Seat (X : Crates) (P : Type) where
  core : Core X P
  up : Option Event
  heard : List Bytes
  asked : List Bytes

namespace Seat
variable {X : Crates} {P : Type}

def after [Plugin P] (s : Seat X P) (l : LinkId) (i : Core.Input X) : Seat X P :=
  { s with core := s.core.step i, asked := s.asked ++ framesOn l (s.core.handle i).2.actions }

/-- What a step of a runtime is about, seen from a link: nothing that the core hears of, something
else that it hears of, that the link is up, or a message on it. -/
inductive Turn [Plugin P] (id : TransportId) (l : LinkId) (s : Seat X P) : Seat X P → Prop where
  | aside : Turn id l s s
  | other (i : Core.Input X) (event : i.event.touches l = false) : Turn id l s (s.after l i)
  | up (i : Core.Input X) (dial : Option DialToken) (event : i.event = .linkUp l (.tcpLan id) dial)
      (before : s.up = none) : Turn id l s { s.after l i with up := some i.event }
  | recv (now : Now) (seed : X.Seed) (m : Bytes) (before : s.up ≠ none) :
      Turn id l s { s.after l ⟨now, seed, .linkRecv l m⟩ with heard := s.heard ++ [m] }

theorem Turn.still_up [Plugin P] {id : TransportId} {l : LinkId} {s s' : Seat X P}
    (h : Turn id l s s') (hup : s'.up ≠ none) (e : Option Event) :
    Turn id l s { s' with up := s'.up.or e } := by
  have hsame : s'.up.or e = s'.up := by
    obtain ⟨first, hfirst⟩ := Option.ne_none_iff_exists'.mp hup
    rw [hfirst, Option.some_or]
  rwa [hsame]

end Seat

def Runtime.seat {X : Crates} {P : Type} (r : Runtime X P) (l : LinkId) : Seat X P :=
  ⟨r.core, (r.told l).head?, r.heard l, r.asked l⟩

namespace Tcp
variable {t : Tcp} {k : ℕ} {l : LinkId} {said : List Bytes} {c : Conn} {heard : ℕ → List Bytes}

/-- A link's connection was given what was said on the link, for as long as commands find it. -/
structure Spoken (t : Tcp) (k : ℕ) (l : LinkId) (said : List Bytes) : Prop where
  some_ : ∀ c, t.conns[k]? = some c → c.said <+: said
  all : ∀ c, t.conns[k]? = some c → t.writers[l]? = some k → c.said = said

theorem said_append (l : LinkId) (is js : List Step) :
    Tcp.said l (is ++ js) = Tcp.said l is ++ Tcp.said l js := List.filterMap_append

theorem said_of_own {s : Step} (hs : s.own) (l : LinkId) : Tcp.said l [s] = [] := by
  cases s with
  | dial | send | close => cases hs
  | accept | dialled | arrive | hangUp | task => rfl

/-- Only a connection that starts becomes one that commands find. -/
theorem writers_of_step {s : Step} (h : (t.step s).writers[l]? = some k) :
    t.writers[l]? = some k ∨ s = .task k .register ∧
      ∃ c, t.conns[k]? = some c ∧ c.stage = .started ∧ c.link = l := by
  have honConn : ∀ (i : ℕ) (f : Conn → Conn), (t.onConn i f).writers = t.writers := by
    intro i f
    unfold onConn
    split <;> rfl
  cases s with
  | dial | accept => exact .inl h
  | close link => exact .inl (Lib.getElem?_of_erase h).2
  | send link msg =>
    simp only [Tcp.step, sendCmd] at h
    split at h
    · exact .inl h
    · rw [honConn] at h
      exact .inl h
  | dialled i outcome =>
    simp only [Tcp.step, Tcp.dialled] at h
    split at h
    · exact .inl h
    · cases outcome <;> exact .inl h
  | arrive i bs | hangUp i =>
    simp only [Tcp.step] at h
    rw [honConn] at h
    exact .inl h
  | task i task =>
    simp only [Tcp.step] at h
    split at h
    · rename_i c hc
      cases task with
      | take | put | writeFails | readFails | writerOver => exact .inl h
      | register =>
        simp only [Tcp.task] at h
        split at h
        · rename_i hs
          rcases Lib.getElem?_of_insert h with ⟨rfl, rfl⟩ | ⟨-, h⟩
          · exact .inr ⟨rfl, c, hc, hs, rfl⟩
          · exact .inl h
        · exact .inl h
      | unlist =>
        simp only [Tcp.task] at h
        split at h
        · exact .inl (Lib.getElem?_of_erase h).2
        · exact .inl h
      | announce | read | report | aborted =>
        simp only [Tcp.task] at h
        split at h <;> exact .inl h
    · exact .inl h

theorem said_of_ne {s : Step} (hs : ∀ msg, s ≠ .send l msg) : Tcp.said l [s] = [] := by
  cases s with
  | send link msg =>
    have hne : link ≠ l := by
      rintro rfl
      exact hs msg rfl
    simp [Tcp.said, Step.msg?, hne]
  | dial | close | accept | dialled | arrive | hangUp | task => rfl

theorem said_send (l : LinkId) (msg : Bytes) : Tcp.said l [.send l msg] = [msg] := by
  simp [Tcp.said, Step.msg?]

/-- Nothing is said before the connection is one that commands find. -/
theorem Spoken.step (h : t.Spoken k l said) (ht : t.Told heard) (hl : LinkId.new t.id (1 + k) = l)
    (hquiet : (∀ c, t.conns[k]? = some c → c.stage = .started) → said = []) (s : Step) :
    (t.step s).Spoken k l (said ++ Tcp.said l [s]) := by
  have hown : ∀ c, t.conns[k]? = some c → c.link = l := fun c hc => (ht.ids k c hc).trans hl
  have hgiven : ∀ {l' : LinkId} {c₀ : Conn}, t.conns[k]? = some c₀ → t.writers[l']? = some k →
      l' = l := by
    intro l' c₀ hc₀ hw
    obtain ⟨d, hd, hdl, -⟩ := ht.found l' k hw
    exact hdl.symm.trans (hown d hd)
  constructor
  · intro c hc
    rcases conn_of_step hc with ⟨c₀, hc₀, -, hsaid | ⟨l', msg, rfl, hw, hsaid⟩⟩ | ⟨-, hsaid⟩
    · rw [hsaid]
      exact (h.some_ c₀ hc₀).trans (List.prefix_append _ _)
    · obtain rfl := hgiven hc₀ hw
      rw [hsaid, h.all c₀ hc₀ hw, said_send]
    · rw [hsaid]
      exact List.nil_prefix
  · intro c hc hw
    rcases writers_of_step hw with hw₀ | ⟨rfl, d, hd, hstage, -⟩
    · obtain ⟨d, hd, -⟩ := ht.found l k hw₀
      by_cases hsend : ∃ msg, s = .send l msg
      · obtain ⟨msg, rfl⟩ := hsend
        obtain ⟨hk, -⟩ := List.getElem?_eq_some_iff.mp hd
        simp only [Tcp.step, sendCmd, hw₀, onConn, hd, setConn, List.getElem?_set_self hk,
          Option.some.injEq] at hc
        rw [← hc, said_send, h.all d hd hw₀]
      · have hother : Tcp.said l [s] = [] := said_of_ne fun msg hs => hsend ⟨msg, hs⟩
        rw [hother, List.append_nil]
        rcases conn_of_step hc with ⟨c₀, hc₀, -, hsaid | ⟨l', msg, rfl, hw', -⟩⟩ | ⟨hnone, -⟩
        · rw [hsaid, h.all c₀ hc₀ hw₀]
        · obtain rfl := hgiven hc₀ hw'
          exact absurd ⟨msg, rfl⟩ hsend
        · cases hnone.symm.trans hd
    · have hnil : said = [] := by
        refine hquiet fun c₀ hc₀ => ?_
        obtain rfl := Option.some.inj (hc₀.symm.trans hd)
        exact hstage
      subst hnil
      rcases conn_of_step hc with ⟨c₀, hc₀, -, hsaid | ⟨_, _, hs, -⟩⟩ | ⟨-, hsaid⟩
      · exact hsaid.trans (List.prefix_nil.mp (h.some_ c₀ hc₀))
      · cases hs
      · exact hsaid

@[simp] theorem log_onConn (t : Tcp) (i : ℕ) (f : Conn → Conn) : (t.onConn i f).log = t.log := by
  unfold onConn
  split <;> rfl

/-- What was reported stays reported. -/
theorem log_step (t : Tcp) (s : Step) : t.log <+: (t.step s).log := by
  cases s with
  | dial | accept | close => exact List.prefix_refl _
  | send link msg =>
    simp only [Tcp.step, sendCmd]
    split
    · exact List.prefix_refl _
    · rw [log_onConn]
  | dialled i outcome =>
    simp only [Tcp.step, Tcp.dialled]
    split
    · exact List.prefix_refl _
    · cases outcome with
      | unresolved | refused => exact List.prefix_append _ _
      | connected => exact List.prefix_refl _
  | arrive i bs | hangUp i =>
    simp only [Tcp.step]
    rw [log_onConn]
  | task i task =>
    simp only [Tcp.step]
    split
    · cases task with
      | take | put | writeFails | readFails | writerOver => exact List.prefix_refl _
      | announce | read | report =>
        simp only [Tcp.task]
        split
        · exact List.prefix_append _ _
        · exact List.prefix_refl _
      | register | unlist | aborted =>
        simp only [Tcp.task]
        split <;> exact List.prefix_refl _
    · exact List.prefix_refl _

end Tcp

namespace Tcp
variable {t : Tcp} {k : ℕ} {l : LinkId} {heard : ℕ → List Bytes}

/-- Nothing is reported of a connection that is not there, or that is not announced. -/
theorem Told.unreported (h : t.Told heard) (hlen : t.conns.length ≤ 2 ^ 48) (hk : k < 2 ^ 48)
    (hl : LinkId.new t.id (1 + k) = l)
    (hquiet : ∀ c, t.conns[k]? = some c → c.stage = .started) :
    t.log.filter (link? · = some l) = [] := by
  rw [List.filter_eq_nil_iff]
  intro e he heq
  obtain ⟨i, c, hc, hcl⟩ := h.only e he l (of_decide_eq_true heq)
  obtain ⟨hi, -⟩ := List.getElem?_eq_some_iff.mp hc
  have hsame : LinkId.new t.id (1 + i) = LinkId.new t.id (1 + k) :=
    ((h.ids i c hc).symm.trans hcl).trans hl.symm
  obtain rfl := LinkId.new_inj (by omega) hk hsame
  have hstory := h.story i c hc
  rw [Conn.story, hquiet c hc, hcl] at hstory
  have hmem : e ∈ t.log.filter (link? · = some l) := List.mem_filter.mpr ⟨he, heq⟩
  rw [hstory] at hmem
  cases hmem

/-- The first thing reported of a link is that it is up; what follows is not. -/
theorem Told.first (h : t.Told heard) {before after : List Event} {e : Event}
    (hl : link? e = some l)
    (hstory : t.log.filter (link? · = some l) = before ++ e :: after) :
    before = [] ∧ (∃ dial, e = .linkUp l (.tcpLan t.id) dial) ∨
      before ≠ [] ∧ ((∃ m, e = .linkRecv l m) ∨ ∃ reason, e = .linkDown l reason) := by
  have hmem : e ∈ t.log.filter (link? · = some l) := by
    rw [hstory]
    exact List.mem_append_right _ List.mem_cons_self
  obtain ⟨i, c, hc, rfl⟩ := h.only e (List.mem_filter.mp hmem).1 l hl
  rw [h.story i c hc] at hstory
  have hrest : ∀ {rest : List Event}, (∀ e' ∈ rest, (∃ m, e' = .linkRecv c.link m) ∨
      ∃ reason, e' = .linkDown c.link reason) →
      .linkUp c.link (.tcpLan t.id) c.dial :: rest = before ++ e :: after →
        before = [] ∧ (∃ dial, e = .linkUp c.link (.tcpLan t.id) dial) ∨
          before ≠ [] ∧ ((∃ m, e = .linkRecv c.link m) ∨ ∃ reason, e = .linkDown c.link reason) := by
    intro rest hall heq
    cases before with
    | nil =>
      cases heq
      exact .inl ⟨rfl, c.dial, rfl⟩
    | cons x xs =>
      obtain ⟨-, rfl⟩ := List.cons.inj heq
      exact .inr ⟨List.cons_ne_nil _ _, hall e (List.mem_append_right _ List.mem_cons_self)⟩
  have hheard : ∀ e' ∈ (heard i).map (Event.linkRecv c.link), (∃ m, e' = .linkRecv c.link m) ∨
      ∃ reason, e' = .linkDown c.link reason := by
    intro e' he'
    obtain ⟨m, -, rfl⟩ := List.mem_map.mp he'
    exact .inl ⟨m, rfl⟩
  unfold Conn.story at hstory
  split at hstory
  · simp at hstory
  · simp at hstory
  · exact hrest hheard hstory
  · exact hrest hheard hstory
  · exact hrest hheard hstory
  · rename_i reason _
    rw [List.cons_append] at hstory
    refine hrest (fun e' he' => ?_) hstory
    rcases List.mem_append.mp he' with he' | he'
    · exact hheard e' he'
    · exact .inr ⟨reason, List.mem_singleton.mp he'⟩

end Tcp

namespace Runtime
variable {X : Crates} {P : Type} [Plugin P] {c₀ : Core X P} {k : ℕ} {l : LinkId} {r r' : Runtime X P}

structure Sound (c₀ : Core X P) (k : ℕ) (l : LinkId) (r : Runtime X P) : Prop where
  link : LinkId.new r.tcp.id (1 + k) = l
  small : k < 2 ^ 48
  reach : ∃ is, r.core = Lib.run Core.step c₀ is
  tells : ∃ heard, r.tcp.Told heard
  handled : r.handled ≤ r.tcp.log.length
  taken : r.taken ≤ r.cmds.length
  commands : ∀ s ∈ r.cmds, s.own = false
  silent : r.told l = [] → r.core.links[l]? = none ∧ r.asked l = []
  spoken : r.tcp.Spoken k l (Tcp.said l (r.cmds.take r.taken))

omit [Plugin P] in
theorem said_apply (id : TransportId) (l : LinkId) (as : List Action) :
    Tcp.said l (as.filterMap (apply id)) = framesOn l as := by
  unfold Tcp.said framesOn
  rw [List.filterMap_filterMap]
  congr 1
  funext a
  cases a with
  | dial transport addr dial =>
    by_cases ht : transport = id <;> simp [apply, ht, Tcp.Step.msg?]
  | linkSend | close | effect | persist | bulkListen | bulkSend | bulkCancel | ui => rfl

omit [Plugin P] in
theorem own_apply {id : TransportId} {as : List Action} {s : Tcp.Step}
    (h : s ∈ as.filterMap (apply id)) : s.own = false := by
  obtain ⟨a, -, ha⟩ := List.mem_filterMap.mp h
  unfold apply at ha
  split at ha
  · split_ifs at ha
    cases ha
    rfl
  all_goals
    cases ha
    try rfl

theorem asked_handle (r : Runtime X P) (i : Core.Input X) (l : LinkId) :
    (r.handle i).asked l = r.asked l ++ framesOn l (r.core.handle i).2.actions := by
  rw [asked, handle, Tcp.said_append, said_apply]
  rfl

omit [Plugin P] in
/-- A report more in the transport's channel is none more at the core. -/
theorem told_of_log {t : Tcp} (hlog : r.tcp.log <+: t.log) (hhandled : r.handled ≤ r.tcp.log.length)
    (taken : ℕ) : ({ r with tcp := t, taken } : Runtime X P).told l = r.told l := by
  obtain ⟨more, hmore⟩ := hlog
  rw [told, told, ← hmore, List.take_append_of_le_length hhandled]

omit [Plugin P] in
theorem told_prefix : r.told l <+: r.tcp.log.filter (Tcp.link? · = some l) :=
  (List.take_prefix _ _).filter _

omit [Plugin P] in
theorem heard_prefix : r.heard l <+: r.tcp.received l := told_prefix.filterMap _

omit [Plugin P] in
theorem touches_of_link {e : Event} (h : Tcp.link? e ≠ some l) : e.touches l = false := by
  cases e with
  | linkUp l' _ _ | linkRecv l' _ =>
    have hne : l' ≠ l := by
      rintro rfl
      exact h rfl
    simp [Event.touches, hne]
  | _ => rfl

omit [Plugin P] in
theorem transport_new (id n : ℕ) : LinkId.transport (LinkId.new id n) = id := by
  change (id * 2 ^ 48 + n % 2 ^ 48) / 2 ^ 48 = id
  omega

theorem Sound.foreign (h : r.Sound c₀ k l) {e : Event} (he : foreign r.tcp.id e) :
    e.touches l = false := by
  refine touches_of_link fun hl => ?_
  rw [Runtime.foreign, hl] at he
  have hne : LinkId.transport l ≠ r.tcp.id := by simpa using he
  exact hne (h.link ▸ transport_new r.tcp.id (1 + k))

/-- The core handles an event, and has handled so many of the transport's. -/
theorem Sound.handle (h : r.Sound c₀ k l) {handled : ℕ} (hhandled : handled ≤ r.tcp.log.length)
    {i : Core.Input X} (hsilent : ({ r with handled } : Runtime X P).told l = [] →
      r.told l = [] ∧ i.event.touches l = false) :
    (({ r with handled } : Runtime X P).handle i).Sound c₀ k l := by
  obtain ⟨is, hreach⟩ := h.reach
  have htake : (r.cmds ++ (r.core.handle i).2.actions.filterMap (apply r.tcp.id)).take r.taken =
      r.cmds.take r.taken := List.take_append_of_le_length h.taken
  refine ⟨h.link, h.small, ⟨is ++ [i], ?_⟩, h.tells, hhandled, ?_, ?_, fun hnone => ?_, ?_⟩
  · rw [Lib.run_append, ← hreach]
    rfl
  · exact Nat.le_trans h.taken (by simp [Runtime.handle])
  · intro s hs
    rcases List.mem_append.mp hs with hs | hs
    · exact h.commands s hs
    · exact own_apply hs
  · obtain ⟨hbefore, he⟩ := hsilent hnone
    obtain ⟨hlink, hasked⟩ := h.silent hbefore
    have hfate := r.core.step_foreign i he false (by simp)
    rw [hlink] at hfate
    obtain ⟨hstep, hframes⟩ := hfate.of_none
    refine ⟨hstep, ?_⟩
    rw [asked_handle]
    exact List.append_eq_nil_iff.mpr ⟨hasked, hframes⟩
  · simp only [Runtime.handle, htake]
    exact h.spoken

theorem Sound.other (h : r.Sound c₀ k l) {i : Core.Input X} (he : i.event.touches l = false) :
    (r.handle i).Sound c₀ k l ∧ Seat.Turn r.tcp.id l (r.seat l) ((r.handle i).seat l) := by
  have hseat : (r.handle i).seat l = (r.seat l).after l i := by
    simp only [seat, Seat.after, asked_handle]
    rfl
  exact ⟨h.handle h.handled fun hnone => ⟨hnone, he⟩, hseat ▸ .other i he⟩

/-- The next event that the transport sent is handled. -/
theorem Sound.event (h : r.Sound c₀ k l) {e : Event} (he : r.tcp.log[r.handled]? = some e) (now : Now)
    (seed : X.Seed) : (r.handleNext ⟨now, seed, e⟩).Sound c₀ k l ∧
      Seat.Turn r.tcp.id l (r.seat l) ((r.handleNext ⟨now, seed, e⟩).seat l) := by
  obtain ⟨hlt, hget⟩ := List.getElem?_eq_some_iff.mp he
  obtain ⟨heard, htold⟩ := h.tells
  have hmore : (r.handleNext ⟨now, seed, e⟩).told l =
      r.told l ++ [e].filter (Tcp.link? · = some l) := by
    simp only [told, handleNext, Runtime.handle]
    rw [List.take_add_one, he, List.filter_append]
    rfl
  have hasked : (r.handleNext ⟨now, seed, e⟩).asked l =
      r.asked l ++ framesOn l (r.core.handle ⟨now, seed, e⟩).2.actions :=
    asked_handle { r with handled := r.handled + 1 } ⟨now, seed, e⟩ l
  have hheard : (r.handleNext ⟨now, seed, e⟩).heard l =
      r.heard l ++ ([e].filter (Tcp.link? · = some l)).filterMap Tcp.msg? := by
    rw [Runtime.heard, hmore, List.filterMap_append]
    rfl
  by_cases hl : Tcp.link? e = some l
  · have hone : [e].filter (Tcp.link? · = some l) = [e] := by simp [hl]
    rw [hone] at hmore hheard
    have hup : (r.handleNext ⟨now, seed, e⟩).told l ≠ [] := by
      rw [hmore]
      exact List.append_ne_nil_of_right_ne_nil _ (List.cons_ne_nil _ _)
    have hstory : r.tcp.log.filter (Tcp.link? · = some l) =
        r.told l ++ e :: (r.tcp.log.drop (r.handled + 1)).filter (Tcp.link? · = some l) := by
      have hsplit : r.tcp.log = r.tcp.log.take r.handled ++ e :: r.tcp.log.drop (r.handled + 1) := by
        rw [← hget, List.getElem_cons_drop, List.take_append_drop]
      conv_lhs => rw [hsplit]
      rw [List.filter_append, List.filter_cons, if_pos (decide_eq_true hl), told]
    refine ⟨h.handle hlt fun hnone => absurd hnone hup, ?_⟩
    have hseat : (r.handleNext ⟨now, seed, e⟩).seat l =
        { (r.seat l).after l ⟨now, seed, e⟩ with
          up := (r.told l).head?.or (some e)
          heard := r.heard l ++ [e].filterMap Tcp.msg? } := by
      simp only [seat, Seat.after, hasked, hheard, hmore, List.head?_append]
      rfl
    rw [hseat]
    rcases htold.first hl hstory with ⟨hnone, dial, rfl⟩ | ⟨hsome, ⟨m, rfl⟩ | ⟨reason, rfl⟩⟩
    · have hbefore : (r.seat l).up = none := by simp [seat, hnone]
      have hmsg : [Event.linkUp l (.tcpLan r.tcp.id) dial].filterMap Tcp.msg? = [] := rfl
      rw [hmsg, List.append_nil, hnone]
      exact .up ⟨now, seed, _⟩ dial rfl hbefore
    · have hbefore : (r.seat l).up ≠ none := by simp [seat, hsome]
      exact (Seat.Turn.recv now seed m hbefore).still_up hbefore _
    · have hbefore : (r.seat l).up ≠ none := by simp [seat, hsome]
      have hmsg : [Event.linkDown l reason].filterMap Tcp.msg? = [] := rfl
      rw [hmsg, List.append_nil]
      exact (Seat.Turn.other (s := r.seat l) ⟨now, seed, .linkDown l reason⟩ rfl).still_up hbefore _
  · have hnone : [e].filter (Tcp.link? · = some l) = [] := by simp [hl]
    rw [hnone] at hmore hheard
    rw [List.append_nil] at hmore
    have htouches : e.touches l = false := touches_of_link hl
    refine ⟨h.handle hlt fun hnil => ⟨hmore.symm.trans hnil, htouches⟩, ?_⟩
    have hseat : (r.handleNext ⟨now, seed, e⟩).seat l = (r.seat l).after l ⟨now, seed, e⟩ := by
      simp only [seat, Seat.after, hasked, hheard, hmore, List.filterMap_nil, List.append_nil]
      rfl
    rw [hseat]
    exact .other _ htouches

/-- The transport gets on, by a command or by itself. -/
theorem Sound.transport (h : r.Sound c₀ k l) {s : Tcp.Step} {taken : ℕ}
    (hlen : (r.tcp.step s).conns.length ≤ 2 ^ 48) (htaken : taken ≤ r.cmds.length)
    (hsaid : Tcp.said l (r.cmds.take taken) = Tcp.said l (r.cmds.take r.taken) ++ Tcp.said l [s]) :
    ({ r with tcp := r.tcp.step s, taken } : Runtime X P).Sound c₀ k l ∧
      Seat.Turn r.tcp.id l (r.seat l) (({ r with tcp := r.tcp.step s, taken } : Runtime X P).seat l) := by
  obtain ⟨heard, htold⟩ := h.tells
  have hlog := Tcp.log_step r.tcp s
  have hsame := told_of_log (l := l) hlog h.handled taken
  have hseat : ({ r with tcp := r.tcp.step s, taken } : Runtime X P).seat l = r.seat l := by
    simp only [seat, Runtime.heard, hsame]
    rfl
  refine ⟨⟨?_, h.small, h.reach, htold.step hlen, Nat.le_trans h.handled hlog.length_le, htaken,
    h.commands, fun hnone => h.silent (hsame.symm.trans hnone), ?_⟩, hseat ▸ .aside⟩
  · rw [Tcp.id_step]
    exact h.link
  · rw [hsaid]
    refine h.spoken.step htold h.link (fun hquiet => ?_) s
    have hbefore := Nat.le_trans (Tcp.conns_length_step r.tcp s) hlen
    have hnone := htold.unreported hbefore h.small h.link hquiet
    have htold : r.told l = [] := List.prefix_nil.mp (hnone ▸ told_prefix)
    have hprefix : Tcp.said l (r.cmds.take r.taken) <+: r.asked l :=
      (List.take_prefix _ _).filterMap _
    rw [(h.silent htold).2] at hprefix
    exact List.prefix_nil.mp hprefix

/-- Every step keeps it, and is about one thing as seen from the link. -/
theorem Sound.step (h : r.Sound c₀ k l) {s : Step X} (hlen : (r.step s).tcp.conns.length ≤ 2 ^ 48) :
    (r.step s).Sound c₀ k l ∧ Seat.Turn r.tcp.id l (r.seat l) ((r.step s).seat l) := by
  cases s with
  | event now seed =>
    simp only [Runtime.step]
    split
    · rename_i e he
      exact h.event he now seed
    · exact ⟨h, .aside⟩
  | other i =>
    simp only [Runtime.step]
    split_ifs with he
    · exact h.other (h.foreign he)
    · exact ⟨h, .aside⟩
  | command =>
    simp only [Runtime.step] at hlen ⊢
    cases hcmd : r.cmds[r.taken]? with
    | none => exact ⟨h, .aside⟩
    | some cmd =>
      simp only [hcmd] at hlen ⊢
      obtain ⟨hlt, -⟩ := List.getElem?_eq_some_iff.mp hcmd
      refine h.transport hlen hlt ?_
      rw [List.take_add_one, hcmd, Tcp.said_append]
      rfl
  | transport s =>
    simp only [Runtime.step] at hlen ⊢
    split_ifs with hs
    · rw [if_pos hs] at hlen
      refine h.transport hlen h.taken ?_
      rw [Tcp.said_of_own hs, List.append_nil]
    · exact ⟨h, .aside⟩

end Runtime
end Acrylius
