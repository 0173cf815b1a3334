import Acrylius.Mock
import Acrylius.Net.Duplex
import Acrylius.Rt.Runtime

/-! Two hosts whose transports hold the two ends of one TCP connection: seen from the two cores,
it is a reliable ordered link. -/
namespace Acrylius
open Proto Std

namespace Tcp

def cameAt (t : Tcp) (i : ℕ) : Bytes := (t.conns[i]?).elim [] (·.came)

def sentAt (t : Tcp) (i : ℕ) : Bytes := (t.conns[i]?).elim [] (·.sent)

end Tcp

structure Hosts (X : Crates) (P : Type) where
  a : Runtime X P
  b : Runtime X P

namespace Hosts
variable {X : Crates} {P : Type}

inductive Step (X : Crates) where
  | a (s : Runtime.Step X)
  | b (s : Runtime.Step X)
  /-- So many more bytes of what the other end sent arrive. -/
  | toA (n : ℕ)
  | toB (n : ℕ)

/-- Bytes of the connection come from the other end only. -/
def reserved (i : ℕ) : Runtime.Step X → Bool
  | .transport (.arrive j _) => j = i
  | _ => false

def carry (src dst : Tcp) (i j n : ℕ) : Tcp :=
  dst.step (.arrive j (((src.sentAt i).drop (dst.cameAt j).length).take n))

def start (a b : Core X P) (ta tb : TransportId) : Hosts X P := ⟨.new a ta, .new b tb⟩

/-- `i` and `j` are the places of the connection in the two transports. -/
def step [Plugin P] (i j : ℕ) (w : Hosts X P) : Step X → Hosts X P
  | .a s => if reserved i s then w else { w with a := w.a.step s }
  | .b s => if reserved j s then w else { w with b := w.b.step s }
  | .toA n => { w with a.tcp := carry w.b.tcp w.a.tcp j i n }
  | .toB n => { w with b.tcp := carry w.a.tcp w.b.tcp i j n }

end Hosts

namespace Tcp
variable {t : Tcp} {i : ℕ}

/-- A connection only gets further: more is sent on it, and nothing comes on it but what arrives. -/
structure Conn.Onward (s : Step) (i : ℕ) (c c' : Conn) : Prop where
  sent : c.sent <+: c'.sent
  came : c'.came = c.came ∨ ∃ bs, s = .arrive i bs ∧ c'.came = c.came ++ bs

theorem Conn.Onward.stay {s : Step} {c c' : Conn} (hsent : c'.sent = c.sent)
    (hcame : c'.came = c.came) : c.Onward s i c' :=
  ⟨hsent ▸ List.prefix_refl _, .inl hcame⟩

theorem conns_of_step (t : Tcp) (s : Step) : (t.step s).conns = t.conns ∨
    (∃ l d, (t.step s).conns = t.conns ++ [Conn.start l d]) ∨
    ∃ (k : ℕ) (c c' : Conn), t.conns[k]? = some c ∧ (t.step s).conns = t.conns.set k c' ∧
      c.Onward s k c' := by
  have of_onConn : ∀ {k : ℕ} {f : Conn → Conn}, (t.step s).conns = (t.onConn k f).conns →
      (∀ c : Conn, c.Onward s k (f c)) → (t.step s).conns = t.conns ∨
        (∃ l d, (t.step s).conns = t.conns ++ [Conn.start l d]) ∨
        ∃ (k : ℕ) (c c' : Conn), t.conns[k]? = some c ∧ (t.step s).conns = t.conns.set k c' ∧
          c.Onward s k c' := by
    intro k f hstep hf
    rw [hstep]
    unfold onConn
    split
    · rename_i c hc
      exact .inr (.inr ⟨k, c, f c, hc, rfl, hf c⟩)
    · exact .inl rfl
  cases s with
  | dial | close => exact .inl rfl
  | accept => exact .inr (.inl ⟨_, _, rfl⟩)
  | dialled k outcome =>
    simp only [Tcp.step, Tcp.dialled]
    split
    · exact .inl rfl
    · cases outcome with
      | unresolved | refused => exact .inl rfl
      | connected => exact .inr (.inl ⟨_, _, rfl⟩)
  | send link msg =>
    cases hw : t.writers[link]? with
    | none => exact .inl (by simp only [Tcp.step, sendCmd, hw])
    | some k =>
      have hsend : t.step (.send link msg) =
          t.onConn k fun c => { c with said := c.said ++ [msg] } := by
        simp only [Tcp.step, sendCmd, hw]
      exact of_onConn (congrArg conns hsend) fun c => .stay rfl rfl
  | hangUp k => exact of_onConn rfl fun c => .stay rfl rfl
  | arrive k bs =>
    refine of_onConn rfl fun c => ?_
    unfold Conn.arrive
    split_ifs
    · exact .stay rfl rfl
    · exact ⟨List.prefix_refl _, .inr ⟨bs, rfl, rfl⟩⟩
  | task k task =>
    simp only [Tcp.step]
    cases hc : t.conns[k]? with
    | none => exact .inl rfl
    | some c =>
      cases task with
      | take =>
        refine .inr (.inr ⟨k, c, _, hc, rfl, .stay ?_ ?_⟩) <;> unfold Conn.take <;> split_ifs <;>
          (try split) <;> (try split_ifs) <;> rfl
      | put n =>
        refine .inr (.inr ⟨k, c, _, hc, rfl, ?_⟩)
        unfold Conn.put
        split_ifs
        · exact ⟨List.prefix_append _ _, .inl rfl⟩
        · exact .stay rfl rfl
      | writeFails => exact .inr (.inr ⟨k, c, _, hc, rfl, .stay rfl rfl⟩)
      | readFails e =>
        refine .inr (.inr ⟨k, c, _, hc, rfl, .stay ?_ ?_⟩) <;> unfold Conn.readFails <;> split <;> rfl
      | writerOver =>
        refine .inr (.inr ⟨k, c, _, hc, rfl, .stay ?_ ?_⟩) <;> unfold Conn.writerOver <;> split <;>
          (try split_ifs) <;> rfl
      | read =>
        have hread : c.read.1.sent = c.sent ∧ c.read.1.came = c.came := by
          unfold Conn.read
          split <;> (try split_ifs) <;> exact ⟨rfl, rfl⟩
        refine .inr (.inr ⟨k, c, c.read.1, hc, ?_, .stay hread.1 hread.2⟩)
        simp only [Tcp.task]
        split <;> rename_i heq <;> rw [heq] <;> rfl
      | register | announce | unlist | report | aborted =>
        simp only [Tcp.task]
        split
        · exact .inr (.inr ⟨k, c, _, hc, rfl, .stay rfl rfl⟩)
        · exact .inl rfl

theorem at_of_step (t : Tcp) (s : Step) (i : ℕ) : t.sentAt i <+: (t.step s).sentAt i ∧
    ((t.step s).cameAt i = t.cameAt i ∨
      ∃ bs, s = .arrive i bs ∧ (t.step s).cameAt i = t.cameAt i ++ bs) := by
  rcases conns_of_step t s with hsame | ⟨l, d, hnew⟩ | ⟨k, c, c', hc, hset, hon⟩
  · unfold sentAt cameAt
    rw [hsame]
    exact ⟨List.prefix_refl _, .inl rfl⟩
  · unfold sentAt cameAt
    rw [hnew]
    rcases Nat.lt_trichotomy i t.conns.length with hlt | rfl | hgt
    · rw [List.getElem?_append_left hlt]
      exact ⟨List.prefix_refl _, .inl rfl⟩
    · rw [List.getElem?_concat_length, List.getElem?_eq_none (Nat.le_refl _)]
      exact ⟨List.nil_prefix, .inl rfl⟩
    · have hbeyond : (t.conns ++ [Conn.start l d])[i]? = none := by
        rw [List.getElem?_eq_none_iff, List.length_append, List.length_singleton]
        omega
      rw [hbeyond, List.getElem?_eq_none (Nat.le_of_lt hgt)]
      exact ⟨List.prefix_refl _, .inl rfl⟩
  · unfold sentAt cameAt
    rw [hset]
    obtain ⟨hk, -⟩ := List.getElem?_eq_some_iff.mp hc
    by_cases hi : k = i
    · subst hi
      rw [List.getElem?_set_self hk, hc]
      exact ⟨hon.sent, hon.came⟩
    · rw [List.getElem?_set_ne hi]
      exact ⟨List.prefix_refl _, .inl rfl⟩

end Tcp

namespace Duplex
variable {X : Crates} {P : Type}

def swap (w : Duplex X P) : Duplex X P := ⟨w.b, w.a, w.ba, w.ab⟩

end Duplex

def Move.swap {X : Crates} : Move X → Move X
  | .a i => .b i
  | .b i => .a i
  | .toA now seed => .toB now seed
  | .toB now seed => .toA now seed

namespace Duplex
variable {X : Crates} {P : Type} [Plugin P] {la lb : LinkId}

theorem step_swap (w : Duplex X P) (m : Move X) :
    w.swap.step lb la m.swap = (w.step la lb m).swap := by
  cases m with
  | a i | b i =>
    simp only [step, Move.swap]
    split <;> rfl
  | toA now seed | toB now seed =>
    simp only [step, Move.swap, swap]
    split <;> rfl

theorem run_swap (w : Duplex X P) (ms : List (Move X)) :
    Lib.run (step lb la) w.swap (ms.map Move.swap) = (Lib.run (step la lb) w ms).swap := by
  induction ms generalizing w with
  | nil => rfl
  | cons m ms ih => rw [List.map_cons, Lib.run_cons, Lib.run_cons, step_swap, ih]

theorem join_swap (a c : Core X P) (i j : Core.Input X) :
    (join la lb a c i j).swap = join lb la c a j i := rfl

end Duplex

section Story
variable {X : Crates} {P : Type} [Plugin P] {a₀ b₀ : Core X P} {ta tb : TransportId} {la lb : LinkId}
  {x x' y : Seat X P}

structure Untold (c₀ : Core X P) (l : LinkId) (c : Core X P) : Prop where
  reach : ∃ is, c = Lib.run Core.step c₀ is
  link : c.links[l]? = none

/-- One end is told and the other is not: whatever the other will be when it is told, the two are
in a state of the abstract link. -/
def Ahead (a₀ : Core X P) (la lb : LinkId) (x : Seat X P) : Prop :=
  ∃ (a : Core X P) (i : Core.Input X) (ms : List (Move X)), Untold a₀ la a ∧ x.up = some i.event ∧
    ∀ (c : Core X P) (j : Core.Input X),
      Lib.run (Duplex.step la lb) (Duplex.join la lb a c i j) ms =
        ⟨x.core, c.step j, x.asked, framesOn lb (c.handle j).2.actions⟩

/-- Both ends are told: the two cores are in a state of the abstract link, on which what is in
flight is what was asked at the one end and not yet heard at the other. -/
def Linked (a₀ b₀ : Core X P) (la lb : LinkId) (x y : Seat X P) : Prop :=
  ∃ (a c : Core X P) (i j : Core.Input X) (ms : List (Move X)), Untold a₀ la a ∧ Untold b₀ lb c ∧
    x.up = some i.event ∧ y.up = some j.event ∧ ∃ ab ba,
      Lib.run (Duplex.step la lb) (Duplex.join la lb a c i j) ms = ⟨x.core, y.core, ab, ba⟩ ∧
      y.heard ++ ab = x.asked ∧ x.heard ++ ba = y.asked

structure Story (a₀ b₀ : Core X P) (la lb : LinkId) (x y : Seat X P) : Prop where
  ahead : x.up ≠ none → y.up = none → Ahead a₀ la lb x
  behind : y.up ≠ none → x.up = none → Ahead b₀ lb la y
  both : x.up ≠ none → y.up ≠ none → Linked a₀ b₀ la lb x y

theorem Linked.symm (h : Linked a₀ b₀ la lb x y) : Linked b₀ a₀ lb la y x := by
  obtain ⟨a, c, i, j, ms, ha, hc, hx, hy, ab, ba, hrun, hab, hba⟩ := h
  refine ⟨c, a, j, i, ms.map Move.swap, hc, ha, hy, hx, ba, ab, ?_, hba, hab⟩
  rw [← Duplex.join_swap, Duplex.run_swap, hrun]
  rfl

theorem Story.symm (h : Story a₀ b₀ la lb x y) : Story b₀ a₀ lb la y x :=
  ⟨h.behind, h.ahead, fun hy hx => (h.both hx hy).symm⟩

structure Seat.Fresh (c₀ : Core X P) (l : LinkId) (s : Seat X P) : Prop where
  untold : Untold c₀ l s.core
  heard : s.heard = []
  asked : s.asked = []

theorem Ahead.other (h : Ahead a₀ la lb x) {i : Core.Input X} (hi : i.event.touches la = false) :
    Ahead a₀ la lb (x.after la i) := by
  obtain ⟨a, i₀, ms, ha, hx, hrun⟩ := h
  refine ⟨a, i₀, ms ++ [.a i], ha, hx, fun c j => ?_⟩
  rw [Lib.run_append, hrun]
  simp only [Lib.run_cons, Lib.run_nil, Duplex.step, hi, Bool.false_eq_true, if_false]
  rfl

theorem Linked.other (h : Linked a₀ b₀ la lb x y) {i : Core.Input X}
    (hi : i.event.touches la = false) : Linked a₀ b₀ la lb (x.after la i) y := by
  obtain ⟨a, c, i₀, j, ms, ha, hc, hx, hy, ab, ba, hrun, hab, hba⟩ := h
  refine ⟨a, c, i₀, j, ms ++ [.a i], ha, hc, hx, hy,
    ab ++ framesOn la (x.core.handle i).2.actions, ba, ?_, ?_, hba⟩
  · rw [Lib.run_append, hrun]
    simp only [Lib.run_cons, Lib.run_nil, Duplex.step, hi, Bool.false_eq_true, if_false]
    rfl
  · rw [← List.append_assoc, hab]
    rfl

theorem Linked.recv (h : Linked a₀ b₀ la lb x y) (now : Now) (seed : X.Seed) {m : Bytes}
    (hheard : x.heard ++ [m] <+: y.asked) : Linked a₀ b₀ la lb
      { x.after la ⟨now, seed, .linkRecv la m⟩ with heard := x.heard ++ [m] } y := by
  obtain ⟨a, c, i₀, j, ms, ha, hc, hx, hy, ab, ba, hrun, hab, hba⟩ := h
  obtain ⟨rest, hrest⟩ := hheard
  have hnext : ba = m :: rest := by
    rw [← hba, List.append_assoc] at hrest
    exact (List.append_cancel_left hrest).symm
  subst hnext
  refine ⟨a, c, i₀, j, ms ++ [.toA now seed], ha, hc, hx, hy,
    ab ++ framesOn la (x.core.handle ⟨now, seed, .linkRecv la m⟩).2.actions, rest, ?_, ?_, hrest⟩
  · rw [Lib.run_append, hrun]
    rfl
  · rw [← List.append_assoc, hab]
    rfl

theorem Ahead.start (h : x.Fresh a₀ la) (i : Core.Input X) :
    Ahead a₀ la lb { x.after la i with up := some i.event } := by
  refine ⟨x.core, i, [], h.untold, rfl, fun c j => ?_⟩
  simp only [Lib.run_nil, Duplex.join, Seat.after, h.asked, List.nil_append]

theorem Ahead.link (h : Ahead b₀ lb la y) (hx : x.Fresh a₀ la) (hy₀ : y.heard = [])
    (i : Core.Input X) :
    Linked a₀ b₀ la lb { x.after la i with up := some i.event } y := by
  obtain ⟨c, j, ms, hc, hy, hrun⟩ := h
  refine ⟨x.core, c, i, j, ms.map Move.swap, hx.untold, hc, rfl, hy,
    framesOn la (x.core.handle i).2.actions, y.asked, ?_, ?_, ?_⟩
  · rw [← Duplex.join_swap, Duplex.run_swap, hrun]
    rfl
  · simp only [hy₀, Seat.after, hx.asked, List.nil_append]
  · change x.heard ++ y.asked = y.asked
    rw [hx.heard, List.nil_append]

theorem Story.turn (h : Story a₀ b₀ la lb x y) (hx : x.up = none → x.Fresh a₀ la)
    (hy : y.up = none → y.Fresh b₀ lb) (hturn : Seat.Turn ta la x x') (hyx : y.heard <+: x.asked)
    (hxy : x'.heard <+: y.asked) : Story a₀ b₀ la lb x' y := by
  cases hturn with
  | aside => exact h
  | other i hi =>
    exact ⟨fun hup hno => (h.ahead hup hno).other hi, h.behind,
      fun hup hup' => (h.both hup hup').other hi⟩
  | up i dial he hbefore =>
    have hfresh := hx hbefore
    have hnoY : y.heard = [] := List.prefix_nil.mp (hfresh.asked ▸ hyx)
    refine ⟨fun _ _ => .start hfresh i, fun _ hno => ?_, fun _ hup' => ?_⟩
    · cases hno
    · exact (h.behind hup' hbefore).link hfresh hnoY i
  | recv now seed m hbefore =>
    refine ⟨fun _ hno => ?_, fun _ hno => absurd hno hbefore, fun _ hup' =>
      (h.both hbefore hup').recv now seed hxy⟩
    rw [(hy hno).asked] at hxy
    exact absurd (List.prefix_nil.mp hxy) (List.append_ne_nil_of_right_ne_nil _ (List.cons_ne_nil _ _))

end Story

namespace Runtime
variable {X : Crates} {P : Type} [Plugin P] {c₀ c₁ : Core X P} {i j : ℕ} {l l' : LinkId}
  {r r' : Runtime X P}

theorem Sound.fresh (h : r.Sound c₀ i l) (hup : (r.seat l).up = none) : (r.seat l).Fresh c₀ l := by
  have hnil : r.told l = [] := List.head?_eq_none_iff.mp hup
  obtain ⟨hlink, hasked⟩ := h.silent hnil
  refine ⟨⟨h.reach, hlink⟩, ?_, hasked⟩
  simp [seat, heard, hnil]

theorem Sound.heard_asked (h : r.Sound c₀ i l) (h' : r'.Sound c₁ j l')
    (hlen : r'.tcp.conns.length ≤ 2 ^ 48) (hcame : r'.tcp.cameAt j <+: r.tcp.sentAt i) :
    r'.heard l' <+: r.asked l := by
  obtain ⟨heardA, hA⟩ := h.tells
  obtain ⟨heardB, hB⟩ := h'.tells
  refine heard_prefix.trans ?_
  unfold Tcp.cameAt Tcp.sentAt at hcame
  cases hd : r'.tcp.conns[j]? with
  | none =>
    have hnone := hB.unreported hlen h'.small h'.link (by simp [hd])
    rw [Tcp.received, hnone]
    exact List.nil_prefix
  | some d =>
    obtain rfl : d.link = l' := (hB.ids j d hd).trans h'.link
    rw [hB.received hd]
    rw [hd] at hcame
    cases hc : r.tcp.conns[i]? with
    | none =>
      rw [hc] at hcame
      have hread := (hB.conns j d hd).read.drop
      have hnil : d.came = [] := List.prefix_nil.mp hcame
      rw [hnil] at hread
      obtain ⟨hframes, -⟩ := List.append_eq_nil_iff.mp hread.symm
      rw [Lib.Framing.eq_nil_of_frames (by decide) hframes]
      exact List.nil_prefix
    | some c =>
      rw [hc] at hcame
      calc heardB j <+: c.said.take c.told := hA.heard_prefix hB hc hd hcame
        _ <+: c.said := List.take_prefix _ _
        _ <+: Tcp.said l (r.cmds.take r.taken) := h.spoken.some_ c hc
        _ <+: r.asked l := (List.take_prefix _ _).filterMap _

omit [Plugin P] in
theorem at_of_own {t : Tcp} {s : Tcp.Step} (hs : ∀ bs, s ≠ .arrive i bs) :
    (t.step s).cameAt i = t.cameAt i ∧ t.sentAt i <+: (t.step s).sentAt i := by
  obtain ⟨hsent, hcame | ⟨bs, rfl, -⟩⟩ := Tcp.at_of_step t s i
  · exact ⟨hcame, hsent⟩
  · exact absurd rfl (hs bs)

theorem Sound.at_step (h : r.Sound c₀ i l) {s : Step X} (hs : Hosts.reserved i s = false) :
    (r.step s).tcp.cameAt i = r.tcp.cameAt i ∧ r.tcp.sentAt i <+: (r.step s).tcp.sentAt i := by
  cases s with
  | event now seed =>
    simp only [Runtime.step]
    split <;> exact ⟨rfl, List.prefix_refl _⟩
  | other e =>
    simp only [Runtime.step]
    split_ifs <;> exact ⟨rfl, List.prefix_refl _⟩
  | command =>
    simp only [Runtime.step]
    split
    · rename_i cmd hcmd
      refine at_of_own fun bs hcome => ?_
      have hown := h.commands cmd (List.mem_of_getElem? hcmd)
      rw [hcome] at hown
      cases hown
    · exact ⟨rfl, List.prefix_refl _⟩
  | transport s =>
    simp only [Runtime.step]
    split_ifs
    · refine at_of_own fun bs hcome => ?_
      subst hcome
      simp [Hosts.reserved] at hs
    · exact ⟨rfl, List.prefix_refl _⟩

theorem conns_length_step (r : Runtime X P) (s : Step X) :
    r.tcp.conns.length ≤ (r.step s).tcp.conns.length := by
  cases s with
  | event now seed =>
    simp only [Runtime.step]
    split <;> exact Nat.le_refl _
  | other e =>
    simp only [Runtime.step]
    split_ifs <;> exact Nat.le_refl _
  | command =>
    simp only [Runtime.step]
    split
    · exact Tcp.conns_length_step _ _
    · exact Nat.le_refl _
  | transport s =>
    simp only [Runtime.step]
    split_ifs
    · exact Tcp.conns_length_step _ _
    · exact Nat.le_refl _

theorem sound_new {b : CoreBuilder X P} {id : TransportId} (hi : i < 2 ^ 48) :
    (new b.build id).Sound b.build i (LinkId.new id (1 + i)) where
  link := rfl
  small := hi
  reach := ⟨[], rfl⟩
  tells := ⟨_, Tcp.told_new id⟩
  handled := Nat.le_refl _
  taken := Nat.le_refl _
  commands := fun _ hs => by cases hs
  silent := fun _ => ⟨by simp [new, CoreBuilder.build], rfl⟩
  spoken := ⟨fun _ hc => (by cases hc), fun _ hc => (by cases hc)⟩

end Runtime

namespace Hosts
variable {X : Crates} {P : Type} [Plugin P] {a₀ b₀ : Core X P} {i j : ℕ} {la lb : LinkId}
  {w : Hosts X P}

/-- Each end is as its own transport leaves it, and has at most what the other's connection sent. -/
structure Sound (a₀ b₀ : Core X P) (i j : ℕ) (la lb : LinkId) (w : Hosts X P) : Prop where
  a : w.a.Sound a₀ i la
  b : w.b.Sound b₀ j lb
  toA : w.a.tcp.cameAt i <+: w.b.tcp.sentAt j
  toB : w.b.tcp.cameAt j <+: w.a.tcp.sentAt i
  story : Story a₀ b₀ la lb (w.a.seat la) (w.b.seat lb)

def swap (w : Hosts X P) : Hosts X P := ⟨w.b, w.a⟩

theorem Sound.swap (h : w.Sound a₀ b₀ i j la lb) : w.swap.Sound b₀ a₀ j i lb la :=
  ⟨h.b, h.a, h.toB, h.toA, h.story.symm⟩

theorem Sound.host (h : w.Sound a₀ b₀ i j la lb) {s : Runtime.Step X}
    (hlenA : (w.a.step s).tcp.conns.length ≤ 2 ^ 48) (hlenB : w.b.tcp.conns.length ≤ 2 ^ 48)
    (hcame : (w.a.step s).tcp.cameAt i <+: w.b.tcp.sentAt j)
    (hsent : w.a.tcp.sentAt i <+: (w.a.step s).tcp.sentAt i) :
    Sound a₀ b₀ i j la lb { w with a := w.a.step s } := by
  obtain ⟨hsound, hturn⟩ := h.a.step hlenA
  have hyx := h.a.heard_asked h.b hlenB h.toB
  have hxy := h.b.heard_asked hsound hlenA hcame
  exact ⟨hsound, h.b, hcame, h.toB.trans hsent, h.story.turn h.a.fresh h.b.fresh hturn hyx hxy⟩

theorem Sound.stepA (h : w.Sound a₀ b₀ i j la lb) {s : Runtime.Step X}
    (hlenA : (w.step i j (.a s)).a.tcp.conns.length ≤ 2 ^ 48)
    (hlenB : w.b.tcp.conns.length ≤ 2 ^ 48) : (w.step i j (.a s)).Sound a₀ b₀ i j la lb := by
  simp only [step] at hlenA ⊢
  split_ifs with hs
  · exact h
  · rw [if_neg hs] at hlenA
    obtain ⟨hcame, hsent⟩ := h.a.at_step (Bool.eq_false_iff.mpr hs)
    exact h.host hlenA hlenB (hcame ▸ h.toA) hsent

theorem Sound.arriveA (h : w.Sound a₀ b₀ i j la lb) {n : ℕ}
    (hlenA : (w.step i j (.toA n)).a.tcp.conns.length ≤ 2 ^ 48)
    (hlenB : w.b.tcp.conns.length ≤ 2 ^ 48) : (w.step i j (.toA n)).Sound a₀ b₀ i j la lb := by
  set bs := ((w.b.tcp.sentAt j).drop (w.a.tcp.cameAt i).length).take n
  have hstep : w.step i j (.toA n) = { w with a := w.a.step (.transport (.arrive i bs)) } := rfl
  rw [hstep] at hlenA ⊢
  obtain ⟨hsent, hcame⟩ := Tcp.at_of_step w.a.tcp (.arrive i bs) i
  refine h.host hlenA hlenB ?_ hsent
  rcases hcame with hcame | ⟨bs', heq, hcame⟩
  · exact hcame ▸ h.toA
  · cases heq
    obtain ⟨rest, hrest⟩ := h.toA
    change (w.a.tcp.step (.arrive i bs)).cameAt i <+: _
    rw [hcame, ← hrest]
    refine (List.prefix_append_right_inj _).mpr ?_
    have hdrop : (w.b.tcp.sentAt j).drop (w.a.tcp.cameAt i).length = rest := by
      rw [← hrest, List.drop_left]
    exact hdrop ▸ List.take_prefix _ _

theorem Sound.step (h : w.Sound a₀ b₀ i j la lb) {s : Step X}
    (hlenA : (w.step i j s).a.tcp.conns.length ≤ 2 ^ 48)
    (hlenB : (w.step i j s).b.tcp.conns.length ≤ 2 ^ 48) :
    (w.step i j s).Sound a₀ b₀ i j la lb := by
  cases s with
  | a s =>
    refine h.stepA hlenA ?_
    simp only [Hosts.step] at hlenB
    split_ifs at hlenB <;> exact hlenB
  | toA n => exact h.arriveA hlenA hlenB
  | b s =>
    have hswap : (w.step i j (.b s)).swap = w.swap.step j i (.a s) := by
      simp only [Hosts.step]
      split_ifs <;> rfl
    have hlenA' : w.a.tcp.conns.length ≤ 2 ^ 48 := by
      simp only [Hosts.step] at hlenA
      split_ifs at hlenA <;> exact hlenA
    have hsound := h.swap.stepA (s := s) (hswap ▸ hlenB) hlenA'
    rw [← hswap] at hsound
    exact hsound.swap
  | toB n => exact (h.swap.arriveA (n := n) hlenB hlenA).swap

theorem conns_length_step (s : Step X) :
    w.a.tcp.conns.length ≤ (w.step i j s).a.tcp.conns.length ∧
      w.b.tcp.conns.length ≤ (w.step i j s).b.tcp.conns.length := by
  cases s with
  | a s =>
    simp only [step]
    split_ifs
    · exact ⟨Nat.le_refl _, Nat.le_refl _⟩
    · exact ⟨Runtime.conns_length_step w.a s, Nat.le_refl _⟩
  | b s =>
    simp only [step]
    split_ifs
    · exact ⟨Nat.le_refl _, Nat.le_refl _⟩
    · exact ⟨Nat.le_refl _, Runtime.conns_length_step w.b s⟩
  | toA n => exact ⟨Tcp.conns_length_step _ _, Nat.le_refl _⟩
  | toB n => exact ⟨Nat.le_refl _, Tcp.conns_length_step _ _⟩

theorem sound_start {ba bb : CoreBuilder X P} {ta tb : TransportId} (hi : i < 2 ^ 48)
    (hj : j < 2 ^ 48) : (start ba.build bb.build ta tb).Sound ba.build bb.build i j
      (LinkId.new ta (1 + i)) (LinkId.new tb (1 + j)) where
  a := Runtime.sound_new hi
  b := Runtime.sound_new hj
  toA := List.prefix_refl _
  toB := List.prefix_refl _
  story := ⟨fun hup _ => absurd rfl hup, fun hup _ => absurd rfl hup, fun hup _ => absurd rfl hup⟩

theorem sound_run {ba bb : CoreBuilder X P} {ta tb : TransportId} {ss : List (Step X)}
    (hi : i < 2 ^ 48) (hj : j < 2 ^ 48)
    (hlenA : (Lib.run (step i j) (start ba.build bb.build ta tb) ss).a.tcp.conns.length ≤ 2 ^ 48)
    (hlenB : (Lib.run (step i j) (start ba.build bb.build ta tb) ss).b.tcp.conns.length ≤ 2 ^ 48) :
    (Lib.run (step i j) (start ba.build bb.build ta tb) ss).Sound ba.build bb.build i j
      (LinkId.new ta (1 + i)) (LinkId.new tb (1 + j)) := by
  induction ss using List.reverseRecOn with
  | nil => exact sound_start hi hj
  | append_singleton ss s ih =>
    rw [Lib.run_append] at hlenA hlenB ⊢
    obtain ⟨hgrowA, hgrowB⟩ := conns_length_step (i := i) (j := j)
      (w := Lib.run (step i j) (start ba.build bb.build ta tb) ss) s
    exact (ih (Nat.le_trans hgrowA hlenA) (Nat.le_trans hgrowB hlenB)).step hlenA hlenB

end Hosts

namespace Runtime
variable {X : Crates} {P : Type} [Plugin P] {c₀ : Core X P} {i : ℕ} {l : LinkId} {r : Runtime X P}

theorem Sound.id_eq {id n : ℕ} (h : r.Sound c₀ i (LinkId.new id n)) : r.tcp.id = id := by
  have hlink := congrArg LinkId.transport h.link
  rwa [transport_new, transport_new] at hlink

/-- The first that a core was told of a link is that it is up, and from which dial. -/
theorem Sound.first (h : r.Sound c₀ i l) {c : Tcp.Conn} (hc : r.tcp.conns[i]? = some c) {e : Event}
    (he : (r.seat l).up = some e) : e = .linkUp l (.tcpLan r.tcp.id) c.dial := by
  obtain ⟨heard, htold⟩ := h.tells
  obtain rfl : c.link = l := (htold.ids i c hc).trans h.link
  obtain ⟨later, hlater⟩ := told_prefix (r := r) (l := c.link)
  obtain ⟨rest, hrest⟩ := List.head?_eq_some_iff.mp he
  rw [hrest, htold.story i c hc, Tcp.Conn.story] at hlater
  split at hlater
  · cases hlater
  · cases hlater
  all_goals exact (List.cons.inj hlater).1

end Runtime

/-- Two hosts with a TCP connection between them, whatever the order in which their tasks get on and
however the bytes come: once both cores were told of it, they are in a state of the abstract link,
entered by a dial and an accept of cores that had no such link, and what is in flight is what the
one asked to be said and the other has not heard. -/
theorem hosts_refine_duplex {X : Crates} {P : Type} [Plugin P] (left right : CoreBuilder X P)
    (ta tb : TransportId) {i j : ℕ} (ss : List (Hosts.Step X)) {w : Hosts X P}
    (hw : w = Lib.run (Hosts.step i j) (Hosts.start left.build right.build ta tb) ss)
    (hlenA : w.a.tcp.conns.length ≤ 2 ^ 48) (hlenB : w.b.tcp.conns.length ≤ 2 ^ 48)
    {c d : Tcp.Conn} (hc : w.a.tcp.conns[i]? = some c) (hd : w.b.tcp.conns[j]? = some d)
    (hupA : w.a.told c.link ≠ []) (hupB : w.b.told d.link ≠ []) :
    ∃ (is js : List (Core.Input X)) (p q : Core.Input X) (ms : List (Move X)) (out back : List Bytes),
      (left.build.run is).links[c.link]? = none ∧ (right.build.run js).links[d.link]? = none ∧
      p.event = .linkUp c.link (.tcpLan ta) c.dial ∧ q.event = .linkUp d.link (.tcpLan tb) d.dial ∧
      Lib.run (Duplex.step c.link d.link)
        (Duplex.join c.link d.link (left.build.run is) (right.build.run js) p q) ms =
          ⟨w.a.core, w.b.core, out, back⟩ ∧
      w.b.heard d.link ++ out = w.a.asked c.link ∧ w.a.heard c.link ++ back = w.b.asked d.link := by
  obtain ⟨hi, -⟩ := List.getElem?_eq_some_iff.mp hc
  obtain ⟨hj, -⟩ := List.getElem?_eq_some_iff.mp hd
  subst hw
  have hsound := Hosts.sound_run (Nat.lt_of_lt_of_le hi hlenA) (Nat.lt_of_lt_of_le hj hlenB) hlenA hlenB
  set w := Lib.run (Hosts.step i j) (Hosts.start left.build right.build ta tb) ss
  have hida : w.a.tcp.id = ta := hsound.a.id_eq
  have hidb : w.b.tcp.id = tb := hsound.b.id_eq
  obtain ⟨heardA, hA⟩ := hsound.a.tells
  obtain ⟨heardB, hB⟩ := hsound.b.tells
  have hcl : c.link = LinkId.new ta (1 + i) := hida ▸ hA.ids i c hc
  have hdl : d.link = LinkId.new tb (1 + j) := hidb ▸ hB.ids j d hd
  rw [← hcl, ← hdl] at hsound
  have hseat : ∀ {r : Runtime X P} {l : LinkId}, r.told l ≠ [] → (r.seat l).up ≠ none :=
    fun hup hnone => hup (List.head?_eq_none_iff.mp hnone)
  obtain ⟨a, b, p, q, ms, ⟨⟨is, rfl⟩, hla⟩, ⟨⟨js, rfl⟩, hlb⟩, hp, hq, out, back, hrun, hout, hback⟩ :=
    hsound.story.both (hseat hupA) (hseat hupB)
  have hp' := hsound.a.first hc hp
  have hq' := hsound.b.first hd hq
  rw [hida] at hp'
  rw [hidb] at hq'
  exact ⟨is, js, p, q, ms, out, back, hla, hlb, hp', hq', hrun, hout, hback⟩

namespace Mock

def callHosts : List (Hosts.Step crates) :=
  [.a (.other (at_ 1 0 (.localCommand (.requestPairing 1 "10.0.0.5")))), .a .command,
    .a (.transport (.dialled 0 .connected)), .b (.transport .accept),
    .a (.transport (.task 0 .register)), .a (.transport (.task 0 .announce)),
    .a (.event ⟨1, 1⟩ (7 : UInt8)), .a .command, .a (.transport (.task 0 .take)),
    .a (.transport (.task 0 (.put 400))), .b (.transport (.task 0 .register)),
    .b (.transport (.task 0 .announce)), .b (.event ⟨1, 1⟩ (8 : UInt8)), .toB 3,
    .b (.transport (.task 0 .read)), .toB 400, .b (.transport (.task 0 .read)),
    .b (.event ⟨1, 1⟩ (9 : UInt8))]

def called : Hosts crates Unit :=
  Lib.run (Hosts.step 0 0) (Hosts.start (fresh 1 []).build (fresh 5 []).build 1 1) callHosts

/-- The other heard it. -/
theorem called_hears : ∃ c d : Tcp.Conn, c.dial = some 1 ∧ d.dial = none ∧
    (called.b.heard d.link).length = 1 ∧
    ∃ (is js : List (Core.Input crates)) (p q : Core.Input crates) (ms : List (Move crates))
      (out back : List Bytes),
      ((fresh 1 []).build.run is : Core crates Unit).links[c.link]? = none ∧
      ((fresh 5 []).build.run js : Core crates Unit).links[d.link]? = none ∧
      p.event = .linkUp c.link (.tcpLan 1) c.dial ∧ q.event = .linkUp d.link (.tcpLan 1) d.dial ∧
      Lib.run (Duplex.step c.link d.link)
        (Duplex.join c.link d.link ((fresh 1 []).build.run is) ((fresh 5 []).build.run js) p q) ms =
          ⟨called.a.core, called.b.core, out, back⟩ ∧
      called.b.heard d.link ++ out = called.a.asked c.link ∧
      called.a.heard c.link ++ back = called.b.asked d.link := by
  obtain ⟨c, hc⟩ := Option.isSome_iff_exists.mp
    (show (called.a.tcp.conns[0]?).isSome by decide +kernel)
  obtain ⟨d, hd⟩ := Option.isSome_iff_exists.mp
    (show (called.b.tcp.conns[0]?).isSome by decide +kernel)
  have hcl : (called.a.tcp.conns[0]?).map (fun c => (c.link, c.dial)) =
      some (LinkId.new 1 1, some 1) := by decide +kernel
  have hdl : (called.b.tcp.conns[0]?).map (fun d => (d.link, d.dial)) =
      some (LinkId.new 1 1, none) := by decide +kernel
  rw [hc] at hcl
  rw [hd] at hdl
  obtain ⟨hcl, hcd⟩ := Prod.mk.inj (Option.some.inj hcl)
  obtain ⟨hdl, hdd⟩ := Prod.mk.inj (Option.some.inj hdl)
  refine ⟨c, d, hcd, hdd, ?_, hosts_refine_duplex (fresh 1 []) (fresh 5 []) 1 1 callHosts rfl
    ?_ ?_ hc hd ?_ ?_⟩
  · rw [hdl]
    decide +kernel
  · decide +kernel
  · decide +kernel
  · rw [hcl]
    decide +kernel
  · rw [hdl]
    decide +kernel

end Mock
end Acrylius
