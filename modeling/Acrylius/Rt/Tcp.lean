import Acrylius.Core.Conduct
import Acrylius.Lib.Framing
import Acrylius.Lib.Numbered
import Acrylius.Lib.Run
import Acrylius.Lib.Table
import Mathlib.Data.List.Perm.Basic

/-! The TCP transport (`acrylius-rt`, `tcp.rs`): the connections it serves, the writers its commands
find, and what it reports. What a task does between two waits is one step, and the tasks take
their steps in any order; what is advertised and discovered is elsewhere. -/
namespace Acrylius
open Proto Std

namespace Tcp

def maxFrame : ℕ := 1048576

/-- Where `serve` stands: its link is not yet among the writers, not yet reported, served, no
longer served for a reason, no longer among the writers, reported as down. -/
inductive Stage where
  | started
  | listed
  | serving
  | left (reason : LinkDownReason)
  | unlisted (reason : LinkDownReason)
  | down (reason : LinkDownReason)
deriving DecidableEq

/-- One connection: the bytes of its socket in both directions, and the tasks at this end. -/
structure Conn where
  link : LinkId
  dial : Option DialToken
  stage : Stage
  /-- What has come from the other end, and how much of it is read. -/
  came : Bytes
  taken : ℕ
  /-- The other end will send nothing more. -/
  ended : Bool
  /-- What was ever put into the writer's channel, and how much of it the writer took out. -/
  said : List Bytes
  told : ℕ
  /-- The writer has not come to its end. -/
  writing : Bool
  /-- What is left of the message being written, and all that was written. -/
  unsent : Bytes
  sent : Bytes

namespace Conn

def start (link : LinkId) (dial : Option DialToken) : Conn where
  link := link
  dial := dial
  stage := .started
  came := []
  taken := 0
  ended := false
  said := []
  told := 0
  writing := false
  unsent := []
  sent := []

/-- Bytes come, as long as the other end may send. -/
def arrive (c : Conn) (bs : Bytes) : Conn :=
  if c.ended then c else { c with came := c.came ++ bs }

/-- The writer waits for its next message. Without one it ends, once nobody can send it any. -/
def take (c : Conn) (reachable : Bool) : Conn :=
  if c.writing && c.unsent.isEmpty then
    match c.said[c.told]? with
    | some msg =>
      if msg.length < 2 ^ 32 then
        { c with told := c.told + 1, unsent := Lib.Framing.frame 4 msg }
      else { c with writing := false }
    | none => if reachable then c else { c with writing := false }
  else c

/-- `write_all` gets some bytes further. -/
def put (c : Conn) (n : ℕ) : Conn :=
  if c.writing then { c with sent := c.sent ++ c.unsent.take n, unsent := c.unsent.drop n } else c

def stopWriting (c : Conn) : Conn := { c with writing := false }

def tooBig (n : ℕ) : LinkDownReason :=
  .transport ("frame of " ++ Nat.repr n ++ " bytes exceeds the " ++ Nat.repr maxFrame ++ " cap")

/-- `read_frame` comes back, if it can. The end of the stream in the middle of a frame is an end
of the stream. -/
def read (c : Conn) : Conn × Option Bytes :=
  match c.stage, Lib.Framing.next 4 maxFrame (c.came.drop c.taken) with
  | .serving, .one msg _ => ({ c with taken := c.taken + (4 + msg.length) }, some msg)
  | .serving, .tooBig n => ({ c with stage := .left (tooBig n) }, none)
  | .serving, .more => (if c.ended then { c with stage := .left .closed } else c, none)
  | _, _ => (c, none)

def readFails (c : Conn) (e : String) : Conn :=
  match c.stage with
  | .serving => { c with stage := .left (.transport e) }
  | _ => c

/-- The writer is at its end, which is the end of the link. -/
def writerOver (c : Conn) : Conn :=
  match c.stage with
  | .serving => if c.writing then c else { c with stage := .left .closed }
  | _ => c

end Conn
end Tcp

inductive Dialled where
  | unresolved
  | refused (reason : String)
  | connected

structure Tcp where
  id : TransportId
  nextLink : ℕ
  /-- The dials under way, and where they go. -/
  dials : List (DialToken × String)
  conns : List Tcp.Conn
  /-- Which connection's writer a command for a link finds. -/
  writers : ExtTreeMap LinkId ℕ
  log : List Event

namespace Tcp

def new (id : TransportId) : Tcp where
  id := id
  nextLink := 1
  dials := []
  conns := []
  writers := ∅
  log := []

def send (t : Tcp) (e : Event) : Tcp := { t with log := t.log ++ [e] }

def setConn (t : Tcp) (i : ℕ) (c : Conn) : Tcp := { t with conns := t.conns.set i c }

def onConn (t : Tcp) (i : ℕ) (f : Conn → Conn) : Tcp :=
  match t.conns[i]? with
  | some c => t.setConn i (f c)
  | none => t

/-- `next_link`, and the task that serves the connection. -/
def spawn (t : Tcp) (dial : Option DialToken) : Tcp :=
  { t with
    nextLink := (t.nextLink + 1) % 2 ^ 64
    conns := t.conns ++ [.start (LinkId.new t.id t.nextLink) dial] }

def dialled (t : Tcp) (i : ℕ) (outcome : Dialled) : Tcp :=
  match t.dials[i]? with
  | none => t
  | some (dial, addr) =>
    let t := { t with dials := t.dials.eraseIdx i }
    match outcome with
    | .unresolved => t.send (.dialFailed dial ("could not resolve " ++ addr))
    | .refused reason => t.send (.dialFailed dial reason)
    | .connected => t.spawn (some dial)

def sendCmd (t : Tcp) (link : LinkId) (msg : Bytes) : Tcp :=
  match t.writers[link]? with
  | none => t
  | some i => t.onConn i fun c => { c with said := c.said ++ [msg] }

/-- `TransportCmd::Close`: nothing more can be said, and the writer ends after what was. -/
def closeCmd (t : Tcp) (link : LinkId) : Tcp := { t with writers := t.writers.erase link }

inductive Task where
  | register
  | announce
  | take
  | put (n : ℕ)
  | writeFails
  | read
  | readFails (e : String)
  | writerOver
  | unlist
  | report
  /-- A writer that was aborted comes to a wait. -/
  | aborted

def task (t : Tcp) (i : ℕ) (c : Conn) : Task → Tcp
  | .register =>
    match c.stage with
    | .started =>
      { t with writers := t.writers.insert c.link i }.setConn i { c with stage := .listed }
    | _ => t
  | .announce =>
    match c.stage with
    | .listed => (t.setConn i { c with stage := .serving, writing := true }).send
        (.linkUp c.link (.tcpLan t.id) c.dial)
    | _ => t
  | .take => t.setConn i (c.take (t.writers[c.link]? = some i))
  | .put n => t.setConn i (c.put n)
  | .writeFails => t.setConn i c.stopWriting
  | .read =>
    match c.read with
    | (c', some msg) => (t.setConn i c').send (.linkRecv c.link msg)
    | (c', none) => t.setConn i c'
  | .readFails e => t.setConn i (c.readFails e)
  | .writerOver => t.setConn i c.writerOver
  | .unlist =>
    match c.stage with
    | .left reason =>
      { t with writers := t.writers.erase c.link }.setConn i { c with stage := .unlisted reason }
    | _ => t
  | .report =>
    match c.stage with
    | .unlisted reason => (t.setConn i { c with stage := .down reason }).send
        (.linkDown c.link reason)
    | _ => t
  | .aborted =>
    match c.stage with
    | .down _ => t.setConn i c.stopWriting
    | _ => t

inductive Step where
  | dial (dial : DialToken) (addr : String)
  | send (link : LinkId) (msg : Bytes)
  | close (link : LinkId)
  /-- A connection comes in. -/
  | accept
  | dialled (i : ℕ) (outcome : Dialled)
  /-- Bytes come on a connection, or the last of them has come. -/
  | arrive (i : ℕ) (bs : Bytes)
  | hangUp (i : ℕ)
  | task (i : ℕ) (task : Task)

def step (t : Tcp) : Step → Tcp
  | .dial dial addr => { t with dials := t.dials ++ [(dial, addr)] }
  | .send link msg => t.sendCmd link msg
  | .close link => t.closeCmd link
  | .accept => t.spawn none
  | .dialled i outcome => t.dialled i outcome
  | .arrive i bs => t.onConn i (·.arrive bs)
  | .hangUp i => t.onConn i fun c => { c with ended := true }
  | .task i task =>
    match t.conns[i]? with
    | some c => t.task i c task
    | none => t

def link? : Event → Option LinkId
  | .linkUp link _ _ | .linkRecv link _ | .linkDown link _ => some link
  | _ => none

def Conn.story (c : Conn) (id : TransportId) (heard : List Bytes) : List Event :=
  match c.stage with
  | .started | .listed => []
  | .serving | .left _ | .unlisted _ =>
    .linkUp c.link (.tcpLan id) c.dial :: heard.map (.linkRecv c.link)
  | .down reason =>
    .linkUp c.link (.tcpLan id) c.dial :: heard.map (.linkRecv c.link) ++ [.linkDown c.link reason]

structure Conn.Sound (c : Conn) (heard : List Bytes) : Prop where
  read : Lib.Framing.Read 4 maxFrame c.came c.taken heard
  silent : c.stage = .started ∨ c.stage = .listed → heard = []
  told : c.told ≤ c.said.length
  sent : c.sent ++ c.unsent = Lib.Framing.frames 4 (c.said.take c.told)
  fits : ∀ m ∈ c.said.take c.told, m.length < 256 ^ 4

def Stage.Found : Stage → Prop
  | .listed | .serving | .left _ => True
  | _ => False

/-- What a transport has reported is what happened on its connections: each link comes up, hears
what its connection carries, and goes down, and no two have one id. -/
structure Told (t : Tcp) (heard : ℕ → List Bytes) : Prop where
  next : t.nextLink = (1 + t.conns.length) % 2 ^ 64
  ids : ∀ (i : ℕ) (c : Conn), t.conns[i]? = some c → c.link = LinkId.new t.id (1 + i)
  conns : ∀ (i : ℕ) (c : Conn), t.conns[i]? = some c → c.Sound (heard i)
  story : ∀ (i : ℕ) (c : Conn), t.conns[i]? = some c →
    t.log.filter (link? · = some c.link) = c.story t.id (heard i)
  only : ∀ e ∈ t.log, ∀ l, link? e = some l →
    ∃ (i : ℕ) (c : Conn), t.conns[i]? = some c ∧ c.link = l
  found : ∀ (l : LinkId) (i : ℕ), t.writers[l]? = some i →
    ∃ c : Conn, t.conns[i]? = some c ∧ c.link = l ∧ c.stage.Found

theorem LinkId.new_inj {transport i j : ℕ} (hi : i < 2 ^ 48) (hj : j < 2 ^ 48)
    (h : LinkId.new transport (1 + i) = LinkId.new transport (1 + j)) : i = j := by
  have hmod : (1 + i) % 2 ^ 48 = (1 + j) % 2 ^ 48 := Nat.add_left_cancel h
  omega

variable {t : Tcp} {heard : ℕ → List Bytes} {i : ℕ} {c c' : Conn} {es : List Event}

/-- One connection goes on, and what is reported is about it. -/
theorem Told.goOn (h : t.Told heard) (hlen : t.conns.length ≤ 2 ^ 48) (hc : t.conns[i]? = some c)
    (hlink : c'.link = c.link) {ms : List Bytes} (hsound : c'.Sound ms)
    (hes : ∀ e ∈ es, link? e = some c.link)
    (hstory : c'.story t.id ms = c.story t.id (heard i) ++ es) {writers : ExtTreeMap LinkId ℕ}
    (hfound : ∀ (l : LinkId) (j : ℕ), writers[l]? = some j → if j = i then l = c.link ∧ c'.stage.Found
      else t.writers[l]? = some j) :
    Told { t with conns := t.conns.set i c', log := t.log ++ es, writers }
      (Function.update heard i ms) := by
  obtain ⟨hi, -⟩ := List.getElem?_eq_some_iff.mp hc
  have hself : (t.conns.set i c')[i]? = some c' := List.getElem?_set_self hi
  have hother : ∀ j, j ≠ i → (t.conns.set i c')[j]? = t.conns[j]? :=
    fun j hj => List.getElem?_set_ne hj.symm
  have hapart : ∀ j d, j ≠ i → t.conns[j]? = some d → d.link ≠ c.link := by
    intro j d hj hd heq
    obtain ⟨hj', -⟩ := List.getElem?_eq_some_iff.mp hd
    rw [h.ids j d hd, h.ids i c hc] at heq
    exact hj (LinkId.new_inj (by omega) (by omega) heq)
  constructor
  · show t.nextLink = (1 + (t.conns.set i c').length) % 2 ^ 64
    rw [List.length_set]
    exact h.next
  · intro j d hd
    by_cases hj : j = i
    · subst hj
      obtain rfl := Option.some.inj (hself.symm.trans hd)
      rw [hlink, h.ids j c hc]
    · exact h.ids j d ((hother j hj).symm.trans hd)
  · intro j d hd
    by_cases hj : j = i
    · subst hj
      obtain rfl := Option.some.inj (hself.symm.trans hd)
      rwa [Function.update_self]
    · rw [Function.update_of_ne hj]
      exact h.conns j d ((hother j hj).symm.trans hd)
  · intro j d hd
    show (t.log ++ es).filter _ = _
    rw [List.filter_append]
    by_cases hj : j = i
    · subst hj
      obtain rfl := Option.some.inj (hself.symm.trans hd)
      have hall : es.filter (link? · = some c'.link) = es := by
        rw [List.filter_eq_self]
        intro e he
        simp [hes e he, hlink]
      rw [Function.update_self, hstory, hall, hlink, h.story j c hc]
    · have hd' := (hother j hj).symm.trans hd
      have hnone : es.filter (link? · = some d.link) = [] := by
        rw [List.filter_eq_nil_iff]
        intro e he
        simp [hes e he, Ne.symm (hapart j d hj hd')]
      rw [Function.update_of_ne hj, hnone, List.append_nil]
      exact h.story j d hd'
  · intro e he l hl
    rcases List.mem_append.mp he with he | he
    · obtain ⟨j, d, hd, hdl⟩ := h.only e he l hl
      by_cases hj : j = i
      · subst hj
        obtain rfl := Option.some.inj (hc.symm.trans hd)
        exact ⟨j, c', hself, hlink.trans hdl⟩
      · exact ⟨j, d, (hother j hj).trans hd, hdl⟩
    · rw [hes e he] at hl
      exact ⟨i, c', hself, hlink.trans (Option.some.inj hl)⟩
  · intro l j hj
    have hcase := hfound l j hj
    by_cases hji : j = i
    · rw [if_pos hji] at hcase
      subst hji
      exact ⟨c', hself, hlink.trans hcase.1.symm, hcase.2⟩
    · rw [if_neg hji] at hcase
      obtain ⟨d, hd, hdl⟩ := h.found l j hcase
      exact ⟨d, (hother j hji).trans hd, hdl⟩

section Conn

theorem Conn.Sound.say {ms : List Bytes} (h : c.Sound ms) (msg : Bytes) :
    Conn.Sound { c with said := c.said ++ [msg] } ms := by
  have htake : (c.said ++ [msg]).take c.told = c.said.take c.told :=
    List.take_append_of_le_length h.told
  refine ⟨h.read, h.silent, ?_, ?_, ?_⟩
  · have hle := h.told
    simp only [List.length_append, List.length_singleton]
    omega
  · simp only [htake]
    exact h.sent
  · simp only [htake]
    exact h.fits

theorem Conn.Sound.arrive {ms : List Bytes} (h : c.Sound ms) (bs : Bytes) :
    (c.arrive bs).Sound ms := by
  unfold Conn.arrive
  split
  · exact h
  · exact ⟨h.read.append bs, h.silent, h.told, h.sent, h.fits⟩

theorem Conn.Sound.of_stage {ms : List Bytes} (h : c.Sound ms) {stage : Stage}
    (hs : stage = .started ∨ stage = .listed → c.stage = .started ∨ c.stage = .listed)
    (ended writing : Bool) : Conn.Sound { c with stage, ended, writing } ms :=
  ⟨h.read, fun hstage => h.silent (hs hstage), h.told, h.sent, h.fits⟩

theorem Conn.Sound.take {ms : List Bytes} (h : c.Sound ms) (reachable : Bool) :
    (c.take reachable).Sound ms := by
  unfold Conn.take
  split
  · rename_i hready
    have hunsent : c.unsent = [] := by simpa using (Bool.and_eq_true_iff.mp hready).2
    cases hnext : c.said[c.told]? with
    | none =>
      dsimp only
      split
      · exact h
      · exact ⟨h.read, h.silent, h.told, h.sent, h.fits⟩
    | some msg =>
      dsimp only
      split
      · rename_i hfits
        obtain ⟨hlt, -⟩ := List.getElem?_eq_some_iff.mp hnext
        have htake : c.said.take (c.told + 1) = c.said.take c.told ++ [msg] := by
          rw [List.take_add_one, hnext]
          rfl
        refine ⟨h.read, h.silent, hlt, ?_, ?_⟩
        · have hsent := h.sent
          rw [hunsent, List.append_nil] at hsent
          simp only [htake, Lib.Framing.frames_append, Lib.Framing.frames_cons,
            Lib.Framing.frames_nil, List.append_nil, hsent]
        · intro m hm
          simp only [htake] at hm
          rcases List.mem_append.mp hm with hm | hm
          · exact h.fits m hm
          · rw [List.mem_singleton.mp hm]
            omega
      · exact ⟨h.read, h.silent, h.told, h.sent, h.fits⟩
  · exact h

theorem Conn.Sound.put {ms : List Bytes} (h : c.Sound ms) (n : ℕ) : (c.put n).Sound ms := by
  unfold Conn.put
  split
  · refine ⟨h.read, h.silent, h.told, ?_, h.fits⟩
    simp only [List.append_assoc, List.take_append_drop]
    exact h.sent
  · exact h

/-- A message that is read is the next of the stream. -/
theorem Conn.Sound.hear {ms : List Bytes} (h : c.Sound ms) {msg rest : Bytes}
    (hserving : c.stage = .serving)
    (hnext : Lib.Framing.next 4 maxFrame (c.came.drop c.taken) = .one msg rest) :
    Conn.Sound { c with taken := c.taken + (4 + msg.length) } (ms ++ [msg]) := by
  refine ⟨h.read.next hnext, ?_, h.told, h.sent, h.fits⟩
  intro hstage
  simp [hserving] at hstage

end Conn

/-- One connection goes on, and there is nothing to report. -/
theorem Told.goOn_silent (h : t.Told heard) (hlen : t.conns.length ≤ 2 ^ 48)
    (hc : t.conns[i]? = some c) (hlink : c'.link = c.link) (hsound : c'.Sound (heard i))
    (hstory : c'.story t.id (heard i) = c.story t.id (heard i)) {writers : ExtTreeMap LinkId ℕ}
    (hfound : ∀ (l : LinkId) (j : ℕ), writers[l]? = some j → if j = i then l = c.link ∧ c'.stage.Found
      else t.writers[l]? = some j) :
    Told { t with conns := t.conns.set i c', writers } heard := by
  have hstep : Told { t with conns := t.conns.set i c', log := t.log ++ [], writers }
      (Function.update heard i (heard i)) := by
    refine h.goOn hlen hc hlink hsound (fun e he => absurd he List.not_mem_nil) ?_ hfound
    rw [hstory, List.append_nil]
  rwa [Function.update_eq_self, List.append_nil] at hstep

/-- The writers stay, and the connection is still found if it was. -/
theorem Told.found_of_same (h : t.Told heard) (hc : t.conns[i]? = some c)
    (hfound : c.stage.Found → c'.stage.Found) (l : LinkId) (j : ℕ) (hj : t.writers[l]? = some j) :
    if j = i then l = c.link ∧ c'.stage.Found else t.writers[l]? = some j := by
  by_cases hji : j = i
  · subst hji
    rw [if_pos rfl]
    obtain ⟨d, hd, hdl, hdf⟩ := h.found l j hj
    obtain rfl := Option.some.inj (hc.symm.trans hd)
    exact ⟨hdl.symm, hfound hdf⟩
  · rwa [if_neg hji]

theorem Told.goOn_same (h : t.Told heard) (hlen : t.conns.length ≤ 2 ^ 48)
    (hc : t.conns[i]? = some c) (hlink : c'.link = c.link) (hsound : c'.Sound (heard i))
    (hfound : c.stage.Found → c'.stage.Found)
    (hstory : c'.story t.id (heard i) = c.story t.id (heard i)) : (t.setConn i c').Told heard :=
  h.goOn_silent hlen hc hlink hsound hstory (h.found_of_same hc hfound)

/-- A connection that is served, and is not any more, has been told of in full. -/
theorem Told.leave (h : t.Told heard) (hlen : t.conns.length ≤ 2 ^ 48) (hc : t.conns[i]? = some c)
    (hs : c.stage = .serving) (reason : LinkDownReason) :
    (t.setConn i { c with stage := .left reason }).Told heard := by
  refine h.goOn_same hlen hc (by rfl) ?_ (fun _ => trivial) ?_
  · refine (h.conns i c hc).of_stage ?_ c.ended c.writing
    rintro (h | h) <;> cases h
  · simp only [Conn.story, hs]

theorem Told.read (h : t.Told heard) (hlen : t.conns.length ≤ 2 ^ 48) (hc : t.conns[i]? = some c) :
    ∃ heard', (t.task i c .read).Told heard' := by
  have hsame : t.setConn i c = t := by
    obtain ⟨hi, rfl⟩ := List.getElem?_eq_some_iff.mp hc
    simp only [setConn, List.set_getElem_self]
  by_cases hs : c.stage = .serving
  · cases hnext : Lib.Framing.next 4 maxFrame (c.came.drop c.taken) with
    | one msg rest =>
      have hread : c.read = ({ c with taken := c.taken + (4 + msg.length) }, some msg) := by
        simp only [Conn.read, hs, hnext]
      refine ⟨Function.update heard i (heard i ++ [msg]), ?_⟩
      simp only [Tcp.task, hread, setConn, send]
      refine h.goOn hlen hc (by rfl) ((h.conns i c hc).hear hs hnext) ?_ ?_ ?_
      · intro e he
        rw [List.mem_singleton.mp he]
        rfl
      · simp only [Conn.story, hs, List.map_append, List.map_cons, List.map_nil, List.cons_append]
      · exact h.found_of_same hc fun hf => hf
    | tooBig n =>
      have hread : c.read = ({ c with stage := .left (Conn.tooBig n) }, none) := by
        simp only [Conn.read, hs, hnext]
      refine ⟨heard, ?_⟩
      simp only [Tcp.task, hread]
      exact h.leave hlen hc hs (Conn.tooBig n)
    | more =>
      have hread : c.read = (if c.ended then { c with stage := .left .closed } else c, none) := by
        simp only [Conn.read, hs, hnext]
      refine ⟨heard, ?_⟩
      simp only [Tcp.task, hread]
      by_cases hended : c.ended
      · rw [if_pos hended]
        exact h.leave hlen hc hs .closed
      · rw [if_neg hended, hsame]
        exact h
  · have hread : c.read = (c, none) := by
      unfold Conn.read
      split
      · exact absurd ‹_› hs
      · exact absurd ‹_› hs
      · exact absurd ‹_› hs
      · rfl
    refine ⟨heard, ?_⟩
    simp only [Tcp.task, hread, hsame]
    exact h

/-- Another stage in which nothing more has been said of the connection. -/
theorem Told.restage (h : t.Told heard) (hc : t.conns[i]? = some c) {stage : Stage} (writing : Bool)
    (hs : stage = .started ∨ stage = .listed → c.stage = .started ∨ c.stage = .listed) :
    Conn.Sound { c with stage, writing } (heard i) :=
  (h.conns i c hc).of_stage hs c.ended writing

theorem Told.register (h : t.Told heard) (hlen : t.conns.length ≤ 2 ^ 48)
    (hc : t.conns[i]? = some c) : ∃ heard', (t.task i c .register).Told heard' := by
  cases hs : c.stage with
  | started =>
    simp only [Tcp.task, hs, setConn]
    refine ⟨heard, h.goOn_silent hlen hc (by rfl) (h.restage hc c.writing fun _ => .inl hs) ?_ ?_⟩
    · simp only [Conn.story, hs]
    · intro l j hj
      rcases Lib.getElem?_of_insert hj with ⟨rfl, rfl⟩ | ⟨-, hj⟩
      · rw [if_pos rfl]
        exact ⟨rfl, trivial⟩
      · by_cases hji : j = i
        · rw [hji] at hj
          obtain ⟨d, hd, -, hdf⟩ := h.found l i hj
          obtain rfl := Option.some.inj (hc.symm.trans hd)
          rw [hs] at hdf
          exact hdf.elim
        · rwa [if_neg hji]
  | _ =>
    simp only [Tcp.task, hs]
    exact ⟨heard, h⟩

theorem Told.announce (h : t.Told heard) (hlen : t.conns.length ≤ 2 ^ 48)
    (hc : t.conns[i]? = some c) : ∃ heard', (t.task i c .announce).Told heard' := by
  have hsound := h.conns i c hc
  cases hs : c.stage with
  | listed =>
    simp only [Tcp.task, hs, setConn, send]
    have hnone : heard i = [] := hsound.silent (.inr hs)
    refine ⟨_, h.goOn hlen hc (by rfl) (h.restage hc true ?_) ?_ ?_ ?_⟩
    · rintro (h | h) <;> cases h
    · intro e he
      rw [List.mem_singleton.mp he]
      rfl
    · simp only [Conn.story, hs, hnone, List.map_nil, List.nil_append]
    · exact h.found_of_same hc fun _ => trivial
  | _ =>
    simp only [Tcp.task, hs]
    exact ⟨heard, h⟩

theorem Told.take (h : t.Told heard) (hlen : t.conns.length ≤ 2 ^ 48) (hc : t.conns[i]? = some c) :
    ∃ heard', (t.task i c .take).Told heard' := by
  have hsound := h.conns i c hc
  have hstage : ∀ reachable, (c.take reachable).stage = c.stage ∧ (c.take reachable).link = c.link
      ∧ (c.take reachable).dial = c.dial := by
    intro reachable
    unfold Conn.take
    split_ifs <;> (try split) <;> (try split_ifs) <;> exact ⟨rfl, rfl, rfl⟩
  obtain ⟨hs, hl, hd⟩ := hstage (t.writers[c.link]? = some i)
  refine ⟨heard, h.goOn_same hlen hc hl (hsound.take _) ?_ ?_⟩
  · rw [hs]
    exact fun hf => hf
  · simp only [Conn.story, hs, hl, hd]

theorem Told.put (h : t.Told heard) (hlen : t.conns.length ≤ 2 ^ 48)
    (hc : t.conns[i]? = some c) (n : ℕ) : ∃ heard', (t.task i c (.put n)).Told heard' := by
  have hsound := h.conns i c hc
  have hstage : (c.put n).stage = c.stage ∧ (c.put n).link = c.link ∧ (c.put n).dial = c.dial := by
    unfold Conn.put
    split_ifs <;> exact ⟨rfl, rfl, rfl⟩
  obtain ⟨hs, hl, hd⟩ := hstage
  refine ⟨heard, h.goOn_same hlen hc hl (hsound.put n) ?_ ?_⟩
  · rw [hs]
    exact fun hf => hf
  · simp only [Conn.story, hs, hl, hd]

theorem Told.readFails (h : t.Told heard) (hlen : t.conns.length ≤ 2 ^ 48)
    (hc : t.conns[i]? = some c) (e : String) : ∃ heard', (t.task i c (.readFails e)).Told heard' := by
  have hsound := h.conns i c hc
  refine ⟨heard, ?_⟩
  by_cases hs : c.stage = .serving
  · have hfails : c.readFails e = { c with stage := .left (.transport e) } := by
      simp only [Conn.readFails, hs]
    simp only [Tcp.task, hfails]
    exact h.leave hlen hc hs (.transport e)
  · have hsame : c.readFails e = c := by
      unfold Conn.readFails
      split
      · exact absurd ‹_› hs
      · rfl
    simp only [Tcp.task, hsame]
    exact h.goOn_same hlen hc rfl hsound (fun hf => hf) rfl

theorem Told.writerOver (h : t.Told heard) (hlen : t.conns.length ≤ 2 ^ 48)
    (hc : t.conns[i]? = some c) : ∃ heard', (t.task i c .writerOver).Told heard' := by
  have hsound := h.conns i c hc
  refine ⟨heard, ?_⟩
  by_cases hover : c.stage = .serving ∧ c.writing = false
  · have hleft : c.writerOver = { c with stage := .left .closed } := by
      simp only [Conn.writerOver, hover.1, hover.2, Bool.false_eq_true, if_false]
    simp only [Tcp.task, hleft]
    exact h.leave hlen hc hover.1 .closed
  · have hsame : c.writerOver = c := by
      unfold Conn.writerOver
      split
      · rename_i hs
        rw [if_pos (by simpa [hs] using hover)]
      · rfl
    simp only [Tcp.task, hsame]
    exact h.goOn_same hlen hc rfl hsound (fun hf => hf) rfl

theorem Told.unlist (h : t.Told heard) (hlen : t.conns.length ≤ 2 ^ 48)
    (hc : t.conns[i]? = some c) : ∃ heard', (t.task i c .unlist).Told heard' := by
  cases hs : c.stage with
  | left reason =>
    simp only [Tcp.task, hs, setConn]
    refine ⟨heard, h.goOn_silent hlen hc (by rfl) (h.restage hc c.writing ?_) ?_ ?_⟩
    · rintro (h | h) <;> cases h
    · simp only [Conn.story, hs]
    · intro l j hj
      obtain ⟨hne, hj⟩ := Lib.getElem?_of_erase hj
      by_cases hji : j = i
      · rw [hji] at hj
        obtain ⟨d, hd, hdl, -⟩ := h.found l i hj
        obtain rfl := Option.some.inj (hc.symm.trans hd)
        exact absurd hdl.symm hne
      · rwa [if_neg hji]
  | _ =>
    simp only [Tcp.task, hs]
    exact ⟨heard, h⟩

theorem Told.report (h : t.Told heard) (hlen : t.conns.length ≤ 2 ^ 48)
    (hc : t.conns[i]? = some c) : ∃ heard', (t.task i c .report).Told heard' := by
  cases hs : c.stage with
  | unlisted reason =>
    simp only [Tcp.task, hs, setConn, send]
    refine ⟨_, h.goOn hlen hc (by rfl) (h.restage hc c.writing ?_) ?_ ?_ ?_⟩
    · rintro (h | h) <;> cases h
    · intro e he
      rw [List.mem_singleton.mp he]
      rfl
    · simp only [Conn.story, hs]
    · refine h.found_of_same hc ?_
      rw [hs]
      exact False.elim
  | _ =>
    simp only [Tcp.task, hs]
    exact ⟨heard, h⟩

theorem Told.aborted (h : t.Told heard) (hlen : t.conns.length ≤ 2 ^ 48)
    (hc : t.conns[i]? = some c) : ∃ heard', (t.task i c .aborted).Told heard' := by
  cases hs : c.stage with
  | down reason =>
    simp only [Tcp.task, hs]
    exact ⟨heard, h.goOn_same hlen hc rfl (h.restage hc false fun hs => hs) (fun hf => hf) rfl⟩
  | _ =>
    simp only [Tcp.task, hs]
    exact ⟨heard, h⟩

/-- A connection's tasks do nothing to it that its reports do not tell. -/
theorem Told.task (h : t.Told heard) (hlen : t.conns.length ≤ 2 ^ 48) (hc : t.conns[i]? = some c)
    (task : Task) : ∃ heard', (t.task i c task).Told heard' := by
  cases task with
  | register => exact h.register hlen hc
  | announce => exact h.announce hlen hc
  | take => exact h.take hlen hc
  | put n => exact h.put hlen hc n
  | writeFails =>
    exact ⟨heard, h.goOn_same hlen hc rfl (h.restage hc false fun hs => hs) (fun hf => hf) rfl⟩
  | read => exact h.read hlen hc
  | readFails e => exact h.readFails hlen hc e
  | writerOver => exact h.writerOver hlen hc
  | unlist => exact h.unlist hlen hc
  | report => exact h.report hlen hc
  | aborted => exact h.aborted hlen hc

theorem Conn.sound_start (link : LinkId) (dial : Option DialToken) :
    (Conn.start link dial).Sound [] :=
  ⟨.nil, fun _ => rfl, Nat.le_refl 0, rfl, fun _ hm => absurd hm List.not_mem_nil⟩

/-- A new connection has an id of its own. -/
theorem Told.spawn (h : t.Told heard) (hlen : t.conns.length < 2 ^ 48) (dial : Option DialToken) :
    (t.spawn dial).Told (Function.update heard t.conns.length []) := by
  have hcount : t.nextLink = 1 + t.conns.length := by
    have hnext := h.next
    omega
  have hold : ∀ {j : ℕ} {d : Conn}, t.conns[j]? = some d → (t.spawn dial).conns[j]? = some d := by
    intro j d hd
    obtain ⟨hj, -⟩ := List.getElem?_eq_some_iff.mp hd
    exact (List.getElem?_append_left hj).trans hd
  constructor
  · show (t.nextLink + 1) % 2 ^ 64 = (1 + (t.conns ++ [_]).length) % 2 ^ 64
    rw [List.length_append, List.length_singleton, hcount, Nat.add_assoc]
  · intro j d hd
    rcases Lib.getElem?_concat hd with ⟨-, hd⟩ | ⟨rfl, rfl⟩
    · exact h.ids j d hd
    · show LinkId.new t.id t.nextLink = _
      rw [hcount]
      rfl
  · intro j d hd
    rcases Lib.getElem?_concat hd with ⟨hj, hd⟩ | ⟨rfl, rfl⟩
    · rw [Function.update_of_ne (Nat.ne_of_lt hj)]
      exact h.conns j d hd
    · rw [Function.update_self]
      exact Conn.sound_start _ dial
  · intro j d hd
    rcases Lib.getElem?_concat hd with ⟨hj, hd⟩ | ⟨rfl, rfl⟩
    · rw [Function.update_of_ne (Nat.ne_of_lt hj)]
      exact h.story j d hd
    · show t.log.filter _ = []
      rw [List.filter_eq_nil_iff]
      intro e he heq
      obtain ⟨k, d, hd, hdl⟩ := h.only e he _ (of_decide_eq_true heq)
      obtain ⟨hk, -⟩ := List.getElem?_eq_some_iff.mp hd
      rw [h.ids k d hd] at hdl
      have hsame : LinkId.new t.id (1 + k) = LinkId.new t.id (1 + t.conns.length) := by
        rw [hdl, Conn.start, hcount]
      exact absurd (LinkId.new_inj (by omega) hlen hsame) (by omega)
  · intro e he l hl
    obtain ⟨k, d, hd, hdl⟩ := h.only e he l hl
    exact ⟨k, d, hold hd, hdl⟩
  · intro l j hj
    obtain ⟨d, hd, hdl⟩ := h.found l j hj
    exact ⟨d, hold hd, hdl⟩

/-- What is reported of no link adds to no link's story. -/
theorem Told.aside (h : t.Told heard) {e : Event} (he : link? e = none)
    (dials : List (DialToken × String)) : Told { t with dials, log := t.log ++ [e] } heard := by
  refine ⟨h.next, h.ids, h.conns, ?_, ?_, h.found⟩
  · intro j d hd
    show (t.log ++ [e]).filter _ = _
    rw [List.filter_append, h.story j d hd]
    simp [he]
  · intro e' he' l hl
    rcases List.mem_append.mp he' with he' | he'
    · exact h.only e' he' l hl
    · rw [List.mem_singleton.mp he', he] at hl
      cases hl

theorem Told.of_dials (h : t.Told heard) (dials : List (DialToken × String)) :
    Told { t with dials } heard := ⟨h.next, h.ids, h.conns, h.story, h.only, h.found⟩

@[simp] theorem length_setConn (t : Tcp) (i : ℕ) (c : Conn) :
    (t.setConn i c).conns.length = t.conns.length := List.length_set

@[simp] theorem length_onConn (t : Tcp) (i : ℕ) (f : Conn → Conn) :
    (t.onConn i f).conns.length = t.conns.length := by
  unfold onConn
  split
  · exact length_setConn t i _
  · rfl

@[simp] theorem length_send (t : Tcp) (e : Event) : (t.send e).conns.length = t.conns.length := rfl

@[simp] theorem length_task (t : Tcp) (i : ℕ) (c : Conn) (task : Task) :
    (t.task i c task).conns.length = t.conns.length := by
  cases task with
  | take | put | writeFails | readFails | writerOver => simp [Tcp.task]
  | register | announce | read | unlist | report | aborted =>
    simp only [Tcp.task]
    split <;> simp

/-- No connection is forgotten. -/
theorem conns_length_step (t : Tcp) (s : Step) : t.conns.length ≤ (t.step s).conns.length := by
  cases s with
  | dial dial addr => exact Nat.le_refl _
  | send link msg =>
    simp only [Tcp.step, sendCmd]
    split <;> simp
  | close link => exact Nat.le_refl _
  | accept => simp [Tcp.step, Tcp.spawn]
  | dialled i outcome =>
    simp only [Tcp.step, Tcp.dialled]
    split
    · exact Nat.le_refl _
    · split <;> simp [Tcp.spawn]
  | arrive i bs => simp [Tcp.step]
  | hangUp i => simp [Tcp.step]
  | task i task =>
    simp only [Tcp.step]
    split <;> simp

theorem Told.step (h : t.Told heard) {s : Step} (hlen : (t.step s).conns.length ≤ 2 ^ 48) :
    ∃ heard', (t.step s).Told heard' := by
  have hbefore := Nat.le_trans (conns_length_step t s) hlen
  cases s with
  | dial dial addr => exact ⟨heard, h.of_dials _⟩
  | send link msg =>
    refine ⟨heard, ?_⟩
    simp only [Tcp.step, sendCmd]
    cases hw : t.writers[link]? with
    | none => exact h
    | some i =>
      obtain ⟨c, hc, -⟩ := h.found link i hw
      simp only [onConn, hc]
      exact h.goOn_same hbefore hc rfl ((h.conns i c hc).say msg) (fun hf => hf) rfl
  | close link =>
    refine ⟨heard, h.next, h.ids, h.conns, h.story, h.only, fun l j hj => ?_⟩
    exact h.found l j (Lib.getElem?_of_erase hj).2
  | accept =>
    refine ⟨_, h.spawn ?_ none⟩
    have hone : (t.step .accept).conns.length = t.conns.length + 1 := by
      simp only [Tcp.step, Tcp.spawn, List.length_append, List.length_singleton]
    omega
  | dialled i outcome =>
    simp only [Tcp.step, Tcp.dialled] at hlen ⊢
    cases hd : t.dials[i]? with
    | none => exact ⟨heard, h⟩
    | some d =>
      simp only [hd] at hlen ⊢
      cases outcome with
      | unresolved => exact ⟨heard, h.aside rfl _⟩
      | refused reason => exact ⟨heard, h.aside rfl _⟩
      | connected =>
        refine ⟨_, (h.of_dials (t.dials.eraseIdx i)).spawn ?_ (some d.1)⟩
        simp only [Tcp.spawn, List.length_append, List.length_singleton] at hlen
        exact hlen
  | arrive i bs =>
    refine ⟨heard, ?_⟩
    simp only [Tcp.step, onConn]
    cases hc : t.conns[i]? with
    | none => exact h
    | some c =>
      have hsame : (c.arrive bs).stage = c.stage ∧ (c.arrive bs).link = c.link ∧
          (c.arrive bs).dial = c.dial := by
        unfold Conn.arrive
        split_ifs <;> exact ⟨rfl, rfl, rfl⟩
      obtain ⟨hs, hl, hd⟩ := hsame
      refine h.goOn_same hbefore hc hl ((h.conns i c hc).arrive bs) ?_ ?_
      · rw [hs]
        exact fun hf => hf
      · simp only [Conn.story, hs, hl, hd]
  | hangUp i =>
    refine ⟨heard, ?_⟩
    simp only [Tcp.step, onConn]
    cases hc : t.conns[i]? with
    | none => exact h
    | some c =>
      exact h.goOn_same hbefore hc rfl ((h.conns i c hc).of_stage (fun hs => hs) true c.writing)
        (fun hf => hf) rfl
  | task i task =>
    simp only [Tcp.step]
    cases hc : t.conns[i]? with
    | none => exact ⟨heard, h⟩
    | some c => exact h.task hbefore hc task

@[simp] theorem id_onConn (t : Tcp) (i : ℕ) (f : Conn → Conn) : (t.onConn i f).id = t.id := by
  unfold onConn
  split <;> rfl

@[simp] theorem id_task (t : Tcp) (i : ℕ) (c : Conn) (task : Task) :
    (t.task i c task).id = t.id := by
  cases task with
  | take | put | writeFails | readFails | writerOver => rfl
  | register | announce | read | unlist | report | aborted =>
    simp only [Tcp.task]
    split <;> rfl

@[simp] theorem id_step (t : Tcp) (s : Step) : (t.step s).id = t.id := by
  cases s with
  | dial dial addr | close link | accept => rfl
  | send link msg =>
    simp only [Tcp.step, sendCmd]
    split <;> simp
  | dialled i outcome =>
    simp only [Tcp.step, Tcp.dialled]
    split
    · rfl
    · split <;> rfl
  | arrive i bs | hangUp i => simp [Tcp.step]
  | task i task =>
    simp only [Tcp.step]
    split <;> simp

theorem told_new (id : TransportId) : (new id).Told fun _ => [] := by
  refine ⟨rfl, ?_, ?_, ?_, fun e he => absurd he List.not_mem_nil, ?_⟩ <;> intro i c hc <;> cases hc

/-- As long as ids last. -/
theorem told_run {id : TransportId} {is : List Step}
    (hlen : (Lib.run step (new id) is).conns.length ≤ 2 ^ 48) :
    ∃ heard, (Lib.run step (new id) is).Told heard := by
  induction is using List.reverseRecOn with
  | nil => exact ⟨_, told_new id⟩
  | append_singleton is s ih =>
    rw [Lib.run_append] at hlen ⊢
    obtain ⟨heard, h⟩ := ih (Nat.le_trans (conns_length_step _ s) hlen)
    exact h.step hlen

/-- What a transport tells of each connection is under an id of its own, and is that the link is
up, then the messages in the bytes that came, in order, then that it is down. Nothing is told of
another link, and a command for a link finds a connection that has its id and is not given up. -/
structure Faithful (t : Tcp) : Prop where
  distinct : ∀ (i j : ℕ) (c d : Conn), t.conns[i]? = some c → t.conns[j]? = some d →
    c.link = d.link → i = j
  story : ∀ (i : ℕ) (c : Conn), t.conns[i]? = some c → ∃ heard : List Bytes,
    Lib.Framing.frames 4 heard <+: c.came ∧ (∀ m ∈ heard, m.length ≤ maxFrame) ∧
    t.log.filter (link? · = some c.link) = c.story t.id heard
  only : ∀ e ∈ t.log, ∀ l, link? e = some l →
    ∃ (i : ℕ) (c : Conn), t.conns[i]? = some c ∧ c.link = l
  found : ∀ (l : LinkId) (i : ℕ), t.writers[l]? = some i →
    ∃ c : Conn, t.conns[i]? = some c ∧ c.link = l ∧ c.stage.Found

/-- Whatever the order in which the tasks get on, and whatever comes on the connections. -/
theorem connections_told (id : TransportId) (is : List Step)
    (hlen : (Lib.run step (new id) is).conns.length ≤ 2 ^ 48) :
    (Lib.run step (new id) is).Faithful := by
  obtain ⟨heard, h⟩ := told_run hlen
  refine ⟨?_, ?_, h.only, h.found⟩
  · intro i j c d hc hd heq
    obtain ⟨hi, -⟩ := List.getElem?_eq_some_iff.mp hc
    obtain ⟨hj, -⟩ := List.getElem?_eq_some_iff.mp hd
    rw [h.ids i c hc, h.ids j d hd] at heq
    exact LinkId.new_inj (by omega) (by omega) heq
  · intro i c hc
    have hread := (h.conns i c hc).read
    exact ⟨heard i, ⟨_, hread.drop.symm⟩, hread.short, h.story i c hc⟩

theorem one_connection_told : (Lib.run step (new 1) [.accept, .task 0 .register, .task 0 .announce,
    .arrive 0 [0, 0, 0, 1, 7], .task 0 .read, .hangUp 0, .task 0 .read]).Faithful :=
  connections_told 1 _ (by decide)

def msg? : Event → Option Bytes
  | .linkRecv _ msg => some msg
  | _ => none

def received (t : Tcp) (link : LinkId) : List Bytes :=
  (t.log.filter (link? · = some link)).filterMap msg?

def Step.msg? (link : LinkId) : Step → Option Bytes
  | .send l msg => if l = link then some msg else none
  | _ => none

def said (link : LinkId) (is : List Step) : List Bytes := is.filterMap (Step.msg? link)

theorem Told.received (h : t.Told heard) (hc : t.conns[i]? = some c) :
    t.received c.link = heard i := by
  have hmap : ∀ ms : List Bytes, (ms.map (Event.linkRecv c.link)).filterMap msg? = ms := by
    intro ms
    rw [List.filterMap_map]
    exact List.filterMap_some
  have hsound := h.conns i c hc
  rw [Tcp.received, h.story i c hc, Conn.story]
  cases hs : c.stage with
  | started => simp [hsound.silent (.inl hs)]
  | listed => simp [hsound.silent (.inr hs)]
  | serving | left _ | unlisted _ => exact hmap (heard i)
  | down reason =>
    have hdown : [Event.linkDown c.link reason].filterMap msg? = [] := rfl
    rw [List.filterMap_append, hdown, List.append_nil]
    exact hmap (heard i)

/-- A connection's own step keeps its id and what was said to it. -/
theorem task_cases (t : Tcp) (k : ℕ) (c : Conn) (task : Task) :
    (t.task k c task).conns = t.conns ∨
      ∃ c', (t.task k c task).conns = t.conns.set k c' ∧ c'.link = c.link ∧ c'.said = c.said := by
  cases task with
  | take =>
    refine .inr ⟨_, rfl, ?_⟩
    unfold Conn.take
    split_ifs <;> (try split) <;> (try split_ifs) <;> exact ⟨rfl, rfl⟩
  | put n =>
    refine .inr ⟨_, rfl, ?_⟩
    unfold Conn.put
    split_ifs <;> exact ⟨rfl, rfl⟩
  | writeFails => exact .inr ⟨_, rfl, rfl, rfl⟩
  | readFails e =>
    refine .inr ⟨_, rfl, ?_⟩
    unfold Conn.readFails
    split <;> exact ⟨rfl, rfl⟩
  | writerOver =>
    refine .inr ⟨_, rfl, ?_⟩
    unfold Conn.writerOver
    split <;> (try split_ifs) <;> exact ⟨rfl, rfl⟩
  | read =>
    have hread : c.read.1.link = c.link ∧ c.read.1.said = c.said := by
      unfold Conn.read
      split <;> (try split_ifs) <;> exact ⟨rfl, rfl⟩
    refine .inr ⟨c.read.1, ?_, hread⟩
    simp only [Tcp.task]
    split <;> rename_i heq <;> rw [heq] <;> rfl
  | register | announce | unlist | report | aborted =>
    simp only [Tcp.task]
    split
    · exact .inr ⟨_, rfl, rfl, rfl⟩
    · exact .inl rfl

/-- A connection of the next state is one of the state, or it is new. Only a command says something
to it. -/
theorem conn_of_step {s : Step} (hc : (t.step s).conns[i]? = some c) :
    (∃ c₀, t.conns[i]? = some c₀ ∧ c.link = c₀.link ∧
      (c.said = c₀.said ∨ ∃ l msg, s = .send l msg ∧ t.writers[l]? = some i ∧
        c.said = c₀.said ++ [msg])) ∨ t.conns[i]? = none ∧ c.said = [] := by
  have hstay : t.conns[i]? = some c → ∃ c₀, t.conns[i]? = some c₀ ∧ c.link = c₀.link ∧
      (c.said = c₀.said ∨ ∃ l msg, s = .send l msg ∧ t.writers[l]? = some i ∧
        c.said = c₀.said ++ [msg]) := fun hc => ⟨c, hc, rfl, .inl rfl⟩
  have hset : ∀ {k : ℕ} {d d₀ : Conn}, t.conns[k]? = some d₀ → d.link = d₀.link →
      (d.said = d₀.said ∨ ∃ l msg, s = .send l msg ∧ t.writers[l]? = some k ∧
        d.said = d₀.said ++ [msg]) → (t.conns.set k d)[i]? = some c →
      ∃ c₀, t.conns[i]? = some c₀ ∧ c.link = c₀.link ∧
        (c.said = c₀.said ∨ ∃ l msg, s = .send l msg ∧ t.writers[l]? = some i ∧
          c.said = c₀.said ++ [msg]) := by
    intro k d d₀ hd₀ hlink hsaid hc
    rcases Lib.getElem?_set_cases hc with hc | ⟨rfl, rfl⟩
    · exact hstay hc
    · exact ⟨d₀, hd₀, hlink, hsaid⟩
  cases s with
  | dial dial addr | close link => exact .inl (hstay hc)
  | accept =>
    rcases Lib.getElem?_concat hc with ⟨-, hc⟩ | ⟨rfl, rfl⟩
    · exact .inl (hstay hc)
    · exact .inr ⟨List.getElem?_eq_none (Nat.le_refl _), rfl⟩
  | dialled k outcome =>
    simp only [Tcp.step, Tcp.dialled] at hc
    cases hd : t.dials[k]? with
    | none =>
      simp only [hd] at hc
      exact .inl (hstay hc)
    | some d =>
      simp only [hd] at hc
      cases outcome with
      | unresolved | refused reason => exact .inl (hstay hc)
      | connected =>
        rcases Lib.getElem?_concat hc with ⟨-, hc⟩ | ⟨rfl, rfl⟩
        · exact .inl (hstay hc)
        · exact .inr ⟨List.getElem?_eq_none (Nat.le_refl _), rfl⟩
  | send link msg =>
    simp only [Tcp.step, sendCmd] at hc
    cases hw : t.writers[link]? with
    | none =>
      simp only [hw] at hc
      exact .inl (hstay hc)
    | some k =>
      simp only [hw, onConn] at hc
      cases hk : t.conns[k]? with
      | none =>
        simp only [hk] at hc
        exact .inl (hstay hc)
      | some d =>
        simp only [hk] at hc
        exact .inl (hset hk (by rfl) (.inr ⟨link, msg, rfl, hw, rfl⟩) hc)
  | arrive k bs =>
    simp only [Tcp.step, onConn] at hc
    cases hk : t.conns[k]? with
    | none =>
      simp only [hk] at hc
      exact .inl (hstay hc)
    | some d =>
      simp only [hk] at hc
      have hsame : (d.arrive bs).link = d.link ∧ (d.arrive bs).said = d.said := by
        unfold Conn.arrive
        split_ifs <;> exact ⟨rfl, rfl⟩
      exact .inl (hset hk hsame.1 (.inl hsame.2) hc)
  | hangUp k =>
    simp only [Tcp.step, onConn] at hc
    cases hk : t.conns[k]? with
    | none =>
      simp only [hk] at hc
      exact .inl (hstay hc)
    | some d =>
      simp only [hk] at hc
      exact .inl (hset (d := { d with ended := true }) hk rfl (.inl rfl) hc)
  | task k task =>
    simp only [Tcp.step] at hc
    cases hk : t.conns[k]? with
    | none =>
      simp only [hk] at hc
      exact .inl (hstay hc)
    | some d =>
      simp only [hk] at hc
      rcases task_cases t k d task with hsame | ⟨d', hsame, hlink, hsaid⟩
      · rw [hsame] at hc
        exact .inl (hstay hc)
      · rw [hsame] at hc
        exact .inl (hset hk hlink (.inl hsaid) hc)

/-- A connection is told what the commands for its link say, in their order and each once. -/
theorem said_run {id : TransportId} {is : List Step}
    (hlen : (Lib.run step (new id) is).conns.length ≤ 2 ^ 48)
    (hc : (Lib.run step (new id) is).conns[i]? = some c) : c.said.Sublist (said c.link is) := by
  induction is using List.reverseRecOn generalizing c with
  | nil => cases hc
  | append_singleton is s ih =>
    rw [Lib.run_append] at hlen hc
    have hbefore := Nat.le_trans (conns_length_step _ s) hlen
    have hmore : said c.link (is ++ [s]) = said c.link is ++ said c.link [s] :=
      List.filterMap_append
    rw [hmore]
    rcases conn_of_step hc with ⟨c₀, hc₀, hlink, hsaid | ⟨l, msg, rfl, hw, hsaid⟩⟩ |
      ⟨-, hsaid⟩
    · rw [hsaid, hlink]
      exact (ih hbefore hc₀).trans (List.sublist_append_left _ _)
    · obtain ⟨heard, h⟩ := told_run hbefore
      obtain ⟨d, hd, hdl, -⟩ := h.found l i hw
      obtain rfl := Option.some.inj (hc₀.symm.trans hd)
      have hone : said c.link [.send l msg] = [msg] := by
        simp [said, Step.msg?, hlink, hdl]
      rw [hsaid, hone, hlink]
      exact (ih hbefore hc₀).append (List.Sublist.refl _)
    · rw [hsaid]
      exact List.nil_sublist _

/-- Of a connection of which the one end has what the other sent, or some of it yet: what is heard
is what the writer took. -/
theorem Told.heard_prefix {u : Tcp} {heardB : ℕ → List Bytes} {j : ℕ} {d : Conn} (h : t.Told heard)
    (hu : u.Told heardB) (hc : t.conns[i]? = some c) (hd : u.conns[j]? = some d)
    (hcame : d.came <+: c.sent) : heardB j <+: c.said.take c.told := by
  have hc' := h.conns i c hc
  have hd' := hu.conns j d hd
  have hheard : ∀ m ∈ heardB j, m.length < 256 ^ 4 := by
    intro m hm
    have hshort := hd'.read.short m hm
    unfold maxFrame at hshort
    omega
  refine Lib.Framing.prefix_of_frames_prefix (by decide) hheard hc'.fits ?_
  rw [← hc'.sent]
  exact .trans ⟨_, hd'.read.drop.symm⟩ (hcame.trans (List.prefix_append _ _))

/-- Two transports with a connection between them, of which the one end has what the other sent,
or some of it yet. What is heard is what was to be said, in order, none of it twice; once all is
written and read and nothing is over the cap, it is all that the writer was given. -/
theorem carries {a b : TransportId} {is js : List Step} {i j : ℕ} {c d : Conn}
    (ha : (Lib.run step (new a) is).conns.length ≤ 2 ^ 48)
    (hb : (Lib.run step (new b) js).conns.length ≤ 2 ^ 48)
    (hc : (Lib.run step (new a) is).conns[i]? = some c)
    (hd : (Lib.run step (new b) js).conns[j]? = some d) (hcame : d.came <+: c.sent) :
    (Lib.run step (new b) js).received d.link <+: c.said ∧ c.said.Sublist (said c.link is) ∧
    ((∀ m ∈ c.said, m.length ≤ maxFrame) → c.told = c.said.length → c.unsent = [] →
      d.came = c.sent → Lib.Framing.next 4 maxFrame (d.came.drop d.taken) = .more →
      (Lib.run step (new b) js).received d.link = c.said) := by
  obtain ⟨heardA, hA⟩ := told_run ha
  obtain ⟨heardB, hB⟩ := told_run hb
  have hc' := hA.conns i c hc
  have hd' := hB.conns j d hd
  rw [hB.received hd]
  have hstart := hA.heard_prefix hB hc hd hcame
  refine ⟨hstart.trans (List.take_prefix _ _), said_run ha hc, ?_⟩
  intro hshort hall hunsent hwhole hmore
  obtain ⟨left, hleft⟩ := hstart
  have hsaid : c.said.take c.told = c.said := by rw [hall, List.take_length]
  rw [hsaid] at hleft
  have hrest := hd'.read.drop
  have hdrop : d.came.drop d.taken = Lib.Framing.frames 4 left := by
    have hsent := hc'.sent
    rw [hunsent, List.append_nil, hsaid, ← hleft, ← hwhole, hrest,
      Lib.Framing.frames_append] at hsent
    exact List.append_cancel_left hsent
  rw [hdrop] at hmore
  have hnil : left = [] := by
    refine Lib.Framing.nil_of_next_more (fun m hm => ?_) hmore
    have hm' : m.length ≤ maxFrame := hshort m (hleft ▸ List.mem_append_right _ hm)
    have hcap := hm'
    unfold maxFrame at hcap
    exact ⟨by omega, hm'⟩
  rw [← hleft, hnil, List.append_nil]

/-- One message, said at the one end and heard at the other. -/
theorem carries_one :
    let js : List Step := [.accept, .task 0 .register, .task 0 .announce, .arrive 0 [0, 0, 0],
      .task 0 .read, .arrive 0 [1, 7], .task 0 .read]
    (Lib.run step (new 1) js).received (LinkId.new 1 1) = [[7]] := by
  intro js
  let is : List Step := [.dial 3 "b:1971", .dialled 0 .connected, .task 0 .register,
    .task 0 .announce, .send (LinkId.new 1 1) [7], .task 0 .take, .task 0 (.put 5)]
  have hc : (Lib.run step (new 1) is).conns[0]? = some
      { Conn.start (LinkId.new 1 1) (some 3) with
        stage := .serving, said := [[7]], told := 1, writing := true, sent := [0, 0, 0, 1, 7] } := rfl
  have hd : (Lib.run step (new 1) js).conns[0]? = some
      { Conn.start (LinkId.new 1 1) none with
        stage := .serving, came := [0, 0, 0, 1, 7], taken := 5, writing := true } := rfl
  have hall := carries (by decide) (by decide) hc hd (by decide)
  exact hall.2.2 (by decide) rfl rfl rfl (by decide)

section Dials
variable (dial : DialToken)

def Step.asks : Step → Bool
  | .dial d _ => d = dial
  | _ => false

def answers : Event → Bool
  | .linkUp _ _ d => d = some dial
  | .dialFailed d _ => d = dial
  | _ => false

def Conn.waits (c : Conn) : Bool := c.dial = some dial ∧ (c.stage = .started ∨ c.stage = .listed)

def underWay (t : Tcp) : ℕ := t.dials.countP (·.1 = dial) + t.conns.countP (Conn.waits dial)

/-- A step of one connection that tells of a dial when it stops waiting for its answer. -/
def Turn (t : Tcp) (i : ℕ) (c : Conn) (t' : Tcp) : Prop :=
  ∃ c' es, t'.conns = t.conns.set i c' ∧ t'.log = t.log ++ es ∧ t'.dials = t.dials ∧
    es.countP (answers dial) + (c'.waits dial).toNat = (c.waits dial).toNat

variable {dial}

theorem Turn.stay (hc : t.conns[i]? = some c) : Turn dial t i c t := by
  obtain ⟨hi, rfl⟩ := List.getElem?_eq_some_iff.mp hc
  exact ⟨_, [], (List.set_getElem_self hi).symm, (List.append_nil t.log).symm, rfl, Nat.zero_add _⟩

theorem Turn.quiet (writers : ExtTreeMap LinkId ℕ) (h : c'.waits dial = c.waits dial) :
    Turn dial t i c ({ t with writers }.setConn i c') := by
  refine ⟨c', [], rfl, (List.append_nil t.log).symm, rfl, ?_⟩
  rw [h]
  exact Nat.zero_add _

theorem Conn.waits_read : c.read.1.waits dial = c.waits dial := by
  unfold Conn.read
  split
  · rename_i hs _
    simp only [waits, hs]
  · rename_i hs _
    simp [waits, hs]
  · rename_i hs _
    split <;> simp [waits, hs]
  · rfl

theorem Conn.waits_readFails (e : String) : (c.readFails e).waits dial = c.waits dial := by
  unfold Conn.readFails
  split
  · rename_i hs
    simp [waits, hs]
  · rfl

theorem Conn.waits_writerOver : c.writerOver.waits dial = c.waits dial := by
  unfold Conn.writerOver
  split
  · rename_i hs
    split <;> simp [waits, hs]
  · rfl

theorem Conn.waits_take (reachable : Bool) : (c.take reachable).waits dial = c.waits dial := by
  unfold Conn.take
  split_ifs <;> (try split) <;> (try split_ifs) <;> rfl

theorem Conn.waits_put (n : ℕ) : (c.put n).waits dial = c.waits dial := by
  unfold Conn.put
  split_ifs <;> rfl

theorem Turn.task (hc : t.conns[i]? = some c) (task : Task) :
    Turn dial t i c (t.task i c task) := by
  cases task with
  | register =>
    simp only [Tcp.task]
    split
    · rename_i hs
      exact Turn.quiet _ (by simp [Conn.waits, hs])
    · exact Turn.stay hc
  | announce =>
    simp only [Tcp.task]
    split
    · rename_i hs
      refine ⟨_, _, rfl, rfl, rfl, ?_⟩
      by_cases hd : c.dial = some dial <;> simp [answers, Conn.waits, hs, hd]
    · exact Turn.stay hc
  | take => exact Turn.quiet t.writers (Conn.waits_take _)
  | put n => exact Turn.quiet t.writers (Conn.waits_put n)
  | writeFails => exact Turn.quiet t.writers rfl
  | read =>
    have hwaits : c.read.1.waits dial = c.waits dial := Conn.waits_read
    simp only [Tcp.task]
    split
    · rename_i hread
      rw [hread] at hwaits
      refine ⟨_, _, rfl, rfl, rfl, ?_⟩
      rw [hwaits]
      exact Nat.zero_add _
    · rename_i hread
      rw [hread] at hwaits
      exact Turn.quiet t.writers hwaits
  | readFails e => exact Turn.quiet t.writers (Conn.waits_readFails e)
  | writerOver => exact Turn.quiet t.writers Conn.waits_writerOver
  | unlist =>
    simp only [Tcp.task]
    split
    · rename_i hs
      exact Turn.quiet _ (by simp [Conn.waits, hs])
    · exact Turn.stay hc
  | report =>
    simp only [Tcp.task]
    split
    · rename_i hs
      refine ⟨_, _, rfl, rfl, rfl, ?_⟩
      simp [answers, Conn.waits, hs]
    · exact Turn.stay hc
  | aborted =>
    simp only [Tcp.task]
    split
    · exact Turn.quiet t.writers rfl
    · exact Turn.stay hc

/-- What is answered and what is under way, together. -/
theorem Turn.total {t' : Tcp} (h : Turn dial t i c t') (hc : t.conns[i]? = some c) :
    t'.log.countP (answers dial) + t'.underWay dial =
      t.log.countP (answers dial) + t.underWay dial := by
  obtain ⟨c', es, hconns, hlog, hdials, hsum⟩ := h
  obtain ⟨hi, rfl⟩ := List.getElem?_eq_some_iff.mp hc
  have hset := List.countP_set (p := Conn.waits dial) (a := c') hi
  have hpos : (t.conns[i].waits dial).toNat ≤ t.conns.countP (Conn.waits dial) := by
    cases hw : t.conns[i].waits dial with
    | false => exact Nat.zero_le _
    | true => exact List.countP_pos_iff.mpr ⟨_, List.getElem_mem hi, hw⟩
  have htoNat : ∀ b : Bool, (if b then 1 else 0) = b.toNat := by decide
  rw [htoNat, htoNat] at hset
  rw [underWay, underWay, hconns, hlog, hdials, List.countP_append, hset]
  omega

theorem onConn_total {f : Conn → Conn} (h : ∀ c, (f c).waits dial = c.waits dial) :
    (t.onConn i f).log.countP (answers dial) + (t.onConn i f).underWay dial =
      t.log.countP (answers dial) + t.underWay dial := by
  unfold onConn
  split
  · rename_i c hc
    exact (Turn.quiet t.writers (h c)).total hc
  · rfl

theorem spawn_total (d : Option DialToken) :
    (t.spawn d).log.countP (answers dial) + (t.spawn d).underWay dial =
      t.log.countP (answers dial) + t.underWay dial + if d = some dial then 1 else 0 := by
  have hnew : (Conn.start (LinkId.new t.id t.nextLink) d).waits dial = (d = some dial : Bool) := by
    simp [Conn.waits, Conn.start]
  simp only [spawn, underWay, List.countP_append, List.countP_singleton, hnew,
    decide_eq_true_eq]
  omega

theorem dialled_total (k : ℕ) (outcome : Dialled) :
    (t.dialled k outcome).log.countP (answers dial) + (t.dialled k outcome).underWay dial =
      t.log.countP (answers dial) + t.underWay dial := by
  unfold Tcp.dialled
  split
  · rfl
  · rename_i d addr hd
    obtain ⟨hk, hget⟩ := List.getElem?_eq_some_iff.mp hd
    have hperm := (List.getElem_cons_eraseIdx_perm hk).countP_eq (·.1 = dial)
    rw [hget, List.countP_cons] at hperm
    cases outcome with
    | unresolved | refused reason =>
      by_cases hdial : d = dial <;>
        simp [send, underWay, answers, List.countP_append, hdial] at hperm ⊢ <;> omega
    | connected =>
      have hspawn := @spawn_total { t with dials := t.dials.eraseIdx k } dial (some d)
      by_cases hdial : d = dial <;> simp [underWay, hdial] at hspawn hperm ⊢ <;> omega

theorem step_total (s : Step) :
    (t.step s).log.countP (answers dial) + (t.step s).underWay dial =
      t.log.countP (answers dial) + t.underWay dial + if s.asks dial then 1 else 0 := by
  cases s with
  | dial d addr =>
    by_cases hd : d = dial
    · simp [Tcp.step, underWay, Step.asks, hd]
      omega
    · simp [Tcp.step, underWay, Step.asks, hd]
  | send link msg =>
    simp only [Tcp.step, sendCmd]
    split
    · rfl
    · exact onConn_total fun c => rfl
  | close link => rfl
  | accept => exact spawn_total none
  | dialled k outcome => exact dialled_total k outcome
  | arrive k bs =>
    refine onConn_total fun c => ?_
    unfold Conn.arrive
    split_ifs <;> rfl
  | hangUp k => exact onConn_total fun c => rfl
  | task k task =>
    simp only [Tcp.step]
    split
    · rename_i c hc
      exact (Turn.task hc task).total hc
    · rfl

/-- Every dial that was asked for is under way, or it was answered once: by a link that is up, or
by a failure. -/
theorem dials_answered (id : TransportId) (is : List Step) (dial : DialToken) :
    (Lib.run step (new id) is).log.countP (answers dial) +
      (Lib.run step (new id) is).underWay dial = is.countP (Step.asks dial) := by
  induction is using List.reverseRecOn with
  | nil => rfl
  | append_singleton is s ih =>
    rw [Lib.run_append, Lib.run_cons, Lib.run_nil, step_total, ih, List.countP_append,
      List.countP_singleton]

end Dials

end Tcp
end Acrylius
