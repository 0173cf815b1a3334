import Acrylius.Core.Vocab
import Acrylius.Proto.Ble

/-! The Bluetooth LE transport of a desktop (`acrylius-linux`, `ble.rs`): the one link, and the
tasks that bring it up and retire it. What a task does while it holds the lock is one step; what is
advertised, and when, is left out. -/
namespace Acrylius
open Proto

def Ble.BleError.text : BleError → String
  | .empty => "a fragment with no header"
  | .reserved => "a reserved header bit was set"
  | .desync => "a fragment that does not continue anything"
  | .tooLarge => "the message is larger than the link allows"

namespace BleTransport

def fallbackMtu : ℕ := 23

structure Link where
  link : LinkId
  device : String
  mtu : ℕ
  reassembler : Ble.Reassembler

/-- A `WriteValue` call that names its device. Any other is ignored. -/
structure Write where
  device : String
  mtu : Option ℕ
  value : Bytes

inductive Pending where
  | drop (device : String) (write : Option Write)
  | finish (write : Write)

/-- What happens to a link: the events the core is sent, and the fragments taken in. -/
inductive Entry where
  | event (e : Event)
  | fragment (device : String) (value : Bytes)

structure Shared where
  id : TransportId
  nextLink : ℕ
  link : Option Link
  /-- The message the command loop is sending. It takes no other command before the end of it. -/
  notifying : Option LinkId
  pending : List Pending
  log : List Entry

namespace Shared

def new (id : TransportId) : Shared where
  id := id
  nextLink := 1
  link := none
  notifying := none
  pending := []
  log := []

def send (s : Shared) (e : Event) : Shared := { s with log := s.log ++ [.event e] }

def retire (s : Shared) (link : LinkId) (reason : LinkDownReason) : Shared :=
  { s with link := none }.send (.linkDown link reason)

def dropLinkFor (s : Shared) (device : String) : Shared :=
  match s.link with
  | some l => if l.device = device then s.retire l.link .closed else s
  | none => s

def dropLink (s : Shared) (link : LinkId) (reason : LinkDownReason) : Shared :=
  match s.link with
  | some l => if l.link = link then s.retire link reason else s
  | none => s

/-- The end of `write_value`: the fragment goes to the link's reassembler. -/
def takeIn (s : Shared) (l : Link) (w : Write) : Shared :=
  let s := { s with log := s.log ++ [Entry.fragment w.device w.value] }
  match l.reassembler.push w.value with
  | (r, .ok (some msg)) =>
    { s with link := some { l with mtu := w.mtu.getD l.mtu, reassembler := r } }.send
      (.linkRecv l.link msg)
  | (r, .ok none) => { s with link := some { l with mtu := w.mtu.getD l.mtu, reassembler := r } }
  | (_, .error e) => s.retire l.link (.transport e.text)

/-- `write_value` from where it holds the lock for good. -/
def finishWrite (s : Shared) (w : Write) : Shared :=
  match s.link with
  | some l => if l.device = w.device then s.takeIn l w else s
  | none =>
    let link := LinkId.new s.id s.nextLink
    let attrs := LinkAttrs.ble s.id
    let l : Link :=
      { link, device := w.device, mtu := w.mtu.getD fallbackMtu, reassembler := .new attrs.maxMessage }
    ({ s with link := some l, nextLink := (s.nextLink + 1) % 2 ^ 64 }.send
      (.linkUp link attrs none)).takeIn l w

/-- `write_value` up to there. A holder that is gone is retired first, without the lock. -/
def writeValue (s : Shared) (w : Write) (connected : Bool) : Shared :=
  match s.link with
  | some l =>
    if l.device ≠ w.device ∧ connected = false then
      { s with pending := s.pending ++ [.drop l.device (some w)] }
    else s.finishWrite w
  | none => s.finishWrite w

/-- A task has read whose link it is, and will retire it: a fresh subscription, or the supervisor
that found its central gone. -/
def readHolder (s : Shared) : Shared :=
  match s.link with
  | some l => { s with pending := s.pending ++ [.drop l.device none] }
  | none => s

def proceed (s : Shared) (i : ℕ) : Shared :=
  match s.pending[i]? with
  | some (.drop device (some w)) =>
    { s with pending := s.pending.set i (.finish w) }.dropLinkFor device
  | some (.drop device none) => { s with pending := s.pending.eraseIdx i }.dropLinkFor device
  | some (.finish w) => { s with pending := s.pending.eraseIdx i }.finishWrite w
  | none => s

/-- `TransportCmd::Send`, up to where it has read the MTU. -/
def sendCmd (s : Shared) (link : LinkId) : Shared :=
  match s.notifying, s.link with
  | none, some l => if l.link = link then { s with notifying := some link } else s
  | _, _ => s

def notified (s : Shared) (failure : Option String) : Shared :=
  match s.notifying, failure with
  | some link, some e => { s with notifying := none }.dropLink link (.transport e)
  | _, _ => { s with notifying := none }

def closeCmd (s : Shared) (link : LinkId) : Shared :=
  match s.notifying with
  | some _ => s
  | none => s.dropLink link .closed

end Shared

inductive Step where
  /-- A device writes. Is the holder, if that is another, still connected? -/
  | write (w : Write) (connected : Bool)
  | startNotify
  | supervise (connected : Bool)
  /-- A watcher saw this device go. -/
  | departed (device : String)
  | proceed (i : ℕ)
  | send (link : LinkId)
  | notified (failure : Option String)
  | close (link : LinkId)

def step (s : Shared) : Step → Shared
  | .write w connected => s.writeValue w connected
  | .startNotify => s.readHolder
  | .supervise connected => if connected then s else s.readHolder
  | .departed device => { s with pending := s.pending ++ [.drop device none] }
  | .proceed i => s.proceed i
  | .send link => s.sendCmd link
  | .notified failure => s.notified failure
  | .close link => s.closeCmd link

/-- One link from up to down, where it is down, and the fragments its device wrote meanwhile. -/
structure Session where
  link : LinkId
  device : String
  fragments : List Bytes
  down : Option LinkDownReason

def entry (link : LinkId) (device : String) (f : Bytes) : Except Ble.BleError (Option Bytes) →
    List Entry
  | .ok (some msg) => [.fragment device f, .event (.linkRecv link msg)]
  | _ => [.fragment device f]

def entries (link : LinkId) (device : String) (r : Ble.Reassembler) : List Bytes → List Entry
  | [] => []
  | f :: fs => entry link device f (r.push f).2 ++ entries link device (r.push f).1 fs

/-- The link comes up, takes in its own device's fragments and nothing else, and goes down. -/
def Session.log (id : TransportId) (x : Session) : List Entry :=
  .event (.linkUp x.link (.ble id) none) ::
    (entries x.link x.device (.new (LinkAttrs.ble id).maxMessage) x.fragments ++
      x.down.toList.map fun reason => .event (.linkDown x.link reason))

/-- One link after another, each down before the next is up; no id twice among so many, and then
the same ids in turn. -/
structure Lifecycle (id : TransportId) (log : List Entry) (sessions : List Session) : Prop where
  log : log = sessions.flatMap (Session.log id)
  down : ∀ x ∈ sessions.dropLast, x.down.isSome
  fresh : ∀ i j x y, sessions[i]? = some x → sessions[j]? = some y → i < j →
    j < i + 2 ^ 48 → x.link ≠ y.link
  again : ∀ (i : ℕ) x y, sessions[i]? = some x → sessions[i + 2 ^ 48]? = some y → y.link = x.link

theorem entries_concat (link : LinkId) (device : String) (r : Ble.Reassembler) (fs : List Bytes)
    (f : Bytes) : entries link device r (fs ++ [f]) =
      entries link device r fs ++ entry link device f ((r.after fs).push f).2 := by
  induction fs generalizing r with
  | nil => simp [entries, Ble.Reassembler.after]
  | cons g fs ih =>
    have hrest := ih (r.push g).1
    have hafter : r.after (g :: fs) = (r.push g).1.after fs := rfl
    rw [List.cons_append, entries, entries, hrest, hafter, List.append_assoc]

def Link.session (l : Link) (fragments : List Bytes) : Session :=
  ⟨l.link, l.device, fragments, none⟩

/-- What the state tells of the log: the links that are over, and the fragments of the one that is
up. -/
structure Shared.Told (id : TransportId) (s : Shared) (past : List Session) (now : List Bytes) :
    Prop where
  same : s.id = id
  ended : ∀ x ∈ past, x.down.isSome
  ids : ∀ i x, past[i]? = some x → x.link = LinkId.new id (1 + i)
  log : s.log = past.flatMap (Session.log id) ++ s.link.elim [] fun l => (l.session now).log id
  link : ∀ l, s.link = some l → l.link = LinkId.new id (1 + past.length) ∧
    l.reassembler = (Ble.Reassembler.new (LinkAttrs.ble id).maxMessage).after now
  next : s.nextLink % 2 ^ 48 = (1 + past.length + if s.link.isSome then 1 else 0) % 2 ^ 48

def Shared.Tells (id : TransportId) (s : Shared) : Prop := ∃ past now, s.Told id past now

namespace Shared
variable {id : TransportId} {s : Shared} {past : List Session} {now : List Bytes} {l : Link}

theorem Tells.pending (h : s.Tells id) (pending : List Pending) : { s with pending }.Tells id := by
  obtain ⟨past, now, h⟩ := h
  exact ⟨past, now, h.same, h.ended, h.ids, h.log, h.link, h.next⟩

theorem Tells.notifying (h : s.Tells id) (notifying : Option LinkId) :
    { s with notifying }.Tells id := by
  obtain ⟨past, now, h⟩ := h
  exact ⟨past, now, h.same, h.ended, h.ids, h.log, h.link, h.next⟩

/-- The log of a session that is over. -/
theorem session_down (l : Link) (now : List Bytes) (reason : LinkDownReason) :
    Session.log id ⟨l.link, l.device, now, some reason⟩ =
      (l.session now).log id ++ [.event (.linkDown l.link reason)] := by
  simp [Session.log, Link.session]

theorem session_concat (l : Link) (now : List Bytes) (f : Bytes)
    (h : l.reassembler = (Ble.Reassembler.new (LinkAttrs.ble id).maxMessage).after now) :
    (l.session (now ++ [f])).log id =
      (l.session now).log id ++ entry l.link l.device f (l.reassembler.push f).2 := by
  have hconcat := entries_concat l.link l.device
    (Ble.Reassembler.new (LinkAttrs.ble id).maxMessage) now f
  rw [← h] at hconcat
  simp only [Session.log, Link.session, Option.toList_none, List.map_nil, List.append_nil,
    hconcat, List.cons_append]

theorem ids_concat {x : Session}
    (h : ∀ i x, past[i]? = some x → x.link = LinkId.new id (1 + i))
    (hx : x.link = LinkId.new id (1 + past.length)) :
    ∀ i y, (past ++ [x])[i]? = some y → y.link = LinkId.new id (1 + i) := by
  intro i y hi
  by_cases hlt : i < past.length
  · rw [List.getElem?_append_left hlt] at hi
    exact h i y hi
  · obtain ⟨hle, -⟩ := List.getElem?_eq_some_iff.mp hi
    rw [List.length_append, List.length_singleton] at hle
    have hlast : i = past.length := by omega
    rw [hlast, List.getElem?_concat_length] at hi
    rw [hlast, ← Option.some.inj hi, hx]

/-- The link that was up is over, whatever it took in last. -/
theorem Told.retired (h : s.Told id past now) (hl : s.link = some l) {log : List Entry}
    {taken : List Bytes} (reason : LinkDownReason)
    (hlog : log = past.flatMap (Session.log id) ++ (l.session taken).log id) :
    ({ s with log }.retire l.link reason).Tells id := by
  refine ⟨past ++ [⟨l.link, l.device, taken, some reason⟩], [], ?_⟩
  constructor
  · exact h.same
  · intro x hx
    rcases List.mem_append.mp hx with hx | hx
    · exact h.ended x hx
    · rw [List.mem_singleton.mp hx]
      rfl
  · exact ids_concat h.ids (h.link l hl).1
  · show log ++ _ = _ ++ []
    rw [hlog, List.flatMap_append, List.flatMap_singleton, List.append_nil, List.append_assoc]
    rw [session_down]
  · intro l' hl'
    cases hl'
  · have hnext := h.next
    rw [hl] at hnext
    show s.nextLink % 2 ^ 48 = _
    rw [hnext, List.length_append]
    rfl

theorem Told.retire (h : s.Told id past now) (hl : s.link = some l) (reason : LinkDownReason) :
    (s.retire l.link reason).Tells id := by
  have hlog := h.log
  rw [hl] at hlog
  exact h.retired hl reason hlog

theorem Tells.dropLinkFor (h : s.Tells id) (device : String) : (s.dropLinkFor device).Tells id := by
  obtain ⟨past, now, htold⟩ := h
  unfold Shared.dropLinkFor
  cases hl : s.link with
  | none => exact ⟨past, now, htold⟩
  | some l =>
    dsimp only
    by_cases hdevice : l.device = device
    · rw [if_pos hdevice]
      exact htold.retire hl .closed
    · rw [if_neg hdevice]
      exact ⟨past, now, htold⟩

theorem Tells.dropLink (h : s.Tells id) (link : LinkId) (reason : LinkDownReason) :
    (s.dropLink link reason).Tells id := by
  obtain ⟨past, now, htold⟩ := h
  unfold Shared.dropLink
  cases hl : s.link with
  | none => exact ⟨past, now, htold⟩
  | some l =>
    dsimp only
    by_cases hlink : l.link = link
    · rw [if_pos hlink, ← hlink]
      exact htold.retire hl reason
    · rw [if_neg hlink]
      exact ⟨past, now, htold⟩

theorem takeIn_ok {w : Write} {r : Ble.Reassembler} {out : Option Bytes}
    (h : l.reassembler.push w.value = (r, .ok out)) :
    s.takeIn l w = { s with
      link := some { l with mtu := w.mtu.getD l.mtu, reassembler := r }
      log := s.log ++ entry l.link w.device w.value (.ok out) } := by
  unfold Shared.takeIn
  rw [h]
  cases out with
  | none => rfl
  | some msg =>
    unfold Shared.send
    simp [entry]

/-- One more fragment of the device whose link it is. -/
theorem Told.takeIn (h : s.Told id past now) (hl : s.link = some l) {w : Write}
    (hdevice : l.device = w.device) : (s.takeIn l w).Tells id := by
  obtain rfl := h.same
  obtain ⟨hid, hreassembler⟩ := h.link l hl
  have hlog := h.log
  have hnext := h.next
  have hafter : (Ble.Reassembler.new (LinkAttrs.ble s.id).maxMessage).after (now ++ [w.value]) =
      (l.reassembler.push w.value).1 := by
    rw [hreassembler]
    exact Lib.run_append ..
  have hsession := session_concat l now w.value hreassembler
  rw [hl] at hlog hnext
  cases hpush : l.reassembler.push w.value with
  | mk r result =>
    rw [hpush] at hafter hsession
    cases result with
    | ok out =>
      rw [takeIn_ok hpush]
      refine ⟨past, now ++ [w.value], rfl, h.ended, h.ids, ?_, ?_, hnext⟩
      · show s.log ++ _ = _ ++ (l.session (now ++ [w.value])).log s.id
        rw [hsession, hlog, ← hdevice]
        exact List.append_assoc ..
      · intro l' hl'
        rw [← Option.some.inj hl']
        exact ⟨hid, hafter.symm⟩
    | error e =>
      have hdown : s.takeIn l w =
          ({ s with log := s.log ++ [.fragment w.device w.value] } : Shared).retire l.link
            (.transport e.text) := by
        unfold Shared.takeIn
        rw [hpush]
      rw [hdown]
      apply h.retired hl
      rw [hsession, hlog, ← hdevice]
      exact List.append_assoc ..

theorem Tells.finishWrite (h : s.Tells id) (w : Write) : (s.finishWrite w).Tells id := by
  obtain ⟨past, now, htold⟩ := h
  unfold Shared.finishWrite
  cases hl : s.link with
  | some l =>
    dsimp only
    by_cases hdevice : l.device = w.device
    · rw [if_pos hdevice]
      exact htold.takeIn hl hdevice
    · rw [if_neg hdevice]
      exact ⟨past, now, htold⟩
  | none =>
    obtain rfl := htold.same
    have hnext := htold.next
    have hlog := htold.log
    rw [hl] at hnext hlog
    have hid : LinkId.new s.id s.nextLink = LinkId.new s.id (1 + past.length) := by
      unfold LinkId.new
      rw [hnext]
      rfl
    refine @Told.takeIn _ _ past [] _ ?_ rfl _ rfl
    refine ⟨rfl, htold.ended, htold.ids, ?_, ?_, ?_⟩
    · show s.log ++ _ = _
      rw [hlog]
      simp [Session.log, Link.session, entries, Shared.send]
    · intro l hl'
      rw [← Option.some.inj hl']
      exact ⟨hid, rfl⟩
    · show (s.nextLink + 1) % 2 ^ 64 % 2 ^ 48 = (1 + past.length + 1) % 2 ^ 48
      have hzero : s.nextLink % 2 ^ 48 = (1 + past.length + 0) % 2 ^ 48 := hnext
      omega

theorem Tells.writeValue (h : s.Tells id) (w : Write) (connected : Bool) :
    (s.writeValue w connected).Tells id := by
  unfold Shared.writeValue
  split
  · split_ifs
    · exact h.pending _
    · exact h.finishWrite w
  · exact h.finishWrite w

theorem Tells.readHolder (h : s.Tells id) : s.readHolder.Tells id := by
  unfold Shared.readHolder
  split
  · exact h.pending _
  · exact h

theorem Tells.proceed (h : s.Tells id) (i : ℕ) : (s.proceed i).Tells id := by
  unfold Shared.proceed
  cases s.pending[i]? with
  | none => exact h
  | some p =>
    cases p with
    | drop device write =>
      cases write with
      | none => exact (h.pending _).dropLinkFor device
      | some w => exact (h.pending _).dropLinkFor device
    | finish w => exact (h.pending _).finishWrite w

theorem Tells.sendCmd (h : s.Tells id) (link : LinkId) : (s.sendCmd link).Tells id := by
  unfold Shared.sendCmd
  split
  · split_ifs
    · exact h.notifying _
    · exact h
  · exact h

theorem Tells.notified (h : s.Tells id) (failure : Option String) :
    (s.notified failure).Tells id := by
  unfold Shared.notified
  split
  · exact (h.notifying none).dropLink _ _
  · exact h.notifying none

theorem Tells.closeCmd (h : s.Tells id) (link : LinkId) : (s.closeCmd link).Tells id := by
  unfold Shared.closeCmd
  cases s.notifying with
  | none => exact h.dropLink link .closed
  | some _ => exact h

theorem tells_step (h : s.Tells id) (x : Step) : (step s x).Tells id := by
  cases x with
  | write w connected => exact h.writeValue w connected
  | startNotify => exact h.readHolder
  | supervise connected =>
    cases connected with
    | true => exact h
    | false => exact h.readHolder
  | departed device => exact h.pending _
  | proceed i => exact h.proceed i
  | send link => exact h.sendCmd link
  | notified failure => exact h.notified failure
  | close link => exact h.closeCmd link

theorem tells_new (id : TransportId) : (new id).Tells id := by
  refine ⟨[], [], rfl, nofun, nofun, rfl, nofun, rfl⟩

end Shared

theorem LinkId.new_ne {transport i j : ℕ} (hlt : i < j) (hnear : j < i + 2 ^ 48) :
    LinkId.new transport (1 + i) ≠ LinkId.new transport (1 + j) := by
  intro heq
  have hmod : (1 + i) % 2 ^ 48 = (1 + j) % 2 ^ 48 := Nat.add_left_cancel heq
  omega

/-- The counter wraps around. -/
theorem LinkId.new_add (transport i : ℕ) :
    LinkId.new transport (1 + (i + 2 ^ 48)) = LinkId.new transport (1 + i) := by
  unfold LinkId.new
  rw [← Nat.add_assoc, Nat.add_mod_right]

/-- Whatever the tasks do, and in whatever order, links come one after another. -/
theorem lifecycle (id : TransportId) (steps : List Step) :
    ∃ sessions, Lifecycle id (Lib.run step (.new id) steps).log sessions := by
  obtain ⟨past, now, htold⟩ : (Lib.run step (.new id) steps).Tells id :=
    Lib.run_inv (I := Shared.Tells id) (fun (_ : Shared) (x : Step) h => Shared.tells_step h x)
      (Shared.tells_new id) steps
  have hlog := htold.log
  have hids := htold.ids
  cases hl : (Lib.run step (.new id) steps).link with
  | none =>
    rw [hl] at hlog
    refine ⟨past, ?_, ?_, ?_, ?_⟩
    · rw [hlog]
      exact List.append_nil _
    · intro x hx
      exact htold.ended x (List.dropLast_subset past hx)
    · intro i j x y hx hy hlt hnear
      rw [hids i x hx, hids j y hy]
      exact LinkId.new_ne hlt hnear
    · intro i x y hx hy
      rw [hids i x hx, hids _ y hy]
      exact LinkId.new_add id i
  | some l =>
    have hlink := (htold.link l hl).1
    rw [hl] at hlog
    have hall := Shared.ids_concat (x := l.session now) hids hlink
    refine ⟨past ++ [l.session now], ?_, ?_, ?_, ?_⟩
    · rw [hlog, List.flatMap_append, List.flatMap_singleton]
      rfl
    · intro x hx
      rw [List.dropLast_concat] at hx
      exact htold.ended x hx
    · intro i j x y hx hy hlt hnear
      rw [hall i x hx, hall j y hy]
      exact LinkId.new_ne hlt hnear
    · intro i x y hx hy
      rw [hall i x hx, hall _ y hy]
      exact LinkId.new_add id i

def linkUps (log : List Entry) : List LinkId :=
  log.filterMap fun
    | .event (.linkUp link _ _) => some link
    | _ => none

def malformed : Step := .write ⟨"dev_A", none, []⟩ true

theorem linkUps_malformed (id : TransportId) (counter n : ℕ) (log : List Entry) :
    linkUps (Lib.run step ⟨id, counter, none, none, [], log⟩ (List.replicate n malformed)).log =
      linkUps log ++ (List.range n).map fun i => LinkId.new id (counter + i) := by
  induction n generalizing counter log with
  | zero => simp
  | succ n ih =>
    have hstep : step ⟨id, counter, none, none, [], log⟩ malformed =
        ⟨id, (counter + 1) % 2 ^ 64, none, none, [],
          log ++ [.event (.linkUp (LinkId.new id counter) (.ble id) none), .fragment "dev_A" [],
            .event (.linkDown (LinkId.new id counter) (.transport Ble.BleError.empty.text))]⟩ := by
      simp [step, malformed, Shared.writeValue, Shared.finishWrite, Shared.takeIn, Shared.send,
        Shared.retire, Ble.Reassembler.push]
    have hids (i : ℕ) : LinkId.new id ((counter + 1) % 2 ^ 64 + i) =
        LinkId.new id (counter + (i + 1)) := by
      have hmod : ((counter + 1) % 2 ^ 64 + i) % 2 ^ 48 = (counter + (i + 1)) % 2 ^ 48 := by omega
      unfold LinkId.new
      rw [hmod]
    have hmap : (List.range n).map (fun i => LinkId.new id ((counter + 1) % 2 ^ 64 + i)) =
        (List.range n).map fun i => LinkId.new id (counter + (i + 1)) :=
      List.map_congr_left fun i _ => hids i
    rw [List.replicate_succ, Lib.run_cons, hstep, ih, List.range_succ_eq_map, hmap]
    simp [linkUps]

/-- The id of the first link is that of another, so many links later. -/
theorem link_id_comes_back :
    ¬(linkUps (Lib.run step (.new 2) (List.replicate (2 ^ 48 + 1) malformed)).log).Nodup := by
  obtain ⟨n, hn⟩ : ∃ n, n = 2 ^ 48 := ⟨_, rfl⟩
  rw [← hn]
  have hups := linkUps_malformed 2 1 (n + 1) []
  intro hnodup
  rw [Shared.new, hups] at hnodup
  have hfirst : 0 ∈ List.range (n + 1) := List.mem_range.mpr (Nat.succ_pos n)
  have hlast : n ∈ List.range (n + 1) := List.mem_range.mpr (Nat.lt_succ_self n)
  have heq : LinkId.new 2 (1 + 0) = LinkId.new 2 (1 + n) := by
    rw [hn, ← LinkId.new_add, Nat.zero_add]
  have hsame := List.inj_on_of_nodup_map hnodup hfirst hlast heq
  omega

end BleTransport
end Acrylius
