import Acrylius.Lib.Inodes
import Acrylius.Lib.Run
import Acrylius.Plugins.Share
import Acrylius.Proto.SafeName
import Acrylius.Rt.Bulk

/-! Incoming transfers of the daemon: the download directory, what `FileBulk` keeps of each transfer
(`acryliusd/src/files.rs`), and the task that `Runtime` runs for it (`runtime.rs`). Tasks take turns
in any order. Which bytes a connection carries is for the stream to say; a task is told what
opened. -/
namespace Acrylius.Downloads
open Proto Std Bulk

/-- A name that was reserved, and the number of the reservation. -/
structure Place where
  dest : String
  no : ℕ
deriving DecidableEq

structure Incoming where
  place : Place
  expectBytes : ℕ
  listening : Bool
  connected : Bool

/-- Where a task stands. What it has reserved is named even where only the table tells it so. -/
inductive At where
  | listen (expectBytes : ℕ)
  | reserve (expectBytes : ℕ) (candidates : List String)
  | bind (expectBytes : ℕ) (place : Place)
  | accept (place : Place)
  | waiting (place : Place)
  | receive (place : Place)
  | create (place : Place) (expectBytes : ℕ)
  | read (place : Place) (expectBytes : ℕ) (file : Lib.Inode String) (written : Bytes)
  | write (place : Place) (expectBytes : ℕ) (file : Lib.Inode String) (written plain : Bytes)
  | rename (place : Place) (expectBytes : ℕ) (file : Lib.Inode String) (written : Bytes)
  | remove (place : Place) (file : Lib.Inode String)
  | forget (place : Place) (arrived : Option (ℕ × Bytes))
  | check (place : Place)
  | unlink (place : Place)
  | finished (ok : Bool)
  | gone

/-- A task waits here, so it is here that it stops when it is aborted. -/
def At.awaits : At → Bool
  | .bind .. | .waiting .. | .create .. | .read .. | .write .. | .rename .. | .remove .. => true
  | _ => false

structure Task where
  transfer : TransferId
  pc : At
  aborted : Bool

inductive Answer where
  | works
  | fails
  /-- A write that fails after so many bytes. -/
  | partly (done : ℕ)
  /-- A frame that opened. -/
  | chunk (plain : Bytes)
  /-- The clean end of the stream. -/
  | ends
deriving DecidableEq

abbrev Offers := ExtTreeMap TransferId (String × Share.Offer)

/-- The download directory: files are owned by the reservation they were made for. -/
abbrev Dir := Lib.Tree String UInt8 ℕ

structure World where
  dir : Dir
  reserved : ℕ
  offers : Offers
  incoming : TransferId → Option Incoming
  tasks : ℕ → Option Task
  spawned : ℕ
  /-- The task carrying each transfer. -/
  running : TransferId → Option ℕ
  /-- The `BulkFinished` events that the loop has yet to take. -/
  reports : List TransferId
  /-- The transfers that succeeded, how much they expected and what they wrote. -/
  arrived : List (Place × ℕ × Bytes)

namespace World

def new (files : String → Option Bytes) : World where
  dir := .ofFiles files
  reserved := 0
  offers := ∅
  incoming _ := none
  tasks _ := none
  spawned := 0
  running _ := none
  reports := []
  arrived := []

def noteOffer (s : World) (peer : String) (offer : Share.Offer) : World :=
  { s with offers := s.offers.insert offer.transfer (peer, offer) }

/-- `FileBulk::forget`, of what is incoming. -/
def forget (s : World) (transfer : TransferId) : World :=
  { s with
    offers := s.offers.erase transfer
    incoming := Function.update s.incoming transfer none }

def bulkListen (s : World) (transfer : TransferId) (expectBytes : ℕ) : World :=
  { s with
    tasks := Function.update s.tasks s.spawned (some ⟨transfer, .listen expectBytes, false⟩)
    spawned := s.spawned + 1
    running := Function.update s.running transfer (some s.spawned) }

def abort (s : World) (i : ℕ) : World :=
  { s with tasks := Function.update s.tasks i ((s.tasks i).map fun t => { t with aborted := true }) }

def bulkCancel (s : World) (transfer : TransferId) : World :=
  match s.running transfer with
  | some i => { s.abort i with running := Function.update s.running transfer none }.forget transfer
  | none => s.forget transfer

def takeReport (s : World) : World :=
  match s.reports with
  | transfer :: rest =>
    { s with reports := rest, running := Function.update s.running transfer none }
  | [] => s

def goto (s : World) (i : ℕ) (t : Task) (pc : At) : World :=
  { s with tasks := Function.update s.tasks i (some { t with pc }) }

def finish (s : World) (i : ℕ) (t : Task) (ok : Bool) : World :=
  { s.goto i t (.finished ok) with reports := s.reports ++ [t.transfer] }

def setIncoming (s : World) (transfer : TransferId) (e : Incoming) : World :=
  { s with incoming := Function.update s.incoming transfer (some e) }

/-- The next thing a task does: `FileBulk::listen` with `reserve_path`, `accept`, `receive` with
`Accepted::receive`. -/
def act (s : World) (i : ℕ) (t : Task) (a : Answer) : World :=
  match t.pc with
  | .listen expectBytes =>
    match s.offers[t.transfer]? with
    | some (_, offer) =>
      s.goto i t (.reserve expectBytes (candidates (safeName offer.name)))
    | none => s.finish i t false
  | .reserve _ [] => s.finish i t false
  | .reserve expectBytes (name :: rest) =>
    if a ≠ .works then s.finish i t false
    else match s.dir.createNew name s.reserved with
      | some dir =>
        { s with dir, reserved := s.reserved + 1 }.goto i t (.bind expectBytes ⟨name, s.reserved⟩)
      | none => s.goto i t (.reserve expectBytes rest)
  | .bind expectBytes place =>
    if a = .works then
      (s.setIncoming t.transfer ⟨place, expectBytes, true, false⟩).goto i t (.accept place)
    else s.finish i t false
  | .accept place =>
    match s.incoming t.transfer with
    | some e =>
      if e.listening then
        (s.setIncoming t.transfer { e with listening := false }).goto i t (.waiting place)
      else s.finish i t false
    | none => s.finish i t false
  | .waiting place =>
    if a ≠ .works then s.finish i t false
    else match s.incoming t.transfer with
      | some e => (s.setIncoming t.transfer { e with connected := true }).goto i t (.receive place)
      | none => s.finish i t false
  | .receive _ =>
    match s.incoming t.transfer with
    | some e =>
      if e.connected then
        (s.setIncoming t.transfer { e with connected := false }).goto i t
          (.create e.place e.expectBytes)
      else s.finish i t false
    | none => s.finish i t false
  | .create place expectBytes =>
    let tmp := tempBeside place.dest
    if a = .works then
      { s with dir := s.dir.create tmp place.no }.goto i t
        (.read place expectBytes (s.dir.opened tmp) [])
    else s.goto i t (.forget place none)
  | .read place expectBytes file written =>
    match a with
    | .chunk plain =>
      if expectBytes < (written ++ plain).length then s.goto i t (.remove place file)
      else s.goto i t (.write place expectBytes file written plain)
    | .ends =>
      if written.length = expectBytes then s.goto i t (.rename place expectBytes file written)
      else s.goto i t (.remove place file)
    | _ => s.goto i t (.remove place file)
  | .write place expectBytes file written plain =>
    match a with
    | .works =>
      { s with dir := s.dir.append file plain }.goto i t
        (.read place expectBytes file (written ++ plain))
    | .partly done =>
      { s with dir := s.dir.append file (plain.take done) }.goto i t (.remove place file)
    | _ => s.goto i t (.remove place file)
  | .rename place expectBytes _ written =>
    let tmp := tempBeside place.dest
    if a = .works ∧ (s.dir.dir tmp).isSome then
      { s with dir := s.dir.rename tmp place.dest }.goto i t
        (.forget place (some (expectBytes, written)))
    else s.goto i t (.forget place none)
  | .remove place _ =>
    if a = .works then
      { s with dir := s.dir.remove (tempBeside place.dest) }.goto i t (.forget place none)
    else s.goto i t (.forget place none)
  | .forget place arrived =>
    match arrived with
    | some whole =>
      { s.forget t.transfer with arrived := s.arrived ++ [(place, whole)] }.finish i t true
    | none => (s.forget t.transfer).goto i t (.check place)
  | .check place =>
    if a = .works ∧ (s.dir.dir place.dest).any (fun file => s.dir.bytes file = []) then
      s.goto i t (.unlink place)
    else s.finish i t false
  | .unlink place =>
    if a = .works then { s with dir := s.dir.remove place.dest }.finish i t false
    else s.finish i t false
  | .finished _ | .gone => s

/-- What a task that was aborted leaves to be done: the one operation it was waiting for. -/
def leftover (dir : Dir) (a : Answer) : At → Dir
  | .create place _ =>
    if a = .works then dir.create (tempBeside place.dest) place.no else dir
  | .write _ _ file _ plain =>
    match a with
    | .works => dir.append file plain
    | .partly done => dir.append file (plain.take done)
    | _ => dir
  | .rename place _ _ _ =>
    if a = .works then dir.rename (tempBeside place.dest) place.dest else dir
  | .remove place _ => if a = .works then dir.remove (tempBeside place.dest) else dir
  | _ => dir

def proceed (s : World) (i : ℕ) (a : Answer) : World :=
  match s.tasks i with
  | some t => if t.aborted && t.pc.awaits then s else s.act i t a
  | none => s

/-- An aborted task stops where it waits, or before it has begun. -/
def stop (s : World) (i : ℕ) (a : Answer) : World :=
  match s.tasks i with
  | some t =>
    match t.aborted, t.pc with
    | true, .listen _ => s.goto i t .gone
    | true, pc => if pc.awaits then { s with dir := leftover s.dir a pc }.goto i t .gone else s
    | false, _ => s
  | none => s

end World

inductive Step where
  | note (peer : String) (offer : Share.Offer)
  /-- `FileBulk::forget` by anyone else: an offer is rejected here, or a sending ends. -/
  | forget (transfer : TransferId)
  | bulkListen (transfer : TransferId) (expectBytes : ℕ)
  | bulkCancel (transfer : TransferId)
  | takeReport
  | proceed (task : ℕ) (a : Answer)
  | stop (task : ℕ) (a : Answer)

def step (s : World) : Step → World
  | .note peer offer => s.noteOffer peer offer
  | .forget transfer => s.forget transfer
  | .bulkListen transfer expectBytes => s.bulkListen transfer expectBytes
  | .bulkCancel transfer => s.bulkCancel transfer
  | .takeReport => s.takeReport
  | .proceed i a => s.proceed i a
  | .stop i a => s.stop i a

end Acrylius.Downloads
