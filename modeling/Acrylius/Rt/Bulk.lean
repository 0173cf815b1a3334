import Acrylius.Lib.Disk
import Acrylius.Lib.Trim
import Acrylius.Proto.Bulk

/-! Bulk file transfer over its own connection, as the daemon does it (`acrylius-rt/src/bulk.rs`).
Every operation on a file or a socket may fail. -/
namespace Acrylius.Bulk
open Proto Proto.Bulk

abbrev Files := Lib.Disk String UInt8

/-- What the operating system does to one transfer: which operations fail, counted where there are
several, and how much of a failing write is done. -/
structure Faults where
  source : Bool
  connect : Bool
  fileRead : ℕ → Bool
  send : ℕ → Option ℕ
  shutdown : Bool
  accept : Bool
  read : ℕ → Bool
  create : Bool
  write : ℕ → Option ℕ
  flush : Bool
  rename : Bool
  remove : Bool

def Faults.none : Faults where
  source := false
  connect := false
  fileRead _ := false
  send _ := .none
  shutdown := false
  accept := false
  read _ := false
  create := false
  write _ := .none
  flush := false
  rename := false
  remove := false

inductive TransferError where
  | io
  | eof
  | hello (e : HelloError)
  | otherTransfer (named : ℕ)
  | tooBig (size : ℕ)
  | chunk (e : ChunkError)
  | more
  | short (written expect : ℕ)
deriving DecidableEq

/-- A connection: what the other end will have sent on it, and how often we have read. -/
structure Socket where
  left : Bytes
  reads : ℕ

/-- `read_exact`: all of so many bytes, or the end of the stream before them. -/
def readExact (w : Faults) (s : Socket) (size : ℕ) : Except TransferError Bytes × Socket :=
  if w.read s.reads then (.error .io, ⟨s.left, s.reads + 1⟩)
  else if s.left.length < size then (.error .eof, ⟨[], s.reads + 1⟩)
  else (.ok (s.left.take size), ⟨s.left.drop size, s.reads + 1⟩)

/-- Read one frame, or `none` at a clean end of stream. -/
def readFrame (w : Faults) (s : Socket) : Except TransferError (Option Bytes) × Socket :=
  match readExact w s 4 with
  | (.error .eof, s) => (.ok none, s)
  | (.error e, s) => (.error e, s)
  | (.ok len, s) =>
    let n := Lib.BigEndian.value len
    if maxFrame < n then (.error (.tooBig n), s)
    else match readExact w s n with
      | (.error e, s) => (.error e, s)
      | (.ok buf, s) => (.ok (some buf), s)

theorem readExact_ok {w : Faults} {s s' : Socket} {size : ℕ} {bs : Bytes}
    (h : readExact w s size = (.ok bs, s')) : s.left = bs ++ s'.left ∧ bs.length = size := by
  unfold readExact at h
  by_cases hfault : w.read s.reads
  · rw [if_pos hfault] at h
    cases h
  by_cases hshort : s.left.length < size
  · rw [if_neg hfault, if_pos hshort] at h
    cases h
  rw [if_neg hfault, if_neg hshort] at h
  obtain ⟨hbs, hs⟩ := Prod.mk.inj h
  have hbs := Except.ok.inj hbs
  rw [← hs, ← hbs, List.length_take]
  constructor
  · exact (List.take_append_drop size s.left).symm
  · omega

/-- A frame that was read: its length, then as many bytes. -/
theorem readFrame_some {w : Faults} {s s' : Socket} {frame : Bytes}
    (h : readFrame w s = (.ok (some frame), s')) :
    s.left = Lib.BigEndian.bytes 4 frame.length ++ frame ++ s'.left ∧ frame.length ≤ maxFrame := by
  unfold readFrame at h
  cases hlen : readExact w s 4 with
  | mk r s₁ =>
    rw [hlen] at h
    cases r with
    | error e => cases e <;> cases h
    | ok len =>
      obtain ⟨hsplit, hsize⟩ := readExact_ok hlen
      dsimp only at h
      by_cases hbig : maxFrame < Lib.BigEndian.value len
      · rw [if_pos hbig] at h
        cases h
      rw [if_neg hbig] at h
      cases hbuf : readExact w s₁ (Lib.BigEndian.value len) with
      | mk r s₂ =>
        rw [hbuf] at h
        cases r with
        | error e => cases h
        | ok buf =>
          obtain ⟨hframe, hs⟩ := Prod.mk.inj h
          obtain rfl := Option.some.inj (Except.ok.inj hframe)
          obtain ⟨hrest, hlength⟩ := readExact_ok hbuf
          have hbytes := Lib.BigEndian.bytes_value len
          rw [hsize] at hbytes
          rw [hsplit, hrest, hlength, hbytes, ← hs, List.append_assoc]
          constructor
          · rfl
          · exact Nat.le_of_not_lt hbig

def tempBeside (dest : String) : String := dest ++ ".part"

theorem tempBeside_ne {dest : String} : dest ≠ tempBeside dest := by
  intro h
  have hlen := congrArg String.length h
  unfold tempBeside at hlen
  rw [String.length_append] at hlen
  have hpart : ".part".length = 5 := rfl
  omega

/-- The paths `reserve_path` tries for a name, one after the other. -/
def candidates (name : String) : List String :=
  let (stem, ext) :=
    match Lib.rsplitOnce '.' name.toList with
    | some (s, e) => if s ≠ [] then (String.ofList s, "." ++ String.ofList e) else (name, "")
    | none => (name, "")
  name :: (List.range' 2 9998).map fun n => stem ++ " (" ++ toString n ++ ")" ++ ext

section Receiving
variable (A : Aead) (w : Faults) (key : Bytes) (expectBytes : ℕ) (dest : String)

/-- The loop of `receive`: opens frame after frame, and writes what they hold. The counters are
`u64`s, which no stream is long enough to exhaust. -/
def receiveLoop (tmp : String) (files : Files) (s : Socket) (written seq : ℕ) :
    Files × Except TransferError ℕ :=
  match _h : readFrame w s with
  | (.error e, _) => (files, .error e)
  | (.ok none, _) =>
    if w.flush then (files, .error .io)
    else if written ≠ expectBytes then (files, .error (.short written expectBytes))
    else (files, .ok written)
  | (.ok (some frame), s') =>
    match A.open key seq frame with
    | .error e => (files, .error (.chunk e))
    | .ok plain =>
      if expectBytes < written + plain.length then (files, .error .more)
      else match w.write seq with
        | some done => (files.append tmp (plain.take done), .error .io)
        | none => receiveLoop tmp (files.append tmp plain) s' (written + plain.length) (seq + 1)
termination_by s.left.length
decreasing_by
  obtain ⟨hsplit, -⟩ := readFrame_some ‹_›
  rw [hsplit]
  simp only [List.length_append, Lib.BigEndian.length_bytes]
  omega

/-- Write what arrives to `dest`, via a temporary renamed at the end. -/
def receive (files : Files) (s : Socket) : Files × Except TransferError ℕ :=
  let tmp := tempBeside dest
  if w.create then (files, .error .io)
  else match receiveLoop A w key expectBytes tmp (files.insert tmp []) s 0 0 with
    | (files, .ok written) =>
      if w.rename then (files, .error .io) else (files.rename tmp dest, .ok written)
    | (files, .error e) => (if w.remove then files else files.erase tmp, .error e)

def accept (transfer : ℕ) (s : Socket) : Except TransferError Socket :=
  if w.accept then .error .io
  else match readExact w s 12 with
  | (.error e, _) => .error e
  | (.ok greeting, s) =>
    match readHello greeting with
    | .error e => .error (.hello e)
    | .ok named => if named ≠ transfer then .error (.otherTransfer named) else .ok s

def acceptAndReceive (transfer : ℕ) (files : Files) (s : Socket) : Files × Except TransferError ℕ :=
  match accept w transfer s with
  | .error e => (files, .error e)
  | .ok s => receive A w key expectBytes dest files s

end Receiving

section Sending
variable (A : Aead) (w : Faults) (key : Bytes)

/-- What is on the wire, and how often it was written to. -/
structure Wire where
  sent : Bytes
  writes : ℕ

def writeAll (s : Wire) (bs : Bytes) : Except TransferError Unit × Wire :=
  match w.send s.writes with
  | some done => (.error .io, ⟨s.sent ++ bs.take done, s.writes + 1⟩)
  | none => (.ok (), ⟨s.sent ++ bs, s.writes + 1⟩)

def writeFrame (s : Wire) (frame : Bytes) : Except TransferError Unit × Wire :=
  if 2 ^ 32 ≤ frame.length then (.error .io, s)
  else match writeAll w s (Lib.BigEndian.bytes 4 frame.length) with
    | (.error e, s) => (.error e, s)
    | (.ok (), s) => writeAll w s frame

/-- The loop of `send`, over what each read of the file gives; an empty read is its end. -/
def sendLoop (s : Wire) (sent seq : ℕ) : List Bytes → Wire × Except TransferError ℕ
  | [] =>
    if w.fileRead seq then (s, .error .io)
    else if w.shutdown then (s, .error .io)
    else (s, .ok sent)
  | buf :: reads =>
    if w.fileRead seq then (s, .error .io)
    else if buf = [] then if w.shutdown then (s, .error .io) else (s, .ok sent)
    else match A.seal key seq buf with
      | .error e => (s, .error (.chunk e))
      | .ok frame =>
        match writeFrame w s frame with
        | (.error e, s) => (s, .error e)
        | (.ok (), s) => sendLoop s (sent + buf.length) (seq + 1) reads

/-- Connect to an endpoint the peer named and send a file, read so and so. -/
def send (transfer : ℕ) (reads : List Bytes) : Wire × Except TransferError ℕ :=
  if w.source then (⟨[], 0⟩, .error .io)
  else if w.connect then (⟨[], 0⟩, .error .io)
  else match writeAll w ⟨[], 0⟩ (hello transfer) with
    | (.error e, s) => (s, .error e)
    | (.ok (), s) => sendLoop A w key s 0 0 reads

end Sending
end Acrylius.Bulk
