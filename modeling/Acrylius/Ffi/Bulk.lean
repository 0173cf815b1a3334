import Acrylius.Rt.Bulk

/-! Bulk file transfer without an async runtime (`acrylius-ffi/src/bulk.rs`), and where it parts
from the daemon's: a temporary file that cannot be made is removed all the same. -/
namespace Acrylius.Ffi
open Proto Proto.Bulk Bulk

section Receiving
variable (A : Aead) (w : Faults) (key : Bytes) (expectBytes : ℕ) (dest : String)

/-- The loop of `receive`, which reads its frames itself. -/
def receiveLoop (tmp : String) (files : Files) (s : Socket) (written seq : ℕ) :
    Files × Except TransferError ℕ :=
  match _h : readExact w s 4 with
  | (.error .eof, _) =>
    if w.flush then (files, .error .io)
    else if written ≠ expectBytes then (files, .error (.short written expectBytes))
    else (files, .ok written)
  | (.error e, _) => (files, .error e)
  | (.ok head, s₁) =>
    let len := Lib.BigEndian.value head
    if maxFrame < len then (files, .error (.tooBig len))
    else match _h' : readExact w s₁ len with
      | (.error e, _) => (files, .error e)
      | (.ok frame, s₂) =>
        match A.open key seq frame with
        | .error e => (files, .error (.chunk e))
        | .ok plain =>
          if expectBytes < written + plain.length then (files, .error .more)
          else match w.write seq with
            | some done => (files.append tmp (plain.take done), .error .io)
            | none =>
              receiveLoop tmp (files.append tmp plain) s₂ (written + plain.length) (seq + 1)
termination_by s.left.length
decreasing_by
  have hhead := readExact_ok ‹readExact w s 4 = _›
  have hframe := readExact_ok ‹readExact w s₁ _ = _›
  rw [hhead.1, hframe.1, List.length_append, List.length_append]
  omega

def accept (transfer : ℕ) (s : Socket) : Except TransferError Socket :=
  if w.accept then .error .io
  else match readExact w s 12 with
  | (.error e, _) => .error e
  | (.ok greeting, s) =>
    match readHello greeting with
    | .error e => .error (.hello e)
    | .ok named => if named ≠ transfer then .error (.otherTransfer named) else .ok s

/-- The temporary file is made with the rest of the work, so failing to make it removes it. -/
def receive (files : Files) (s : Socket) : Files × Except TransferError ℕ :=
  let tmp := tempBeside dest
  let outcome :=
    if w.create then (files, .error .io)
    else receiveLoop A w key expectBytes tmp (files.insert tmp []) s 0 0
  match outcome with
  | (files, .ok written) =>
    if w.rename then (files, .error .io) else (files.rename tmp dest, .ok written)
  | (files, .error e) => (if w.remove then files else files.erase tmp, .error e)

def acceptAndReceive (transfer : ℕ) (files : Files) (s : Socket) : Files × Except TransferError ℕ :=
  match accept w transfer s with
  | .error e => (files, .error e)
  | .ok s => receive A w key expectBytes dest files s

end Receiving

section Sending
variable (A : Aead) (w : Faults) (key : Bytes)

/-- The loop of `send`, which frames its chunks itself. -/
def sendLoop (s : Wire) (sent seq : ℕ) : List Bytes → Wire × Except TransferError ℕ
  | [] =>
    if w.fileRead seq then (s, .error .io)
    else if w.shutdown then (s, .error .io)
    else (s, .ok sent)
  | buf :: reads =>
    if w.fileRead seq then (s, .error .io)
    else if buf = [] then if w.shutdown then (s, .error .io) else (s, .ok sent)
    else match A.seal key seq buf with
      | .error e => (s, .error (.chunk e))
      | .ok frame =>
        if 2 ^ 32 ≤ frame.length then (s, .error .io)
        else match writeAll w s (Lib.BigEndian.bytes 4 frame.length) with
          | (.error e, s) => (s, .error e)
          | (.ok (), s) =>
            match writeAll w s frame with
            | (.error e, s) => (s, .error e)
            | (.ok (), s) => sendLoop s (sent + buf.length) (seq + 1) reads

def send (transfer : ℕ) (reads : List Bytes) : Wire × Except TransferError ℕ :=
  if w.source then (⟨[], 0⟩, .error .io)
  else if w.connect then (⟨[], 0⟩, .error .io)
  else match writeAll w ⟨[], 0⟩ (hello transfer) with
    | (.error e, s) => (s, .error e)
    | (.ok (), s) => sendLoop A w key s 0 0 reads

end Sending

section Loops
variable {A : Aead} {w : Faults} {key : Bytes} {expectBytes : ℕ} {tmp : String}

/-- The loop, had it read its frames as the daemon does. -/
theorem receiveLoop_step (files : Files) (s : Socket) (written seq : ℕ) :
    receiveLoop A w key expectBytes tmp files s written seq =
      match readFrame w s with
      | (.error e, _) => (files, .error e)
      | (.ok none, _) =>
        if w.flush then (files, .error .io)
        else if written ≠ expectBytes then (files, .error (.short written expectBytes))
        else (files, .ok written)
      | (.ok (some frame), s') =>
        match A.open key seq frame with
        | .error e => (files, .error (.chunk e))
        | .ok plain =>
          if expectBytes < written + plain.length then (files, .error .more)
          else match w.write seq with
            | some done => (files.append tmp (plain.take done), .error .io)
            | none => receiveLoop A w key expectBytes tmp (files.append tmp plain) s'
                (written + plain.length) (seq + 1) := by
  rw [receiveLoop]
  unfold readFrame
  cases hhead : readExact w s 4 with
  | mk r s₁ =>
    cases r with
    | error e => cases e <;> rfl
    | ok head =>
      dsimp only
      by_cases hbig : maxFrame < Lib.BigEndian.value head
      · rw [if_pos hbig, if_pos hbig]
      · rw [if_neg hbig, if_neg hbig]
        cases hframe : readExact w s₁ (Lib.BigEndian.value head) with
        | mk r s₂ => cases r <;> rfl

theorem receiveLoop_eq (files : Files) (s : Socket) (written seq : ℕ) :
    receiveLoop A w key expectBytes tmp files s written seq =
      Bulk.receiveLoop A w key expectBytes tmp files s written seq := by
  induction files, s, written, seq using Bulk.receiveLoop.induct A w key expectBytes tmp with
  | case1 files s written seq e s' hread => rw [receiveLoop_step, Bulk.receiveLoop, hread]
  | case2 files s written seq s' hread hflush => rw [receiveLoop_step, Bulk.receiveLoop, hread]
  | case3 files s written seq s' hread hflush hshort =>
    rw [receiveLoop_step, Bulk.receiveLoop, hread]
  | case4 files s written seq s' hread hflush hfull =>
    rw [receiveLoop_step, Bulk.receiveLoop, hread]
  | case5 files s written seq frame s' hread e hopen =>
    rw [receiveLoop_step, Bulk.receiveLoop, hread]
    simp [hopen]
  | case6 files s written seq frame s' hread plain hopen hmore =>
    rw [receiveLoop_step, Bulk.receiveLoop, hread]
    simp [hopen, hmore]
  | case7 files s written seq frame s' hread plain hopen hroom done hwrite =>
    rw [receiveLoop_step, Bulk.receiveLoop, hread]
    simp [hopen, hroom, hwrite]
  | case8 files s written seq frame s' hread plain hopen hroom hwrite ih =>
    rw [receiveLoop_step, Bulk.receiveLoop, hread]
    simp [hopen, hroom, hwrite, ih]

theorem sendLoop_eq (s : Wire) (sent seq : ℕ) (reads : List Bytes) :
    sendLoop A w key s sent seq reads = Bulk.sendLoop A w key s sent seq reads := by
  induction reads generalizing s sent seq with
  | nil => rfl
  | cons buf reads ih =>
    unfold sendLoop Bulk.sendLoop
    by_cases hread : w.fileRead seq
    · rw [if_pos hread, if_pos hread]
    rw [if_neg hread, if_neg hread]
    by_cases hend : buf = []
    · rw [if_pos hend, if_pos hend]
    rw [if_neg hend, if_neg hend]
    cases A.seal key seq buf with
    | error e => rfl
    | ok frame =>
      dsimp only
      unfold writeFrame
      by_cases hlong : 2 ^ 32 ≤ frame.length
      · rw [if_pos hlong, if_pos hlong]
      rw [if_neg hlong, if_neg hlong]
      cases writeAll w s (Lib.BigEndian.bytes 4 frame.length) with
      | mk r s₁ =>
        cases r with
        | error e => rfl
        | ok _ =>
          dsimp only
          cases writeAll w s₁ frame with
          | mk r s₂ =>
            cases r with
            | error e => rfl
            | ok _ => exact ih s₂ (sent + buf.length) (seq + 1)

end Loops

section Agreeing
variable {A : Aead} {w : Faults} {key : Bytes} {expectBytes transfer : ℕ} {dest : String}
  {files : Files} {s : Socket}

theorem accept_eq : accept w transfer s = Bulk.accept w transfer s := rfl

theorem send_eq (reads : List Bytes) :
    send A w key transfer reads = Bulk.send A w key transfer reads := by
  unfold send Bulk.send
  cases writeAll w ⟨[], 0⟩ (hello transfer) with
  | mk r s =>
    cases r with
    | error e => rfl
    | ok _ =>
      dsimp only
      rw [sendLoop_eq]

/-- Once the temporary file is made, one receiver is the other. -/
theorem receive_eq (h : ¬w.create) :
    receive A w key expectBytes dest files s = Bulk.receive A w key expectBytes dest files s := by
  unfold receive Bulk.receive
  dsimp only
  rw [if_neg h, if_neg h]
  cases hloop : Bulk.receiveLoop A w key expectBytes (tempBeside dest)
      (files.insert (tempBeside dest) []) s 0 0 with
  | mk files' r =>
    rw [← receiveLoop_eq] at hloop
    cases r with
    | error e => rw [hloop]
    | ok n => rw [hloop]

/-- Where it is not, only this one removes what stands there. -/
theorem receive_not_created (h : w.create) :
    receive A w key expectBytes dest files s =
        (if w.remove then files else files.erase (tempBeside dest), .error .io) ∧
      Bulk.receive A w key expectBytes dest files s = (files, .error .io) := by
  unfold receive Bulk.receive
  dsimp only
  rw [if_pos h, if_pos h]
  exact ⟨rfl, rfl⟩

theorem erase_eq_self {tmp : String} : files.erase tmp = files ↔ tmp ∉ files := by
  constructor
  · intro h hmem
    rw [← h, Lib.mem_erase] at hmem
    exact hmem.1 rfl
  · intro h
    exact Lib.erase_of_none (Std.ExtTreeMap.getElem?_eq_none h)

/-- The connection is for this transfer, as its first twelve bytes tell it. -/
structure Greeted (w : Faults) (transfer : ℕ) (s : Socket) : Prop where
  arrived : ¬w.accept
  read : ¬w.read s.reads
  enough : 12 ≤ s.left.length
  named : readHello (s.left.take 12) = .ok transfer

theorem accept_eq_ok {s' : Socket} (h : Bulk.accept w transfer s = .ok s') :
    Greeted w transfer s := by
  unfold Bulk.accept at h
  by_cases hfault : w.accept
  · rw [if_pos hfault] at h
    cases h
  rw [if_neg hfault] at h
  unfold readExact at h
  by_cases hread : w.read s.reads
  · rw [if_pos hread] at h
    cases h
  rw [if_neg hread] at h
  by_cases hshort : s.left.length < 12
  · rw [if_pos hshort] at h
    cases h
  rw [if_neg hshort] at h
  dsimp only at h
  cases hhello : readHello (s.left.take 12) with
  | error e =>
    rw [hhello] at h
    cases h
  | ok named =>
    rw [hhello] at h
    dsimp only at h
    by_cases hother : named ≠ transfer
    · rw [if_pos hother] at h
      cases h
    · rw [not_not.mp hother] at hhello
      exact ⟨hfault, hread, Nat.le_of_not_lt hshort, hhello⟩

theorem Greeted.accept (h : Greeted w transfer s) :
    Bulk.accept w transfer s = .ok ⟨s.left.drop 12, s.reads + 1⟩ := by
  unfold Bulk.accept readExact
  rw [if_neg h.arrived, if_neg h.read, if_neg (Nat.not_lt.mpr h.enough)]
  dsimp only
  rw [h.named]
  dsimp only
  rw [if_neg (not_not.mpr rfl)]

end Agreeing

/-- The two ends do alike: they take or refuse alike, count alike, and leave the same files; and
they send the same. -/
structure Agree (A : Aead) (w : Faults) (key : Bytes) (expectBytes : ℕ) (dest : String)
    (transfer : ℕ) (files : Files) (s : Socket) (reads : List Bytes) : Prop where
  result : (acceptAndReceive A w key expectBytes dest transfer files s).2.toOption =
    (Bulk.acceptAndReceive A w key expectBytes dest transfer files s).2.toOption
  files : (acceptAndReceive A w key expectBytes dest transfer files s).1 =
    (Bulk.acceptAndReceive A w key expectBytes dest transfer files s).1
  sent : (send A w key transfer reads).1.sent = (Bulk.send A w key transfer reads).1.sent
  count : (send A w key transfer reads).2.toOption = (Bulk.send A w key transfer reads).2.toOption

section Parting
variable {A : Aead} {w : Faults} {key : Bytes} {expectBytes transfer : ℕ} {dest : String}
  {files : Files} {s : Socket} {reads : List Bytes}

theorem Greeted.not_agree (h : Greeted w transfer s) (hcreate : w.create)
    (hmem : tempBeside dest ∈ files) (hremove : ¬w.remove) :
    ¬Agree A w key expectBytes dest transfer files s reads := by
  rintro ⟨-, hfiles, -, -⟩
  obtain ⟨hffi, hrt⟩ : _ ∧ Bulk.receive A w key expectBytes dest files _ = _ :=
    receive_not_created (s := ⟨s.left.drop 12, s.reads + 1⟩) hcreate
  unfold acceptAndReceive Bulk.acceptAndReceive at hfiles
  rw [accept_eq, h.accept] at hfiles
  dsimp only at hfiles
  rw [hffi, hrt, if_neg hremove] at hfiles
  exact erase_eq_self.mp hfiles hmem

theorem acceptAndReceive_eq (A : Aead) (key : Bytes) (expectBytes : ℕ)
    (h : ¬(Greeted w transfer s ∧ w.create ∧ tempBeside dest ∈ files ∧ ¬w.remove)) :
    acceptAndReceive A w key expectBytes dest transfer files s =
      Bulk.acceptAndReceive A w key expectBytes dest transfer files s := by
  unfold acceptAndReceive Bulk.acceptAndReceive
  rw [accept_eq]
  cases haccept : Bulk.accept w transfer s with
  | error e => rfl
  | ok s' =>
    have hgreeted := accept_eq_ok haccept
    dsimp only
    by_cases hcreate : w.create
    · obtain ⟨hffi, hrt⟩ : receive A w key expectBytes dest files s' = _ ∧ _ :=
        receive_not_created hcreate
      rw [hffi, hrt]
      by_cases hremove : w.remove
      · rw [if_pos hremove]
      · rw [if_neg hremove, erase_eq_self.mpr fun hmem => h ⟨hgreeted, hcreate, hmem, hremove⟩]
    · exact receive_eq hcreate

end Parting

/-- They part only where the temporary file cannot be made, for something stands there that can be
removed. -/
theorem agree_iff (A : Aead) (w : Faults) (key : Bytes) (expectBytes : ℕ) (dest : String)
    (transfer : ℕ) (files : Files) (s : Socket) (reads : List Bytes) :
    Agree A w key expectBytes dest transfer files s reads ↔
      ¬(Greeted w transfer s ∧ w.create ∧ tempBeside dest ∈ files ∧ ¬w.remove) := by
  constructor
  · rintro hagree ⟨hgreeted, hcreate, hmem, hremove⟩
    exact hgreeted.not_agree hcreate hmem hremove hagree
  · intro h
    have heq := acceptAndReceive_eq A key expectBytes h
    constructor
    · rw [heq]
    · rw [heq]
    · rw [send_eq]
    · rw [send_eq]

/-- A file that may not be written to is in the way: the daemon leaves it, the phone removes it. -/
theorem file_in_the_way_is_removed :
    ¬Agree ⟨fun _ _ _ => none, fun _ _ _ => none⟩ { Faults.none with create := true }
      (List.replicate 32 0) 0 "a.txt" 1 ((∅ : Files).insert (tempBeside "a.txt") [7])
      ⟨hello 1, 0⟩ [] := by
  have hgreeted : Greeted { Faults.none with create := true } 1 ⟨hello 1, 0⟩ := by
    constructor <;> decide
  have hmem : tempBeside "a.txt" ∈ (∅ : Files).insert (tempBeside "a.txt") [7] :=
    Lib.mem_insert.mpr (.inl rfl)
  exact hgreeted.not_agree rfl hmem Bool.false_ne_true

end Acrylius.Ffi
