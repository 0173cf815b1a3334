import Acrylius.Rt.Bulk

/-! A bulk stream is exact: the receiver takes the frames the key sealed, all of them and in their
order, and no other stream. -/
namespace Acrylius
open Proto Proto.Bulk

/-- The cipher idealised: a text opens as what it was sealed from, and as nothing else. -/
def Proto.Aead.Ideal (A : Aead) : Prop :=
  ∀ k n p c, A.decrypt k n c = some p ↔ A.encrypt k n p = some c

def Proto.Aead.Apart (A : Aead) (key : Bytes) (seq : ℕ) (key' : Bytes) (seq' : ℕ) : Prop :=
  ∀ p p' frame, A.seal key seq p = .ok frame → A.seal key' seq' p' ≠ .ok frame

/-- Whatever a chunk holds can be sealed, and the tag adds sixteen bytes. -/
def Proto.Aead.Seals (A : Aead) : Prop :=
  ∀ k seq p, p.length ≤ chunk → ∃ c, A.encrypt k (nonce seq) p = some c ∧ c.length = p.length + 16

theorem Proto.Aead.Ideal.open_iff {A : Aead} (hA : A.Ideal) {key frame plain : Bytes} {seq : ℕ} :
    A.open key seq frame = .ok plain ↔ A.seal key seq plain = .ok frame := by
  unfold Aead.open Aead.seal
  cases Key32.ofBytes key with
  | none => simp
  | some k =>
    have hk := hA k (nonce seq) plain frame
    dsimp only
    cases hd : A.decrypt k (nonce seq) frame with
    | none =>
      rw [hd] at hk
      cases he : A.encrypt k (nonce seq) plain with
      | none => simp
      | some c =>
        rw [he] at hk
        simpa using hk
    | some p =>
      rw [hd] at hk
      cases he : A.encrypt k (nonce seq) plain with
      | none =>
        rw [he] at hk
        simpa using hk
      | some c =>
        rw [he] at hk
        simpa using hk

namespace Bulk

def framed (frame : Bytes) : Bytes := Lib.BigEndian.bytes 4 frame.length ++ frame

def wire (frames : List Bytes) : Bytes := frames.flatMap framed

/-- Frames sealed one after the other from `seq` on, and what they hold. -/
inductive Sealed (A : Aead) (key : Bytes) : ℕ → List Bytes → List Bytes → Prop where
  | nil (seq : ℕ) : Sealed A key seq [] []
  | cons {seq : ℕ} {frame plain : Bytes} {frames plains : List Bytes}
      (hseal : A.seal key seq plain = .ok frame) (hfits : frame.length ≤ maxFrame)
      (hrest : Sealed A key (seq + 1) frames plains) :
      Sealed A key seq (frame :: frames) (plain :: plains)

section Framing
variable {frame rest : Bytes} {a b : List Bytes} {s t : Bytes}

@[simp] theorem wire_nil : wire [] = [] := rfl

@[simp] theorem wire_cons : wire (frame :: a) = framed frame ++ wire a := List.flatMap_cons

@[simp] theorem length_framed : (framed frame).length = 4 + frame.length := by
  simp [framed]

/-- A frame is known from its length. -/
theorem framed_append_inj {frame' rest' : Bytes} (h : framed frame ++ rest = framed frame' ++ rest')
    (hlen : frame.length < 256 ^ 4) (hlen' : frame'.length < 256 ^ 4) :
    frame = frame' ∧ rest = rest' := by
  unfold framed at h
  rw [List.append_assoc, List.append_assoc] at h
  obtain ⟨hhead, htail⟩ := List.append_inj h (by simp)
  have hvalue := congrArg Lib.BigEndian.value hhead
  rw [Lib.BigEndian.value_bytes hlen, Lib.BigEndian.value_bytes hlen'] at hvalue
  exact List.append_inj htail hvalue

/-- Where too little is left for a frame, the frames of any other reading are there in full. -/
theorem wire_starts (h : wire a ++ s = wire b ++ t) (ht : t.length ≤ 3)
    (ha : ∀ f ∈ a, f.length < 256 ^ 4) (hb : ∀ f ∈ b, f.length < 256 ^ 4) : a <+: b := by
  induction a generalizing b with
  | nil => exact List.nil_prefix
  | cons f a ih =>
    cases b with
    | nil =>
      have hlen := congrArg List.length h
      simp only [wire_cons, wire_nil, List.length_append, length_framed, List.length_nil] at hlen
      omega
    | cons g b =>
      rw [wire_cons, wire_cons, List.append_assoc, List.append_assoc] at h
      obtain ⟨hfg, hrest⟩ := framed_append_inj h (ha f List.mem_cons_self) (hb g List.mem_cons_self)
      have htl := ih hrest (fun x hx => ha x (List.mem_cons_of_mem _ hx))
        fun x hx => hb x (List.mem_cons_of_mem _ hx)
      rw [hfg]
      exact List.prefix_cons_inj g |>.mpr htl

theorem wire_inj (h : wire a ++ s = wire b ++ t) (hs : s.length ≤ 3) (ht : t.length ≤ 3)
    (ha : ∀ f ∈ a, f.length < 256 ^ 4) (hb : ∀ f ∈ b, f.length < 256 ^ 4) : a = b := by
  have hab := wire_starts h ht ha hb
  have hba := wire_starts h.symm hs hb ha
  exact hab.eq_of_length_le hba.length_le

end Framing

section Places
variable {A : Aead} {key : Bytes} {seq : ℕ} {frames plains : List Bytes}

theorem Sealed.fits (h : Sealed A key seq frames plains) {f : Bytes} (hf : f ∈ frames) :
    f.length < 256 ^ 4 := by
  induction h with
  | nil => cases hf
  | cons hseal hfits hrest ih =>
    cases hf with
    | head =>
      unfold maxFrame chunk at hfits
      omega
    | tail _ hf => exact ih hf

theorem Sealed.length_eq (h : Sealed A key seq frames plains) : frames.length = plains.length := by
  induction h with
  | nil => rfl
  | cons hseal hfits hrest ih =>
    rw [List.length_cons, List.length_cons, ih]

/-- The frame at each place was sealed for that place. -/
theorem Sealed.at (h : Sealed A key seq frames plains) {i : ℕ} {f : Bytes}
    (hi : frames[i]? = some f) :
    ∃ p, plains[i]? = some p ∧ A.seal key (seq + i) p = .ok f := by
  induction h generalizing i with
  | nil => cases hi
  | @cons seq frame plain frames plains hseal hfits hrest ih =>
    cases i with
    | zero =>
      obtain rfl := Option.some.inj hi
      exact ⟨plain, rfl, hseal⟩
    | succ i =>
      obtain ⟨p, hp, hsealed⟩ := ih hi
      have hplace : seq + (i + 1) = seq + 1 + i := by omega
      rw [hplace]
      exact ⟨p, hp, hsealed⟩

/-- The frames say what they hold. -/
theorem Sealed.starts (hA : A.Ideal) {a b p q : List Bytes} (ha : Sealed A key seq a p)
    (hb : Sealed A key seq b q) (h : a <+: b) : p <+: q := by
  induction ha generalizing b q with
  | nil => exact List.nil_prefix
  | @cons seq frame plain a p hseal hfits hrest ih =>
    cases hb with
    | nil => cases List.prefix_nil.mp h
    | @cons _ frame' plain' b q hseal' hfits' hrest' =>
      obtain ⟨heq, htl⟩ := List.cons_prefix_cons.mp h
      have hopen := hA.open_iff.mpr hseal
      have hopen' := hA.open_iff.mpr hseal'
      rw [heq, hopen'] at hopen
      have hplain := Except.ok.inj hopen
      rw [hplain]
      exact List.prefix_cons_inj plain |>.mpr (ih hrest' htl)

/-- As much text in fewer frames is as many frames, where each holds some. -/
theorem prefix_eq_of_flatten {p q : List Bytes} (h : p <+: q)
    (hlen : p.flatten.length = q.flatten.length) (hne : ∀ x ∈ q, x ≠ []) : p = q := by
  obtain ⟨more, rfl⟩ := h
  rw [List.flatten_append, List.length_append] at hlen
  cases more with
  | nil => rw [List.append_nil]
  | cons x more =>
    have hx := List.length_pos_iff.mpr (hne x (by simp))
    rw [List.flatten_cons, List.length_append] at hlen
    omega

theorem starts_of_getElem? {α : Type} {a b : List α}
    (h : ∀ i x, i ≤ b.length → a[i]? = some x → b[i]? = some x) : a <+: b := by
  induction a generalizing b with
  | nil => exact List.nil_prefix
  | cons x a ih =>
    have hhead := h 0 x (Nat.zero_le _) rfl
    cases b with
    | nil => cases hhead
    | cons y b =>
      obtain rfl := Option.some.inj hhead
      have htl : a <+: b := by
        apply ih
        intro i z hi hz
        exact h (i + 1) z (Nat.succ_le_succ hi) hz
      exact List.prefix_cons_inj y |>.mpr htl

/-- Chunks that each hold something are no more than what they hold. -/
theorem length_le_flatten {q : List Bytes} (hne : ∀ x ∈ q, x ≠ []) :
    q.length ≤ q.flatten.length := by
  induction q with
  | nil => exact Nat.zero_le _
  | cons x q ih =>
    have hx := List.length_pos_iff.mpr (hne x List.mem_cons_self)
    have hq := ih fun y hy => hne y (List.mem_cons_of_mem _ hy)
    rw [List.length_cons, List.flatten_cons, List.length_append]
    omega

end Places

section Reading
variable {w : Faults} {s : Socket} {frame rest : Bytes}

theorem readExact_enough {bs : Bytes} (h : s.left = bs ++ rest) :
    readExact .none s bs.length = (.ok bs, ⟨rest, s.reads + 1⟩) := by
  have hlen : ¬s.left.length < bs.length := by
    rw [h, List.length_append]
    omega
  have hwell : ¬Faults.none.read s.reads = true := Bool.false_ne_true
  unfold readExact
  rw [if_neg hwell, if_neg hlen, h, List.take_left, List.drop_left]

theorem readFrame_framed (h : s.left = framed frame ++ rest) (hfits : frame.length ≤ maxFrame) :
    readFrame .none s = (.ok (some frame), ⟨rest, s.reads + 1 + 1⟩) := by
  have hvalue : Lib.BigEndian.value (Lib.BigEndian.bytes 4 frame.length) = frame.length := by
    apply Lib.BigEndian.value_bytes
    unfold maxFrame chunk at hfits
    omega
  have hlen := readExact_enough (h.trans (List.append_assoc ..))
  have hbuf := readExact_enough (s := ⟨frame ++ rest, s.reads + 1⟩) rfl
  rw [Lib.BigEndian.length_bytes] at hlen
  unfold readFrame
  rw [hlen]
  dsimp only
  rw [hvalue, if_neg (Nat.not_lt.mpr hfits), hbuf]

theorem readFrame_stray (h : s.left.length ≤ 3) : ∃ s', readFrame .none s = (.ok none, s') := by
  have hshort : s.left.length < 4 := by omega
  have hwell : ¬Faults.none.read s.reads = true := Bool.false_ne_true
  have hlen : readExact .none s 4 = (.error .eof, ⟨[], s.reads + 1⟩) := by
    unfold readExact
    rw [if_neg hwell, if_pos hshort]
  unfold readFrame
  rw [hlen]
  exact ⟨_, rfl⟩

/-- The end of a stream comes before the four bytes of a length. -/
theorem readFrame_none {s' : Socket} (h : readFrame w s = (.ok none, s')) : s.left.length ≤ 3 := by
  unfold readFrame at h
  cases hlen : readExact w s 4 with
  | mk r s₁ =>
    rw [hlen] at h
    cases r with
    | ok len =>
      dsimp only at h
      by_cases hbig : maxFrame < Lib.BigEndian.value len
      · rw [if_pos hbig] at h
        cases h
      rw [if_neg hbig] at h
      cases hbuf : readExact w s₁ (Lib.BigEndian.value len) with
      | mk r s₂ =>
        rw [hbuf] at h
        cases r <;> cases h
    | error e =>
      by_contra hlong
      have hfour : ¬s.left.length < 4 := by omega
      unfold readExact at hlen
      by_cases hfault : w.read s.reads
      · rw [if_pos hfault] at hlen
        cases hlen
        cases h
      · rw [if_neg hfault, if_neg hfour] at hlen
        cases hlen

end Reading

section Loop
variable {A : Aead} {w : Faults} {key : Bytes} {expectBytes : ℕ} {tmp : String} {dir : Files}
  {s : Socket} {seq : ℕ}

/-- Frames sealed in order are written one after the other. -/
theorem receiveLoop_sealed (hA : A.Ideal) (dir : Files) (tmp : String)
    {frames plains : List Bytes} {tail : Bytes} (h : Sealed A key seq frames plains) (old : Bytes)
    (hleft : s.left = wire frames ++ tail)
    (htail : tail.length ≤ 3) (htotal : (old ++ plains.flatten).length = expectBytes) :
    receiveLoop A .none key expectBytes tmp (dir.insert tmp old) s old.length seq =
      (dir.insert tmp (old ++ plains.flatten), .ok expectBytes) := by
  induction h generalizing s old with
  | nil seq =>
    have hstray : s.left.length ≤ 3 := by
      rw [hleft]
      exact htail
    obtain ⟨s', hread⟩ := readFrame_stray hstray
    rw [List.flatten_nil, List.append_nil] at htotal ⊢
    have hwell : ¬Faults.none.flush = true := Bool.false_ne_true
    rw [receiveLoop, hread]
    dsimp only
    rw [if_neg hwell, if_neg (not_not.mpr htotal), htotal]
  | @cons seq frame plain frames plains hseal hfits hrest ih =>
    rw [wire_cons, List.append_assoc] at hleft
    rw [List.flatten_cons, ← List.append_assoc] at htotal ⊢
    have hread := readFrame_framed hleft hfits
    have hopen := hA.open_iff.mpr hseal
    have hroom : ¬expectBytes < old.length + plain.length := by
      rw [← htotal, List.length_append, List.length_append]
      omega
    have hold : (dir.insert tmp old)[tmp]? = some old := Std.ExtTreeMap.getElem?_insert_self
    have hnext := ih (s := ⟨wire frames ++ tail, s.reads + 1 + 1⟩) (old ++ plain) rfl htotal
    rw [List.length_append] at hnext
    rw [receiveLoop, hread]
    dsimp only
    rw [hopen]
    dsimp only
    rw [if_neg hroom]
    show receiveLoop A .none key expectBytes tmp (Lib.Disk.append (dir.insert tmp old) tmp plain)
      _ _ _ = _
    rw [Lib.Disk.append_some hold, Lib.insert_insert, hnext]

/-- What the loop took was sealed in order, and was all that was expected. -/
theorem receiveLoop_ok (hA : A.Ideal) {files : Files} {written total : ℕ}
    (h : (receiveLoop A w key expectBytes tmp files s written seq).2 = .ok total) :
    total = expectBytes ∧ ∃ frames plains tail, s.left = wire frames ++ tail ∧ tail.length ≤ 3 ∧
      Sealed A key seq frames plains ∧ written + plains.flatten.length = expectBytes := by
  induction files, s, written, seq using receiveLoop.induct A w key expectBytes tmp with
  | case1 files s written seq e s' hread =>
    rw [receiveLoop, hread] at h
    cases h
  | case2 files s written seq s' hread hflush =>
    rw [receiveLoop, hread] at h
    simp [hflush] at h
  | case3 files s written seq s' hread hflush hshort =>
    rw [receiveLoop, hread] at h
    simp [hflush, hshort] at h
  | case4 files s written seq s' hread hflush hfull =>
    have hwritten := not_not.mp hfull
    rw [receiveLoop, hread] at h
    dsimp only at h
    rw [if_neg hflush, if_neg hfull] at h
    have htotal := Except.ok.inj h
    constructor
    · omega
    · refine ⟨[], [], s.left, rfl, readFrame_none hread, .nil seq, ?_⟩
      simpa using hwritten
  | case5 files s written seq frame s' hread e hopen =>
    rw [receiveLoop, hread] at h
    simp [hopen] at h
  | case6 files s written seq frame s' hread plain hopen hmore =>
    rw [receiveLoop, hread] at h
    simp [hopen, hmore] at h
  | case7 files s written seq frame s' hread plain hopen hroom done hwrite =>
    rw [receiveLoop, hread] at h
    simp [hopen, hroom, hwrite] at h
  | case8 files s written seq frame s' hread plain hopen hroom hwrite ih =>
    rw [receiveLoop, hread] at h
    dsimp only at h
    rw [hopen] at h
    dsimp only at h
    rw [if_neg hroom, hwrite] at h
    obtain ⟨htotal, frames, plains, tail, hleft, htail, hsealed, hsum⟩ := ih h
    obtain ⟨hsplit, hfits⟩ := readFrame_some hread
    refine ⟨htotal, frame :: frames, plain :: plains, tail, ?_, htail, ?_, ?_⟩
    · rw [wire_cons, hsplit, hleft, framed]
      simp only [List.append_assoc]
    · exact .cons (hA.open_iff.mp hopen) hfits hsealed
    · rw [List.flatten_cons, List.length_append]
      omega

/-- The loop writes to nothing but the temporary file. -/
theorem receiveLoop_erase (A : Aead) (w : Faults) (key : Bytes) (expectBytes : ℕ) (tmp : String)
    (files : Files) (s : Socket) (written seq : ℕ) :
    (receiveLoop A w key expectBytes tmp files s written seq).1.erase tmp = files.erase tmp := by
  induction files, s, written, seq using receiveLoop.induct A w key expectBytes tmp with
  | case1 files s written seq e s' hread => rw [receiveLoop, hread]
  | case2 files s written seq s' hread hflush =>
    rw [receiveLoop, hread]
    simp [hflush]
  | case3 files s written seq s' hread hflush hshort =>
    rw [receiveLoop, hread]
    simp [hflush, hshort]
  | case4 files s written seq s' hread hflush hfull =>
    rw [receiveLoop, hread]
    simp [hflush, not_not.mp hfull]
  | case5 files s written seq frame s' hread e hopen =>
    rw [receiveLoop, hread]
    simp [hopen]
  | case6 files s written seq frame s' hread plain hopen hmore =>
    rw [receiveLoop, hread]
    simp [hopen, hmore]
  | case7 files s written seq frame s' hread plain hopen hroom done hwrite =>
    rw [receiveLoop, hread]
    simp [hopen, hroom, hwrite, Lib.Disk.erase_append]
  | case8 files s written seq frame s' hread plain hopen hroom hwrite ih =>
    rw [receiveLoop, hread]
    dsimp only
    rw [hopen]
    dsimp only
    rw [if_neg hroom, hwrite]
    exact ih.trans Lib.Disk.erase_append

end Loop

section Receiving
variable {A : Aead} {w : Faults} {key : Bytes} {expectBytes : ℕ} {dest : String} {files : Files}
  {s : Socket}

theorem receive_sealed (hA : A.Ideal) {frames plains : List Bytes} {tail : Bytes}
    (h : Sealed A key 0 frames plains) (hleft : s.left = wire frames ++ tail)
    (htail : tail.length ≤ 3) (htotal : plains.flatten.length = expectBytes) :
    receive A .none key expectBytes dest files s =
      ((files.erase (tempBeside dest)).insert dest plains.flatten, .ok expectBytes) := by
  have hcreate : ¬Faults.none.create = true := Bool.false_ne_true
  have hrename : ¬Faults.none.rename = true := Bool.false_ne_true
  have hloop := receiveLoop_sealed hA files (tempBeside dest) h [] hleft htail htotal
  have hread : (files.insert (tempBeside dest) plains.flatten)[tempBeside dest]? =
      some plains.flatten := Std.ExtTreeMap.getElem?_insert_self
  rw [List.nil_append, List.length_nil] at hloop
  unfold receive
  dsimp only
  rw [if_neg hcreate, hloop]
  dsimp only
  rw [if_neg hrename, Lib.Disk.rename_some hread, Lib.insert_erase]

theorem receive_ok (hA : A.Ideal) {total : ℕ}
    (h : (receive A w key expectBytes dest files s).2 = .ok total) :
    total = expectBytes ∧ ∃ frames plains tail, s.left = wire frames ++ tail ∧ tail.length ≤ 3 ∧
      Sealed A key 0 frames plains ∧ plains.flatten.length = expectBytes := by
  unfold receive at h
  dsimp only at h
  by_cases hcreate : w.create
  · rw [if_pos hcreate] at h
    cases h
  rw [if_neg hcreate] at h
  cases hloop : receiveLoop A w key expectBytes (tempBeside dest)
      (files.insert (tempBeside dest) []) s 0 0 with
  | mk files' r =>
    rw [hloop] at h
    cases r with
    | error e => cases h
    | ok written =>
      have hok := receiveLoop_ok hA (congrArg Prod.snd hloop)
      dsimp only at h
      by_cases hrename : w.rename
      · rw [if_pos hrename] at h
        cases h
      · rw [if_neg hrename] at h
        rw [← Except.ok.inj h]
        simpa using hok

theorem receive_error {e : TransferError}
    (h : (receive A .none key expectBytes dest files s).2 = .error e) :
    (receive A .none key expectBytes dest files s).1 = files.erase (tempBeside dest) := by
  have hcreate : ¬Faults.none.create = true := Bool.false_ne_true
  have hrename : ¬Faults.none.rename = true := Bool.false_ne_true
  have hremove : ¬Faults.none.remove = true := Bool.false_ne_true
  have herase := receiveLoop_erase A .none key expectBytes (tempBeside dest)
    (files.insert (tempBeside dest) []) s 0 0
  unfold receive at h ⊢
  dsimp only at h ⊢
  rw [if_neg hcreate] at h ⊢
  cases hloop : receiveLoop A .none key expectBytes (tempBeside dest)
      (files.insert (tempBeside dest) []) s 0 0 with
  | mk files' r =>
    rw [hloop] at h herase
    cases r with
    | error e =>
      dsimp only at herase ⊢
      rw [if_neg hremove, herase, Lib.insert_erase]
    | ok written =>
      dsimp only at h
      rw [if_neg hrename] at h
      cases h

end Receiving

section Sending
variable {A : Aead} {key : Bytes}

theorem writeFrame_none {frame : Bytes} (s : Wire) (h : frame.length ≤ maxFrame) :
    writeFrame .none s frame = (.ok (), ⟨s.sent ++ framed frame, s.writes + 1 + 1⟩) := by
  have hfits : ¬2 ^ 32 ≤ frame.length := by
    unfold maxFrame chunk at h
    omega
  unfold writeFrame
  rw [if_neg hfits]
  show (_, (⟨s.sent ++ _ ++ _, _⟩ : Wire)) = _
  rw [List.append_assoc]
  rfl

theorem sendLoop_sealed (hA : A.Seals) (hkey : key.length = 32) {reads : List Bytes}
    (hreads : ∀ r ∈ reads, r ≠ [] ∧ r.length ≤ chunk) (s : Wire) (sent seq : ℕ) :
    ∃ frames, Sealed A key seq frames reads ∧
      (sendLoop A .none key s sent seq reads).1.sent = s.sent ++ wire frames ∧
      (sendLoop A .none key s sent seq reads).2 = .ok (sent + reads.flatten.length) := by
  have hread : ¬Faults.none.fileRead seq = true := Bool.false_ne_true
  induction reads generalizing s sent seq with
  | nil =>
    have hshut : ¬Faults.none.shutdown = true := Bool.false_ne_true
    refine ⟨[], .nil seq, ?_⟩
    unfold sendLoop
    rw [if_neg hread, if_neg hshut, wire_nil, List.append_nil]
    exact ⟨rfl, rfl⟩
  | cons buf reads ih =>
    obtain ⟨hne, hlen⟩ := hreads buf List.mem_cons_self
    have hkey' : Key32.ofBytes key = some ⟨key, hkey⟩ := Key32.ofBytes_bytes ⟨key, hkey⟩
    obtain ⟨frame, hframe, hsize⟩ := hA ⟨key, hkey⟩ seq buf hlen
    have hseal : A.seal key seq buf = .ok frame := by
      unfold Aead.seal
      rw [hkey']
      dsimp only
      rw [hframe]
    have hfits : frame.length ≤ maxFrame := by
      unfold maxFrame
      omega
    obtain ⟨frames, hsealed, hsent, hresult⟩ := ih
      (fun r hr => hreads r (List.mem_cons_of_mem _ hr))
      ⟨s.sent ++ framed frame, s.writes + 1 + 1⟩ (sent + buf.length) (seq + 1) Bool.false_ne_true
    refine ⟨frame :: frames, .cons hseal hfits hsealed, ?_⟩
    unfold sendLoop
    rw [if_neg hread, if_neg hne, hseal]
    dsimp only
    rw [writeFrame_none s hfits]
    dsimp only
    rw [hsent, hresult, wire_cons, List.flatten_cons, List.length_append, List.append_assoc,
      Nat.add_assoc]
    exact ⟨rfl, rfl⟩

/-- What a dialer says first is what the listener is told. -/
theorem readHello_hello {transfer : ℕ} (h : transfer < 2 ^ 64) :
    readHello (hello transfer) = .ok transfer := by
  have hvalue := value_beBytes h
  have htake : (hello transfer).take 4 = ascii "ACRB" := List.take_left' (by decide)
  have hdrop : (hello transfer).drop 4 = beBytes transfer := List.drop_left' (by decide)
  have hours : ¬(hello transfer).take 4 ≠ ascii "ACRB" := not_not.mpr htake
  unfold readHello
  rw [if_neg hours, hdrop, hvalue]

theorem accept_hello {transfer : ℕ} (h : transfer < 2 ^ 64) (rest : Bytes) :
    accept .none transfer ⟨hello transfer ++ rest, 0⟩ = .ok ⟨rest, 1⟩ := by
  have hlen : (hello transfer).length = 12 := rfl
  have hread := readExact_enough (s := ⟨hello transfer ++ rest, 0⟩) rfl
  have haccept : ¬Faults.none.accept = true := Bool.false_ne_true
  rw [hlen] at hread
  unfold accept
  rw [if_neg haccept, hread]
  dsimp only
  rw [readHello_hello h]
  dsimp only
  rw [if_neg (not_not.mpr rfl)]

end Sending

/-- The transfer fails. The destination is as it was, and nothing is left beside it. -/
structure Refuses (A : Aead) (key : Bytes) (expectBytes : ℕ) (dest : String) (files : Files)
    (left : Bytes) : Prop where
  fails : ∃ e, (receive A .none key expectBytes dest files ⟨left, 1⟩).2 = .error e
  removes : (receive A .none key expectBytes dest files ⟨left, 1⟩).1 = files.erase (tempBeside dest)
  keeps : (receive A .none key expectBytes dest files ⟨left, 1⟩).1[dest]? = files[dest]?

/-- What follows the greeting is frames sealed from zero on, and less than another length. -/
def Whole (A : Aead) (key : Bytes) (expectBytes : ℕ) (left : Bytes) (frames plains : List Bytes) :
    Prop :=
  (∃ tail, left = wire frames ++ tail ∧ tail.length ≤ 3) ∧ Sealed A key 0 frames plains ∧
    plains.flatten.length = expectBytes

structure StreamExact (A : Aead) : Prop where
  accepts : ∀ key expectBytes dest files left total,
    (receive A .none key expectBytes dest files ⟨left, 1⟩).2 = .ok total ↔
      total = expectBytes ∧ ∃ frames plains, Whole A key expectBytes left frames plains
  writes : ∀ key expectBytes dest files left frames plains,
    Whole A key expectBytes left frames plains →
      (receive A .none key expectBytes dest files ⟨left, 1⟩).1 =
        (files.erase (tempBeside dest)).insert dest plains.flatten
  refuses : ∀ key expectBytes dest files left,
    (¬∃ frames plains, Whole A key expectBytes left frames plains) →
      Refuses A key expectBytes dest files left
  /-- What was cut off anywhere. The sender seals no empty chunk. -/
  truncated : ∀ key expectBytes dest files frames plains cut,
    Whole A key expectBytes (wire frames) frames plains → (∀ p ∈ plains, p ≠ []) →
      cut <+: wire frames → cut ≠ wire frames → Refuses A key expectBytes dest files cut
  /-- The same frames otherwise: reordered, repeated, left out. -/
  rearranged : ∀ key expectBytes dest files frames plains given tail, expectBytes < 2 ^ 64 →
    (∀ i j, i < 2 ^ 64 → j < 2 ^ 64 → i ≠ j → A.Apart key i key j) →
      Whole A key expectBytes (wire frames) frames plains → (∀ p ∈ plains, p ≠ []) →
        (∀ f ∈ given, f ∈ frames) → given ≠ frames → tail.length ≤ 3 →
          Refuses A key expectBytes dest files (wire given ++ tail)
  /-- A frame that was sealed for another transfer, or another place in this one. -/
  misplaced : ∀ key expectBytes dest files given tail i frame key' seq' plain',
    (∀ f ∈ given, f.length < 2 ^ 32) → given[i]? = some frame →
      A.seal key' seq' plain' = .ok frame → A.Apart key i key' seq' → tail.length ≤ 3 →
        Refuses A key expectBytes dest files (wire given ++ tail)
  /-- A file that was sent arrives, however it was read. -/
  returns : A.Seals → ∀ key transfer dest files file reads, key.length = 32 → transfer < 2 ^ 64 →
    (∀ r ∈ reads, r ≠ [] ∧ r.length ≤ chunk) → reads.flatten = file →
      (send A .none key transfer reads).2 = .ok file.length ∧
      acceptAndReceive A .none key file.length dest transfer files
          ⟨(send A .none key transfer reads).1.sent, 0⟩ =
        ((files.erase (tempBeside dest)).insert dest file, .ok file.length)

section Exactness
variable {A : Aead} {key : Bytes} {expectBytes : ℕ} {dest : String} {files : Files} {left : Bytes}
  {frames plains : List Bytes}

theorem receive_whole (hA : A.Ideal) (h : Whole A key expectBytes left frames plains) :
    receive A .none key expectBytes dest files ⟨left, 1⟩ =
      ((files.erase (tempBeside dest)).insert dest plains.flatten, .ok expectBytes) := by
  obtain ⟨⟨tail, hleft, htail⟩, hsealed, htotal⟩ := h
  exact receive_sealed hA hsealed hleft htail htotal

theorem whole_of_ok (hA : A.Ideal) {total : ℕ}
    (h : (receive A .none key expectBytes dest files ⟨left, 1⟩).2 = .ok total) :
    total = expectBytes ∧ ∃ frames plains, Whole A key expectBytes left frames plains := by
  obtain ⟨htotal, frames, plains, tail, hleft, htail, hsealed, hsum⟩ := receive_ok hA h
  exact ⟨htotal, frames, plains, ⟨tail, hleft, htail⟩, hsealed, hsum⟩

/-- What is not whole is refused. -/
theorem refuses_of_not_whole (hA : A.Ideal)
    (h : ¬∃ frames plains, Whole A key expectBytes left frames plains) :
    Refuses A key expectBytes dest files left := by
  cases hr : (receive A .none key expectBytes dest files ⟨left, 1⟩).2 with
  | ok total => exact absurd (whole_of_ok hA hr).2 h
  | error e =>
    have hremoves := receive_error hr
    constructor
    · exact ⟨e, hr⟩
    · exact hremoves
    · rw [hremoves, Lib.getElem?_erase_of_ne tempBeside_ne]

theorem Whole.truncated (hA : A.Ideal) (h : Whole A key expectBytes (wire frames) frames plains)
    (hne : ∀ p ∈ plains, p ≠ []) {cut : Bytes} (hcut : cut <+: wire frames)
    (hshort : cut ≠ wire frames) : ¬∃ frames plains, Whole A key expectBytes cut frames plains := by
  rintro ⟨frames', plains', ⟨tail, hleft, htail⟩, hsealed, htotal⟩
  obtain ⟨-, hsealed₀, htotal₀⟩ := h
  obtain ⟨rest, hrest⟩ := hcut
  have hwire : wire frames' ++ (tail ++ rest) = wire frames ++ [] := by
    rw [List.append_nil, ← hrest, hleft, List.append_assoc]
  have hstarts := wire_starts hwire (Nat.zero_le 3) (fun _ => hsealed.fits) fun _ => hsealed₀.fits
  have hplains := hsealed.starts hA hsealed₀ hstarts
  have heq := prefix_eq_of_flatten hplains (htotal.trans htotal₀.symm) hne
  have hcount : frames.length ≤ frames'.length := by
    rw [hsealed.length_eq, hsealed₀.length_eq, heq]
  have hframes := hstarts.eq_of_length_le hcount
  rw [hframes] at hleft
  have hlen := congrArg List.length hrest
  rw [hleft, List.length_append, List.length_append] at hlen
  have hnil : tail = [] := List.length_eq_zero_iff.mp (by omega)
  rw [hnil, List.append_nil] at hleft
  exact hshort hleft

/-- The same frames in another order, or other numbers of them, are not whole. -/
theorem Whole.rearranged (hA : A.Ideal) (hsize : expectBytes < 2 ^ 64)
    (hapart : ∀ i j, i < 2 ^ 64 → j < 2 ^ 64 → i ≠ j → A.Apart key i key j)
    (h : Whole A key expectBytes (wire frames) frames plains) (hne : ∀ p ∈ plains, p ≠ [])
    {given : List Bytes} {tail : Bytes} (hgiven : ∀ f ∈ given, f ∈ frames) (hother : given ≠ frames)
    (htail : tail.length ≤ 3) :
    ¬∃ frames plains, Whole A key expectBytes (wire given ++ tail) frames plains := by
  rintro ⟨frames', plains', ⟨tail', hleft, htail'⟩, hsealed', htotal'⟩
  obtain ⟨-, hsealed, htotal⟩ := h
  have hfits : ∀ f ∈ given, f.length < 256 ^ 4 := fun f hf => hsealed.fits (hgiven f hf)
  have heq := wire_inj hleft htail htail' hfits fun _ => hsealed'.fits
  rw [← heq] at hsealed'
  have hcount := length_le_flatten hne
  rw [htotal, ← hsealed.length_eq] at hcount
  -- The frame at each place is the one that was sealed for it.
  have hplace : ∀ i f, i ≤ frames.length → given[i]? = some f → frames[i]? = some f := by
    intro i f hi hf
    obtain ⟨j, hj⟩ := List.mem_iff_getElem?.mp (hgiven f (List.mem_of_getElem? hf))
    obtain ⟨p, -, hp⟩ := hsealed'.at hf
    obtain ⟨q, -, hq⟩ := hsealed.at hj
    obtain ⟨hjlt, -⟩ := List.getElem?_eq_some_iff.mp hj
    rw [Nat.zero_add] at hp hq
    by_contra hmoved
    have hij : i ≠ j := by
      intro hij
      rw [hij] at hmoved
      exact hmoved hj
    exact hapart i j (by omega) (by omega) hij p q f hp hq
  have hstarts : given <+: frames := by
    apply starts_of_getElem?
    intro i f hi hf
    exact hplace i f hi hf
  have hplains := hsealed'.starts hA hsealed hstarts
  have hsame := prefix_eq_of_flatten hplains (htotal'.trans htotal.symm) hne
  have hmany : frames.length ≤ given.length := by
    rw [hsealed.length_eq, hsealed'.length_eq, hsame]
  exact hother (hstarts.eq_of_length_le hmany)

theorem misplaced_not_whole {given : List Bytes} {tail : Bytes} {i seq' : ℕ}
    {frame key' plain' : Bytes} (hfits : ∀ f ∈ given, f.length < 2 ^ 32)
    (hi : given[i]? = some frame) (hseal : A.seal key' seq' plain' = .ok frame)
    (hapart : A.Apart key i key' seq') (htail : tail.length ≤ 3) :
    ¬∃ frames plains, Whole A key expectBytes (wire given ++ tail) frames plains := by
  rintro ⟨frames, plains, ⟨tail', hleft, htail'⟩, hsealed, -⟩
  have heq := wire_inj hleft htail htail' hfits fun _ => hsealed.fits
  rw [heq] at hi
  obtain ⟨p, -, hp⟩ := hsealed.at hi
  rw [Nat.zero_add] at hp
  exact hapart p plain' frame hp hseal

theorem receive_send (hA : A.Ideal) (hS : A.Seals) {transfer : ℕ} {reads : List Bytes}
    (hkey : key.length = 32) (htransfer : transfer < 2 ^ 64)
    (hreads : ∀ r ∈ reads, r ≠ [] ∧ r.length ≤ chunk) :
    (send A .none key transfer reads).2 = .ok reads.flatten.length ∧
      acceptAndReceive A .none key reads.flatten.length dest transfer files
          ⟨(send A .none key transfer reads).1.sent, 0⟩ =
        ((files.erase (tempBeside dest)).insert dest reads.flatten, .ok reads.flatten.length) := by
  have hsource : ¬Faults.none.source = true := Bool.false_ne_true
  have hconnect : ¬Faults.none.connect = true := Bool.false_ne_true
  obtain ⟨frames, hsealed, hsent, hresult⟩ :=
    sendLoop_sealed hS hkey hreads ⟨hello transfer, 1⟩ 0 0
  have hsend : send A .none key transfer reads =
      sendLoop A .none key ⟨hello transfer, 1⟩ 0 0 reads := by
    unfold send
    rw [if_neg hsource, if_neg hconnect]
    rfl
  rw [hsend, hsent, hresult, Nat.zero_add]
  constructor
  · rfl
  · unfold acceptAndReceive
    rw [accept_hello htransfer]
    exact receive_sealed hA hsealed (List.append_nil _).symm (Nat.zero_le 3) rfl

end Exactness

/-- The receiver takes exactly the streams that were sealed for it in order and in full. -/
theorem stream_exact {A : Aead} (hA : A.Ideal) : StreamExact A where
  accepts key expectBytes dest files left total := by
    constructor
    · exact whole_of_ok hA
    · rintro ⟨rfl, frames, plains, hwhole⟩
      rw [receive_whole hA hwhole]
  writes key expectBytes dest files left frames plains hwhole := by rw [receive_whole hA hwhole]
  refuses _ _ _ _ _ hnot := refuses_of_not_whole hA hnot
  truncated key expectBytes dest files frames plains cut hwhole hne hcut hshort :=
    refuses_of_not_whole hA (hwhole.truncated hA hne hcut hshort)
  rearranged key expectBytes dest files frames plains given tail hsize hapart hwhole hne hgiven
      hother htail :=
    refuses_of_not_whole hA (hwhole.rearranged hA hsize hapart hne hgiven hother htail)
  misplaced key expectBytes dest files given tail i frame key' seq' plain' hfits hi hseal hapart
      htail :=
    refuses_of_not_whole hA (misplaced_not_whole hfits hi hseal hapart htail)
  returns hS key transfer dest files file reads hkey htransfer hreads hfile := by
    subst hfile
    exact receive_send hA hS hkey htransfer hreads

/-- A cipher one can run: the text in the clear, and a tag of the key and the nonce. -/
def mockAead : Aead where
  encrypt k n p := if n.length = 12 then some (p ++ (k.bytes.take 4 ++ n)) else none
  decrypt k n c :=
    if n.length = 12 ∧ k.bytes.take 4 ++ n <:+ c then some (c.take (c.length - 16)) else none

theorem mockAead_ideal : mockAead.Ideal := by
  intro k n p c
  have htag : n.length = 12 → (k.bytes.take 4 ++ n).length = 16 := by
    intro hn
    rw [List.length_append, List.length_take, k.size, hn]
    rfl
  show (if _ then _ else none) = some p ↔ (if _ then _ else none) = some c
  constructor
  · intro h
    split_ifs at h with htagged
    obtain ⟨hn, q, hq⟩ := htagged
    have hp := Option.some.inj h
    rw [← hq, List.length_append, htag hn, Nat.add_sub_cancel, List.take_left] at hp
    rw [if_pos hn, ← hp, hq]
  · intro h
    split_ifs at h with hn
    have hc := Option.some.inj h
    rw [if_pos ⟨hn, p, hc⟩, ← hc, List.length_append, htag hn, Nat.add_sub_cancel, List.take_left]

theorem mockAead_encrypt (k : Key32) (seq : ℕ) (p : Bytes) :
    mockAead.encrypt k (nonce seq) p = some (p ++ (k.bytes.take 4 ++ nonce seq)) := by
  have hn : (nonce seq).length = 12 := rfl
  show (if (nonce seq).length = 12 then some _ else none) = _
  rw [if_pos hn]

theorem mockAead_seals : mockAead.Seals := by
  intro k seq p _
  refine ⟨_, mockAead_encrypt k seq p, ?_⟩
  rw [List.length_append, List.length_append, List.length_take, k.size]
  rfl

theorem nonce_inj {i j : ℕ} (hi : i < 2 ^ 64) (hj : j < 2 ^ 64) (h : nonce i = nonce j) :
    i = j := by
  have hbytes : beBytes i = beBytes j := List.append_cancel_left h
  exact beBytes_inj hi hj hbytes

theorem mockAead_apart {key : Bytes} {i j : ℕ} (hi : i < 2 ^ 64) (hj : j < 2 ^ 64) (hne : i ≠ j) :
    mockAead.Apart key i key j := by
  intro p p' frame h h'
  unfold Aead.seal at h h'
  cases hk : Key32.ofBytes key with
  | none =>
    rw [hk] at h
    cases h
  | some k =>
    rw [hk] at h h'
    dsimp only at h h'
    rw [mockAead_encrypt] at h h'
    have heq := (Except.ok.inj h).trans (Except.ok.inj h').symm
    obtain ⟨-, htag⟩ := List.append_inj' heq (by simp [nonce, beBytes])
    exact hne (nonce_inj hi hj (List.append_cancel_left htag))

/-- Three bytes in two chunks arrive; the two chunks the other way round do not. -/
theorem two_chunks_arrive :
    (acceptAndReceive mockAead .none (List.replicate 32 7) 3 "a.txt" 1 ∅
        ⟨(send mockAead .none (List.replicate 32 7) 1 [[1, 2], [3]]).1.sent, 0⟩).2 = .ok 3 ∧
      ∀ a b, mockAead.seal (List.replicate 32 7) 0 [1, 2] = .ok a →
        mockAead.seal (List.replicate 32 7) 1 [3] = .ok b →
          Refuses mockAead (List.replicate 32 7) 3 "a.txt" ∅ (wire [b, a]) := by
  have hexact := stream_exact mockAead_ideal
  constructor
  · have h := hexact.returns mockAead_seals (List.replicate 32 7) 1 "a.txt" ∅ [1, 2, 3]
      [[1, 2], [3]] rfl (by decide) (by decide) rfl
    exact congrArg Prod.snd h.2
  · intro a b ha hb
    have hfits : ∀ f ∈ [b, a], f.length < 2 ^ 32 := by
      cases ha
      cases hb
      decide
    rw [← List.append_nil (wire [b, a])]
    exact hexact.misplaced _ 3 "a.txt" ∅ [b, a] [] 0 b _ 1 [3] hfits rfl hb
      (mockAead_apart (by decide) (by decide) (by decide)) (Nat.zero_le 3)

end Bulk
end Acrylius
