import Acrylius.Lib.BigEndian
import Mathlib.Data.List.Infix

/-! Messages on a byte stream, each after its length. -/
namespace Lib.Framing

def frame (width : ℕ) (m : List UInt8) : List UInt8 := BigEndian.bytes width m.length ++ m

def frames (width : ℕ) (ms : List (List UInt8)) : List UInt8 := ms.flatMap (frame width)

/-- What a reader makes of the bytes that have come so far. -/
inductive Next where
  | more
  | tooBig (announced : ℕ)
  | one (m rest : List UInt8)
deriving DecidableEq

/-- The length first. More than the cap is refused before the message is read. -/
def next (width cap : ℕ) (bs : List UInt8) : Next :=
  if bs.length < width then .more
  else
    let n := BigEndian.value (bs.take width)
    if cap < n then .tooBig n
    else if (bs.drop width).length < n then .more
    else .one ((bs.drop width).take n) ((bs.drop width).drop n)

variable {width cap : ℕ} {m rest bs : List UInt8} {ms : List (List UInt8)}

@[simp] theorem frames_nil : frames width [] = [] := rfl

@[simp] theorem frames_cons : frames width (m :: ms) = frame width m ++ frames width ms := rfl

theorem frames_append (ms ms' : List (List UInt8)) :
    frames width (ms ++ ms') = frames width ms ++ frames width ms' := List.flatMap_append

theorem take_frame (m rest : List UInt8) :
    (frame width m ++ rest).take width = BigEndian.bytes width m.length := by
  rw [frame, List.append_assoc, List.take_left' (BigEndian.length_bytes width m.length)]

theorem drop_frame (m rest : List UInt8) :
    (frame width m ++ rest).drop width = m ++ rest := by
  rw [frame, List.append_assoc, List.drop_left' (BigEndian.length_bytes width m.length)]

theorem width_le_length (m rest : List UInt8) :
    width ≤ (frame width m ++ rest).length := by
  rw [frame, List.append_assoc, List.length_append, BigEndian.length_bytes]
  omega

theorem eq_nil_of_frames (hpos : 0 < width) (h : frames width ms = []) : ms = [] := by
  cases ms with
  | nil => rfl
  | cons m ms =>
    have hlen : width ≤ (frames width (m :: ms)).length := width_le_length m (frames width ms)
    rw [h, List.length_nil] at hlen
    omega

theorem value_take_frame (rest : List UInt8) (h : m.length < 256 ^ width) :
    BigEndian.value ((frame width m ++ rest).take width) = m.length := by
  rw [take_frame m rest, BigEndian.value_bytes h]

/-- A message that is all there is read, and what follows is left. -/
theorem next_frame (hw : m.length < 256 ^ width) (hc : m.length ≤ cap) :
    next width cap (frame width m ++ rest) = .one m rest := by
  have hlong : ¬ (frame width m ++ rest).length < width := Nat.not_lt.mpr (width_le_length m rest)
  have hbody : ¬ (m ++ rest).length < m.length := by
    rw [List.length_append]
    omega
  simp only [next, if_neg hlong, value_take_frame rest hw, if_neg (Nat.not_lt.mpr hc), drop_frame,
    if_neg hbody, List.take_left, List.drop_left]

/-- Whatever is read was framed. -/
theorem eq_of_next_one (h : next width cap bs = .one m rest) :
    bs = frame width m ++ rest ∧ m.length ≤ cap := by
  unfold next at h
  dsimp only at h
  by_cases hshort : bs.length < width
  · rw [if_pos hshort] at h
    cases h
  rw [if_neg hshort] at h
  by_cases hbig : cap < BigEndian.value (bs.take width)
  · rw [if_pos hbig] at h
    cases h
  rw [if_neg hbig] at h
  by_cases hpart : (bs.drop width).length < BigEndian.value (bs.take width)
  · rw [if_pos hpart] at h
    cases h
  rw [if_neg hpart] at h
  cases h
  have hlen : ((bs.drop width).take (BigEndian.value (bs.take width))).length =
      BigEndian.value (bs.take width) := by
    rw [List.length_take]
    omega
  have htake : (bs.take width).length = width := by
    rw [List.length_take]
    omega
  have hhead : BigEndian.bytes width (BigEndian.value (bs.take width)) = bs.take width := by
    have hround := BigEndian.bytes_value (bs.take width)
    rwa [htake] at hround
  constructor
  · rw [frame, hlen, hhead, List.append_assoc, List.take_append_drop, List.take_append_drop]
  · rw [hlen]
    exact Nat.le_of_not_lt hbig

structure Read (width cap : ℕ) (bs : List UInt8) (taken : ℕ) (ms : List (List UInt8)) : Prop where
  stream : ∃ rest, bs = frames width ms ++ rest
  taken : taken = (frames width ms).length
  short : ∀ m ∈ ms, m.length ≤ cap

namespace Read
variable {taken : ℕ}

theorem nil : Read width cap bs 0 [] := ⟨⟨bs, rfl⟩, rfl, fun _ hm => absurd hm List.not_mem_nil⟩

theorem append (h : Read width cap bs taken ms) (more : List UInt8) :
    Read width cap (bs ++ more) taken ms := by
  obtain ⟨rest, hrest⟩ := h.stream
  exact ⟨⟨rest ++ more, by rw [hrest, List.append_assoc]⟩, h.taken, h.short⟩

theorem drop (h : Read width cap bs taken ms) : bs = frames width ms ++ bs.drop taken := by
  obtain ⟨rest, hrest⟩ := h.stream
  rw [hrest, h.taken, List.drop_left]

/-- The next message that is read is the next of the stream. -/
theorem next (h : Read width cap bs taken ms)
    (hnext : Framing.next width cap (bs.drop taken) = .one m rest) :
    Read width cap bs (taken + (width + m.length)) (ms ++ [m]) := by
  obtain ⟨hframe, hshort⟩ := eq_of_next_one hnext
  have hframes : frames width (ms ++ [m]) = frames width ms ++ frame width m := by
    rw [frames_append, frames_cons, frames_nil, List.append_nil]
  refine ⟨⟨rest, ?_⟩, ?_, ?_⟩
  · rw [hframes, List.append_assoc, ← hframe]
    exact h.drop
  · rw [hframes, List.length_append, h.taken, frame, List.length_append, BigEndian.length_bytes]
  · intro m' hm
    rcases List.mem_append.mp hm with hm | hm
    · exact h.short m' hm
    · rw [List.mem_singleton.mp hm]
      exact hshort

end Read

/-- Where one message ends is settled by its length. -/
theorem frame_append_inj {m' x y : List UInt8} (hw : m.length < 256 ^ width)
    (hw' : m'.length < 256 ^ width) (h : frame width m ++ x = frame width m' ++ y) :
    m = m' ∧ x = y := by
  have hlen : m.length = m'.length := by
    rw [← value_take_frame x hw, h, value_take_frame y hw']
  have hbody : m ++ x = m' ++ y := by
    have hdrop := congrArg (List.drop width) h
    rwa [drop_frame, drop_frame] at hdrop
  exact List.append_inj hbody hlen

/-- A message read from a stream of messages that is cut anywhere is the first of them. -/
theorem eq_cons_of_prefix (hpos : 0 < width) (hms : ∀ m ∈ ms, m.length < 256 ^ width)
    (hw : m.length < 256 ^ width) (h : frame width m ++ rest <+: frames width ms) :
    ∃ ms', ms = m :: ms' ∧ rest <+: frames width ms' := by
  obtain ⟨tail, ht⟩ := h
  rw [List.append_assoc] at ht
  cases ms with
  | nil =>
    have hlong : width ≤ (frame width m ++ (rest ++ tail)).length :=
      width_le_length m (rest ++ tail)
    rw [ht, frames_nil, List.length_nil] at hlong
    omega
  | cons m' ms' =>
    rw [frames_cons] at ht
    obtain ⟨rfl, htail⟩ := frame_append_inj hw (hms m' List.mem_cons_self) ht
    exact ⟨ms', rfl, tail, htail⟩

/-- What is read of a stream of messages that is cut anywhere is the first of them. -/
theorem prefix_of_frames_prefix {ms' : List (List UInt8)} (hpos : 0 < width)
    (hms : ∀ m ∈ ms, m.length < 256 ^ width) (hms' : ∀ m ∈ ms', m.length < 256 ^ width)
    (h : frames width ms <+: frames width ms') : ms <+: ms' := by
  induction ms generalizing ms' with
  | nil => exact List.nil_prefix
  | cons m ms ih =>
    rw [frames_cons] at h
    obtain ⟨rest, rfl, hrest⟩ := eq_cons_of_prefix hpos hms' (hms m List.mem_cons_self) h
    have hprefix := ih (fun m hm => hms m (List.mem_cons_of_mem _ hm))
      (fun m hm => hms' m (List.mem_cons_of_mem _ hm)) hrest
    exact (List.prefix_cons_inj m).mpr hprefix

/-- At the end of a stream of messages that fit, nothing more is wanted only if all were read. -/
theorem nil_of_next_more (hms : ∀ m ∈ ms, m.length < 256 ^ width ∧ m.length ≤ cap)
    (h : next width cap (frames width ms) = .more) : ms = [] := by
  cases ms with
  | nil => rfl
  | cons m ms =>
    obtain ⟨hw, hc⟩ := hms m List.mem_cons_self
    rw [frames_cons, next_frame hw hc] at h
    cases h

end Lib.Framing
