import Acrylius.Lib.Run
import Acrylius.Proto.Wire

/-! BLE fragmentation (`ble.rs`): one header byte before each piece of a message. -/
namespace Acrylius.Ble
open Proto

def more : UInt8 := 0x01

def start : UInt8 := 0x02

def reserved : UInt8 := ~~~(more ||| start)

/-- `HEADER`: the bytes a fragment spends on it. -/
def headerLen : ℕ := 1

inductive BleError where
  | empty
  | reserved
  | desync
  | tooLarge
deriving DecidableEq, Repr

/-- The loop of `fragment`: the pieces of what is left of a message. -/
def fragmentFrom (payload : ℕ) (pos : 0 < payload) (first : Bool) (rest : Bytes) : List Bytes :=
  let now := rest.take (min rest.length payload)
  let later := rest.drop (min rest.length payload)
  let header := (if first then start else 0) ||| (if later = [] then 0 else more)
  if h : later = [] then [header :: now]
  else (header :: now) :: fragmentFrom payload pos false later
termination_by rest.length
decreasing_by
  have hlater : rest.drop (min rest.length payload) ≠ [] := h
  have hpos : 0 < rest.length := by
    by_contra hzero
    have hnil : rest = [] := List.eq_nil_of_length_eq_zero (by omega)
    rw [hnil] at hlater
    exact hlater rfl
  rw [List.length_drop]
  omega

/-- Cut a message into fragments of at most so many bytes each, header included. -/
def fragment (msg : Bytes) (fragment : ℕ) : List Bytes :=
  fragmentFrom (max (fragment - headerLen) 1) (by omega) true msg

structure Reassembler where
  buf : Bytes
  max : ℕ
  isOpen : Bool
deriving DecidableEq

namespace Reassembler

def new (maxMessage : ℕ) : Reassembler := ⟨[], maxMessage, false⟩

def fail (r : Reassembler) : Reassembler := { r with buf := [], isOpen := false }

/-- Feed one fragment: the whole message, when this was its last. -/
def push (r : Reassembler) : Bytes → Reassembler × Except BleError (Option Bytes)
  | [] => (r.fail, .error .empty)
  | header :: body =>
    if header &&& reserved ≠ 0 then (r.fail, .error .reserved)
    else if decide (header &&& start ≠ 0) = r.isOpen then (r.fail, .error .desync)
    -- `saturating_add` in the source: no two slices are long enough to reach its end.
    else if r.max < r.buf.length + body.length then (r.fail, .error .tooLarge)
    else if header &&& more ≠ 0 then
      ({ r with buf := r.buf ++ body, isOpen := true }, .ok none)
    else ({ r with buf := [], isOpen := false }, .ok (some (r.buf ++ body)))

def feed (r : Reassembler) : List Bytes → List (Except BleError (Option Bytes))
  | [] => []
  | f :: fs => (r.push f).2 :: feed (r.push f).1 fs

def after (r : Reassembler) (fs : List Bytes) : Reassembler :=
  Lib.run (fun r f => (r.push f).1) r fs

theorem feed_append (r : Reassembler) (fs gs : List Bytes) :
    r.feed (fs ++ gs) = r.feed fs ++ (r.after fs).feed gs := by
  induction fs generalizing r with
  | nil => rfl
  | cons f fs ih =>
    have hrest := ih (r.push f).1
    exact congrArg ((r.push f).2 :: ·) hrest

end Reassembler

/-- A message on the wire: one `START` fragment, or `START MORE`, then any number of `MORE`, then
one with neither bit; of at most so many bytes. -/
inductive Message (most : ℕ) : List Bytes → Bytes → Prop
  | whole {body : Bytes} (fits : body.length ≤ most) : Message most [start :: body] body
  | split {body : Bytes} {bodies : List Bytes} {last : Bytes}
      (fits : (body ++ bodies.flatten ++ last).length ≤ most) :
      Message most (((start ||| more) :: body) :: bodies.map (more :: ·) ++ [0 :: last])
        (body ++ bodies.flatten ++ last)

inductive Unfinished (most : ℕ) : List Bytes → Prop
  | mk {body : Bytes} {bodies : List Bytes} (fits : (body ++ bodies.flatten).length ≤ most) :
      Unfinished most (((start ||| more) :: body) :: bodies.map (more :: ·))

/-- One message after another, the last one perhaps unfinished, and what each fragment yields. -/
inductive Stream (most : ℕ) : List Bytes → List (Option Bytes) → Prop
  | nil : Stream most [] []
  | unfinished {fs : List Bytes} (h : Unfinished most fs) :
      Stream most fs (List.replicate fs.length none)
  | message {fs rest : List Bytes} {m : Bytes} {outs : List (Option Bytes)} (h : Message most fs m)
      (tail : Stream most rest outs) :
      Stream most (fs ++ rest) (List.replicate (fs.length - 1) none ++ some m :: outs)

/-- The headers that have no reserved bit. -/
theorem header_cases {header : UInt8} (h : header &&& reserved = 0) :
    header = 0 ∨ header = more ∨ header = start ∨ header = start ||| more := by
  have hall : ∀ n : Fin 256, UInt8.ofFin n &&& reserved = 0 →
      UInt8.ofFin n = 0 ∨ UInt8.ofFin n = more ∨ UInt8.ofFin n = start ∨
        UInt8.ofFin n = start ||| more := by decide +kernel
  exact hall header.toFin h

namespace Reassembler
variable {most : ℕ} {m body : Bytes} {bodies fs : List Bytes} {outs : List (Option Bytes)}
  {f : Bytes}

def holding (most : ℕ) (m : Bytes) : Reassembler := ⟨m, most, true⟩

theorem push_cons {r : Reassembler} {header : UInt8} (plain : header &&& reserved = 0)
    (sync : decide (header &&& start ≠ 0) ≠ r.isOpen) (room : r.buf.length + body.length ≤ r.max) :
    r.push (header :: body) =
      if header &&& more ≠ 0 then ({ r with buf := r.buf ++ body, isOpen := true }, .ok none)
      else ({ r with buf := [], isOpen := false }, .ok (some (r.buf ++ body))) := by
  have hplain : ¬ header &&& reserved ≠ 0 := not_not.mpr plain
  have hroom : ¬ r.max < r.buf.length + body.length := Nat.not_lt.mpr room
  unfold push
  dsimp only
  rw [if_neg hplain, if_neg sync, if_neg hroom]

theorem new_push_start (fits : body.length ≤ most) :
    (new most).push (start :: body) = (new most, .ok (some body)) := by
  have hroom : (new most).buf.length + body.length ≤ (new most).max := by
    show 0 + body.length ≤ most
    omega
  have hsync : decide (start &&& start ≠ 0) ≠ (new most).isOpen := show true ≠ false by decide
  rw [push_cons (by decide) hsync hroom, if_neg (by decide)]
  rfl

theorem new_push_first (fits : body.length ≤ most) :
    (new most).push ((start ||| more) :: body) = (holding most body, .ok none) := by
  have hroom : (new most).buf.length + body.length ≤ (new most).max := by
    show 0 + body.length ≤ most
    omega
  have hsync : decide ((start ||| more) &&& start ≠ 0) ≠ (new most).isOpen :=
    show true ≠ false by decide
  rw [push_cons (by decide) hsync hroom, if_pos (by decide)]
  rfl

theorem holding_push_more (fits : (m ++ body).length ≤ most) :
    (holding most m).push (more :: body) = (holding most (m ++ body), .ok none) := by
  rw [List.length_append] at fits
  have hsync : decide (more &&& start ≠ 0) ≠ (holding most m).isOpen :=
    show false ≠ true by decide
  rw [push_cons (by decide) hsync fits, if_pos (by decide)]
  rfl

theorem holding_push_last (fits : (m ++ body).length ≤ most) :
    (holding most m).push (0 :: body) = (new most, .ok (some (m ++ body))) := by
  rw [List.length_append] at fits
  have hsync : decide ((0 : UInt8) &&& start ≠ 0) ≠ (holding most m).isOpen :=
    show false ≠ true by decide
  rw [push_cons (by decide) hsync fits, if_neg (by decide)]
  rfl

theorem push_error {r : Reassembler} {e : BleError} (h : (r.push f).2 = .error e) :
    (r.push f).1 = new r.max := by
  unfold push at h ⊢
  cases f with
  | nil => rfl
  | cons header body =>
    dsimp only at h ⊢
    split_ifs at h ⊢
    · rfl
    · rfl
    · rfl

theorem push_ok {r : Reassembler} {out : Option Bytes} (h : (r.push f).2 = .ok out) :
    ∃ header body, f = header :: body ∧ header &&& reserved = 0 ∧
      decide (header &&& start ≠ 0) ≠ r.isOpen ∧ r.buf.length + body.length ≤ r.max ∧
      out = if header &&& more ≠ 0 then none else some (r.buf ++ body) := by
  unfold push at h
  cases f with
  | nil => cases h
  | cons header body =>
    dsimp only at h
    by_cases hplain : header &&& reserved = 0
    case neg =>
      rw [if_pos hplain] at h
      cases h
    by_cases hsync : decide (header &&& start ≠ 0) = r.isOpen
    case pos =>
      rw [if_neg (not_not.mpr hplain), if_pos hsync] at h
      cases h
    by_cases hroom : r.max < r.buf.length + body.length
    case pos =>
      rw [if_neg (not_not.mpr hplain), if_neg hsync, if_pos hroom] at h
      cases h
    rw [if_neg (not_not.mpr hplain), if_neg hsync, if_neg hroom] at h
    refine ⟨header, body, rfl, hplain, hsync, Nat.le_of_not_lt hroom, ?_⟩
    split_ifs at h ⊢
    · exact (Except.ok.inj h).symm
    · exact (Except.ok.inj h).symm

theorem new_push_ok {out : Option Bytes} (h : ((new most).push f).2 = .ok out) :
    (∃ body, f = start :: body ∧ body.length ≤ most ∧ out = some body) ∨
    ∃ body, f = (start ||| more) :: body ∧ body.length ≤ most ∧ out = none := by
  obtain ⟨header, body, rfl, hplain, hsync, hroom, rfl⟩ := push_ok h
  have hfits : body.length ≤ most := by
    change 0 + body.length ≤ most at hroom
    omega
  change decide (header &&& start ≠ 0) ≠ false at hsync
  rcases header_cases hplain with rfl | rfl | rfl | rfl
  · exact absurd rfl hsync
  · exact absurd rfl hsync
  · exact .inl ⟨body, rfl, hfits, rfl⟩
  · exact .inr ⟨body, rfl, hfits, rfl⟩

/-- What it takes in the middle of a message. -/
theorem holding_push_ok {out : Option Bytes} (h : ((holding most m).push f).2 = .ok out) :
    (∃ body, f = more :: body ∧ (m ++ body).length ≤ most ∧ out = none) ∨
    ∃ body, f = 0 :: body ∧ (m ++ body).length ≤ most ∧ out = some (m ++ body) := by
  obtain ⟨header, body, rfl, hplain, hsync, hroom, rfl⟩ := push_ok h
  have hfits : (m ++ body).length ≤ most := by
    rw [List.length_append]
    exact hroom
  change decide (header &&& start ≠ 0) ≠ true at hsync
  rcases header_cases hplain with rfl | rfl | rfl | rfl
  · exact .inr ⟨body, rfl, hfits, rfl⟩
  · exact .inl ⟨body, rfl, hfits, rfl⟩
  · exact absurd rfl hsync
  · exact absurd rfl hsync

inductive Kept (most : ℕ) : Reassembler → Prop
  | new : Kept most (new most)
  | holding {m : Bytes} (fits : m.length ≤ most) : Kept most (holding most m)

theorem Kept.max_eq {r : Reassembler} (h : Kept most r) : r.max = most := by
  cases h with
  | new => rfl
  | holding fits => rfl

theorem Kept.push {r : Reassembler} (h : Kept most r) (f : Bytes) : Kept most (r.push f).1 := by
  cases hout : (r.push f).2 with
  | error e =>
    rw [push_error hout, h.max_eq]
    exact .new
  | ok out =>
    cases h with
    | new =>
      rcases new_push_ok hout with ⟨body, rfl, fits, -⟩ | ⟨body, rfl, fits, -⟩
      · rw [new_push_start fits]
        exact .new
      · rw [new_push_first fits]
        exact .holding fits
    | holding =>
      rcases holding_push_ok hout with ⟨body, rfl, fits, -⟩ | ⟨body, rfl, fits, -⟩
      · rw [holding_push_more fits]
        exact .holding fits
      · rw [holding_push_last fits]
        exact .new

theorem kept_after (most : ℕ) (fs : List Bytes) : Kept most ((new most).after fs) :=
  Lib.run_inv (fun _ f h => h.push f) .new fs

theorem Kept.length_le {r : Reassembler} (h : Kept most r) : r.buf.length ≤ most := by
  cases h with
  | new => exact Nat.zero_le _
  | holding fits => exact fits

theorem feed_more (fits : (m ++ bodies.flatten).length ≤ most) :
    (holding most m).feed (bodies.map (more :: ·)) = List.replicate bodies.length (.ok none) ∧
    (holding most m).after (bodies.map (more :: ·)) = holding most (m ++ bodies.flatten) := by
  induction bodies generalizing m with
  | nil =>
    rw [List.flatten_nil, List.append_nil]
    exact ⟨rfl, rfl⟩
  | cons body bodies ih =>
    rw [List.flatten_cons, ← List.append_assoc] at fits ⊢
    have hbody : (m ++ body).length ≤ most := by
      rw [List.length_append] at fits
      omega
    obtain ⟨hfeed, hafter⟩ := ih fits
    rw [List.map_cons]
    unfold feed after
    rw [Lib.run_cons, holding_push_more hbody]
    constructor
    · rw [hfeed, List.length_cons, List.replicate_succ]
    · exact hafter

/-- A message yields nothing until its last fragment, which yields it. -/
theorem feed_message {fs : List Bytes} (h : Message most fs m) :
    (new most).feed fs = List.replicate (fs.length - 1) (.ok none) ++ [.ok (some m)] ∧
    (new most).after fs = new most := by
  cases h with
  | whole fits =>
    unfold feed after
    rw [Lib.run_cons, new_push_start fits]
    exact ⟨rfl, rfl⟩
  | @split body bodies last fits =>
    have hfirst : (body ++ bodies.flatten).length ≤ most := by
      rw [List.length_append] at fits
      omega
    have hbody : body.length ≤ most := by
      rw [List.length_append] at hfirst
      omega
    obtain ⟨hfeed, hafter⟩ := feed_more hfirst
    have hlength : (((start ||| more) :: body) :: bodies.map (more :: ·) ++ [0 :: last]).length - 1 =
        bodies.length + 1 := by
      rw [List.length_append, List.length_cons, List.length_map, List.length_singleton]
      omega
    rw [hlength, List.cons_append]
    unfold feed
    rw [new_push_first hbody, feed_append, hfeed, hafter]
    constructor
    · unfold feed
      rw [holding_push_last fits, List.replicate_succ, List.cons_append]
      rfl
    · unfold after
      rw [Lib.run_cons, Lib.run_append, new_push_first hbody]
      unfold after at hafter
      rw [hafter, Lib.run_cons, holding_push_last fits]
      rfl

theorem feed_stream (h : Stream most fs outs) : (new most).feed fs = outs.map .ok := by
  induction h with
  | nil => rfl
  | unfinished h =>
    obtain @⟨body, bodies, fits⟩ := h
    have hbody : body.length ≤ most := by
      rw [List.length_append] at fits
      omega
    unfold feed
    rw [new_push_first hbody, (feed_more fits).1, List.map_replicate, List.length_cons,
      List.length_map, List.replicate_succ]
  | message h tail ih =>
    obtain ⟨hfeed, hafter⟩ := feed_message h
    rw [feed_append, hfeed, hafter, ih, List.map_append, List.map_replicate, List.map_cons,
      List.append_assoc]
    rfl

/-- What is taken in the middle of a message: more of it, perhaps its end, and what follows. -/
theorem feed_holding {fs : List Bytes} (h : (holding most m).feed fs = outs.map .ok) :
    (∃ bodies : List Bytes, fs = bodies.map (more :: ·) ∧ (bodies ≠ [] → (m ++ bodies.flatten).length ≤ most) ∧
      outs = List.replicate fs.length none) ∨
    ∃ (bodies : List Bytes) (last : Bytes) (rest : List Bytes) (outs' : List (Option Bytes)),
      fs = bodies.map (more :: ·) ++ (0 :: last) :: rest ∧
      (m ++ bodies.flatten ++ last).length ≤ most ∧
      outs = List.replicate bodies.length none ++ some (m ++ bodies.flatten ++ last) :: outs' ∧
      (new most).feed rest = outs'.map .ok := by
  induction fs generalizing m outs with
  | nil =>
    have hnil : outs = [] := List.map_eq_nil_iff.mp h.symm
    exact .inl ⟨[], rfl, fun hne => absurd rfl hne, hnil⟩
  | cons f fs ih =>
    cases outs with
    | nil => cases h
    | cons out outs =>
      obtain ⟨hout, hrest⟩ := List.cons.inj h
      rcases holding_push_ok hout with ⟨body, rfl, fits, rfl⟩ | ⟨last, rfl, fits, rfl⟩
      · rw [holding_push_more fits] at hrest
        rcases ih hrest with ⟨bodies, rfl, hfits, rfl⟩ | ⟨bodies, last, rest, outs', rfl, hfits, rfl, htail⟩
        · refine .inl ⟨body :: bodies, rfl, fun _ => ?_, rfl⟩
          by_cases hnil : bodies = []
          · subst hnil
            rw [List.flatten_cons, List.flatten_nil, List.append_nil]
            exact fits
          · rw [List.flatten_cons, ← List.append_assoc]
            exact hfits hnil
        · refine .inr ⟨body :: bodies, last, rest, outs', rfl, ?_, ?_, htail⟩
          · rw [List.flatten_cons, ← List.append_assoc m]
            exact hfits
          · rw [List.flatten_cons, ← List.append_assoc m, List.length_cons, List.replicate_succ]
            rfl
      · rw [holding_push_last fits] at hrest
        refine .inr ⟨[], last, fs, outs, rfl, ?_, ?_, hrest⟩
        · rw [List.flatten_nil, List.append_nil]
          exact fits
        · rw [List.flatten_nil, List.append_nil]
          rfl

/-- Nothing else is taken. -/
theorem stream_of_feed {fs : List Bytes} {outs : List (Option Bytes)}
    (h : (new most).feed fs = outs.map .ok) :
    Stream most fs outs := by
  cases fs with
  | nil =>
    have hnil : outs = [] := List.map_eq_nil_iff.mp h.symm
    rw [hnil]
    exact .nil
  | cons f fs =>
    cases outs with
    | nil => cases h
    | cons out outs =>
      obtain ⟨hout, hrest⟩ := List.cons.inj h
      rcases new_push_ok hout with ⟨body, rfl, fits, rfl⟩ | ⟨body, rfl, fits, rfl⟩
      · rw [new_push_start fits] at hrest
        have htail := stream_of_feed hrest
        exact .message (.whole fits) htail
      · rw [new_push_first fits] at hrest
        rcases feed_holding hrest with ⟨bodies, rfl, hfits, rfl⟩ |
          ⟨bodies, last, rest, outs', rfl, hfits, rfl, htail⟩
        · have hall : (body ++ bodies.flatten).length ≤ most := by
            by_cases hnil : bodies = []
            · subst hnil
              rw [List.flatten_nil, List.append_nil]
              exact fits
            · exact hfits hnil
          exact .unfinished (.mk hall)
        · have hmessage := Message.split hfits
          have hstream := Stream.message hmessage (stream_of_feed htail)
          have hlength : (((start ||| more) :: body) :: bodies.map (more :: ·) ++
              [0 :: last]).length - 1 = bodies.length + 1 := by
            rw [List.length_append, List.length_cons, List.length_map, List.length_singleton]
            omega
          rw [hlength, List.append_assoc, List.replicate_succ] at hstream
          exact hstream
termination_by fs.length

end Reassembler

section Fragments
variable {payload most : ℕ} {msg rest : Bytes}

theorem fragmentFrom_short (pos : 0 < payload) (first : Bool) (h : rest.length ≤ payload) :
    fragmentFrom payload pos first rest = [(if first then start else 0) :: rest] := by
  have hmin : min rest.length payload = rest.length := Nat.min_eq_left h
  have hheader : ∀ b : UInt8, b ||| 0 = b := fun b => UInt8.or_zero
  unfold fragmentFrom
  rw [hmin, List.drop_length, List.take_length]
  dsimp only
  rw [dif_pos rfl, if_pos rfl, hheader]

theorem fragmentFrom_long (pos : 0 < payload) (first : Bool) (h : payload < rest.length) :
    fragmentFrom payload pos first rest =
      (((if first then start else 0) ||| more) :: rest.take payload) ::
        fragmentFrom payload pos false (rest.drop payload) := by
  have hmin : min rest.length payload = payload := Nat.min_eq_right h.le
  have hlater : rest.drop payload ≠ [] := by
    intro hnil
    have hlength := congrArg List.length hnil
    rw [List.length_drop, List.length_nil] at hlength
    omega
  conv_lhs => unfold fragmentFrom
  rw [hmin]
  dsimp only
  rw [dif_neg hlater, if_neg hlater]

/-- The pieces after the first: all but the last are marked, and together they are what is left. -/
theorem fragmentFrom_rest (pos : 0 < payload) (rest : Bytes) :
    ∃ (bodies : List Bytes) (last : Bytes), fragmentFrom payload pos false rest = bodies.map (more :: ·) ++ [0 :: last] ∧
      bodies.flatten ++ last = rest := by
  by_cases hshort : rest.length ≤ payload
  · exact ⟨[], rest, fragmentFrom_short pos false hshort, rfl⟩
  · have hlong : payload < rest.length := Nat.lt_of_not_le hshort
    obtain ⟨bodies, last, hpieces, hjoin⟩ := fragmentFrom_rest pos (rest.drop payload)
    have hheader : (0 ||| more : UInt8) = more := by decide
    refine ⟨rest.take payload :: bodies, last, ?_, ?_⟩
    · rw [fragmentFrom_long pos false hlong, hpieces, List.map_cons]
      rfl
    · rw [List.flatten_cons, List.append_assoc, hjoin, List.take_append_drop]
termination_by rest.length
decreasing_by
  rw [List.length_drop]
  omega

/-- No piece is longer than its payload and a header. -/
theorem length_fragmentFrom (pos : 0 < payload) (first : Bool) (rest : Bytes) :
    ∀ f ∈ fragmentFrom payload pos first rest, f.length ≤ payload + headerLen := by
  intro f hf
  by_cases hshort : rest.length ≤ payload
  · rw [fragmentFrom_short pos first hshort] at hf
    rw [List.mem_singleton.mp hf, List.length_cons]
    exact Nat.succ_le_succ hshort
  · have hlong : payload < rest.length := Nat.lt_of_not_le hshort
    rw [fragmentFrom_long pos first hlong] at hf
    rcases List.mem_cons.mp hf with rfl | hf
    · rw [List.length_cons, List.length_take]
      exact Nat.succ_le_succ (Nat.min_le_left _ _)
    · exact length_fragmentFrom pos false (rest.drop payload) f hf
termination_by rest.length
decreasing_by
  rw [List.length_drop]
  omega

/-- The fragments of a message are that message on the wire. -/
theorem fragment_message (fits : msg.length ≤ most) (size : ℕ) :
    Message most (fragment msg size) msg := by
  unfold fragment
  have pos : 0 < max (size - headerLen) 1 := by omega
  by_cases hshort : msg.length ≤ max (size - headerLen) 1
  · rw [fragmentFrom_short pos true hshort]
    exact .whole fits
  · obtain ⟨bodies, last, hpieces, hjoin⟩ :=
      fragmentFrom_rest pos (msg.drop (max (size - headerLen) 1))
    have hmsg : msg.take (max (size - headerLen) 1) ++ bodies.flatten ++ last = msg := by
      rw [List.append_assoc, hjoin, List.take_append_drop]
    have hfits : (msg.take (max (size - headerLen) 1) ++ bodies.flatten ++ last).length ≤ most := by
      rw [hmsg]
      exact fits
    have hsplit := Message.split hfits
    rw [hmsg] at hsplit
    rw [fragmentFrom_long pos true (Nat.lt_of_not_le hshort), hpieces]
    exact hsplit

theorem length_fragment (size : ℕ) : ∀ f ∈ fragment msg size, f.length ≤ max size 2 := by
  intro f hf
  have hlength := length_fragmentFrom (by omega) true msg f hf
  unfold headerLen at hlength
  omega

/-- The fragments of messages, one after another, come out as these messages, each at its last
fragment. -/
theorem fragments_come_back (most : ℕ) (ms : List (Bytes × ℕ)) (fits : ∀ e ∈ ms, e.1.length ≤ most) :
    (Reassembler.new most).feed (ms.flatMap fun e => fragment e.1 e.2) =
      ms.flatMap (fun e => List.replicate ((fragment e.1 e.2).length - 1) (.ok none) ++
        [.ok (some e.1)]) ∧
    ∀ e ∈ ms, ∀ f ∈ fragment e.1 e.2, f.length ≤ max e.2 2 := by
  constructor
  · induction ms with
    | nil => rfl
    | cons e ms ih =>
      have hmessage := fragment_message (fits e List.mem_cons_self) e.2
      obtain ⟨hfeed, hafter⟩ := Reassembler.feed_message hmessage
      have hrest := ih fun e' he' => fits e' (List.mem_cons_of_mem _ he')
      rw [List.flatMap_cons, List.flatMap_cons, Reassembler.feed_append, hfeed, hafter, hrest]
  · exact fun e _ => length_fragment e.2

/-- A message in two pieces and an empty one. -/
theorem two_messages_come_back :
    (Reassembler.new 4).feed ([([1, 2, 3], 3), ([], 0)].flatMap fun e => fragment e.1 e.2) =
      [([1, 2, 3], 3), ([], 0)].flatMap (fun e =>
        List.replicate ((fragment e.1 e.2).length - 1) (.ok none) ++ [.ok (some e.1)]) ∧
    ∀ e ∈ [(([1, 2, 3] : Bytes), 3), ([], 0)], ∀ f ∈ fragment e.1 e.2, f.length ≤ max e.2 2 :=
  fragments_come_back 4 [([1, 2, 3], 3), ([], 0)] (by decide)

end Fragments

/-- How a reassembler treats fragments, against the grammar of messages. -/
structure FollowsGrammar (most : ℕ) : Prop where
  /-- It takes exactly what the grammar allows, and yields what the grammar says. -/
  takes : ∀ fs outs, (Reassembler.new most).feed fs = outs.map .ok ↔ Stream most fs outs
  /-- A fragment that does not go on as the grammar allows is an error. -/
  refuses : ∀ fs outs f, Stream most fs outs → (∀ out, ¬ Stream most (fs ++ [f]) (outs ++ [out])) →
    ∃ e, (((Reassembler.new most).after fs).push f).2 = .error e
  /-- Whatever comes, it holds no more than it may. -/
  bounded : ∀ fs, ((Reassembler.new most).after fs).buf.length ≤ most
  /-- After an error it is as good as new. -/
  resets : ∀ fs f e, (((Reassembler.new most).after fs).push f).2 = .error e →
    (((Reassembler.new most).after fs).push f).1 = Reassembler.new most

/-- For any fragments, the reassembler follows the grammar of `START` and `MORE`. -/
theorem reassembler_follows_grammar (most : ℕ) : FollowsGrammar most := by
  have takes : ∀ fs outs, (Reassembler.new most).feed fs = outs.map .ok ↔ Stream most fs outs :=
    fun fs outs => ⟨Reassembler.stream_of_feed, Reassembler.feed_stream⟩
  constructor
  · exact takes
  · intro fs outs f hstream hno
    cases hout : (((Reassembler.new most).after fs).push f).2 with
    | error e => exact ⟨e, rfl⟩
    | ok out =>
      have hfeed : (Reassembler.new most).feed (fs ++ [f]) = (outs ++ [out]).map .ok := by
        rw [Reassembler.feed_append, (takes fs outs).mpr hstream, List.map_append]
        unfold Reassembler.feed
        rw [hout]
        rfl
      exact absurd ((takes _ _).mp hfeed) (hno out)
  · exact fun fs => (Reassembler.kept_after most fs).length_le
  · intro fs f e herror
    rw [Reassembler.push_error herror, (Reassembler.kept_after most fs).max_eq]

end Acrylius.Ble
