import Acrylius.Core.Machine
import Acrylius.Plugins.Share
import Acrylius.Lib.Run

/-! Crates one can run: CBOR with one-byte heads, and handshakes whose messages carry in the
clear what Noise would authenticate. Every law asked of the crates elsewhere holds of them. -/
namespace Acrylius.Mock
open Proto

section Codec

/-- Base 128, least significant digit first, the high bit marking that more follow. -/
def encNat : ℕ → ℕ → Bytes
  | 0, n => [UInt8.ofNat n]
  | fuel + 1, n =>
    if n < 128 then [UInt8.ofNat n] else UInt8.ofNat (n % 128 + 128) :: encNat fuel (n / 128)

def decNat : Bytes → Option (ℕ × Bytes)
  | [] => none
  | b :: bs =>
    if b.toNat < 128 then some (b.toNat, bs)
    else (decNat bs).map fun r => (r.1 * 128 + (b.toNat - 128), r.2)

theorem decNat_encNat (fuel n : ℕ) (rest : Bytes) (h : n ≤ fuel) :
    decNat (encNat fuel n ++ rest) = some (n, rest) := by
  induction fuel generalizing n with
  | zero =>
    obtain rfl : n = 0 := by omega
    rfl
  | succ fuel ih =>
    unfold encNat
    split_ifs with hn
    · have hb : (UInt8.ofNat n).toNat = n := by simp; omega
      simp [decNat, hn, Nat.mod_eq_of_lt (show n < 256 by omega)]
    · have hb : (UInt8.ofNat (n % 128 + 128)).toNat = n % 128 + 128 := by
        rw [UInt8.toNat_ofNat']
        omega
      have hrec := ih (n / 128) (by omega)
      simp only [List.cons_append, decNat, hb, hrec]
      rw [if_neg (by omega)]
      simp only [Option.map_some, Nat.add_sub_cancel, Option.some.injEq, Prod.mk.injEq, and_true]
      omega

def decMany {α : Type} (d : Bytes → Option (α × Bytes)) : ℕ → Bytes → Option (List α × Bytes)
  | 0, bs => some ([], bs)
  | k + 1, bs => do
    let (a, bs) ← d bs
    let (as, bs) ← decMany d k bs
    some (a :: as, bs)

theorem decMany_flatMap {α : Type} {d : Bytes → Option (α × Bytes)} {e : α → Bytes} (as : List α)
    (h : ∀ a ∈ as, ∀ rest, d (e a ++ rest) = some (a, rest)) (rest : Bytes) :
    decMany d as.length (as.flatMap e ++ rest) = some (as, rest) := by
  induction as with
  | nil => rfl
  | cons a as ih =>
    have ha := h a (by simp) (as.flatMap e ++ rest)
    have has := ih fun a' hm => h a' (List.mem_cons_of_mem _ hm)
    simp [decMany, List.flatMap_cons, List.append_assoc, ha, has]

def encCount (n : ℕ) : Bytes := encNat n n

def encChar (c : Char) : Bytes := encCount c.toNat

def decChar (bs : Bytes) : Option (Char × Bytes) := (decNat bs).map fun r => (Char.ofNat r.1, r.2)

def decByte : Bytes → Option (UInt8 × Bytes)
  | [] => none
  | b :: bs => some (b, bs)

mutual
def encode : Value → Bytes
  | .uint n => 0 :: encCount n
  | .text s => 1 :: (encCount s.toList.length ++ s.toList.flatMap encChar)
  | .bytes b => 2 :: (encCount b.length ++ b)
  | .bool b => [if b then 3 else 4]
  | .null => [5]
  | .array vs => 6 :: (encCount vs.length ++ encodeAll vs)
  | .nint n => 7 :: encCount n
def encodeAll : List Value → Bytes
  | [] => []
  | v :: vs => encode v ++ encodeAll vs
end

def decode : ℕ → Bytes → Option (Value × Bytes)
  | 0, _ => none
  | _, [] => none
  | fuel + 1, head :: bs =>
    if head = 0 then (decNat bs).map fun r => (.uint r.1, r.2)
    else if head = 1 then do
      let (k, bs) ← decNat bs
      let (cs, bs) ← decMany decChar k bs
      some (.text (String.ofList cs), bs)
    else if head = 2 then do
      let (k, bs) ← decNat bs
      let (b, bs) ← decMany decByte k bs
      some (.bytes b, bs)
    else if head = 3 then some (.bool true, bs)
    else if head = 4 then some (.bool false, bs)
    else if head = 5 then some (.null, bs)
    else if head = 6 then do
      let (k, bs) ← decNat bs
      let (vs, bs) ← decMany (decode fuel) k bs
      some (.array vs, bs)
    else if head = 7 then (decNat bs).map fun r => (.nint r.1, r.2)
    else none

theorem decNat_encCount (n : ℕ) (rest : Bytes) : decNat (encCount n ++ rest) = some (n, rest) :=
  decNat_encNat n n rest le_rfl

theorem decChar_encChar (c : Char) (rest : Bytes) :
    decChar (encChar c ++ rest) = some (c, rest) := by
  simp [decChar, encChar, decNat_encCount]

theorem encodeAll_eq (vs : List Value) : encodeAll vs = vs.flatMap encode := by
  induction vs with
  | nil => rfl
  | cons v vs ih => simp [encodeAll, ih]

theorem length_encode_le {v : Value} {vs : List Value} (h : v ∈ vs) :
    (encode v).length ≤ (encodeAll vs).length := by
  induction vs with
  | nil => cases h
  | cons w vs ih =>
    rw [encodeAll, List.length_append]
    rcases List.mem_cons.mp h with rfl | h
    · omega
    · have := ih h
      omega

theorem decode_encode (fuel : ℕ) (v : Value) (rest : Bytes) (h : (encode v).length ≤ fuel) :
    decode fuel (encode v ++ rest) = some (v, rest) := by
  induction fuel generalizing v rest with
  | zero => cases v <;> simp [encode] at h
  | succ fuel ih =>
    cases v with
    | uint n => simp [encode, decode, decNat_encCount]
    | nint n => simp [encode, decode, decNat_encCount]
    | text s =>
      have := decMany_flatMap s.toList (fun c _ rest => decChar_encChar c rest) rest
      simp [encode, decode, decNat_encCount, List.append_assoc, this]
    | bytes b =>
      have := decMany_flatMap b (d := decByte) (e := ([·])) (fun _ _ _ => rfl) rest
      rw [List.flatMap_singleton'] at this
      simp [encode, decode, decNat_encCount, List.append_assoc, this]
    | bool b => cases b <;> simp [encode, decode]
    | null => simp [encode, decode]
    | array vs =>
      have hlen : (encodeAll vs).length ≤ fuel := by
        simp only [encode, List.length_cons, List.length_append] at h
        omega
      have := decMany_flatMap vs (fun v hm rest =>
        ih v rest ((length_encode_le hm).trans hlen)) rest
      simp [encode, decode, decNat_encCount, List.append_assoc, encodeAll_eq, this]

end Codec

/-- The last 32 bytes, backwards. -/
def sha256 (b : Bytes) : Key32 where
  bytes := (b.reverse ++ List.replicate 32 0).take 32
  size := by simp

/-- The key material shifted by the info string, read backwards. -/
def hkdf (ikm info : Bytes) (n : ℕ) : { b : Bytes // b.length = n } :=
  let back := info.reverse
  ⟨(List.range n).map fun j => ikm.getD j 0 + back.getD j 0, by simp⟩

def x25519 (k : Key32) : Key32 where
  bytes := k.bytes.map (· + 1)
  size := by simp [k.size]

structure HandshakeState where
  ik : Bool
  initiator : Bool
  mine : Bytes
  psk : Bytes
  remote : Option Bytes
  seed : UInt8
  stage : ℕ
  transcript : Bytes

namespace HandshakeState

def finished (s : HandshakeState) : Bool := s.stage = if s.ik then 2 else 3

def myTurn (s : HandshakeState) : Bool := s.initiator = (s.stage % 2 = 0)

def build (params : String) (_prologue : Bytes) (localPrivate : Key32) (psk : Option (ℕ × Key32))
    (remotePublic : Option Key32) (initiator : Bool) (seed : UInt8) :
    Except String HandshakeState :=
  .ok {
    ik := params = Mode.session.params
    initiator
    mine := (x25519 localPrivate).bytes
    psk := psk.elim [] (·.2.bytes)
    remote := remotePublic.map (·.bytes)
    seed
    stage := 0
    transcript := [] }

/-- What the pattern puts before the payload: the ephemeral, then the static keys of `XX`, the
target and the caller of `IK`, and the PSK that answers it, filled up to the overhead of an answer. -/
def tokens (s : HandshakeState) : Bytes :=
  match s.ik, s.stage with
  | true, 0 => s.seed :: (s.remote.getD [] ++ s.mine)
  | true, _ => s.seed :: (s.psk ++ List.replicate 15 0)
  | false, 0 => [s.seed]
  | false, _ => s.seed :: s.mine

def after (s : HandshakeState) (m : Bytes) (remote : Option Bytes) : HandshakeState :=
  { s with
    stage := s.stage + 1
    transcript := s.transcript ++ m
    remote }

def write (s : HandshakeState) (payload : Bytes) : Except String (Bytes × HandshakeState) :=
  let m := s.tokens ++ payload
  if s.finished || !s.myTurn then .error "not my turn"
  else if maxNoiseMessage < m.length then .error "message too long"
  else .ok (m, s.after m s.remote)

def read (s : HandshakeState) (m : Bytes) : Except String (Bytes × HandshakeState) :=
  if s.finished || s.myTurn then .error "not your turn"
  else match s.ik, s.stage with
    | true, 0 =>
      if m.length < 65 ∨ (m.drop 1).take 32 ≠ s.mine then .error "decrypt error"
      else .ok (m.drop 65, s.after m (s.remote.or (some ((m.drop 33).take 32))))
    | true, _ =>
      if m.length < 48 ∨ (m.drop 1).take 32 ≠ s.psk then .error "decrypt error"
      else .ok (m.drop 48, s.after m s.remote)
    | false, 0 =>
      if m.length < 1 then .error "input error" else .ok (m.drop 1, s.after m s.remote)
    | false, _ =>
      if m.length < 33 then .error "input error"
      else .ok (m.drop 33, s.after m (s.remote.or (some ((m.drop 1).take 32))))

end HandshakeState

/-- One end of a session: who it is, what the two agreed on, and the two counters. -/
structure TransportState where
  initiator : Bool
  transcript : Bytes
  sent : ℕ
  received : ℕ

/-- Sixteen bytes that name the direction, the counter and the session. -/
def tag (fromInitiator : Bool) (transcript : Bytes) (n : ℕ) : Bytes :=
  let digest := transcript.foldl (fun acc b => (acc * 31 + b.toNat) % 2 ^ 64) 7
  (if fromInitiator then 1 else 2) ::
    ((List.range 7).map (fun k => UInt8.ofNat (n / 256 ^ k)) ++
      (List.range 8).map fun k => UInt8.ofNat (digest / 256 ^ k))

theorem length_tag (d : Bool) (t : Bytes) (n : ℕ) : (tag d t n).length = tagLen := by
  simp [tag, tagLen]

namespace TransportState

def write (t : TransportState) (p : Bytes) : Except String (Bytes × TransportState) :=
  if maxNoiseMessage < p.length + tagLen then .error "message too long"
  else .ok (p ++ tag t.initiator t.transcript t.sent, { t with sent := t.sent + 1 })

def read (t : TransportState) (ct : Bytes) : Except String (Bytes × TransportState) :=
  let p := ct.take (ct.length - tagLen)
  if ct = p ++ tag (!t.initiator) t.transcript t.received then
    .ok (p, { t with received := t.received + 1 })
  else .error "decrypt error"

end TransportState

def crates : Crates where
  sha256 := sha256
  hkdf := hkdf
  x25519 := x25519
  cborEncode := encode
  cborDecode b := (decode b.length b).map (·.1)
  cborDecode_encode v := by
    have := decode_encode (encode v).length v [] le_rfl
    rw [List.append_nil] at this
    simp [this]
  Seed := UInt8
  HandshakeState := HandshakeState
  TransportState := TransportState
  build := HandshakeState.build
  isHandshakeFinished := HandshakeState.finished
  isMyTurn := HandshakeState.myTurn
  writeMessage := HandshakeState.write
  readMessage := HandshakeState.read
  getRemoteStatic s := s.remote
  getHandshakeHash s := s.transcript
  intoTransportMode s :=
    if s.finished then .ok ⟨s.initiator, s.transcript, 0, 0⟩ else .error "handshake not finished"
  transportWrite := TransportState.write
  transportRead := TransportState.read

/-- A plugin with nothing to do. -/
instance : Plugin Unit where
  manifest _ := ⟨"idle", [], [], []⟩
  onMessage p cx _ _ := (p, cx, .ok ())

structure Greeter where
  size : ℕ

instance : Plugin Greeter where
  manifest _ := ⟨"greeter", ["greet/1"], ["greet/1"], []⟩
  onMessage p cx _ _ := (p, cx, .ok ())
  onPeerConnected p cx peer := (p, cx.send peer "greet/1" "hello" (List.replicate p.size 0))

def device (n : UInt8) : Identity crates :=
  Identity.fromPrivate crates ⟨List.replicate 32 n, List.length_replicate ..⟩

def fresh {P : Type} (n : UInt8) (plugins : List P) : CoreBuilder crates P where
  identity := device n
  config := CoreConfig.default
  effects := []
  plugins := plugins
  peers := []

def paired {P : Type} (n m : UInt8) (plugins : List P) : CoreBuilder crates P :=
  { fresh n plugins with peers := [{
    deviceId := (DeviceId.of crates (device m).publicKey).str
    publicKey := (device m).publicKey.bytes
    name := ""
    platform := ""
    sessionPsk := List.replicate 32 9
    greatestSeen := 0
    capsOut := []
    capsIn := [] }] }

/-- An event at a time both clocks agree on; handshakes draw the same byte. -/
def at_ (ms : ℕ) (seed : UInt8) (e : Event) : Core.Input crates := ⟨⟨ms, ms⟩, seed, e⟩

def phoneHello (tsMs : ℕ) : Hello := ⟨wireVersion, tsMs, "", "phone", "ios", [], []⟩

/-- What the phone with key byte `n` sends to pair with whoever answers on the link. -/
def pairFrames (n : UInt8) : List Bytes :=
  [Frame.join .pairHandshake [n],
    Frame.join .pairHandshake (n :: ((device n).publicKey.bytes ++ crates.encode (phoneHello 0)))]

/-- The opener the device with key byte `n` sends to the one with key byte `callee`. -/
def opener (n callee : UInt8) (hello : Hello) : Bytes :=
  n :: ((device callee).publicKey.bytes ++ (device n).publicKey.bytes ++ crates.encode hello)

def openerFrame (n callee : UInt8) (hello : Hello) : Bytes :=
  Frame.join .sessionHandshake (opener n callee hello)

section Sharing
variable {P : Type} [Plugin P]

def laptop (plugins : List P) : CoreBuilder crates P :=
  { paired 1 2 plugins with effects := [.share] }

def phone : DeviceId := DeviceId.of crates (device 2).publicKey

def phoneLinked (attrs : LinkAttrs) : List (Core.Input crates) :=
  [at_ 0 0 (.linkUp 0 attrs none),
    at_ 1 5 (.linkRecv 0 (openerFrame 2 1 { phoneHello 1 with
      capsOut := [Share.cap]
      capsIn := [Share.cap] }))]

def phoneSays (c : Core crates P) (ty : String) (body : Bytes) : Event :=
  match c.links[(0 : LinkId)]? with
  | some (.up u) =>
    let t : TransportState := u.session.state
    let env : Envelope := ⟨wireVersion, 1, none, Share.cap, ty, body, 0, none⟩
    .linkRecv 0 (Frame.join .transport
      (crates.encode env ++ tag (!t.initiator) t.transcript t.received))
  | _ => .tick

/-- The laptop once the phone, linked in such a way, has offered it a picture. -/
def pictureOffered (plugins : List P) (attrs : LinkAttrs) : List (Core.Input crates) :=
  let c := Lib.run Core.step (laptop plugins).build (phoneLinked attrs)
  let offer : Share.Offer := ⟨1, "cat.jpg", 3, "image/jpeg"⟩
  phoneLinked attrs ++ [at_ 2 0 (phoneSays c "offer" (crates.encode offer))]

def pictureAccepted (ms : ℕ) : Core.Input crates :=
  at_ ms 0 (.localCommand (.plugin phone Share.cap "accept"
    (crates.encode (⟨mintedHere ||| 1, true, ""⟩ : Share.Finished))))

end Sharing
end Acrylius.Mock
