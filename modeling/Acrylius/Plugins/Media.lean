import Acrylius.Plugins.Peers

/-! `org.acrylius.media/1`: control whatever is playing (`media.rs`). -/
namespace Acrylius
open Proto Std

namespace Media

def cap : String := "org.acrylius.media/1"

structure MediaPlayer where
  id : String
  name : String
  status : String
  title : String
  artist : String
  album : String
  lengthMs : ℕ
  /-- At the moment the state was taken. -/
  positionMs : ℕ
  volumePercent : Option UInt8
  canGoNext : Bool
  canGoPrevious : Bool
  canSeek : Bool
  canControl : Bool
deriving DecidableEq

instance : Wire MediaPlayer where
  toValue m := .array [Wire.toValue m.id, Wire.toValue m.name, Wire.toValue m.status,
    Wire.toValue m.title, Wire.toValue m.artist, Wire.toValue m.album, Wire.toValue m.lengthMs,
    Wire.toValue m.positionMs, Wire.toValue m.volumePercent, Wire.toValue m.canGoNext,
    Wire.toValue m.canGoPrevious, Wire.toValue m.canSeek, Wire.toValue m.canControl]
  ofValue
    | .array vs => do
      let id ← Value.field vs 0
      let name ← Value.field vs 1
      let status ← Value.field vs 2
      let title ← Value.field vs 3
      let artist ← Value.field vs 4
      let album ← Value.field vs 5
      let lengthMs ← Value.field vs 6
      let positionMs ← Value.field vs 7
      let volumePercent ← Value.optField vs 8
      let canGoNext ← Value.field vs 9
      let canGoPrevious ← Value.field vs 10
      let canSeek ← Value.field vs 11
      let canControl ← Value.field vs 12
      some { id, name, status, title, artist, album, lengthMs, positionMs, volumePercent,
             canGoNext, canGoPrevious, canSeek, canControl }
    | _ => none
  ofValue_toValue m := by simp [Value.field, Value.optField]

instance : Wire (List MediaPlayer) := Wire.list MediaPlayer

/-- The host's answer to `mediaQuery`, and the payload of `state`. -/
structure MediaState where
  players : List MediaPlayer
  /-- The id a command with no player named goes to. -/
  active : String
  systemVolume : Option UInt8
deriving DecidableEq

instance : Wire MediaState where
  toValue s :=
    .record [Wire.toValue s.players, Wire.toValue s.active] (Wire.toValue s.systemVolume)
  ofValue
    | .array vs => do
      let players ← Value.field vs 0
      let active ← Value.field vs 1
      let systemVolume ← Value.optField vs 2
      some { players, active, systemVolume }
    | _ => none
  ofValue_toValue s := by
    obtain ⟨players, active, systemVolume⟩ := s
    rcases Value.record_cases rfl [Wire.toValue players, Wire.toValue active] systemVolume with
      ⟨rfl, heq⟩ | heq <;> simp [heq, Value.field, Value.optField]

structure MediaCommand where
  player : String
  value : Int64
deriving DecidableEq

instance : Wire MediaCommand where
  toValue c := .array [Wire.toValue c.player, Wire.toValue c.value]
  ofValue
    | .array vs => do
      let player ← Value.field vs 0
      let value ← Value.field vs 1
      some { player, value }
    | _ => none
  ofValue_toValue c := by simp [Value.field]

def MediaCommand.default : MediaCommand := ⟨"", 0⟩

def manifest : PluginManifest where
  id := "org.acrylius.media"
  outgoing := [cap]
  incoming := [cap]
  requires := [.media]

/-- `state` for a query, `broadcast` for something nobody asked for. -/
inductive Reply where
  | state
  | broadcast
deriving DecidableEq

structure Pending where
  peer : DeviceId
  request : UInt32
  reply : Reply
deriving DecidableEq

def simpleAction : String → Option MediaAction
  | "play" => some .play
  | "pause" => some .pause
  | "playpause" => some .playPause
  | "next" => some .next
  | "previous" => some .previous
  | "stop" => some .stop
  | _ => none

def MediaPlayer.still (m : MediaPlayer) : MediaPlayer := { m with positionMs := 0 }

/-- Whether a new reading is worth telling anyone about. Position alone is not. -/
def worthAnnouncing (before : Option MediaState) (now : MediaState) : Bool :=
  match before with
  | none => true
  | some before =>
    if before.active ≠ now.active ∨ before.players.length ≠ now.players.length ∨
        before.systemVolume ≠ now.systemVolume then true
    else (before.players.zip now.players).any fun e => e.1.still ≠ e.2.still

def actionFor (ty : String) (cmd : MediaCommand) : Except PluginError MediaAction :=
  match simpleAction ty with
  | some a => .ok a
  | none =>
    match ty with
    | "seek" => .ok (.seek cmd.value.toInt)
    | "position" =>
      if 0 ≤ cmd.value.toInt then .ok (.setPosition cmd.value.toInt.toNat) else .error .notAllowed
    | "volume" =>
      if 0 ≤ cmd.value.toInt ∧ cmd.value.toInt ≤ 100 then .ok (.setVolume cmd.value.toInt.toNat)
      else .error .notAllowed
    | other => .error (.unknownType other)

end Media

open Media

structure MediaPlugin (X : Crates) where
  pending : ExtTreeMap EffectToken Media.Pending
  connected : List DeviceId
  last : Option MediaState

namespace MediaPlugin
variable {X : Crates}

def default (X : Crates) : MediaPlugin X := ⟨∅, [], none⟩

/-- An empty body is a bare verb. -/
def command (X : Crates) (body : Bytes) : Option MediaCommand :=
  if body = [] then some .default else X.decode MediaCommand body

section Hooks
variable (p : MediaPlugin X) (cx : Cx) (peer : DeviceId)

def broadcastExcept (state : MediaState) (alreadyTold : Option DeviceId) : Cx :=
  cx.tell p.connected alreadyTold Media.cap "state" (X.encode state)

def onPeerConnected : MediaPlugin X × Cx :=
  ({ p with connected := Peers.join p.connected peer }, match p.last with
    | some state => cx.send peer Media.cap "state" (X.encode state)
    | none => cx)

def onPeerDisconnected : MediaPlugin X × Cx :=
  ({ p with connected := Peers.leave p.connected peer }, cx)

def ask (e : Effect) (who : Media.Pending) : MediaPlugin X × Cx × Except PluginError Unit :=
  ({ p with pending := p.pending.insert (cx.effect e).2 who }, (cx.effect e).1, .ok ())

/-- A verb is answered with the state afterwards, like a query. -/
def onMessage (env : Envelope) : MediaPlugin X × Cx × Except PluginError Unit :=
  match env.ty with
  | "query" => p.ask cx .mediaQuery { peer, request := env.id, reply := .state }
  | "state" => (p, cx.emit (.plugin peer Media.cap env.ty env.body), .ok ())
  | ty =>
    match command X env.body with
    | none => (p, cx, .error .badBody)
    | some cmd =>
      match actionFor ty cmd with
      | .error e => (p, cx, .error e)
      | .ok action =>
        p.ask cx (.mediaControl cmd.player action) { peer, request := env.id, reply := .state }

/-- The peer of a `notify` is ignored. A local UI sends the same verbs a peer does. -/
def onLocal (ty : String) (body : Bytes) : MediaPlugin X × Cx × Except PluginError Unit :=
  match ty with
  | "notify" => p.ask cx .mediaQuery { peer, request := 0, reply := .broadcast }
  | "query" => (p, cx.send peer Media.cap "query" [], .ok ())
  | ty =>
    match command X body with
    | none => (p, cx, .error .badBody)
    | some cmd =>
      match actionFor ty cmd with
      | .error e => (p, cx, .error e)
      | .ok _ => (p, cx.send peer Media.cap ty body, .ok ())

/-- A reading the host made is kept; it is told around if it says something new. -/
def refresh (state : MediaState) (alreadyTold : Option DeviceId) : MediaPlugin X × Cx :=
  ({ p with last := some state },
    if worthAnnouncing p.last state then p.broadcastExcept cx state alreadyTold else cx)

def answer (who : Media.Pending) (result : EffectResult) : MediaPlugin X × Cx :=
  match result, who.reply with
  | .ok data, reply =>
    match X.decode MediaState data, reply with
    | none, .broadcast => (p, cx)
    | none, .state =>
      (p, cx.sendError X who.peer Media.cap who.request "internal" "unreadable state")
    | some state, .broadcast => p.refresh cx state none
    | some state, .state =>
      let (p, cx) := p.refresh cx state (some who.peer)
      (p, cx.sendReply who.peer Media.cap "state" (X.encode state) who.request)
  | .failed _, .broadcast => (p, cx)
  | .failed detail, .state =>
    (p, cx.sendError X who.peer Media.cap who.request "effect_failed" detail)
  | .unsupported, .broadcast => (p, cx)
  | .unsupported, .state => (p, cx.sendError X who.peer Media.cap who.request "not_allowed"
      "this device has nothing to control")

def onEffectResult (token : EffectToken) (result : EffectResult) : MediaPlugin X × Cx :=
  match p.pending[token]? with
  | none => (p, cx)
  | some who => answer { p with pending := p.pending.erase token } cx who result

end Hooks
end MediaPlugin

instance {X : Crates} : Plugin (MediaPlugin X) where
  manifest _ := Media.manifest
  onMessage p cx peer env := p.onMessage cx peer env
  onPeerConnected p cx peer := p.onPeerConnected cx peer
  onPeerDisconnected p cx peer := p.onPeerDisconnected cx peer
  onLocal p cx peer ty body := p.onLocal cx peer ty body
  onEffectResult p cx token result := p.onEffectResult cx token result

end Acrylius
