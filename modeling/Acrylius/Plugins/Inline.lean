import Acrylius.Core.Tracking
import Acrylius.Net.InStep
import Acrylius.Plugins.Replies

/-! How large a clipboard value may be: what the plugin takes, against what Noise seals and the link
carries. -/
namespace Acrylius
open Proto Std

variable {X : Crates} {P : Type}

/-- `snow`'s `write_message`: a payload is sealed if it leaves room for the tag in a Noise message
and the nonce is not used up. -/
def Crates.Seals (X : Crates) (spent : X.TransportState → Prop) : Prop :=
  ∀ t p, (∃ ct t', X.transportWrite t p = .ok (ct, t')) ↔
    p.length + tagLen ≤ maxNoiseMessage ∧ ¬ spent t

namespace Core

/-- The link a message would take, by the ranks of the links with its peer. -/
theorem bestLink_eq_some {c : Core X P} {q : DeviceId} {e : LinkId × UpLink X} :
    c.bestLink q = some e ↔ c.links[e.1]? = some (.up e.2) ∧ e.2.peer = q ∧
      ∀ e' : LinkId × UpLink X, c.links[e'.1]? = some (.up e'.2) → e'.2.peer = q →
        rank e' ≤ rank e := by
  classical
  unfold bestLink
  rw [List.argmax_eq_some_iff]
  constructor
  · rintro ⟨hmem, hmax, -⟩
    obtain ⟨hl, hp⟩ := mem_upLinks.mp hmem
    exact ⟨hl, hp, fun e' hl' hp' => hmax e' (mem_upLinks.mpr ⟨hl', hp'⟩)⟩
  · rintro ⟨hl, hp, hmax⟩
    refine ⟨mem_upLinks.mpr ⟨hl, hp⟩, fun e' he' => ?_, fun e' he' hle => ?_⟩
    · obtain ⟨hl', hp'⟩ := mem_upLinks.mp he'
      exact hmax e' hl' hp'
    · -- Ranks tell links apart.
      obtain ⟨hl', hp'⟩ := mem_upLinks.mp he'
      have hrank : rank e' = rank e := (hmax e' hl' hp').antisymm hle
      have hid : e'.1 = e.1 := congrArg (fun r => (ofLex (ofLex r).2).2) hrank
      have hup : e'.2 = e.2 := by
        rw [hid, hl] at hl'
        exact (LinkState.up.inj (Option.some.inj hl')).symm
      rw [Prod.ext hid hup]

theorem bestLink_congr {c d : Core X P} {q : DeviceId}
    (h : ∀ (l : LinkId) (u : UpLink X), u.peer = q →
      (d.links[l]? = some (.up u) ↔ c.links[l]? = some (.up u))) : d.bestLink q = c.bestLink q := by
  have forth : ∀ e, d.bestLink q = some e ↔ c.bestLink q = some e := by
    intro e
    rw [bestLink_eq_some, bestLink_eq_some]
    constructor
    · rintro ⟨hl, hp, hmax⟩
      exact ⟨(h e.1 e.2 hp).mp hl, hp, fun e' hl' hp' => hmax e' ((h e'.1 e'.2 hp').mpr hl') hp'⟩
    · rintro ⟨hl, hp, hmax⟩
      exact ⟨(h e.1 e.2 hp).mpr hl, hp, fun e' hl' hp' => hmax e' ((h e'.1 e'.2 hp').mp hl') hp'⟩
  exact Option.ext forth

def maySend (c : Core X P) (q : DeviceId) (cap : String) : Bool :=
  match c.bestLink q with
  | some (_, u) => cap ∈ u.canSend
  | none => false

/-- A message goes out on a link that takes all that Noise seals, if Noise seals it. -/
theorem goesOut_iff_sealed {spent : X.TransportState → Prop} (hlen : X.SealLaw)
    (hseals : X.Seals spent) {c : Core X P} {m : PendingSend} {l : LinkId} {u : UpLink X}
    (hbest : c.bestLink m.peer = some (l, u)) (hcap : m.cap ∈ u.canSend)
    (hmax : maxNoiseMessage < u.maxMessage) :
    c.GoesOut m ↔ (X.encode (m.envelope (c.nextMsgId + 1))).length + tagLen ≤ maxNoiseMessage ∧
      ¬ spent u.session.state := by
  rw [← hseals]
  constructor
  · rintro @⟨l', u', ct, session, hbest', -, hsealed, -⟩
    obtain ⟨rfl, rfl⟩ : l = l' ∧ u = u' := by
      have heq := Option.some.inj (hbest.symm.trans hbest')
      exact ⟨congrArg Prod.fst heq, congrArg Prod.snd heq⟩
    exact ⟨ct, session.state, (Session.encrypt_ok hsealed).1⟩
  · rintro ⟨ct, t', hwrite⟩
    have hsealed : u.session.encrypt (X.encode (m.envelope (c.nextMsgId + 1))) =
        .ok (ct, ⟨t', u.session.sent + 1⟩) := by
      unfold Session.encrypt
      rw [hwrite]
      rfl
    obtain ⟨-, hle⟩ := hlen _ _ _ _ hwrite
    refine .intro hbest hcap hsealed ?_
    rw [Frame.length_join]
    omega

end Core

namespace Exec

/-- A message handed over costs an id if its peer may be sent it, and concerns no other peer. -/
theorem dispatchSend_besides (s : Exec X P) (m : PendingSend) :
    (∀ q, q ≠ m.peer → (s.dispatchSend m).core.bestLink q = s.core.bestLink q) ∧
    (s.dispatchSend m).core.nextMsgId =
      s.core.nextMsgId + if s.core.maySend m.peer m.cap then 1 else 0 := by
  have hmay : ∀ l u, s.core.bestLink m.peer = some (l, u) →
      s.core.maySend m.peer m.cap = decide (m.cap ∈ u.canSend) := by
    intro l u hbest
    unfold Core.maySend
    rw [hbest]
  unfold dispatchSend
  dsimp only
  cases hbest : s.core.bestLink m.peer with
  | none =>
    have hnone : s.core.maySend m.peer m.cap = false := by
      unfold Core.maySend
      rw [hbest]
    rw [hnone]
    exact ⟨fun _ _ => rfl, (UInt32.add_zero _).symm⟩
  | some e =>
    obtain ⟨l, u⟩ := e
    obtain ⟨hl, hp⟩ := Core.bestLink_up hbest
    rw [hmay l u hbest]
    dsimp only
    by_cases hcap : m.cap ∈ u.canSend
    case neg =>
      rw [if_pos hcap, decide_eq_false hcap]
      exact ⟨fun _ _ => rfl, (UInt32.add_zero _).symm⟩
    rw [if_neg (not_not.mpr hcap), decide_eq_true hcap]
    cases u.session.encrypt (X.encode (m.envelope (s.core.nextMsgId + 1))) with
    | error e => exact ⟨fun _ _ => rfl, rfl⟩
    | ok r =>
      obtain ⟨ct, session⟩ := r
      have other : ∀ q, q ≠ m.peer → ∀ d : Core X P,
          d.links = s.core.links.insert l (LinkState.up { u with session }) →
          d.bestLink q = s.core.bestLink q := by
        intro q hq d hd
        apply Core.bestLink_congr
        intro l' u' hu'
        rw [hd]
        by_cases hll : l' = l
        · subst hll
          rw [ExtTreeMap.getElem?_insert_self, hl]
          constructor
          · intro h
            obtain rfl := LinkState.up.inj (Option.some.inj h)
            exact absurd (hu'.symm.trans hp) hq
          · intro h
            obtain rfl := LinkState.up.inj (Option.some.inj h)
            exact absurd (hu'.symm.trans hp) hq
        · rw [Lib.getElem?_insert_of_ne hll]
      dsimp only
      split
      · exact ⟨fun q hq => other q hq _ rfl, rfl⟩
      · exact ⟨fun q hq => other q hq _ rfl, rfl⟩

end Exec

namespace Core

/-- How many of the peers before this one take an id, each with its message. -/
def idsBefore (c : Core X P) (cap : String) (ps : List DeviceId) (q : DeviceId) : ℕ :=
  (ps.takeWhile (· ≠ q)).countP (c.maySend · cap)

theorem idsBefore_cons {c d : Core X P} (cap : String) {ps : List DeviceId} {r q : DeviceId}
    (hr : r ∉ ps) (hq : q ≠ r) (h : ∀ q, q ≠ r → d.bestLink q = c.bestLink q) :
    c.idsBefore cap (r :: ps) q = (if c.maySend r cap then 1 else 0) + d.idsBefore cap ps q := by
  have hsame : (ps.takeWhile (· ≠ q)).countP (d.maySend · cap) =
      (ps.takeWhile (· ≠ q)).countP (c.maySend · cap) := by
    apply List.countP_congr
    intro a ha
    have hps : a ∈ ps := (List.takeWhile_prefix _).subset ha
    have hne : a ≠ r := by
      rintro rfl
      exact hr hps
    unfold maySend
    rw [h a hne]
  unfold idsBefore
  have htake : (r :: ps).takeWhile (· ≠ q) = r :: ps.takeWhile (· ≠ q) := by
    rw [List.takeWhile_cons, if_pos (decide_eq_true (Ne.symm hq))]
  rw [hsame, htake, List.countP_cons, Nat.add_comm]

end Core

namespace Exec

/-- One message to each of some peers: each is handed over in a state that sees its own peer's links
as they were, and under an id that only those before it moved on. -/
theorem dispatchEach {cap ty : String} {body : Bytes} {ps : List DeviceId} (nodup : ps.Nodup)
    (s : Exec X P) :
    ∃ new, ((ps.map (Cx.unsolicited cap ty body)).foldl dispatchSend s).sends = s.sends ++ new ∧
      new.map (·.2) = ps.map (Cx.unsolicited cap ty body) ∧
      ∀ d m, (d, m) ∈ new → d.bestLink m.peer = s.core.bestLink m.peer ∧
        d.nextMsgId = s.core.nextMsgId + UInt32.ofNat (s.core.idsBefore cap ps m.peer) := by
  induction ps generalizing s with
  | nil => exact ⟨[], (List.append_nil _).symm, rfl, fun d m h => absurd h List.not_mem_nil⟩
  | cons r ps ih =>
    obtain ⟨hr, hps⟩ := List.nodup_cons.mp nodup
    obtain ⟨new, hsends, hmap, heach⟩ := ih hps (s.dispatchSend (Cx.unsolicited cap ty body r))
    obtain ⟨hbest, hid⟩ := s.dispatchSend_besides (Cx.unsolicited cap ty body r)
    have hone : (s.dispatchSend (Cx.unsolicited cap ty body r)).sends =
        s.sends ++ [(s.core, Cx.unsolicited cap ty body r)] :=
      congrArg Errands.sends (s.dispatchSend_errands _)
    refine ⟨(s.core, Cx.unsolicited cap ty body r) :: new, ?_, ?_, ?_⟩
    · rw [List.map_cons, List.foldl_cons, hsends, hone, List.append_assoc]
      rfl
    · rw [List.map_cons, List.map_cons, hmap]
    · intro d m hm
      rcases List.mem_cons.mp hm with heq | hm
      · obtain ⟨rfl, rfl⟩ := Prod.ext_iff.mp heq
        have hzero : s.core.idsBefore cap (r :: ps) r = 0 := by
          unfold Core.idsBefore
          rw [List.takeWhile_cons, if_neg (by simp)]
          rfl
        refine ⟨rfl, ?_⟩
        change _ = _ + UInt32.ofNat (s.core.idsBefore cap (r :: ps) r)
        rw [hzero]
        exact (UInt32.add_zero _).symm
      · have hmem : m ∈ ps.map (Cx.unsolicited cap ty body) := hmap ▸ List.mem_map_of_mem hm
        obtain ⟨q, hq, rfl⟩ := List.mem_map.mp hmem
        have hne : q ≠ r := by
          rintro rfl
          exact hr hq
        obtain ⟨hlink, hnext⟩ := heach d _ hm
        refine ⟨hlink.trans (hbest q hne), ?_⟩
        have hcount := Core.idsBefore_cons cap hr hne hbest
        change _ = _ + UInt32.ofNat (s.core.idsBefore cap (r :: ps) q)
        rw [hnext, hid, hcount, UInt32.ofNat_add, ← UInt32.add_assoc]
        congr 2
        change (if s.core.maySend r cap = true then 1 else 0) = _
        split
        · rfl
        · rfl

theorem drainCx_sends (s : Exec X P) {cx : Cx} (ui : cx.ui = []) (effects : cx.effects = [])
    (bulk : cx.bulk = []) : (s.drainCx cx).sends = (cx.sends.foldl dispatchSend s).sends := by
  unfold drainCx
  rw [ui, effects, bulk]
  dsimp only [List.foldl_nil]
  split
  · rfl
  · rfl

end Exec

def Builtin.clipboardOf : Builtin X → Option (ClipboardPlugin X)
  | .clipboard p => some p
  | _ => none

def Builtin.clipboardPeers : Builtin X → Option (List DeviceId)
  | .clipboard p => some p.connected
  | _ => none

open Clipboard

namespace ClipboardPlugin
variable (p : ClipboardPlugin X) (cx : Cx) (peer : DeviceId)

theorem takeEcho_connected (h : Bytes) : (p.takeEcho h).1.connected = p.connected := by
  unfold takeEcho
  split
  · rfl
  · rfl

theorem offer_connected (body : Bytes) (deliberate : Bool) :
    (p.offer cx body deliberate).1.connected = p.connected := by
  have hecho := p.takeEcho_connected (hash X body)
  unfold offer
  split
  · rfl
  · split
    · rfl
    · split
      · rename_i q heq
        rw [heq] at hecho
        exact hecho
      · rename_i q heq
        rw [heq] at hecho
        exact hecho

theorem onMessage_connected (env : Envelope) :
    (p.onMessage cx peer env).1.connected = p.connected := by
  unfold onMessage
  split
  · split
    · unfold onAnswer
      split
      · rfl
      · split
        · rfl
        · split
          · rfl
          · rfl
    · unfold onSet
      split
      · rfl
      · split
        · rfl
        · split
          · rfl
          · split
            · rfl
            · split
              · rfl
              · rfl
  · rfl
  · rfl

theorem onEffectResult_connected (token : EffectToken) (result : EffectResult) :
    (p.onEffectResult cx token result).1.connected = p.connected := by
  unfold onEffectResult
  split
  · rfl
  · rfl
  · cases result with
    | ok data => rfl
    | failed detail => rfl
    | unsupported => rfl

theorem onLocal_connected (ty : String) (body : Bytes) :
    (p.onLocal cx peer ty body).1.connected = p.connected := by
  unfold onLocal
  split
  · exact p.offer_connected cx body false
  · exact p.offer_connected cx body true
  · rfl
  · rfl

/-- The value is offered: pushed by a person, or noticed by a host that forwards, and no echo. -/
def Offers (ty : String) (value : Bytes) : Prop :=
  ty = "push" ∨ ty = "changed" ∧ p.directions.send ∧ (p.takeEcho (hash X value)).2 = false

theorem onLocal_offers {p : ClipboardPlugin X} {ty : String} {value : Bytes} (h : p.Offers ty value) :
    p.onLocal cx peer ty value =
      if maxInline < value.length then (p, cx, .error .tooLarge)
      else match p.takeEcho (hash X value) with
        | (p, true) => (p, cx, .ok ())
        | (p, false) => ({ p with lastLocal := some (hash X value) },
            cx.tell p.connected none cap "set" (X.encode (carrying X value)), .ok ()) := by
  rcases h with rfl | ⟨rfl, hsend, -⟩
  · rfl
  · have hdir : (!false && !p.directions.send) = false := by rw [hsend]; rfl
    change p.offer cx value false = _
    unfold offer
    rw [hdir]
    rfl

end ClipboardPlugin

theorem Builtin.clipboard_tracks : Plugin.Tracks (P := Builtin X) Builtin.clipboardPeers where
  quiet := {
    message := fun p cx peer env => by
      cases p with
      | clipboard p => exact congrArg some (p.onMessage_connected cx peer env)
      | command | media | ping | session | share | touchpad | wol => rfl
    command := fun p cx peer ty body => by
      cases p with
      | clipboard p => exact congrArg some (p.onLocal_connected cx peer ty body)
      | command | media | ping | session | share | touchpad | wol => rfl
    effect := fun p cx token result => by
      cases p with
      | clipboard p => exact congrArg some (p.onEffectResult_connected cx token result)
      | command | media | ping | session | share | touchpad | wol => rfl
    listening := fun p cx t endpoint => by
      cases p <;> rfl
    finished := fun p cx t ok detail => by
      cases p <;> rfl
    tick := fun p cx => by
      cases p <;> rfl }
  connected p cx q := by
    cases p <;> rfl
  disconnected p cx q := by
    cases p <;> rfl

def ClipboardPlugin.setTo (X : Crates) (q : DeviceId) (value : Bytes) (re : Option UInt32) :
    PendingSend where
  peer := q
  cap := cap
  ty := "set"
  body := X.encode (carrying X value)
  re := re

/-- A `set` of this value, sent under this id, leaves room for the tag in a Noise message. -/
def Crates.Sealable (X : Crates) (value : Bytes) (re : Option UInt32) (id : UInt32) : Prop :=
  (X.encode ((ClipboardPlugin.setTo X ⟨""⟩ value re).envelope id)).length + tagLen ≤ maxNoiseMessage

namespace Core

/-- The session a message to this peer takes, if it negotiated the clipboard and its link takes
1 MiB. -/
def Carrier (c : Core X P) (q : DeviceId) (u : UpLink X) : Prop :=
  (∃ l, c.bestLink q = some (l, u)) ∧ cap ∈ u.canSend ∧ u.maxMessage = 1024 * 1024

def SendsSet [Plugin P] (c : Core X P) (i : Input X) (q : DeviceId) (value : Bytes)
    (re : Option UInt32) : Prop :=
  ∃ m, c.Emits i m ∧ m.peer = q ∧ m.cap = cap ∧ m.ty = "set" ∧ m.re = re ∧
    X.decode ClipboardSet m.body = some (carrying X value)

/-- The clipboard contract, at one event: a value within the limit arrives in a `set` wherever a
session can carry it, and a larger one is refused to whoever asked. -/
structure KeepsLimit (c : Core X (Builtin X)) (i : Input X) : Prop where
  offered : ∀ idx p peer ty value,
    c.plugins.findIdx? (fun p => handles (Plugin.manifest p) cap) = some idx →
    c.plugins[idx]? = some (.clipboard p) →
    i.event = .localCommand (.plugin peer cap ty value) → p.Offers ty value →
    (value.length ≤ maxInline → ∀ q u, c.Carrier q u → c.SendsSet i q value none) ∧
    (maxInline < value.length → (∀ m ∈ c.handed i, m.ty ≠ "set") ∧
      ∃ detail, .ui (.error (some peer) .tooLarge detail) ∈ (c.handle i).2.actions)
  answered : ∀ idx p token value peer re,
    c.effectOwner[token]? = some idx → c.plugins[idx]? = some (.clipboard p) →
    p.pending[token]? = some (some (peer, re)) → i.event = .effectDone token (.ok value) →
    (value.length ≤ maxInline → ∀ u, c.Carrier peer u → c.SendsSet i peer value (some re)) ∧
    (maxInline < value.length → (∀ m ∈ c.handed i, m.ty ≠ "set") ∧
      ∃ m ∈ c.handed i, m.peer = peer ∧ m.ty = "err" ∧ m.re = some re ∧
        reportedCode X m.body = "too_large")

/-- What the contract takes: an offered value is no echo and fits in a Noise message, as its
session still seals; an answer, besides, is within the plugin's own limit. -/
structure WithinLimits (c : Core X (Builtin X)) (i : Input X) (spent : X.TransportState → Prop) :
    Prop where
  offered : ∀ idx p peer ty value,
    c.plugins.findIdx? (fun p => handles (Plugin.manifest p) cap) = some idx →
    c.plugins[idx]? = some (.clipboard p) →
    i.event = .localCommand (.plugin peer cap ty value) → p.Offers ty value →
    value.length ≤ maxInline → ∀ q u, c.Carrier q u → (p.takeEcho (hash X value)).2 = false ∧
      X.Sealable value none
        (c.nextMsgId + UInt32.ofNat (c.idsBefore cap p.connected q) + 1) ∧ ¬ spent u.session.state
  answered : ∀ idx p token value peer re,
    c.effectOwner[token]? = some idx → c.plugins[idx]? = some (.clipboard p) →
    p.pending[token]? = some (some (peer, re)) → i.event = .effectDone token (.ok value) →
    value.length ≤ maxInline ∧ ∀ u, c.Carrier peer u →
      X.Sealable value (some re) (c.nextMsgId + 1) ∧ ¬ spent u.session.state

section Contract
variable {c : Core X (Builtin X)} {i : Input X} {idx : ℕ} {p : ClipboardPlugin X} {value : Bytes}
  {q : DeviceId} {u : UpLink X} {spent : X.TransportState → Prop}

/-- A `set` handed over where the peer's links are as they were goes out if it is sealed. -/
theorem Carrier.goesOut (hlen : X.SealLaw) (hseals : X.Seals spent) (h : c.Carrier q u)
    {d : Core X (Builtin X)} (hbest : d.bestLink q = c.bestLink q) (re : Option UInt32) :
    d.GoesOut (ClipboardPlugin.setTo X q value re) ↔
      X.Sealable value re (d.nextMsgId + 1) ∧ ¬ spent u.session.state := by
  obtain ⟨⟨l, hl⟩, hcap, hmax⟩ := h
  have hroom : maxNoiseMessage < u.maxMessage := by
    rw [hmax]
    decide
  exact goesOut_iff_sealed (m := ClipboardPlugin.setTo X q value re) hlen hseals (hbest.trans hl)
    hcap hroom

theorem exec_request {peer : DeviceId} {cap ty : String} {body : Bytes} {b : Builtin X}
    (hidx : c.plugins.findIdx? (fun p => handles (Plugin.manifest p) cap) = some idx)
    (hp : c.plugins[idx]? = some b)
    (he : i.event = .localCommand (.plugin peer cap ty body)) :
    let cx := ((c.start i).cx i.now.monotonicMs).forPeerLink ((c.start i).core.bulkSupportFor peer)
    let r := Plugin.onLocal b cx peer ty body
    c.exec i = match r.2.2 with
      | .ok () => ((c.start i).handOver idx r.1 r.2.1).drainCx r.2.1
      | .error e => (((c.start i).handOver idx r.1 r.2.1).drainCx r.2.1).ui
          (.error (some peer) e.code e.toString) := by
  intro cx r
  have hfind : (c.start i).core.plugins.findIdx? (fun p => handles (Plugin.manifest p) cap) =
      some idx := hidx
  have hcall : (c.start i).callPlugin idx cx (fun p cx => Plugin.onLocal p cx peer ty body) =
      (((c.start i).handOver idx r.1 r.2.1).drainCx r.2.1, some r.2.2) := by
    have hp' : (c.start i).core.plugins[idx]? = some b := hp
    unfold Exec.callPlugin
    rw [hp']
    rfl
  change (c.start i).onEvent i.now.monotonicMs i.seed i.event = _
  rw [he]
  change (c.start i).onLocalPlugin i.now.monotonicMs peer cap ty body = _
  unfold Exec.onLocalPlugin
  rw [hfind]
  dsimp only
  rw [hcall]
  cases r.2.2 with
  | ok a => rfl
  | error e => rfl

/-- An offered value is refused if it is too large, swallowed if it is an echo, and handed over
to each connected peer otherwise. -/
theorem exec_offers {peer : DeviceId} {ty : String}
    (hidx : c.plugins.findIdx? (fun p => handles (Plugin.manifest p) cap) = some idx)
    (hp : c.plugins[idx]? = some (.clipboard p))
    (he : i.event = .localCommand (.plugin peer cap ty value)) (ho : p.Offers ty value)
    (nodup : p.connected.Nodup) :
    (maxInline < value.length → c.handed i = [] ∧
      .ui (.error (some peer) .tooLarge PluginError.tooLarge.toString) ∈ (c.handle i).2.actions) ∧
    (value.length ≤ maxInline → (p.takeEcho (hash X value)).2 = true → (c.exec i).sends = []) ∧
    (value.length ≤ maxInline → (p.takeEcho (hash X value)).2 = false →
      (c.exec i).sends.map (·.2) =
        p.connected.map (fun q => ClipboardPlugin.setTo X q value none) ∧
      ∀ d m, (d, m) ∈ (c.exec i).sends → d.bestLink m.peer = c.bestLink m.peer ∧
        d.nextMsgId = c.nextMsgId + UInt32.ofNat (c.idsBefore cap p.connected m.peer)) := by
  have hexec := exec_request hidx hp he
  dsimp only at hexec
  generalize hcx : ((c.start i).cx i.now.monotonicMs).forPeerLink
    ((c.start i).core.bulkSupportFor peer) = cx at hexec
  have hsends : cx.sends = [] := by rw [← hcx]; rfl
  have hui : cx.ui = [] := by rw [← hcx]; rfl
  have heffects : cx.effects = [] := by rw [← hcx]; rfl
  have hbulk : cx.bulk = [] := by rw [← hcx]; rfl
  have hhook : Plugin.onLocal (Builtin.clipboard p) cx peer ty value =
      Builtin.boxed .clipboard (p.onLocal cx peer ty value) := rfl
  rw [hhook, ClipboardPlugin.onLocal_offers cx peer ho] at hexec
  have quiet : ∀ s : Exec X (Builtin X), (s.drainCx cx).sends = s.sends := by
    intro s
    rw [s.drainCx_sends hui heffects hbulk, hsends]
    rfl
  refine ⟨fun hbig => ?_, fun hsmall hecho => ?_, fun hsmall hecho => ?_⟩
  · rw [if_pos hbig] at hexec
    have hactions : (c.handle i).2.actions = (c.exec i).actions := rfl
    unfold handed
    rw [hactions, hexec]
    constructor
    · exact congrArg (List.map (·.2)) (quiet _)
    · exact List.mem_append_right _ (List.mem_singleton_self _)
  · rw [if_neg (Nat.not_lt.mpr hsmall)] at hexec
    cases htake : p.takeEcho (hash X value) with
    | mk p' echo =>
      rw [htake] at hecho hexec
      obtain rfl : echo = true := hecho
      rw [hexec]
      exact quiet _
  · rw [if_neg (Nat.not_lt.mpr hsmall)] at hexec
    cases htake : p.takeEcho (hash X value) with
    | mk p' echo =>
      have hconnected := p.takeEcho_connected (hash X value)
      rw [htake] at hecho hexec hconnected
      obtain rfl : echo = false := hecho
      have hconn : p'.connected = p.connected := hconnected
      dsimp only at hexec
      rw [hconn, Cx.tell_eq] at hexec
      have hothers : Cx.others p.connected none = p.connected := by
        unfold Cx.others
        rw [List.filter_eq_self]
        intro a _
        rfl
      rw [hothers] at hexec
      dsimp only [Builtin.boxed] at hexec
      generalize hover : (c.start i).handOver idx _ _ = s at hexec
      have hcore : (∀ q, s.core.bestLink q = c.bestLink q) ∧ s.core.nextMsgId = c.nextMsgId ∧
          s.sends = [] := by
        rw [← hover]
        exact ⟨fun _ => rfl, rfl, rfl⟩
      obtain ⟨hbest, hid, hnone⟩ := hcore
      have hbefore : ∀ q, s.core.idsBefore cap p.connected q = c.idsBefore cap p.connected q := by
        intro q
        unfold idsBefore maySend
        simp only [hbest]
      have hdrain : (c.exec i).sends = ((p.connected.map
          (Cx.unsolicited cap "set" (X.encode (carrying X value)))).foldl Exec.dispatchSend s).sends := by
        rw [hexec, Exec.drainCx_sends]
        case ui => exact hui
        case effects => exact heffects
        case bulk => exact hbulk
        rw [hsends]
        rfl
      obtain ⟨new, hnew, hmap, heach⟩ := Exec.dispatchEach nodup s
      rw [hnew, hnone, List.nil_append] at hdrain
      rw [hdrain]
      refine ⟨hmap, fun d m hm => ?_⟩
      obtain ⟨hlink, hnext⟩ := heach d m hm
      rw [hnext, hid, hbefore, hlink]
      exact ⟨hbest _, rfl⟩

/-- The answer to a peer's request is handed over whatever its size. -/
theorem exec_answers {token : EffectToken} {peer : DeviceId} {re : UInt32}
    (howner : c.effectOwner[token]? = some idx) (hp : c.plugins[idx]? = some (.clipboard p))
    (hw : p.pending[token]? = some (some (peer, re))) (he : i.event = .effectDone token (.ok value)) :
    ∃ d, (c.exec i).sends = [(d, ClipboardPlugin.setTo X peer value (some re))] ∧
      (∀ q, d.bestLink q = c.bestLink q) ∧ d.nextMsgId = c.nextMsgId := by
  have hexec := exec_owned howner he
  rw [Exec.callPlugin_eq _ _ (fun p cx => Plugin.call p cx (.effectResult token (.ok value))) hp]
    at hexec
  have hhook : ∀ cx, Plugin.call (Builtin.clipboard p) cx (.effectResult token (.ok value)) =
      (.clipboard { p with pending := p.pending.erase token, lastLocal := some (hash X value) },
        cx.sendReply peer cap "set" (X.encode (carrying X value)) re, .ok ()) := by
    intro cx
    change ((Builtin.clipboard (p.onEffectResult cx token (.ok value)).1,
      (p.onEffectResult cx token (.ok value)).2, Except.ok ()) :
        Builtin X × Cx × Except PluginError Unit) = _
    unfold ClipboardPlugin.onEffectResult
    rw [hw]
    rfl
  rw [hhook] at hexec
  generalize hover : Exec.handOver _ idx _ _ = s at hexec
  have hcore : (∀ q, s.core.bestLink q = c.bestLink q) ∧ s.core.nextMsgId = c.nextMsgId ∧
      s.sends = [] := by
    rw [← hover]
    exact ⟨fun _ => rfl, rfl, rfl⟩
  obtain ⟨hbest, hid, hnone⟩ := hcore
  have hsends : (c.exec i).sends =
      (s.dispatchSend (ClipboardPlugin.setTo X peer value (some re))).sends := by
    rw [hexec, s.drainCx_sends rfl rfl rfl]
    rfl
  have hone : (s.dispatchSend (ClipboardPlugin.setTo X peer value (some re))).sends =
      s.sends ++ [(s.core, ClipboardPlugin.setTo X peer value (some re))] :=
    congrArg Errands.sends (s.dispatchSend_errands _)
  rw [hone, hnone] at hsends
  exact ⟨s.core, hsends, hbest, hid⟩

/-- A `set` is on its way exactly if it was handed over and goes out. -/
theorem sendsSet_iff {re : Option UInt32} {q : DeviceId}
    (h : ∀ d m, (d, m) ∈ (c.exec i).sends → m = ClipboardPlugin.setTo X m.peer value re) :
    c.SendsSet i q value re ↔ ∃ d, (d, ClipboardPlugin.setTo X q value re) ∈ (c.exec i).sends ∧
      d.GoesOut (ClipboardPlugin.setTo X q value re) := by
  constructor
  · rintro ⟨m, ⟨d, hmem, hgo⟩, rfl, -⟩
    have hm := h d m hmem
    exact ⟨d, hm ▸ hmem, hm ▸ hgo⟩
  · rintro ⟨d, hmem, hgo⟩
    exact ⟨_, ⟨d, hmem, hgo⟩, rfl, rfl, rfl, rfl, X.decode_encode _⟩

theorem offered_iff (hlen : X.SealLaw) (hseals : X.Seals spent)
    (knows : c.Knows Builtin.clipboardPeers) {peer : DeviceId} {ty : String}
    (hidx : c.plugins.findIdx? (fun p => handles (Plugin.manifest p) cap) = some idx)
    (hp : c.plugins[idx]? = some (.clipboard p))
    (he : i.event = .localCommand (.plugin peer cap ty value)) (ho : p.Offers ty value)
    (hsmall : value.length ≤ maxInline) (hcarrier : c.Carrier q u) :
    c.SendsSet i q value none ↔ (p.takeEcho (hash X value)).2 = false ∧ X.Sealable value none
      (c.nextMsgId + UInt32.ofNat (c.idsBefore cap p.connected q) + 1) ∧
        ¬ spent u.session.state := by
  have hknown : some p.connected ∈ c.plugins.map Builtin.clipboardPeers :=
    List.mem_map.mpr ⟨_, List.mem_of_getElem? hp, rfl⟩
  obtain ⟨hnodup, hall⟩ := knows _ hknown
  obtain ⟨-, hecho, hplain⟩ := exec_offers hidx hp he ho hnodup
  cases htake : (p.takeEcho (hash X value)).2 with
  | true =>
    have hnone := hecho hsmall htake
    constructor
    · rintro ⟨m, ⟨d, hmem, -⟩, -⟩
      rw [hnone] at hmem
      cases hmem
    · rintro ⟨hfalse, -⟩
      cases hfalse
  | false =>
    obtain ⟨hmap, heach⟩ := hplain hsmall htake
    have hform : ∀ d m, (d, m) ∈ (c.exec i).sends →
        m = ClipboardPlugin.setTo X m.peer value none := by
      intro d m hm
      have hmem : m ∈ (c.exec i).sends.map (·.2) := List.mem_map.mpr ⟨_, hm, rfl⟩
      rw [hmap] at hmem
      obtain ⟨r, -, rfl⟩ := List.mem_map.mp hmem
      rfl
    rw [sendsSet_iff hform]
    have hreach : c.Reaches q := by
      obtain ⟨⟨l, hl⟩, -⟩ := hcarrier
      obtain ⟨hup, hpeer⟩ := bestLink_up hl
      exact ⟨l, u, hup, hpeer⟩
    have hhanded : ∃ d, (d, ClipboardPlugin.setTo X q value none) ∈ (c.exec i).sends := by
      have hmem : ClipboardPlugin.setTo X q value none ∈ (c.exec i).sends.map (·.2) := by
        rw [hmap]
        exact List.mem_map.mpr ⟨q, hall q hreach, rfl⟩
      obtain ⟨⟨d, m⟩, hdm, rfl⟩ := List.mem_map.mp hmem
      exact ⟨d, hdm⟩
    have hgoes : ∀ d, (d, ClipboardPlugin.setTo X q value none) ∈ (c.exec i).sends →
        (d.GoesOut (ClipboardPlugin.setTo X q value none) ↔ X.Sealable value none
          (c.nextMsgId + UInt32.ofNat (c.idsBefore cap p.connected q) + 1) ∧
            ¬ spent u.session.state) := by
      intro d hd
      obtain ⟨hbest, hid⟩ := heach d _ hd
      rw [hcarrier.goesOut hlen hseals hbest none, hid]
      rfl
    constructor
    · rintro ⟨d, hd, hgo⟩
      exact ⟨rfl, (hgoes d hd).mp hgo⟩
    · rintro ⟨-, hfits⟩
      obtain ⟨d, hd⟩ := hhanded
      exact ⟨d, hd, (hgoes d hd).mpr hfits⟩

end Contract

theorem clipboard_knows (b : CoreBuilder X (Builtin X)) (new : ∀ p ∈ b.plugins, p.IsNew)
    (before : List (Input X)) : (b.build.run before).Knows Builtin.clipboardPeers := by
  refine run_knows Builtin.clipboard_tracks b (fun p hp ps hps => ?_) before
  cases new p hp with
  | clipboard directions => exact (Option.some.inj hps).symm
  | command | media | session | wol | ping | share | touchpad => cases hps

end Core

open Acrylius.Core in
/-- On a device with any of the built-in plugins, the clipboard contract is kept at an event exactly if
all limits on the way take the value, and no pushed value is taken for an echo. -/
theorem keepsLimit_iff {spent : X.TransportState → Prop} (hlen : X.SealLaw)
    (hseals : X.Seals spent) (b : CoreBuilder X (Builtin X)) (new : ∀ p ∈ b.plugins, p.IsNew)
    (before : List (Core.Input X)) (i : Core.Input X) :
    (b.build.run before).KeepsLimit i ↔ (b.build.run before).WithinLimits i spent := by
  have knows := Core.clipboard_knows b new before
  generalize b.build.run before = c at knows
  constructor
  · intro h
    constructor
    · intro idx p peer ty value hidx hp he ho hsmall q u hcarrier
      exact (offered_iff hlen hseals knows hidx hp he ho hsmall hcarrier).mp
        ((h.offered idx p peer ty value hidx hp he ho).1 hsmall q u hcarrier)
    · intro idx p token value peer re howner hp hw he
      obtain ⟨d, hsends, hbest, hid⟩ := exec_answers howner hp hw he
      obtain ⟨hset, hlarge⟩ := h.answered idx p token value peer re howner hp hw he
      have hsmall : value.length ≤ maxInline := by
        by_contra hbig
        have hmem : ClipboardPlugin.setTo X peer value (some re) ∈ c.handed i := by
          unfold handed
          rw [hsends]
          exact List.mem_singleton_self _
        exact (hlarge (Nat.lt_of_not_le hbig)).1 _ hmem rfl
      refine ⟨hsmall, fun u hcarrier => ?_⟩
      obtain ⟨m, ⟨d', hmem, hgo⟩, -⟩ := hset hsmall u hcarrier
      rw [hsends] at hmem
      obtain ⟨hd, hm⟩ := Prod.mk.inj (List.mem_singleton.mp hmem)
      rw [hd, hm] at hgo
      have hfits := (hcarrier.goesOut hlen hseals (hbest peer) (some re)).mp hgo
      rw [← hid]
      exact hfits
  · intro h
    constructor
    · intro idx p peer ty value hidx hp he ho
      refine ⟨fun hsmall q u hcarrier => ?_, fun hbig => ?_⟩
      · exact (offered_iff hlen hseals knows hidx hp he ho hsmall hcarrier).mpr
          (h.offered idx p peer ty value hidx hp he ho hsmall q u hcarrier)
      · have hknown : some p.connected ∈ c.plugins.map Builtin.clipboardPeers :=
          List.mem_map.mpr ⟨_, List.mem_of_getElem? hp, rfl⟩
        obtain ⟨hnone, herror⟩ := (exec_offers hidx hp he ho (knows _ hknown).1).1 hbig
        rw [hnone]
        exact ⟨fun m hm => absurd hm List.not_mem_nil, _, herror⟩
    · intro idx p token value peer re howner hp hw he
      obtain ⟨d, hsends, hbest, hid⟩ := exec_answers howner hp hw he
      obtain ⟨hsmall, hfits⟩ := h.answered idx p token value peer re howner hp hw he
      refine ⟨fun _ u hcarrier => ?_, fun hbig => absurd hsmall (Nat.not_le_of_lt hbig)⟩
      have hgo := (hcarrier.goesOut hlen hseals (hbest peer) (some re)).mpr
        (by rw [hid]; exact hfits u hcarrier)
      have hmem : (d, ClipboardPlugin.setTo X peer value (some re)) ∈ (c.exec i).sends := by
        rw [hsends]
        exact List.mem_singleton_self _
      exact ⟨_, ⟨d, hmem, hgo⟩, rfl, rfl, rfl, rfl, X.decode_encode _⟩

namespace Mock

def clippingLaptop : CoreBuilder crates (Builtin crates) :=
  { laptop [Builtin.clipboard (ClipboardPlugin.default crates)] with effects := [.clipboard] }

theorem clippingLaptop_new : ∀ p ∈ clippingLaptop.plugins, p.IsNew := by
  intro p hp
  obtain rfl := List.mem_singleton.mp hp
  exact .clipboard ⟨true, true⟩

def phoneClips : List (Core.Input crates) := phoneSharing Clipboard.cap

def pushed (value : Bytes) : Core.Input crates :=
  at_ 2 0 (.localCommand (.plugin phone Clipboard.cap "push" value))

def phoneGets : Core.Input crates :=
  at_ 2 0 (phoneSeals (clippingLaptop.build.run phoneClips)
    ⟨wireVersion, 7, none, Clipboard.cap, "get", [], 0, none⟩)

def largeValue : Core.Input crates :=
  at_ 3 0 (.effectDone 1 (.ok (List.replicate (Clipboard.maxInline + 1) 0)))

theorem seals : crates.Seals fun _ => False := by
  intro t p
  dsimp only [crates, TransportState.write]
  split_ifs with hlong
  · constructor
    · rintro ⟨ct, t', h⟩
      cases h
    · rintro ⟨hfits, -⟩
      exact absurd hfits (Nat.not_le_of_lt hlong)
  · exact iff_of_true ⟨_, _, rfl⟩ ⟨Nat.le_of_not_lt hlong, not_false⟩

end Mock

open Acrylius.Core in
/-- A short value pushed to the phone is within all limits. -/
theorem pushed_value_kept :
    (Mock.clippingLaptop.build.run Mock.phoneClips).handed (Mock.pushed [104, 105]) ≠ [] ∧
    (Mock.clippingLaptop.build.run Mock.phoneClips).KeepsLimit (Mock.pushed [104, 105]) := by
  have hhanded : ((Mock.clippingLaptop.build.run Mock.phoneClips).handed
      (Mock.pushed [104, 105])).length ≠ 0 := by decide +kernel
  have hplugins : ∀ b ∈ (Mock.clippingLaptop.build.run Mock.phoneClips).plugins,
      ∀ p ∈ b.clipboardOf, p.connected = [Mock.phone] ∧
        (p.takeEcho (hash Mock.crates [104, 105])).2 = false := by decide +kernel
  have hsealable : Mock.crates.Sealable [104, 105] none
      ((Mock.clippingLaptop.build.run Mock.phoneClips).nextMsgId + 1) := by
    unfold Crates.Sealable
    decide +kernel
  have hknows := clipboard_knows Mock.clippingLaptop Mock.clippingLaptop_new Mock.phoneClips
  refine ⟨fun h => hhanded (by rw [h]; rfl), (keepsLimit_iff Mock.sealLaw Mock.seals
    Mock.clippingLaptop Mock.clippingLaptop_new Mock.phoneClips (Mock.pushed [104, 105])).mpr ?_⟩
  generalize Mock.clippingLaptop.build.run Mock.phoneClips = c at hplugins hsealable hknows
  constructor
  · intro idx p peer ty value hidx hp he ho hsmall q u hcarrier
    obtain ⟨hconnected, hecho⟩ := hplugins _ (List.mem_of_getElem? hp) p rfl
    obtain rfl : value = [104, 105] := by
      injection he with hcommand
      injection hcommand with _ _ _ hvalue
      exact hvalue.symm
    obtain ⟨⟨l, hl⟩, -⟩ := hcarrier
    obtain ⟨hup, hpeer⟩ := bestLink_up hl
    have hq : q ∈ p.connected :=
      (hknows p.connected (List.mem_map.mpr ⟨_, List.mem_of_getElem? hp, rfl⟩)).2 q ⟨l, u, hup, hpeer⟩
    rw [hconnected] at hq
    have hfirst : c.idsBefore cap p.connected q = 0 := by
      rw [hconnected, List.mem_singleton.mp hq]
      unfold idsBefore
      rw [List.takeWhile_cons, if_neg (by simp)]
      rfl
    refine ⟨hecho, ?_, not_false⟩
    have hid : c.nextMsgId + UInt32.ofNat 0 = c.nextMsgId := UInt32.add_zero _
    rw [hfirst, hid]
    exact hsealable
  · intro idx p token value peer re howner hp hw he
    cases he

open Acrylius.Core in
/-- A peer asks for the clipboard, whose value is one byte above the limit: it is sent a `set`. -/
theorem large_value_attempted : ¬ ∀ (b : CoreBuilder Mock.crates (Builtin Mock.crates)),
    (∀ p ∈ b.plugins, p.IsNew) → ∀ (before : List (Core.Input Mock.crates))
      (i : Core.Input Mock.crates), (b.build.run before).KeepsLimit i := by
  intro hall
  have hkeeps := hall Mock.clippingLaptop Mock.clippingLaptop_new
    (Mock.phoneClips ++ [Mock.phoneGets]) Mock.largeValue
  have hasked : ∀ b ∈ (Mock.clippingLaptop.build.run
      (Mock.phoneClips ++ [Mock.phoneGets])).plugins[0]?,
      ∀ p ∈ b.clipboardOf, p.pending[(1 : EffectToken)]? = some (some (Mock.phone, 7)) := by
    decide +kernel
  have hclips : ((Mock.clippingLaptop.build.run
      (Mock.phoneClips ++ [Mock.phoneGets])).plugins[0]?.bind Builtin.clipboardOf).isSome := by
    decide +kernel
  have howner : (Mock.clippingLaptop.build.run
      (Mock.phoneClips ++ [Mock.phoneGets])).effectOwner[(1 : EffectToken)]? = some 0 := by
    decide +kernel
  generalize Mock.clippingLaptop.build.run (Mock.phoneClips ++ [Mock.phoneGets]) = c at *
  obtain ⟨p, hp⟩ : ∃ p, c.plugins[0]? = some (Builtin.clipboard p) := by
    obtain ⟨p, hp⟩ := Option.isSome_iff_exists.mp hclips
    obtain ⟨b, hb, hof⟩ := Option.bind_eq_some_iff.mp hp
    cases b with
    | clipboard p => exact ⟨p, hb⟩
    | command | media | ping | session | share | touchpad | wol => cases hof
  have hw := hasked _ hp p rfl
  obtain ⟨-, hlarge⟩ := hkeeps.answered 0 p 1 _ Mock.phone 7 howner hp hw rfl
  obtain ⟨d, hsends, -⟩ := exec_answers (i := Mock.largeValue) howner hp hw rfl
  have hlong : Clipboard.maxInline < (List.replicate (Clipboard.maxInline + 1) (0 : UInt8)).length := by
    rw [List.length_replicate]
    exact Nat.lt_succ_self _
  have hmem : ClipboardPlugin.setTo Mock.crates Mock.phone
      (List.replicate (Clipboard.maxInline + 1) 0) (some 7) ∈ c.handed Mock.largeValue := by
    unfold handed
    rw [hsends]
    exact List.mem_singleton_self _
  exact (hlarge hlong).1 _ hmem rfl

end Acrylius
