import Acrylius.Core.Calls
import Acrylius.Mock
import Acrylius.Plugins.Wol

/-! Magic packets (`acrylius-linux`, `wol.rs`), and the relay in front of them: what the plugin lets
through is read by the host to an allowlisted machine, and by its network card likewise. -/
namespace Acrylius
open Proto Std

namespace Wol

abbrev Mac := { b : Bytes // b.length = 6 }

inductive MacError where
  | notAMac (mac : String)
deriving DecidableEq

/-- `c.to_digit(16).unwrap_or(0)`. -/
def hexDigit (c : Char) : UInt8 :=
  if c.isDigit then UInt8.ofNat (c.toNat - 48)
  else if 'a' ≤ c && c ≤ 'f' then UInt8.ofNat (c.toNat - 87)
  else if 'A' ≤ c && c ≤ 'F' then UInt8.ofNat (c.toNat - 55)
  else 0

/-- Two digits to the byte; an odd one at the end is left out. -/
def pairUp : Bytes → Bytes
  | a :: b :: rest => (a <<< 4 ||| b) :: pairUp rest
  | _ => []

theorem length_pairUp (hex : Bytes) : (pairUp hex).length = hex.length / 2 := by
  induction hex using pairUp.induct with
  | case1 a b rest ih =>
    simp only [pairUp, List.length_cons, ih]
    omega
  | case2 hex h =>
    match hex, h with
    | [], _ => rfl
    | [a], _ => simp [pairUp]
    | a :: b :: rest, h => exact absurd rfl (h a b rest)

def digits (mac : String) : List Char := mac.toList.filter isHexDigit

def parseMac (mac : String) : Except MacError Mac :=
  let hex := (digits mac).map hexDigit
  if h : hex.length = 12 then
    .ok ⟨pairUp hex, by
      rw [length_pairUp, h]⟩
  else .error (.notAMac mac)

/-- Six bytes of `ff`, then the target sixteen times, then a password some cards want. -/
def build (mac : Mac) (secureOn : Option Mac) : Bytes :=
  List.replicate 6 0xFF ++ (List.replicate 16 mac.1).flatten ++ secureOn.elim [] (·.1)

inductive SendError where
  | mac (e : MacError)
  | socket
  | nothingSent

/-- What the host's network does: whether there is a socket to be had, where a name leads, and
whether a datagram leaves. -/
structure Network where
  Addr : Type
  bound : Bool
  resolve : String → ℕ → Option (List Addr)
  sendTo : Bytes → Addr → Bool

def sendOne (N : Network) (packets : List Bytes) (port : ℕ) (dest : String) :
    List (Bytes × N.Addr) :=
  ((N.resolve dest port).getD []).flatMap fun addr =>
    (packets.filter fun packet => N.sendTo packet addr).map (·, addr)

/-- One packet to every destination, in order, even after an earlier one succeeded. The result is
what left. -/
def send (N : Network) (macs destinations : List String) (port : ℕ) :
    Except SendError (List (Bytes × N.Addr)) := do
  let packets ← macs.mapM fun m => match parseMac m with
    | .ok mac => .ok (build mac none)
    | .error e => .error (.mac e)
  if !N.bound then throw .socket
  let sent := destinations.flatMap (sendOne N packets port)
  if sent.isEmpty then throw .nothingSent
  return sent

section Spellings

theorem isHexDigit_ascii {c : Char} (h : isHexDigit c) : c.toNat < 128 := by
  have hle : ∀ {d : Char}, c ≤ d → d.toNat < 128 → c.toNat < 128 :=
    fun hcd hd => Nat.lt_of_le_of_lt (UInt32.le_iff_toNat_le.mp hcd) hd
  simp only [isHexDigit, Bool.or_eq_true, Bool.and_eq_true, decide_eq_true_eq] at h
  rcases h with (hdigit | ⟨-, hf⟩) | ⟨-, hf⟩
  · have hnine : c ≤ '9' := by
      simp only [Char.isDigit, Bool.and_eq_true, decide_eq_true_eq] at hdigit
      exact hdigit.2
    exact hle hnine (by decide)
  · exact hle hf (by decide)
  · exact hle hf (by decide)

/-- Two digits have one value exactly if they are one letter or figure, in whatever case. -/
theorem hexDigit_eq_iff {c d : Char} (hc : isHexDigit c) (hd : isHexDigit d) :
    hexDigit c = hexDigit d ↔ c.toLower = d.toLower := by
  have all : ∀ m < 128, ∀ n < 128, isHexDigit (Char.ofNat m) → isHexDigit (Char.ofNat n) →
      (hexDigit (Char.ofNat m) = hexDigit (Char.ofNat n) ↔
        (Char.ofNat m).toLower = (Char.ofNat n).toLower) := by decide +kernel
  have hboth := all c.toNat (isHexDigit_ascii hc) d.toNat (isHexDigit_ascii hd)
  rw [Char.ofNat_toNat, Char.ofNat_toNat] at hboth
  exact hboth hc hd

theorem hexDigit_lt (c : Char) (h : isHexDigit c) : hexDigit c < 16 := by
  have all : ∀ m < 128, isHexDigit (Char.ofNat m) → hexDigit (Char.ofNat m) < 16 := by
    decide +kernel
  have hc := all c.toNat (isHexDigit_ascii h)
  rw [Char.ofNat_toNat] at hc
  exact hc h

theorem map_hexDigit_iff {cs ds : List Char} (hc : ∀ c ∈ cs, isHexDigit c)
    (hd : ∀ d ∈ ds, isHexDigit d) :
    cs.map hexDigit = ds.map hexDigit ↔ cs.map Char.toLower = ds.map Char.toLower := by
  induction cs generalizing ds with
  | nil => simp [eq_comm]
  | cons c cs ih =>
    cases ds with
    | nil => simp
    | cons d ds =>
      have hhead := hexDigit_eq_iff (hc c List.mem_cons_self) (hd d List.mem_cons_self)
      have hds : ∀ e ∈ ds, isHexDigit e := fun e he => hd e (List.mem_cons_of_mem d he)
      have htail := ih (fun e he => hc e (List.mem_cons_of_mem c he)) hds
      simp only [List.map_cons, List.cons.injEq, hhead, htail]

theorem toNat_pair {a b : UInt8} (ha : a < 16) (hb : b < 16) :
    (a <<< 4 ||| b).toNat = a.toNat * 16 + b.toNat := by
  have all : ∀ m < 16, ∀ n < 16,
      (UInt8.ofNat m <<< 4 ||| UInt8.ofNat n).toNat = m * 16 + n := by decide +kernel
  have hpair := all a.toNat (UInt8.lt_iff_toNat_lt.mp ha) b.toNat (UInt8.lt_iff_toNat_lt.mp hb)
  rwa [UInt8.ofNat_toNat, UInt8.ofNat_toNat] at hpair

theorem pairUp_inj {xs ys : Bytes} (hx : ∀ x ∈ xs, x < 16) (hy : ∀ y ∈ ys, y < 16)
    (hlength : xs.length = ys.length) (heven : xs.length % 2 = 0) (h : pairUp xs = pairUp ys) :
    xs = ys := by
  induction xs using pairUp.induct generalizing ys with
  | case1 a b xs ih =>
    match ys, hlength with
    | c :: d :: ys, hlength =>
      simp only [pairUp, List.cons.injEq] at h
      simp only [List.length_cons] at hlength heven
      have hys : ∀ y ∈ ys, y < 16 := fun y hm => hy y (by simp [hm])
      have htail := ih (fun x hm => hx x (by simp [hm])) hys (by omega) (by omega) h.2
      have hbyte := congrArg UInt8.toNat h.1
      rw [toNat_pair (hx a (by simp)) (hx b (by simp)), toNat_pair (hy c (by simp)) (hy d (by simp))]
        at hbyte
      have hb := UInt8.lt_iff_toNat_lt.mp (hx b (by simp))
      have hd := UInt8.lt_iff_toNat_lt.mp (hy d (by simp))
      have hsixteen : (16 : UInt8).toNat = 16 := rfl
      have hac : a = c := UInt8.toNat_inj.mp (by omega)
      have hbd : b = d := UInt8.toNat_inj.mp (by omega)
      rw [hac, hbd, htail]
  | case2 xs hshort =>
    match xs, hshort with
    | [], _ =>
      simp only [List.length_nil] at hlength
      exact (List.length_eq_zero_iff.mp hlength.symm).symm
    | [a], _ => simp at heven
    | a :: b :: rest, hshort => exact absurd rfl (hshort a b rest)

theorem digits_isHexDigit {s : String} {c : Char} (h : c ∈ digits s) : isHexDigit c :=
  (List.mem_filter.mp h).2

theorem parseMac_eq_ok {s : String} {m : Mac} :
    parseMac s = .ok m ↔ (digits s).length = 12 ∧ m.1 = pairUp ((digits s).map hexDigit) := by
  unfold parseMac
  dsimp only
  split_ifs with h
  · rw [List.length_map] at h
    constructor
    · intro hok
      have hm := Except.ok.inj hok
      rw [← hm]
      exact ⟨h, rfl⟩
    · rintro ⟨-, hm⟩
      exact congrArg Except.ok (Subtype.ext hm.symm)
  · rw [List.length_map] at h
    constructor
    · intro hok
      cases hok
    · rintro ⟨hlength, -⟩
      exact absurd hlength h

theorem normalizeMac_eq (s : String) :
    normalizeMac s = String.ofList ((digits s).map Char.toLower) := rfl

theorem length_normalizeMac (s : String) : (normalizeMac s).length = (digits s).length := by
  rw [normalizeMac_eq, String.length_ofList, List.length_map]

/-- The two readers agree: what one reads to a MAC, the other takes for the same string as every
other spelling of that MAC, and for no other string. -/
theorem parseMac_iff_normalizeMac {s s' : String} {m : Mac} (h : parseMac s = .ok m) :
    parseMac s' = .ok m ↔ normalizeMac s' = normalizeMac s := by
  obtain ⟨hlength, hm⟩ := parseMac_eq_ok.mp h
  have hsame : normalizeMac s' = normalizeMac s ↔
      (digits s').map hexDigit = (digits s).map hexDigit := by
    rw [normalizeMac_eq, normalizeMac_eq, String.ofList_inj,
      map_hexDigit_iff (fun _ => digits_isHexDigit) fun _ => digits_isHexDigit]
  have hsmall : ∀ t : String, ∀ x ∈ (digits t).map hexDigit, x < 16 := by
    intro t x hx
    obtain ⟨c, hc, rfl⟩ := List.mem_map.mp hx
    exact hexDigit_lt c (digits_isHexDigit hc)
  rw [hsame, parseMac_eq_ok]
  constructor
  · rintro ⟨hlength', hm'⟩
    apply pairUp_inj (hsmall s') (hsmall s)
    · rw [List.length_map, List.length_map, hlength, hlength']
    · rw [List.length_map, hlength']
    · rw [← hm, hm']
  · intro hdigits
    have hlengths := congrArg List.length hdigits
    rw [List.length_map, List.length_map] at hlengths
    rw [hdigits]
    exact ⟨by omega, hm⟩

theorem exists_parseMac {s : String} (h : (normalizeMac s).length = 12) :
    ∃ m, parseMac s = .ok m := by
  rw [length_normalizeMac] at h
  refine ⟨⟨pairUp ((digits s).map hexDigit), ?_⟩, parseMac_eq_ok.mpr ⟨h, rfl⟩⟩
  rw [length_pairUp, List.length_map, h]

end Spellings

section Packets

/-- A network card wakes on its own magic, six bytes of `ff` and its address sixteen times, wherever
in the payload that stands. -/
def Wakes (packet : Bytes) (mac : Mac) : Prop := build mac none <:+: packet

theorem length_build (mac : Mac) : (build mac none).length = 102 := by
  simp [build, mac.2]

theorem build_inj {m m' : Mac} (h : build m none = build m' none) : m = m' := by
  have hsplit : ∀ mac : Mac, build mac none =
      List.replicate 6 0xFF ++ (mac.1 ++ (List.replicate 15 mac.1).flatten) := by
    intro mac
    simp only [build, Option.elim_none, List.append_nil]
    rfl
  rw [hsplit, hsplit] at h
  have htargets := List.append_cancel_left h
  exact Subtype.ext (List.append_inj_left htargets (by rw [m.2, m'.2]))

/-- A packet without a password wakes the machine it was built for and no other. -/
theorem wakes_build {m m' : Mac} : Wakes (build m none) m' ↔ m' = m := by
  constructor
  · intro h
    have hlength : (build m' none).length = (build m none).length := by
      rw [length_build, length_build]
    exact build_inj (h.eq_of_length hlength)
  · rintro rfl
    exact List.infix_rfl

/-- Whatever leaves for one target is the packet built for it. -/
theorem mem_send {N : Network} {mac : String} {m : Mac} {destinations : List String} {port : ℕ}
    {sent : List (Bytes × N.Addr)} (hm : parseMac mac = .ok m)
    (h : send N [mac] destinations port = .ok sent) {d : Bytes × N.Addr} (hd : d ∈ sent) :
    d.1 = build m none := by
  have hpackets : send N [mac] destinations port =
      (if !N.bound then .error .socket
      else if (destinations.flatMap (sendOne N [build m none] port)).isEmpty then
        .error .nothingSent
      else .ok (destinations.flatMap (sendOne N [build m none] port))) := by
    simp only [send, List.mapM_cons, List.mapM_nil, hm]
    change (if !N.bound then Except.error SendError.socket else _) = _
    split
    · rfl
    · split <;> rfl
  rw [hpackets] at h
  split_ifs at h
  obtain rfl := Except.ok.inj h
  obtain ⟨dest, -, hone⟩ := List.mem_flatMap.mp hd
  obtain ⟨addr, -, hpacket⟩ := List.mem_flatMap.mp hone
  obtain ⟨packet, hin, rfl⟩ := List.mem_map.mp hpacket
  exact List.mem_singleton.mp (List.mem_filter.mp hin).1

end Packets
end Wol

open Wol

namespace WolPlugin
variable {X : Crates} {cx : Cx} {peer : DeviceId} {env : Envelope}

def wake (p : WolPlugin X) (mac : String) : Effect :=
  .sendMagicPacket [mac] [p.config.broadcast] p.config.port.toNat

/-- The target is on the allowlist, as the host reads both. -/
def Allows (p : WolPlugin X) (mac : String) (m : Mac) : Prop :=
  parseMac mac = .ok m ∧ ∃ entry ∈ p.allowlist, parseMac entry = .ok m

/-- What a relay comes to: an effect for an allowed target, or a refusal and no effect. -/
theorem onRelay_cases (cx : Cx) (peer : DeviceId) (env : Envelope) (p : WolPlugin X) :
    (∃ req m, X.decode RelayRequest env.body = some req ∧ p.Allows req.mac m ∧
      (p.onRelay cx peer env).2.1 = (cx.effect (p.wake req.mac)).1 ∧
      (p.onRelay cx peer env).2.2 = .ok ()) ∨
    (∀ req m, X.decode RelayRequest env.body = some req → ¬ p.Allows req.mac m) ∧
      (p.onRelay cx peer env).2.1 = cx := by
  unfold onRelay
  cases hreq : X.decode RelayRequest env.body with
  | none => exact .inr ⟨fun req m h => (by cases h), rfl⟩
  | some req =>
    dsimp only
    split_ifs with hlength hany
    · refine .inr ⟨?_, rfl⟩
      rintro req' m h ⟨hm, -⟩
      obtain rfl := Option.some.inj h
      have hdigits := (parseMac_eq_ok.mp hm).1
      exact hlength ((length_normalizeMac _).trans hdigits)
    · refine .inr ⟨?_, rfl⟩
      rintro req' m h ⟨hm, entry, hentry, hsame⟩
      obtain rfl := Option.some.inj h
      have hnorm := (parseMac_iff_normalizeMac hm).mp hsame
      have hallowed : p.allowlist.any (fun m => normalizeMac m = normalizeMac req.mac) = true :=
        List.any_eq_true.mpr ⟨entry, hentry, by simpa using hnorm⟩
      rw [hallowed] at hany
      cases hany
    · refine .inl ⟨req, ?_⟩
      have hallowed : p.allowlist.any (fun m => normalizeMac m = normalizeMac req.mac) = true := by
        simpa using hany
      obtain ⟨entry, hentry, hnorm⟩ := List.any_eq_true.mp hallowed
      obtain ⟨m, hm⟩ := exists_parseMac (not_not.mp hlength)
      have hsame := (parseMac_iff_normalizeMac hm).mpr (by simpa using hnorm)
      exact ⟨m, rfl, ⟨hm, entry, hentry, hsame⟩, rfl, rfl⟩

theorem call_effects (p : WolPlugin X) (cx : Cx) (call : Call) :
    (Plugin.call p cx call).2.1.effects = cx.effects ∨
      ∃ peer env, call = .message peer env ∧ env.ty = "relay" ∧
        (Plugin.call p cx call).2.1 = (p.onRelay cx peer env).2.1 := by
  cases call with
  | message peer env =>
    change (p.onMessage cx peer env).2.1.effects = _ ∨
      ∃ peer' env', Call.message peer env = .message peer' env' ∧ env'.ty = "relay" ∧
        (p.onMessage cx peer env).2.1 = (p.onRelay cx peer' env').2.1
    unfold onMessage
    split
    · exact .inl rfl
    · exact .inl rfl
    · exact .inl rfl
    · rename_i hty
      exact .inr ⟨peer, env, rfl, hty, rfl⟩
    · exact .inl rfl
  | connected peer =>
    left
    change (p.onPeerConnected cx peer).2.effects = cx.effects
    unfold onPeerConnected
    dsimp only
    split <;> rfl
  | request peer ty body =>
    left
    change (p.onLocal cx peer ty body).2.1.effects = cx.effects
    unfold onLocal
    split <;> rfl
  | effectResult token result =>
    left
    change (p.onEffectResult cx token result).2.effects = cx.effects
    unfold onEffectResult
    split
    · rfl
    · cases result <;> rfl
  | disconnected _ | bulkListening _ _ | bulkFinished _ _ _ | tick => exact .inl rfl

end WolPlugin

/-- The relay never leaves its allowlist: what the plugin asks the host to wake is read by the host
to an allowlisted MAC, and every packet then sent wakes that machine alone. A relay to an
allowlisted MAC is carried out, however both are spelled. -/
theorem relay_keeps_to_allowlist {X : Crates} (p : WolPlugin X) (cx : Cx) :
    (∀ (call : Call) (e : EffectToken × Effect), e ∈ (Plugin.call p cx call).2.1.effects →
      e ∈ cx.effects ∨ ∃ mac m, e.2 = p.wake mac ∧ p.Allows mac m ∧
        ∀ (N : Network) (destinations : List String) (port : ℕ) (sent : List (Bytes × N.Addr)),
          send N [mac] destinations port = .ok sent →
            ∀ d ∈ sent, ∀ m' : Mac, Wakes d.1 m' ↔ m' = m) ∧
    ∀ (peer : DeviceId) (env : Envelope) (req : RelayRequest) (m : Mac), env.ty = "relay" →
      X.decode RelayRequest env.body = some req → p.Allows req.mac m →
        (Plugin.call p cx (.message peer env)).2.2 = .ok () ∧
          (Plugin.call p cx (.message peer env)).2.1 = (cx.effect (p.wake req.mac)).1 := by
  constructor
  · intro call e he
    rcases p.call_effects cx call with hsame | ⟨peer, env, -, -, hcx⟩
    · rw [hsame] at he
      exact .inl he
    · rw [hcx] at he
      rcases WolPlugin.onRelay_cases cx peer env p with
        ⟨req, m, -, hallows, heffect, -⟩ | ⟨-, hnone⟩
      · rw [heffect] at he
        rcases List.mem_append.mp he with he | he
        · exact .inl he
        · obtain rfl := List.mem_singleton.mp he
          refine .inr ⟨req.mac, m, rfl, hallows, ?_⟩
          intro N destinations port sent hsent d hd m'
          rw [mem_send hallows.1 hsent hd]
          exact wakes_build
      · rw [hnone] at he
        exact .inl he
  · intro peer env req m hty hreq hallows
    have hrelay : p.onMessage cx peer env = p.onRelay cx peer env := by
      unfold WolPlugin.onMessage
      rw [hty]
      rfl
    change (p.onMessage cx peer env).2.2 = .ok () ∧ (p.onMessage cx peer env).2.1 = _
    rw [hrelay]
    rcases WolPlugin.onRelay_cases cx peer env p with
      ⟨req', m', hreq', -, heffect, hok⟩ | ⟨hnone, -⟩
    · obtain rfl : req' = req := Option.some.inj (hreq'.symm.trans hreq)
      exact ⟨hok, heffect⟩
    · exact absurd hallows (hnone req m hreq)

namespace Mock

def waker : WolPlugin crates := .new crates ⟨[], "192.168.1.255", 9, ""⟩ ["aa:bb:cc:dd:ee:ff"]

def wakeAsked : Envelope :=
  ⟨wireVersion, 7, none, Wol.cap, "relay", crates.encode (⟨"AA-BB-CC-DD-EE-FF"⟩ : RelayRequest), 0,
    none⟩

def relaying : Cx := .new 5 0 0 (.new [.wol])

end Mock

theorem capitals_are_relayed :
    (Plugin.call Mock.waker Mock.relaying (.message Mock.phone Mock.wakeAsked)).2.2 = .ok () ∧
      (Plugin.call Mock.waker Mock.relaying (.message Mock.phone Mock.wakeAsked)).2.1 =
        (Mock.relaying.effect
          (.sendMagicPacket ["AA-BB-CC-DD-EE-FF"] ["192.168.1.255"] 9)).1 := by
  have hparse : parseMac "AA-BB-CC-DD-EE-FF" =
      .ok ⟨[0xAA, 0xBB, 0xCC, 0xDD, 0xEE, 0xFF], rfl⟩ := by decide +kernel
  have hentry : parseMac "aa:bb:cc:dd:ee:ff" =
      .ok ⟨[0xAA, 0xBB, 0xCC, 0xDD, 0xEE, 0xFF], rfl⟩ := by decide +kernel
  exact (relay_keeps_to_allowlist Mock.waker Mock.relaying).2 Mock.phone Mock.wakeAsked
    ⟨"AA-BB-CC-DD-EE-FF"⟩ _ rfl (Mock.crates.decode_encode _)
    ⟨hparse, "aa:bb:cc:dd:ee:ff", List.mem_singleton_self _, hentry⟩

end Acrylius
