import Acrylius.Plugins.Touchpad
import Acrylius.Mock

/-! Whose stream a desktop replays: the peer that began it against the peers whose messages move
the pointer. Order numbers are natural numbers, as long as fewer than `2 ^ 32` are used. -/
namespace Acrylius
open Proto Std

variable {X : Crates}

namespace Touchpad

def opens (X : Crates) (env : Envelope) : Bool :=
  env.ty = "begin" && (X.decode Begin env.body).any fun b => b.wMm ≠ 0 && b.hMm ≠ 0

def moves (X : Crates) (env : Envelope) : Bool :=
  env.ty = "frame" && (X.decode Frame env.body).any fun f => f.points.length ≤ maxPoints

end Touchpad

open Touchpad

namespace TouchpadPlugin
variable (p : TouchpadPlugin X)

/-- What a message asks of the device, by what kind of message it is. -/
theorem opOf_cases (peer : DeviceId) (env : Envelope) :
    (opens X env ∧ ∃ op, p.opOf peer env = .ok (op, some peer)) ∨
    (moves X env ∧ ∃ op, p.opOf peer env = .ok (op, p.owner)) ∨
    (env.ty = "end" ∧ p.opOf peer env = .ok (.end, none)) ∨
    (opens X env = false ∧ moves X env = false ∧ env.ty ≠ "end" ∧
      ∃ e, p.opOf peer env = .error e) := by
  unfold opOf
  split
  · rename_i hty
    have hmoves : moves X env = false := by simp [moves, hty]
    have hend : env.ty ≠ "end" := by simp [hty]
    cases hb : X.decode Begin env.body with
    | none => exact .inr (.inr (.inr ⟨by simp [opens, hb], hmoves, hend, _, rfl⟩))
    | some b =>
      by_cases hzero : b.wMm = 0 ∨ b.hMm = 0
      · have hopens : opens X env = false := by
          rcases hzero with h | h <;> simp [opens, hb, h]
        exact .inr (.inr (.inr ⟨hopens, hmoves, hend, _, if_pos hzero⟩))
      · have hopens : opens X env := by
          push Not at hzero
          simp [opens, hty, hb, hzero]
        exact .inl ⟨hopens, _, if_neg hzero⟩
  · rename_i hty
    have hopens : opens X env = false := by simp [opens, hty]
    have hend : env.ty ≠ "end" := by simp [hty]
    cases hf : X.decode Frame env.body with
    | none => exact .inr (.inr (.inr ⟨hopens, by simp [moves, hf], hend, _, rfl⟩))
    | some f =>
      by_cases hmany : maxPoints < f.points.length
      · have hmoves : moves X env = false := by simp [moves, hf, hmany]
        exact .inr (.inr (.inr ⟨hopens, hmoves, hend, _, if_pos hmany⟩))
      · have hmoves : moves X env := by simpa [moves, hty, hf] using hmany
        exact .inr (.inl ⟨hmoves, _, if_neg hmany⟩)
  · rename_i hty
    exact .inr (.inr (.inl ⟨hty, rfl⟩))
  · rename_i hbegin hframe hend
    have hopens : opens X env = false := by
      unfold opens
      rw [decide_eq_false hbegin, Bool.false_and]
    have hmoves : moves X env = false := by
      unfold moves
      rw [decide_eq_false hframe, Bool.false_and]
    exact .inr (.inr (.inr ⟨hopens, hmoves, hend, _, rfl⟩))

/-- The operation a call leads to, and whose the stream is then. -/
def move : Call → Option (TouchpadOp × Option DeviceId)
  | .message peer env => if env.ty = "avail" then none else (p.opOf peer env).toOption
  | .disconnected peer => if p.owner = some peer then some (.end, none) else none
  | _ => none

def asked (τ : Turn) : List Effect :=
  ((Plugin.call p τ.cx τ.call).2.1.effects.drop τ.cx.effects.length).map (·.2)

/-- On a host that serves the touchpad a call does its operation under the next number, or
nothing. -/
theorem turn_eq {τ : Turn} (serves : τ.cx.serves .touchpad) :
    Plugin.turn p τ = (p.move τ.call).elim p (fun m => ⟨p.order + 1, m.2⟩) ∧
      p.asked τ = (p.move τ.call).elim [] fun m => [.touchpad (p.order + 1) m.1] := by
  obtain ⟨cx, call⟩ := τ
  dsimp only at serves
  unfold Plugin.turn asked
  dsimp only
  cases call with
  | message peer env =>
    change (p.onMessage cx peer env).1 = _ ∧
      ((p.onMessage cx peer env).2.1.effects.drop cx.effects.length).map (·.2) = _
    unfold onMessage move
    dsimp only
    by_cases havail : env.ty = "avail"
    · simp [havail, Cx.emit]
    · rw [if_neg havail, if_neg havail, serves]
      cases hop : p.opOf peer env with
      | error e => simp [Except.toOption]
      | ok m => simp [Except.toOption, operate, Cx.effect]
  | disconnected peer =>
    change (p.onPeerDisconnected cx peer).1 = _ ∧
      ((p.onPeerDisconnected cx peer).2.effects.drop cx.effects.length).map (·.2) = _
    unfold onPeerDisconnected move
    by_cases howner : p.owner = some peer
    · simp [howner, operate, Cx.effect]
    · simp [howner]
  | connected peer =>
    change (p.onPeerConnected cx peer).1 = _ ∧
      ((p.onPeerConnected cx peer).2.effects.drop cx.effects.length).map (·.2) = _
    simp [onPeerConnected, serves, move, Cx.send]
  | request peer ty body =>
    change (p.onLocal cx peer ty body).1 = _ ∧
      ((p.onLocal cx peer ty body).2.1.effects.drop cx.effects.length).map (·.2) = _
    unfold onLocal
    split <;> simp [move, Cx.send]
  | _ => exact ⟨rfl, by simp [Plugin.call, Plugin.onEffectResult, Plugin.onBulkListening,
      Plugin.onBulkFinished, Plugin.onTick, move]⟩

end TouchpadPlugin

/-- A plugin, the peer whose stream it is by the messages and disconnects alone, and the order
numbers used so far. -/
structure Stroked (X : Crates) where
  plugin : TouchpadPlugin X
  holder : Option DeviceId
  orders : List ℕ

namespace Stroked

def start (X : Crates) : Stroked X := ⟨.default X, none, []⟩

/-- A stream is its peer's from the `begin` on, until the peer ends it, disconnects, or another
begins one. -/
def held (X : Crates) (holder : Option DeviceId) : Call → Option DeviceId
  | .message peer env =>
    if opens X env then some peer
    else if env.ty = "end" ∧ holder = some peer then none else holder
  | .disconnected peer => if holder = some peer then none else holder
  | _ => holder

def orderOf : Effect → Option ℕ
  | .touchpad order _ => some order
  | _ => none

def step (s : Stroked X) (τ : Turn) : Stroked X where
  plugin := Plugin.turn s.plugin τ
  holder := held X s.holder τ.call
  orders := s.orders ++ (s.plugin.asked τ).filterMap orderOf

/-- The stream is its holder's in this call: nobody else moves the pointer or takes the stream
away, the holder's disconnect lifts the fingers, and the order numbers rise. -/
structure Respects (s : Stroked X) (τ : Turn) : Prop where
  undisturbed : ∀ p peer env, s.holder = some p → τ.call = .message peer env → peer ≠ p →
    (env.ty = "frame" ∨ env.ty = "end") →
    s.plugin.asked τ = [] ∧ (Plugin.turn s.plugin τ).owner = s.plugin.owner
  lifted : ∀ p, s.holder = some p → τ.call = .disconnected p →
    ∃ order, Effect.touchpad order .end ∈ s.plugin.asked τ
  rising : (s.step τ).orders.Pairwise (· < ·)

/-- A peer sends a frame into, or an end of, a stream that is another's. -/
def Intrudes (s : Stroked X) (τ : Turn) : Prop :=
  ∃ p peer env, s.holder = some p ∧ τ.call = .message peer env ∧ peer ≠ p ∧
    (moves X env ∨ env.ty = "end")

/-- The plugin knows whose stream it is, and has used no number above its own. -/
structure Sound (s : Stroked X) : Prop where
  holder : s.holder = s.plugin.owner
  rising : s.orders.Pairwise (· < ·)
  used : ∀ n ∈ s.orders, n ≤ s.plugin.order

theorem start_sound : (start X).Sound := ⟨rfl, .nil, nofun⟩

variable {s : Stroked X} {τ : Turn}

/-- The numbers keep rising, whoever sends what. -/
theorem Sound.numbers (h : s.Sound) (serves : τ.cx.serves .touchpad) :
    (s.step τ).orders.Pairwise (· < ·) ∧
      ∀ n ∈ (s.step τ).orders, n ≤ (s.step τ).plugin.order := by
  obtain ⟨hturn, hasked⟩ := s.plugin.turn_eq serves
  have hnew : (s.plugin.asked τ).filterMap orderOf =
      (s.plugin.move τ.call).elim [] fun _ => [s.plugin.order + 1] := by
    rw [hasked]
    cases s.plugin.move τ.call <;> rfl
  unfold step
  rw [hnew, hturn]
  cases s.plugin.move τ.call with
  | none => simpa using And.intro h.rising h.used
  | some m =>
    refine ⟨?_, ?_⟩
    · refine List.pairwise_append.mpr ⟨h.rising, List.pairwise_singleton _ _, ?_⟩
      intro n hn k hk
      have hle := h.used n hn
      rw [Option.elim_some, List.mem_singleton] at hk
      omega
    · intro n hn
      rcases List.mem_append.mp hn with hn | hn
      · have hle := h.used n hn
        simp only [Option.elim_some]
        omega
      · rw [Option.elim_some, List.mem_singleton] at hn
        simp only [Option.elim_some]
        omega

/-- Whoever holds the stream by what was said holds it in the plugin, unless somebody intrudes. -/
theorem Sound.holder_step (h : s.Sound) (serves : τ.cx.serves .touchpad) (hin : ¬ s.Intrudes τ) :
    held X s.holder τ.call = (Plugin.turn s.plugin τ).owner := by
  rw [(s.plugin.turn_eq serves).1]
  cases hcall : τ.call with
  | message peer env =>
    dsimp only [held, TouchpadPlugin.move]
    by_cases havail : env.ty = "avail"
    · have hopens : opens X env = false := by simp [opens, havail]
      simp [havail, hopens, h.holder]
    · rw [if_neg havail]
      rcases s.plugin.opOf_cases peer env with ⟨hopens, op, hop⟩ | ⟨hmoves, op, hop⟩ |
        ⟨hend, hop⟩ | ⟨hopens, hmoves, hend, e, hop⟩
      · rw [hop, if_pos hopens]
        rfl
      · have hty : env.ty = "frame" := by
          simp only [moves, Bool.and_eq_true, decide_eq_true_eq] at hmoves
          exact hmoves.1
        have hopens : opens X env = false := by simp [opens, hty]
        simp [hop, hopens, hty, Except.toOption, h.holder]
      · have hopens : opens X env = false := by simp [opens, hend]
        have hnone : (if s.holder = some peer then none else s.holder) = none := by
          by_cases hmine : s.holder = some peer
          · rw [if_pos hmine]
          · rw [if_neg hmine]
            by_contra hsome
            obtain ⟨p, hp⟩ := Option.ne_none_iff_exists'.mp hsome
            refine hin ⟨p, peer, env, hp, hcall, ?_, .inr hend⟩
            rintro rfl
            exact hmine hp
        simp [hop, hopens, hend, hnone, Except.toOption]
      · simp [hop, hopens, hend, Except.toOption, h.holder]
  | disconnected peer =>
    dsimp only [held, TouchpadPlugin.move]
    rw [h.holder]
    by_cases howner : s.plugin.owner = some peer
    · simp [howner]
    · simp [howner]
  | _ => exact h.holder

theorem Sound.step (h : s.Sound) (serves : τ.cx.serves .touchpad) (hin : ¬ s.Intrudes τ) :
    (s.step τ).Sound := by
  obtain ⟨hrising, hused⟩ := h.numbers serves
  exact ⟨h.holder_step serves hin, hrising, hused⟩

/-- The stream is its holder's exactly in the calls that are no intrusion. -/
theorem Sound.respects_iff (h : s.Sound) (serves : τ.cx.serves .touchpad) :
    s.Respects τ ↔ ¬ s.Intrudes τ := by
  obtain ⟨hturn, hasked⟩ := s.plugin.turn_eq serves
  constructor
  · rintro hr ⟨p, peer, env, hp, hcall, hne, hty⟩
    have havail : env.ty ≠ "avail" := by
      rcases hty with hty | hty
      · simp only [moves, Bool.and_eq_true, decide_eq_true_eq] at hty
        simp [hty.1]
      · simp [hty]
    have hkind : env.ty = "frame" ∨ env.ty = "end" := by
      rcases hty with hty | hty
      · simp only [moves, Bool.and_eq_true, decide_eq_true_eq] at hty
        exact .inl hty.1
      · exact .inr hty
    have hnothing := (hr.undisturbed p peer env hp hcall hne hkind).1
    rw [hasked, hcall] at hnothing
    dsimp only [TouchpadPlugin.move] at hnothing
    rw [if_neg havail] at hnothing
    rcases s.plugin.opOf_cases peer env with ⟨-, op, hop⟩ | ⟨-, op, hop⟩ | ⟨-, hop⟩ |
      ⟨-, hmoves, hend, -⟩
    · simp [hop, Except.toOption] at hnothing
    · simp [hop, Except.toOption] at hnothing
    · simp [hop, Except.toOption] at hnothing
    · rcases hty with hty | hty
      · rw [hmoves] at hty
        cases hty
      · exact hend hty
  · intro hin
    refine ⟨?_, ?_, (h.numbers serves).1⟩
    · intro p peer env hp hcall hne hty
      rw [hasked, hturn, hcall]
      dsimp only [TouchpadPlugin.move]
      rcases s.plugin.opOf_cases peer env with ⟨hopens, -⟩ | ⟨hmoves, -⟩ | ⟨hend, -⟩ |
        ⟨-, -, -, e, hop⟩
      · simp only [opens, Bool.and_eq_true, decide_eq_true_eq] at hopens
        rcases hty with hty | hty <;> simp [hty] at hopens
      · exact absurd ⟨p, peer, env, hp, hcall, hne, .inl hmoves⟩ hin
      · exact absurd ⟨p, peer, env, hp, hcall, hne, .inr hend⟩ hin
      · have havail : env.ty ≠ "avail" := by rcases hty with hty | hty <;> simp [hty]
        simp [havail, hop, Except.toOption]
    · intro p hp hcall
      rw [h.holder] at hp
      refine ⟨s.plugin.order + 1, ?_⟩
      rw [hasked, hcall]
      simp [TouchpadPlugin.move, hp]

/-- On a host that serves the touchpad, a stream is its holder's all along a run of the plugin
exactly if nobody sends a frame into, or an end of, a stream that is another's. -/
theorem respected_iff {τs : List Turn} (serves : ∀ τ ∈ τs, τ.cx.serves .touchpad) :
    Lib.Along step Respects (start X) τs ↔
      Lib.Along step (fun s τ => ¬ s.Intrudes τ) (start X) τs := by
  have hserves : Lib.Along step (fun (_ : Stroked X) (τ : Turn) => τ.cx.serves .touchpad) (start X)
      τs := Lib.along_of_mem serves _
  exact Lib.Along.iff_of_inv (fun _ _ h serves => h.respects_iff serves)
    (fun _ _ h serves hin => h.step serves hin) hserves start_sound

end Stroked

namespace Mock

def pointerCx : Cx := Cx.new 0 0 0 (EffectSet.new [.touchpad])

def pointerSays (peer : DeviceId) (ty : String) (body : Bytes) : Turn :=
  ⟨pointerCx, .message peer
    { v := wireVersion, id := 1, re := none, cap := Touchpad.cap, ty, body, flags := 0, bulk := none }⟩

def tablet : DeviceId := ⟨"tablet"⟩

def pen : DeviceId := ⟨"pen"⟩

def tabletBegins : Turn := pointerSays tablet "begin" (crates.encode (⟨60, 40⟩ : Touchpad.Begin))

def tabletLeaves : Turn := ⟨pointerCx, .disconnected tablet⟩

end Mock

/-- A tablet draws alone. -/
theorem lone_stroke_respected : Lib.Along Stroked.step Stroked.Respects (Stroked.start Mock.crates)
    [Mock.tabletBegins, Mock.tabletLeaves] := by
  refine (Stroked.respected_iff (by simp [Mock.tabletBegins, Mock.tabletLeaves, Mock.pointerSays,
    Mock.pointerCx, Cx.new, EffectSet.new])).mpr ⟨?_, ?_, trivial⟩
  · rintro ⟨p, peer, env, hp, -⟩
    cases hp
  · rintro ⟨p, peer, env, -, hcall, -⟩
    cases hcall

/-- Another device ends the tablet's stream, and nothing lifts the fingers when the tablet is
gone. -/
theorem stranger_ends_stroke : ¬ ∀ τs : List Turn, (∀ τ ∈ τs, τ.cx.serves .touchpad) →
    Lib.Along Stroked.step Stroked.Respects (Stroked.start Mock.crates) τs := by
  intro hall
  have hserves : ∀ τ ∈ [Mock.tabletBegins, Mock.pointerSays Mock.pen "end" [], Mock.tabletLeaves],
      τ.cx.serves .touchpad := by
    simp [Mock.tabletBegins, Mock.tabletLeaves, Mock.pointerSays, Mock.pointerCx, Cx.new,
      EffectSet.new]
  obtain ⟨-, -, hlast, -⟩ := hall _ hserves
  obtain ⟨order, hmem⟩ := hlast.lifted Mock.tablet (by decide +kernel) rfl
  revert hmem
  have hnone : ((((Stroked.start Mock.crates).step Mock.tabletBegins).step
      (Mock.pointerSays Mock.pen "end" [])).plugin.asked Mock.tabletLeaves) = [] := by
    decide +kernel
  rw [hnone]
  exact List.not_mem_nil

end Acrylius
