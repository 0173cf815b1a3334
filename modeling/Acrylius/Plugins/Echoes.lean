import Acrylius.Plugins.Inline
import Acrylius.Mock

/-! Two machines that share a clipboard: their plugins, the messages under way, what their users
copy and what their watchers report (`clipboard.rs`). -/
namespace Acrylius
open Proto Std Clipboard

variable {X : Crates}

/-- A message that shares a clipboard and answers nothing. -/
def PendingSend.Volunteers (m : PendingSend) : Bool := m.ty = "set" && m.re.isNone

def Effect.written? : Effect → Option Bytes
  | .clipboardWrite _ data => some data
  | _ => none

def Cx.written (cx : Cx) : List Bytes := cx.effects.filterMap (·.2.written?)

namespace Clipboard

structure Machine (X : Crates) where
  plugin : ClipboardPlugin X
  /-- What its user copied, and what was written to its clipboard. -/
  shown : List Bytes
  copied : List Bytes
  /-- The copies its watcher has not reported. -/
  unreported : List Bytes
  /-- The copy its watcher reported last. -/
  reported : Option Bytes
  /-- What was written last, until a report of that hash. -/
  applied : Option Bytes
  /-- The messages that shared its clipboard unasked. -/
  volunteered : List PendingSend

def Machine.copy (m : Machine X) (value : Bytes) : Machine X :=
  { m with
    shown := m.shown ++ [value]
    copied := m.copied ++ [value]
    unreported := m.unreported ++ [value] }

def Machine.report (m : Machine X) (value : Bytes) : Machine X :=
  { m with
    unreported := m.unreported.erase value
    reported := if value ∈ m.unreported then some value else m.reported
    applied := m.applied.filter (hash X · ≠ hash X value) }

/-- The host writes what the plugin asks it to. -/
def Machine.after (m : Machine X) (r : ClipboardPlugin X × Cx × Except PluginError Unit) :
    Machine X :=
  { m with
    plugin := r.1
    shown := m.shown ++ r.2.1.written
    applied := r.2.1.written.getLast?.or m.applied
    volunteered := m.volunteered ++ r.2.1.sends.filter (·.Volunteers) }

inductive Occurrence where
  /-- A person copies a value. -/
  | copy (value : Bytes)
  /-- The watcher reports a value, if it has been on the clipboard. -/
  | report (value : Bytes)
  /-- The oldest message arrives, under this envelope id. -/
  | deliver (id : UInt32)

def Occurrence.reports : Occurrence → Option Bytes
  | .report value => some value
  | _ => none

end Clipboard

/-- The two machines, and the messages under way to each of them, oldest first. -/
structure Clipboards (X : Crates) where
  machines : Bool → Clipboard.Machine X
  wire : Bool → List PendingSend

namespace Clipboards

/-- At which machine something happens, and the core's clock and last token. -/
structure Input where
  here : Bool
  nowMs : ℕ
  token : EffectToken
  what : Occurrence

section Steps
variable (who : Bool → DeviceId) (serves : Bool → EffectSet)

def cx (i : Input) : Cx := Cx.new i.nowMs i.token 0 (serves i.here)

/-- Each plugin has both directions on, and is told of the other machine. -/
def joined (X : Crates) : Clipboards X where
  machines here := ⟨((ClipboardPlugin.default X).onPeerConnected (Cx.new 0 0 0 (serves here))
    (who (!here))).1, [], [], [], none, none, []⟩
  wire _ := []

/-- A call of the plugin at one machine: what it sends goes out to the other. -/
def perform (d : Clipboards X) (i : Input) (c : Call) : Clipboards X :=
  let m := d.machines i.here
  let r := Plugin.call m.plugin (cx serves i) c
  { machines := Function.update d.machines i.here (m.after r)
    wire := Function.update d.wire (!i.here) (d.wire (!i.here) ++ r.2.1.sends) }

def step (d : Clipboards X) (i : Input) : Clipboards X :=
  let m := d.machines i.here
  match i.what with
  | .copy value => { d with machines := Function.update d.machines i.here (m.copy value) }
  | .report value =>
    if value ∈ m.shown then
      perform serves { d with machines := Function.update d.machines i.here (m.report value) } i
        (.request (who (!i.here)) "changed" value)
    else d
  | .deliver id =>
    match d.wire i.here with
    | [] => d
    | s :: rest => perform serves { d with wire := Function.update d.wire i.here rest } i
        (.message (who (!i.here)) (s.envelope id))

end Steps

/-- What the plugin sends when this value is reported. -/
def forwards (who : Bool → DeviceId) (serves : Bool → EffectSet) (d : Clipboards X) (i : Input)
    (value : Bytes) : List PendingSend :=
  (Plugin.call (d.machines i.here).plugin (cx serves i)
    (.request (who (!i.here)) "changed" value)).2.1.sends.filter (·.Volunteers)

def volunteered (d : Clipboards X) : ℕ :=
  (d.machines true).volunteered.length + (d.machines false).volunteered.length

def copied (d : Clipboards X) : ℕ :=
  (d.machines true).copied.length + (d.machines false).copied.length

/-- What a report forwards was copied here, and no more was shared unasked than was copied. -/
structure Settles (who : Bool → DeviceId) (serves : Bool → EffectSet) (d : Clipboards X)
    (i : Input) : Prop where
  own : ∀ value ∈ i.what.reports, value ∈ (d.machines i.here).shown →
    d.forwards who serves i value ≠ [] → value ∈ (d.machines i.here).copied
  few : (step who serves d i).volunteered ≤ (step who serves d i).copied

end Clipboards

/-- A copy not reported yet or the one reported last, what was written last and not reported since,
or too large to share. -/
def Clipboard.Machine.Due (m : Machine X) (value : Bytes) : Prop :=
  value ∈ m.unreported ∨ m.reported = some value ∨ m.applied = some value ∨
    maxInline < value.length

instance (m : Machine X) (value : Bytes) : Decidable (m.Due value) :=
  inferInstanceAs (Decidable (_ ∨ _))

def Clipboards.Timely (d : Clipboards X) (i : Clipboards.Input) : Prop :=
  ∀ value ∈ i.what.reports, value ∈ (d.machines i.here).shown → (d.machines i.here).Due value

instance (d : Clipboards X) (i : Clipboards.Input) : Decidable (d.Timely i) :=
  inferInstanceAs (Decidable (∀ value ∈ _, _))

namespace ClipboardPlugin
variable {p : ClipboardPlugin X} {cx : Cx}

theorem takeEcho_lastLocal (p : ClipboardPlugin X) (h : Bytes) :
    (p.takeEcho h).1.lastLocal = p.lastLocal := by
  unfold takeEcho
  split
  · rfl
  · rfl

theorem takeEcho_lastRemote (p : ClipboardPlugin X) (h : Bytes) :
    (p.takeEcho h).1.lastRemote = p.lastRemote ∨ p.lastRemote = some h := by
  unfold takeEcho
  split
  · rename_i hremote
    exact .inr hremote
  · exact .inl rfl

/-- What the plugin takes for no echo is in neither slot. -/
theorem forgotten_of_takeEcho {h : Bytes} (hecho : (p.takeEcho h).2 = false) :
    p.lastRemote ≠ some h ∧ p.lastLocal ≠ some h := by
  unfold takeEcho at hecho
  split at hecho
  · cases hecho
  · rename_i hremote
    exact ⟨hremote, of_decide_eq_false hecho⟩

/-- What an offer that the host noticed does to the messages and to the local slot. -/
theorem offer_cases (p : ClipboardPlugin X) (cx : Cx) (value : Bytes) :
    ((p.offer cx value false).2.1.sends = cx.sends ∧
      (p.offer cx value false).1.lastLocal = p.lastLocal) ∨
    (value.length ≤ maxInline ∧ p.lastRemote ≠ some (hash X value) ∧
      p.lastLocal ≠ some (hash X value) ∧
      (p.offer cx value false).1.lastLocal = some (hash X value) ∧
      (p.offer cx value false).2.1.sends =
        cx.sends ++ p.connected.map (Cx.unsolicited cap "set" (X.encode (carrying X value)))) := by
  have hpeers := p.takeEcho_connected (hash X value)
  have hlocal := p.takeEcho_lastLocal (hash X value)
  unfold offer
  split
  · exact .inl ⟨rfl, rfl⟩
  · split
    · exact .inl ⟨rfl, rfl⟩
    · rename_i hsize
      split
      · rename_i q heq
        rw [heq] at hlocal
        exact .inl ⟨rfl, hlocal⟩
      · rename_i q heq
        rw [heq] at hpeers
        obtain ⟨hremote, hown⟩ := forgotten_of_takeEcho (congrArg Prod.snd heq)
        refine .inr ⟨Nat.le_of_not_lt hsize, hremote, hown, rfl, ?_⟩
        dsimp only
        rw [Cx.tell_eq, hpeers]
        simp [Cx.others]

theorem offer_lastRemote (p : ClipboardPlugin X) (cx : Cx) (value : Bytes) :
    (p.offer cx value false).1.lastRemote = p.lastRemote ∨
      p.lastRemote = some (hash X value) := by
  have hremote := p.takeEcho_lastRemote (hash X value)
  unfold offer
  split
  · exact .inl rfl
  · split
    · exact .inl rfl
    · split
      · rename_i heq
        rw [heq] at hremote
        exact hremote
      · rename_i heq
        rw [heq] at hremote
        exact hremote

theorem offer_effects (p : ClipboardPlugin X) (cx : Cx) (value : Bytes) :
    (p.offer cx value false).2.1.effects = cx.effects := by
  unfold offer
  split
  · rfl
  · split
    · rfl
    · split
      · rfl
      · dsimp only
        rw [Cx.tell_eq]

/-- What arrives has nothing sent, and leaves the local slot alone. -/
theorem onMessage_quiet (p : ClipboardPlugin X) (cx : Cx) (peer : DeviceId) (env : Envelope) :
    (p.onMessage cx peer env).2.1.sends = cx.sends ∧
      (p.onMessage cx peer env).1.lastLocal = p.lastLocal := by
  unfold onMessage
  split
  · split
    · unfold onAnswer
      split
      · exact ⟨rfl, rfl⟩
      · split
        · exact ⟨rfl, rfl⟩
        · split
          · exact ⟨rfl, rfl⟩
          · exact ⟨rfl, rfl⟩
    · unfold onSet
      split
      · exact ⟨rfl, rfl⟩
      · split
        · exact ⟨rfl, rfl⟩
        · split
          · exact ⟨rfl, rfl⟩
          · split
            · exact ⟨rfl, rfl⟩
            · split
              · exact ⟨rfl, rfl⟩
              · exact ⟨rfl, rfl⟩
  · exact ⟨rfl, rfl⟩
  · exact ⟨rfl, rfl⟩

/-- A message has one value written at most, and the plugin keeps the hash of it. -/
theorem onMessage_written (p : ClipboardPlugin X) {cx : Cx} (hcx : cx.effects = [])
    (peer : DeviceId) (env : Envelope) :
    ((p.onMessage cx peer env).2.1.written = [] ∧
      (p.onMessage cx peer env).1.lastRemote = p.lastRemote) ∨
    ∃ data, (p.onMessage cx peer env).2.1.written = [data] ∧
      (p.onMessage cx peer env).1.lastRemote = some (hash X data) := by
  have hnone : cx.written = [] := by rw [Cx.written, hcx]; rfl
  unfold onMessage
  split
  · split
    · unfold onAnswer
      split
      · exact .inl ⟨hnone, rfl⟩
      · split
        · exact .inl ⟨hnone, rfl⟩
        · split
          · exact .inl ⟨hnone, rfl⟩
          · exact .inl ⟨hnone, rfl⟩
    · unfold onSet
      split
      · exact .inl ⟨hnone, rfl⟩
      · rename_i msg _
        split
        · exact .inl ⟨hnone, rfl⟩
        · split
          · exact .inl ⟨hnone, rfl⟩
          · split
            · exact .inl ⟨hnone, rfl⟩
            · split
              · exact .inl ⟨hnone, rfl⟩
              · refine .inr ⟨msg.data, ?_, rfl⟩
                simp [Cx.written, Cx.effect, Cx.emit, hcx, Effect.written?]
  · refine .inl ⟨?_, rfl⟩
    simp [Cx.written, Cx.effect, hcx, Effect.written?]
  · exact .inl ⟨hnone, rfl⟩

end ClipboardPlugin

namespace Clipboard

/-- The plugin knows the other machine alone. It has shared no more messages unasked than its
watcher reported copies, and one fewer while its local slot is not of the copy reported last; its
remote slot is of what was written last, until a report of it. -/
structure Machine.Accounted (peer : DeviceId) (m : Machine X) : Prop where
  connected : m.plugin.connected = [peer]
  copies : ∀ value ∈ m.unreported, value ∈ m.copied
  few : m.volunteered.length + m.unreported.length ≤ m.copied.length
  again : ∀ value ∈ m.reported, value ∈ m.copied ∧
    (m.plugin.lastLocal = some (hash X value) ∨
      m.volunteered.length + m.unreported.length < m.copied.length)
  echo : ∀ value ∈ m.applied, m.plugin.lastRemote = some (hash X value)

namespace Machine
variable {peer : DeviceId} {m : Machine X} {value : Bytes}

theorem Accounted.copy (h : m.Accounted peer) (value : Bytes) : (m.copy value).Accounted peer where
  connected := h.connected
  copies v hv := by
    rw [Machine.copy, List.mem_append] at hv
    exact List.mem_append.mpr (hv.imp (h.copies v) id)
  few := by
    have hfew := h.few
    simp only [Machine.copy, List.length_append, List.length_singleton]
    omega
  again v hv := by
    obtain ⟨hcopied, hspent⟩ := h.again v hv
    refine ⟨List.mem_append_left _ hcopied, hspent.imp id fun hlt => ?_⟩
    simp only [Machine.copy, List.length_append, List.length_singleton]
    omega
  echo := h.echo

/-- A message that arrives sends nothing, and what it writes is kept in the remote slot. -/
theorem Accounted.message (h : m.Accounted peer) {cx : Cx} (hsends : cx.sends = [])
    (heffects : cx.effects = []) (env : Envelope) :
    (m.after (m.plugin.onMessage cx peer env)).Accounted peer := by
  obtain ⟨hquiet, hlocal⟩ := m.plugin.onMessage_quiet cx peer env
  rw [hsends] at hquiet
  refine
    { connected := (ClipboardPlugin.onMessage_connected ..).trans h.connected
      copies := h.copies
      few := ?_
      again := fun v hv => ⟨(h.again v hv).1, (h.again v hv).2.imp hlocal.trans ?_⟩
      echo := ?_ }
  · simp only [Machine.after, hquiet, List.filter_nil, List.append_nil]
    exact h.few
  · intro hlt
    simp only [Machine.after, hquiet, List.filter_nil, List.append_nil]
    exact hlt
  · intro v hv
    rcases m.plugin.onMessage_written heffects peer env with ⟨hnone, hsame⟩ | ⟨data, hone, hkept⟩
    · rw [Machine.after, hnone] at hv
      exact hsame.trans (h.echo v hv)
    · rw [Machine.after, hone] at hv
      cases hv
      exact hkept

/-- What is shared on a report that is due is the copy it is of. -/
theorem Accounted.due_of_told (h : m.Accounted peer) (hdue : m.Due value)
    (hsize : value.length ≤ maxInline) (hremote : m.plugin.lastRemote ≠ some (hash X value)) :
    value ∈ m.unreported ∨ m.reported = some value := by
  rcases hdue with hcopy | hagain | happlied | hlarge
  · exact .inl hcopy
  · exact .inr hagain
  · exact absurd (h.echo value happlied) hremote
  · exact absurd hsize (Nat.not_le_of_lt hlarge)

section Report
variable {cx : Cx} (h : m.Accounted peer) (hdue : m.Due value)
include h hdue

/-- A copy is shared once over all its reports. -/
theorem Accounted.report_few (hsends : cx.sends = []) :
    ((m.report value).after (m.plugin.offer cx value false)).volunteered.length +
      (m.report value).unreported.length ≤ m.copied.length := by
  have hunsent : (m.unreported.erase value).length ≤ m.unreported.length := List.length_erase_le
  have hfew := h.few
  rcases m.plugin.offer_cases cx value with ⟨hquiet, -⟩ | ⟨hsize, hremote, hown, -, htold⟩
  · simp only [Machine.after, Machine.report, hquiet, hsends, List.filter_nil, List.append_nil]
    omega
  · rw [hsends, h.connected, List.nil_append] at htold
    have hone := List.length_filter_le (·.Volunteers) (m.plugin.offer cx value false).2.1.sends
    have hlen := congrArg List.length htold
    rw [List.length_map, List.length_singleton] at hlen
    have hroom : m.volunteered.length + (m.unreported.erase value).length < m.copied.length := by
      rcases h.due_of_told hdue hsize hremote with hcopy | hagain
      · have herase := List.length_erase_of_mem hcopy
        have hpos := List.length_pos_of_mem hcopy
        omega
      · have hlt := (h.again value hagain).2.resolve_left hown
        omega
    simp only [Machine.after, Machine.report, List.length_append]
    omega

/-- The copy reported last is in the local slot, or was not shared. -/
theorem Accounted.report_again (hsends : cx.sends = []) {v : Bytes}
    (hv : v ∈ (m.report value).reported) :
    v ∈ m.copied ∧ ((m.plugin.offer cx value false).1.lastLocal = some (hash X v) ∨
      ((m.report value).after (m.plugin.offer cx value false)).volunteered.length +
        (m.report value).unreported.length < m.copied.length) := by
  have hunsent : (m.unreported.erase value).length ≤ m.unreported.length := List.length_erase_le
  have hfew := h.few
  rcases m.plugin.offer_cases cx value with ⟨hquiet, hkept⟩ | ⟨hsize, hremote, -, hlocal, -⟩
  · simp only [Machine.after, Machine.report, hquiet, hsends, List.filter_nil, List.append_nil,
      hkept] at hv ⊢
    split at hv
    · rename_i hcopy
      cases hv
      have herase := List.length_erase_of_mem hcopy
      have hpos := List.length_pos_of_mem hcopy
      exact ⟨h.copies value hcopy, .inr (by omega)⟩
    · obtain ⟨hcopied, hspent⟩ := h.again v hv
      exact ⟨hcopied, hspent.imp id fun hlt => by omega⟩
  · have hcopied := h.due_of_told hdue hsize hremote
    have hsame : v = value := by
      simp only [Machine.report] at hv
      split at hv
      · cases hv
        rfl
      · rename_i hcopy
        rw [hcopied.resolve_left hcopy] at hv
        cases hv
        rfl
    subst hsame
    exact ⟨hcopied.elim (h.copies v) fun hagain => (h.again v hagain).1, .inl hlocal⟩

omit hdue in
/-- A report takes the value out of the remote slot, and no other. -/
theorem Accounted.report_echo {v : Bytes} (hv : v ∈ (m.report value).applied) :
    (m.plugin.offer cx value false).1.lastRemote = some (hash X v) := by
  obtain ⟨hv, hother⟩ := Option.mem_filter_iff.mp hv
  have hother : hash X v ≠ hash X value := of_decide_eq_true hother
  have hremote := h.echo v hv
  rcases m.plugin.offer_lastRemote cx value with hsame | hspent
  · exact hsame.trans hremote
  · rw [hremote, Option.some.injEq] at hspent
    exact absurd hspent hother

theorem Accounted.report (hsends : cx.sends = []) (heffects : cx.effects = []) :
    ((m.report value).after (m.plugin.offer cx value false)).Accounted peer where
  connected := (m.plugin.offer_connected cx value false).trans h.connected
  copies v hv := h.copies v (List.mem_of_mem_erase hv)
  few := h.report_few hdue hsends
  again _ hv := h.report_again hdue hsends hv
  echo v hv := by
    have hwritten : (m.plugin.offer cx value false).2.1.written = [] := by
      rw [Cx.written, m.plugin.offer_effects, heffects]
      rfl
    rw [Machine.after, hwritten] at hv
    exact h.report_echo hv

end Report

end Machine
end Clipboard

namespace Clipboards
variable {who : Bool → DeviceId} {serves : Bool → EffectSet} {d : Clipboards X} {i : Input}

def Accounted (who : Bool → DeviceId) (d : Clipboards X) : Prop :=
  ∀ here, (d.machines here).Accounted (who (!here))

theorem joined_accounted : (joined who serves X).Accounted who := by
  intro here
  exact
    { connected := rfl
      copies := fun _ h => h
      few := le_rfl
      again := fun _ h => nomatch h
      echo := fun _ h => nomatch h }

theorem Accounted.update {ms : Bool → Machine X} {wire : Bool → List PendingSend} {here : Bool}
    {m : Machine X} (h : Accounted who ⟨ms, wire⟩) (hm : m.Accounted (who (!here)))
    (wire' : Bool → List PendingSend) : Accounted who ⟨Function.update ms here m, wire'⟩ := by
  intro there
  by_cases hsame : there = here
  · subst hsame
    simpa using hm
  · simpa [hsame] using h there

theorem Accounted.step (h : d.Accounted who) (ok : d.Timely i) :
    (step who serves d i).Accounted who := by
  unfold Clipboards.step
  cases hwhat : i.what with
  | copy value => exact Accounted.update h ((h i.here).copy value) _
  | report value =>
    dsimp only
    split
    · rename_i hshown
      have hdue := ok value (by rw [hwhat]; rfl) hshown
      unfold perform
      dsimp only
      rw [Function.update_self, Function.update_idem]
      exact Accounted.update h ((h i.here).report hdue rfl rfl) _
    · exact h
  | deliver id =>
    dsimp only
    split
    · exact h
    · exact Accounted.update h ((h i.here).message rfl rfl _) _

theorem Accounted.settles (h : d.Accounted who) (ok : d.Timely i) : d.Settles who serves i where
  own value hvalue hshown hforwards := by
    have hm := h i.here
    rcases (d.machines i.here).plugin.offer_cases (cx serves i) value with
      ⟨hquiet, -⟩ | ⟨hsize, hremote, -⟩
    · refine absurd ?_ hforwards
      exact congrArg (List.filter (·.Volunteers)) hquiet
    · rcases hm.due_of_told (ok value hvalue hshown) hsize hremote with hcopy | hagain
      · exact hm.copies value hcopy
      · exact (hm.again value hagain).1
  few := by
    have hafter : (Clipboards.step who serves d i).Accounted who := h.step ok
    have htrue := (hafter true).few
    have hfalse := (hafter false).few
    unfold volunteered copied
    omega

/-- While every report is due, nothing but the users' copies is forwarded, and no more is shared
unasked than they copied. -/
theorem timely_reports_settle (who : Bool → DeviceId) (serves : Bool → EffectSet) (is : List Input)
    (h : Lib.Along (step who serves) (fun d i => d.Timely i) (joined who serves X) is) :
    Lib.Along (step who serves) (Settles who serves) (joined who serves X) is :=
  h.along_of_inv (I := Accounted who) (fun _ _ => Accounted.step) (fun _ _ => Accounted.settles)
    joined_accounted

section Runs

def neighbours (here : Bool) : DeviceId := if here then ⟨"desk"⟩ else ⟨"phone"⟩

def clipboardHosts (_ : Bool) : EffectSet := EffectSet.new [.clipboard]

def onDesk (what : Occurrence) : Input := ⟨true, 0, 0, what⟩

def onPhone (what : Occurrence) : Input := ⟨false, 0, 0, what⟩

/-- The phone's user copies twice, and both copies are shared and applied. -/
def copiedTwice : List Input :=
  [onPhone (.copy [1]), onPhone (.report [1]), onPhone (.copy [2]), onPhone (.report [2]),
    onDesk (.deliver 1), onDesk (.deliver 2)]

/-- The desk reports what it applied last, once; the phone reports its last copy again. -/
theorem echoes_settle :
    Lib.Along (step neighbours clipboardHosts) (Settles neighbours clipboardHosts)
      (joined neighbours clipboardHosts Mock.crates)
      (copiedTwice ++ [onDesk (.report [2]), onPhone (.report [2])]) :=
  timely_reports_settle neighbours clipboardHosts _ (by decide +kernel)

/-- The desk reports the first value when the second is there already, and shares it as its own. -/
theorem late_report_is_forwarded :
    ¬ Lib.Along (step neighbours clipboardHosts) (Settles neighbours clipboardHosts)
      (joined neighbours clipboardHosts Mock.crates) (copiedTwice ++ [onDesk (.report [1])]) := by
  intro h
  have hlast := (Lib.Along.append.mp h).2.1
  have hcopied := hlast.own [1] rfl (by decide +kernel) (by decide +kernel)
  exact absurd hcopied (by decide +kernel)

end Runs
end Clipboards
end Acrylius
