import Acrylius.Core.Screen

/-! What a browse of the local network means to the core, and whose withdrawal takes a machine off
the list (`tcp.rs`, `discovery_event`). -/
namespace Acrylius
open Proto Std

variable {X : Crates} {P : Type}

/-- An IP address, as the standard library prints it. -/
inductive IpAddr where
  | v4 (text : String)
  | v6 (text : String)

def IpAddr.isIpv4 : IpAddr → Bool
  | .v4 _ => true
  | .v6 _ => false

/-- `SocketAddr::to_string`. -/
def IpAddr.withPort (port : UInt16) : IpAddr → String
  | .v4 text => text ++ ":" ++ port.toNat.repr
  | .v6 text => "[" ++ text ++ "]:" ++ port.toNat.repr

/-- A resolved mDNS service, as far as it is looked at. -/
structure ResolvedService where
  fullname : String
  /-- In the order an iteration gives them. -/
  addresses : List IpAddr
  port : UInt16
  /-- `get_property_val_str`. -/
  property : String → Option String

inductive ServiceEvent where
  | serviceResolved (info : ResolvedService)
  | serviceRemoved (ty fullname : String)
  | other

/-- What a browse event means to the core, if anything, beside the memory that makes a withdrawal
possible. -/
def discoveryEvent (id : TransportId) (mine : Fingerprint) (reported : ExtTreeMap String String) :
    ServiceEvent → ExtTreeMap String String × Option Event
  | .serviceRemoved _ fullname =>
    -- Only if we ever reported it.
    match reported[fullname]? with
    | some addr => (reported.erase fullname, some (.undiscovered id addr))
    | none => (reported, none)
  | .serviceResolved info =>
    let fp := (info.property "fp").bind fun s => (Fingerprint.parse s).toOption
    if fp = some mine then (reported, none)
    else
      match (info.addresses.find? (·.isIpv4)).orElse fun _ => info.addresses.head? with
      | none => (reported, none)
      | some addr =>
        let sa := addr.withPort info.port
        (reported.insert info.fullname sa, some (.discovered id {
          fingerprint := fp
          name := (info.property "n").getD ""
          addr := sa
          pairing := info.property "pair" = some "1" }))
  | .other => (reported, none)

/-- What an mDNS event reports to the core: an instance, a machine, and the address it is at. -/
def ServiceEvent.reports (id : TransportId) (mine : Fingerprint) (e : ServiceEvent) :
    Option (String × Fingerprint × String) :=
  match e, (discoveryEvent id mine ∅ e).2 with
  | .serviceResolved info, some (.discovered _ peer) =>
    peer.fingerprint.map fun fp => (info.fullname, fp, peer.addr)
  | _, _ => none

/-- Where the transport can reach the machine, as far as discovery goes. -/
def Core.routeOf (c : Core X P) (id : TransportId) (fp : Fingerprint) : Option String :=
  (c.seen[fp]?).bind fun g => g.routes[id]?

namespace Sighting
variable {g : Sighting} {transport : TransportId} {addr : String}

/-- A withdrawal takes away the route that has its address, and no other. -/
theorem without_route :
    ((g.without transport addr).bind fun g => g.routes[transport]?) =
      if g.routes[transport]? = some addr then none else g.routes[transport]? := by
  by_cases hroute : g.routes[transport]? = some addr
  · rw [without_of_route hroute, if_pos hroute]
    split
    · rfl
    · simp
  · rw [without_of_other hroute, if_neg hroute]
    rfl

end Sighting

namespace Core
variable [Plugin P] {c : Core X P} {i : Input X} {id : TransportId}

/-- A sighting sets the route of its machine. -/
theorem step_routeOf_discovered {peer : DiscoveredPeer} {fp : Fingerprint}
    (he : i.event = .discovered id peer) (hfp : peer.fingerprint = some fp) (hroom : ¬ c.Wipes fp)
    (fp' : Fingerprint) :
    (c.step i).routeOf id fp' = if fp' = fp then some peer.addr else c.routeOf id fp' := by
  have hstep : c.step i = ((c.start i).onDiscovered i.now.monotonicMs id peer).core := by
    unfold step exec
    rw [he]
    rfl
  obtain ⟨g, -, hroutes, hseen, -⟩ := Exec.onDiscovered_tells (c.start i)
    i.now.monotonicMs id hfp ∅
  have hroom' : ¬ (c.start i).core.Wipes fp := hroom
  unfold routeOf
  rw [hstep, hseen]
  by_cases hfp' : fp' = fp
  · rw [if_pos hfp', if_pos hfp', Option.bind_some, hroutes]
    exact ExtTreeMap.getElem?_insert_self
  · rw [if_neg hfp', if_neg hfp', if_neg hroom']
    rfl

/-- It puts its machine on the list and takes no other off. -/
theorem step_seen_discovered {peer : DiscoveredPeer} {fp : Fingerprint}
    (he : i.event = .discovered id peer) (hfp : peer.fingerprint = some fp) (hroom : ¬ c.Wipes fp)
    (fp' : Fingerprint) : fp' ∈ (c.step i).seen ↔ fp' = fp ∨ fp' ∈ c.seen := by
  have hstep : c.step i = ((c.start i).onDiscovered i.now.monotonicMs id peer).core := by
    unfold step exec
    rw [he]
    rfl
  obtain ⟨g, -, -, hseen, -⟩ := Exec.onDiscovered_tells (c.start i)
    i.now.monotonicMs id hfp ∅
  have hroom' : ¬ (c.start i).core.Wipes fp := hroom
  rw [ExtTreeMap.mem_iff_isSome_getElem?, hstep, hseen, ExtTreeMap.mem_iff_isSome_getElem?]
  by_cases hfp' : fp' = fp
  · simp [hfp']
  · rw [if_neg hfp', if_neg hroom', or_iff_right hfp']
    rfl

/-- A sighting of nobody in particular does nothing. -/
theorem step_anonymous {peer : DiscoveredPeer} (he : i.event = .discovered id peer)
    (hfp : peer.fingerprint = none) : (c.step i).seen = c.seen := by
  unfold step exec
  rw [he]
  change ((c.start i).onDiscovered i.now.monotonicMs id peer).core.seen = c.seen
  unfold Exec.onDiscovered
  rw [hfp]
  rfl

theorem step_seen_undiscovered {addr : String} (he : i.event = .undiscovered id addr)
    (fp : Fingerprint) :
    (c.step i).seen[fp]? = (c.seen[fp]?).bind fun g => g.without id addr := by
  have hstep : c.step i = ((c.start i).onUndiscovered id addr).core := by
    unfold step exec
    rw [he]
    rfl
  obtain ⟨-, hseen, -⟩ := (c.start i).onUndiscovered_tells id addr ∅
  rw [hstep, hseen]
  rfl

theorem step_routeOf_undiscovered {addr : String} (he : i.event = .undiscovered id addr)
    (fp : Fingerprint) : (c.step i).routeOf id fp =
      if c.routeOf id fp = some addr then none else c.routeOf id fp := by
  unfold routeOf
  rw [step_seen_undiscovered he]
  cases c.seen[fp]? with
  | none => rfl
  | some g => exact Sighting.without_route

theorem mem_seen_undiscovered {addr : String} (he : i.event = .undiscovered id addr)
    {fp : Fingerprint} (hmem : fp ∈ c.seen) (hroute : c.routeOf id fp ≠ some addr) :
    fp ∈ (c.step i).seen := by
  rw [ExtTreeMap.mem_iff_isSome_getElem?] at hmem ⊢
  obtain ⟨g, hg⟩ := Option.isSome_iff_exists.mp hmem
  have hother : g.routes[id]? ≠ some addr := by
    unfold routeOf at hroute
    rwa [hg] at hroute
  rw [step_seen_undiscovered he, hg, Option.bind_some, Sighting.without_of_other hother]
  rfl

end Core

/-- A core fed by a browse of the network, with the instance that last reported each machine. The
last is history: nothing reads it. -/
structure Browsing (X : Crates) (P : Type) where
  core : Core X P
  reported : ExtTreeMap String String
  reporter : ExtTreeMap Fingerprint String

structure Browsed (X : Crates) where
  now : Now
  seed : X.Seed
  event : ServiceEvent

namespace Browsing
variable (id : TransportId) (mine : Fingerprint) [Plugin P]

def step (b : Browsing X P) (i : Browsed X) : Browsing X P where
  core := match (discoveryEvent id mine b.reported i.event).2 with
    | some event => (b.core.handle { now := i.now, seed := i.seed, event }).1
    | none => b.core
  reported := (discoveryEvent id mine b.reported i.event).1
  reporter := match i.event.reports id mine with
    | some (instance_, fp, _) => b.reporter.insert fp instance_
    | none => b.reporter

def start (b : CoreBuilder X P) : Browsing X P := ⟨b.build, ∅, ∅⟩

/-- A route leaves only with the instance that last reported its machine, or for another address of
it; and taking an instance away takes no machine off the list that another one reported last. -/
structure PerMachine (b : Browsing X P) (i : Browsed X) : Prop where
  leaves : ∀ fp addr, b.core.routeOf id fp = some addr →
    (b.step id mine i).core.routeOf id fp ≠ some addr →
    (∃ ty name, i.event = .serviceRemoved ty name ∧ b.reporter[fp]? = some name) ∨
    ∃ name addr', i.event.reports id mine = some (name, fp, addr') ∧ addr' ≠ addr
  stays : ∀ ty name (fp : Fingerprint), i.event = .serviceRemoved ty name → fp ∈ b.core.seen →
    b.reporter[fp]? ≠ some name → fp ∈ (b.step id mine i).core.seen

/-- No machine that another instance reported last is at the address an instance is removed with. -/
def Alone (b : Browsing X P) (i : Browsed X) : Prop :=
  ∀ ty name addr fp, i.event = .serviceRemoved ty name → b.reported[name]? = some addr →
    b.core.routeOf id fp = some addr → b.reporter[fp]? = some name

variable {id mine} {b : Browsing X P} {i : Browsed X}

omit [Plugin P] in
theorem alone_iff : b.Alone id i ↔ ∀ e ∈ (match i.event with
      | .serviceRemoved _ name => (b.reported[name]?).map fun addr => (name, addr)
      | _ => none), ∀ fp ∈ b.core.seen.keys,
    b.core.routeOf id fp = some e.2 → b.reporter[fp]? = some e.1 := by
  constructor
  · intro h e he fp _ hroute
    cases hi : i.event with
    | serviceRemoved ty name =>
      rw [hi, Option.mem_def] at he
      obtain ⟨addr, haddr, rfl⟩ := Option.map_eq_some_iff.mp he
      exact h ty name addr fp hi haddr hroute
    | _ =>
      rw [hi] at he
      cases he
  · intro h ty name addr fp hi haddr hroute
    rw [hi] at h
    dsimp only at h
    rw [haddr] at h
    refine h (name, addr) rfl fp ?_ hroute
    rw [ExtTreeMap.mem_keys, ExtTreeMap.mem_iff_isSome_getElem?]
    obtain ⟨g, hg, -⟩ := Option.bind_eq_some_iff.mp hroute
    rw [hg]
    rfl

instance (b : Browsing X P) (i : Browsed X) : Decidable (b.Alone id i) :=
  decidable_of_iff' _ alone_iff

omit [Plugin P] in
/-- A resolved service that says something tells it whatever was reported before. -/
theorem reports_cases (b : Browsing X P) (id : TransportId) (mine : Fingerprint)
    {info : ResolvedService} (hi : i.event = .serviceResolved info) :
    (∃ peer, (discoveryEvent id mine b.reported i.event).2 = some (.discovered id peer) ∧
      i.event.reports id mine = peer.fingerprint.map fun fp => (info.fullname, fp, peer.addr)) ∨
    (discoveryEvent id mine b.reported i.event).2 = none ∧ i.event.reports id mine = none := by
  rw [hi]
  unfold ServiceEvent.reports
  unfold discoveryEvent
  dsimp only
  split
  · exact .inr ⟨rfl, rfl⟩
  · split
    · exact .inr ⟨rfl, rfl⟩
    · exact .inl ⟨_, rfl, rfl⟩

theorem step_core_some {e : Event} (h : (discoveryEvent id mine b.reported i.event).2 = some e) :
    (b.step id mine i).core = b.core.step { now := i.now, seed := i.seed, event := e } := by
  unfold step
  rw [h]
  rfl

theorem step_core_none (h : (discoveryEvent id mine b.reported i.event).2 = none) :
    (b.step id mine i).core = b.core := by
  unfold step
  rw [h]

/-- Where nothing is removed, a route leaves only for another address of its machine. -/
theorem perMachine_resolved {info : ResolvedService} (hi : i.event = .serviceResolved info)
    (hroom : ∀ name fp addr, i.event.reports id mine = some (name, fp, addr) →
      ¬ b.core.Wipes fp) : b.PerMachine id mine i := by
  constructor
  · intro fp addr hroute hgone
    right
    rcases b.reports_cases id mine hi with ⟨peer, hev, hrep⟩ | ⟨hev, -⟩
    · rw [step_core_some hev] at hgone
      cases hfp : peer.fingerprint with
      | none =>
        have hsame := Core.step_anonymous (c := b.core)
          (i := { now := i.now, seed := i.seed, event := .discovered id peer }) rfl hfp
        unfold Core.routeOf at hgone hroute
        rw [hsame] at hgone
        exact absurd hroute hgone
      | some fp' =>
        rw [hfp, Option.map_some] at hrep
        have hset := Core.step_routeOf_discovered (c := b.core)
          (i := { now := i.now, seed := i.seed, event := .discovered id peer }) rfl hfp
          (hroom _ _ _ hrep) fp
        rw [hset] at hgone
        by_cases hsame : fp = fp'
        · rw [if_pos hsame] at hgone
          refine ⟨_, _, hsame ▸ hrep, ?_⟩
          exact fun h => hgone (congrArg some h)
        · rw [if_neg hsame] at hgone
          exact absurd hroute hgone
    · rw [step_core_none hev] at hgone
      exact absurd hroute hgone
  · intro ty name fp h
    rw [hi] at h
    cases h

/-- An instance that was never reported changes nothing. -/
theorem perMachine_unknown {ty name : String} (hi : i.event = .serviceRemoved ty name)
    (hrep : b.reported[name]? = none) : b.PerMachine id mine i := by
  have hev : (discoveryEvent id mine b.reported i.event).2 = none := by
    rw [hi, discoveryEvent, hrep]
  have hcore := step_core_none hev
  constructor
  · intro fp addr hroute hgone
    rw [hcore] at hgone
    exact absurd hroute hgone
  · intro _ _ fp _ hmem _
    rwa [hcore]

/-- A reported instance is removed: every machine whose route is its address loses it. -/
theorem perMachine_removed_iff {ty name addr : String} (hi : i.event = .serviceRemoved ty name)
    (hrep : b.reported[name]? = some addr) : b.PerMachine id mine i ↔ b.Alone id i := by
  have hev : (discoveryEvent id mine b.reported i.event).2 = some (.undiscovered id addr) := by
    rw [hi, discoveryEvent, hrep]
  have hcore := step_core_some hev
  have hroutes := Core.step_routeOf_undiscovered (c := b.core)
    (i := { now := i.now, seed := i.seed, event := .undiscovered id addr }) rfl
  constructor
  · intro h ty' name' addr' fp hev' hname hroute
    rw [hi] at hev'
    cases hev'
    rw [hrep] at hname
    cases hname
    have hgone : (b.step id mine i).core.routeOf id fp ≠ some addr := by
      rw [hcore, hroutes fp, if_pos hroute]
      nofun
    rcases h.leaves fp addr hroute hgone with ⟨ty', name', h', hlast⟩ | ⟨_, _, hreports, -⟩
    · rw [hi] at h'
      cases h'
      exact hlast
    · rw [hi] at hreports
      cases hreports
  · intro halone
    constructor
    · intro fp addr' hroute hgone
      left
      rw [hcore, hroutes fp] at hgone
      by_cases haddr : b.core.routeOf id fp = some addr
      · exact ⟨ty, name, hi, halone ty name addr fp hi hrep haddr⟩
      · rw [if_neg haddr] at hgone
        exact absurd hroute hgone
    · intro ty' name' fp hev' hmem hlast
      rw [hi] at hev'
      cases hev'
      rw [hcore]
      refine Core.mem_seen_undiscovered rfl hmem fun haddr => hlast ?_
      exact halone ty name addr fp hi hrep haddr

/-- A step is right about every machine exactly if the instance it removes, if any, is alone at its
address. -/
theorem perMachine_iff (hroom : ∀ name fp addr, i.event.reports id mine = some (name, fp, addr) →
    ¬ b.core.Wipes fp) : b.PerMachine id mine i ↔ b.Alone id i := by
  cases hi : i.event with
  | other =>
    have hcore : (b.step id mine i).core = b.core := step_core_none (by rw [hi]; rfl)
    refine iff_of_true ⟨fun fp addr hroute hgone => ?_, ?_⟩ ?_
    · rw [hcore] at hgone
      exact absurd hroute hgone
    · intro ty name fp h
      rw [hi] at h
      cases h
    · intro ty name addr fp h
      rw [hi] at h
      cases h
  | serviceResolved info =>
    refine iff_of_true (perMachine_resolved hi hroom) ?_
    intro ty name addr fp h
    rw [hi] at h
    cases h
  | serviceRemoved ty name =>
    cases hrep : b.reported[name]? with
    | none =>
      refine iff_of_true (perMachine_unknown hi hrep) ?_
      intro ty' name' addr fp h hname
      rw [hi] at h
      cases h
      rw [hrep] at hname
      cases hname
    | some addr => exact perMachine_removed_iff hi hrep

variable {b : Browsing X P} {i : Browsed X} {seen : List Fingerprint}

/-- Only a reported machine gets onto the list. -/
theorem seen_subset (hi : ∀ name fp addr, i.event.reports id mine = some (name, fp, addr) → fp ∈ seen)
    (hroom : ∀ name fp addr, i.event.reports id mine = some (name, fp, addr) → ¬ b.core.Wipes fp)
    (hb : ∀ fp ∈ b.core.seen, fp ∈ seen) : ∀ fp ∈ (b.step id mine i).core.seen, fp ∈ seen := by
  have idle : (discoveryEvent id mine b.reported i.event).2 = none →
      ∀ fp ∈ (b.step id mine i).core.seen, fp ∈ seen := by
    intro hev
    rw [step_core_none hev]
    exact hb
  cases he : i.event with
  | other => exact idle (by rw [he]; rfl)
  | serviceResolved info =>
    rcases b.reports_cases id mine he with ⟨peer, hev, hrep⟩ | ⟨hev, -⟩
    · rw [step_core_some hev]
      cases hfp : peer.fingerprint with
      | none =>
        have hsame := Core.step_anonymous (c := b.core)
          (i := { now := i.now, seed := i.seed, event := .discovered id peer }) rfl hfp
        rw [hsame]
        exact hb
      | some fp' =>
        rw [hfp, Option.map_some] at hrep
        intro fp hmem
        have hset := Core.step_seen_discovered (c := b.core)
          (i := { now := i.now, seed := i.seed, event := .discovered id peer }) rfl hfp
          (hroom _ _ _ hrep) fp
        rcases hset.mp hmem with rfl | hold
        · exact hi _ _ _ hrep
        · exact hb fp hold
    · exact idle hev
  | serviceRemoved ty name =>
    cases hrep : b.reported[name]? with
    | none => exact idle (by rw [he, discoveryEvent, hrep])
    | some addr =>
      have hev : (discoveryEvent id mine b.reported i.event).2 = some (.undiscovered id addr) := by
        rw [he, discoveryEvent, hrep]
      rw [step_core_some hev]
      intro fp hmem
      have hseen := Core.step_seen_undiscovered (c := b.core)
        (i := { now := i.now, seed := i.seed, event := .undiscovered id addr }) rfl fp
      apply hb
      rw [ExtTreeMap.mem_iff_isSome_getElem?, hseen] at hmem
      rw [ExtTreeMap.mem_iff_isSome_getElem?]
      obtain ⟨g', hg'⟩ := Option.isSome_iff_exists.mp hmem
      obtain ⟨g, hg, -⟩ := Option.bind_eq_some_iff.mp hg'
      rw [hg]
      rfl

omit [Plugin P] in
/-- A list of few machines is never wiped. -/
theorem not_wipes (hfew : seen.dedup.length < maxSeen) (hb : ∀ fp ∈ b.core.seen, fp ∈ seen)
    (fp : Fingerprint) : ¬ b.core.Wipes fp := by
  intro hwipes
  have hsub : b.core.seen.keys ⊆ seen.dedup := fun fp hmem =>
    List.mem_dedup.mpr (hb fp (ExtTreeMap.mem_keys.mp hmem))
  have hle := (List.subperm_of_subset ExtTreeMap.nodup_keys hsub).length_le
  rw [ExtTreeMap.length_keys] at hle
  have hfull := hwipes.1
  omega

variable (id mine)

def prints (is : List (Browsed X)) : List Fingerprint :=
  is.filterMap fun i => (i.event.reports id mine).map (·.2.1)

/-- Withdrawals are per machine all along a browse exactly if every removed instance is alone at its
address. -/
theorem perMachine_along_iff (builder : CoreBuilder X P) (is : List (Browsed X))
    (hfew : (prints id mine is).dedup.length < maxSeen) :
    Lib.Along (step id mine) (PerMachine id mine) (start builder) is ↔
      Lib.Along (step id mine) (Alone id) (start builder) is := by
  have hin : Lib.Along (step id mine) (fun _ i => ∀ name fp addr,
      i.event.reports id mine = some (name, fp, addr) → fp ∈ prints id mine is)
      (start builder) is := by
    apply Lib.along_of_mem
    intro i hmem name fp addr hrep
    refine List.mem_filterMap.mpr ⟨i, hmem, ?_⟩
    rw [hrep]
    rfl
  -- The list holds reported machines only, so it always has room.
  refine Lib.Along.iff_of_inv (I := fun b => ∀ fp ∈ b.core.seen, fp ∈ prints id mine is) ?_ ?_ hin ?_
  · intro b i hb _
    exact perMachine_iff fun _ fp _ _ => not_wipes hfew hb fp
  · intro b i hb hi _
    exact seen_subset hi (fun _ fp _ _ => not_wipes hfew hb fp) hb
  · intro fp hmem
    simp [start, CoreBuilder.build] at hmem

end Browsing

def Mock.advertised (instance_ : String) (n : UInt8) (ip : String) : Browsed Mock.crates where
  now := ⟨0, 0⟩
  seed := (0 : UInt8)
  event := .serviceResolved {
    fullname := instance_
    addresses := [.v4 ip]
    port := 1971
    property := fun
      | "fp" => some (Fingerprint.of Mock.crates (Mock.device n).publicKey).str
      | "n" => some "phone"
      | _ => none }

def Mock.withdrawn (instance_ : String) : Browsed Mock.crates :=
  ⟨⟨0, 0⟩, (0 : UInt8), .serviceRemoved "_acrylius._tcp.local." instance_⟩

theorem phone_leaves : Lib.Along
    (Browsing.step 1 (Fingerprint.of Mock.crates (Mock.device 1).publicKey))
    (Browsing.PerMachine 1 (Fingerprint.of Mock.crates (Mock.device 1).publicKey))
    (Browsing.start (Mock.laptop [SharePlugin.default Mock.crates]))
    [Mock.advertised "a" 2 "10.0.0.9", Mock.withdrawn "a"] := by
  have hfew : (Browsing.prints 1 (Fingerprint.of Mock.crates (Mock.device 1).publicKey)
      [Mock.advertised "a" 2 "10.0.0.9", Mock.withdrawn "a"]).dedup.length < maxSeen := by
    decide +kernel
  exact (Browsing.perMachine_along_iff _ _ _ _ hfew).mpr (by decide +kernel)

/-- A machine takes over the address of another, whose instance is then removed. -/
theorem reused_address_withdrawn : ¬ ∀ is : List (Browsed Mock.crates),
    (Browsing.prints 1 (Fingerprint.of Mock.crates (Mock.device 1).publicKey) is).dedup.length <
      maxSeen →
    Lib.Along (Browsing.step 1 (Fingerprint.of Mock.crates (Mock.device 1).publicKey))
      (Browsing.PerMachine 1 (Fingerprint.of Mock.crates (Mock.device 1).publicKey))
      (Browsing.start (Mock.laptop [SharePlugin.default Mock.crates])) is := by
  intro h
  have hall := h [Mock.advertised "a" 2 "10.0.0.9", Mock.advertised "b" 3 "10.0.0.9",
    Mock.withdrawn "a"] (by decide +kernel)
  have hstays := hall.2.2.1.stays "_acrylius._tcp.local." "a"
    (Fingerprint.of Mock.crates (Mock.device 3).publicKey) rfl (by decide +kernel)
    (by decide +kernel)
  revert hstays
  decide +kernel

end Acrylius
