import Acrylius.Core.Watermark

/-! The host's store, and a core that is stopped and started over it (`store.rs`). -/
namespace Acrylius
open Proto Std

variable {X : Crates} {P : Type}

structure MemoryStore where
  entries : ExtTreeMap String Bytes

namespace MemoryStore

def put (s : MemoryStore) (key : String) : Option Bytes → MemoryStore
  | some v => ⟨s.entries.insert key v⟩
  | none => ⟨s.entries.erase key⟩

/-- The records under `peer/` that still decode. -/
def loadPeers (X : Crates) (s : MemoryStore) : List PeerRecord :=
  (s.entries.toList.filter fun e => "peer/".toList.isPrefixOf e.1.toList).filterMap fun e =>
    X.decode PeerRecord e.2

/-- Carry out the `Persist` actions of one call, in order. -/
def apply (s : MemoryStore) (as : List Action) : MemoryStore :=
  (stored as).foldl (fun s e => s.put e.1 e.2) s

/-- The store is one that a core wrote: each entry is a record under its own id. -/
def Persisted (X : Crates) (s : MemoryStore) : Prop :=
  ∀ key v, s.entries[key]? = some v → ∃ (p : DeviceId) (r : PeerRecord),
    key = "peer/" ++ p.str ∧ v = X.encode r ∧ r.id X = some p ∧ r.deviceId = p.str

/-- The store holds exactly the records of the trust store. -/
structure Mirrors (X : Crates) (s : MemoryStore) (peers : ExtTreeMap DeviceId PeerRecord) : Prop where
  written : ∀ (p : DeviceId) (r : PeerRecord), peers[p]? = some r →
    s.entries["peer/" ++ p.str]? = some (X.encode r) ∧ r.id X = some p ∧ r.deviceId = p.str
  known : ∀ (key : String) (v : Bytes), s.entries[key]? = some v →
    ∃ (p : DeviceId) (r : PeerRecord), key = "peer/" ++ p.str ∧ peers[p]? = some r

end MemoryStore

/-- A daemon: the core, and the store its `Persist` actions go to before the next event. -/
structure Host (X : Crates) (P : Type) where
  core : Core X P
  store : MemoryStore

/-- What can happen to it: an event, or a crash and a restart with some configuration. -/
inductive Happening (X : Crates) (P : Type) where
  | event (i : Core.Input X)
  | restart (b : CoreBuilder X P)

namespace Host
variable [Plugin P]

def boot (b : CoreBuilder X P) (store : MemoryStore) : Host X P where
  core := { b with peers := store.loadPeers X }.build
  store := store

def step (h : Host X P) : Happening X P → Host X P
  | .event i => ⟨h.core.step i, h.store.apply (h.core.handle i).2.actions⟩
  | .restart b => boot b h.store

def run (h : Host X P) (hs : List (Happening X P)) : Host X P := Lib.run step h hs

end Host

theorem peerKey_injective {p q : DeviceId} (h : "peer/" ++ p.str = "peer/" ++ q.str) : p = q := by
  cases p; cases q
  simpa using h

namespace MemoryStore
variable {s : MemoryStore} {peers : ExtTreeMap DeviceId PeerRecord}

theorem mem_loadPeers (h : s.Persisted X) {r : PeerRecord} : r ∈ s.loadPeers X ↔
    ∃ p : DeviceId, s.entries["peer/" ++ p.str]? = some (X.encode r) ∧ r.id X = some p ∧
      r.deviceId = p.str := by
  simp only [loadPeers, List.mem_filterMap, List.mem_filter, Prod.exists,
    ExtTreeMap.mem_toList_iff_getElem?_eq_some]
  constructor
  · rintro ⟨key, v, ⟨hv, -⟩, hdec⟩
    obtain ⟨p, r', rfl, rfl, hid, hname⟩ := h key v hv
    rw [Crates.decode_encode, Option.some.injEq] at hdec
    subst hdec
    exact ⟨p, hv, hid, hname⟩
  · rintro ⟨p, hv, -, -⟩
    refine ⟨_, _, ⟨hv, ?_⟩, Crates.decode_encode X r⟩
    simp [List.isPrefixOf]

/-- Restarting from a store that a core wrote restores exactly what it holds. -/
theorem mirrors_restored (h : s.Persisted X) :
    s.Mirrors X (CoreBuilder.restored X (s.loadPeers X)) where
  written p r hr := by
    obtain ⟨hmem, hid⟩ := Lib.index_some _ hr
    obtain ⟨p', hv, hid', hname⟩ := (mem_loadPeers h).mp hmem
    obtain rfl := Option.some.inj (hid'.symm.trans hid)
    exact ⟨hv, hid, hname⟩
  known key v hv := by
    obtain ⟨p, r, rfl, rfl, hid, hname⟩ := h key v hv
    refine ⟨p, r, rfl, Lib.index_of_unique _ ((mem_loadPeers h).mpr ⟨p, hv, hid, hname⟩) hid ?_⟩
    intro r' hmem hid'
    obtain ⟨p', hv', hid'', -⟩ := (mem_loadPeers h).mp hmem
    obtain rfl := Option.some.inj (hid''.symm.trans hid')
    have := congrArg (X.decode PeerRecord) (Option.some.inj (hv'.symm.trans hv))
    simpa using this

theorem Mirrors.persisted (h : s.Mirrors X peers) : s.Persisted X := by
  intro key v hv
  obtain ⟨p, r, rfl, hr⟩ := h.known key v hv
  obtain ⟨hw, hid, hname⟩ := h.written p r hr
  exact ⟨p, r, rfl, Option.some.inj (hv.symm.trans hw), hid, hname⟩

/-- Two trust stores with one mirror are one. -/
theorem Mirrors.unique {peers' : ExtTreeMap DeviceId PeerRecord} (h : s.Mirrors X peers)
    (h' : s.Mirrors X peers') : peers' = peers := by
  have sub : ∀ {ps qs : ExtTreeMap DeviceId PeerRecord}, s.Mirrors X ps → s.Mirrors X qs →
      ∀ {p : DeviceId} {r : PeerRecord}, ps[p]? = some r → qs[p]? = some r := by
    intro ps qs hps hqs p r hr
    obtain ⟨hv, -⟩ := hps.written p r hr
    obtain ⟨p', r', hkey, hr'⟩ := hqs.known _ _ hv
    obtain rfl := peerKey_injective hkey
    have henc := Option.some.inj (hv.symm.trans (hqs.written p r' hr').1)
    have hdec := congrArg (X.decode PeerRecord) henc
    rw [Crates.decode_encode, Crates.decode_encode, Option.some.injEq] at hdec
    exact hdec ▸ hr'
  refine ExtTreeMap.ext_getElem? fun p => Option.ext fun r => ?_
  exact ⟨sub h' h, sub h h'⟩

/-- Writing one record keeps the mirror. -/
theorem Mirrors.insert (h : s.Mirrors X peers) {p : DeviceId} {r : PeerRecord}
    (hid : r.id X = some p) (hname : r.deviceId = p.str) :
    (s.put ("peer/" ++ r.deviceId) (some (X.encode r))).Mirrors X (peers.insert p r) where
  written q r' hr := by
    dsimp only [put]
    rw [hname]
    rcases Lib.getElem?_of_insert hr with ⟨rfl, rfl⟩ | ⟨hne, hr⟩
    · exact ⟨ExtTreeMap.getElem?_insert_self, hid, hname⟩
    · rw [Lib.getElem?_insert_of_ne fun hkey => hne (peerKey_injective hkey)]
      exact h.written q r' hr
  known key v hv := by
    dsimp only [put] at hv
    rw [hname] at hv
    rcases Lib.getElem?_of_insert hv with ⟨rfl, -⟩ | ⟨hne, hv⟩
    · exact ⟨p, r, rfl, ExtTreeMap.getElem?_insert_self⟩
    · obtain ⟨q, r', rfl, hr⟩ := h.known key v hv
      refine ⟨q, r', rfl, ?_⟩
      rw [Lib.getElem?_insert_of_ne fun hq => hne (by rw [hq])]
      exact hr

theorem Mirrors.erase (h : s.Mirrors X peers) (p : DeviceId) :
    (s.put ("peer/" ++ p.str) none).Mirrors X (peers.erase p) where
  written q r hr := by
    obtain ⟨hne, hr⟩ := Lib.getElem?_of_erase hr
    dsimp only [put]
    rw [Lib.getElem?_erase_of_ne fun hkey => hne (peerKey_injective hkey)]
    exact h.written q r hr
  known key v hv := by
    obtain ⟨hne, hv⟩ := Lib.getElem?_of_erase hv
    obtain ⟨q, r, rfl, hr⟩ := h.known key v hv
    refine ⟨q, r, rfl, ?_⟩
    rw [Lib.getElem?_erase_of_ne fun hq => hne (by rw [hq])]
    exact hr

end MemoryStore

namespace Host
variable [Plugin P] {h : Host X P} {p : DeviceId}

/-- The store of a running daemon holds exactly what its core trusts. -/
structure Durable (h : Host X P) : Prop where
  pairing : h.core.PairingOrigin
  mirrors : h.store.Mirrors X h.core.peers

theorem boot_durable (b : CoreBuilder X P) {store : MemoryStore} (hs : store.Persisted X) :
    (boot b store).Durable :=
  ⟨CoreBuilder.pairingOrigin _, MemoryStore.mirrors_restored hs⟩

/-- Carrying out the `Persist` actions of an event keeps the store in step with the core. -/
theorem Durable.mirrors_step (hd : h.Durable) (i : Core.Input X) :
    (h.store.apply (h.core.handle i).2.actions).Mirrors X (h.core.step i).peers := by
  have hact : (h.core.handle i).2.actions = (h.core.exec i).actions := rfl
  unfold MemoryStore.apply
  rw [hact]
  rcases h.core.step_peers_cases i with ⟨hp, hs⟩ |
    ⟨_, _, peer, _, _, _, _, record, record', -, hacc, hp, hs⟩ |
    ⟨a, d, id, -, hw, hid, hp, hs⟩ | ⟨peer, -, hp, hs⟩ <;> rw [hp, hs]
  · exact hd.mirrors
  · obtain ⟨-, hid, hname⟩ := hd.mirrors.written peer record hacc.known
    refine hd.mirrors.insert ?_ ?_
    · rw [hacc.updated]; exact hid
    · rw [hacc.updated]; exact hname
  · obtain ⟨hs', hash, pk, ha⟩ := hd.pairing.waiting d a hw
    obtain rfl := Option.some.inj (ha.id_eq.symm.trans hid)
    exact hd.mirrors.insert hid ha.named
  · exact hd.mirrors.erase peer

theorem Durable.step (hd : h.Durable) : ∀ x : Happening X P, (h.step x).Durable
  | .event i => ⟨hd.pairing.step i, hd.mirrors_step i⟩
  | .restart b => boot_durable b hd.mirrors.persisted

/-- A restart loses nothing. -/
theorem Durable.restart_peers (hd : h.Durable) (b : CoreBuilder X P) :
    (h.step (.restart b)).core.peers = h.core.peers :=
  hd.mirrors.unique (hd.step (.restart b)).mirrors

def Pairs (h : Host X P) (p : DeviceId) : Happening X P → Prop
  | .event i => h.core.Stores i p
  | .restart _ => False

theorem Durable.floor_step {ts : ℕ} (hd : h.Durable) (hf : h.core.Floor p ts) :
    ∀ x : Happening X P, ¬ h.Pairs p x → (h.step x).core.Floor p ts
  | .event _, hx => hf.step hx
  | .restart b, _ => by
    intro r hr
    rw [hd.restart_peers] at hr
    exact hf r hr

theorem run_durable (b : CoreBuilder X P) {store : MemoryStore} (hs : store.Persisted X)
    (xs : List (Happening X P)) : ((boot b store).run xs).Durable :=
  Lib.run_inv (fun _ x h => h.step x) (boot_durable b hs) xs

theorem Durable.floor_run {ts : ℕ} (hd : h.Durable) (hf : h.core.Floor p ts)
    {xs : List (Happening X P)} (hxs : Lib.Along Host.step (fun h x => ¬ h.Pairs p x) h xs) :
    (h.run xs).core.Floor p ts := by
  refine (hxs.inv (I := fun h => h.Durable ∧ h.core.Floor p ts) ?_ ⟨hd, hf⟩).2
  rintro h x ⟨hd, hf⟩ hx
  exact ⟨hd.step x, hd.floor_step hf x hx⟩

/-- Each session with a device opens with a `Hello` close to the clock and later than every one
that opened a session since the pairing, whatever crashes and restarts lie in between. -/
theorem hellos_increase_across_restarts (b : CoreBuilder X P) (store : MemoryStore)
    (hstore : store.Persisted X) (pre : List (Happening X P)) (i : Core.Input X) (l : LinkId) :
    (∀ u : UpLink X, (((boot b store).run pre).step (.event i)).core.links[l]? = some (.up u) →
      (∀ v : UpLink X, ((boot b store).run pre).core.links[l]? ≠ some (.up v)) →
        ∃ hello, ((boot b store).run pre).core.Opens i l u.peer hello) ∧
    ∀ (p : DeviceId) (hello : Hello), ((boot b store).run pre).core.Opens i l p hello →
      (i.now.wallMs ≤ hello.tsMs + maxSkewMs ∧ hello.tsMs ≤ i.now.wallMs + maxSkewMs) ∧
      ∀ mid, Lib.Along step (fun h x => ¬ h.Pairs p x) (((boot b store).run pre).step (.event i))
          mid →
        ∀ (j : Core.Input X) (l' : LinkId) (hello' : Hello),
          ((boot b store).run (pre ++ .event i :: mid)).core.Opens j l' p hello' →
            hello.tsMs < hello'.tsMs := by
  refine ⟨fun u hu hnew => Core.opens_of_newly_up hu hnew, ?_⟩
  intro p hello hopens
  refine ⟨hopens.within_skew, ?_⟩
  intro mid hmid j l' hello' hopens'
  have hd := (run_durable b hstore pre).step (.event i)
  unfold run at hopens'
  rw [Lib.run_append, Lib.run_cons] at hopens'
  exact hopens'.above (hd.floor_run hopens.floor hmid)

/-- The phone is paired, calls, and calls again after the daemon was restarted. -/
theorem phone_hello_increases_across_restart : ∃ hello hello' p,
    ((boot (Mock.fresh (P := Unit) 1 []) ⟨∅⟩).run
      (Core.phoneConnects.map .event)).core.Opens (Core.phoneOpener 2) 2 p hello ∧
    ((boot (Mock.fresh (P := Unit) 1 []) ⟨∅⟩).run (Core.phoneConnects.map .event ++
      .event (Core.phoneOpener 2) :: [.restart (Mock.fresh 1 []),
        .event (Mock.at_ 0 0 (.linkUp 2 (.tcpLan 1) none))])).core.Opens
      (Mock.at_ 0 0 (.linkRecv 2 (Mock.openerFrame 5 1 (Mock.phoneHello 2)))) 2 p hello' ∧
    hello.tsMs < hello'.tsMs := by
  obtain ⟨hello, hopens⟩ := Core.opens_of_upPeer
    (c := ((boot (Mock.fresh (P := Unit) 1 []) ⟨∅⟩).run (Core.phoneConnects.map .event)).core)
    (i := Core.phoneOpener 2) (l := 2)
    (p := DeviceId.of Mock.crates (Mock.device 5).publicKey) (by decide +kernel) (by decide +kernel)
  obtain ⟨hello', hopens'⟩ := Core.opens_of_upPeer
    (c := ((boot (Mock.fresh (P := Unit) 1 []) ⟨∅⟩).run (Core.phoneConnects.map .event ++
      .event (Core.phoneOpener 2) :: [.restart (Mock.fresh 1 []),
        .event (Mock.at_ 0 0 (.linkUp 2 (.tcpLan 1) none))])).core)
    (i := Mock.at_ 0 0 (.linkRecv 2 (Mock.openerFrame 5 1 (Mock.phoneHello 2)))) (l := 2)
    (p := DeviceId.of Mock.crates (Mock.device 5).publicKey) (by decide +kernel) (by decide +kernel)
  refine ⟨hello, hello', _, hopens, hopens', ?_⟩
  have hempty : MemoryStore.Persisted Mock.crates ⟨∅⟩ := fun key v h => by simp at h
  refine ((hellos_increase_across_restarts (Mock.fresh 1 []) ⟨∅⟩ hempty _ _ _).2 _ _ hopens).2 _ ?_
    _ _ _ hopens'
  refine ⟨id, ?_, trivial⟩
  exact fun hs => by cases hs.1

def emitted (c : Core X P) : List (Core.Input X) → List Action
  | [] => []
  | i :: is => (c.handle i).2.actions ++ emitted (c.step i) is

theorem run_events (h : Host X P) (is : List (Core.Input X)) :
    h.run (is.map .event) = ⟨h.core.run is, h.store.apply (emitted h.core is)⟩ := by
  induction is generalizing h with
  | nil => rfl
  | cons i is ih =>
    have hrest := ih (h.step (.event i))
    have happly : ∀ as bs : List Action,
        h.store.apply (as ++ bs) = (h.store.apply as).apply bs := by
      intro as bs
      simp [MemoryStore.apply]
    rw [emitted, happly]
    exact hrest

/-- Folding all that a core persists over the store it started from gives, after every event,
exactly the encoded records of its trust store. -/
theorem persisted_store_mirrors_memory (b : CoreBuilder X P) (store : MemoryStore)
    (hstore : store.Persisted X) (is : List (Core.Input X)) (key : String) (v : Bytes) :
    (store.apply (emitted (boot b store).core is)).entries[key]? = some v ↔
      ∃ (p : DeviceId) (r : PeerRecord), ((boot b store).core.run is).peers[p]? = some r ∧
        key = "peer/" ++ p.str ∧ v = X.encode r := by
  have hd := run_durable b hstore (is.map .event)
  rw [run_events] at hd
  constructor
  · intro hv
    obtain ⟨p, r, rfl, hr⟩ := hd.mirrors.known key v hv
    obtain ⟨hw, -⟩ := hd.mirrors.written p r hr
    exact ⟨p, r, hr, rfl, Option.some.inj (hv.symm.trans hw)⟩
  · rintro ⟨p, r, hr, rfl, rfl⟩
    exact (hd.mirrors.written p r hr).1

/-- The phone is paired, and its record is what an empty store then holds. -/
theorem phone_is_persisted : ∃ (p : DeviceId) (r : PeerRecord),
    ((boot (Mock.fresh (P := Unit) 1 []) ⟨∅⟩).core.run Core.phoneConnects).peers[p]? = some r ∧
    (MemoryStore.apply ⟨∅⟩ (emitted (boot (Mock.fresh (P := Unit) 1 []) ⟨∅⟩).core
      Core.phoneConnects)).entries["peer/" ++ p.str]? = some (Mock.crates.encode r) := by
  have hempty : MemoryStore.Persisted Mock.crates ⟨∅⟩ := fun key v h => by simp at h
  have hsome : (((boot (Mock.fresh (P := Unit) 1 []) ⟨∅⟩).core.run Core.phoneConnects).peers[
      DeviceId.of Mock.crates (Mock.device 5).publicKey]?).isSome := by decide +kernel
  obtain ⟨r, hr⟩ := Option.isSome_iff_exists.mp hsome
  exact ⟨_, r, hr, (persisted_store_mirrors_memory (Mock.fresh 1 []) ⟨∅⟩ hempty _ _ _).mpr
    ⟨_, r, hr, rfl, rfl⟩⟩

end Host
end Acrylius
