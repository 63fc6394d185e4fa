import PlasmaModel.Libwayland.Theorems.Map

namespace Libwayland.Objects

variable {Interface : Type} {o o' : Objects Interface} {address a : ℕ} {proxy proxy' : Proxy Interface}
variable {block : Block Interface} {map map' : WlMap} {free free' : List ℕ} {id : ObjectId} {zombie : Zombie}
variable {interface : Interface} {queue : Option EventQueue} {protocol : Protocol Interface}

-- The proxy at the address has not been destroyed.
structure Live (o : Objects Interface) (address : ℕ) (proxy : Proxy Interface) : Prop where
  proxyAt : o.proxyAt address = some proxy
  alive   : proxy.destroyed = false

-- The map can be trusted by whoever looks objects up in it or takes new ids from it.
structure Correct (o : Objects Interface) : Prop where
  lookup : ∀ id proxy, o.proxyAt (o.map.lookup id) = some proxy → proxy.destroyed = false
  unused : ∀ flags data map' id, o.map.insertNew flags data = (map', id) → id ≠ 0 →
    (∀ address proxy, o.Live address proxy → proxy.id ≠ id) ∧ ¬o.map.objectIsZombie id
  free   : ∃ free, WlMap.FreeList o.map.clientEntries o.map.freeList free ∧
    ∀ i, i ∈ free ↔ WlMap.FreeEntry o.map.clientEntries i

def LiveAt (o : Objects Interface) (a : ℕ) (id : ObjectId) : Prop :=
  ∃ proxy, o.Live a proxy ∧ proxy.id = id

def ZombieAt (o : Objects Interface) (a : ℕ) : Prop :=
  ∃ zombie, o.zombieAt a = some zombie

structure Inv (o : Objects Interface) (free : List ℕ) : Prop where
  map       : o.map.Holds o.LiveAt o.ZombieAt free
  allocated : ∀ (a : ℕ) block, o.heap a = some block → a % 4 = 0 ∧ 0 < a ∧ a < o.fresh

theorem proxyAt_eq_some : o.proxyAt a = some proxy ↔ o.heap a = some (.proxy proxy) := by
  rw [proxyAt]
  split <;> simp_all

theorem zombieAt_eq_some : o.zombieAt a = some zombie ↔ o.heap a = some (.zombie zombie) := by
  rw [zombieAt]
  split <;> simp_all

theorem Live.heap (h : o.Live a proxy) : o.heap a = some (.proxy proxy) :=
  proxyAt_eq_some.mp h.proxyAt

theorem live_iff : o.Live a proxy ↔ o.heap a = some (.proxy proxy) ∧ proxy.destroyed = false :=
  ⟨fun h => ⟨h.heap, h.alive⟩, fun h => ⟨proxyAt_eq_some.mpr h.1, h.2⟩⟩

theorem fresh_pos : 0 < o.fresh :=
  Nat.mul_pos (by decide) (Nat.succ_pos _)

theorem fresh_mod : (o.fresh : ℕ) % 4 = 0 :=
  Nat.mul_mod_right 4 _

-- The map still finds the proxy when it is destroyed, since only the ids of the client are freed.
structure Dangles (o : Objects Interface) (address : ℕ) (proxy : Proxy Interface) : Prop where
  deleted : proxy.idDeleted = true
  server  : ¬proxy.id.toNat < WL_SERVER_ID_START
  lookup  : o.map.lookup proxy.id = address

-- A block is added, and the rest of the memory stays as it is.
structure Extends (o o' : Objects Interface) (block : Block Interface) : Prop where
  new   : o'.heap o.fresh = some block
  old   : ∀ a, a ≠ o.fresh → o'.heap a = o.heap a
  bound : o'.fresh = o.fresh + 4

theorem extends_alloc (map : WlMap) : o.Extends { o.alloc block with map } block where
  new := Function.update_self ..
  old := fun _ ha => Function.update_of_ne ha ..
  bound := rfl

-- The block of one proxy is written.
structure Writes (o o' : Objects Interface) (address : ℕ) (proxy : Proxy Interface) : Prop where
  new   : o'.heap address = some (.proxy proxy)
  old   : ∀ a, a ≠ address → o'.heap a = o.heap a
  bound : o'.fresh = o.fresh

theorem writes_setProxy (map : WlMap) : o.Writes ({ o with map }.setProxy address proxy) address proxy where
  new := Function.update_self ..
  old := fun _ ha => Function.update_of_ne ha ..
  bound := rfl

namespace Inv

theorem heap_fresh (h : o.Inv free) : o.heap o.fresh = none := by
  cases heq : o.heap o.fresh with
  | none => rfl
  | some block => exact absurd (h.allocated _ _ heq).2.2 (Nat.lt_irrefl _)

theorem lookup (h : o.Inv free) (hp : o.proxyAt (o.map.lookup id) = some proxy) :
    o.Live (o.map.lookup id) proxy ∧ proxy.id = id := by
  rcases h.map.lookup_cases id with hzero | ⟨⟨zombie, hz⟩, _⟩ | ⟨proxy', hl, hid⟩
  · rw [hzero] at hp
    exact absurd (h.allocated 0 _ (proxyAt_eq_some.mp hp)).2.1 (Nat.lt_irrefl 0)
  · cases (zombieAt_eq_some.mp hz).symm.trans (proxyAt_eq_some.mp hp)
  · cases hl.proxyAt.symm.trans hp
    exact ⟨hl, hid⟩

theorem correct (h : o.Inv free) : o.Correct where
  lookup := fun id proxy hp => (h.lookup hp).1.alive
  unused := fun flags data map' id hi hid => by
    rcases WlMap.insertNew_spec flags data h.map.side h.map.freeList h.map.size with
      ⟨_, _, heq⟩ | ⟨_, _, free', heq, hinserted⟩
    · cases hi.symm.trans heq
      exact absurd rfl hid
    · cases hi.symm.trans heq
      exact ⟨fun a proxy hl => h.map.unused hinserted ⟨proxy, hl, rfl⟩, h.map.not_zombie hinserted⟩
  free := ⟨free, h.map.freeList, h.map.freeEntry_iff⟩

-- What is live does not depend on the map.
theorem withMap (h : o.Inv free) (hm : map.Holds o.LiveAt o.ZombieAt free') : Inv { o with map } free' where
  map := hm.congr (fun a id => by simp only [LiveAt, live_iff]) fun a hz => hz
  allocated := h.allocated

theorem extends_allocated (h : o.Inv free) (he : o.Extends o' block) (b : ℕ) (block' : Block Interface)
    (hb : o'.heap b = some block') : b % 4 = 0 ∧ 0 < b ∧ b < o'.fresh := by
  rw [he.bound]
  by_cases heq : b = o.fresh
  case pos =>
    rw [heq]
    exact ⟨fresh_mod, fresh_pos, Nat.lt_add_of_pos_right (by decide)⟩
  case neg =>
    rw [he.old b heq] at hb
    have ⟨hmod, hpos, hlt⟩ := h.allocated b _ hb
    exact ⟨hmod, hpos, Nat.lt_add_right 4 hlt⟩

theorem extends_proxy (h : o.Inv free) (he : o.Extends o' (.proxy proxy)) (ha : proxy.destroyed = false) (b : ℕ)
    (id : ObjectId) : o'.LiveAt b id ↔ o.LiveAt b id ∨ b = o.fresh ∧ id = proxy.id := by
  have hold : b ≠ o.fresh → o'.LiveAt b id = o.LiveAt b id := fun hne => by
    rw [LiveAt, LiveAt]
    simp only [live_iff, he.old b hne]
  by_cases heq : b = o.fresh
  case pos =>
    subst heq
    simp only [LiveAt, live_iff, he.new, h.heap_fresh]
    grind
  case neg => rw [hold heq, or_iff_left fun hn => heq hn.1]

theorem extends_live {zombie : Zombie} (h : o.Inv free) (he : o.Extends o' (.zombie zombie)) (b : ℕ)
    (id : ObjectId) : o'.LiveAt b id ↔ o.LiveAt b id := by
  by_cases heq : b = o.fresh
  case pos =>
    subst heq
    simp [LiveAt, live_iff, he.new, h.heap_fresh]
  case neg => simp only [LiveAt, live_iff, he.old b heq]

theorem extends_zombie (h : o.Inv free) (he : o.Extends o' block) (b : ℕ) (hz : o.ZombieAt b) : o'.ZombieAt b := by
  have ⟨zombie, hz⟩ := hz
  have hne : b ≠ o.fresh := fun heq => by
    rw [zombieAt_eq_some, heq, h.heap_fresh] at hz
    cases hz
  exact ⟨zombie, zombieAt_eq_some.mpr ((he.old b hne).trans (zombieAt_eq_some.mp hz))⟩

theorem writes_allocated (h : o.Inv free) (hw : o.Writes o' address proxy) (hl : o.Live address proxy') (b : ℕ)
    (block : Block Interface) (hb : o'.heap b = some block) : b % 4 = 0 ∧ 0 < b ∧ b < o'.fresh := by
  rw [hw.bound]
  by_cases heq : b = address
  case pos => exact heq ▸ h.allocated address _ hl.heap
  case neg => exact h.allocated b _ ((hw.old b heq).symm.trans hb)

theorem writes_zombie (hw : o.Writes o' address proxy) (hl : o.Live address proxy') (b : ℕ) (hz : o.ZombieAt b) :
    o'.ZombieAt b := by
  have ⟨zombie, hz⟩ := hz
  have hne : b ≠ address := fun heq => by
    rw [zombieAt_eq_some, heq, hl.heap] at hz
    cases hz
  exact ⟨zombie, zombieAt_eq_some.mpr ((hw.old b hne).trans (zombieAt_eq_some.mp hz))⟩

theorem writes_live (hw : o.Writes o' address proxy) (hl : o.Live address proxy') (ha : proxy.destroyed = false)
    (hid : proxy.id = proxy'.id) (b : ℕ) (id : ObjectId) : o'.LiveAt b id ↔ o.LiveAt b id := by
  by_cases heq : b = address
  case pos =>
    subst heq
    simp [LiveAt, live_iff, hw.new, hl.heap, ha, hl.alive, hid]
  case neg => simp only [LiveAt, live_iff, hw.old b heq]

theorem writes_destroyed (hw : o.Writes o' address proxy) (ha : proxy.destroyed = true) (b : ℕ) (id : ObjectId) :
    o'.LiveAt b id ↔ o.LiveAt b id ∧ b ≠ address := by
  by_cases heq : b = address
  case pos =>
    subst heq
    simp [LiveAt, live_iff, hw.new, ha]
  case neg => simp only [LiveAt, live_iff, hw.old b heq, ne_eq, heq, not_false_eq_true, and_true]

theorem proxyCreate (h : o.Inv free) : ∃ free', (o.proxyCreate interface queue).1.Inv free' := by
  rw [Objects.proxyCreate]
  rcases WlMap.insertNew_spec 0 o.fresh h.map.side h.map.freeList h.map.size with
    ⟨hmax, hfree, heq⟩ | ⟨map', id, free', heq, hinserted⟩
  · rw [heq]
    exact ⟨free, h.withMap (h.map.append hmax hfree)⟩
  · have hne : id ≠ 0 := fun hz => hinserted.pos.ne' (by rw [hz]; rfl)
    rw [heq]
    simp only [hne, if_false]
    rw [mapEntry_zero] at hinserted
    have hnew : ∀ id, ¬o.LiveAt o.fresh id := fun id ⟨proxy, hl, _⟩ => by
      cases h.heap_fresh.symm.trans hl.heap
    have he : o.Extends { o.alloc (.proxy { id, interface, queue }) with map := map' } _ := extends_alloc map'
    exact ⟨free', (h.map.insertNew hinserted fresh_mod fresh_pos hnew).congr (h.extends_proxy he rfl)
      (h.extends_zombie he), h.extends_allocated he⟩

theorem proxyCreateForId (h : o.Inv free) (hid : ¬id.toNat < WL_SERVER_ID_START)
    (ho : o.proxyCreateForId interface queue id = some o') : o'.Inv free := by
  have ⟨map', hi, ho⟩ := Option.map_eq_some_iff.mp ho
  subst ho
  have hnew : ∀ id, ¬o.LiveAt o.fresh id := fun id ⟨proxy, hl, _⟩ => by
    cases h.heap_fresh.symm.trans hl.heap
  have he : o.Extends { o.alloc (.proxy { id, interface, queue }) with map := map' } _ := extends_alloc map'
  exact ⟨(h.map.insertAt hid hi fresh_mod fresh_pos hnew).congr (h.extends_proxy he rfl) (h.extends_zombie he),
    h.extends_allocated he⟩

theorem setProxy (h : o.Inv free) (hl : o.Live address proxy') (ha : proxy.destroyed = false)
    (hid : proxy.id = proxy'.id) : (o.setProxy address proxy).Inv free :=
  have hw : o.Writes (o.setProxy address proxy) _ _ := writes_setProxy o.map
  ⟨h.map.congr (writes_live hw hl ha hid) (writes_zombie hw hl), h.writes_allocated hw hl⟩

theorem handleDeleteId (h : o.Inv free) : ∃ free', (o.handleDeleteId id).Inv free' := by
  rw [Objects.handleDeleteId]
  split
  case isTrue hz => exact ⟨id.toNat :: free, h.withMap (h.map.removeZombie hz)⟩
  case isFalse =>
    split
    case h_1 proxy hp =>
      have ⟨hl, _⟩ := h.lookup hp
      exact ⟨free, h.setProxy hl hl.alive rfl⟩
    case h_2 => exact ⟨free, h⟩

-- The block of the zombie, if there is one, is the only thing that changes.
theorem zombify (events : List (Message Interface)) (h : o.Inv free) (hl : o.Live address proxy) :
    (o.zombify events).1.Inv free ∧ (o.zombify events).1.Live address proxy ∧ ((o.zombify events).2 : ℕ) % 4 = 0 ∧
    ((o.zombify events).2 = 0 ∨ (o.zombify events).1.ZombieAt (o.zombify events).2) := by
  rw [Objects.zombify]
  split
  case h_1 zombie _ =>
    have he : o.Extends (o.alloc (.zombie zombie)) _ := extends_alloc o.map
    refine ⟨⟨h.map.congr (h.extends_live he) (h.extends_zombie he), h.extends_allocated he⟩, ?_, fresh_mod, .inr ?_⟩
    · have hne : address ≠ o.fresh := (h.allocated address _ hl.heap).2.2.ne
      exact live_iff.mpr ⟨(he.old _ hne).trans hl.heap, hl.alive⟩
    · exact ⟨zombie, zombieAt_eq_some.mpr he.new⟩
  case h_2 => exact ⟨h, hl, rfl, .inl rfl⟩

-- A proxy is destroyed after its entry has been changed.
theorem destroyed (h : o.Inv free) (hl : o.Live address proxy) (hd : proxy'.destroyed = true)
    (hm : map.Holds (fun b j => o.LiveAt b j ∧ b ≠ address) o.ZombieAt free') :
    ({ o with map }.setProxy address proxy').Inv free' where
  map := hm.congr (writes_destroyed (writes_setProxy map) hd) (writes_zombie (writes_setProxy map) hl)
  allocated := h.writes_allocated (writes_setProxy map) hl

theorem proxyDestroy (h : o.Inv free) (hl : o.Live address proxy) (hn : ¬o.Dangles address proxy) :
    ∃ free', (o.proxyDestroy protocol address proxy).Inv free' := by
  have hlive : o.LiveAt address proxy.id := ⟨proxy, hl, rfl⟩
  rw [Objects.proxyDestroy]
  split
  case isTrue hdeleted =>
    by_cases hid : proxy.id.toNat < WL_SERVER_ID_START
    case pos => exact ⟨_, h.destroyed hl rfl (h.map.remove hlive hid)⟩
    case neg =>
      rw [WlMap.remove_server h.map.side hid]
      exact ⟨_, h.destroyed hl rfl (h.map.forget hlive hid fun heq => hn ⟨hdeleted, hid, heq⟩)⟩
  case isFalse =>
    split
    case isTrue hid =>
      have ⟨h, hl, hmod, hz⟩ := h.zombify (protocol.events proxy.interface) hl
      have ⟨map', hi, hm⟩ := h.map.zombify ⟨proxy, hl, rfl⟩ hid hmod hz
      dsimp only
      rw [hi]
      exact ⟨_, h.destroyed hl rfl hm⟩
    case isFalse hid =>
      have ⟨map', hi, hm⟩ := h.map.clear hlive hid
      rw [hi]
      exact ⟨_, h.destroyed hl rfl hm⟩

end Inv

-- What is destroyed although it dangles can still be found.
theorem Inv.not_correct (h : o.Inv free) (hd : o.Dangles address proxy) :
    ¬(o.proxyDestroy protocol address proxy).Correct := fun hc => by
  rw [Objects.proxyDestroy, if_pos hd.deleted, WlMap.remove_server h.map.side hd.server] at hc
  have hw : o.Writes (o.setProxy address { proxy with destroyed := true, queue := none }) _ _ :=
    writes_setProxy o.map
  have hp : (o.setProxy address { proxy with destroyed := true, queue := none }).proxyAt (o.map.lookup proxy.id) =
      some { proxy with destroyed := true, queue := none } := by
    rw [hd.lookup]
    exact proxyAt_eq_some.mpr hw.new
  cases hc.lookup proxy.id _ hp

-- What is seen of a proxy that has been created.
structure Created (o o' : Objects Interface) (proxy : Proxy Interface) : Prop where
  proxyAt : ∀ a, o'.proxyAt a = if a = o.fresh then some proxy else o.proxyAt a
  zombie  : ∀ id, o'.map.objectIsZombie id ↔ o.map.objectIsZombie id
  id      : 0 < proxy.id.toNat ∧ proxy.id.toNat ≤ WL_MAP_MAX_OBJECTS
  unused  : ¬o.map.objectIsZombie proxy.id ∧ ∀ a p, o.Live a p → p.id ≠ proxy.id
  length  : WlMap.FreeEntry o.map.clientEntries proxy.id.toNat ∧
      o'.map.clientEntries.length = o.map.clientEntries.length ∨
    o.map.clientEntries.length = proxy.id.toNat ∧
      o'.map.clientEntries.length = o.map.clientEntries.length + 1
  free    : ∀ i, WlMap.FreeEntry o'.map.clientEntries i → WlMap.FreeEntry o.map.clientEntries i

structure Destroyed (o o' : Objects Interface) (address : ℕ) (proxy : Proxy Interface) : Prop where
  proxyAt : ∀ a, o'.proxyAt a =
    if a = address then some { proxy with destroyed := true, queue := none } else o.proxyAt a
  zombie  : ∀ id, o'.map.objectIsZombie id ↔ id = proxy.id ∧ proxy.idDeleted = false ∨ o.map.objectIsZombie id
  length  : o'.map.clientEntries.length = o.map.clientEntries.length
  free    : ∀ i, WlMap.FreeEntry o'.map.clientEntries i →
    WlMap.FreeEntry o.map.clientEntries i ∨ i = proxy.id.toNat ∧ proxy.idDeleted = true

theorem proxyAt_congr (h : o'.heap a = o.heap a) : o'.proxyAt a = o.proxyAt a := by
  rw [proxyAt, proxyAt, h]

theorem Extends.proxyAt (he : o.Extends o' (.proxy proxy)) (a : ℕ) :
    o'.proxyAt a = if a = o.fresh then some proxy else o.proxyAt a := by
  split
  case isTrue heq => exact proxyAt_eq_some.mpr (heq ▸ he.new)
  case isFalse hne => exact proxyAt_congr (he.old a hne)

theorem Writes.proxyAt (hw : o.Writes o' address proxy) (a : ℕ) :
    o'.proxyAt a = if a = address then some proxy else o.proxyAt a := by
  split
  case isTrue heq => exact proxyAt_eq_some.mpr (heq ▸ hw.new)
  case isFalse hne => exact proxyAt_congr (hw.old a hne)

namespace Inv

-- An address where there is no block is not the address of a proxy.
theorem proxyAt_fresh (h : o.Inv free) : o.proxyAt o.fresh = none := by
  rw [proxyAt, h.heap_fresh]

theorem lt_fresh (h : o.Inv free) (hp : o.proxyAt a = some proxy) : a < o.fresh :=
  (h.allocated a _ (proxyAt_eq_some.mp hp)).2.2

-- What is found for the id of a live proxy.
theorem found (h : o.Inv free) (hl : o.Live a proxy) (hid : proxy.id.toNat < WL_SERVER_ID_START) :
    o.map.lookup proxy.id = a ∧ ¬o.map.objectIsZombie proxy.id := by
  have hlive : o.LiveAt a proxy.id := ⟨proxy, hl, rfl⟩
  obtain ⟨hmod, hpos⟩ := h.map.address a _ hlive
  obtain ⟨_, _, hentry⟩ := h.map.liveClient a _ hlive hid
  constructor
  case left =>
    rw [WlMap.lookup_client hid, hentry]
    simp only [mapEntryIsFree_iff, mapEntryGetData_eq]
    rw [if_neg (by omega)]
    exact Nat.div_mul_cancel (Nat.dvd_of_mod_eq_zero hmod)
  case right =>
    intro hz
    obtain ⟨_, word, hword, hz⟩ := (WlMap.objectIsZombie_iff h.map.side).mp hz
    cases hentry.symm.trans hword
    omega

theorem proxyCreate_spec (interface : Interface) (queue : Option EventQueue) (h : o.Inv free) :
    (∃ map, o.proxyCreate interface queue = ({ o with map }, 0) ∧
      map = { o.map with clientEntries := o.map.clientEntries ++ [0] } ∧
      WL_MAP_MAX_OBJECTS < o.map.clientEntries.length) ∨
    ∃ o' id, o.proxyCreate interface queue = (o', o.fresh) ∧ o.Created o' { id, interface, queue } := by
  rw [Objects.proxyCreate]
  rcases WlMap.insertNew_spec 0 o.fresh h.map.side h.map.freeList h.map.size with
    ⟨hmax, _, heq⟩ | ⟨map', id, free', heq, hinserted⟩
  · rw [heq]
    exact .inl ⟨_, rfl, rfl, hmax⟩
  · have hne : id ≠ 0 := fun hz => hinserted.pos.ne' (by rw [hz]; rfl)
    have hfree (i : ℕ) (hi : WlMap.FreeEntry map'.clientEntries i) :
        WlMap.FreeEntry o.map.clientEntries i ∧ i ≠ id.toNat := by
      have ⟨hpos, hle, word, hword, hlink⟩ := hi
      rw [hinserted.entries, mapEntry_zero] at hword
      split at hword
      case isTrue =>
        cases hword
        exact absurd hlink (by rintro (hz | hodd) <;> simp only [fresh] at * <;> omega)
      case isFalse hne => exact ⟨⟨hpos, hle, word, hword, hlink⟩, hne⟩
    have hside : map'.side = .client := by rw [hinserted.rest, h.map.side]
    rw [heq]
    simp only [hne, if_false]
    refine .inr ⟨_, id, rfl, ?_⟩
    constructor
    case proxyAt => exact (extends_alloc map').proxyAt
    case zombie =>
      intro j
      rw [WlMap.objectIsZombie_iff hside, WlMap.objectIsZombie_iff h.map.side]
      refine and_congr_right fun hj => ?_
      by_cases heq : j = id
      case pos =>
        subst heq
        have hnot := h.map.not_zombie hinserted
        rw [WlMap.objectIsZombie_iff h.map.side, not_and] at hnot
        refine iff_of_false ?_ (hnot hj)
        rintro ⟨word, hword, hmod⟩
        rw [hinserted.entries, if_pos rfl, mapEntry_zero] at hword
        cases hword
        exact absurd (fresh_mod.symm.trans hmod) (by decide)
      case neg =>
        have hne : j.toNat ≠ id.toNat := fun hn => heq (UInt32.toNat_inj.mp hn)
        simp only [hinserted.entries, if_neg hne]
    case id => exact ⟨hinserted.pos, hinserted.le⟩
    case unused =>
      exact ⟨h.map.not_zombie hinserted, fun a p hl => h.map.unused hinserted ⟨p, hl, rfl⟩⟩
    case length => exact hinserted.length h.map.freeList
    case free => exact fun i hi => (hfree i hi).1

-- The words of an entry that is written, and of the others.
theorem destroyed_spec {word : ℕ} (h : o.Inv free) (hl : o.Live address proxy)
    (hid : proxy.id.toNat < WL_SERVER_ID_START) (hp : ∀ a, o'.proxyAt a =
      if a = address then some { proxy with destroyed := true, queue := none } else o.proxyAt a)
    (hside : o'.map.side = .client) (he : o'.map.clientEntries = o.map.clientEntries.set proxy.id.toNat word)
    (hz : word % 4 = 2 ↔ proxy.idDeleted = false) (hf : WlMap.IsLink word → proxy.idDeleted = true) :
    o.Destroyed o' address proxy := by
  have ⟨_, _, hentry⟩ := h.map.liveClient address proxy.id ⟨proxy, hl, rfl⟩ hid
  have ⟨hlt, _⟩ := List.getElem?_eq_some_iff.mp hentry
  constructor
  case proxyAt => exact hp
  case zombie =>
    intro id
    rw [WlMap.objectIsZombie_iff hside, WlMap.objectIsZombie_iff h.map.side, he]
    by_cases heq : id = proxy.id
    case pos =>
      subst heq
      have hnot := (h.found hl hid).2
      rw [WlMap.objectIsZombie_iff h.map.side] at hnot
      rw [or_iff_left hnot, List.getElem?_set_self hlt]
      simp [hid, hz]
    case neg =>
      have hne : proxy.id.toNat ≠ id.toNat := fun hn => heq (UInt32.toNat_inj.mp hn.symm)
      simp [heq, List.getElem?_set_ne hne]
  case length => rw [he, List.length_set]
  case free =>
    rw [he]
    intro i hi
    by_cases heq : i = proxy.id.toNat
    case pos =>
      subst heq
      have ⟨_, _, _, hword, hlink⟩ := hi
      rw [List.getElem?_set_self hlt] at hword
      cases hword
      exact .inr ⟨rfl, hf hlink⟩
    case neg =>
      rw [WlMap.FreeEntry, List.getElem?_set_ne (Ne.symm heq)] at hi
      exact .inl hi

theorem zombify_spec (events : List (Message Interface)) (h : o.Inv free) :
    (o.zombify events).1.map = o.map ∧ ∀ a, (o.zombify events).1.proxyAt a = o.proxyAt a := by
  rw [Objects.zombify]
  split
  case h_1 zombie _ =>
    have he : o.Extends (o.alloc (.zombie zombie)) _ := extends_alloc o.map
    refine ⟨rfl, fun a => ?_⟩
    by_cases heq : a = o.fresh
    case pos =>
      subst heq
      rw [h.proxyAt_fresh, Objects.proxyAt, he.new]
    case neg => exact proxyAt_congr (he.old a heq)
  case h_2 => exact ⟨rfl, fun _ => rfl⟩

theorem proxyDestroy_spec (protocol : Protocol Interface) (h : o.Inv free) (hl : o.Live address proxy)
    (hid : proxy.id.toNat < WL_SERVER_ID_START) :
    o.Destroyed (o.proxyDestroy protocol address proxy) address proxy := by
  rw [Objects.proxyDestroy]
  split
  case isTrue hdeleted =>
    rw [WlMap.remove_client h.map.side hid]
    have hz : o.map.freeList % 4 ≠ 2 := fun hmod => WlMap.not_isLink hmod h.map.freeList.head
    refine h.destroyed_spec hl hid (writes_setProxy _).proxyAt h.map.side rfl ?_ fun _ => hdeleted
    simp [hz, hdeleted]
  case isFalse hdeleted =>
    have ⟨hmap, hp⟩ := h.zombify_spec (protocol.events proxy.interface)
    have ⟨_, _, hmod, _⟩ := h.zombify (protocol.events proxy.interface) hl
    have ⟨_, hle, hentry⟩ := h.map.liveClient address proxy.id ⟨proxy, hl, rfl⟩ hid
    have ⟨hlt, _⟩ := List.getElem?_eq_some_iff.mp hentry
    dsimp only
    rw [hmap, WlMap.insertAt_client hid hle hlt, mapEntry_zombie hmod]
    have hz : ((o.zombify (protocol.events proxy.interface)).2 + 2 : ℕ) % 4 = 2 := by rw [Nat.add_mod, hmod]
    refine h.destroyed_spec hl hid ?_ h.map.side rfl ?_ fun hlink => absurd hlink (WlMap.not_isLink hz)
    · intro a
      rw [(writes_setProxy _).proxyAt, hp]
    · exact iff_of_true hz ((Bool.not_eq_true _).mp hdeleted)

-- The proxy of a zombie is gone, so that only its entry changes.
theorem handleDeleteId_zombie (h : o.Inv free) (hz : o.map.objectIsZombie id) :
    (∀ a, (o.handleDeleteId id).proxyAt a = o.proxyAt a) ∧
    (∀ j, (o.handleDeleteId id).map.objectIsZombie j ↔ o.map.objectIsZombie j ∧ j ≠ id) ∧
    (o.handleDeleteId id).map.clientEntries.length = o.map.clientEntries.length ∧
    ∀ i, WlMap.FreeEntry (o.handleDeleteId id).map.clientEntries i →
      WlMap.FreeEntry o.map.clientEntries i ∨ i = id.toNat := by
  have ⟨hid, word, hentry, _⟩ := (WlMap.objectIsZombie_iff h.map.side).mp hz
  have ⟨hlt, _⟩ := List.getElem?_eq_some_iff.mp hentry
  rw [Objects.handleDeleteId, if_pos hz, WlMap.remove_client h.map.side hid]
  refine ⟨fun _ => rfl, ?_, List.length_set .., ?_⟩
  · intro j
    rw [WlMap.objectIsZombie_iff h.map.side]
    refine (WlMap.objectIsZombie_iff (by exact h.map.side)).trans ?_
    by_cases heq : j = id
    case pos =>
      subst heq
      have hmod : o.map.freeList % 4 ≠ 2 := fun hmod => WlMap.not_isLink hmod h.map.freeList.head
      simp [List.getElem?_set_self hlt, hmod]
    case neg =>
      have hne : id.toNat ≠ j.toNat := fun hn => heq (UInt32.toNat_inj.mp hn.symm)
      simp [heq, List.getElem?_set_ne hne]
  · intro i hi
    by_cases heq : i = id.toNat
    case pos => exact .inr heq
    case neg =>
      rw [WlMap.FreeEntry, List.getElem?_set_ne (Ne.symm heq)] at hi
      exact .inl hi

theorem handleDeleteId_live (h : o.Inv free) (hl : o.Live a proxy) (hid : proxy.id.toNat < WL_SERVER_ID_START) :
    o.handleDeleteId proxy.id = o.setProxy a { proxy with idDeleted := true } := by
  have ⟨hlookup, hz⟩ := h.found hl hid
  rw [Objects.handleDeleteId, if_neg hz, hlookup, hl.proxyAt]

end Inv

end Libwayland.Objects
