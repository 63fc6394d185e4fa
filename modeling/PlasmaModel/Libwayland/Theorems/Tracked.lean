import PlasmaModel.Libwayland.Peers
import PlasmaModel.Libwayland.Theorems.Client

namespace Libwayland

-- The ids of a list are given in turn to a party with `n` entries. Each of them is that of an entry or the next one.
inductive Grows : ℕ → List ℕ → ℕ → Prop
  | nil {n} : Grows n [] n
  | old {n i l m} : i < n → Grows n l m → Grows n (i :: l) m
  | new {n l m} : Grows (n + 1) l m → Grows n (n :: l) m

namespace Grows

variable {n k m i : ℕ} {l l' : List ℕ}

theorem le (h : Grows n l m) : n ≤ m := by
  induction h
  case nil => exact Nat.le_refl _
  case old _ ih => exact ih
  case new _ ih => exact Nat.le_of_succ_le ih

theorem append (h : Grows n l k) (h' : Grows k l' m) : Grows n (l ++ l') m := by
  induction h
  case nil => exact h'
  case old hi _ ih => exact .old hi (ih h')
  case new _ ih => exact .new (ih h')

theorem split (h : Grows n (l ++ l') m) : ∃ k, Grows n l k ∧ Grows k l' m := by
  induction l generalizing n
  case nil => exact ⟨n, .nil, h⟩
  case cons i l ih =>
    cases h with
    | old hi h =>
      have ⟨k, hl, hl'⟩ := ih h
      exact ⟨k, .old hi hl, hl'⟩
    | new h =>
      have ⟨k, hl, hl'⟩ := ih h
      exact ⟨k, .new hl, hl'⟩

theorem lt (h : Grows n l m) (hi : i ∈ l) : i < m := by
  induction h
  case nil => cases hi
  case old hlt h ih =>
    cases List.mem_cons.mp hi with
    | inl heq => exact heq ▸ hlt.trans_le h.le
    | inr hi => exact ih hi
  case new h ih =>
    cases List.mem_cons.mp hi with
    | inl heq => exact heq ▸ h.le
    | inr hi => exact ih hi

end Grows

-- The new id that a resource has been created for.
def Resource.newId {Interface : Type} (resource : Resource Interface) : NewId Interface where
  id        := resource.id
  interface := resource.interface
  proxy     := resource.proxy

namespace Server

variable {Interface : Type} {s s' : Server Interface} {address a : ℕ} {resource r : Resource Interface}
variable {newId n : NewId Interface} {newIds : List (NewId Interface)} {map map' : WlMap} {id : ObjectId}

def Has (s : Server Interface) (newId : NewId Interface) : Prop :=
  ∃ a r, s.resources a = some r ∧ r.newId = newId

-- The destructor of the object has not been called.
def Knows (s : Server Interface) (proxy : Address) : Prop :=
  ∃ a r, s.resources a = some r ∧ r.proxy = proxy ∧ r.destructor = false

structure Inv (s : Server Interface) : Prop where
  side      : s.map.side = .server
  entries   : ∀ i word, s.map.clientEntries[i]? = some word → word = 0 ∨ ∃ r, s.resources word = some r ∧ r.id.toNat = i
  resources : ∀ (a : ℕ) r, s.resources a = some r → s.map.clientEntries[r.id.toNat]? = some a ∧
    r.id.toNat ≤ WL_MAP_MAX_OBJECTS ∧ a % 4 = 0 ∧ 0 < a ∧ a < s.fresh

namespace Inv

theorem lookup (h : s.Inv) (hr : s.resources a = some r) : s.map.lookup r.id = a := by
  have ⟨hentry, hle, hmod, _⟩ := h.resources a r hr
  rw [WlMap.lookup_client (Nat.lt_of_le_of_lt hle (by decide)), hentry]
  simp only [mapEntryIsFree_iff, mapEntryGetData_eq]
  rw [if_neg (by omega)]
  exact Nat.div_mul_cancel (Nat.dvd_of_mod_eq_zero hmod)

theorem unique (h : s.Inv) (hr : s.resources a = some r) (hn : s.resources address = some resource)
    (heq : r.id = resource.id) : a = address := by
  rw [← h.lookup hr, ← h.lookup hn, heq]

end Inv

theorem reserveNew_old (hs : map.side = .server) (hle : id.toNat ≤ WL_MAP_MAX_OBJECTS)
    (hz : map.clientEntries[id.toNat]? = some 0) : map.reserveNew id = some map := by
  have hid : id.toNat < WL_SERVER_ID_START := Nat.lt_of_le_of_lt hle (by decide)
  cases map
  cases hs
  simp [WlMap.reserveNew, WlMap.reserveEntry, hid, Nat.not_lt.mpr hle, hz]

theorem reserveNew_new (hs : map.side = .server) (hle : id.toNat ≤ WL_MAP_MAX_OBJECTS)
    (hz : id.toNat = map.clientEntries.length) :
    map.reserveNew id = some { map with clientEntries := map.clientEntries ++ [0] } := by
  have hid : id.toNat < WL_SERVER_ID_START := Nat.lt_of_le_of_lt hle (by decide)
  rw [hz] at hid hle
  simp [WlMap.reserveNew, WlMap.reserveEntry, hs, hz, hid, Nat.not_lt.mpr hle]

-- Nothing but empty entries is added for the new ids.
theorem reserveNewIds_spec {k : ℕ} (ids : List ObjectId) (hs : map.side = .server)
    (hg : Grows map.clientEntries.length (ids.map UInt32.toNat) k)
    (hids : ∀ id ∈ ids, 0 < id.toNat ∧ id.toNat ≤ WL_MAP_MAX_OBJECTS)
    (hz : ∀ id ∈ ids, ∀ word, map.clientEntries[id.toNat]? = some word → word = 0) :
    ∃ c, reserveNewIds map ids = some { map with clientEntries := map.clientEntries ++ List.replicate c 0 } ∧
      map.clientEntries.length + c = k := by
  induction ids generalizing map
  case nil =>
    cases hg
    exact ⟨0, by simp [reserveNewIds], rfl⟩
  case cons id ids ih =>
    have ⟨⟨hpos, hle⟩, hids⟩ := List.forall_mem_cons.mp hids
    have ⟨hzero, hz⟩ := List.forall_mem_cons.mp hz
    have hne : id ≠ 0 := fun heq => hpos.ne' (by rw [heq]; rfl)
    rw [reserveNewIds, if_neg hne]
    rw [List.map_cons] at hg
    generalize hi : id.toNat = i at hg
    cases hg with
    | old hlt hg =>
      subst hi
      have hentry := hzero _ (List.getElem?_eq_getElem hlt)
      rw [reserveNew_old hs hle (List.getElem?_eq_some_iff.mpr ⟨hlt, hentry⟩), Option.bind_some]
      exact ih hs hg hids hz
    | new hg =>
      rw [reserveNew_new hs hle hi, Option.bind_some]
      have hlength : (map.clientEntries ++ [0]).length = map.clientEntries.length + 1 := by simp
      have ⟨c, hc, hk⟩ := @ih { map with clientEntries := map.clientEntries ++ [0] } hs (hlength ▸ hg) hids
        fun id hid word hword => by
          rw [List.getElem?_append] at hword
          split at hword
          case isTrue => exact hz id hid word hword
          case isFalse => simpa using (List.getElem?_eq_some_iff.mp hword).2.symm
      refine ⟨c + 1, ?_, by rw [← hk, hlength]; omega⟩
      rw [hc]
      simp [List.replicate_succ]

theorem Inv.reserved (h : s.Inv) (c : ℕ) :
    Inv { s with map := { s.map with clientEntries := s.map.clientEntries ++ List.replicate c 0 } } where
  side := h.side
  entries := fun i word hword => by
    rw [List.getElem?_append] at hword
    split at hword
    case isTrue => exact h.entries i word hword
    case isFalse => exact .inl (List.eq_of_mem_replicate (List.mem_of_getElem? hword))
  resources := fun a r hr => by
    have ⟨hentry, hrest⟩ := h.resources a r hr
    exact ⟨(List.getElem?_append_left (List.getElem?_eq_some_iff.mp hentry).1).trans hentry, hrest⟩

-- What a resource for each of the new ids changes.
structure Serves (s s' : Server Interface) (newIds : List (NewId Interface)) : Prop where
  inv       : s'.Inv
  error     : s'.error = s.error
  length    : s'.map.clientEntries.length = s.map.clientEntries.length
  old       : ∀ a r, s.resources a = some r → s'.resources a = some r
  new       : ∀ a r, s'.resources a = some r → s.resources a = some r ∨ r.newId ∈ newIds
  created   : ∀ n ∈ newIds, ∃ a r, s'.resources a = some r ∧ r.newId = n ∧ r.destructor = false

theorem Inv.resourceCreate (h : s.Inv) (hle : newId.id.toNat ≤ WL_MAP_MAX_OBJECTS)
    (hz : s.map.clientEntries[newId.id.toNat]? = some 0) :
    ∃ s', s.resourceCreate newId = some s' ∧ s.Serves s' [newId] ∧
      ∀ i, i ≠ newId.id.toNat → s'.map.clientEntries[i]? = s.map.clientEntries[i]? := by
  have hid : newId.id.toNat < WL_SERVER_ID_START := Nat.lt_of_le_of_lt hle (by decide)
  have ⟨hlt, _⟩ := List.getElem?_eq_some_iff.mp hz
  have hfresh : s.resources s.fresh = none := by
    cases heq : s.resources s.fresh with
    | none => rfl
    | some r => exact absurd (h.resources _ _ heq).2.2.2.2 (Nat.lt_irrefl _)
  rw [Server.resourceCreate, WlMap.insertAt_client hid hle hlt, mapEntry_zero, Option.map_some]
  dsimp only
  refine ⟨_, rfl, ?_, fun i hi => List.getElem?_set_ne hi.symm⟩
  have hother (a : ℕ) (r : Resource Interface) (hr : s.resources a = some r) : a ≠ s.fresh := fun heq => by
    rw [heq, hfresh] at hr
    cases hr
  constructor
  case inv =>
    constructor
    case side => exact h.side
    case entries =>
      intro i word hword
      rw [List.getElem?_set] at hword
      split at hword
      case isTrue heq =>
        cases hword
        exact .inr ⟨_, Function.update_self .., heq⟩
      case isFalse =>
        refine (h.entries i word hword).imp_right fun ⟨r, hr, hi⟩ => ⟨r, ?_, hi⟩
        exact (Function.update_of_ne (hother word r hr) ..).trans hr
    case resources =>
      intro a r hr
      dsimp only at hr
      rw [Function.update_apply] at hr
      split at hr
      case isTrue heq =>
        cases hr
        subst heq
        refine ⟨List.getElem?_set_self hlt, hle, ?_, ?_, ?_⟩
        all_goals simp only [fresh]
        all_goals omega
      case isFalse =>
        have ⟨hentry, hmax, hmod, hpos, hbound⟩ := h.resources a r hr
        have hne : newId.id.toNat ≠ r.id.toNat := fun heq => by
          rw [← heq, hz] at hentry
          cases hentry
          exact absurd hpos (Nat.lt_irrefl 0)
        refine ⟨(List.getElem?_set_ne hne).trans hentry, hmax, hmod, hpos, ?_⟩
        simp only [fresh] at hbound ⊢
        omega
  case error => rfl
  case length => exact List.length_set ..
  case old => exact fun a r hr => (Function.update_of_ne (hother a r hr) ..).trans hr
  case new =>
    intro a r hr
    dsimp only at hr
    rw [Function.update_apply] at hr
    split at hr
    case isTrue =>
      cases hr
      exact .inr (List.mem_singleton_self _)
    case isFalse => exact .inl hr
  case created =>
    intro n hn
    cases List.mem_singleton.mp hn
    exact ⟨_, _, Function.update_self .., rfl, rfl⟩

theorem Serves.cons {s₁ : Server Interface} (h : s.Serves s₁ [newId]) (h' : s₁.Serves s' newIds) :
    s.Serves s' (newId :: newIds) where
  inv := h'.inv
  error := h'.error.trans h.error
  length := h'.length.trans h.length
  old := fun a r hr => h'.old a r (h.old a r hr)
  new := fun a r hr => by
    cases h'.new a r hr with
    | inl hr => exact (h.new a r hr).imp_right fun hn => List.mem_cons.mpr (.inl (List.mem_singleton.mp hn))
    | inr hn => exact .inr (List.mem_cons_of_mem _ hn)
  created := fun n hn => by
    cases List.mem_cons.mp hn with
    | inl heq =>
      have ⟨a, r, hr, he⟩ := h.created n (List.mem_singleton.mpr heq)
      exact ⟨a, r, h'.old a r hr, he⟩
    | inr hn => exact h'.created n hn

theorem Inv.createResources (newIds : List (NewId Interface)) (h : s.Inv)
    (hle : ∀ n ∈ newIds, n.id.toNat ≤ WL_MAP_MAX_OBJECTS)
    (hz : ∀ n ∈ newIds, s.map.clientEntries[n.id.toNat]? = some 0) (hd : (newIds.map NewId.id).Nodup) :
    ∃ s', s.createResources newIds = some s' ∧ s.Serves s' newIds := by
  induction newIds generalizing s
  case nil => exact ⟨s, rfl, ⟨h, rfl, rfl, fun _ _ hr => hr, fun _ _ hr => .inl hr, nofun⟩⟩
  case cons newId newIds ih =>
    have ⟨hle, hles⟩ := List.forall_mem_cons.mp hle
    have ⟨hzero, hz⟩ := List.forall_mem_cons.mp hz
    have ⟨hnot, hd⟩ := List.nodup_cons.mp hd
    have ⟨s₁, hs₁, hserves, hother⟩ := h.resourceCreate hle hzero
    have hz₁ : ∀ n ∈ newIds, s₁.map.clientEntries[n.id.toNat]? = some 0 := fun n hn => by
      rw [hother _ fun heq => hnot (UInt32.toNat_inj.mp heq ▸ List.mem_map_of_mem hn), hz n hn]
    have ⟨s', hs', hserves'⟩ := ih hserves.inv hles hz₁ hd
    exact ⟨s', by rw [Server.createResources, hs₁, Option.bind_some, hs'], hserves.cons hserves'⟩

theorem Inv.setDestructor (h : s.Inv) (hr : s.resources a = some r) (destructor : Bool) :
    Inv { s with resources := Function.update s.resources a (some { r with destructor }) } where
  side := h.side
  entries := fun i word hword => by
    refine (h.entries i word hword).imp_right fun ⟨r', hr', hi⟩ => ?_
    by_cases heq : word = a
    case pos =>
      cases heq
      cases hr.symm.trans hr'
      exact ⟨_, Function.update_self .., hi⟩
    case neg => exact ⟨r', (Function.update_of_ne heq ..).trans hr', hi⟩
  resources := fun b r' hr' => by
    dsimp only at hr'
    rw [Function.update_apply] at hr'
    split at hr'
    case isTrue heq =>
      cases hr'
      exact heq ▸ h.resources a r hr
    case isFalse => exact h.resources b r' hr'

structure Handles (s s' : Server Interface) (request : Request Interface) (destructor : Bool) : Prop where
  inv   : s'.Inv
  error : s'.error = s.error
  has   : ∀ n, s'.Has n ↔ s.Has n ∨ n ∈ request.newIds
  knows : ∀ proxy, s.Knows proxy ∧ ¬(destructor = true ∧ proxy = request.proxy) ∨
    (∃ n ∈ request.newIds, n.proxy = proxy) → s'.Knows proxy

theorem Inv.handleRequest {methods : Interface → List Method} {request : Request Interface} {method : Method} {k : ℕ}
    (h : s.Inv) (hr : s.resources a = some r) (hid : r.id = request.sender) (hproxy : r.proxy = request.proxy)
    (hm : (methods r.interface)[request.opcode]? = some method)
    (hg : Grows s.map.clientEntries.length (request.newIds.map fun n => n.id.toNat) k)
    (hids : ∀ n ∈ request.newIds, 0 < n.id.toNat ∧ n.id.toNat ≤ WL_MAP_MAX_OBJECTS)
    (hz : ∀ n ∈ request.newIds, ∀ r, s.Has r → r.id ≠ n.id) (hd : (request.newIds.map NewId.id).Nodup) :
    s.Handles (s.handleRequest methods request) request method.destructor ∧
    (s.handleRequest methods request).map.clientEntries.length = k := by
  have hzero (n : NewId Interface) (hn : n ∈ request.newIds) (word : ℕ)
      (hword : s.map.clientEntries[n.id.toNat]? = some word) : word = 0 := by
    refine (h.entries _ word hword).resolve_right fun ⟨r', hr', hi⟩ => ?_
    exact hz n hn _ ⟨word, r', hr', rfl⟩ (UInt32.toNat_inj.mp hi)
  have hg' : Grows s.map.clientEntries.length ((request.newIds.map NewId.id).map UInt32.toNat) k := by
    rwa [List.map_map]
  have ⟨c, hc, hk⟩ := reserveNewIds_spec _ h.side hg' (List.forall_mem_map.mpr hids) (List.forall_mem_map.mpr hzero)
  have hreserved := h.reserved c
  have hset := Inv.setDestructor hreserved hr (r.destructor || method.destructor)
  have hentries : ∀ n ∈ request.newIds, (s.map.clientEntries ++ List.replicate c 0)[n.id.toNat]? = some 0 := by
    intro n hn
    have hlt := hg.lt (List.mem_map_of_mem hn)
    rw [List.getElem?_append]
    split
    case isTrue hlt =>
      have hget := List.getElem?_eq_getElem hlt
      rw [hget, hzero n hn _ hget]
    case isFalse hle => exact List.getElem?_replicate_of_lt (by omega)
  have ⟨s', hs', hserves⟩ := hset.createResources request.newIds (fun n hn => (hids n hn).2) hentries hd
  have heq : s.handleRequest methods request = s' := by
    rw [Server.handleRequest]
    simp only [← hid, h.lookup hr, hr, hm, hc, hs', Option.getD_some]
  rw [heq]
  refine ⟨⟨hserves.inv, hserves.error, ?_, ?_⟩, ?_⟩
  · intro n
    constructor
    case mp =>
      rintro ⟨b, r', hr', hn⟩
      cases hserves.new b r' hr' with
      | inr hnew => exact .inr (hn ▸ hnew)
      | inl hold =>
        dsimp only at hold
        rw [Function.update_apply] at hold
        split at hold
        case isTrue =>
          cases hold
          exact .inl ⟨a, r, hr, hn⟩
        case isFalse => exact .inl ⟨b, r', hold, hn⟩
    case mpr =>
      rintro (⟨b, r', hr', hn⟩ | hn)
      · by_cases heq : b = a
        case pos =>
          cases heq
          cases hr.symm.trans hr'
          exact ⟨a, _, hserves.old _ _ (Function.update_self ..), hn⟩
        case neg => exact ⟨b, r', hserves.old _ _ ((Function.update_of_ne heq ..).trans hr'), hn⟩
      · have ⟨b, r', hr', hnew, _⟩ := hserves.created n hn
        exact ⟨b, r', hr', hnew⟩
  · rintro proxy (⟨⟨b, r', hr', hp, hf⟩, hnot⟩ | ⟨n, hn, hp⟩)
    · by_cases heq : b = a
      case pos =>
        cases heq
        cases hr.symm.trans hr'
        have hdestructor : method.destructor = false :=
          Bool.eq_false_of_not_eq_true fun ht => hnot ⟨ht, hp.symm.trans hproxy⟩
        exact ⟨a, _, hserves.old _ _ (Function.update_self ..), hp, by rw [hf, hdestructor]; rfl⟩
      case neg => exact ⟨b, r', hserves.old _ _ ((Function.update_of_ne heq ..).trans hr'), hp, hf⟩
    · have ⟨b, r', hr', hnew, hf⟩ := hserves.created n hn
      exact ⟨b, r', hr', by rw [← hp, ← hnew]; rfl, hf⟩
  · rw [hserves.length, List.length_append, List.length_replicate, hk]

theorem Inv.resourceDestroy (h : s.Inv) (hr : s.resources a = some r) :
    (s.resourceDestroy a r).Inv ∧ (s.resourceDestroy a r).error = s.error ∧
    (s.resourceDestroy a r).map.clientEntries.length = s.map.clientEntries.length ∧
    ∀ b r', (s.resourceDestroy a r).resources b = some r' ↔ s.resources b = some r' ∧ b ≠ a := by
  have ⟨hentry, hle, _⟩ := h.resources a r hr
  have ⟨hlt, _⟩ := List.getElem?_eq_some_iff.mp hentry
  have hresources (b : ℕ) (r' : Resource Interface) :
      Function.update s.resources a none b = some r' ↔ s.resources b = some r' ∧ b ≠ a := by
    rw [Function.update_apply]
    split
    case isTrue heq => simp [heq]
    case isFalse heq => simp [heq]
  rw [Server.resourceDestroy, WlMap.insertAt_client (Nat.lt_of_le_of_lt hle (by decide)) hle hlt, mapEntry_zero]
  refine ⟨?_, rfl, List.length_set .., hresources⟩
  constructor
  case side => exact h.side
  case entries =>
    intro i word hword
    rw [Option.getD_some, List.getElem?_set] at hword
    split at hword
    case isTrue => exact .inl (by simpa using hword.symm)
    case isFalse hne =>
      refine (h.entries i word hword).imp_right fun ⟨r', hr', hi⟩ => ⟨r', (hresources word r').mpr ⟨hr', ?_⟩, hi⟩
      intro heq
      cases heq
      cases hr.symm.trans hr'
      exact hne hi
  case resources =>
    intro b r' hr'
    have ⟨hr', hne⟩ := (hresources b r').mp hr'
    have ⟨hentry, hrest⟩ := h.resources b r' hr'
    refine ⟨(List.getElem?_set_ne fun heq => hne ?_).trans hentry, hrest⟩
    exact h.unique hr' hr (UInt32.toNat_inj.mp heq.symm)

end Server

namespace Objects

variable {Interface : Type} {o o' : Objects Interface} {a address : ℕ} {proxy p : Proxy Interface}
variable {newId n : NewId Interface} {sent sent' rest : List (NewId Interface)} {s s' : Server Interface}
variable {gone gone' : List (ObjectId × Address)} {deleted : List Address} {id : ObjectId}

-- The proxy at the address has the id.
def Names (o : Objects Interface) (address : Address) (id : ObjectId) : Prop :=
  ∃ p, o.proxyAt address = some p ∧ p.id = id

structure Keeps (o o' : Objects Interface) : Prop where
  forth : ∀ a p, o.proxyAt a = some p → ∃ p', o'.proxyAt a = some p' ∧ p'.id = p.id ∧ p'.interface = p.interface ∧
    (p.destroyed = true → p'.destroyed = true)

theorem Keeps.names (h : o.Keeps o') (hn : o.Names a id) : o'.Names a id := by
  have ⟨p, hp, hid⟩ := hn
  have ⟨p', hp', hid', _⟩ := h.forth a p hp
  exact ⟨p', hp', hid'.trans hid⟩

-- An object of the client is known to the server from its new id on until its `delete_id` has been processed. On the
-- way it is one of `sent`, has a resource, and is one of `gone`.
structure Tracked (o : Objects Interface) (sent : List (NewId Interface)) (s : Server Interface)
    (gone : List (ObjectId × Address)) (deleted : List Address) : Prop where
  objects   : ∃ free, o.Inv free
  server    : s.Inv
  ids       : ∀ a p, o.proxyAt a = some p → 0 < p.id.toNat ∧ p.id.toNat ≤ WL_MAP_MAX_OBJECTS
  created   : ∀ n ∈ sent, o.Names n.proxy n.id ∧ n.proxy ∉ deleted
  served    : ∀ n, s.Has n → o.Names n.proxy n.id ∧ n.proxy ∉ deleted
  removed   : ∀ t ∈ gone, o.Names t.2 t.1 ∧ t.2 ∉ deleted ∧ t.1.toNat < s.map.clientEntries.length
  nodup     : (sent.map NewId.id ++ gone.map Prod.fst).Nodup
  apart     : ∀ n, s.Has n → n.id ∉ sent.map NewId.id ++ gone.map Prod.fst
  reused    : ∀ a b p q, a < b → o.proxyAt a = some p → o.proxyAt b = some q → p.id = q.id →
    p.destroyed = true ∧ a ∈ deleted
  zombies   : ∀ a p, o.proxyAt a = some p → p.destroyed = true → a ∉ deleted → o.map.objectIsZombie p.id
  idDeleted : ∀ a p, o.proxyAt a = some p → p.idDeleted = true → a ∈ deleted
  processed : ∀ a ∈ deleted, ∃ p, o.proxyAt a = some p ∧ p.id.toNat < s.map.clientEntries.length
  free      : ∀ i, WlMap.FreeEntry o.map.clientEntries i → i < s.map.clientEntries.length

-- As long as the client sends what it creates, the server is told all ids in turn.
def Growing (o : Objects Interface) (sent : List (NewId Interface)) (s : Server Interface) (stopped : Prop) : Prop :=
  ∃ m, Grows s.map.clientEntries.length (sent.map fun n => n.id.toNat) m ∧
    (stopped ∨ WL_MAP_MAX_OBJECTS < o.map.clientEntries.length ∨ o.map.clientEntries.length = m)

-- What the objects that a request creates are to the client.
structure Outgoing (o o' : Objects Interface) (newIds : List (NewId Interface)) : Prop where
  old : ∀ a p, o.proxyAt a = some p → o'.proxyAt a = some p
  new : ∀ n ∈ newIds, o.proxyAt n.proxy = none ∧ ∃ p, o'.proxyAt n.proxy = some p ∧ p.interface = n.interface

namespace Tracked

theorem client (h : o.Tracked sent s gone deleted) (hp : o.proxyAt a = some p) :
    p.id.toNat < WL_SERVER_ID_START :=
  Nat.lt_of_le_of_lt (h.ids a p hp).2 (by decide)

-- What the server may still tell of an object is for its proxy, or for a zombie.
theorem reaches (h : o.Tracked sent s gone deleted) (hn : o.Names a id) (hd : a ∉ deleted) :
    o.map.objectIsZombie id ∨ ∃ p, o.Live a p ∧ p.id = id := by
  have ⟨p, hp, hid⟩ := hn
  cases hdestroyed : p.destroyed with
  | true => exact .inl (hid ▸ h.zombies a p hp hdestroyed hd)
  | false => exact .inr ⟨p, ⟨hp, hdestroyed⟩, hid⟩

theorem perm (h : o.Tracked sent s gone deleted) (hg : gone.Perm gone') : o.Tracked sent s gone' deleted :=
  have hmap := (hg.map Prod.fst).append_left (sent.map NewId.id)
  { h with
    removed := fun t ht => h.removed t (hg.mem_iff.mpr ht)
    nodup := hmap.nodup_iff.mp h.nodup
    apart := fun n hn hmem => h.apart n hn (hmap.mem_iff.mpr hmem) }

-- What has not been sent is forgotten.
theorem drop (h : o.Tracked (sent ++ sent') s gone deleted) : o.Tracked sent s gone deleted :=
  { h with
    created := fun n hn => h.created n (List.mem_append_left _ hn)
    nodup := by
      refine h.nodup.sublist ?_
      rw [List.map_append]
      exact (List.sublist_append_left ..).append_right _
    apart := fun n hn hmem => h.apart n hn (by
      rw [List.map_append]
      exact (List.mem_append.mp hmem).elim (fun hm => by simp [hm]) fun hm => by simp [hm]) }

-- An id that is free again is not that of anything the server knows.
theorem unused (h : o.Tracked sent s gone deleted) (hc : o.Created o' proxy) (hp : o.proxyAt a = some p)
    (hid : p.id = proxy.id) : p.destroyed = true ∧ a ∈ deleted := by
  have hdestroyed : p.destroyed = true := by
    by_contra hn
    exact hc.unused.2 a p ⟨hp, Bool.eq_false_of_not_eq_true hn⟩ hid
  refine ⟨hdestroyed, ?_⟩
  by_contra hn
  exact hc.unused.1 (hid ▸ h.zombies a p hp hdestroyed hn)

theorem ne_of_names (h : o.Tracked sent s gone deleted) (hc : o.Created o' proxy) (hn : o.Names a id)
    (hd : a ∉ deleted) : id ≠ proxy.id := by
  have ⟨p, hp, hid⟩ := hn
  exact fun heq => hd (h.unused hc hp (hid.trans heq)).2

theorem create (h : o.Tracked sent s gone deleted) (hi : ∃ free, o'.Inv free) (hc : o.Created o' proxy)
    (hdestroyed : proxy.destroyed = false) (hdeleted : proxy.idDeleted = false) :
    o'.Tracked (sent ++ [{ id := proxy.id, interface := proxy.interface, proxy := o.fresh }]) s gone deleted := by
  have ⟨_, ho⟩ := h.objects
  have hold (a : ℕ) (p : Proxy Interface) (hp : o.proxyAt a = some p) : o'.proxyAt a = some p := by
    rw [hc.proxyAt, if_neg (ho.lt_fresh hp).ne, hp]
  have hnew : o'.proxyAt o.fresh = some proxy := by rw [hc.proxyAt, if_pos rfl]
  have hcases (a : ℕ) (p : Proxy Interface) (hp : o'.proxyAt a = some p) :
      a = o.fresh ∧ p = proxy ∨ o.proxyAt a = some p := by
    rw [hc.proxyAt] at hp
    split at hp
    case isTrue heq => exact .inl ⟨heq, (Option.some.inj hp).symm⟩
    case isFalse => exact .inr hp
  have hfresh : o.fresh ∉ deleted := fun hmem => by
    have ⟨p, hp, _⟩ := h.processed _ hmem
    cases ho.proxyAt_fresh.symm.trans hp
  have hnames {a : ℕ} {id : ObjectId} : o.Names a id → o'.Names a id := fun ⟨p, hp, hid⟩ => ⟨p, hold a p hp, hid⟩
  have hnot : proxy.id ∉ sent.map NewId.id ++ gone.map Prod.fst := fun hmem => by
    cases List.mem_append.mp hmem with
    | inl hmem =>
      have ⟨n, hn, hid⟩ := List.mem_map.mp hmem
      exact h.ne_of_names hc (h.created n hn).1 (h.created n hn).2 hid
    | inr hmem =>
      have ⟨t, ht, hid⟩ := List.mem_map.mp hmem
      exact h.ne_of_names hc (h.removed t ht).1 (h.removed t ht).2.1 hid
  constructor
  case objects => exact hi
  case server => exact h.server
  case ids =>
    intro a p hp
    cases hcases a p hp with
    | inl heq => exact heq.2 ▸ hc.id
    | inr hp => exact h.ids a p hp
  case created =>
    intro n hn
    cases List.mem_append.mp hn with
    | inl hn => exact (h.created n hn).imp_left hnames
    | inr hn =>
      cases List.mem_singleton.mp hn
      exact ⟨⟨proxy, hnew, rfl⟩, hfresh⟩
  case served => exact fun n hn => (h.served n hn).imp_left hnames
  case removed => exact fun t ht => (h.removed t ht).imp_left hnames
  case nodup =>
    rw [List.map_append, List.append_assoc]
    exact List.nodup_middle.mpr (List.nodup_cons.mpr ⟨hnot, h.nodup⟩)
  case apart =>
    intro n hn hmem
    have hne := h.ne_of_names hc (h.served n hn).1 (h.served n hn).2
    rw [List.map_append, List.append_assoc] at hmem
    cases List.mem_append.mp hmem with
    | inl hmem => exact h.apart n hn (List.mem_append_left _ hmem)
    | inr hmem => exact h.apart n hn (List.mem_append_right _ ((List.mem_cons.mp hmem).resolve_left hne))
  case reused =>
    intro a b p q hlt hp hq hid
    cases hcases a p hp with
    | inl heq =>
      cases hcases b q hq with
      | inl heq' => exact absurd (heq.1.trans heq'.1.symm) hlt.ne
      | inr hq => exact absurd (ho.lt_fresh hq) (by rw [← heq.1]; exact hlt.not_gt)
    | inr hp =>
      cases hcases b q hq with
      | inl heq' => exact h.unused hc hp (hid.trans (congrArg _ heq'.2))
      | inr hq => exact h.reused a b p q hlt hp hq hid
  case zombies =>
    intro a p hp hd hmem
    cases hcases a p hp with
    | inl heq =>
      rw [heq.2, hdestroyed] at hd
      cases hd
    | inr hp => exact (hc.zombie _).mpr (h.zombies a p hp hd hmem)
  case idDeleted =>
    intro a p hp hd
    cases hcases a p hp with
    | inl heq =>
      rw [heq.2, hdeleted] at hd
      cases hd
    | inr hp => exact h.idDeleted a p hp hd
  case processed =>
    intro a ha
    have ⟨p, hp, hlt⟩ := h.processed a ha
    exact ⟨p, hold a p hp, hlt⟩
  case free => exact fun i hi => h.free i (hc.free i hi)

theorem evolve {deleted' : List Address} (h : o.Tracked sent s gone deleted) (hi : ∃ free, o'.Inv free)
    (hk : o.Keeps o') (hb : ∀ a p', o'.proxyAt a = some p' → ∃ p, o.proxyAt a = some p ∧ p.id = p'.id)
    (hg : gone'.Sublist gone) (hsub : ∀ a ∈ deleted, a ∈ deleted')
    (hnot : ∀ a id, o.Names a id → a ∉ deleted →
      (id ∈ sent.map NewId.id ++ gone'.map Prod.fst ∨ ∃ n, s.Has n ∧ n.id = id) → a ∉ deleted')
    (hz : ∀ a p, o'.proxyAt a = some p → p.destroyed = true → a ∉ deleted' → o'.map.objectIsZombie p.id)
    (hd : ∀ a p, o'.proxyAt a = some p → p.idDeleted = true → a ∈ deleted')
    (hp : ∀ a ∈ deleted', ∃ p, o.proxyAt a = some p ∧ p.id.toNat < s.map.clientEntries.length)
    (hf : ∀ i, WlMap.FreeEntry o'.map.clientEntries i → i < s.map.clientEntries.length) :
    o'.Tracked sent s gone' deleted' := by
  have hmap := (hg.map Prod.fst).append_left (sent.map NewId.id)
  constructor
  case objects => exact hi
  case server => exact h.server
  case ids =>
    intro a p' hp'
    have ⟨p, hp, hid⟩ := hb a p' hp'
    exact hid ▸ h.ids a p hp
  case created =>
    intro n hn
    have ⟨hnames, hd⟩ := h.created n hn
    exact ⟨hk.names hnames, hnot _ _ hnames hd (.inl (List.mem_append_left _ (List.mem_map_of_mem hn)))⟩
  case served =>
    intro n hn
    have ⟨hnames, hd⟩ := h.served n hn
    exact ⟨hk.names hnames, hnot _ _ hnames hd (.inr ⟨n, hn, rfl⟩)⟩
  case removed =>
    intro t ht
    have ⟨hnames, hd, hlt⟩ := h.removed t (hg.subset ht)
    exact ⟨hk.names hnames, hnot _ _ hnames hd (.inl (List.mem_append_right _ (List.mem_map_of_mem ht))), hlt⟩
  case nodup => exact h.nodup.sublist hmap
  case apart => exact fun n hn hmem => h.apart n hn (hmap.subset hmem)
  case reused =>
    intro a b p' q' hlt hp' hq' hid
    have ⟨p, hp, hpid⟩ := hb a p' hp'
    have ⟨q, hq, hqid⟩ := hb b q' hq'
    have ⟨hdestroyed, hmem⟩ := h.reused a b p q hlt hp hq (hpid.trans (hid.trans hqid.symm))
    have ⟨p'', hp'', _, _, hkept⟩ := hk.forth a p hp
    cases hp'.symm.trans hp''
    exact ⟨hkept hdestroyed, hsub a hmem⟩
  case zombies => exact hz
  case idDeleted => exact hd
  case processed =>
    intro a ha
    have ⟨p, hp, hlt⟩ := hp a ha
    have ⟨p', hp', hid, _⟩ := hk.forth a p hp
    exact ⟨p', hp', hid ▸ hlt⟩
  case free => exact hf

theorem keeps_destroyed (hd : o.Destroyed o' a p) (hl : o.Live a p) : o.Keeps o' where
  forth := fun b q hq => by
    rw [hd.proxyAt]
    split
    case isTrue heq =>
      cases heq
      cases hl.proxyAt.symm.trans hq
      exact ⟨_, rfl, rfl, rfl, fun _ => rfl⟩
    case isFalse => exact ⟨q, hq, rfl, rfl, id⟩

theorem destroy (h : o.Tracked sent s gone deleted) (hi : ∃ free, o'.Inv free) (hl : o.Live a p)
    (hd : o.Destroyed o' a p) : o'.Tracked sent s gone deleted := by
  have hcases (b : ℕ) (q : Proxy Interface) (hq : o'.proxyAt b = some q) :
      b = a ∧ q = { p with destroyed := true, queue := none } ∨ o.proxyAt b = some q := by
    rw [hd.proxyAt] at hq
    split at hq
    case isTrue heq => exact .inl ⟨heq, (Option.some.inj hq).symm⟩
    case isFalse => exact .inr hq
  refine h.evolve hi (keeps_destroyed hd hl) ?_ (List.Sublist.refl _) (fun _ hmem => hmem) (fun _ _ _ hn _ => hn)
    ?_ ?_ h.processed ?_
  · intro b q hq
    cases hcases b q hq with
    | inl heq => exact ⟨p, heq.1 ▸ hl.proxyAt, by rw [heq.2]⟩
    | inr hq => exact ⟨q, hq, rfl⟩
  · intro b q hq hdestroyed hmem
    rw [hd.zombie]
    cases hcases b q hq with
    | inl heq =>
      refine .inl ⟨by rw [heq.2], Bool.eq_false_of_not_eq_true fun ht => hmem ?_⟩
      exact heq.1 ▸ h.idDeleted a p hl.proxyAt ht
    | inr hq => exact .inr (h.zombies b q hq hdestroyed hmem)
  · intro b q hq hdeleted
    cases hcases b q hq with
    | inl heq =>
      rw [heq.2] at hdeleted
      exact heq.1 ▸ h.idDeleted a p hl.proxyAt hdeleted
    | inr hq => exact h.idDeleted b q hq hdeleted
  · intro i hi
    cases hd.free i hi with
    | inl hi => exact h.free i hi
    | inr hi =>
      have ⟨q, hq, hlt⟩ := h.processed a (h.idDeleted a p hl.proxyAt hi.2)
      cases hl.proxyAt.symm.trans hq
      exact hi.1 ▸ hlt

theorem keeps_setProxy {p' : Proxy Interface} (hl : o.Live a p) (hid : p'.id = p.id)
    (hinterface : p'.interface = p.interface) : o.Keeps (o.setProxy a p') where
  forth := fun b q hq => by
    rw [(writes_setProxy o.map).proxyAt]
    split
    case isTrue heq =>
      cases heq
      cases hl.proxyAt.symm.trans hq
      exact ⟨p', rfl, hid, hinterface, fun hd => nomatch hl.alive.symm.trans hd⟩
    case isFalse => exact ⟨q, hq, rfl, rfl, id⟩

theorem proxyAt_setProxy {p' q : Proxy Interface} {b : ℕ} (hq : (o.setProxy a p').proxyAt b = some q) :
    b = a ∧ q = p' ∨ o.proxyAt b = some q := by
  have hw : o.Writes (o.setProxy a p') a p' := writes_setProxy o.map
  rw [hw.proxyAt] at hq
  split at hq
  case isTrue heq => exact .inl ⟨heq, (Option.some.inj hq).symm⟩
  case isFalse => exact .inr hq

theorem live_setProxy {p' q : Proxy Interface} {b : ℕ} (hl : o.Live a p) (halive : p'.destroyed = false)
    (hid : p'.id = p.id) (hq : o.Live b q) : ∃ q', (o.setProxy a p').Live b q' ∧ q'.id = q.id := by
  have hw : o.Writes (o.setProxy a p') a p' := writes_setProxy o.map
  by_cases heq : b = a
  case pos =>
    cases heq
    cases hl.proxyAt.symm.trans hq.proxyAt
    exact ⟨p', ⟨(hw.proxyAt _).trans (if_pos rfl), halive⟩, hid⟩
  case neg => exact ⟨q, ⟨(hw.proxyAt _).trans ((if_neg heq).trans hq.proxyAt), hq.alive⟩, rfl⟩

theorem setProxy {p' : Proxy Interface} {deleted' : List Address} (h : o.Tracked sent s gone deleted) (hl : o.Live a p)
    (hid : p'.id = p.id) (hinterface : p'.interface = p.interface) (halive : p'.destroyed = false)
    (hg : gone'.Sublist gone) (hsub : ∀ a ∈ deleted, a ∈ deleted')
    (hnot : ∀ a id, o.Names a id → a ∉ deleted →
      (id ∈ sent.map NewId.id ++ gone'.map Prod.fst ∨ ∃ n, s.Has n ∧ n.id = id) → a ∉ deleted')
    (hd : p'.idDeleted = true → a ∈ deleted')
    (hp : ∀ a ∈ deleted', ∃ p, o.proxyAt a = some p ∧ p.id.toNat < s.map.clientEntries.length) :
    (o.setProxy a p').Tracked sent s gone' deleted' := by
  have ⟨free, ho⟩ := h.objects
  refine h.evolve ⟨free, ho.setProxy hl halive hid⟩ (keeps_setProxy hl hid hinterface) ?_ hg hsub hnot ?_ ?_ hp h.free
  · intro b q hq
    cases proxyAt_setProxy hq with
    | inl heq => exact ⟨p, heq.1 ▸ hl.proxyAt, by rw [heq.2, hid]⟩
    | inr hq => exact ⟨q, hq, rfl⟩
  · intro b q hq hdestroyed hmem
    cases proxyAt_setProxy hq with
    | inl heq =>
      rw [heq.2, halive] at hdestroyed
      cases hdestroyed
    | inr hq => exact h.zombies b q hq hdestroyed fun hn => hmem (hsub b hn)
  · intro b q hq hdeleted
    cases proxyAt_setProxy hq with
    | inl heq => exact heq.1 ▸ hd (heq.2 ▸ hdeleted)
    | inr hq => exact hsub b (h.idDeleted b q hq hdeleted)

-- The `delete_id` of an object is processed.
theorem handleDeleteId {t : ObjectId × Address} (h : o.Tracked sent s (t :: gone) deleted) :
    (o.handleDeleteId t.1).Tracked sent s gone (t.2 :: deleted) ∧ o.Keeps (o.handleDeleteId t.1) ∧
    (∀ a p, o.Live a p → ∃ p', (o.handleDeleteId t.1).Live a p' ∧ p'.id = p.id) ∧
    (o.handleDeleteId t.1).map.clientEntries.length = o.map.clientEntries.length := by
  have ⟨free, ho⟩ := h.objects
  have ⟨hnames, hd, hlt⟩ := h.removed t List.mem_cons_self
  have hnot (a : ℕ) (id : ObjectId) (hn : o.Names a id) (ha : a ∉ deleted)
      (hid : id ∈ sent.map NewId.id ++ gone.map Prod.fst ∨ ∃ n, s.Has n ∧ n.id = id) : a ∉ t.2 :: deleted := by
    intro hmem
    cases (List.mem_cons.mp hmem).resolve_right ha
    have ⟨p, hp, hpid⟩ := hn
    have ⟨q, hq, hqid⟩ := hnames
    cases hp.symm.trans hq
    cases hpid.symm.trans hqid
    cases hid with
    | inl hid => exact (List.nodup_cons.mp (List.nodup_middle.mp h.nodup)).1 hid
    | inr hid =>
      have ⟨n, hn, heq⟩ := hid
      exact h.apart n hn (heq ▸ List.mem_append_right _ List.mem_cons_self)
  have hprocessed (a : ℕ) (ha : a ∈ t.2 :: deleted) :
      ∃ p, o.proxyAt a = some p ∧ p.id.toNat < s.map.clientEntries.length := by
    cases List.mem_cons.mp ha with
    | inl heq =>
      have ⟨p, hp, hid⟩ := hnames
      exact ⟨p, heq ▸ hp, hid ▸ hlt⟩
    | inr ha => exact h.processed a ha
  cases h.reaches hnames hd with
  | inl hz =>
    have ⟨hproxyAt, hzombie, hlength, hfree⟩ := ho.handleDeleteId_zombie hz
    have hkeeps : o.Keeps (o.handleDeleteId t.1) :=
      ⟨fun a p hp => ⟨p, (hproxyAt a).trans hp, rfl, rfl, id⟩⟩
    refine ⟨h.evolve ho.handleDeleteId hkeeps ?_ (List.sublist_cons_self ..) (fun a => List.mem_cons_of_mem _) hnot ?_
      ?_ hprocessed ?_, hkeeps, fun a p hl => ⟨p, ⟨(hproxyAt a).trans hl.proxyAt, hl.alive⟩, rfl⟩, hlength⟩
    · exact fun a p hp => ⟨p, (hproxyAt a).symm.trans hp, rfl⟩
    · intro a p hp hdestroyed hmem
      have ⟨hne, hmem⟩ := not_or.mp (List.mem_cons.not.mp hmem)
      rw [hproxyAt] at hp
      refine (hzombie p.id).mpr ⟨h.zombies a p hp hdestroyed hmem, fun heq => ?_⟩
      have ⟨q, hq, hqid⟩ := hnames
      cases Nat.lt_or_gt_of_ne hne with
      | inl hlt => exact hmem (h.reused _ _ p q hlt hp hq (heq.trans hqid.symm)).2
      | inr hlt => exact hd (h.reused _ _ q p hlt hq hp (hqid.trans heq.symm)).2
    · exact fun a p hp hdeleted => List.mem_cons_of_mem _ (h.idDeleted a p ((hproxyAt a).symm.trans hp) hdeleted)
    · intro i hi
      cases hfree i hi with
      | inl hi => exact h.free i hi
      | inr hi => exact hi ▸ hlt
  | inr hlive =>
    have ⟨p, hl, hid⟩ := hlive
    rw [← hid, ho.handleDeleteId_live hl (h.client hl.proxyAt)]
    refine ⟨?_, keeps_setProxy hl rfl rfl, fun _ _ => live_setProxy hl hl.alive rfl, rfl⟩
    exact h.setProxy hl rfl rfl hl.alive (List.sublist_cons_self ..) (fun a => List.mem_cons_of_mem _) hnot
      (fun _ => List.mem_cons_self) hprocessed

theorem handleRequest {request : Request Interface} {destructor : Bool}
    (h : o.Tracked (request.newIds ++ rest) s gone deleted) (hh : s.Handles s' request destructor)
    (hle : s.map.clientEntries.length ≤ s'.map.clientEntries.length) : o.Tracked rest s' gone deleted := by
  have hnodup := h.nodup
  rw [List.map_append, List.append_assoc, List.nodup_append'] at hnodup
  have ⟨_, hrest, hdisjoint⟩ := hnodup
  constructor
  case objects => exact h.objects
  case server => exact hh.inv
  case ids => exact h.ids
  case created => exact fun n hn => h.created n (List.mem_append_right _ hn)
  case served =>
    intro n hn
    cases (hh.has n).mp hn with
    | inl hn => exact h.served n hn
    | inr hn => exact h.created n (List.mem_append_left _ hn)
  case removed => exact fun t ht => (h.removed t ht).imp_right (And.imp_right fun hlt => hlt.trans_le hle)
  case nodup => exact hrest
  case apart =>
    intro n hn hmem
    cases (hh.has n).mp hn with
    | inl hn =>
      refine h.apart n hn ?_
      rw [List.map_append, List.append_assoc]
      exact List.mem_append_right _ hmem
    | inr hn => exact hdisjoint (List.mem_map_of_mem hn) hmem
  case reused => exact h.reused
  case zombies => exact h.zombies
  case idDeleted => exact h.idDeleted
  case processed =>
    intro a ha
    have ⟨p, hp, hlt⟩ := h.processed a ha
    exact ⟨p, hp, hlt.trans_le hle⟩
  case free => exact fun i hi => (h.free i hi).trans_le hle

theorem resourceDestroy {r : Resource Interface} (h : o.Tracked sent s gone deleted) (hr : s.resources a = some r) :
    o.Tracked sent (s.resourceDestroy a r) (gone ++ [(r.id, r.proxy)]) deleted := by
  have ⟨hinv, _, hlength, hresources⟩ := h.server.resourceDestroy hr
  have hhas (n : NewId Interface) (hn : (s.resourceDestroy a r).Has n) : s.Has n ∧ n.id ≠ r.id := by
    have ⟨b, r', hr', hid⟩ := hn
    have ⟨hr', hne⟩ := (hresources b r').mp hr'
    exact ⟨⟨b, r', hr', hid⟩, fun heq => hne (h.server.unique hr' hr ((congrArg NewId.id hid).trans heq))⟩
  have hold : s.Has r.newId := ⟨a, r, hr, rfl⟩
  have ⟨hentry, _⟩ := h.server.resources a r hr
  constructor
  case objects => exact h.objects
  case server => exact hinv
  case ids => exact h.ids
  case created => exact h.created
  case served => exact fun n hn => h.served n (hhas n hn).1
  case removed =>
    rw [hlength]
    intro t ht
    cases List.mem_append.mp ht with
    | inl ht => exact h.removed t ht
    | inr ht =>
      cases List.mem_singleton.mp ht
      have ⟨hnames, hd⟩ := h.served _ hold
      exact ⟨hnames, hd, (List.getElem?_eq_some_iff.mp hentry).1⟩
  case nodup =>
    rw [List.map_append, ← List.append_assoc]
    refine List.nodup_middle.mpr (List.nodup_cons.mpr ?_)
    rw [List.map_nil, List.append_nil]
    exact ⟨h.apart _ hold, h.nodup⟩
  case apart =>
    intro n hn hmem
    have ⟨hn, hne⟩ := hhas n hn
    rw [List.map_append, ← List.append_assoc] at hmem
    cases List.mem_append.mp hmem with
    | inl hmem => exact h.apart n hn hmem
    | inr hmem => exact hne (List.mem_singleton.mp hmem)
  case reused => exact h.reused
  case zombies => exact h.zombies
  case idDeleted => exact h.idDeleted
  case processed => exact hlength ▸ h.processed
  case free => exact hlength ▸ h.free

theorem growing_create (h : o.Tracked sent s gone deleted) (hc : o.Created o' proxy) (hn : n.id = proxy.id)
    (hg : Growing o sent s False) : Growing o' (sent ++ [n]) s False := by
  have ⟨m, hgrows, hlength⟩ := hg
  rw [Growing, List.map_append, List.map_singleton, hn]
  cases hc.length with
  | inl hold =>
    have hlt := (h.free _ hold.1).trans_le hgrows.le
    exact ⟨m, hgrows.append (.old hlt .nil), hold.2 ▸ hlength⟩
  | inr hnew =>
    have hle := hc.id.2
    have hm : m = proxy.id.toNat := by
      rcases hlength with hf | hmax | heq
      · cases hf
      · omega
      · omega
    refine ⟨m + 1, hgrows.append (hm ▸ .new .nil), .inr (.inr ?_)⟩
    omega

-- The entry that is left over when there are too many objects.
theorem overflow (h : o.Tracked sent s gone deleted) {map : WlMap} (hi : ∃ free, Inv { o with map } free)
    (hm : map = { o.map with clientEntries := o.map.clientEntries ++ [0] })
    (hmax : WL_MAP_MAX_OBJECTS < o.map.clientEntries.length) :
    Tracked { o with map } sent s gone deleted := by
  have ⟨_, ho⟩ := h.objects
  have hentries (i word : ℕ) (hword : o.map.clientEntries[i]? = some word) : map.clientEntries[i]? = some word := by
    rw [hm]
    exact (List.getElem?_append_left (List.getElem?_eq_some_iff.mp hword).1).trans hword
  refine h.evolve hi ⟨fun a p hp => ⟨p, hp, rfl, rfl, id⟩⟩ (fun a p hp => ⟨p, hp, rfl⟩) (List.Sublist.refl _)
    (fun _ hmem => hmem) (fun _ _ _ hn _ => hn) ?_ h.idDeleted h.processed ?_
  · intro a p hp hdestroyed hmem
    have ⟨hid, word, hword, hz⟩ := (WlMap.objectIsZombie_iff ho.map.side).mp (h.zombies a p hp hdestroyed hmem)
    exact (WlMap.objectIsZombie_iff (by rw [hm]; exact ho.map.side)).mpr ⟨hid, word, hentries _ _ hword, hz⟩
  · rintro i ⟨hpos, hle, word, hword, hlink⟩
    rw [hm, List.getElem?_append_left (by omega)] at hword
    exact h.free i ⟨hpos, hle, word, hword, hlink⟩

theorem createOutgoingProxies (queue : Option EventQueue) (interface : Interface) (args : List ArgumentDetails)
    (h : o.Tracked sent s gone deleted) :
    match o.createOutgoingProxies queue interface args with
    | (o', some newIds) => o'.Tracked (sent ++ newIds) s gone deleted ∧ o.Outgoing o' newIds ∧
      (Growing o sent s False → Growing o' (sent ++ newIds) s False)
    | (o', none) => o'.Tracked sent s gone deleted ∧ o.Outgoing o' [] ∧
      WL_MAP_MAX_OBJECTS < o'.map.clientEntries.length := by
  induction args generalizing o sent
  case nil => exact ⟨by rwa [List.append_nil], ⟨fun _ _ hp => hp, nofun⟩, by rw [List.append_nil]; exact id⟩
  case cons details others ih =>
    rw [Objects.createOutgoingProxies]
    by_cases htype : details.type = .newId
    case neg =>
      rw [if_pos htype]
      exact ih h
    case pos =>
      rw [if_neg (not_not.mpr htype)]
      have ⟨free, ho⟩ := h.objects
      have hinv : ∃ free, (o.proxyCreate interface queue).1.Inv free := ho.proxyCreate
      rcases ho.proxyCreate_spec interface queue with ⟨map, heq, hmap, hmax⟩ | ⟨o₁, id, heq, hc⟩
      · rw [heq] at hinv ⊢
        refine ⟨h.overflow hinv hmap hmax, ⟨fun _ _ hp => hp, nofun⟩, ?_⟩
        rw [hmap, List.length_append]
        omega
      · rw [heq] at hinv ⊢
        have hne : o.fresh ≠ 0 := fresh_pos.ne'
        have hid : ((o₁.proxyAt o.fresh).map Proxy.id).getD 0 = id := by
          rw [hc.proxyAt, if_pos rfl]
          rfl
        have hold (a : ℕ) (p : Proxy Interface) (hp : o.proxyAt a = some p) : o₁.proxyAt a = some p := by
          rw [hc.proxyAt, if_neg (ho.lt_fresh hp).ne, hp]
        dsimp only
        rw [if_neg hne, hid]
        have ih := ih (h.create hinv hc rfl rfl)
        generalize o₁.createOutgoingProxies queue interface others = result at ih ⊢
        have ⟨o₂, newIds⟩ := result
        cases newIds with
        | none =>
          have ⟨h₂, hout, hmax⟩ := ih
          exact ⟨h₂.drop, ⟨fun a p hp => hout.old a p (hold a p hp), nofun⟩, hmax⟩
        | some newIds =>
          have ⟨h₂, hout, hgrow⟩ := ih
          rw [List.append_assoc] at h₂ hgrow
          refine ⟨h₂, ⟨fun a p hp => hout.old a p (hold a p hp), fun n hn => ?_⟩, fun hg => ?_⟩
          · cases List.mem_cons.mp hn with
            | inl heq =>
              subst heq
              exact ⟨ho.proxyAt_fresh, _, hout.old _ _ ((hc.proxyAt _).trans (if_pos rfl)), rfl⟩
            | inr hn =>
              refine (hout.new n hn).imp_left fun hnone => ?_
              rw [hc.proxyAt] at hnone
              split at hnone
              case isTrue => cases hnone
              case isFalse => exact hnone
          · exact hgrow (h.growing_create hc rfl hg)

end Tracked

end Objects

end Libwayland
