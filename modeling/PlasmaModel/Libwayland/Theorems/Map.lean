import PlasmaModel.Lib.FreeList
import PlasmaModel.Lib.Runs
import PlasmaModel.Libwayland.Map

namespace Libwayland

variable {entry flags data i : ℕ} {id id' : ObjectId}

@[simp]
theorem mapEntryIsFree_iff : mapEntryIsFree entry = true ↔ entry % 2 = 1 := by
  rw [mapEntryIsFree, Nat.and_one_is_mod, decide_eq_true_iff]
  omega

theorem mapEntryGetData_eq : mapEntryGetData entry = entry / 4 * 4 := by
  rw [mapEntryGetData, Nat.shiftLeft_eq, Nat.shiftRight_eq_div_pow]

theorem mapEntryGetFlags_eq : mapEntryGetFlags entry = entry / 2 % 2 := by
  rw [mapEntryGetFlags, Nat.and_one_is_mod, Nat.shiftRight_eq_div_pow]

@[simp]
theorem mapEntry_zero : mapEntry 0 data = data :=
  Nat.or_zero data

theorem mapEntry_zombie (h : data % 4 = 0) : mapEntry WL_MAP_ENTRY_ZOMBIE data = data + 2 := by
  have hdata : data = 2 ^ 2 * (data / 4) := by omega
  have hor := Nat.two_pow_add_eq_or_of_lt (by decide : 2 < 2 ^ 2) (data / 4)
  rw [← hdata] at hor
  exact hor.symm

theorem ObjectId.side_client (h : id.toNat < WL_SERVER_ID_START) : ObjectId.side id = .client :=
  if_pos h

theorem ObjectId.side_server (h : ¬id.toNat < WL_SERVER_ID_START) : ObjectId.side id = .server :=
  if_neg h

theorem ObjectId.index_client (h : id.toNat < WL_SERVER_ID_START) : ObjectId.index id = id.toNat := by
  rw [ObjectId.index, ObjectId.side_client h]
  rfl

theorem ObjectId.index_server (h : ¬id.toNat < WL_SERVER_ID_START) :
    ObjectId.index id = id.toNat - WL_SERVER_ID_START := by
  rw [ObjectId.index, ObjectId.side_server h]
  rfl

namespace WlMap

variable {map map' : WlMap} {free : List ℕ}

-- What the word of a free entry, or the word for the first one, links to.
def link (word : ℕ) : Option ℕ :=
  if mapEntryIsFree word then some (word >>> 1) else none

def next (entries : List ℕ) (i : ℕ) : Option ℕ :=
  entries[i]?.bind link

def IsLink (word : ℕ) : Prop :=
  word = 0 ∨ word % 2 = 1

-- The first entry is not for an object, and those of too high ids are never used.
def FreeEntry (entries : List ℕ) (i : ℕ) : Prop :=
  0 < i ∧ i ≤ WL_MAP_MAX_OBJECTS ∧ ∃ word, entries[i]? = some word ∧ IsLink word

structure FreeList (entries : List ℕ) (freeList : ℕ) (free : List ℕ) : Prop where
  head    : IsLink freeList
  linked  : FreeList.Linked (next entries) (link freeList) free
  nodup   : free.Nodup
  entries : ∀ i ∈ free, FreeEntry entries i

variable {entries entries' : List ℕ} {freeList : ℕ}

theorem link_zero : link 0 = none :=
  rfl

theorem link_odd (h : freeList % 2 = 1) : link freeList = some (freeList / 2) := by
  rw [link, if_pos (mapEntryIsFree_iff.mpr h), Nat.shiftRight_eq_div_pow]

theorem link_push : link (i <<< 1 ||| 1) = some i := by
  have hor : i <<< 1 ||| 1 = 2 * i + 1 := by
    rw [Nat.shiftLeft_eq, Nat.mul_comm]
    exact (Nat.two_pow_add_eq_or_of_lt (by decide : 1 < 2 ^ 1) i).symm
  rw [hor, link_odd (by omega)]
  exact congrArg some (by omega)

theorem isLink_push : IsLink (i <<< 1 ||| 1) := by
  have hor : i <<< 1 ||| 1 = 2 * i + 1 := by
    rw [Nat.shiftLeft_eq, Nat.mul_comm]
    exact (Nat.two_pow_add_eq_or_of_lt (by decide : 1 < 2 ^ 1) i).symm
  exact .inr (by omega)

namespace FreeList

-- An entry that is not free can change into whatever it likes, and the array can grow.
theorem congr (h : FreeList entries freeList free) (he : ∀ j ∈ free, entries'[j]? = entries[j]?) :
    FreeList entries' freeList free where
  head := h.head
  linked := h.linked.congr fun j hj => by rw [next, next, he j hj]
  nodup := h.nodup
  entries := fun j hj => by
    have ⟨hpos, hle, word, hword, hlink⟩ := h.entries j hj
    exact ⟨hpos, hle, word, (he j hj).trans hword, hlink⟩

theorem push (h : FreeList entries freeList free) (hi : i ∉ free) (hpos : 0 < i) (hle : i ≤ WL_MAP_MAX_OBJECTS)
    (hlt : i < entries.length) : FreeList (entries.set i freeList) (i <<< 1 ||| 1) (i :: free) where
  head := isLink_push
  linked := by
    rw [link_push]
    refine h.linked.push hi ?_ ?_
    · rw [next, List.getElem?_set_self hlt, Option.bind_some]
    · intro j hj
      rw [next, next, List.getElem?_set_ne hj.symm]
  nodup := List.nodup_cons.mpr ⟨hi, h.nodup⟩
  entries := by
    intro j hj
    cases List.mem_cons.mp hj with
    | inl heq =>
      subst heq
      exact ⟨hpos, hle, freeList, List.getElem?_set_self hlt, h.head⟩
    | inr hj =>
      have ⟨hpos, hle, word, hword, hlink⟩ := h.entries j hj
      have hne : i ≠ j := fun heq => hi (heq ▸ hj)
      exact ⟨hpos, hle, word, (List.getElem?_set_ne hne).trans hword, hlink⟩

theorem pop (h : FreeList entries freeList free) (hne : freeList ≠ 0) :
    ∃ rest, free = freeList >>> 1 :: rest ∧ FreeList entries (entries.getD (freeList >>> 1) 0) rest := by
  have hodd := h.head.resolve_left hne
  have hlinked := h.linked
  rw [link, if_pos (mapEntryIsFree_iff.mpr hodd)] at hlinked
  have ⟨rest, hrest, hrestLinked⟩ := hlinked.pop
  subst hrest
  have ⟨_, _, word, hword, hlink⟩ := h.entries _ List.mem_cons_self
  have hget : entries.getD (freeList >>> 1) 0 = word := by
    rw [List.getD_eq_getElem?_getD, hword, Option.getD_some]
  have hnext : next entries (freeList >>> 1) = link word := by rw [next, hword, Option.bind_some]
  rw [hnext] at hrestLinked
  rw [hget]
  exact ⟨rest, rfl, {
    head := hlink
    linked := hrestLinked
    nodup := (List.nodup_cons.mp h.nodup).2
    entries := fun j hj => h.entries j (List.mem_cons_of_mem _ hj) }⟩

theorem eq_nil (h : FreeList entries 0 free) : free = [] := by
  cases free with
  | nil => rfl
  | cons i rest => cases h.linked.1

end FreeList

-- What an object has changed that has got the id.
structure Inserted (map map' : WlMap) (id : ObjectId) (word : ℕ) (free free' : List ℕ) : Prop where
  rest     : map' = { map with clientEntries := map'.clientEntries, freeList := map'.freeList }
  freeList : FreeList map'.clientEntries map'.freeList free'
  entries  : ∀ j, map'.clientEntries[j]? = if j = id.toNat then some word else map.clientEntries[j]?
  pos      : 0 < id.toNat
  le       : id.toNat ≤ WL_MAP_MAX_OBJECTS
  others   : ∀ j, j ≠ id.toNat → (j ∈ free' ↔ j ∈ free)
  unused   : id.toNat ∈ free ∨ map.clientEntries.length = id.toNat
  used     : id.toNat ∉ free'

theorem toNat_ofNat_le (h : i ≤ WL_MAP_MAX_OBJECTS) : (UInt32.ofNat i).toNat = i :=
  UInt32.toNat_ofNat_of_lt' (Nat.lt_of_le_of_lt h (by decide))

-- Without free entries the array grows, and then there can be too many objects.
theorem insertNew_spec (flags data : ℕ) (hs : map.side = .client) (h : FreeList map.clientEntries map.freeList free)
    (hpos : 0 < map.clientEntries.length) :
    (WL_MAP_MAX_OBJECTS < map.clientEntries.length ∧ free = [] ∧ map.insertNew flags data =
      ({ map with clientEntries := map.clientEntries ++ [0] }, 0)) ∨
    ∃ map' id free', map.insertNew flags data = (map', id) ∧ Inserted map map' id (mapEntry flags data) free free' := by
  by_cases hfree : map.freeList = 0
  case pos =>
    have hnil : free = [] := (hfree ▸ h).eq_nil
    subst hnil
    by_cases hmax : WL_MAP_MAX_OBJECTS < map.clientEntries.length
    case pos =>
      refine .inl ⟨hmax, rfl, ?_⟩
      simp [insertNew, hfree, hs, hmax, WlMap.entries, setEntries]
    case neg =>
      have hid := toNat_ofNat_le (not_lt.mp hmax)
      refine .inr ⟨{ map with clientEntries := map.clientEntries ++ [mapEntry flags data] },
        UInt32.ofNat map.clientEntries.length, [], ?_, ?_⟩
      · simp [insertNew, hfree, hs, hmax, WlMap.entries, setEntries, MapSide.base]
      · exact {
          rest := rfl
          freeList := h.congr nofun
          entries := fun j => by
            rw [hid]
            simp only [List.getElem?_append, List.getElem?_singleton]
            grind
          pos := hid.symm ▸ hpos
          le := hid.symm ▸ not_lt.mp hmax
          others := fun _ _ => Iff.rfl
          unused := .inr hid.symm
          used := List.not_mem_nil }
  case neg =>
    have ⟨rest, hrest, hlist⟩ := h.pop hfree
    subst hrest
    have ⟨hpos, hle, word, hword, _⟩ := h.entries _ List.mem_cons_self
    have hnot := (List.nodup_cons.mp h.nodup).1
    have hid := toNat_ofNat_le hle
    have ⟨hlt, _⟩ := List.getElem?_eq_some_iff.mp hword
    refine .inr ⟨{ map with
        clientEntries := map.clientEntries.set (map.freeList >>> 1) (mapEntry flags data)
        freeList := map.clientEntries.getD (map.freeList >>> 1) 0 },
      UInt32.ofNat (map.freeList >>> 1), rest, ?_, ?_⟩
    · simp [insertNew, hfree, hs, Nat.not_lt.mpr hle, WlMap.entries, setEntries, MapSide.base]
    · exact {
        rest := rfl
        freeList := hlist.congr fun j hj => by
          have hne : map.freeList >>> 1 ≠ j := fun heq => hnot (heq ▸ hj)
          exact List.getElem?_set_ne hne
        entries := fun j => by
          rw [hid, List.getElem?_set]
          grind
        pos := hid.symm ▸ hpos
        le := hid.symm ▸ hle
        others := fun j hj => by
          rw [hid] at hj
          simp [hj]
        unused := .inl (hid.symm ▸ List.mem_cons_self)
        used := hid.symm ▸ hnot }

theorem Inserted.length {word : ℕ} (h : Inserted map map' id word free free')
    (hf : FreeList map.clientEntries map.freeList free) :
    FreeEntry map.clientEntries id.toNat ∧ map'.clientEntries.length = map.clientEntries.length ∨
    map.clientEntries.length = id.toNat ∧ map'.clientEntries.length = map.clientEntries.length + 1 := by
  have hlt (j : ℕ) : j < map'.clientEntries.length ↔ j = id.toNat ∨ j < map.clientEntries.length := by
    rw [← not_le, ← List.getElem?_eq_none_iff, h.entries, ← not_le (b := j), ← List.getElem?_eq_none_iff]
    grind
  cases h.unused with
  | inl hmem =>
    have hfree := hf.entries _ hmem
    have ⟨_, _, _, hentry, _⟩ := hfree
    have ⟨hid, _⟩ := List.getElem?_eq_some_iff.mp hentry
    refine .inl ⟨hfree, Nat.le_antisymm ?_ ?_⟩
    · exact not_lt.mp fun hn => absurd ((hlt _).mp hn) (by omega)
    · exact not_lt.mp fun hn => absurd ((hlt _).mpr (.inr hn)) (by omega)
  | inr hid =>
    refine .inr ⟨hid, Nat.le_antisymm ?_ ?_⟩
    · exact not_lt.mp fun hn => absurd ((hlt _).mp hn) (by omega)
    · exact (hlt _).mpr (.inl hid)

-- The entry that is read for an id of the client.
theorem lookup_client (h : id.toNat < WL_SERVER_ID_START) : map.lookup id =
    match map.clientEntries[id.toNat]? with
    | some entry => if mapEntryIsFree entry then 0 else mapEntryGetData entry
    | none => 0 := by
  rw [lookup, ObjectId.side_client h, ObjectId.index_client h]
  rfl

theorem lookup_server (h : ¬id.toNat < WL_SERVER_ID_START) : map.lookup id =
    match map.serverEntries[id.toNat - WL_SERVER_ID_START]? with
    | some entry => if mapEntryIsFree entry then 0 else mapEntryGetData entry
    | none => 0 := by
  rw [lookup, ObjectId.side_server h, ObjectId.index_server h]
  rfl

theorem objectIsZombie_iff (hs : map.side = .client) : map.objectIsZombie id ↔
    id.toNat < WL_SERVER_ID_START ∧ ∃ word, map.clientEntries[id.toNat]? = some word ∧ word % 4 = 2 := by
  by_cases h : id.toNat < WL_SERVER_ID_START
  case neg => simp [objectIsZombie, ObjectId.side_server h, h]
  case pos =>
    simp only [objectIsZombie, hs, ObjectId.side_client h, lookupFlags, ObjectId.index_client h, WlMap.entries, h]
    cases map.clientEntries[id.toNat]? with
    | none => simp
    | some word =>
      simp only [mapEntryGetFlags_eq, WL_MAP_ENTRY_ZOMBIE, Nat.and_one_is_mod]
      split
      case isTrue hodd =>
        rw [mapEntryIsFree_iff] at hodd
        simp
        omega
      case isFalse hodd =>
        rw [mapEntryIsFree_iff] at hodd
        simp
        omega

theorem reserveNew_client (hs : map.side = .client) (hr : map.reserveNew id = some map') :
    ObjectId.side id = .server ∧ (map' = map ∨ map' = { map with serverEntries := map.serverEntries ++ [0] }) := by
  rw [reserveNew, hs] at hr
  split at hr
  case isTrue => cases hr
  case isFalse hid =>
    simp only [reduceCtorEq, if_false] at hr
    have ⟨serverEntries, hentries, heq⟩ := Option.map_eq_some_iff.mp hr
    refine ⟨if_neg hid, ?_⟩
    rw [reserveEntry] at hentries
    repeat' split at hentries
    all_goals cases hentries
    · exact .inr (heq.symm.trans (by rw [← hs]))
    · exact .inl (heq.symm.trans (by rw [← hs]))

theorem insertAt_client (h : id.toNat < WL_SERVER_ID_START) (hle : id.toNat ≤ WL_MAP_MAX_OBJECTS)
    (hlt : id.toNat < map.clientEntries.length) : map.insertAt flags id data =
    some { map with clientEntries := map.clientEntries.set id.toNat (mapEntry flags data) } := by
  have hne : map.clientEntries.length ≠ id.toNat := hlt.ne'
  simp [insertAt, ObjectId.side_client h, ObjectId.index_client h, WlMap.entries, setEntries, hne,
    Nat.not_lt.mpr hle, hlt.le]

theorem remove_client (hs : map.side = .client) (h : id.toNat < WL_SERVER_ID_START) : map.remove id =
    { map with
      clientEntries := map.clientEntries.set id.toNat map.freeList
      freeList := id.toNat <<< 1 ||| 1 } := by
  simp [remove, hs, ObjectId.side_client h, ObjectId.index_client h, WlMap.entries, setEntries]

theorem remove_server (hs : map.side = .client) (h : ¬id.toNat < WL_SERVER_ID_START) : map.remove id = map := by
  simp [remove, hs, ObjectId.side_server h]

-- An object can be put into an entry that is there or would be the next one.
theorem insertAt_server (h : ¬id.toNat < WL_SERVER_ID_START)
    (hi : map.insertAt flags id data = some map') :
    id.toNat - WL_SERVER_ID_START ≤ WL_MAP_MAX_OBJECTS ∧
    id.toNat - WL_SERVER_ID_START ≤ map.serverEntries.length ∧
    map' = { map with serverEntries := map'.serverEntries } ∧
    map.serverEntries.length ≤ map'.serverEntries.length ∧
    ∀ j, map'.serverEntries[j]? =
      if j = id.toNat - WL_SERVER_ID_START then some (mapEntry flags data) else map.serverEntries[j]? := by
  rw [insertAt] at hi
  simp only [ObjectId.side_server h, ObjectId.index_server h, WlMap.entries, setEntries] at hi
  generalize id.toNat - WL_SERVER_ID_START = i at hi ⊢
  split at hi
  case isTrue => cases hi
  case isFalse hmax =>
    split at hi
    case isTrue => cases hi
    case isFalse hle =>
      cases hi
      refine ⟨not_lt.mp hmax, not_lt.mp hle, rfl, ?_, ?_⟩
      · simp only [List.length_set]
        split
        case isTrue => simp
        case isFalse => exact Nat.le_refl _
      · intro j
        simp only [List.getElem?_set]
        grind

theorem not_isLink {word : ℕ} (h : word % 4 = 2) : ¬IsLink word := by
  rintro (hzero | hodd) <;> omega

-- What an entry for an id of the client is unless it is free. Which addresses are those of live objects, and of zombies,
-- is up to the memory.
inductive ClientEntry (live : ℕ → ObjectId → Prop) (zombie : ℕ → Prop) (i word : ℕ) : Prop
  | null (h : word = 0) (hi : i = 0 ∨ WL_MAP_MAX_OBJECTS < i)
  | zombie (h : word % 4 = 2) (hz : word = 2 ∨ zombie (word - 2)) (hpos : 0 < i) (hle : i ≤ WL_MAP_MAX_OBJECTS)
  | live {id : ObjectId} (h : live word id) (hi : id.toNat = i) (hle : i ≤ WL_MAP_MAX_OBJECTS)

structure Holds (map : WlMap) (live : ℕ → ObjectId → Prop) (zombie : ℕ → Prop) (free : List ℕ) : Prop where
  side       : map.side = .client
  freeList   : FreeList map.clientEntries map.freeList free
  size       : 0 < map.clientEntries.length
  address    : ∀ a id, live a id → a % 4 = 0 ∧ 0 < a
  unique     : ∀ a id id', live a id → live a id' → id = id'
  client     : ∀ i word, map.clientEntries[i]? = some word → i ∉ free → ClientEntry live zombie i word
  server     : ∀ i word, map.serverEntries[i]? = some word →
    word = 0 ∨ ∃ id, live word id ∧ id.toNat = WL_SERVER_ID_START + i
  liveClient : ∀ a id, live a id → id.toNat < WL_SERVER_ID_START →
    0 < id.toNat ∧ id.toNat ≤ WL_MAP_MAX_OBJECTS ∧ map.clientEntries[id.toNat]? = some a
  liveServer : ∀ a id, live a id → ¬id.toNat < WL_SERVER_ID_START →
    id.toNat - WL_SERVER_ID_START ≤ WL_MAP_MAX_OBJECTS ∧ id.toNat - WL_SERVER_ID_START < map.serverEntries.length

namespace Holds

variable {live live' : ℕ → ObjectId → Prop} {zombie zombie' : ℕ → Prop} {a : ℕ}

theorem empty (hl : ∀ a id, ¬live a id) :
    Holds { side := .client, clientEntries := [0] } live zombie [] where
  side := rfl
  freeList := ⟨.inl rfl, link_zero, List.nodup_nil, nofun⟩
  size := Nat.one_pos
  address a id h := absurd h (hl a id)
  unique a id _ h := absurd h (hl a id)
  client i word hword _ := by
    have ⟨hlt, hzero⟩ := List.getElem?_eq_some_iff.mp hword
    obtain rfl : i = 0 := Nat.lt_one_iff.mp hlt
    exact .null hzero.symm (.inl rfl)
  server := nofun
  liveClient a id h := absurd h (hl a id)
  liveServer a id h := absurd h (hl a id)

theorem congr (h : map.Holds live zombie free) (hl : ∀ a id, live' a id ↔ live a id)
    (hz : ∀ a, zombie a → zombie' a) : map.Holds live' zombie' free := by
  have hl : live' = live := by
    ext a id
    exact hl a id
  subst hl
  exact { h with
    client := fun i word hword hnot => by
      cases h.client i word hword hnot with
      | null hz hi => exact .null hz hi
      | zombie hmod hzombie hpos hle => exact .zombie hmod (hzombie.imp_right (hz _)) hpos hle
      | live hl hi hle => exact .live hl hi hle }

-- A live object is not where a link is stored.
theorem not_link (h : map.Holds live zombie free) (hl : live a id) : ¬IsLink a := by
  have ⟨hmod, hpos⟩ := h.address a id hl
  rintro (hzero | hodd) <;> omega

theorem not_mem_free (h : map.Holds live zombie free) (hl : live a id) (hid : id.toNat < WL_SERVER_ID_START) :
    id.toNat ∉ free := fun hmem => by
  have ⟨_, _, word, hword, hlink⟩ := h.freeList.entries _ hmem
  cases hword.symm.trans (h.liveClient a id hl hid).2.2
  exact h.not_link hl hlink

theorem freeEntry_iff (h : map.Holds live zombie free) (i : ℕ) : i ∈ free ↔ FreeEntry map.clientEntries i := by
  refine ⟨h.freeList.entries i, fun ⟨hpos, hle, word, hword, hlink⟩ => ?_⟩
  by_contra hnot
  cases h.client i word hword hnot with
  | null _ hi => exact hi.elim hpos.ne' fun hlt => Nat.not_lt.mpr hle hlt
  | zombie hmod => exact not_isLink hmod hlink
  | live hl => exact h.not_link hl hlink

-- An id that is given to an object is not that of a live one.
theorem unused {word : ℕ} (h : map.Holds live zombie free) (hi : Inserted map map' id word free free')
    (hl : live a id') : id' ≠ id := by
  intro heq
  subst heq
  have hlt : id'.toNat < WL_SERVER_ID_START := Nat.lt_of_le_of_lt hi.le (by decide)
  cases hi.unused with
  | inl hmem => exact h.not_mem_free hl hlt hmem
  | inr hlength =>
    have hentry := (h.liveClient a id' hl hlt).2.2
    rw [← hlength, List.getElem?_eq_none (Nat.le_refl _)] at hentry
    cases hentry

theorem not_zombie {word : ℕ} (h : map.Holds live zombie free) (hi : Inserted map map' id word free free') :
    ¬map.objectIsZombie id := fun hz => by
  have ⟨_, word, hword, hmod⟩ := (objectIsZombie_iff h.side).mp hz
  cases hi.unused with
  | inl hmem =>
    have ⟨_, _, word', hword', hlink⟩ := h.freeList.entries _ hmem
    cases hword'.symm.trans hword
    exact not_isLink hmod hlink
  | inr hlength =>
    rw [← hlength, List.getElem?_eq_none (Nat.le_refl _)] at hword
    cases hword

-- What is found for an id: nothing, what is left of an object, or the object.
theorem lookup_cases (h : map.Holds live zombie free) (id : ObjectId) :
    map.lookup id = 0 ∨ zombie (map.lookup id) ∧ map.objectIsZombie id ∨ live (map.lookup id) id := by
  by_cases hid : id.toNat < WL_SERVER_ID_START
  case pos =>
    rw [lookup_client hid]
    cases hword : map.clientEntries[id.toNat]? with
    | none => exact .inl rfl
    | some word =>
      simp only [mapEntryIsFree_iff, mapEntryGetData_eq]
      split
      case isTrue => exact .inl rfl
      case isFalse hodd =>
        by_cases hmem : id.toNat ∈ free
        case pos =>
          have ⟨_, _, word', hword', hlink⟩ := h.freeList.entries _ hmem
          cases hword'.symm.trans hword
          exact .inl (by rw [hlink.resolve_right hodd])
        case neg =>
          cases h.client _ _ hword hmem with
          | null hz => exact .inl (by rw [hz])
          | zombie hmod hz =>
            have hdata : word / 4 * 4 = word - 2 := by omega
            rw [hdata]
            cases hz with
            | inl hz => exact .inl (by rw [hz])
            | inr hz => exact .inr (.inl ⟨hz, (objectIsZombie_iff h.side).mpr ⟨hid, word, hword, hmod⟩⟩)
          | live hl hi =>
            have hdata : word / 4 * 4 = word := by
              have := (h.address _ _ hl).1
              omega
            rw [hdata]
            exact .inr (.inr (UInt32.toNat_inj.mp hi ▸ hl))
  case neg =>
    rw [lookup_server hid]
    cases hword : map.serverEntries[id.toNat - WL_SERVER_ID_START]? with
    | none => exact .inl rfl
    | some word =>
      simp only [mapEntryIsFree_iff, mapEntryGetData_eq]
      split
      case isTrue => exact .inl rfl
      case isFalse hodd =>
        rcases h.server _ _ hword with hz | ⟨id', hl, hi⟩
        · exact .inl (by rw [hz])
        · have hdata : word / 4 * 4 = word := by
            have := (h.address _ _ hl).1
            omega
          have heq : id' = id := UInt32.toNat_inj.mp (by omega)
          rw [hdata]
          exact .inr (.inr (heq ▸ hl))

section Insert

theorem insertNew (h : map.Holds live zombie free) (hi : Inserted map map' id a free free') (hmod : a % 4 = 0)
    (hpos : 0 < a) (hnew : ∀ id, ¬live a id) :
    map'.Holds (fun b j => live b j ∨ b = a ∧ j = id) zombie free' := by
  have hlt : id.toNat < WL_SERVER_ID_START := Nat.lt_of_le_of_lt hi.le (by decide)
  have hserver : map'.serverEntries = map.serverEntries := by rw [hi.rest]
  constructor
  case side => rw [hi.rest, h.side]
  case freeList => exact hi.freeList
  case size =>
    by_contra hzero
    have hentry := hi.entries id.toNat
    rw [if_pos rfl, List.getElem?_eq_none (by omega)] at hentry
    cases hentry
  case address => exact fun b j hl => hl.elim (h.address b j) fun ⟨heq, _⟩ => heq ▸ ⟨hmod, hpos⟩
  case unique =>
    rintro b j j' (hl | ⟨rfl, rfl⟩) (hl' | ⟨hb, hj⟩)
    · exact h.unique b j j' hl hl'
    · exact absurd (hb ▸ hl) (hnew j)
    · exact absurd hl' (hnew j')
    · exact hj.symm
  case client =>
    intro i word hword hnot
    rw [hi.entries] at hword
    split at hword
    case isTrue heq =>
      cases hword
      exact .live (.inr ⟨rfl, rfl⟩) heq.symm (heq.symm ▸ hi.le)
    case isFalse hne =>
      cases h.client i word hword fun hmem => hnot ((hi.others i hne).mpr hmem) with
      | null hz hi => exact .null hz hi
      | zombie hmod hz hpos hle => exact .zombie hmod hz hpos hle
      | live hl hi hle => exact .live (.inl hl) hi hle
  case server =>
    intro i word hword
    rw [hserver] at hword
    exact (h.server i word hword).imp_right fun ⟨j, hl, hj⟩ => ⟨j, .inl hl, hj⟩
  case liveClient =>
    rintro b j (hl | ⟨rfl, rfl⟩) hj
    · have hne : j.toNat ≠ id.toNat := fun heq => h.unused hi hl (UInt32.toNat_inj.mp heq)
      rw [hi.entries, if_neg hne]
      exact h.liveClient b j hl hj
    · exact ⟨hi.pos, hi.le, (hi.entries _).trans (if_pos rfl)⟩
  case liveServer =>
    rintro b j (hl | ⟨rfl, rfl⟩) hj
    · exact hserver ▸ h.liveServer b j hl hj
    · exact absurd hlt hj

-- The entry that is left over when there are too many objects.
theorem append (h : map.Holds live zombie free) (hmax : WL_MAP_MAX_OBJECTS < map.clientEntries.length)
    (hfree : free = []) : Holds { map with clientEntries := map.clientEntries ++ [0] } live zombie free := by
  subst hfree
  exact { h with
    freeList := h.freeList.congr nofun
    size := by simp
    client := fun i word hword hnot => by
      rw [List.getElem?_append] at hword
      split at hword
      case isTrue => exact h.client i word hword hnot
      case isFalse hlt =>
        have ⟨hle, hzero⟩ := List.getElem?_eq_some_iff.mp hword
        exact .null (by simpa using hzero.symm) (.inr (by omega))
    liveClient := fun b j hl hj => by
      have ⟨hpos, hle, hentry⟩ := h.liveClient b j hl hj
      exact ⟨hpos, hle, (List.getElem?_append_left (List.getElem?_eq_some_iff.mp hentry).1).trans hentry⟩ }

theorem insertAt (h : map.Holds live zombie free) (hid : ¬id.toNat < WL_SERVER_ID_START)
    (hi : map.insertAt 0 id a = some map') (hmod : a % 4 = 0) (hpos : 0 < a) (hnew : ∀ id, ¬live a id) :
    map'.Holds (fun b j => live b j ∨ b = a ∧ j = id) zombie free := by
  have ⟨hmax, hle, hmap, hlength, hentries⟩ := insertAt_server hid hi
  rw [mapEntry_zero] at hentries
  have hclient : map'.clientEntries = map.clientEntries := by rw [hmap]
  constructor
  case side => rw [hmap, h.side]
  case freeList =>
    rw [hmap]
    exact h.freeList
  case size => exact hclient ▸ h.size
  case address => exact fun b j hl => hl.elim (h.address b j) fun ⟨heq, _⟩ => heq ▸ ⟨hmod, hpos⟩
  case unique =>
    rintro b j j' (hl | ⟨rfl, rfl⟩) (hl' | ⟨hb, hj⟩)
    · exact h.unique b j j' hl hl'
    · exact absurd (hb ▸ hl) (hnew j)
    · exact absurd hl' (hnew j')
    · exact hj.symm
  case client =>
    intro i word hword hnot
    cases h.client i word (hclient ▸ hword) hnot with
    | null hz hi => exact .null hz hi
    | zombie hmod hz hpos hle => exact .zombie hmod hz hpos hle
    | live hl hi hle => exact .live (.inl hl) hi hle
  case server =>
    intro i word hword
    rw [hentries] at hword
    split at hword
    case isTrue heq =>
      cases hword
      exact .inr ⟨id, .inr ⟨rfl, rfl⟩, by omega⟩
    case isFalse => exact (h.server i word hword).imp_right fun ⟨j, hl, hj⟩ => ⟨j, .inl hl, hj⟩
  case liveClient =>
    rintro b j (hl | ⟨rfl, rfl⟩) hj
    · exact hclient ▸ h.liveClient b j hl hj
    · exact absurd hj hid
  case liveServer =>
    rintro b j (hl | ⟨rfl, rfl⟩) hj
    · have ⟨hjmax, hlt⟩ := h.liveServer b j hl hj
      exact ⟨hjmax, hlt.trans_le hlength⟩
    · refine ⟨hmax, ?_⟩
      have hentry := hentries (j.toNat - WL_SERVER_ID_START)
      rw [if_pos rfl] at hentry
      exact (List.getElem?_eq_some_iff.mp hentry).1

theorem reserve (h : map.Holds live zombie free) :
    Holds { map with serverEntries := map.serverEntries ++ [0] } live zombie free :=
  { h with
    server := fun i word hword => by
      rw [List.getElem?_append] at hword
      split at hword
      case isTrue => exact h.server i word hword
      case isFalse => exact .inl (by simpa using (List.getElem?_eq_some_iff.mp hword).2.symm)
    liveServer := fun b j hl hj => by
      have ⟨hjmax, hlt⟩ := h.liveServer b j hl hj
      exact ⟨hjmax, hlt.trans_le (List.length_append ▸ Nat.le_add_right ..)⟩ }

end Insert

section Remove

-- The entries of the others stay as they are when an object is gone.
theorem client_without (h : map.Holds live zombie free) (hl : live a id) {i word : ℕ} (hi : i ≠ id.toNat)
    (he : ClientEntry live zombie i word) : ClientEntry (fun b j => live b j ∧ b ≠ a) zombie i word := by
  cases he with
  | null hz hi => exact .null hz hi
  | zombie hmod hz hpos hle => exact .zombie hmod hz hpos hle
  | live hword hj hle =>
    refine .live ⟨hword, fun heq => ?_⟩ hj hle
    subst heq
    exact hi (hj.symm.trans (congrArg _ (h.unique _ _ _ hword hl)))

theorem server_without (h : map.Holds live zombie free) (hl : live a id) {i word : ℕ}
    (hi : WL_SERVER_ID_START + i ≠ id.toNat)
    (he : word = 0 ∨ ∃ id, live word id ∧ id.toNat = WL_SERVER_ID_START + i) :
    word = 0 ∨ ∃ id, (live word id ∧ word ≠ a) ∧ id.toNat = WL_SERVER_ID_START + i := by
  refine he.imp_right fun ⟨j, hword, hj⟩ => ⟨j, ⟨hword, fun heq => ?_⟩, hj⟩
  subst heq
  exact hi (hj.symm.trans (congrArg _ (h.unique _ _ _ hword hl)))

theorem ne_of_live (h : map.Holds live zombie free) (hl : live a id) (hid : id.toNat < WL_SERVER_ID_START) {b : ℕ}
    {j : ObjectId} (hb : live b j) (hne : b ≠ a) (hj : j.toNat < WL_SERVER_ID_START) : id.toNat ≠ j.toNat := fun heq => by
  have hentry := (h.liveClient b j hb hj).2.2
  rw [← heq, (h.liveClient a id hl hid).2.2] at hentry
  exact hne (Option.some.inj hentry).symm

theorem remove (h : map.Holds live zombie free) (hl : live a id) (hid : id.toNat < WL_SERVER_ID_START) :
    (map.remove id).Holds (fun b j => live b j ∧ b ≠ a) zombie (id.toNat :: free) := by
  have ⟨hpos, hle, hentry⟩ := h.liveClient a id hl hid
  have ⟨hlt, _⟩ := List.getElem?_eq_some_iff.mp hentry
  rw [remove_client h.side hid]
  exact {
    side := h.side
    freeList := h.freeList.push (h.not_mem_free hl hid) hpos hle hlt
    size := by simpa using h.size
    address := fun b j hb => h.address b j hb.1
    unique := fun b j j' hb hb' => h.unique b j j' hb.1 hb'.1
    client := fun i word hword hnot => by
      have ⟨hne, hnot⟩ := not_or.mp (List.mem_cons.not.mp hnot)
      rw [List.getElem?_set_ne (Ne.symm hne)] at hword
      exact h.client_without hl hne (h.client i word hword hnot)
    server := fun i word hword => h.server_without hl (by omega) (h.server i word hword)
    liveClient := fun b j hb hj => by
      rw [List.getElem?_set_ne (h.ne_of_live hl hid hb.1 hb.2 hj)]
      exact h.liveClient b j hb.1 hj
    liveServer := fun b j hb hj => h.liveServer b j hb.1 hj }

theorem zombify (h : map.Holds live zombie free) (hl : live a id) (hid : id.toNat < WL_SERVER_ID_START) {z : ℕ}
    (hmod : z % 4 = 0) (hz : z = 0 ∨ zombie z) :
    ∃ map', map.insertAt WL_MAP_ENTRY_ZOMBIE id z = some map' ∧
      map'.Holds (fun b j => live b j ∧ b ≠ a) zombie free := by
  have ⟨hpos, hle, hentry⟩ := h.liveClient a id hl hid
  have ⟨hlt, _⟩ := List.getElem?_eq_some_iff.mp hentry
  have hnot := h.not_mem_free hl hid
  refine ⟨_, insertAt_client hid hle hlt, ?_⟩
  rw [mapEntry_zombie hmod]
  exact {
    side := h.side
    freeList := h.freeList.congr fun j hj => by
      have hne : id.toNat ≠ j := fun heq => hnot (heq ▸ hj)
      exact List.getElem?_set_ne hne
    size := by simpa using h.size
    address := fun b j hb => h.address b j hb.1
    unique := fun b j j' hb hb' => h.unique b j j' hb.1 hb'.1
    client := fun i word hword hnot => by
      by_cases heq : i = id.toNat
      case pos =>
        subst heq
        rw [List.getElem?_set_self hlt] at hword
        cases hword
        exact .zombie (by omega) (hz.imp (fun hz => by omega) fun hz => hz) hpos hle
      case neg =>
        rw [List.getElem?_set_ne (Ne.symm heq)] at hword
        exact h.client_without hl heq (h.client i word hword hnot)
    server := fun i word hword => h.server_without hl (by omega) (h.server i word hword)
    liveClient := fun b j hb hj => by
      rw [List.getElem?_set_ne (h.ne_of_live hl hid hb.1 hb.2 hj)]
      exact h.liveClient b j hb.1 hj
    liveServer := fun b j hb hj => h.liveServer b j hb.1 hj }

theorem client_server (h : map.Holds live zombie free) (hl : live a id) (hid : ¬id.toNat < WL_SERVER_ID_START)
    {i word : ℕ} (he : ClientEntry live zombie i word) :
    ClientEntry (fun b j => live b j ∧ b ≠ a) zombie i word := by
  cases he with
  | null hz hi => exact .null hz hi
  | zombie hmod hz hpos hle => exact .zombie hmod hz hpos hle
  | live hb hj hle =>
    refine .live ⟨hb, fun heq => ?_⟩ hj hle
    subst heq
    cases h.unique _ _ _ hb hl
    exact hid (Nat.lt_of_le_of_lt (hj ▸ hle) (by decide))

theorem clear (h : map.Holds live zombie free) (hl : live a id) (hid : ¬id.toNat < WL_SERVER_ID_START) :
    ∃ map', map.insertAt 0 id 0 = some map' ∧ map'.Holds (fun b j => live b j ∧ b ≠ a) zombie free := by
  have ⟨hmax, hlt⟩ := h.liveServer a id hl hid
  have hi : map.insertAt 0 id 0 =
      some { map with serverEntries := map.serverEntries.set (id.toNat - WL_SERVER_ID_START) 0 } := by
    simp [WlMap.insertAt, ObjectId.side_server hid, ObjectId.index_server hid, WlMap.entries, setEntries, hlt.ne',
      Nat.not_lt.mpr hmax, hlt.le]
  exact ⟨_, hi, {
    side := h.side
    freeList := h.freeList
    size := h.size
    address := fun b j hb => h.address b j hb.1
    unique := fun b j j' hb hb' => h.unique b j j' hb.1 hb'.1
    client := fun i word hword hnot => h.client_server hl hid (h.client i word hword hnot)
    server := fun i word hword => by
      rw [List.getElem?_set] at hword
      split at hword
      case isTrue => exact .inl (by grind)
      case isFalse hne => exact h.server_without hl (by omega) (h.server i word hword)
    liveClient := fun b j hb hj => h.liveClient b j hb.1 hj
    liveServer := fun b j hb hj => by
      rw [List.length_set]
      exact h.liveServer b j hb.1 hj }⟩

-- An object of the server whose id is not freed is no longer found only if another one has taken its place.
theorem forget (h : map.Holds live zombie free) (hl : live a id) (hid : ¬id.toNat < WL_SERVER_ID_START)
    (hne : map.lookup id ≠ a) : map.Holds (fun b j => live b j ∧ b ≠ a) zombie free where
  side := h.side
  freeList := h.freeList
  size := h.size
  address := fun b j hb => h.address b j hb.1
  unique := fun b j j' hb hb' => h.unique b j j' hb.1 hb'.1
  client := fun i word hword hnot => h.client_server hl hid (h.client i word hword hnot)
  server := fun i word hword => by
    refine (h.server i word hword).imp_right fun ⟨j, hb, hj⟩ => ⟨j, ⟨hb, fun heq => hne ?_⟩, hj⟩
    subst heq
    cases h.unique _ _ _ hb hl
    have hi : id.toNat - WL_SERVER_ID_START = i := by omega
    have hmod := (h.address _ _ hl).1
    rw [lookup_server hid, hi, hword]
    simp only [mapEntryIsFree_iff, mapEntryGetData_eq]
    rw [if_neg (by omega)]
    exact Nat.div_mul_cancel (Nat.dvd_of_mod_eq_zero hmod)
  liveClient := fun b j hb hj => h.liveClient b j hb.1 hj
  liveServer := fun b j hb hj => h.liveServer b j hb.1 hj

theorem removeZombie (h : map.Holds live zombie free) (hz : map.objectIsZombie id) :
    (map.remove id).Holds live zombie (id.toNat :: free) := by
  have ⟨hid, word, hentry, hmod⟩ := (objectIsZombie_iff h.side).mp hz
  have ⟨hlt, _⟩ := List.getElem?_eq_some_iff.mp hentry
  have hnot : id.toNat ∉ free := fun hmem => by
    have ⟨_, _, word', hword', hlink⟩ := h.freeList.entries _ hmem
    cases hword'.symm.trans hentry
    exact not_isLink hmod hlink
  have ⟨hpos, hle⟩ : 0 < id.toNat ∧ id.toNat ≤ WL_MAP_MAX_OBJECTS := by
    cases h.client _ _ hentry hnot with
    | null hz => omega
    | zombie _ _ hpos hle => exact ⟨hpos, hle⟩
    | live hl =>
      have := (h.address _ _ hl).1
      omega
  rw [remove_client h.side hid]
  exact {
    side := h.side
    freeList := h.freeList.push hnot hpos hle hlt
    size := by simpa using h.size
    address := h.address
    unique := h.unique
    client := fun i word hword hnot => by
      have ⟨hne, hnot⟩ := not_or.mp (List.mem_cons.not.mp hnot)
      rw [List.getElem?_set_ne (Ne.symm hne)] at hword
      exact h.client i word hword hnot
    server := h.server
    liveClient := fun b j hb hj => by
      have hold := h.liveClient b j hb hj
      have hne : id.toNat ≠ j.toNat := fun heq => by
        rw [← heq, hentry] at hold
        cases hold.2.2
        have := (h.address _ _ hb).1
        omega
      rw [List.getElem?_set_ne hne]
      exact hold
    liveServer := h.liveServer }

end Remove

end Holds

end WlMap

-- A map with the objects that have got their ids from it.
structure MapUse where
  map  : WlMap := { side := .client, clientEntries := [0] }
  held : Address → Option ObjectId := fun _ => none

inductive MapEvent
  | insertNew (data : Address)
  | zombify (data : Address)
  | remove (data : Address)
  | removeZombie (id : ObjectId)

namespace MapUse

def release (s : MapUse) (data : Address) (map : WlMap) : MapUse :=
  ⟨map, Function.update s.held data none⟩

def step (s : MapUse) : MapEvent → Option MapUse
  | .insertNew data =>
    if data % 4 = 0 ∧ 0 < data ∧ s.held data = none then
      let (map, id) := s.map.insertNew 0 data
      some ⟨map, if id = 0 then s.held else Function.update s.held data (some id)⟩
    else
      none
  | .zombify data =>
    (s.held data).bind fun id => (s.map.insertAt WL_MAP_ENTRY_ZOMBIE id 0).map (s.release data)
  | .remove data => (s.held data).map fun id => s.release data (s.map.remove id)
  | .removeZombie id => if s.map.objectIsZombie id then some { s with map := s.map.remove id } else none

structure Inv (s : MapUse) : Prop where
  map    : ∃ free, s.map.Holds (s.held · = some ·) (fun _ => False) free
  client : ∀ data id, s.held data = some id → id.toNat < WL_SERVER_ID_START

variable {s s' : MapUse} {event : MapEvent} {data : Address} {map : WlMap}

theorem Inv.release (h : Inv s) {free : List ℕ}
    (hm : map.Holds (fun b j => s.held b = some j ∧ b ≠ data) (fun _ => False) free) : Inv (s.release data map) := by
  have hheld (b j) : (s.release data map).held b = some j ↔ s.held b = some j ∧ b ≠ data := by
    by_cases hb : b = data <;> simp [MapUse.release, hb]
  exact ⟨⟨free, hm.congr hheld fun _ hf => hf⟩, fun b j hb => h.client b j ((hheld b j).mp hb).1⟩

theorem Inv.step (h : Inv s) (hs : s.step event = some s') : Inv s' := by
  have ⟨free, hm⟩ := h.map
  cases event with
  | insertNew data =>
    simp only [MapUse.step] at hs
    have ⟨⟨hmod, hpos, hnew⟩, hs⟩ := Option.ite_none_right_eq_some.mp hs
    rcases WlMap.insertNew_spec 0 data hm.side hm.freeList hm.size with ⟨hmax, hfree, heq⟩ | ⟨map, id, free, heq, hi⟩
    · simp only [heq] at hs
      cases hs
      exact ⟨⟨_, hm.append hmax hfree⟩, h.client⟩
    · have hne : id ≠ 0 := fun hz => absurd hi.pos (by simp [hz])
      have hlt : id.toNat < WL_SERVER_ID_START := Nat.lt_of_le_of_lt hi.le (by decide)
      have hheld (b j) : Function.update s.held data (some id) b = some j ↔ s.held b = some j ∨ b = data ∧ j = id := by
        by_cases hb : b = data <;> simp [hb, hnew, eq_comm]
      rw [mapEntry_zero] at hi
      simp only [heq, if_neg hne] at hs
      cases hs
      refine ⟨⟨free, (hm.insertNew hi hmod hpos (by simp [hnew])).congr hheld fun _ hf => hf⟩, fun b j hb => ?_⟩
      exact ((hheld b j).mp hb).elim (h.client b j) fun ⟨_, hj⟩ => hj ▸ hlt
  | zombify data =>
    have ⟨id, hd, hs⟩ := Option.bind_eq_some_iff.mp hs
    have ⟨map, hi, hm⟩ := hm.zombify hd (h.client _ _ hd) (Nat.zero_mod 4) (.inl rfl)
    rw [hi] at hs
    cases hs
    exact h.release hm
  | remove data =>
    have ⟨id, hd, hs⟩ := Option.map_eq_some_iff.mp hs
    cases hs
    exact h.release (hm.remove hd (h.client _ _ hd))
  | removeZombie id =>
    have ⟨hz, hs⟩ := Option.ite_none_right_eq_some.mp hs
    cases hs
    exact ⟨⟨_, hm.removeZombie hz⟩, h.client⟩

end MapUse

end Libwayland
