import Mathlib.Data.List.AList
import Mathlib.Data.List.Nodup

-- Association lists whose values all are of one type, by what a lookup of them finds.
namespace Hash

variable {α β γ : Type _} [DecidableEq α] {m : AList fun _ : α => β} {l : List γ} {f : γ → α} {g : γ → β}
variable {k : α} {v : β} {c : γ} {entries : List (Sigma fun _ : α => β)}

omit [DecidableEq α] in
theorem length_keys : m.keys.length = m.entries.length :=
  List.length_map (Sigma.fst : (Sigma fun _ : α => β) → α)

theorem mem_entries_iff : (⟨k, v⟩ : Sigma fun _ : α => β) ∈ m.entries ↔ m.lookup k = some v := by
  rw [← Option.mem_def, AList.mem_lookup_iff]

theorem mem_iff : k ∈ m ↔ ∃ v, m.lookup k = some v := by
  rw [← AList.lookup_isSome, Option.isSome_iff_exists]

theorem notMem_iff : k ∉ m ↔ m.lookup k = none :=
  AList.lookup_eq_none.symm

theorem lookup_insert {k' : α} : (m.insert k v).lookup k' = if k' = k then some v else m.lookup k' := by
  split
  case isTrue h => subst h; exact AList.lookup_insert m
  case isFalse h => exact AList.lookup_insert_ne h

theorem lookup_erase {k' : α} : (m.erase k).lookup k' = if k' = k then none else m.lookup k' := by
  split
  case isTrue h => subst h; exact AList.lookup_erase _ m
  case isFalse h => exact AList.lookup_erase_ne h

omit [DecidableEq α] in
theorem nodup_keys_of_perm (h : entries.Perm m.entries) : (entries.map Sigma.fst).Nodup :=
  (h.map Sigma.fst).nodup_iff.mpr m.nodupKeys

theorem lookup_map (f : β → γ) (h : (m.entries.map fun e => (⟨e.1, f e.2⟩ : Sigma fun _ : α => γ)).NodupKeys) :
    AList.lookup (β := fun _ => γ) k ⟨m.entries.map fun e => ⟨e.1, f e.2⟩, h⟩ = (m.lookup k).map f := by
  ext v
  rw [← mem_entries_iff, Option.map_eq_some_iff, List.mem_map]
  constructor
  case mp =>
    rintro ⟨⟨k, w⟩, hw, he⟩
    cases he
    exact ⟨w, mem_entries_iff.mp hw, rfl⟩
  case mpr =>
    rintro ⟨w, hw, rfl⟩
    exact ⟨⟨k, w⟩, mem_entries_iff.mpr hw, rfl⟩

theorem lookup_foldl_erase_of_notMem {ks : List α} (h : k ∉ ks) :
    (ks.foldl (fun m k => m.erase k) m).lookup k = m.lookup k := by
  induction ks generalizing m
  case nil => rfl
  case cons k' ks ih =>
    rw [List.mem_cons, not_or] at h
    rw [List.foldl_cons, ih h.2, AList.lookup_erase_ne h.1]

theorem lookup_foldl_erase {ks : List α} :
    (ks.foldl (fun m k => m.erase k) m).lookup k = if k ∈ ks then none else m.lookup k := by
  induction ks generalizing m
  case nil => rfl
  case cons k' ks ih =>
    rw [List.foldl_cons, ih, lookup_erase]
    by_cases hk : k ∈ ks <;> simp [hk]

theorem mem_foldl_erase {ks : List α} : k ∈ ks.foldl (fun m k => m.erase k) m ↔ k ∈ m ∧ k ∉ ks := by
  rw [← AList.lookup_isSome, ← AList.lookup_isSome, lookup_foldl_erase]
  split
  case isTrue h => simp [h]
  case isFalse h => simp [h]

theorem mem_foldl_insert : k ∈ l.foldl (fun m c => m.insert (f c) (g c)) m ↔ k ∈ m ∨ k ∈ l.map f := by
  induction l generalizing m
  case nil => simp
  case cons c l ih => rw [List.foldl_cons, ih, AList.mem_insert, List.map_cons, List.mem_cons, or_assoc, or_left_comm]

theorem lookup_foldl_insert_of_notMem (h : k ∉ l.map f) :
    (l.foldl (fun m c => m.insert (f c) (g c)) m).lookup k = m.lookup k := by
  induction l generalizing m
  case nil => rfl
  case cons c l ih =>
    rw [List.map_cons, List.mem_cons, not_or] at h
    rw [List.foldl_cons, ih h.2, AList.lookup_insert_ne h.1]

theorem lookup_foldl_insert_of_mem (hn : (l.map f).Nodup) (hc : c ∈ l) :
    (l.foldl (fun m c => m.insert (f c) (g c)) m).lookup (f c) = some (g c) := by
  induction l generalizing m
  case nil => contradiction
  case cons d l ih =>
    have ⟨hd, hl⟩ := List.nodup_cons.mp (List.map_cons ▸ hn)
    rw [List.foldl_cons]
    rcases List.mem_cons.mp hc with rfl | hc
    · rw [lookup_foldl_insert_of_notMem hd, AList.lookup_insert]
    · exact ih hl hc

theorem lookup_foldl_insert (hn : (l.map f).Nodup) : (l.foldl (fun m c => m.insert (f c) (g c)) m).lookup k = some v ↔
    (∃ c ∈ l, f c = k ∧ g c = v) ∨ (k ∉ l.map f ∧ m.lookup k = some v) := by
  by_cases hk : k ∈ l.map f
  case neg =>
    rw [lookup_foldl_insert_of_notMem hk]
    refine ⟨fun h => .inr ⟨hk, h⟩, fun h => ?_⟩
    rcases h with ⟨c, hc, hck, _⟩ | ⟨_, h⟩
    · exact absurd (hck ▸ List.mem_map_of_mem hc) hk
    · exact h
  case pos =>
    obtain ⟨c, hc, rfl⟩ := List.mem_map.mp hk
    rw [lookup_foldl_insert_of_mem hn hc, Option.some.injEq]
    refine ⟨fun h => .inl ⟨c, hc, rfl, h⟩, fun h => ?_⟩
    rcases h with ⟨d, hd, hdc, h⟩ | ⟨h, _⟩
    · exact List.inj_on_of_nodup_map hn hd hc hdc ▸ h
    · exact absurd hk h

theorem length_insert_of_notMem (h : k ∉ m) : (m.insert k v).entries.length = m.entries.length + 1 := by
  rw [AList.entries_insert_of_notMem h, List.length_cons]

theorem length_erase_of_mem (h : k ∈ m) : (m.erase k).entries.length + 1 = m.entries.length := by
  rw [← length_keys, ← length_keys, AList.keys_erase]
  exact List.length_erase_add_one h

theorem length_insert_of_mem (h : k ∈ m) : (m.insert k v).entries.length = m.entries.length := by
  rw [← length_keys, ← length_keys, AList.keys_insert, List.length_cons]
  exact List.length_erase_add_one h

theorem length_insert_le : (m.insert k v).entries.length ≤ m.entries.length + 1 := by
  by_cases h : k ∈ m
  case pos => exact length_insert_of_mem h ▸ Nat.le_succ _
  case neg => exact Nat.le_of_eq (length_insert_of_notMem h)

theorem length_foldl_insert_le :
    (l.foldl (fun m c => m.insert (f c) (g c)) m).entries.length ≤ m.entries.length + l.length := by
  induction l generalizing m
  case nil => exact Nat.le_refl _
  case cons c l ih =>
    have := ih (m := m.insert (f c) (g c))
    have := length_insert_le (m := m) (k := f c) (v := g c)
    rw [List.foldl_cons, List.length_cons]
    omega

-- Nothing is overwritten exactly if all keys are new and different.
theorem length_foldl_insert_eq_iff :
    (l.foldl (fun m c => m.insert (f c) (g c)) m).entries.length = m.entries.length + l.length ↔
      (l.map f).Nodup ∧ ∀ c ∈ l, f c ∉ m := by
  induction l generalizing m
  case nil => simp
  case cons c l ih =>
    rw [List.foldl_cons, List.length_cons, List.map_cons, List.nodup_cons, List.forall_mem_cons]
    by_cases h : f c ∈ m
    case pos =>
      have := length_foldl_insert_le (m := m.insert (f c) (g c)) (l := l) (f := f) (g := g)
      rw [length_insert_of_mem h] at this
      exact iff_of_false (by omega) fun hn => hn.2.1 h
    case neg =>
      have hi := ih (m := m.insert (f c) (g c))
      rw [length_insert_of_notMem h, Nat.add_right_comm] at hi
      rw [← Nat.add_assoc, hi]
      have hm : (∀ d ∈ l, f d ∉ m.insert (f c) (g c)) ↔ f c ∉ l.map f ∧ ∀ d ∈ l, f d ∉ m := by
        simp only [AList.mem_insert, not_or, List.mem_map, not_exists, not_and, forall_and]
      rw [hm, and_iff_right h]
      exact and_left_comm.trans and_assoc.symm

end Hash

-- Lists of entries that have no key twice.
namespace Keyed

variable {α κ β : Type} {key : α → κ} {l : List α} {a b : α} {n : Nat}

def Distinct (key : α → κ) (l : List α) : Prop :=
  (l.map key).Nodup

namespace Distinct

theorem nil : Distinct key [] :=
  List.nodup_nil

theorem eq_of_mem (h : Distinct key l) (ha : a ∈ l) (hb : b ∈ l) (he : key a = key b) : a = b :=
  List.inj_on_of_nodup_map h ha hb he

theorem sublist {l' : List α} (h : Distinct key l) (hl : l'.Sublist l) : Distinct key l' :=
  (hl.map key).nodup h

theorem filter (h : Distinct key l) (p : α → Bool) : Distinct key (l.filter p) :=
  h.sublist List.filter_sublist

theorem take (h : Distinct key l) (n : Nat) : Distinct key (l.take n) :=
  h.sublist (List.take_sublist n l)

theorem cons (h : Distinct key l) (ha : ∀ b ∈ l, key b ≠ key a) : Distinct key (a :: l) := by
  refine List.nodup_cons.mpr ⟨fun hm => ?_, h⟩
  have ⟨b, hb, he⟩ := List.mem_map.mp hm
  exact ha b hb he

theorem append {l' : List α} (h : Distinct key l) (h' : Distinct key l') (hd : ∀ a ∈ l, ∀ b ∈ l', key a ≠ key b) :
    Distinct key (l ++ l') := by
  rw [Distinct, List.map_append]
  refine List.nodup_append.mpr ⟨h, h', fun k hk k' hk' he => ?_⟩
  have ⟨a, ha, hk⟩ := List.mem_map.mp hk
  have ⟨b, hb, hk'⟩ := List.mem_map.mp hk'
  exact hd a ha b hb (by rw [hk, hk', he])

theorem cons_filter [DecidableEq κ] (h : Distinct key l) (a : α) : Distinct key (a :: l.filter (key · ≠ key a)) :=
  (h.filter _).cons fun _ hb => of_decide_eq_true (List.mem_filter.mp hb).2

theorem find?_eq_some [DecidableEq κ] (h : Distinct key l) (ha : a ∈ l) : l.find? (key · = key a) = some a := by
  cases hf : l.find? (key · = key a) with
  | none => exact absurd (decide_eq_true rfl) (List.find?_eq_none.mp hf a ha)
  | some b =>
    have he : decide (key b = key a) = true := List.find?_some (p := fun b => decide (key b = key a)) hf
    rw [h.eq_of_mem (List.mem_of_find?_eq_some hf) ha (of_decide_eq_true he)]

theorem reverse (h : Distinct key l) : Distinct key l.reverse := by
  rw [Distinct, List.map_reverse]
  exact List.nodup_reverse.mpr h

-- Going through the keys finds what the entries have.
theorem filterMap_find? [DecidableEq κ] (h : Distinct key l) (f : α → Option β) :
    (l.map key).filterMap (fun k => (l.find? (key · = k)).bind f) = l.filterMap f := by
  rw [List.filterMap_map]
  refine List.filterMap_congr fun a ha => ?_
  rw [Function.comp_apply, h.find?_eq_some ha, Option.bind_some]

end Distinct
end Keyed
