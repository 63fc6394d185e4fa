import PlasmaModel.Lib.Hash

-- Sets of values that are listed in some order, each once.
structure QSet (α : Type) where
  values : List α
  nodup  : values.Nodup

namespace QSet

variable {α : Type} {set : QSet α} {a b : α} {l : List α}

instance : Membership α (QSet α) where
  mem set a := a ∈ set.values

instance : EmptyCollection (QSet α) where
  emptyCollection := ⟨[], .nil⟩

instance : Singleton α (QSet α) where
  singleton a := ⟨[a], List.nodup_singleton a⟩

def isEmpty (set : QSet α) : Bool :=
  set.values.isEmpty

def size (set : QSet α) : Nat :=
  set.values.length

theorem mem_values : a ∈ set.values ↔ a ∈ set :=
  .rfl

@[simp]
theorem notMem_empty : a ∉ (∅ : QSet α) :=
  List.not_mem_nil

@[simp]
theorem mem_singleton : b ∈ ({a} : QSet α) ↔ b = a :=
  List.mem_singleton

theorem isEmpty_iff : set.isEmpty ↔ ∀ a, a ∉ set := by
  rw [isEmpty, List.isEmpty_iff, List.eq_nil_iff_forall_not_mem]
  rfl

def filter (set : QSet α) (p : α → Bool) : QSet α :=
  ⟨set.values.filter p, set.nodup.filter p⟩

theorem mem_filter {p : α → Bool} : a ∈ set.filter p ↔ a ∈ set ∧ p a :=
  List.mem_filter

variable [DecidableEq α]

instance : DecidableEq (QSet α) := fun set set' =>
  decidable_of_iff (set.values = set'.values) ⟨fun h => by cases set; cases set'; cases h; rfl, congrArg values⟩

instance : Decidable (a ∈ set) :=
  inferInstanceAs (Decidable (a ∈ set.values))

def insert (set : QSet α) (a : α) : QSet α :=
  if h : a ∈ set.values then
    set
  else
    ⟨set.values ++ [a], set.nodup.append (List.nodup_singleton a) (List.disjoint_singleton.mpr h)⟩

def remove (set : QSet α) (a : α) : QSet α :=
  ⟨set.values.erase a, set.nodup.erase a⟩

def ofList (l : List α) : QSet α :=
  l.foldl insert ∅

def union (set set' : QSet α) : QSet α :=
  set'.values.foldl insert set

-- Sets are the same whatever the order in which they are listed.
def isSame (set set' : QSet α) : Bool :=
  set.values.all (· ∈ set'.values) && set'.values.all (· ∈ set.values)

@[simp]
theorem mem_insert : b ∈ set.insert a ↔ b = a ∨ b ∈ set := by
  rw [insert]
  split
  case isTrue h => exact ⟨.inr, fun hb => hb.elim (fun heq => heq ▸ h) id⟩
  case isFalse => simp [← mem_values, or_comm]

@[simp]
theorem mem_remove : b ∈ set.remove a ↔ b ≠ a ∧ b ∈ set :=
  set.nodup.mem_erase_iff

theorem mem_foldl_insert : b ∈ l.foldl insert set ↔ b ∈ set ∨ b ∈ l := by
  induction l generalizing set
  case nil => simp
  case cons a l ih =>
    rw [List.foldl_cons, ih, mem_insert, List.mem_cons, or_comm (a := b = a), or_assoc]

theorem mem_ofList : b ∈ ofList l ↔ b ∈ l := by
  rw [ofList, mem_foldl_insert]
  simp

theorem size_insert_le : (set.insert a).size ≤ set.size + 1 := by
  rw [insert]
  split
  case isTrue => exact Nat.le_succ _
  case isFalse => exact Nat.le_of_eq List.length_append

theorem size_foldl_insert_le : (l.foldl insert set).size ≤ set.size + l.length := by
  induction l generalizing set
  case nil => exact Nat.le_refl _
  case cons a l ih =>
    have h := @ih (set.insert a)
    have ha := @size_insert_le _ set a _
    rw [List.foldl_cons, List.length_cons]
    omega

theorem size_ofList_le : (ofList l).size ≤ l.length :=
  Nat.le_trans size_foldl_insert_le (Nat.le_of_eq (Nat.zero_add _))

@[simp]
theorem mem_union {set' : QSet α} : a ∈ set.union set' ↔ a ∈ set ∨ a ∈ set' :=
  mem_foldl_insert

theorem isSame_iff {set' : QSet α} : set.isSame set' ↔ ∀ a, a ∈ set ↔ a ∈ set' := by
  simp only [isSame, Bool.and_eq_true, List.all_eq_true, decide_eq_true_eq, ← mem_values]
  exact ⟨fun ⟨h, h'⟩ a => ⟨h a, h' a⟩, fun h => ⟨fun a => (h a).mp, fun a => (h a).mpr⟩⟩

end QSet

-- Two maps that are to be inverse to each other: who owns a key, and which keys each owner holds.
namespace Holdings

variable {κ ι : Type} [DecidableEq κ] [DecidableEq ι]

def hold (held : AList fun _ : ι => QSet κ) (i : ι) (k : κ) : AList fun _ : ι => QSet κ :=
  held.insert i (((held.lookup i).getD ∅).insert k)

def Inverse (owner : AList fun _ : κ => ι) (held : AList fun _ : ι => QSet κ) : Prop :=
  ∀ k i, owner.lookup k = some i ↔ ∃ keys, held.lookup i = some keys ∧ k ∈ keys

variable {owner : AList fun _ : κ => ι} {held : AList fun _ : ι => QSet κ} {keys : QSet κ} {ks : List κ} {i j : ι} {k : κ}

theorem lookup_foldl_hold_of_ne (h : j ≠ i) : (ks.foldl (hold · i ·) held).lookup j = held.lookup j := by
  induction ks generalizing held
  case nil => rfl
  case cons k ks ih => rw [List.foldl_cons, ih, hold, AList.lookup_insert_ne h]

theorem lookup_foldl_hold_of_some (ks : List κ) (h : held.lookup i = some keys) :
    ∃ keys', (ks.foldl (hold · i ·) held).lookup i = some keys' ∧ ∀ k, k ∈ keys' ↔ k ∈ keys ∨ k ∈ ks := by
  induction ks generalizing held keys
  case nil => exact ⟨keys, h, by simp⟩
  case cons k ks ih =>
    have hk : (hold held i k).lookup i = some (keys.insert k) := by
      rw [hold, AList.lookup_insert, h, Option.getD_some]
    have ⟨keys', hkeys', hmem⟩ := ih hk
    exact ⟨keys', hkeys', fun k' => by simp [hmem, or_assoc, or_left_comm]⟩

theorem lookup_foldl_hold (h : held.lookup i = none) (hks : ks ≠ []) :
    ∃ keys, (ks.foldl (hold · i ·) held).lookup i = some keys ∧ ∀ k, k ∈ keys ↔ k ∈ ks := by
  cases ks with
  | nil => contradiction
  | cons k ks =>
    have hk : (hold held i k).lookup i = some (QSet.insert ∅ k) := by
      rw [hold, AList.lookup_insert, h, Option.getD_none]
    have ⟨keys, hkeys, hmem⟩ := lookup_foldl_hold_of_some ks hk
    exact ⟨keys, hkeys, fun k' => by simp [hmem]⟩

omit [DecidableEq ι] in
theorem lookup_foldl_insert_const :
    (ks.foldl (fun m k => m.insert k i) owner).lookup k = if k ∈ ks then some i else owner.lookup k := by
  induction ks generalizing owner
  case nil => rfl
  case cons k' ks ih =>
    rw [List.foldl_cons, ih, Hash.lookup_insert]
    by_cases hk : k ∈ ks <;> simp [hk]

namespace Inverse

theorem empty : Inverse (∅ : AList fun _ : κ => ι) ∅ :=
  fun k i => by simp

theorem release (h : Inverse owner held) (hi : held.lookup i = some keys) :
    Inverse (keys.values.foldl (fun m k => m.erase k) owner) (held.erase i) := by
  intro k j
  rw [Hash.lookup_foldl_erase, Hash.lookup_erase]
  by_cases hj : j = i
  case pos =>
    subst hj
    have : owner.lookup k = some j → k ∈ keys.values := by
      intro hk
      have ⟨keys', hkeys', hmem⟩ := (h k j).mp hk
      cases hi.symm.trans hkeys'
      exact hmem
    simpa using mt this
  case neg =>
    have : k ∈ keys.values → owner.lookup k ≠ some j := by
      intro hk hkj
      cases hkj.symm.trans ((h k i).mpr ⟨keys, hi, hk⟩)
      exact hj rfl
    rw [if_neg hj, ← h k j]
    split
    case isTrue hk => simpa using this hk
    case isFalse => rfl

theorem take (h : Inverse owner held) (hi : held.lookup i = none) (hks : ∀ k ∈ ks, owner.lookup k = none) :
    Inverse (ks.foldl (fun m k => m.insert k i) owner) (ks.foldl (hold · i ·) held) := by
  intro k j
  rw [lookup_foldl_insert_const]
  by_cases hj : j = i
  case pos =>
    subst hj
    have hk : owner.lookup k ≠ some j := by simp [h k j, hi]
    cases ks with
    | nil => simpa [hi] using hk
    | cons k' ks =>
      have ⟨keys, hkeys, hmem⟩ := lookup_foldl_hold hi (List.cons_ne_nil k' ks)
      simp only [hkeys, Option.some.injEq, exists_eq_left', hmem]
      split
      case isTrue hm => simpa using hm
      case isFalse hm => simp [hm, hk]
  case neg =>
    rw [lookup_foldl_hold_of_ne hj, ← h k j]
    split
    case isTrue hm => simp [hks k hm, Ne.symm hj]
    case isFalse => rfl

end Inverse

end Holdings
