import PlasmaModel.Lib.Partition

-- Lists that hold what is alike together, where being alike is symmetric and transitive. What is alike to nothing, not
-- even to itself, is alone.
namespace List

variable {α : Type} (R : α → α → Prop)

def Apart (rows rows' : List α) : Prop :=
  ∀ a ∈ rows, ∀ b ∈ rows', ¬R a b

end List

open List

variable {α : Type} {R : α → α → Prop} {l rows rows' : List α} {m : List (List α)} {a b : α} {i j : Nat}

-- The lists from row `i` on are apart from all before them, and so are those that are groups.
structure GroupedFrom (R : α → α → Prop) (i : Nat) (l : List α) (m : List (List α)) : Prop where
  partitions : Partitions l m
  together   : ∀ rows ∈ m, rows.Pairwise R
  apart      : ∀ j k rows rows', j < k → m[j]? = some rows → m[k]? = some rows' → i ≤ k ∨ 1 < rows'.length →
    Apart R rows rows'

abbrev Grouped (R : α → α → Prop) (l : List α) (m : List (List α)) : Prop :=
  GroupedFrom R 0 l m

namespace GroupedFrom

theorem of_perm {l' : List α} (h : GroupedFrom R i l m) (hl : l.Perm l') : GroupedFrom R i l' m :=
  ⟨h.partitions.of_perm hl, h.together, h.apart⟩

theorem singletons (R : α → α → Prop) (l : List α) :
    GroupedFrom R (l.map ([·])).length l (l.map ([·])) where
  partitions := .singletons l
  together rows hr := by
    have ⟨a, _, he⟩ := mem_map.mp hr
    exact he ▸ pairwise_singleton R a
  apart j k rows rows' _ _ hk hc := by
    have ⟨hlt, hk⟩ := List.getElem?_eq_some_iff.mp hk
    cases hc with
    | inl hle => exact (Nat.not_lt.mpr hle hlt).elim
    | inr hl =>
      rw [← hk, getElem_map] at hl
      exact (Nat.lt_irrefl 1 hl).elim

section

variable (hs : ∀ a b, R a b → R b a) (ht : ∀ a b c, R a b → R b c → R a c)

include hs ht

-- A list can be told by its first row.
theorem head_iff (h : GroupedFrom R i l m) (hr : rows ∈ m) (ha : rows.head? = some a) (hb : b ∈ rows) {c : α} :
    R c b ↔ R c a := by
  have ⟨rows', he⟩ := head?_eq_some_iff.mp ha
  subst he
  cases mem_cons.mp hb with
  | inl he => rw [he]
  | inr hb =>
    have hab := rel_of_pairwise_cons (h.together _ hr) hb
    exact ⟨fun hc => ht _ _ _ hc (hs _ _ hab), fun hc => ht _ _ _ hc hab⟩

theorem apart_of_head (h : GroupedFrom R i l m) (hr : rows ∈ m) (ha : rows.head? = some a) (hn : ¬R b a) :
    Apart R rows [b] := by
  intro c hc d hd hcd
  cases mem_singleton.mp hd
  exact hn ((h.head_iff hs ht hr ha hc).mp (hs _ _ hcd))

end

theorem apart_symm (hs : ∀ a b, R a b → R b a) (h : Apart R rows rows') : Apart R rows' rows :=
  fun a ha b hb hab => h b hb a ha (hs _ _ hab)

-- The list of row `i` is a group, or nothing before it is alike to its only row.
theorem stays (h : GroupedFrom R (i + 1) l m)
    (hi : ∀ j rows rows', j < i → m[j]? = some rows → m[i]? = some rows' → Apart R rows rows') : GroupedFrom R i l m where
  partitions := h.partitions
  together := h.together
  apart j k rows rows' hjk hj hk hc := by
    by_cases he : k = i
    case pos =>
      subst he
      exact hi j rows rows' hjk hj hk
    case neg =>
      refine h.apart j k rows rows' hjk hj hk (hc.imp_left fun hle => ?_)
      exact Nat.lt_of_le_of_ne hle (Ne.symm he)

theorem eq_of_mem (h : Partitions l m) (hl : l.Nodup) (hj : m[j]? = some rows) (hi : m[i]? = some rows') (ha : a ∈ rows)
    (ha' : a ∈ rows') : j = i := by
  have hd := (nodup_flatten.mp (h.perm.nodup_iff.mpr hl)).2
  have ⟨hlj, hj⟩ := List.getElem?_eq_some_iff.mp hj
  have ⟨hli, hi⟩ := List.getElem?_eq_some_iff.mp hi
  rcases Nat.lt_trichotomy j i with hlt | he | hlt
  · exact (pairwise_iff_getElem.mp hd j i hlj hli hlt (hj ▸ ha) (hi ▸ ha')).elim
  · exact he
  · exact (pairwise_iff_getElem.mp hd i j hli hlj hlt (hi ▸ ha') (hj ▸ ha)).elim

-- The list of each row after row `j` got an element and row `i` was left out.
theorem getElem?_modify_eraseIdx {k : Nat} (hlt : j < i) (hk : ((m.modify j (· ++ [a])).eraseIdx i)[k]? = some rows') :
    ∃ rows, m[if k < i then k else k + 1]? = some rows ∧ rows' = if k = j then rows ++ [a] else rows := by
  rw [List.getElem?_eraseIdx] at hk
  split at hk
  case isTrue hki =>
    rw [List.getElem?_modify, Option.map_eq_map] at hk
    have ⟨rows, hr, he⟩ := Option.map_eq_some_iff.mp hk
    refine ⟨rows, by rw [if_pos hki, hr], ?_⟩
    rw [← he]
    by_cases hkj : k = j
    case pos => rw [if_pos hkj, if_pos hkj.symm]
    case neg => rw [if_neg hkj, if_neg (Ne.symm hkj)]
  case isFalse hki =>
    have hne : j ≠ k + 1 := by omega
    have hkj : k ≠ j := by omega
    rw [List.getElem?_modify_ne _ _ hne] at hk
    exact ⟨rows', by rw [if_neg hki, hk], by rw [if_neg hkj]⟩

section

variable (hs : ∀ a b, R a b → R b a) (ht : ∀ a b c, R a b → R b c → R a c)

include hs ht

-- The only row of a list joins the first list that is alike to it, which is one before it.
theorem join (h : GroupedFrom R (i + 1) l m) (hl : l.Nodup) (hi : m[i]? = some [a]) (hj : m[j]? = some rows)
    (hb : rows.head? = some b) (hne : b ≠ a) (hab : R a b)
    (hfirst : ∀ k rows c, k < j → m[k]? = some rows → rows.head? = some c → c ≠ a → ¬R a c) :
    j < i ∧ GroupedFrom R i l ((m.modify j (· ++ [a])).eraseIdx i) := by
  have hmem : b ∈ rows := mem_of_mem_head? hb
  have hji : j ≠ i := by
    rintro rfl
    cases Option.some_inj.mp (hj.symm.trans hi)
    exact hne (Option.some_inj.mp hb.symm)
  have hlt : j < i := by
    refine Nat.lt_of_le_of_ne (Nat.le_of_not_lt fun hij => ?_) hji
    exact h.apart i j [a] rows hij hi hj (.inl hij) a mem_cons_self b hmem hab
  have hbefore {rows' : List α} {j' : Nat} (hj' : j' < j) (hr : m[j']? = some rows') : Apart R rows' [a] := by
    have ⟨c, rest, hc⟩ := exists_cons_of_ne_nil (h.partitions.nonempty rows' (mem_of_getElem? hr))
    have hhead : rows'.head? = some c := hc ▸ rfl
    refine h.apart_of_head hs ht (mem_of_getElem? hr) hhead (hfirst j' rows' c hj' hr hhead ?_)
    rintro rfl
    have := eq_of_mem h.partitions hl hr hi (mem_of_mem_head? hhead) mem_cons_self
    omega
  refine ⟨hlt, h.partitions.move hi (List.getElem?_eq_some_iff.mp hj).1 hji, fun rows' hr => ?_, ?_⟩
  · have ⟨k, hk⟩ := getElem?_of_mem hr
    have ⟨old, ho, he⟩ := getElem?_modify_eraseIdx hlt hk
    rw [he]
    split
    case isFalse => exact h.together old (mem_of_getElem? ho)
    case isTrue hkj =>
      rw [if_pos (hkj ▸ hlt), hkj, hj] at ho
      cases ho
      refine pairwise_append.mpr ⟨h.together rows (mem_of_getElem? hj), pairwise_singleton R a, fun x hx y hy => ?_⟩
      cases mem_singleton.mp hy
      exact hs _ _ ((h.head_iff hs ht (mem_of_getElem? hj) hb hx).mpr hab)
  · intro j' k' rows₁ rows₂ hjk hj' hk' hc
    have ⟨old₁, ho₁, he₁⟩ := getElem?_modify_eraseIdx hlt hj'
    have ⟨old₂, ho₂, he₂⟩ := getElem?_modify_eraseIdx hlt hk'
    by_cases hkj : k' = j
    case pos =>
      rw [if_pos (by omega)] at ho₁ ho₂
      rw [if_neg (by omega)] at he₁
      rw [if_pos hkj] at he₂
      rw [hkj, hj] at ho₂
      cases ho₂
      rw [he₁, he₂]
      intro x hx y hy hxy
      have hxa := hbefore (hkj ▸ hjk) ho₁ x hx a mem_cons_self
      cases mem_append.mp hy with
      | inr hy => exact hxa (mem_singleton.mp hy ▸ hxy)
      | inl hy => exact hxa (ht _ _ _ ((h.head_iff hs ht (mem_of_getElem? hj) hb hy).mp hxy) (hs _ _ hab))
    case neg =>
      rw [if_neg hkj] at he₂
      subst he₂
      have hapart : Apart R old₁ rows₂ := by
        refine h.apart _ _ old₁ rows₂ ?_ ho₁ ho₂ (hc.imp_left fun hle => ?_)
        · split <;> split <;> omega
        · rw [if_neg (Nat.not_lt.mpr hle)]
          exact Nat.succ_le_succ hle
      rw [he₁]
      split
      case isFalse => exact hapart
      case isTrue hjj =>
        rw [if_pos (hjj ▸ hlt), hjj, hj] at ho₁
        cases ho₁
        intro x hx y hy hxy
        cases mem_append.mp hx with
        | inl hx => exact hapart x hx y hy hxy
        | inr hx => exact hapart b hmem y hy (ht _ _ _ (hs _ _ hab) (mem_singleton.mp hx ▸ hxy))

end

end GroupedFrom

namespace Grouped

theorem of_pairwise (hp : Partitions l m) (ht : ∀ rows ∈ m, rows.Pairwise R) (ha : m.Pairwise (Apart R)) :
    Grouped R l m where
  partitions := hp
  together := ht
  apart j k rows rows' hjk hj hk _ := by
    have ⟨hlj, hj⟩ := List.getElem?_eq_some_iff.mp hj
    have ⟨hlk, hk⟩ := List.getElem?_eq_some_iff.mp hk
    exact hj ▸ hk ▸ pairwise_iff_getElem.mp ha j k hlj hlk hjk

theorem pairwise (h : Grouped R l m) : m.Pairwise (Apart R) :=
  pairwise_iff_getElem.mpr fun j k hj hk hjk =>
    h.apart j k _ _ hjk (getElem?_eq_getElem hj) (getElem?_eq_getElem hk) (.inl (Nat.zero_le k))

theorem share_iff (hs : ∀ a b, R a b → R b a) (h : Grouped R l m) (ha : a ∈ l) (hb : b ∈ l)
    (hne : a ≠ b) : (∃ rows ∈ m, a ∈ rows ∧ b ∈ rows) ↔ R a b := by
  constructor
  case mp =>
    intro ⟨rows, hr, ha, hb⟩
    have : Std.Symm R := ⟨hs⟩
    exact (h.together rows hr).forall ha hb hne
  case mpr =>
    intro hab
    have ⟨rows, hr, ha⟩ := h.partitions.mem_iff.mp ha
    have ⟨rows', hr', hb⟩ := h.partitions.mem_iff.mp hb
    by_cases he : rows = rows'
    case pos => exact ⟨rows, hr, ha, he ▸ hb⟩
    case neg =>
      have : Std.Symm (Apart R) := ⟨fun _ _ => GroupedFrom.apart_symm hs⟩
      exact (h.pairwise.forall hr hr' he a ha b hb hab).elim

theorem filter (h : Grouped R l m) (p : α → Bool) :
    Grouped R (l.filter p) ((m.map (·.filter p)).filter (· ≠ [])) := by
  refine of_pairwise ⟨?_, fun rows hr => of_decide_eq_true (mem_filter.mp hr).2⟩ (fun rows hr => ?_) ?_
  · rw [flatten_filter_ne_nil, ← filter_flatten]
    exact h.partitions.perm.filter p
  · have ⟨rows', hr', he⟩ := mem_map.mp (mem_filter.mp hr).1
    exact he ▸ (h.together rows' hr').filter p
  · refine (pairwise_map.mpr (h.pairwise.imp fun hap a ha b hb => ?_)).filter _
    exact hap a (mem_filter.mp ha).1 b (mem_filter.mp hb).1

theorem map {β : Type} {R' : β → β → Prop} (h : Grouped R l m) (f : α → β)
    (hf : ∀ a ∈ l, ∀ b ∈ l, R' (f a) (f b) ↔ R a b) : Grouped R' (l.map f) (m.map (·.map f)) := by
  have hmem {rows : List α} (hr : rows ∈ m) {a : α} (ha : a ∈ rows) : a ∈ l := h.partitions.mem_iff.mpr ⟨rows, hr, ha⟩
  refine of_pairwise (h.partitions.map f) (fun rows hr => ?_) ?_
  · have ⟨rows', hr', he⟩ := mem_map.mp hr
    subst he
    refine pairwise_map.mpr ((h.together rows' hr').imp_of_mem fun ha hb hab => ?_)
    exact (hf _ (hmem hr' ha) _ (hmem hr' hb)).mpr hab
  · refine pairwise_map.mpr (h.pairwise.imp_of_mem fun hr hr' hap a ha b hb hab => ?_)
    have ⟨a', ha', he⟩ := mem_map.mp ha
    have ⟨b', hb', he'⟩ := mem_map.mp hb
    rw [← he, ← he'] at hab
    exact hap a' ha' b' hb' ((hf a' (hmem hr ha') b' (hmem hr' hb')).mp hab)

theorem add_alone (h : Grouped R l m) (ha : ∀ rows ∈ m, Apart R rows [a]) : Grouped R (a :: l) (m ++ [[a]]) := by
  refine of_pairwise h.partitions.append_singleton (fun rows hr => ?_) ?_
  · cases mem_append.mp hr with
    | inl hr => exact h.together rows hr
    | inr hr => exact mem_singleton.mp hr ▸ pairwise_singleton R a
  · refine pairwise_append.mpr ⟨h.pairwise, pairwise_singleton _ _, fun rows hr rows' hr' => ?_⟩
    exact mem_singleton.mp hr' ▸ ha rows hr

theorem add_to (hs : ∀ a b, R a b → R b a) (ht : ∀ a b c, R a b → R b c → R a c) (h : Grouped R l m)
    (hj : m[j]? = some rows) (hb : rows.head? = some b) (hab : R a b) :
    Grouped R (a :: l) (m.modify j (· ++ [a])) := by
  have ⟨hlt, _⟩ := List.getElem?_eq_some_iff.mp hj
  have ⟨m₁, m₂, hm, hl⟩ := exists_append_of_getElem? hj
  have hp := h.partitions.add (a := a) hlt
  subst hm hl
  rw [modify_length_append] at hp ⊢
  have hmem : rows ∈ m₁ ++ rows :: m₂ := mem_append_right _ mem_cons_self
  have ⟨hpre, hpost, hcross⟩ := pairwise_append.mp h.pairwise
  have ⟨hhead, hpost⟩ := pairwise_cons.mp hpost
  have hjoin {x : α} (hx : x ∈ rows) : R a x := (h.head_iff hs ht hmem hb hx).mpr hab
  refine of_pairwise hp (fun rows' hr => ?_) ?_
  · rw [mem_append, mem_cons, or_left_comm, ← mem_append] at hr
    cases hr with
    | inl he =>
      subst he
      refine pairwise_append.mpr ⟨h.together rows hmem, pairwise_singleton R a, fun x hx y hy => ?_⟩
      exact mem_singleton.mp hy ▸ hs _ _ (hjoin hx)
    | inr hr =>
      refine h.together rows' (mem_append.mpr ((mem_append.mp hr).imp_right (mem_cons_of_mem _)))
  · have hb := mem_of_mem_head? hb
    refine pairwise_append.mpr ⟨hpre, pairwise_cons.mpr ⟨fun rows' hr x hx y hy hxy => ?_, hpost⟩, ?_⟩
    · cases mem_append.mp hx with
      | inl hx => exact hhead rows' hr x hx y hy hxy
      | inr hx => exact hhead rows' hr b hb y hy (ht _ _ _ (hs _ _ hab) (mem_singleton.mp hx ▸ hxy))
    · intro rows₁ h₁ rows₂ h₂
      cases mem_cons.mp h₂ with
      | inr h₂ => exact hcross rows₁ h₁ rows₂ (mem_cons_of_mem _ h₂)
      | inl he =>
        subst he
        intro x hx y hy hxy
        have hap := hcross rows₁ h₁ rows mem_cons_self x hx
        cases mem_append.mp hy with
        | inl hy => exact hap y hy hxy
        | inr hy => exact hap b hb (ht _ _ _ (mem_singleton.mp hy ▸ hxy) hab)

end Grouped
