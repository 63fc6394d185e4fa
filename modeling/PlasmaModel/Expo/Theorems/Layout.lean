import Mathlib.Analysis.Convex.Mul
import PlasmaModel.Expo.Layout

namespace Expo

open LeastWeight

section

variable {g g' : ℕ → ℕ → ℚ} {n m k low high fuel : ℕ} {candidate alternativeSmall alternativeBig : ℕ}

-- The first position from which on the candidate is better than the small alternative.
structure High (g : ℕ → ℕ → ℚ) (n candidate alternativeSmall alternativeBig high : ℕ) : Prop where
  lt     : alternativeBig < high
  le     : high ≤ n
  better : g candidate high < g alternativeSmall high
  first  : high = alternativeBig + 1 ∨ g alternativeSmall (high - 1) ≤ g candidate (high - 1)

theorem searchHigh_high (hfuel : high - low ≤ fuel) (hlow : alternativeBig ≤ low) (hlt : low < high) (hle : high ≤ n)
    (hbetter : g candidate high < g alternativeSmall high)
    (hfirst : low = alternativeBig ∨ g alternativeSmall low ≤ g candidate low) :
    High g n candidate alternativeSmall alternativeBig (searchHigh g candidate alternativeSmall fuel low high) := by
  have hend : ∀ {low high : ℕ}, alternativeBig ≤ low → low < high → high ≤ n → high - low < 2 →
      g candidate high < g alternativeSmall high →
      (low = alternativeBig ∨ g alternativeSmall low ≤ g candidate low) →
      High g n candidate alternativeSmall alternativeBig high := by
    intro low high hlow hlt hle hnear hbetter hfirst
    have hsucc : high = low + 1 := by omega
    refine ⟨by omega, hle, hbetter, hfirst.imp (fun h => by omega) fun h => ?_⟩
    rw [hsucc, Nat.add_sub_cancel]
    exact h
  induction fuel generalizing low high with
  | zero => omega
  | succ fuel ih =>
    rw [searchHigh]
    dsimp only
    split
    case isFalse hnear => exact hend hlow hlt hle (by omega) hbetter hfirst
    case isTrue hfar =>
      split
      case isTrue hmid => exact ih (by omega) (by omega) (by omega) hle hbetter (.inr hmid)
      case isFalse hmid => exact ih (by omega) hlow (by omega) (by omega) (not_le.mp hmid) hfirst

-- For every position, one of the alternatives is at least as good as the candidate.
theorem isDominated_iff (hg : Concave g n) (hsmall : alternativeSmall < candidate) (hbig : candidate < alternativeBig)
    (hn : alternativeBig < n) : isDominated candidate alternativeSmall alternativeBig n g = true ↔
      ∀ k, alternativeBig < k → k ≤ n →
        g alternativeSmall k ≤ g candidate k ∨ g alternativeBig k ≤ g candidate k := by
  have hbefore : ∀ {k l}, candidate < k → k ≤ l → l ≤ n → g alternativeSmall l ≤ g candidate l →
      g alternativeSmall k ≤ g candidate k := by
    intro k l hk hkl hln hle
    by_contra hlt
    exact (hg.lt_of_lt hsmall.le hk hkl hln (not_le.mp hlt)).not_ge hle
  rw [isDominated, if_neg hn.ne]
  split
  case isTrue hle => exact iff_of_true rfl fun k hk hkn => .inl (hbefore (hbig.trans hk) hkn le_rfl hle)
  case isFalse hlt =>
    have hhigh : High g n candidate alternativeSmall alternativeBig _ :=
      searchHigh_high (n.sub_le alternativeBig) le_rfl hn le_rfl (not_le.mp hlt) (.inl rfl)
    generalize searchHigh g candidate alternativeSmall n alternativeBig n = high at hhigh
    rw [decide_eq_true_eq]
    constructor
    case mp =>
      intro hle k hk hkn
      rcases lt_or_ge k high with hkh | hkh
      · rcases hhigh.first with hfirst | hfirst
        · omega
        · exact .inl (hbefore (hbig.trans hk) (Nat.le_sub_one_of_lt hkh) (high.sub_le 1 |>.trans hhigh.le) hfirst)
      · exact .inr (hg.le_of_le hbig.le hhigh.lt hkh hkn hle)
    case mpr =>
      intro h
      exact (h high hhigh.lt hhigh.le).resolve_left hhigh.better.not_ge

end

section

variable {g g' : ℕ → ℕ → ℚ} {n m k : ℕ} {d : List ℕ}

-- What is removed at the front gets better and better, up to the candidate that stays.
structure Popped (g : ℕ → ℕ → ℚ) (k : ℕ) (d popped : List ℕ) (front : ℕ) (rest : List ℕ) : Prop where
  split : d = popped ++ front :: rest
  left  : popFront g k d = front :: rest
  falls : (popped ++ [front]).Pairwise fun i j => g j k ≤ g i k
  rises : ∀ second ∈ rest.head?, g front k < g second k

theorem exists_popped (hd : d ≠ []) : ∃ popped front rest, Popped g k d popped front rest := by
  induction d with
  | nil => exact absurd rfl hd
  | cons first d ih =>
    cases d with
    | nil => exact ⟨[], first, [], rfl, rfl, List.pairwise_singleton _ _, fun _ h => nomatch h⟩
    | cons second d =>
      by_cases hle : g second k ≤ g first k
      case pos =>
        have ⟨popped, front, rest, h⟩ := ih (by simp)
        refine ⟨first :: popped, front, rest, by rw [h.split, List.cons_append], ?_, ?_, h.rises⟩
        · rw [popFront, if_pos hle, h.left]
        · rw [List.cons_append]
          refine List.pairwise_cons.mpr ⟨fun j hj => ?_, h.falls⟩
          have hsecond : ∃ l, popped ++ [front] = second :: l := by
            cases popped with
            | nil => exact ⟨[], by rw [(List.cons.inj h.split).1]; rfl⟩
            | cons _ popped => exact ⟨popped ++ [front], by rw [(List.cons.inj h.split).1]; rfl⟩
          have ⟨l, hl⟩ := hsecond
          have hfalls := h.falls
          rw [hl] at hj hfalls
          rcases List.mem_cons.mp hj with rfl | hj
          · exact hle
          · exact (List.rel_of_pairwise_cons hfalls hj).trans hle
      case neg =>
        refine ⟨[], first, second :: d, rfl, by rw [popFront, if_neg hle], List.pairwise_singleton _ _, ?_⟩
        intro j hj
        cases hj
        exact not_le.mp hle

-- The candidates that stay at the back, together with the current index, are as good as those that are removed.
structure Kept (g : ℕ → ℕ → ℚ) (n m : ℕ) (d kept : List ℕ) : Prop where
  ofPrefix : kept <+: d
  nonempty : d ≠ [] → kept ≠ []
  covers   : ∀ i ∈ d, ∀ k, m < k → k ≤ n → g m k ≤ g i k ∨ ∃ c ∈ kept, g c k ≤ g i k
  useful   : ∀ i j, [i, j] <:+ kept → ∃ k, m < k ∧ k ≤ n ∧ g j k < g i k ∧ g j k < g m k

theorem popBack_kept (hg : Concave g n) (hmn : m < n) (hd : d.Pairwise (· < ·)) (hm : ∀ i ∈ d, i < m) :
    Kept g n m d (popBack n g m d.reverse).reverse := by
  induction d using List.reverseRecOn with
  | nil =>
    refine ⟨⟨[], rfl⟩, fun h => absurd rfl h, fun i hi => absurd hi List.not_mem_nil, ?_⟩
    exact fun _ _ h => absurd h.length_le (by simp [popBack])
  | append_singleton d back ih =>
    cases d using List.reverseRecOn with
    | nil =>
      refine ⟨⟨[], rfl⟩, fun _ => List.cons_ne_nil _ _, fun i hi k _ _ => .inr ⟨i, hi, le_rfl⟩, ?_⟩
      exact fun _ _ h => absurd h.length_le (by simp [popBack])
    | append_singleton d previous =>
      rw [List.reverse_append, List.reverse_append, List.reverse_singleton, List.reverse_singleton,
        List.singleton_append, List.singleton_append, popBack]
      have hback : previous < back := (List.pairwise_append.mp hd).2.2 previous (by simp) back (by simp)
      have hdominated := isDominated_iff hg hback (hm back (by simp)) hmn
      split
      case isTrue h =>
        have hkept := ih (List.pairwise_append.mp hd).1 fun i hi => hm i (List.mem_append_left _ hi)
        rw [List.reverse_append, List.reverse_singleton, List.singleton_append] at hkept
        refine ⟨hkept.ofPrefix.trans ⟨[back], rfl⟩, fun _ => hkept.nonempty (by simp), ?_, hkept.useful⟩
        intro i hi k hmk hkn
        rcases List.mem_append.mp hi with hi | hi
        · exact hkept.covers i hi k hmk hkn
        · cases List.mem_singleton.mp hi
          rcases hdominated.mp h k hmk hkn with hle | hle
          · have hprevious := hkept.covers previous (by simp) k hmk hkn
            exact hprevious.imp hle.trans' fun ⟨c, hc, hcle⟩ => ⟨c, hc, hcle.trans hle⟩
          · exact .inl hle
      case isFalse h =>
        have heq : (back :: previous :: d.reverse).reverse = d ++ [previous] ++ [back] := by simp
        rw [heq]
        refine ⟨⟨[], by simp⟩, fun _ => by simp, fun i hi k _ _ => .inr ⟨i, hi, le_rfl⟩, ?_⟩
        intro i j hij
        have ⟨t, ht⟩ := hij
        have heq : t ++ [i] ++ [j] = d ++ [previous] ++ [back] := by rw [← ht]; simp
        have ⟨heq, hj⟩ := List.append_inj' heq rfl
        have ⟨_, hi⟩ := List.append_inj' heq rfl
        cases hi
        cases hj
        rw [hdominated] at h
        simp only [not_forall, not_or, not_le] at h
        have ⟨k, hmk, hkn, hlt⟩ := h
        exact ⟨k, hmk, hkn, hlt⟩

-- The current index is the best start for the next position, but the front is not removed for it,
-- since the candidate behind the front is worse than the front.
def Skipped (g : ℕ → ℕ → ℚ) (m : ℕ) (d : List ℕ) : Prop :=
  (∀ i ∈ d, g m (m + 1) < g i (m + 1)) ∧ ∃ i ∈ d, g i (m + 1) < g (d.getLastD 0) (m + 1)

-- The candidates after the iteration for `m`, and the best one of them for the next position.
structure Next (g : ℕ → ℕ → ℚ) (n m : ℕ) (d d' : List ℕ) : Prop where
  envelope : Envelope g n (m + 1) d'
  nonempty : d' ≠ []
  front_le : ∀ i ≤ m, (i = m → ¬Skipped g m d) → g (d'.headD 0) (m + 1) ≤ g i (m + 1)
  allowed  : d'.headD 0 = m → ¬Skipped g m d

variable {popped rest : List ℕ} {front : ℕ}

-- If all candidates are removed, then each of them is worse than those behind it.
theorem Popped.next_singleton (hg : Concave g n) (he : Envelope g n m d) (hmn : m < n)
    (h : Popped g (m + 1) (d ++ [m]) d m []) : Next g n m d [m] := by
  have hfalls := List.pairwise_append.mp h.falls
  have hcovers : ∀ i < m, ∀ k, m + 1 ≤ k → k ≤ n → g m k ≤ g i k := by
    intro i hi k hk hkn
    have ⟨c, hc, hci⟩ := he.covers i hi k (by omega) hkn
    have hmc := hfalls.2.2 c hc m (.head _)
    exact (hg.le_of_le (he.lt c hc).le (by omega) hk hkn hmc).trans hci
  refine ⟨⟨List.pairwise_singleton _ _, by simp, stairs_singleton, ?_⟩, List.cons_ne_nil _ _, ?_, ?_⟩
  · intro i hi k hk hkn
    rcases Nat.lt_succ_iff_lt_or_eq.mp hi with hi | rfl
    · exact ⟨m, .head _, hcovers i hi k hk hkn⟩
    · exact ⟨i, .head _, le_rfl⟩
  · intro i hi _
    rcases hi.lt_or_eq with hi | rfl
    · exact hcovers i hi (m + 1) le_rfl hmn
    · exact le_rfl
  · rintro _ ⟨_, i, hi, hlt⟩
    cases d using List.reverseRecOn with
    | nil => cases hi
    | append_singleton d last =>
      rw [List.getLastD_concat] at hlt
      rcases List.mem_append.mp hi with hi | hi
      · exact ((List.pairwise_append.mp hfalls.1).2.2 i hi last (.head _)).not_gt hlt
      · rw [List.mem_singleton.mp hi] at hlt
        exact hlt.false

theorem Popped.front_lt (hg : Concave g n) (he : Envelope g n m d) (hmn : m < n) (hd : d = popped ++ front :: rest)
    (h : Popped g (m + 1) (d ++ [m]) popped front (rest ++ [m])) : ∀ i ∈ rest, g front (m + 1) < g i (m + 1) := by
  have hsuffix : front :: rest <:+ d := ⟨popped, hd.symm⟩
  cases rest with
  | nil => exact fun _ hi => nomatch hi
  | cons second rest =>
    refine (he.stairs.mono hsuffix.isInfix).lt_of_lt hg (he.sorted.sublist hsuffix.sublist) ?_ hmn (h.rises second rfl)
    exact fun i hi => (he.lt i (hsuffix.mem (.tail _ hi))).trans (Nat.lt_succ_self m)

theorem Popped.front_le (hg : Concave g n) (he : Envelope g n m d) (hd : d = popped ++ front :: rest)
    (h : Popped g (m + 1) (d ++ [m]) popped front (rest ++ [m])) {i k : ℕ} (hi : i ∈ popped) (hk : m + 1 ≤ k)
    (hkn : k ≤ n) : g front k ≤ g i k := by
  have hfalls := (List.pairwise_append.mp h.falls).2.2 i hi front (.head _)
  have hsorted := he.sorted
  have hlt := he.lt front (by simp [hd])
  rw [hd] at hsorted
  exact hg.le_of_le ((List.pairwise_append.mp hsorted).2.2 i hi front (.head _)).le (by omega) hk hkn hfalls

theorem Kept.envelope (hg : Concave g n) (he : Envelope g n m d) (hmn : m < n) {d₁ d' kept : List ℕ} {back : ℕ}
    (hd : d₁ <:+ d) (hcovers : ∀ i < m, ∀ k, m + 1 ≤ k → k ≤ n → ∃ c ∈ d₁, g c k ≤ g i k) (h : Kept g n m d₁ kept)
    (hback : kept.getLast? = some back)
    (hd' : g m n < g back n ∧ d' = kept ++ [m] ∨ g back n ≤ g m n ∧ d' = kept) : Envelope g n (m + 1) d' := by
  have hsub : kept.Sublist d := h.ofPrefix.sublist.trans hd.sublist
  have hsorted := he.sorted.sublist hsub
  have hlt : ∀ i ∈ kept, i < m := fun i hi => he.lt i (hsub.subset hi)
  have hstairs := he.stairs.mono (h.ofPrefix.isInfix.trans hd.isInfix)
  -- The candidates that stay and the current index are as good as all starts so far.
  have hall : ∀ i < m + 1, ∀ k, m + 1 ≤ k → k ≤ n → g m k ≤ g i k ∨ ∃ c ∈ kept, g c k ≤ g i k := by
    intro i hi k hk hkn
    rcases Nat.lt_succ_iff_lt_or_eq.mp hi with hi | rfl
    · have ⟨c, hc, hci⟩ := hcovers i hi k hk hkn
      exact (h.covers c hc k hk hkn).imp (·.trans hci) fun ⟨c', hc', hle⟩ => ⟨c', hc', hle.trans hci⟩
    · exact .inl le_rfl
  rcases hd' with ⟨hbetter, rfl⟩ | ⟨hworse, rfl⟩
  · constructor
    case sorted =>
      refine List.pairwise_append.mpr ⟨hsorted, List.pairwise_singleton _ _, fun i hi j hj => ?_⟩
      rw [List.mem_singleton.mp hj]
      exact hlt i hi
    case lt =>
      intro i hi
      rcases List.mem_append.mp hi with hi | hi
      · exact (hlt i hi).trans (Nat.lt_succ_self m)
      · rw [List.mem_singleton.mp hi]
        exact Nat.lt_succ_self m
    case stairs =>
      refine hstairs.concat (fun i hi => ?_) h.useful
      cases hback.symm.trans hi
      exact hbetter
    case covers =>
      intro i hi k hk hkn
      rcases hall i hi k hk hkn with hle | ⟨c, hc, hle⟩
      · exact ⟨m, by simp, hle⟩
      · exact ⟨c, by simp [hc], hle⟩
  · have hmem : back ∈ d' := List.mem_of_getLast? hback
    refine ⟨hsorted, fun i hi => (hlt i hi).trans (Nat.lt_succ_self m), hstairs, fun i hi k hk hkn => ?_⟩
    rcases hall i hi k hk hkn with hle | hle
    · refine ⟨back, hmem, le_trans ?_ hle⟩
      by_contra hlt'
      exact (hg.lt_of_lt (hlt back hmem).le hk hkn le_rfl (not_le.mp hlt')).not_ge hworse
    · exact hle

theorem Popped.next_cons (hg : Concave g n) (he : Envelope g n m d) (hmn : m < n) (hd : d = popped ++ front :: rest)
    (h : Popped g (m + 1) (d ++ [m]) popped front (rest ++ [m])) {d' kept : List ℕ} {back : ℕ}
    (hkept : Kept g n m (front :: rest) kept) (hback : kept.getLast? = some back)
    (hd' : g m n < g back n ∧ d' = kept ++ [m] ∨ g back n ≤ g m n ∧ d' = kept) : Next g n m d d' := by
  have hcovers : ∀ i < m, ∀ k, m + 1 ≤ k → k ≤ n → ∃ c ∈ front :: rest, g c k ≤ g i k := by
    intro i hi k hk hkn
    have ⟨c, hc, hci⟩ := he.covers i hi k (by omega) hkn
    rw [hd] at hc
    rcases List.mem_append.mp hc with hc | hc
    · exact ⟨front, .head _, (h.front_le hg he hd hc hk hkn).trans hci⟩
    · exact ⟨c, hc, hci⟩
  have hle : ∀ c ∈ front :: rest, g front (m + 1) ≤ g c (m + 1) := by
    intro c hc
    rcases List.mem_cons.mp hc with rfl | hc
    · exact le_rfl
    · exact (h.front_lt hg he hmn hd c hc).le
  have hhead : ∃ rest', kept = front :: rest' := by
    have hprefix := hkept.ofPrefix
    cases kept with
    | nil => exact absurd rfl (hkept.nonempty (List.cons_ne_nil _ _))
    | cons a kept => exact ⟨kept, by rw [(List.cons_prefix_cons.mp hprefix).1]⟩
  have hfront : d' ≠ [] ∧ d'.headD 0 = front := by
    have ⟨rest', hrest'⟩ := hhead
    rcases hd' with ⟨_, hd'⟩ | ⟨_, hd'⟩ <;> rw [hd', hrest']
    · exact ⟨List.cons_ne_nil _ _, rfl⟩
    · exact ⟨List.cons_ne_nil _ _, rfl⟩
  have hmem : front ∈ d := by simp [hd]
  refine ⟨hkept.envelope hg he hmn ⟨popped, hd.symm⟩ hcovers hback hd', hfront.1, ?_, ?_⟩
  · intro i hi hskipped
    rw [hfront.2]
    rcases hi.lt_or_eq with hi | rfl
    · have ⟨c, hc, hci⟩ := hcovers i hi (m + 1) le_rfl hmn
      exact (hle c hc).trans hci
    · by_contra hlt
      refine hskipped rfl ⟨fun j hj => (not_le.mp hlt).trans_le ?_, front, hmem, ?_⟩
      · rw [hd] at hj
        rcases List.mem_append.mp hj with hj | hj
        · exact h.front_le hg he hd hj le_rfl hmn
        · exact hle j hj
      · cases rest using List.reverseRecOn with
        | nil => exact absurd (h.rises i rfl).le hlt
        | append_singleton rest last =>
          rw [hd, ← List.cons_append, ← List.append_assoc, List.getLastD_concat]
          exact h.front_lt hg he hmn hd last (by simp)
  · rw [hfront.2]
    exact fun heq => absurd (he.lt front hmem) (by omega)

end

section

variable {w : ℕ → ℕ → ℚ} {n m i j k : ℕ} {s : State}

theorem State.next_leastWeight : (s.next w n m).leastWeight = (s.assign w m).leastWeight := by
  rw [State.next]
  split
  · rfl
  · split <;> rfl

theorem State.next_layerStart : (s.next w n m).layerStart = (s.assign w m).layerStart := by
  rw [State.next]
  split
  · rfl
  · split <;> rfl

theorem State.concave_leastWeightCandidate (h : Concave w n) : Concave (s.leastWeightCandidate w) n :=
  h.add_left fun i => s.leastWeight.getD i 0

theorem State.next_candidates (hw : Concave w n) (hmn : m < n)
    (he : Envelope ((s.assign w m).leastWeightCandidate w) n m s.layerStartCandidates) :
    Next ((s.assign w m).leastWeightCandidate w) n m s.layerStartCandidates (s.next w n m).layerStartCandidates := by
  have hg : Concave ((s.assign w m).leastWeightCandidate w) n := concave_leastWeightCandidate hw
  have hcandidates : (s.assign w m).layerStartCandidates = s.layerStartCandidates := rfl
  rw [State.next]
  rw [hcandidates]
  generalize (s.assign w m).leastWeightCandidate w = g at hg he ⊢
  generalize s.layerStartCandidates = d at he ⊢
  have ⟨popped, front, rest, h⟩ := exists_popped (g := g) (k := m + 1) (d := d ++ [m]) (by simp)
  rw [h.left]
  cases rest using List.reverseRecOn with
  | nil =>
    have ⟨hd, hfront⟩ := List.append_inj' h.split rfl
    cases hfront
    subst hd
    exact h.next_singleton hg he hmn
  | append_singleton rest last =>
    have hsplit : d ++ [m] = (popped ++ front :: rest) ++ [last] := by rw [h.split]; simp
    have ⟨hd, hlast⟩ := List.append_inj' hsplit rfl
    cases hlast
    have hsuffix : front :: rest <:+ d := ⟨popped, hd.symm⟩
    have hkept : Kept g n m (front :: rest) _ := popBack_kept hg hmn (he.sorted.sublist hsuffix.sublist)
      fun i hi => he.lt i (hsuffix.mem hi)
    rw [← List.cons_append, List.dropLast_concat]
    generalize (popBack n g m (front :: rest).reverse).reverse = kept at hkept
    have hnonempty := hkept.nonempty (List.cons_ne_nil _ _)
    rw [List.getLast?_eq_some_getLast hnonempty]
    dsimp only
    have hback := List.getLast?_eq_some_getLast hnonempty
    split
    case isTrue hbetter => exact h.next_cons hg he hmn hd hkept hback (.inl ⟨hbetter, rfl⟩)
    case isFalse hworse => exact h.next_cons hg he hmn hd hkept hback (.inr ⟨not_lt.mp hworse, rfl⟩)

@[simp]
theorem length_iterate (m : ℕ) :
    (iterate w n m).leastWeight.length = n + 1 ∧ (iterate w n m).layerStart.length = n + 1 := by
  induction m with
  | zero => exact ⟨List.length_replicate .., List.length_replicate ..⟩
  | succ m ih =>
    rwa [iterate, State.next_leastWeight, State.next_layerStart, State.assign, List.length_set, List.length_set]

-- What is assigned for a position stays.
theorem getD_iterate (hij : i ≤ j) : (iterate w n j).leastWeight.getD i 0 = (iterate w n i).leastWeight.getD i 0 ∧
    (iterate w n j).layerStart.getD i 0 = (iterate w n i).layerStart.getD i 0 := by
  induction j, hij using Nat.le_induction with
  | base => exact ⟨rfl, rfl⟩
  | succ j hij ih =>
    rw [← ih.1, ← ih.2, iterate, State.next_leastWeight, State.next_layerStart, State.assign]
    simp only [List.getD_eq_getElem?_getD, List.getElem?_set_ne (show j + 1 ≠ i by omega), and_self]

-- The index skips the layer that has only its own window.
def skips (w : ℕ → ℕ → ℚ) (n m : ℕ) : Prop :=
  let s := iterate w n (m - 1)
  Skipped ((s.assign w m).leastWeightCandidate w) m s.layerStartCandidates

def Allowed (w : ℕ → ℕ → ℚ) (n start stop : ℕ) : Prop :=
  stop = start + 1 → 0 < start → ¬skips w n start

-- The candidates for the position after an index.
structure Reached (w : ℕ → ℕ → ℚ) (n m : ℕ) (s : State) : Prop where
  envelope : Envelope (s.leastWeightCandidate w) n (m + 1) s.layerStartCandidates
  nonempty : s.layerStartCandidates ≠ []
  front_le : ∀ i ≤ m, Allowed w n i (m + 1) →
    s.leastWeightCandidate w (s.layerStartCandidates.headD 0) (m + 1) ≤ s.leastWeightCandidate w i (m + 1)
  allowed  : Allowed w n (s.layerStartCandidates.headD 0) (m + 1)

theorem envelope_congr {g g' : ℕ → ℕ → ℚ} {d : List ℕ} (h : Envelope g n m d) (hg : ∀ i < m, ∀ k, g' i k = g i k) :
    Envelope g' n m d := by
  have hd : ∀ i j, [i, j] <:+: d → i < m ∧ j < m := fun i j hij =>
    ⟨h.lt i (hij.mem (by simp)), h.lt j (hij.mem (by simp))⟩
  refine ⟨h.sorted, h.lt, ⟨fun i j hij => ?_, fun i j l hijl => ?_⟩, fun i hi k hmk hkn => ?_⟩
  · rw [hg i (hd i j hij).1, hg j (hd i j hij).2]
    exact h.stairs.pair i j hij
  · have hlt : ∀ x ∈ [i, j, l], x < m := fun x hx => h.lt x (hijl.mem hx)
    have ⟨k, hk⟩ := h.stairs.triple i j l hijl
    refine ⟨k, ?_⟩
    rwa [hg i (hlt i (by simp)), hg j (hlt j (by simp)), hg l (hlt l (by simp))]
  · have ⟨c, hc, hle⟩ := h.covers i hi k hmk hkn
    exact ⟨c, hc, by rwa [hg c (h.lt c hc), hg i hi]⟩

theorem reached_iterate (hw : Concave w n) (hmn : m < n) : Reached w n m (iterate w n m) := by
  induction m with
  | zero =>
    refine ⟨⟨List.pairwise_singleton _ _, by simp [iterate, State.init], stairs_singleton, ?_⟩, ?_, ?_, ?_⟩
    · exact fun i hi k _ _ => ⟨0, .head _, by rw [Nat.lt_one_iff.mp hi]⟩
    · exact List.cons_ne_nil _ _
    · exact fun i hi _ => by rw [Nat.le_zero.mp hi]; exact le_rfl
    · exact fun _ hpos => absurd hpos (lt_irrefl 0)
  | succ m ih =>
    have hr := ih (by omega)
    have hcandidate : (iterate w n (m + 1)).leastWeightCandidate w =
        ((iterate w n m).assign w (m + 1)).leastWeightCandidate w := by
      funext i k
      rw [State.leastWeightCandidate, State.leastWeightCandidate, iterate, State.next_leastWeight]
    have he : Envelope (((iterate w n m).assign w (m + 1)).leastWeightCandidate w) n (m + 1)
        (iterate w n m).layerStartCandidates := by
      refine envelope_congr hr.envelope fun i hi k => ?_
      rw [State.leastWeightCandidate, State.leastWeightCandidate, State.assign]
      simp only [List.getD_eq_getElem?_getD, List.getElem?_set_ne (show m + 1 ≠ i by omega)]
    have hnext := State.next_candidates hw hmn he
    constructor
    case envelope => rw [hcandidate]; exact hnext.envelope
    case nonempty => exact hnext.nonempty
    case front_le =>
      intro i hi hallowed
      rw [hcandidate]
      refine hnext.front_le i hi fun heq => ?_
      subst heq
      exact hallowed rfl (Nat.succ_pos m)
    case allowed =>
      intro heq _
      have hfront : (iterate w n (m + 1)).layerStartCandidates.headD 0 = m + 1 := by omega
      rw [hfront]
      exact hnext.allowed hfront

theorem Reached.front_lt (h : Reached w n m s) : s.layerStartCandidates.headD 0 < m + 1 := by
  refine h.envelope.lt _ ?_
  have hne := h.nonempty
  cases hd : s.layerStartCandidates with
  | nil => exact absurd hd hne
  | cons front d => exact .head _

theorem iterate_assigned (hmn : m < n) :
    (iterate w n n).layerStart.getD (m + 1) 0 = (iterate w n m).layerStartCandidates.headD 0 ∧
    (iterate w n n).leastWeight.getD (m + 1) 0 =
      (iterate w n m).leastWeightCandidate w ((iterate w n m).layerStartCandidates.headD 0) (m + 1) := by
  have hlength := @length_iterate w n m
  rw [(getD_iterate (show m + 1 ≤ n from hmn)).1, (getD_iterate (show m + 1 ≤ n from hmn)).2, iterate,
    State.next_leastWeight, State.next_layerStart, State.assign]
  constructor
  · rw [List.getD_eq_getElem?_getD, List.getElem?_set_self (by omega), Option.getD_some]
  · rw [List.getD_eq_getElem?_getD, List.getElem?_set_self (by omega), Option.getD_some]

theorem iterate_candidate (him : i ≤ m) (hmn : m ≤ n) : (iterate w n m).leastWeightCandidate w i k =
    (iterate w n n).leastWeight.getD i 0 + w i k := by
  rw [State.leastWeightCandidate, (getD_iterate him).1, (getD_iterate (him.trans hmn)).1]

-- The least weights are those without the layers that are skipped.
theorem solves_iterate (hw : Concave w n) :
    Solves (Allowed w n) w n fun i => (iterate w n n).leastWeight.getD i 0 where
  zero := by
    rw [(getD_iterate n.zero_le).1]
    rfl
  le i j hij hjn hallowed := by
    cases j with
    | zero => omega
    | succ m =>
      have hr := reached_iterate hw (show m < n from hjn)
      have hle := hr.front_le i (Nat.le_of_lt_succ hij) hallowed
      rwa [iterate_candidate (Nat.le_of_lt_succ hij) (Nat.le_of_lt hjn), ← (iterate_assigned hjn).2] at hle
  attained j hpos hjn := by
    cases j with
    | zero => omega
    | succ m =>
      have hr := reached_iterate hw (show m < n from hjn)
      refine ⟨_, hr.front_lt, hr.allowed, ?_⟩
      rw [(iterate_assigned hjn).2, iterate_candidate (Nat.le_of_lt_succ hr.front_lt) (Nat.le_of_lt hjn)]

theorem recover_path (hw : Concave w n) {fuel : ℕ} (hfuel : j ≤ fuel) (hjn : j ≤ n) (reversed : List ℕ) :
    ∃ l, recover (iterate w n n).layerStart fuel j reversed = some (reversed ++ l.reverse) ∧ Route j (l ++ [j]) ∧
      (∀ step ∈ steps (l ++ [j]), Allowed w n step.1 step.2) ∧
      total w (l ++ [j]) = (iterate w n n).leastWeight.getD j 0 := by
  induction fuel generalizing j reversed with
  | zero =>
    cases Nat.le_zero.mp hfuel
    exact ⟨[], by simp [recover], route_zero, by simp, (solves_iterate hw).zero.symm⟩
  | succ fuel ih =>
    cases j with
    | zero => exact ⟨[], by simp [recover], route_zero, by simp, (solves_iterate hw).zero.symm⟩
    | succ m =>
      have hr := reached_iterate hw (show m < n from hjn)
      have hassigned := @iterate_assigned w n m hjn
      have hlt := hr.front_lt
      rw [← hassigned.1] at hlt
      have hsum := hassigned.2.trans (iterate_candidate (Nat.le_of_lt_succ hr.front_lt) (Nat.le_of_lt hjn))
      have hallowed := hr.allowed
      rw [← hassigned.1] at hallowed hsum
      generalize hstart : (iterate w n n).layerStart.getD (m + 1) 0 = start at hlt hsum hallowed
      have ⟨l, hl, hpath, hsteps, htotal⟩ := ih (show start ≤ fuel by omega) (by omega) (reversed ++ [start])
      refine ⟨l ++ [start], ?_, hpath.concat hlt, ?_, by rw [total_concat hpath.last, htotal, hsum]⟩
      · rw [recover, hstart, hl, List.reverse_append, List.append_assoc]
        rfl
      · intro step hm
        rw [steps_concat hpath.last, List.mem_append, List.mem_singleton] at hm
        rcases hm with hm | rfl
        · exact hsteps step hm
        · exact hallowed

end

section

variable {maxWidth idealWidth : ℚ} {n : ℕ} {cumWidths : List ℚ}

-- The layers have the least weight of all layers that are not skipped.
theorem getLayerStartPos_allowed (hw : Concave (weight maxWidth idealWidth cumWidths) n) :
    ∃ l, getLayerStartPos maxWidth idealWidth n cumWidths = some l ∧ Route n l ∧
      (∀ step ∈ steps l, Allowed (weight maxWidth idealWidth cumWidths) n step.1 step.2) ∧
      ∀ l', Route n l' → (∀ step ∈ steps l', Allowed (weight maxWidth idealWidth cumWidths) n step.1 step.2) →
        total (weight maxWidth idealWidth cumWidths) l ≤ total (weight maxWidth idealWidth cumWidths) l' := by
  rw [getLayerStartPos]
  generalize weight maxWidth idealWidth cumWidths = w at hw ⊢
  cases n with
  | zero =>
    refine ⟨[0], by simp [recover], route_zero, by simp, fun l hl ha => ?_⟩
    have hle := (solves_iterate hw).le_total hl ha
    rwa [(solves_iterate hw).zero] at hle
  | succ m =>
    have ⟨l, hl, hpath, hsteps, htotal⟩ := recover_path hw (le_refl (m + 1)) (le_refl (m + 1)) [m + 1]
    refine ⟨l ++ [m + 1], ?_, hpath, hsteps, fun l' hl' ha => htotal ▸ (solves_iterate hw).le_total hl' ha⟩
    have heq : ((iterate w (m + 1) m).assign w (m + 1)).layerStart = (iterate w (m + 1) (m + 1)).layerStart :=
      State.next_layerStart.symm
    rw [Nat.add_sub_cancel, heq, hl]
    simp

variable {penaltyFactor width : ℚ}

theorem penalty_eq : penalty maxWidth idealWidth penaltyFactor width =
    (1 / (idealWidth * idealWidth)) • max (idealWidth - width) 0 ^ 2 +
      (penaltyFactor / ((maxWidth - idealWidth) * (maxWidth - idealWidth))) • max (width - idealWidth) 0 ^ 2 := by
  rw [penalty, smul_eq_mul, smul_eq_mul]
  split
  case isTrue h =>
    rw [max_eq_left (by linarith), max_eq_right (by linarith)]
    ring
  case isFalse h =>
    rw [max_eq_right (by linarith), max_eq_left (by linarith)]
    generalize maxWidth - idealWidth = gap
    ring

theorem convexOn_penalty (hfactor : 0 ≤ penaltyFactor) :
    ConvexOn ℚ Set.univ (penalty maxWidth idealWidth penaltyFactor) := by
  have hbelow : ConvexOn ℚ Set.univ fun width => max (idealWidth - width) 0 ^ 2 := by
    have hid : ConvexOn ℚ Set.univ fun width : ℚ => -width + idealWidth :=
      (concaveOn_id convex_univ).neg.add_const idealWidth
    have hpow := (hid.sup (convexOn_const 0 convex_univ)).pow (fun _ _ => le_max_right _ _) 2
    refine hpow.congr fun width _ => ?_
    simp [neg_add_eq_sub]
  have habove : ConvexOn ℚ Set.univ fun width => max (width - idealWidth) 0 ^ 2 := by
    have hid : ConvexOn ℚ Set.univ fun width : ℚ => width + -idealWidth :=
      (convexOn_id convex_univ).add_const (-idealWidth)
    have hpow := (hid.sup (convexOn_const 0 convex_univ)).pow (fun _ _ => le_max_right _ _) 2
    refine hpow.congr fun width _ => ?_
    simp [sub_eq_add_neg]
  have hcoeff : 0 ≤ 1 / (idealWidth * idealWidth) := div_nonneg zero_le_one (mul_self_nonneg _)
  have hcoeff' : 0 ≤ penaltyFactor / ((maxWidth - idealWidth) * (maxWidth - idealWidth)) :=
    div_nonneg hfactor (mul_self_nonneg _)
  exact ((hbelow.smul hcoeff).add (habove.smul hcoeff')).congr fun width _ => penalty_eq.symm

theorem penalty_nonneg (hfactor : 0 ≤ penaltyFactor) : 0 ≤ penalty maxWidth idealWidth penaltyFactor width := by
  rw [penalty_eq]
  have hcoeff : 0 ≤ 1 / (idealWidth * idealWidth) := div_nonneg zero_le_one (mul_self_nonneg _)
  have hcoeff' : 0 ≤ penaltyFactor / ((maxWidth - idealWidth) * (maxWidth - idealWidth)) :=
    div_nonneg hfactor (mul_self_nonneg _)
  exact add_nonneg (mul_nonneg hcoeff (sq_nonneg _)) (mul_nonneg hcoeff' (sq_nonneg _))

-- A window in a layer of its own.
theorem penalty_le_one (hwidth : 0 < width) (hle : width ≤ idealWidth) :
    penalty maxWidth idealWidth penaltyFactor width ≤ 1 := by
  have hideal : 0 < idealWidth := hwidth.trans_le hle
  rw [penalty_eq, max_eq_left (by linarith), max_eq_right (by linarith)]
  simp only [smul_eq_mul]
  rw [one_div_mul_eq_div, zero_pow two_ne_zero, mul_zero, add_zero, div_le_one (mul_pos hideal hideal)]
  nlinarith

theorem lt_penalty (hmax : idealWidth < maxWidth) (hfactor : 0 < penaltyFactor) (hwidth : maxWidth < width) :
    penaltyFactor < penalty maxWidth idealWidth penaltyFactor width := by
  have hpos : 0 < maxWidth - idealWidth := sub_pos.mpr hmax
  rw [penalty_eq, max_eq_right (by linarith), max_eq_left (by linarith)]
  simp only [smul_eq_mul]
  rw [zero_pow two_ne_zero, mul_zero, zero_add, div_mul_eq_mul_div, lt_div_iff₀ (mul_pos hpos hpos)]
  have hsq : (maxWidth - idealWidth) * (maxWidth - idealWidth) < (width - idealWidth) ^ 2 := by nlinarith
  exact mul_lt_mul_of_pos_left hsq hfactor

end

section

variable {maxWidth idealWidth : ℚ} {windowSizes : List QRectF} {ids l : List ℕ} {i j k start stop : ℕ}

theorem cumWidths_concat (id : ℕ) : cumWidths windowSizes (ids ++ [id]) =
    cumWidths windowSizes ids ++ [(cumWidths windowSizes ids).getLastD 0 + windowSizes[id]!.width] := by
  rw [cumWidths, List.foldl_append]
  rfl

theorem length_cumWidths : (cumWidths windowSizes ids).length = ids.length + 1 := by
  induction ids using List.reverseRecOn with
  | nil => rfl
  | append_singleton ids id ih => rw [cumWidths_concat, List.length_append, ih, List.length_append]; rfl

theorem getD_cumWidths (hk : k ≤ ids.length) :
    (cumWidths windowSizes ids).getD k 0 = ((ids.take k).map fun id => windowSizes[id]!.width).sum := by
  induction ids using List.reverseRecOn generalizing k with
  | nil =>
    cases Nat.le_zero.mp hk
    rfl
  | append_singleton ids id ih =>
    have hlength := @length_cumWidths windowSizes ids
    rw [List.length_append, List.length_singleton] at hk
    rw [cumWidths_concat, List.getD_eq_getElem?_getD]
    rcases Nat.lt_or_ge ids.length k with hlt | hle
    · have hlast : (cumWidths windowSizes ids).getLastD 0 = (cumWidths windowSizes ids).getD ids.length 0 := by
        rw [List.getLastD_eq_getLast?, List.getLast?_eq_getElem?, hlength, Nat.add_sub_cancel,
          List.getD_eq_getElem?_getD]
      have heq : k = ids.length + 1 := by omega
      rw [List.getElem?_append_right (by omega), hlength, heq, Nat.sub_self, List.getElem?_cons_zero,
        Option.getD_some, hlast, ih le_rfl, List.take_length, List.take_of_length_le (by simp), List.map_append,
        List.sum_append]
      simp
    · rw [List.getElem?_append_left (by omega), ← List.getD_eq_getElem?_getD, ih hle,
        List.take_append_of_le_length hle]

theorem cumWidths_succ (hk : k < ids.length) : (cumWidths windowSizes ids).getD (k + 1) 0 =
    (cumWidths windowSizes ids).getD k 0 + windowSizes[ids[k]]!.width := by
  rw [getD_cumWidths hk, getD_cumWidths hk.le, List.take_add_one, List.getElem?_eq_getElem hk, List.map_append,
    List.sum_append]
  simp

theorem width_create (hstart : start ≤ stop) (hstop : stop ≤ ids.length) :
    (Layer.create maxWidth windowSizes ids start stop).width =
      (cumWidths windowSizes ids).getD stop 0 - (cumWidths windowSizes ids).getD start 0 := by
  have hfold : ∀ (ids : List ℕ) (width : ℚ), ids.foldl (fun width id => width - windowSizes[id]!.width) width =
      width - (ids.map fun id => windowSizes[id]!.width).sum := by
    intro ids
    induction ids with
    | nil => simp
    | cons id ids ih => exact fun width => by rw [List.foldl_cons, ih, List.map_cons, List.sum_cons, sub_sub]
  have hsplit : ids.take stop = ids.take start ++ (ids.drop start).take (stop - start) := by
    rw [← List.take_add, Nat.add_sub_cancel' hstart]
  rw [Layer.width, Layer.create]
  dsimp only
  rw [hfold, getD_cumWidths hstop, getD_cumWidths (hstart.trans hstop), hsplit, List.map_append, List.sum_append]
  ring

theorem foldl_emplaceBack_fits {packing : LayeredPacking} {bounds : List (ℕ × ℕ)}
    (hbounds : ∀ step ∈ bounds, (Layer.create packing.maxWidth windowSizes ids step.1 step.2).width ≤ packing.maxWidth)
    (hwidth : packing.width ≤ packing.maxWidth) (hlayers : ∀ layer ∈ packing.layers, layer.width ≤ packing.maxWidth) :
    (bounds.foldl (LayeredPacking.emplaceBack windowSizes ids) packing).width ≤ packing.maxWidth ∧
      ∀ layer ∈ (bounds.foldl (LayeredPacking.emplaceBack windowSizes ids) packing).layers,
        layer.width ≤ packing.maxWidth := by
  induction bounds generalizing packing with
  | nil => exact ⟨hwidth, hlayers⟩
  | cons step bounds ih =>
    have hstep := hbounds step (.head _)
    have hmax : (packing.emplaceBack windowSizes ids step).maxWidth = packing.maxWidth := rfl
    have hrest := @ih (packing.emplaceBack windowSizes ids step)
    rw [hmax] at hrest
    refine hrest (fun step hm => hbounds step (.tail _ hm)) (max_le hwidth hstep) fun layer hm => ?_
    rcases List.mem_append.mp hm with hm | hm
    · exact hlayers layer hm
    · rw [List.mem_singleton.mp hm]
      exact hstep

abbrev layerWeight (maxWidth idealWidth : ℚ) (windowSizes : List QRectF) (ids : List ℕ) : ℕ → ℕ → ℚ :=
  weight maxWidth idealWidth (cumWidths windowSizes ids)

-- No window is wider than the ideal width of a layer.
structure WindowWidths (maxWidth idealWidth : ℚ) (windowSizes : List QRectF) (ids : List ℕ) : Prop where
  ideal_pos : 0 < idealWidth
  ideal_lt  : idealWidth < maxWidth
  pos       : ∀ id ∈ ids, 0 < windowSizes[id]!.width
  le        : ∀ id ∈ ids, windowSizes[id]!.width ≤ idealWidth

theorem WindowWidths.concave (h : WindowWidths maxWidth idealWidth windowSizes ids) :
    Concave (layerWeight maxWidth idealWidth windowSizes ids) ids.length := by
  refine concave_of_convexOn (convexOn_penalty (Nat.cast_nonneg _)) ids.length fun i j hij hj => ?_
  induction j, hij using Nat.le_induction with
  | base => exact le_rfl
  | succ j hij ih =>
    rw [cumWidths_succ hj]
    exact (ih (Nat.le_of_lt hj)).trans (le_add_of_nonneg_right (h.pos _ (List.getElem_mem _)).le)

-- Each window in a layer of its own.
theorem WindowWidths.total_range (h : WindowWidths maxWidth idealWidth windowSizes ids) (hk : k ≤ ids.length) :
    Route k (List.range (k + 1)) ∧ total (layerWeight maxWidth idealWidth windowSizes ids) (List.range (k + 1)) ≤ k := by
  induction k with
  | zero => exact ⟨route_zero, le_rfl⟩
  | succ k ih =>
    have ⟨hpath, htotal⟩ := ih (Nat.le_of_succ_le hk)
    rw [List.range_succ]
    refine ⟨hpath.concat (Nat.lt_succ_self k), ?_⟩
    have hmem := List.getElem_mem (show k < ids.length from hk)
    have hone : layerWeight maxWidth idealWidth windowSizes ids k (k + 1) ≤ 1 := by
      rw [layerWeight, weight, cumWidths_succ hk, add_sub_cancel_left]
      exact penalty_le_one (h.pos _ hmem) (h.le _ hmem)
    rw [total_concat hpath.last, Nat.cast_succ]
    exact add_le_add htotal hone

-- A layer that is too wide weighs more than all windows in layers of their own.
theorem WindowWidths.fits (h : WindowWidths maxWidth idealWidth windowSizes ids)
    (hl : Lightest (layerWeight maxWidth idealWidth windowSizes ids) ids.length l) : ∀ step ∈ steps l,
      (cumWidths windowSizes ids).getD step.2 0 - (cumWidths windowSizes ids).getD step.1 0 ≤ maxWidth := by
  intro step hm
  by_contra hwide
  have ⟨hpath, htotal⟩ := h.total_range (le_refl ids.length)
  have hstep : (cumWidths windowSizes ids).length < layerWeight maxWidth idealWidth windowSizes ids step.1 step.2 :=
    lt_penalty h.ideal_lt (by rw [length_cumWidths]; positivity) (not_le.mp hwide)
  have hsum : layerWeight maxWidth idealWidth windowSizes ids step.1 step.2 ≤
      total (layerWeight maxWidth idealWidth windowSizes ids) l := by
    refine List.single_le_sum (fun x hx => ?_) _ (List.mem_map_of_mem hm)
    have ⟨step, _, hx⟩ := List.mem_map.mp hx
    exact hx ▸ penalty_nonneg (Nat.cast_nonneg _)
  have hle := hl.le _ hpath
  rw [length_cumWidths, Nat.cast_succ] at hstep
  linarith

-- The least weight of all layers, and no layer is too wide.
structure GoodLayers (maxWidth idealWidth : ℚ) (windowSizes : List QRectF) (ids layerStartPos : List ℕ) : Prop where
  result   : getLayerStartPos maxWidth idealWidth ids.length (cumWidths windowSizes ids) = some layerStartPos
  lightest : Lightest (layerWeight maxWidth idealWidth windowSizes ids) ids.length layerStartPos
  naive    : total (layerWeight maxWidth idealWidth windowSizes ids) layerStartPos =
    least (layerWeight maxWidth idealWidth windowSizes ids) ids.length
  fits     : ∀ idealWidthRatio packing, maxWidth * idealWidthRatio = idealWidth →
    findPacking windowSizes ids idealWidthRatio maxWidth = some packing →
    packing.width ≤ maxWidth ∧ ∀ layer ∈ packing.layers, layer.width ≤ maxWidth

theorem getLayerStartPos_iff (maxWidth idealWidth : ℚ) (windowSizes : List QRectF) (ids : List ℕ)
    (h : WindowWidths maxWidth idealWidth windowSizes ids) :
    (∃ layerStartPos, GoodLayers maxWidth idealWidth windowSizes ids layerStartPos) ↔
      ∃ l, Lightest (layerWeight maxWidth idealWidth windowSizes ids) ids.length l ∧
        ∀ m, 0 < m → skips (layerWeight maxWidth idealWidth windowSizes ids) ids.length m →
          (m, m + 1) ∉ steps l := by
  have ⟨layerStartPos, hresult, hpath, hallowed, hle⟩ := getLayerStartPos_allowed h.concave
  constructor
  case mp =>
    rintro ⟨l, hl⟩
    cases hl.result.symm.trans hresult
    exact ⟨layerStartPos, hl.lightest, fun m hpos hskips hm => hallowed (m, m + 1) hm rfl hpos hskips⟩
  case mpr =>
    rintro ⟨l, hl, hskips⟩
    have hlightest : Lightest (layerWeight maxWidth idealWidth windowSizes ids) ids.length layerStartPos := by
      refine ⟨hpath, fun l' hl' => (hle l hl.path fun (start, stop) hm heq hpos hskip => ?_).trans (hl.le l' hl')⟩
      have heq : stop = start + 1 := heq
      subst heq
      exact hskips start hpos hskip hm
    refine ⟨layerStartPos, hresult, hlightest, (lightest_iff hpath).mp hlightest, ?_⟩
    intro idealWidthRatio packing hratio hp
    rw [findPacking, hratio, hresult] at hp
    cases hp
    refine foldl_emplaceBack_fits (fun step hm => ?_) (h.ideal_pos.trans h.ideal_lt).le fun _ hm =>
      absurd hm List.not_mem_nil
    have ⟨hlt, hstop⟩ := hpath.steps_lt step hm
    rw [width_create hlt.le hstop]
    exact h.fits hlightest step hm

theorem getLayerStartPos_iff_two : ∃ layerStartPos,
    GoodLayers 2 1 [⟨0, 0, 1 / 2, 1⟩, ⟨0, 0, 3 / 4, 1⟩] [0, 1] layerStartPos := by
  refine (getLayerStartPos_iff 2 1 _ [0, 1] ⟨by norm_num, by norm_num, by decide +kernel, by decide +kernel⟩).mpr ?_
  let w := layerWeight 2 1 [⟨0, 0, 1 / 2, 1⟩, ⟨0, 0, 3 / 4, 1⟩] [0, 1]
  have ⟨l, hpath, _, htotal⟩ := (solves_least w 2).exists_path (le_refl 2)
  refine ⟨l, (lightest_iff hpath).mpr htotal, fun m hpos hskips hm => ?_⟩
  have hstop : m + 1 ≤ 2 := (hpath.steps_lt _ hm).2
  have heq : m = 1 := by omega
  subst heq
  have ⟨_, i, hi, hlt⟩ := hskips
  cases List.mem_singleton.mp hi
  exact hlt.false

-- The first two windows fill a layer, but the third window is put into it as well.
theorem not_goodLayers_narrow : ¬∀ (maxWidth idealWidth : ℚ) (windowSizes : List QRectF) (ids : List ℕ),
    WindowWidths maxWidth idealWidth windowSizes ids →
    ∃ layerStartPos, GoodLayers maxWidth idealWidth windowSizes ids layerStartPos := by
  intro h
  let windowSizes : List QRectF := ⟨0, 0, 1 / 100, 1⟩ :: ⟨0, 0, 99 / 100, 1⟩ :: List.replicate 5 ⟨0, 0, 1, 1⟩
  let ids := [0, 1, 2, 3, 4, 5, 6]
  have ⟨_, hgood⟩ := h (19 / 10) 1 windowSizes ids ⟨by norm_num, by norm_num, by decide +kernel, by decide +kernel⟩
  have hwidth : (findPacking windowSizes ids (10 / 19) (19 / 10)).map (·.width) = some 2 := by decide +kernel
  have ⟨packing, hpacking, htwo⟩ := Option.map_eq_some_iff.mp hwidth
  have hle := (hgood.fits (10 / 19) packing (by norm_num) hpacking).1
  rw [htwo] at hle
  norm_num at hle

end
end Expo
