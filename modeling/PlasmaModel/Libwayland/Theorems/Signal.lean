import PlasmaModel.Lib.Runs
import PlasmaModel.Libwayland.Signal

namespace Libwayland

open SignalRecord

variable {Data : Type}

namespace Signal

variable {s s' : Signal Data} {before after list : List Link} {log : List (SignalRecord Data)} {k l : ℕ}

-- What an emission sees of the list: the listeners and its own markers.
def seen (k : ℕ) : Link → Bool
  | .listener _ => true
  | .cursor k' => k' = k
  | .stop k' => k' = k

def listeners (list : List Link) : List ℕ :=
  list.filterMap fun
    | .listener l => some l
    | _ => none

@[simp] theorem seen_listener : seen k (.listener l) = true :=
  rfl

@[simp] theorem seen_cursor {k' : ℕ} : seen k (.cursor k') = decide (k' = k) :=
  rfl

@[simp] theorem seen_stop {k' : ℕ} : seen k (.stop k') = decide (k' = k) :=
  rfl

@[simp] theorem filter_seen_listener :
    (Link.listener l :: list).filter (seen k) = .listener l :: list.filter (seen k) :=
  rfl

@[simp] theorem listeners_nil : listeners [] = [] :=
  rfl

@[simp] theorem listeners_listener : listeners (.listener l :: list) = l :: listeners list :=
  rfl

@[simp] theorem listeners_cursor : listeners (.cursor k :: list) = listeners list :=
  rfl

@[simp] theorem listeners_stop : listeners (.stop k :: list) = listeners list :=
  rfl

@[simp] theorem listeners_append {list' : List Link} : listeners (list ++ list') = listeners list ++ listeners list' :=
  List.filterMap_append

theorem filter_seen_of_unmarked (h : ∀ x ∈ list, x ≠ .cursor k ∧ x ≠ .stop k) :
    list.filter (seen k) = (listeners list).map .listener := by
  induction list with
  | nil => rfl
  | cons x list ih =>
    have ⟨hx, hl⟩ := List.forall_mem_cons.mp h
    cases x with
    | listener l => simp [ih hl]
    | cursor k' =>
      have : k' ≠ k := fun heq => hx.1 (by rw [heq])
      simp [ih hl, this]
    | stop k' =>
      have : k' ≠ k := fun heq => hx.2 (by rw [heq])
      simp [ih hl, this]

-- The listeners between the markers of an emission are those that it has still to call.
structure Walks (s : Signal Data) (e : Emission Data) : Prop where
  data : dataOf e.id s.log = some e.data
  view : ∃ pre post : List ℕ, s.listenerList.filter (seen e.id) =
    pre.map .listener ++ .cursor e.id :: ((waiting e.id s.log).map .listener ++ .stop e.id :: post.map .listener)

structure Inv (s : Signal Data) : Prop where
  right     : Right s.log
  nodup     : s.listenerList.Nodup
  listeners : listeners s.listenerList = registered s.log
  walks     : ∀ e ∈ s.emissions, Walks s e
  markers   : ∀ k, .cursor k ∈ s.listenerList ∨ .stop k ∈ s.listenerList → ∃ e ∈ s.emissions, e.id = k
  fresh     : ∀ e ∈ s.emissions, e.id < s.nextEmission
  distinct  : (s.emissions.map Emission.id).Nodup

theorem emitFrom_spec (before : List Link) (hc : .cursor k ∉ after) (hs : .stop k ∈ after) :
    ∃ passed x rest, after = passed ++ x :: rest ∧ passed.filter (seen k) = [] ∧
      (x = .stop k ∧ emitFrom k before after = (before ++ passed ++ rest, none) ∨
      ∃ l, x = .listener l ∧ emitFrom k before after = (before ++ passed ++ .listener l :: .cursor k :: rest, some l)) := by
  induction after generalizing before with
  | nil => cases hs
  | cons y after ih =>
    have ⟨hy, hc⟩ := not_or.mp (List.mem_cons.not.mp hc)
    have hmore (hs : .stop k ∈ after) (hy : seen k y = false)
        (h : emitFrom k before (y :: after) = emitFrom k (before ++ [y]) after) : ∃ passed x rest,
        y :: after = passed ++ x :: rest ∧ passed.filter (seen k) = [] ∧
        (x = .stop k ∧ emitFrom k before (y :: after) = (before ++ passed ++ rest, none) ∨ ∃ l, x = .listener l ∧
          emitFrom k before (y :: after) = (before ++ passed ++ .listener l :: .cursor k :: rest, some l)) := by
      have ⟨passed, x, rest, heq, hp, hx⟩ := ih (before ++ [y]) hc hs
      refine ⟨y :: passed, x, rest, by rw [heq]; rfl, by simp [hy, hp], ?_⟩
      rw [h]
      simpa using hx
    cases y with
    | listener l => exact ⟨[], _, after, rfl, rfl, .inr ⟨l, rfl, by simp [emitFrom]⟩⟩
    | cursor k' =>
      have hne : k' ≠ k := fun heq => hy (by rw [heq])
      exact hmore ((List.mem_cons.mp hs).resolve_left nofun) (by simp [seen, hne]) rfl
    | stop k' =>
      by_cases heq : k' = k
      case pos => exact ⟨[], _, after, rfl, rfl, .inl ⟨by rw [heq], by simp [emitFrom, heq]⟩⟩
      case neg =>
        refine hmore ((List.mem_cons.mp hs).resolve_left fun h => heq ?_) (by simp [seen, heq]) (by simp [emitFrom, heq])
        injection h with h
        exact h.symm

-- A list without duplicates splits at the cursor as its view does.
theorem filter_eq_of_split {pre rest : List Link} (hn : list.Nodup) (hl : list = before ++ .cursor k :: after)
    (hview : list.filter (seen k) = pre ++ .cursor k :: rest) :
    before.filter (seen k) = pre ∧ after.filter (seen k) = rest := by
  rw [hl] at hn hview
  have ⟨_, hafter, hdisjoint⟩ := List.nodup_append.mp hn
  have hb : .cursor k ∉ before.filter (seen k) :=
    fun h => hdisjoint _ (List.mem_filter.mp h).1 _ List.mem_cons_self rfl
  have ha : .cursor k ∉ after.filter (seen k) :=
    fun h => (List.nodup_cons.mp hafter).1 (List.mem_filter.mp h).1
  rw [List.filter_append, List.filter_cons_of_pos (by simp), List.append_cons_inj_of_notMem hb ha] at hview
  exact ⟨hview.1, hview.2.2⟩

-- What the loop does to a list whose part behind the cursor is known.
theorem emitLoop_spec {e : Emission Data} {rest : List (Emission Data)} (hi : Inv s) (he : s.emissions = e :: rest) :
    ∃ before passed after, passed.filter (seen e.id) = [] ∧
      (s.listenerList = before ++ .cursor e.id :: (passed ++ .stop e.id :: after) ∧
        s.emitLoop = { s with
          listenerList := before ++ passed ++ after, emissions := rest, log := .finished e.id :: s.log } ∨
      ∃ l, s.listenerList = before ++ .cursor e.id :: (passed ++ .listener l :: after) ∧
        s.emitLoop = { s with
          listenerList := before ++ passed ++ .listener l :: .cursor e.id :: after
          log := .called e.id l e.data :: s.log }) := by
  have ⟨pre, post, hview⟩ := (hi.walks e (he ▸ List.mem_cons_self)).view
  have hcursor : .cursor e.id ∈ s.listenerList.filter (seen e.id) := by simp [hview]
  have ⟨before, after, hlist, hbefore⟩ := List.eq_append_cons_of_mem (List.mem_filter.mp hcursor).1
  have hafter := (filter_eq_of_split hi.nodup hlist hview).2
  have hstop : .stop e.id ∈ after.filter (seen e.id) := by simp [hafter]
  have ⟨_, hnodup, _⟩ := List.nodup_append.mp (hlist ▸ hi.nodup)
  have hpos : ∀ x ∈ before, decide (x ≠ .cursor e.id) = true :=
    fun x hx => decide_eq_true fun heq => hbefore (heq ▸ hx)
  have htake : s.listenerList.takeWhile (· ≠ .cursor e.id) = before := by
    rw [hlist, List.takeWhile_append_of_pos hpos, List.takeWhile_cons_of_neg (by simp), List.append_nil]
  have hdrop : (s.listenerList.dropWhile (· ≠ .cursor e.id)).tail = after := by
    rw [hlist, List.dropWhile_append_of_pos hpos, List.dropWhile_cons_of_neg (by simp), List.tail_cons]
  have ⟨passed, x, rest', heq, hp, hx⟩ := emitFrom_spec before (List.nodup_cons.mp hnodup).1 (List.mem_filter.mp hstop).1
  refine ⟨before, passed, rest', hp, ?_⟩
  unfold emitLoop
  rw [he]
  simp only
  rw [htake, hdrop]
  cases hx with
  | inl hx =>
    rw [hx.2]
    exact .inl ⟨by rw [hlist, heq, hx.1], rfl⟩
  | inr hx =>
    have ⟨l, hx, hemit⟩ := hx
    rw [hemit]
    exact .inr ⟨l, by rw [hlist, heq, hx], rfl⟩

-- The markers of other emissions may move.
theorem Walks.congr {e : Emission Data} (h : Walks s e) (hd : dataOf e.id s'.log = dataOf e.id s.log)
    (hw : waiting e.id s'.log = waiting e.id s.log)
    (hv : s'.listenerList.filter (seen e.id) = s.listenerList.filter (seen e.id)) : Walks s' e :=
  ⟨hd.trans h.data, by rw [hw, hv]; exact h.view⟩

theorem id_ne {e e' : Emission Data} {rest : List (Emission Data)} (hi : Inv s) (he : s.emissions = e :: rest)
    (he' : e' ∈ rest) : e.id ≠ e'.id := by
  have hd := hi.distinct
  rw [he, List.map_cons] at hd
  exact fun heq => (List.nodup_cons.mp hd).1 (heq ▸ List.mem_map_of_mem he')

theorem inv_called {e : Emission Data} {rest : List (Emission Data)} {passed : List Link} (hi : Inv s)
    (he : s.emissions = e :: rest) (hp : passed.filter (seen e.id) = [])
    (hl : s.listenerList = before ++ .cursor e.id :: (passed ++ .listener l :: after)) : Inv { s with
      listenerList := before ++ passed ++ .listener l :: .cursor e.id :: after
      log := .called e.id l e.data :: s.log } := by
  have hwalks := hi.walks e (he ▸ List.mem_cons_self)
  have ⟨pre, post, hview⟩ := hwalks.view
  have ⟨hpre, hrest⟩ := filter_eq_of_split hi.nodup hl hview
  have hperm : (before ++ passed ++ .listener l :: .cursor e.id :: after).Perm s.listenerList := by
    rw [hl, List.append_assoc]
    exact .append_left before ((List.Perm.append_left passed (.swap _ _ after)).trans List.perm_middle)
  have hwaiting : ∃ w, waiting e.id s.log = l :: w ∧
      after.filter (seen e.id) = w.map .listener ++ .stop e.id :: post.map .listener := by
    rw [List.filter_append, hp, List.nil_append, List.filter_cons_of_pos seen_listener] at hrest
    cases hw : waiting e.id s.log with
    | nil => simp [hw] at hrest
    | cons l' w =>
      rw [hw] at hrest
      injection hrest with hl' hrest
      injection hl' with hl'
      exact ⟨w, by rw [hl'], hrest⟩
  have ⟨w, hw, hafter⟩ := hwaiting
  have hlw : l ∉ w := by
    intro hm
    have hm : .listener l ∈ after.filter (seen e.id) := by simp [hafter, hm]
    have hn := hperm.nodup_iff.mpr hi.nodup
    have ⟨_, hn, _⟩ := List.nodup_append.mp hn
    exact (List.nodup_cons.mp hn).1 (List.mem_cons_of_mem _ (List.mem_filter.mp hm).1)
  refine ⟨⟨by simp [hw], hwalks.data, hi.right⟩, hperm.nodup_iff.mpr hi.nodup, ?_, fun e' he' => ?_, fun k hk => ?_,
    hi.fresh, hi.distinct⟩
  · have := hi.listeners
    rw [hl] at this
    simp only [listeners_append, listeners_cursor, listeners_listener, List.append_assoc] at this ⊢
    exact this
  · cases List.mem_cons.mp (he ▸ he') with
    | inl heq =>
      have hw' : waiting e.id (called e.id l e.data :: s.log) = w := by
        rw [waiting, if_pos rfl, hw, List.filter_cons_of_neg (by simp), List.filter_eq_self]
        exact fun l' hl' => decide_eq_true fun heq => hlw (heq ▸ hl')
      rw [heq]
      refine ⟨hwalks.data, pre ++ [l], post, ?_⟩
      simp only [hw']
      simp [hp, hpre, hafter]
    | inr he' =>
      have hne := id_ne hi he he'
      refine (hi.walks e' (he ▸ List.mem_cons_of_mem _ he')).congr rfl (if_neg hne) ?_
      simp [hl, hne]
  · exact hi.markers k (hk.imp hperm.mem_iff.mp hperm.mem_iff.mp)

theorem inv_finished {e : Emission Data} {rest : List (Emission Data)} {passed : List Link} (hi : Inv s)
    (he : s.emissions = e :: rest) (hp : passed.filter (seen e.id) = [])
    (hl : s.listenerList = before ++ .cursor e.id :: (passed ++ .stop e.id :: after)) : Inv { s with
      listenerList := before ++ passed ++ after
      emissions := rest
      log := .finished e.id :: s.log } := by
  have ⟨pre, post, hview⟩ := (hi.walks e (he ▸ List.mem_cons_self)).view
  have ⟨hpre, hrest⟩ := filter_eq_of_split hi.nodup hl hview
  have hw : waiting e.id s.log = [] := by
    rw [List.filter_append, hp, List.nil_append, List.filter_cons_of_pos (by simp)] at hrest
    cases hw : waiting e.id s.log with
    | nil => rfl
    | cons l' w => simp [hw] at hrest
  have hperm : s.listenerList.Perm (.cursor e.id :: .stop e.id :: (before ++ passed ++ after)) := by
    rw [hl, List.append_assoc]
    refine List.perm_middle.trans (.cons _ ?_)
    exact (List.Perm.append_left before List.perm_middle).trans List.perm_middle
  have hnodup := List.nodup_cons.mp (hperm.nodup_iff.mp hi.nodup)
  have hnodup' := List.nodup_cons.mp hnodup.2
  have hmem (e' : Emission Data) (he' : e' ∈ rest) : e' ∈ s.emissions := he ▸ List.mem_cons_of_mem _ he'
  refine ⟨⟨hw, hi.right⟩, hnodup'.2, ?_, fun e' he' => ?_, fun k hk => ?_, fun e' he' => hi.fresh e' (hmem e' he'), ?_⟩
  · have := hi.listeners
    rw [hl] at this
    simp only [listeners_append, listeners_cursor, listeners_stop, List.append_assoc] at this ⊢
    exact this
  · have hne := id_ne hi he he'
    refine (hi.walks e' (hmem e' he')).congr rfl rfl ?_
    simp [hl, hne]
  · have hin {x : Link} (hx : x ∈ before ++ passed ++ after) : x ∈ s.listenerList :=
      hperm.mem_iff.mpr (List.mem_cons_of_mem _ (List.mem_cons_of_mem _ hx))
    have ⟨e', he', heq⟩ := hi.markers k (hk.imp hin hin)
    cases List.mem_cons.mp (he ▸ he') with
    | inr he' => exact ⟨e', he', heq⟩
    | inl he' =>
      rw [← heq, he'] at hk
      cases hk with
      | inl hk => exact absurd (List.mem_cons_of_mem _ hk) hnodup.1
      | inr hk => exact absurd hk hnodup'.1
  · have hd := hi.distinct
    rw [he, List.map_cons] at hd
    exact (List.nodup_cons.mp hd).2

theorem inv_emitLoop (hi : Inv s) : Inv s.emitLoop := by
  cases he : s.emissions with
  | nil =>
    unfold emitLoop
    rw [he]
    exact hi
  | cons e rest =>
    have ⟨before, passed, after, hp, h⟩ := emitLoop_spec hi he
    cases h with
    | inl h => exact h.2 ▸ inv_finished hi he hp h.1
    | inr h =>
      have ⟨l, hl, h⟩ := h
      exact h ▸ inv_called hi he hp hl

theorem inv_add (hi : Inv s) (hl : .listener l ∉ s.listenerList) :
    Inv { s with listenerList := s.listenerList ++ [.listener l], log := .added l :: s.log } := by
  have hmark {x : Link} (hx : x ∈ s.listenerList ++ [.listener l]) (hne : x ≠ .listener l) : x ∈ s.listenerList :=
    (List.mem_append.mp hx).resolve_right fun h => hne (List.mem_singleton.mp h)
  refine ⟨hi.right, hi.nodup.append (List.nodup_singleton _) ?_, ?_, fun e he => ?_, fun k hk => ?_, hi.fresh,
    hi.distinct⟩
  · exact fun x hx hx' => hl (List.mem_singleton.mp hx' ▸ hx)
  · rw [listeners_append, hi.listeners]
    rfl
  · have hwalks := hi.walks e he
    have ⟨pre, post, hview⟩ := hwalks.view
    exact ⟨hwalks.data, pre, post ++ [l], by simp [hview, waiting]⟩
  · exact hi.markers k (hk.imp (hmark · nofun) (hmark · nofun))

theorem inv_remove (hi : Inv s) :
    Inv { s with listenerList := s.listenerList.erase (.listener l), log := .removed l :: s.log } := by
  have hmap (w : List ℕ) : (w.map Link.listener).filter (· ≠ .listener l) = (w.filter (· ≠ l)).map .listener := by
    simp [List.filter_map, Function.comp_def]
  have hlisteners : listeners (s.listenerList.filter (· ≠ .listener l)) = (listeners s.listenerList).filter (· ≠ l) := by
    induction s.listenerList with
    | nil => rfl
    | cons x list ih =>
      cases x with
      | listener l' => by_cases hl : l' = l <;> simp_all
      | cursor => simpa using ih
      | stop => simpa using ih
  have herase : s.listenerList.erase (.listener l) = s.listenerList.filter (· ≠ .listener l) := by
    rw [hi.nodup.erase_eq_filter]
    simp only [bne, beq_eq_decide, ne_eq, decide_not]
  rw [herase]
  refine ⟨hi.right, hi.nodup.filter _, hlisteners.trans (by rw [hi.listeners]; rfl), fun e he => ?_, fun k hk => ?_,
    hi.fresh, hi.distinct⟩
  · have hwalks := hi.walks e he
    have ⟨pre, post, hview⟩ := hwalks.view
    refine ⟨hwalks.data, pre.filter (· ≠ l), post.filter (· ≠ l), ?_⟩
    have hcomm : (s.listenerList.filter (· ≠ .listener l)).filter (seen e.id) =
        (s.listenerList.filter (seen e.id)).filter (· ≠ .listener l) := by
      rw [List.filter_filter, List.filter_filter]
      simp only [Bool.and_comm]
    dsimp only
    rw [hcomm, hview, List.filter_append, List.filter_cons_of_pos (by simp), List.filter_append,
      List.filter_cons_of_pos (by simp), hmap, hmap, hmap]
    rfl
  · exact hi.markers k (hk.imp (fun h => (List.mem_filter.mp h).1) fun h => (List.mem_filter.mp h).1)

theorem inv_emit (data : Data) (hi : Inv s) : Inv { s with
    listenerList := .cursor s.nextEmission :: s.listenerList ++ [.stop s.nextEmission]
    emissions := ⟨s.nextEmission, data⟩ :: s.emissions
    nextEmission := s.nextEmission + 1
    log := .started s.nextEmission data :: s.log } := by
  have hnew (e : Emission Data) (he : e ∈ s.emissions) : s.nextEmission ≠ e.id :=
    Nat.ne_of_gt (hi.fresh e he)
  have hnone {x : Link} (hx : x ∈ s.listenerList) : x ≠ .cursor s.nextEmission ∧ x ≠ .stop s.nextEmission := by
    constructor
    · intro heq
      have ⟨e, he, hid⟩ := hi.markers s.nextEmission (.inl (heq ▸ hx))
      exact hnew e he hid.symm
    · intro heq
      have ⟨e, he, hid⟩ := hi.markers s.nextEmission (.inr (heq ▸ hx))
      exact hnew e he hid.symm
  have hnodup : (s.listenerList ++ [Link.stop s.nextEmission]).Nodup :=
    hi.nodup.append (List.nodup_singleton _) fun x hx hx' => (hnone hx).2 (List.mem_singleton.mp hx')
  refine ⟨hi.right, List.nodup_cons.mpr ⟨fun hm => ?_, hnodup⟩, ?_, fun e he => ?_, fun k hk => ?_, fun e he => ?_, ?_⟩
  · cases List.mem_append.mp hm with
    | inl hm => exact (hnone hm).1 rfl
    | inr hm => cases List.mem_singleton.mp hm
  · have := hi.listeners
    simpa [registered] using this
  · cases List.mem_cons.mp he with
    | inl heq =>
      have hview := filter_seen_of_unmarked fun x hx => hnone hx
      rw [hi.listeners] at hview
      refine ⟨by simp [heq, dataOf], [], [], ?_⟩
      simp [heq, hview, waiting]
    | inr he =>
      have hne := hnew e he
      have hwalks := hi.walks e he
      refine hwalks.congr (if_neg hne) (if_neg hne) ?_
      simp [hne]
  · by_cases heq : k = s.nextEmission
    case pos => exact ⟨_, List.mem_cons_self, heq.symm⟩
    case neg =>
      have hin {x : Link} (hx : x ∈ .cursor s.nextEmission :: s.listenerList ++ [.stop s.nextEmission])
          (hc : x ≠ .cursor s.nextEmission) (hs : x ≠ .stop s.nextEmission) : x ∈ s.listenerList := by
        simpa [hc, hs] using hx
      have ⟨e, he, hid⟩ := hi.markers k (hk.imp (hin · (by simpa using heq) nofun) (hin · nofun (by simpa using heq)))
      exact ⟨e, List.mem_cons_of_mem _ he, hid⟩
  · cases List.mem_cons.mp he with
    | inl heq => exact Nat.lt_succ_of_le (Nat.le_of_eq (by rw [heq]))
    | inr he => exact Nat.lt_succ_of_lt (hi.fresh e he)
  · refine List.nodup_cons.mpr ⟨fun hm => ?_, hi.distinct⟩
    have ⟨e, he, heq⟩ := List.mem_map.mp hm
    exact hnew e he heq.symm

theorem inv_step {event : SignalEvent Data} (hi : Inv s) (h : s.step event = some s') : Inv s' := by
  cases event with
  | add l =>
    dsimp only [step] at h
    split at h
    case isTrue => cases h
    case isFalse hl => exact Option.some.inj h ▸ inv_add hi hl
  | remove l =>
    dsimp only [step] at h
    split at h
    case isTrue => exact Option.some.inj h ▸ inv_remove hi
    case isFalse => cases h
  | emit data => exact Option.some.inj h ▸ inv_emitLoop (inv_emit data hi)
  | returned =>
    dsimp only [step] at h
    split at h
    case h_1 => cases h
    case h_2 => exact Option.some.inj h ▸ inv_emitLoop hi

end Signal

namespace PrivSignal

variable {s s' : PrivSignal Data} {log : List (SignalRecord Data)} {k l : ℕ}

-- No emission starts while there are listeners that another one has still to call.
def Unnested (s : PrivSignal Data) (event : SignalEvent Data) : Prop :=
  ∀ data, event = .emit data → s.emitList = []

-- Only the innermost emission has anybody to call.
structure Inv (s : PrivSignal Data) : Prop where
  right    : Right s.log
  nodup    : (s.listenerList ++ s.emitList).Nodup
  perm     : (s.listenerList ++ s.emitList).Perm (registered s.log)
  data     : ∀ e ∈ s.emissions, dataOf e.id s.log = some e.data
  outer    : ∀ e ∈ s.emissions.tail, waiting e.id s.log = []
  idle     : s.emissions = [] → s.emitList = []
  inner    : ∀ e ∈ s.emissions.head?, (waiting e.id s.log).Perm s.emitList
  fresh    : ∀ e ∈ s.emissions, e.id < s.nextEmission
  distinct : (s.emissions.map Emission.id).Nodup

theorem inv_finished {e : Emission Data} {rest : List (Emission Data)} (hi : Inv s) (he : s.emissions = e :: rest)
    (hemit : s.emitList = []) : Inv { s with emissions := rest, log := .finished e.id :: s.log } := by
  have hw := hi.inner e (by rw [he]; rfl)
  have houter := hi.outer
  have hd := hi.distinct
  rw [he] at hd houter
  rw [hemit] at hw
  have hmem (e' : Emission Data) (he' : e' ∈ rest) : e' ∈ s.emissions := he ▸ List.mem_cons_of_mem _ he'
  refine ⟨⟨hw.eq_nil, hi.right⟩, hi.nodup, hi.perm, fun e' he' => hi.data e' (hmem e' he'), fun e' he' => ?_,
    fun _ => hemit, fun e' he' => ?_, fun e' he' => hi.fresh e' (hmem e' he'), (List.nodup_cons.mp hd).2⟩
  · exact houter e' (List.mem_of_mem_tail he')
  · rw [hemit]
    exact .of_eq (houter e' (List.mem_of_mem_head? he'))

theorem inv_called {e : Emission Data} {rest : List (Emission Data)} {emitList : List ℕ} (hi : Inv s)
    (he : s.emissions = e :: rest) (hemit : s.emitList = l :: emitList) : Inv { s with
      listenerList := l :: s.listenerList, emitList, log := .called e.id l e.data :: s.log } := by
  have hw := hi.inner e (by rw [he]; rfl)
  have hperm : (l :: s.listenerList ++ emitList).Perm (s.listenerList ++ s.emitList) := by
    rw [hemit]
    exact List.perm_middle.symm
  have hd := hi.distinct
  rw [he, List.map_cons] at hd
  rw [hemit] at hw
  have hne (e' : Emission Data) (he' : e' ∈ rest) : e.id ≠ e'.id :=
    fun heq => (List.nodup_cons.mp hd).1 (heq ▸ List.mem_map_of_mem he')
  refine ⟨⟨hw.mem_iff.mpr List.mem_cons_self, hi.data e (he ▸ List.mem_cons_self), hi.right⟩,
    hperm.nodup_iff.mpr hi.nodup, hperm.trans hi.perm, hi.data, fun e' he' => ?_, fun hnil => ?_, fun e' he' => ?_,
    hi.fresh, hi.distinct⟩
  · have houter := hi.outer e' he'
    rw [he] at he'
    exact (if_neg (hne e' he')).trans houter
  · rw [he] at hnil
    cases hnil
  · rw [he] at he'
    cases he'
    have hl : l ∉ emitList := by
      have hn := (List.nodup_append.mp hi.nodup).2.1
      rw [hemit] at hn
      exact (List.nodup_cons.mp hn).1
    have hrest : (l :: emitList).filter (· ≠ l) = emitList := by
      rw [List.filter_cons_of_neg (by simp), List.filter_eq_self]
      exact fun l' hl' => decide_eq_true fun heq => hl (heq ▸ hl')
    dsimp only
    rw [waiting, if_pos rfl, ← hrest]
    exact hw.filter _

theorem inv_emitLoop (hi : Inv s) : Inv s.emitLoop := by
  unfold emitLoop
  split
  case h_1 => exact hi
  case h_2 e rest he =>
    split
    case h_1 hemit => exact inv_finished hi he hemit
    case h_2 l emitList hemit => exact inv_called hi he hemit

theorem inv_add (hi : Inv s) (hl : l ∉ s.listenerList ++ s.emitList) :
    Inv { s with listenerList := s.listenerList ++ [l], log := .added l :: s.log } := by
  have hperm : (s.listenerList ++ [l] ++ s.emitList).Perm (s.listenerList ++ s.emitList ++ [l]) := by
    rw [List.append_assoc, List.append_assoc]
    exact .append_left _ List.perm_append_comm
  have hnodup := hi.nodup.append (List.nodup_singleton l) fun x hx hx' => hl (List.mem_singleton.mp hx' ▸ hx)
  exact ⟨hi.right, hperm.nodup_iff.mpr hnodup, hperm.trans (hi.perm.append_right [l]), hi.data, hi.outer, hi.idle,
    hi.inner, hi.fresh, hi.distinct⟩

theorem inv_remove (hi : Inv s) : Inv { s with
    listenerList := s.listenerList.erase l, emitList := s.emitList.erase l, log := .removed l :: s.log } := by
  have herase {w : List ℕ} (hw : w.Nodup) : w.erase l = w.filter (· ≠ l) := by
    rw [hw.erase_eq_filter]
    simp only [bne, beq_eq_decide, ne_eq, decide_not]
  have ⟨hlisteners, hemit, _⟩ := List.nodup_append.mp hi.nodup
  rw [herase hlisteners, herase hemit]
  refine ⟨hi.right, ?_, ?_, hi.data, fun e he => ?_, fun hnil => ?_, fun e he => ?_, hi.fresh, hi.distinct⟩
  · rw [← List.filter_append]
    exact hi.nodup.filter _
  · rw [← List.filter_append]
    exact hi.perm.filter _
  · dsimp only
    rw [waiting, hi.outer e he]
    rfl
  · dsimp only
    rw [hi.idle hnil]
    rfl
  · exact (hi.inner e he).filter _

theorem inv_emit (data : Data) (hi : Inv s) (hemit : s.emitList = []) : Inv { s with
    listenerList := []
    emitList := s.listenerList ++ s.emitList
    emissions := ⟨s.nextEmission, data⟩ :: s.emissions
    nextEmission := s.nextEmission + 1
    log := .started s.nextEmission data :: s.log } := by
  have hne (e : Emission Data) (he : e ∈ s.emissions) : s.nextEmission ≠ e.id := Nat.ne_of_gt (hi.fresh e he)
  refine ⟨hi.right, hi.nodup, hi.perm, fun e he => ?_, fun e he => ?_, nofun, fun e he => ?_, fun e he => ?_, ?_⟩
  · cases List.mem_cons.mp he with
    | inl heq =>
      rw [heq]
      exact if_pos rfl
    | inr he => exact (if_neg (hne e he)).trans (hi.data e he)
  · refine (if_neg (hne e he)).trans ?_
    cases hs : s.emissions with
    | nil => rw [hs] at he; cases he
    | cons e' rest =>
      rw [List.tail_cons, hs] at he
      cases List.mem_cons.mp he with
      | inl heq =>
        have hw := hi.inner e (by rw [hs, heq]; rfl)
        rw [hemit] at hw
        exact hw.eq_nil
      | inr he => exact hi.outer e (by rwa [hs])
  · cases he
    dsimp only
    rw [waiting, if_pos rfl]
    exact hi.perm.symm
  · cases List.mem_cons.mp he with
    | inl heq => exact Nat.lt_succ_of_le (Nat.le_of_eq (by rw [heq]))
    | inr he => exact Nat.lt_succ_of_lt (hi.fresh e he)
  · refine List.nodup_cons.mpr ⟨fun hm => ?_, hi.distinct⟩
    have ⟨e, he, heq⟩ := List.mem_map.mp hm
    exact hne e he heq.symm

theorem inv_step {event : SignalEvent Data} (hi : Inv s) (hu : Unnested s event) (h : s.step event = some s') :
    Inv s' := by
  cases event with
  | add l =>
    dsimp only [step] at h
    split at h
    case isTrue => cases h
    case isFalse hl => exact Option.some.inj h ▸ inv_add hi (List.mem_append.not.mpr hl)
  | remove l =>
    dsimp only [step] at h
    split at h
    case isFalse => cases h
    case isTrue => exact Option.some.inj h ▸ inv_remove hi
  | emit data => exact Option.some.inj h ▸ inv_emitLoop (inv_emit data hi (hu data rfl))
  | returned =>
    dsimp only [step] at h
    split at h
    case h_1 => cases h
    case h_2 => exact Option.some.inj h ▸ inv_emitLoop hi

-- When the functions do nothing but return, the inner emission calls all listeners before the outer one gets to them.
theorem not_right_of_nested {inner outer : Emission Data} {rest : List (Emission Data)}
    (he : s.emissions = inner :: outer :: rest) (hne : inner.id ≠ outer.id) (hw : waiting outer.id s.log ≠ []) :
    ∃ s', Machine.Reaches step (fun _ event => event = .returned) s.emitLoop s' ∧ ¬Right s'.log := by
  generalize hn : s.emitList = emitList
  induction emitList generalizing s with
  | nil =>
    have hloop : s.emitLoop = { s with emissions := outer :: rest, log := .finished inner.id :: s.log } := by
      rw [emitLoop, he, hn]
    have hstep : step s.emitLoop .returned = some { s with
        emissions := rest, log := .finished outer.id :: .finished inner.id :: s.log } := by
      rw [hloop]
      dsimp only [step, emitLoop]
      rw [hn]
    exact ⟨_, Machine.Reaches.refl.tail rfl hstep, fun h => hw h.1⟩
  | cons l emitList ih =>
    have hloop : s.emitLoop = { s with
        listenerList := l :: s.listenerList, emitList, log := .called inner.id l inner.data :: s.log } := by
      rw [emitLoop, he, hn]
    have ⟨s', hr, hnot⟩ := ih (s := s.emitLoop) (by rw [hloop, he]) (by rw [hloop, waiting, if_neg hne]; exact hw)
      (by rw [hloop])
    have hstep : step s.emitLoop .returned = some s.emitLoop.emitLoop := by
      rw [hloop]
      dsimp only [step]
      rw [he]
    exact ⟨s', hr.head rfl hstep, hnot⟩

end PrivSignal

-- Emissions of a signal call whom they should, however they are nested. Those of a private signal do unless one starts
-- while another one has listeners to call, which that one then misses.
theorem emissions_call_each_once :
    (∀ s : Signal Data, Machine.Reaches Signal.step (fun _ _ => True) {} s →
      Right s.log ∧ Signal.listeners s.listenerList = registered s.log ∧
      (s.emissions = [] → s.listenerList = (registered s.log).map .listener)) ∧
    ∀ s : PrivSignal Data, Machine.Reaches PrivSignal.step PrivSignal.Unnested {} s →
      (Right s.log ∧ (s.listenerList ++ s.emitList).Perm (registered s.log) ∧
        (s.emissions = [] → s.listenerList.Perm (registered s.log))) ∧
      ∀ data s', s.step (.emit data) = some s' → ¬s.Unnested (.emit data) →
        ∃ s'', Machine.Reaches PrivSignal.step (fun _ event => event = .returned) s' s'' ∧ ¬Right s''.log := by
  refine ⟨fun s h => ?_, fun s h => ?_⟩
  · have hi : Signal.Inv s := by
      refine h.invariant ?_ fun s₁ s₂ event hi _ hs => Signal.inv_step hi hs
      exact ⟨trivial, .nil, rfl, nofun, fun k hk => by simp at hk, nofun, .nil⟩
    refine ⟨hi.right, hi.listeners, fun hnil => ?_⟩
    rw [← hi.listeners]
    have hnone : ∀ k, ∀ x ∈ s.listenerList, x ≠ .cursor k ∧ x ≠ .stop k := by
      intro k x hx
      have hmark (h : Link.cursor k ∈ s.listenerList ∨ .stop k ∈ s.listenerList) : False := by
        have ⟨e, he, _⟩ := hi.markers k h
        rw [hnil] at he
        cases he
      exact ⟨fun heq => hmark (.inl (heq ▸ hx)), fun heq => hmark (.inr (heq ▸ hx))⟩
    rw [← Signal.filter_seen_of_unmarked (hnone 0), List.filter_eq_self.mpr]
    intro x hx
    cases x with
    | listener => rfl
    | cursor k => exact absurd rfl (hnone k _ hx).1
    | stop k => exact absurd rfl (hnone k _ hx).2
  · have hi : PrivSignal.Inv s := by
      refine h.invariant ?_ fun s₁ s₂ event hi hu hs => PrivSignal.inv_step hi hu hs
      exact ⟨trivial, .nil, .refl _, nofun, nofun, fun _ => rfl, nofun, nofun, .nil⟩
    refine ⟨⟨hi.right, hi.perm, fun hnil => ?_⟩, fun data s' hs hu => ?_⟩
    · have := hi.perm
      rwa [hi.idle hnil, List.append_nil] at this
    · cases hs
      have hemit : s.emitList ≠ [] := fun heq => hu fun _ _ => heq
      cases he : s.emissions with
      | nil => exact absurd (hi.idle he) hemit
      | cons outer rest =>
        have hw := hi.inner outer (by rw [he]; rfl)
        have hfresh := hi.fresh outer (he ▸ List.mem_cons_self)
        refine PrivSignal.not_right_of_nested rfl (Nat.ne_of_gt hfresh) ?_
        rw [waiting, if_neg (Nat.ne_of_gt hfresh)]
        exact fun heq => hemit (heq ▸ hw).nil_eq.symm

theorem emissions_call_each_once_nested : ∃ s : Signal Bool, Machine.Reaches Signal.step (fun _ _ => True) {} s ∧
    s.log.take 6 = [.finished 0, .called 0 1 false, .finished 1, .called 1 1 true, .called 1 0 true, .started 1 true] ∧
    Right s.log := by
  have hr : Machine.Reaches (@Signal.step Bool) (fun _ _ => True) {} _ := Machine.Reaches.of_run
    [.add 0, .add 1, .emit false, .emit true, .returned, .returned, .returned, .returned] rfl
  exact ⟨_, hr, rfl, (emissions_call_each_once.1 _ hr).1⟩

-- The function of the first of two listeners emits the signal again, and the second one never hears of the first
-- emission.
theorem not_emissions_call_each_once :
    ¬∀ s : PrivSignal Bool, Machine.Reaches PrivSignal.step (fun _ _ => True) {} s → Right s.log := by
  intro h
  have hr : Machine.Reaches (@PrivSignal.step Bool) (fun _ _ => True) {} _ := Machine.Reaches.of_run
    [.add 0, .add 1, .emit false, .emit true, .returned, .returned, .returned] rfl
  have hwaiting : waiting 0 _ = [] := (h _ hr).1
  cases hwaiting

end Libwayland
