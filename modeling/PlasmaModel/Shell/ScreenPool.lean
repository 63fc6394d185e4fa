import Mathlib.Data.Fintype.Card
import Mathlib.Data.Set.Finite.Basic
import PlasmaModel.Lib.QSet

-- The screens that the shell shows something on.
namespace Shell

structure QRect where
  x      : Int
  y      : Int
  width  : Int
  height : Int
deriving DecidableEq

namespace QRect

def isNull (rect : QRect) : Bool :=
  rect.width = 0 && rect.height = 0

def isEmpty (rect : QRect) : Bool :=
  rect.width ≤ 0 || rect.height ≤ 0

-- With a negative size, a rectangle is on the other side of its corner.
def contains (rect other : QRect) : Bool :=
  !rect.isNull && !other.isNull &&
    min rect.x (rect.x + rect.width) ≤ min other.x (other.x + other.width) &&
    max other.x (other.x + other.width) ≤ max rect.x (rect.x + rect.width) &&
    min rect.y (rect.y + rect.height) ≤ min other.y (other.y + other.height) &&
    max other.y (other.y + other.height) ≤ max rect.y (rect.y + rect.height)

variable {a b c : QRect}

theorem contains_iff : a.contains b = true ↔ (a.isNull = false ∧ b.isNull = false) ∧
    (min a.x (a.x + a.width) ≤ min b.x (b.x + b.width) ∧ max b.x (b.x + b.width) ≤ max a.x (a.x + a.width)) ∧
    min a.y (a.y + a.height) ≤ min b.y (b.y + b.height) ∧ max b.y (b.y + b.height) ≤ max a.y (a.y + a.height) := by
  simp only [contains, Bool.and_eq_true, decide_eq_true_eq, Bool.not_eq_true', and_assoc]

theorem contains_trans (h : a.contains b = true) (h' : b.contains c = true) : a.contains c = true := by
  rw [contains_iff] at h h' ⊢
  exact ⟨⟨h.1.1, h'.1.2⟩, by omega, by omega⟩

theorem size_of_contains (ha : a.isEmpty = false) (hb : b.isEmpty = false) (h : a.contains b = true) :
    b.width ≤ a.width ∧ b.height ≤ a.height := by
  simp only [isEmpty, Bool.or_eq_false_iff, decide_eq_false_iff_not] at ha hb
  have ⟨_, _, _⟩ := contains_iff.mp h
  omega

theorem eq_of_contains (ha : a.isEmpty = false) (hb : b.isEmpty = false) (h : a.contains b = true)
    (hw : a.width ≤ b.width) (hh : a.height ≤ b.height) : a = b := by
  have ⟨hw', hh'⟩ := size_of_contains ha hb h
  simp only [isEmpty, Bool.or_eq_false_iff, decide_eq_false_iff_not] at ha hb
  have ⟨_, _, _⟩ := contains_iff.mp h
  cases a
  cases b
  simp only [mk.injEq] at *
  omega

end QRect

structure QScreen where
  name     : String
  geometry : QRect
deriving DecidableEq

-- The screens of the application, the name of the fake one on X11, and the order of the outputs.
structure QGuiApp where
  screens     : List QScreen
  distinct    : (screens.map (·.name)).Nodup
  defaultName : Option String := none
  outputOrder : List String

structure ScreenPool where
  sizeSortedScreens         : List QScreen
  availableScreens          : List QScreen := []
  redundantScreens          : AList (fun _ : QScreen => QScreen) := ∅
  fakeScreens               : QSet QScreen := ∅
  orderChangedPendingSignal : Bool := false

inductive Signal
  | screenRemoved (screen : QScreen)
  | screenOrderChanged (screens : List QScreen)

namespace ScreenPool

variable (app : QGuiApp) (pool : ScreenPool)

def isOutputFake (screen : QScreen) : Bool :=
  app.defaultName = some screen.name || screen.geometry.isEmpty || screen.name.isEmpty

def idOf (screen : QScreen) : Int :=
  (app.outputOrder.idxOf? screen.name).elim (-1) Int.ofNat

-- The bigger one of two screens wins, and the one with the lower id if they have one geometry.
def isRedundantTo (screen s : QScreen) : Bool :=
  screen ≠ s && !s.geometry.isNull && s.geometry.contains screen.geometry &&
    (s.geometry.width > screen.geometry.width || s.geometry.height > screen.geometry.height ||
      idOf app screen = -1 && idOf app s ≠ -1 || idOf app screen > idOf app s && idOf app s ≠ -1)

def outputRedundantTo (screen : QScreen) : Option QScreen :=
  if isOutputFake app screen then none else pool.sizeSortedScreens.find? (isRedundantTo app screen)

def idForName (connector : String) : Int :=
  (pool.availableScreens.findIdx? (·.name = connector)).elim (-1) Int.ofNat

def isBefore (screen otherScreen : QScreen) : Bool :=
  screen.geometry.width > otherScreen.geometry.width && screen.geometry.height > otherScreen.geometry.height ||
    pool.idForName screen.name < pool.idForName otherScreen.name

def insertSortedScreen (screen : QScreen) : ScreenPool :=
  if screen ∈ pool.sizeSortedScreens then
    pool
  else
    { pool with
      sizeSortedScreens := pool.sizeSortedScreens.takeWhile (!pool.isBefore screen ·) ++
        screen :: pool.sizeSortedScreens.dropWhile (!pool.isBefore screen ·) }

def handleScreenAdded (screen : QScreen) : ScreenPool :=
  let pool := pool.insertSortedScreen screen
  if isOutputFake app screen then
    { pool with fakeScreens := pool.fakeScreens.insert screen }
  else
    let pool := { pool with fakeScreens := pool.fakeScreens.remove screen }
    match pool.outputRedundantTo app screen with
    | some toScreen => { pool with redundantScreens := pool.redundantScreens.insert screen toScreen }
    | none => pool

-- The last screen of that name.
def connMap (connector : String) : Option QScreen :=
  app.screens.reverse.find? (·.name = connector)

def considerOutput (newOrder : List String) : ScreenPool × List QScreen → String → ScreenPool × List QScreen
  | (pool, newAvailableScreens), connector =>
    match connMap app connector with
    | none => (pool, newAvailableScreens)
    | some s =>
      let pool := if s ∈ pool.sizeSortedScreens then pool else pool.handleScreenAdded app s
      if isOutputFake app s then
        ({ pool with fakeScreens := pool.fakeScreens.insert s }, newAvailableScreens)
      else
        match pool.outputRedundantTo app s with
        | some toScreen =>
          if toScreen.name ∈ newOrder then
            ({ pool with redundantScreens := pool.redundantScreens.insert s toScreen }, newAvailableScreens)
          else
            (pool, newAvailableScreens ++ [s])
        | none => (pool, newAvailableScreens ++ [s])

def handleOutputOrderChanged (newOrder : List String) : ScreenPool × List Signal :=
  let (pool, newAvailableScreens) :=
    newOrder.foldl (considerOutput app newOrder) ({ pool with redundantScreens := ∅ }, [])
  let removed := pool.availableScreens.filter (· ∉ newAvailableScreens)
  if pool.orderChangedPendingSignal || newAvailableScreens ≠ pool.availableScreens then
    ({ pool with availableScreens := newAvailableScreens, orderChangedPendingSignal := false },
      removed.map .screenRemoved ++ [.screenOrderChanged newAvailableScreens])
  else
    ({ pool with orderChangedPendingSignal := false }, removed.map .screenRemoved)

-- A real screen of the application that is named in the order.
structure Listed (app : QGuiApp) (newOrder : List String) (s : QScreen) : Prop where
  mem  : s ∈ app.screens
  name : s.name ∈ newOrder
  real : isOutputFake app s = false

-- Redundant to something in the order.
def isCovered (newOrder : List String) (s : QScreen) : Bool :=
  (pool.outputRedundantTo app s).any (·.name ∈ newOrder)

variable {app pool} {newOrder : List String} {s t u : QScreen}

theorem connMap_eq_some_iff {connector : String} : connMap app connector = some s ↔
    s ∈ app.screens ∧ s.name = connector := by
  rw [connMap]
  constructor
  case mp =>
    intro h
    exact ⟨List.mem_reverse.mp (List.mem_of_find?_eq_some h), by simpa using List.find?_some h⟩
  case mpr =>
    rintro ⟨hm, rfl⟩
    cases hf : app.screens.reverse.find? (·.name = s.name) with
    | none => exact absurd (decide_eq_true rfl) (List.find?_eq_none.mp hf s (List.mem_reverse.mpr hm))
    | some t =>
      have ht : t ∈ app.screens := List.mem_reverse.mp (List.mem_of_find?_eq_some hf)
      have hname : t.name = s.name := by simpa using List.find?_some hf
      rw [List.inj_on_of_nodup_map app.distinct ht hm hname]

theorem isCovered_congr {pool' : ScreenPool} (h : pool'.sizeSortedScreens = pool.sizeSortedScreens) :
    isCovered app pool' newOrder s = isCovered app pool newOrder s := by
  rw [isCovered, isCovered, outputRedundantTo, outputRedundantTo, h]

-- What the names of the order add, if all screens are in the sorted list.
structure Considered (app : QGuiApp) (newOrder : List String) (pool : ScreenPool) (available : List QScreen)
    (names : List String) (pool' : ScreenPool) (available' : List QScreen) : Prop where
  sorted    : pool'.sizeSortedScreens = pool.sizeSortedScreens
  old       : pool'.availableScreens = pool.availableScreens
  available : available' = available ++ names.filterMap fun connector =>
    (connMap app connector).filter fun s => !isOutputFake app s && !isCovered app pool newOrder s
  redundant : ∀ s, s ∈ pool'.redundantScreens ↔ s ∈ pool.redundantScreens ∨
    ∃ connector ∈ names, connMap app connector = some s ∧ isOutputFake app s = false ∧
      isCovered app pool newOrder s = true

theorem considerOutput_considered (hsorted : app.screens ⊆ pool.sizeSortedScreens) (available : List QScreen)
    (connector : String) : Considered app newOrder pool available [connector]
      (considerOutput app newOrder (pool, available) connector).1
      (considerOutput app newOrder (pool, available) connector).2 := by
  rw [considerOutput]
  cases hc : connMap app connector with
  | none => exact ⟨rfl, rfl, by simp [hc], fun s => by simp [hc]⟩
  | some s =>
    have hs : s ∈ pool.sizeSortedScreens := hsorted (connMap_eq_some_iff.mp hc).1
    have hone : ∀ t, (∃ name ∈ [connector], connMap app name = some t ∧ isOutputFake app t = false ∧
        isCovered app pool newOrder t = true) ↔
        t = s ∧ isOutputFake app s = false ∧ isCovered app pool newOrder s = true := by
      intro t
      simp only [List.mem_singleton, exists_eq_left, hc, Option.some_inj, eq_comm (a := s)]
      exact and_congr_right fun ht => by rw [ht]
    have havailable : ([connector].filterMap fun name => (connMap app name).filter fun s =>
        !isOutputFake app s && !isCovered app pool newOrder s) =
        if !isOutputFake app s && !isCovered app pool newOrder s then [s] else [] := by
      rw [List.filterMap_cons, hc, Option.filter_some]
      cases !isOutputFake app s && !isCovered app pool newOrder s <;> rfl
    dsimp only
    rw [if_pos hs]
    cases hf : isOutputFake app s with
    | true =>
      refine ⟨rfl, rfl, by simp [havailable, hf], fun t => ?_⟩
      rw [hone, hf]
      simp
    | false =>
      rw [if_neg (by simp)]
      cases hr : pool.outputRedundantTo app s with
      | none =>
        have hcovered : isCovered app pool newOrder s = false := by rw [isCovered, hr]; rfl
        refine ⟨rfl, rfl, by simp [havailable, hf, hcovered], fun t => ?_⟩
        rw [hone, hcovered]
        simp
      | some toScreen =>
        dsimp only
        split
        case isTrue hname =>
          have hcovered : isCovered app pool newOrder s = true := by rw [isCovered, hr]; simpa using hname
          refine ⟨rfl, rfl, by simp [havailable, hcovered], fun t => ?_⟩
          rw [hone, AList.mem_insert, or_comm, hf, hcovered]
          simp
        case isFalse hname =>
          have hcovered : isCovered app pool newOrder s = false := by rw [isCovered, hr]; simpa using hname
          refine ⟨rfl, rfl, by simp [havailable, hf, hcovered], fun t => ?_⟩
          rw [hone, hcovered]
          simp

theorem foldl_considered (hsorted : app.screens ⊆ pool.sizeSortedScreens) (available : List QScreen)
    (names : List String) : Considered app newOrder pool available names
      (names.foldl (considerOutput app newOrder) (pool, available)).1
      (names.foldl (considerOutput app newOrder) (pool, available)).2 := by
  induction names generalizing pool available with
  | nil => exact ⟨rfl, rfl, by simp, fun s => by simp⟩
  | cons connector names ih =>
    have h : Considered app newOrder pool available [connector] _ _ :=
      considerOutput_considered hsorted available connector
    rw [List.foldl_cons]
    generalize considerOutput app newOrder (pool, available) connector = result at h ⊢
    obtain ⟨pool', available'⟩ := result
    have h : Considered app newOrder pool available [connector] pool' available' := h
    have h' := ih (h.sorted ▸ hsorted) available'
    have hcovered : ∀ s, isCovered app pool' newOrder s = isCovered app pool newOrder s := fun s =>
      isCovered_congr h.sorted
    constructor
    case sorted => exact h'.sorted.trans h.sorted
    case old => exact h'.old.trans h.old
    case available =>
      have heq : connector :: names = [connector] ++ names := rfl
      rw [h'.available, h.available, List.append_assoc, heq, List.filterMap_append]
      simp only [hcovered]
    case redundant =>
      intro s
      rw [h'.redundant, h.redundant, or_assoc]
      simp only [hcovered, List.mem_cons, List.not_mem_nil, or_false, or_and_right, exists_or, exists_eq_left]

theorem handleOutputOrderChanged_considered (hsorted : app.screens ⊆ pool.sizeSortedScreens) :
    Considered app newOrder { pool with redundantScreens := ∅ } [] newOrder
      { (pool.handleOutputOrderChanged app newOrder).1 with availableScreens := pool.availableScreens }
      (pool.handleOutputOrderChanged app newOrder).1.availableScreens := by
  have h := @foldl_considered app { pool with redundantScreens := ∅ } newOrder hsorted [] newOrder
  rw [handleOutputOrderChanged]
  generalize newOrder.foldl (considerOutput app newOrder) ({ pool with redundantScreens := ∅ }, []) = result at h ⊢
  obtain ⟨pool', available'⟩ := result
  dsimp only at h ⊢
  split
  case isTrue => exact ⟨h.sorted, rfl, h.available, h.redundant⟩
  case isFalse hc =>
    have heq : available' = pool'.availableScreens := by
      simp only [Bool.or_eq_true, decide_eq_true_eq, not_or, not_not] at hc
      exact hc.2
    exact ⟨h.sorted, rfl, heq ▸ h.available, h.redundant⟩

theorem mem_availableScreens_iff (hsorted : app.screens ⊆ pool.sizeSortedScreens) :
    s ∈ (pool.handleOutputOrderChanged app newOrder).1.availableScreens ↔
      Listed app newOrder s ∧ isCovered app pool newOrder s = false := by
  have h : ∀ s, isCovered app { pool with redundantScreens := ∅ } newOrder s = isCovered app pool newOrder s :=
    fun s => isCovered_congr rfl
  rw [(handleOutputOrderChanged_considered hsorted).available, List.nil_append, List.mem_filterMap]
  simp only [Option.filter_eq_some_iff, Bool.and_eq_true, Bool.not_eq_true', connMap_eq_some_iff, h]
  constructor
  case mp =>
    rintro ⟨connector, hm, ⟨hs, rfl⟩, hreal, hcovered⟩
    exact ⟨⟨hs, hm, hreal⟩, hcovered⟩
  case mpr =>
    rintro ⟨hl, hcovered⟩
    exact ⟨s.name, hl.name, ⟨hl.mem, rfl⟩, hl.real, hcovered⟩

theorem mem_redundantScreens_iff (hsorted : app.screens ⊆ pool.sizeSortedScreens) :
    s ∈ (pool.handleOutputOrderChanged app newOrder).1.redundantScreens ↔
      Listed app newOrder s ∧ isCovered app pool newOrder s = true := by
  have h : ∀ s, isCovered app { pool with redundantScreens := ∅ } newOrder s = isCovered app pool newOrder s :=
    fun s => isCovered_congr rfl
  refine ((handleOutputOrderChanged_considered hsorted).redundant s).trans ?_
  simp only [connMap_eq_some_iff, h, AList.notMem_empty, false_or]
  constructor
  case mp =>
    rintro ⟨connector, hm, ⟨hs, rfl⟩, hreal, hcovered⟩
    exact ⟨⟨hs, hm, hreal⟩, hcovered⟩
  case mpr =>
    rintro ⟨hl, hcovered⟩
    exact ⟨s.name, hl.name, ⟨hl.mem, rfl⟩, hl.real, hcovered⟩

theorem sublist_availableScreens (hsorted : app.screens ⊆ pool.sizeSortedScreens) :
    ((pool.handleOutputOrderChanged app newOrder).1.availableScreens.map (·.name)).Sublist newOrder := by
  have hname : ∀ (p : QScreen → Bool) (names : List String),
      ((names.filterMap fun connector => (connMap app connector).filter p).map (·.name)).Sublist names := by
    intro p names
    induction names with
    | nil => exact .slnil
    | cons connector names ih =>
      rw [List.filterMap_cons]
      cases hc : (connMap app connector).filter p with
      | none => exact ih.cons _
      | some s =>
        have heq := (connMap_eq_some_iff.mp (Option.filter_eq_some_iff.mp hc).1).2
        rw [List.map_cons, heq]
        exact ih.cons_cons _
  rw [(handleOutputOrderChanged_considered hsorted).available]
  exact hname _ newOrder

theorem Listed.nonempty (h : Listed app newOrder s) : s.geometry.isEmpty = false := by
  have hreal := h.real
  rw [isOutputFake, Bool.or_eq_false_iff, Bool.or_eq_false_iff] at hreal
  exact hreal.1.2

theorem Listed.eq_of_name (hs : Listed app newOrder s) (ht : Listed app newOrder t) (h : s.name = t.name) : s = t :=
  List.inj_on_of_nodup_map app.distinct hs.mem ht.mem h

theorem idOf_eq_neg_one_iff : idOf app s = -1 ↔ s.name ∉ app.outputOrder := by
  rw [idOf]
  cases h : app.outputOrder.idxOf? s.name with
  | none => exact iff_of_true rfl (List.idxOf?_eq_none_iff.mp h)
  | some i =>
    refine iff_of_false (fun hi => ?_) fun hn => ?_
    · rw [Option.elim_some, Int.ofNat_eq_natCast] at hi
      omega
    · rw [List.idxOf?_eq_none_iff.mpr hn] at h
      cases h

theorem idOf_inj (hs : s.name ∈ app.outputOrder) (h : idOf app s = idOf app t) : s.name = t.name := by
  have hidx : ∀ s : QScreen, s.name ∈ app.outputOrder →
      ∃ i, app.outputOrder.idxOf? s.name = some i ∧ idOf app s = i := by
    intro s hm
    cases hi : app.outputOrder.idxOf? s.name with
    | none => exact absurd hm (List.idxOf?_eq_none_iff.mp hi)
    | some i => exact ⟨i, rfl, by rw [idOf, hi, Option.elim_some, Int.ofNat_eq_natCast]⟩
  have ht : t.name ∈ app.outputOrder := by
    by_contra hn
    exact idOf_eq_neg_one_iff.mp (h.trans (idOf_eq_neg_one_iff.mpr hn)) hs
  have ⟨i, hi, hsi⟩ := hidx s hs
  have ⟨j, hj, htj⟩ := hidx t ht
  have hij : i = j := by omega
  have ⟨hlt, hget, _⟩ := List.idxOf?_eq_some_iff.mp hi
  have ⟨hlt', hget', _⟩ := List.idxOf?_eq_some_iff.mp hj
  subst hij
  exact hget.symm.trans hget'

theorem isRedundantTo_iff : isRedundantTo app s t = true ↔ s ≠ t ∧ t.geometry.contains s.geometry = true ∧
    (t.geometry.width > s.geometry.width ∨ t.geometry.height > s.geometry.height ∨
      t.name ∈ app.outputOrder ∧ (s.name ∉ app.outputOrder ∨ idOf app t < idOf app s)) := by
  have hn : t.geometry.contains s.geometry = true → t.geometry.isNull = false := fun h => (QRect.contains_iff.mp h).1.1
  simp only [isRedundantTo, Bool.and_eq_true, Bool.or_eq_true, decide_eq_true_eq, Bool.not_eq_true', ne_eq,
    idOf_eq_neg_one_iff, not_not]
  tauto

-- Screens in the order are redundant to bigger ones, or to ones of the same geometry that come first.
theorem Listed.isRedundantTo_iff (hs : Listed app app.outputOrder s) (ht : t.name ∈ app.outputOrder) :
    isRedundantTo app s t = true ↔ s ≠ t ∧ t.geometry.contains s.geometry = true ∧
      (t.geometry.width > s.geometry.width ∨ t.geometry.height > s.geometry.height ∨ idOf app t < idOf app s) := by
  rw [ScreenPool.isRedundantTo_iff]
  have hname := hs.name
  tauto

theorem Listed.isRedundantTo_trans (hs : Listed app app.outputOrder s) (ht : Listed app app.outputOrder t)
    (hu : Listed app app.outputOrder u) (hst : isRedundantTo app s t = true) (htu : isRedundantTo app t u = true) :
    isRedundantTo app s u = true := by
  rw [hs.isRedundantTo_iff ht.name] at hst
  rw [ht.isRedundantTo_iff hu.name] at htu
  have ⟨_, hcst, hst⟩ := hst
  have ⟨_, hctu, htu⟩ := htu
  have hsize := QRect.size_of_contains ht.nonempty hs.nonempty hcst
  have hsize' := QRect.size_of_contains hu.nonempty ht.nonempty hctu
  refine (hs.isRedundantTo_iff hu.name).mpr ⟨?_, QRect.contains_trans hctu hcst, by omega⟩
  rintro rfl
  omega

-- One of two screens of which one contains the other is redundant.
theorem Listed.isRedundantTo_or (hs : Listed app app.outputOrder s) (ht : Listed app app.outputOrder t) (hne : s ≠ t)
    (h : t.geometry.contains s.geometry = true) : isRedundantTo app s t = true ∨
      isRedundantTo app t s = true ∧ s.geometry.contains t.geometry = true := by
  rw [hs.isRedundantTo_iff ht.name, ht.isRedundantTo_iff hs.name]
  by_cases hbig : t.geometry.width > s.geometry.width ∨ t.geometry.height > s.geometry.height
  case pos => exact .inl ⟨hne, h, by omega⟩
  case neg =>
    have heq : t.geometry = s.geometry := QRect.eq_of_contains ht.nonempty hs.nonempty h (by omega) (by omega)
    have hid : idOf app s ≠ idOf app t := fun hid => hne (hs.eq_of_name ht (idOf_inj hs.name hid))
    rcases lt_or_gt_of_ne hid with hid | hid
    · rw [heq] at h ⊢
      exact .inr ⟨⟨hne.symm, h, .inr (.inr hid)⟩, h⟩
    · exact .inl ⟨hne, h, .inr (.inr hid)⟩

-- No other real screen in the order makes it redundant.
def Maximal (app : QGuiApp) (s : QScreen) : Prop :=
  Listed app app.outputOrder s ∧ ∀ u, Listed app app.outputOrder u → isRedundantTo app s u = false

theorem Listed.exists_maximal (hs : Listed app app.outputOrder s) :
    ∃ t, Maximal app t ∧ (s = t ∨ isRedundantTo app s t = true) := by
  let Above (u t : {t // t ∈ app.screens}) : Prop :=
    Listed app app.outputOrder u.1 ∧ Listed app app.outputOrder t.1 ∧ isRedundantTo app t.1 u.1 = true
  have : Finite {t // t ∈ app.screens} := List.finite_toSet app.screens
  have : Std.Irrefl Above := ⟨fun t h => (ScreenPool.isRedundantTo_iff.mp h.2.2).1 rfl⟩
  have : IsTrans _ Above := ⟨fun _ _ _ h h' => ⟨h.1, h'.2.1, h'.2.1.isRedundantTo_trans h.2.1 h.1 h'.2.2 h.2.2⟩⟩
  have hwf : WellFounded Above := Finite.wellFounded_of_trans_of_irrefl Above
  have hind : ∀ t : {t // t ∈ app.screens}, Listed app app.outputOrder t.1 →
      ∃ u, Maximal app u ∧ (t.1 = u ∨ isRedundantTo app t.1 u = true) := by
    intro t
    induction t using hwf.induction with
    | _ t ih =>
      intro ht
      by_cases hm : ∃ u, Listed app app.outputOrder u ∧ isRedundantTo app t.1 u = true
      case pos =>
        have ⟨u, hu, htu⟩ := hm
        have ⟨v, hv, huv⟩ := ih ⟨u, hu.mem⟩ ⟨hu, ht, htu⟩ hu
        cases huv with
        | inl heq => exact ⟨v, hv, .inr (heq ▸ htu)⟩
        | inr huv => exact ⟨v, hv, .inr (ht.isRedundantTo_trans hu hv.1 htu huv)⟩
      case neg => exact ⟨t.1, ⟨ht, fun u hu => Bool.eq_false_iff.mpr fun h => hm ⟨u, hu, h⟩⟩, .inl rfl⟩
  exact hind ⟨s, hs.mem⟩ hs

theorem isCovered_iff (hs : Listed app app.outputOrder s) : isCovered app pool app.outputOrder s = true ↔
    ∃ t, pool.sizeSortedScreens.find? (isRedundantTo app s) = some t ∧ t.name ∈ app.outputOrder := by
  rw [isCovered, outputRedundantTo, if_neg (by simp [hs.real])]
  cases pool.sizeSortedScreens.find? (isRedundantTo app s) <;> simp

-- If two searches find what also the other one accepts, they find the same.
theorem find?_eq_of_find? {α : Type} {p q : α → Bool} {l : List α} {a b : α} (ha : l.find? p = some a)
    (hb : l.find? q = some b) (hqa : q a = true) (hpb : p b = true) : a = b := by
  induction l with
  | nil => cases ha
  | cons c l ih =>
    rw [List.find?_cons] at ha hb
    cases hp : p c with
    | true =>
      rw [hp] at ha
      cases ha
      rw [hqa] at hb
      exact Option.some.inj hb
    | false =>
      cases hq : q c with
      | true =>
        rw [hq] at hb
        cases hb
        exact absurd hpb (by simp [hp])
      | false => exact ih (by simpa [hp] using ha) (by simpa [hq] using hb)

-- The first screen that makes another one redundant is in the order exactly if a real one in the order does.
def FirstDecides (app : QGuiApp) (pool : ScreenPool) : Prop :=
  ∀ s, Listed app app.outputOrder s → ∀ t, pool.sizeSortedScreens.find? (isRedundantTo app s) = some t →
    (t.name ∈ app.outputOrder ↔ ∃ u, Listed app app.outputOrder u ∧ isRedundantTo app s u = true)

theorem firstDecides_iff (hsorted : app.screens ⊆ pool.sizeSortedScreens) : FirstDecides app pool ↔
    ∀ s, Listed app app.outputOrder s → (isCovered app pool app.outputOrder s = true ↔
      ∃ u, Listed app app.outputOrder u ∧ isRedundantTo app s u = true) := by
  refine forall_congr' fun s => forall_congr' fun hs => ?_
  rw [isCovered_iff hs]
  cases hf : pool.sizeSortedScreens.find? (isRedundantTo app s) with
  | none =>
    have hnone : ¬∃ u, Listed app app.outputOrder u ∧ isRedundantTo app s u = true := fun ⟨u, hu, hsu⟩ =>
      List.find?_eq_none.mp hf u (hsorted hu.mem) hsu
    simp [hnone]
  | some t => simp

-- The screens of the order, without those that others cover.
structure Arranged (app : QGuiApp) (newOrder : List String) (pool : ScreenPool) : Prop where
  sequence  : (pool.availableScreens.map (·.name)).Sublist newOrder
  one       : ∀ s, Listed app newOrder s → Xor (s ∈ pool.availableScreens) (s ∈ pool.redundantScreens)
  contained : ∀ s ∈ pool.redundantScreens, ∃ u ∈ pool.availableScreens, u.geometry.contains s.geometry = true
  apart     : ∀ s ∈ pool.availableScreens, ∀ u ∈ pool.availableScreens, s ≠ u →
    u.geometry.contains s.geometry = false
  nonempty  : (∃ s, Listed app newOrder s) → pool.availableScreens ≠ []

theorem FirstDecides.arranged (h : FirstDecides app pool) (hsorted : app.screens ⊆ pool.sizeSortedScreens) :
    Arranged app app.outputOrder (pool.handleOutputOrderChanged app app.outputOrder).1 := by
  rw [firstDecides_iff hsorted] at h
  have hmem : ∀ s, s ∈ (pool.handleOutputOrderChanged app app.outputOrder).1.availableScreens ↔ Maximal app s := by
    intro s
    rw [mem_availableScreens_iff hsorted]
    refine and_congr_right fun hs => ?_
    rw [← Bool.not_eq_true, h s hs]
    simp
  constructor
  case sequence => exact sublist_availableScreens hsorted
  case one =>
    intro s hs
    rw [mem_availableScreens_iff hsorted, mem_redundantScreens_iff hsorted]
    cases hc : isCovered app pool app.outputOrder s with
    | true => exact .inr ⟨⟨hs, rfl⟩, fun hn => nomatch hn.2⟩
    | false => exact .inl ⟨⟨hs, rfl⟩, fun hn => nomatch hn.2⟩
  case contained =>
    intro s hm
    have ⟨hs, hc⟩ := (mem_redundantScreens_iff hsorted).mp hm
    have ⟨u, hu, hsu⟩ := (h s hs).mp hc
    have ⟨t, ht, hst⟩ := hs.exists_maximal
    cases hst with
    | inl heq =>
      have hn := ht.2 u hu
      rw [← heq, hsu] at hn
      cases hn
    | inr hst => exact ⟨t, (hmem t).mpr ht, (ScreenPool.isRedundantTo_iff.mp hst).2.1⟩
  case apart =>
    intro s hs u hu hne
    have hs := (hmem s).mp hs
    have hu := (hmem u).mp hu
    by_contra hc
    rcases hs.1.isRedundantTo_or hu.1 hne (Bool.not_eq_false _ ▸ hc) with hsu | ⟨hus, _⟩
    · exact absurd hsu (by simp [hs.2 u hu.1])
    · exact absurd hus (by simp [hu.2 s hs.1])
  case nonempty =>
    rintro ⟨s, hs⟩ hnil
    have ⟨t, ht, _⟩ := hs.exists_maximal
    have ht := (hmem t).mpr ht
    rw [hnil] at ht
    cases ht

-- An available screen is maximal: a maximal one that dominates it has the same geometry, so the search for both of
-- them ends at the same screen.
theorem Arranged.maximal (hsorted : app.screens ⊆ pool.sizeSortedScreens)
    (h : Arranged app app.outputOrder (pool.handleOutputOrderChanged app app.outputOrder).1)
    (hs : Listed app app.outputOrder s) (hc : isCovered app pool app.outputOrder s = false) : Maximal app s := by
  have hsa := (mem_availableScreens_iff hsorted).mpr ⟨hs, hc⟩
  have ⟨m, hm, hsm⟩ := hs.exists_maximal
  cases hsm with
  | inl heq => exact heq ▸ hm
  | inr hsm =>
    exfalso
    have ⟨hne, hcontains, hbig⟩ := (hs.isRedundantTo_iff hm.1.name).mp hsm
    have hma : m ∉ (pool.handleOutputOrderChanged app app.outputOrder).1.availableScreens := fun hma =>
      absurd hcontains (by simp [h.apart s hsa m hma hne])
    have hmr := (h.one m hm.1).resolve_left (fun hl => hma hl.1) |>.1
    have hmc := ((mem_redundantScreens_iff hsorted).mp hmr).2
    have ⟨u, hua, hum⟩ := h.contained m hmr
    have hus : u = s := by
      by_contra hus
      exact absurd (QRect.contains_trans hum hcontains) (by simp [h.apart s hsa u hua (Ne.symm hus)])
    subst hus
    have hsize := QRect.size_of_contains hs.nonempty hm.1.nonempty hum
    have hgeometry : m.geometry = u.geometry :=
      QRect.eq_of_contains hm.1.nonempty hs.nonempty hcontains hsize.1 hsize.2
    have ⟨t, hmt, htname⟩ := (isCovered_iff hm.1).mp hmc
    have ⟨_, htm, htbig⟩ := (hm.1.isRedundantTo_iff htname).mp (List.find?_some hmt)
    rw [hgeometry] at htm htbig hbig
    have hut : isRedundantTo app u t = true := by
      refine (hs.isRedundantTo_iff htname).mpr ⟨?_, htm, by omega⟩
      rintro rfl
      omega
    cases hf : pool.sizeSortedScreens.find? (isRedundantTo app u) with
    | none => exact List.find?_eq_none.mp hf t (List.mem_of_find?_eq_some hmt) hut
    | some v =>
      have hvname : v.name ∉ app.outputOrder := fun hv => by
        rw [(isCovered_iff hs).mpr ⟨v, hf, hv⟩] at hc
        cases hc
      have ⟨_, hvu, hvbig⟩ := ScreenPool.isRedundantTo_iff.mp (List.find?_some hf)
      have hmv : isRedundantTo app m v = true := by
        refine ScreenPool.isRedundantTo_iff.mpr ⟨fun heq => hvname (heq ▸ hm.1.name), ?_, ?_⟩
        · rw [hgeometry]
          exact hvu
        · rw [hgeometry]
          tauto
      exact hvname (find?_eq_of_find? hmt hf hut hmv ▸ htname)

theorem Arranged.firstDecides (hsorted : app.screens ⊆ pool.sizeSortedScreens)
    (h : Arranged app app.outputOrder (pool.handleOutputOrderChanged app app.outputOrder).1) :
    FirstDecides app pool := by
  rw [firstDecides_iff hsorted]
  intro s hs
  constructor
  case mp =>
    intro hc
    by_contra hn
    have hsr := (mem_redundantScreens_iff hsorted).mpr ⟨hs, hc⟩
    have ⟨u, hua, hus⟩ := h.contained s hsr
    have ⟨hu, huc⟩ := (mem_availableScreens_iff hsorted).mp hua
    have hne : s ≠ u := by
      rintro rfl
      rw [hc] at huc
      cases huc
    rcases hs.isRedundantTo_or hu hne hus with hsu | ⟨hus, _⟩
    · exact hn ⟨u, hu, hsu⟩
    · exact absurd hus (by simp [(h.maximal hsorted hu huc).2 s hs])
  case mpr =>
    rintro ⟨u, hu, hsu⟩
    by_contra hc
    exact absurd hsu (by simp [(h.maximal hsorted hs (Bool.not_eq_true _ ▸ hc)).2 u hu])

theorem arranged_handleOutputOrderChanged_iff (app : QGuiApp) (pool : ScreenPool)
    (hsorted : pool.sizeSortedScreens.Perm app.screens) :
    Arranged app app.outputOrder (pool.handleOutputOrderChanged app app.outputOrder).1 ↔ FirstDecides app pool :=
  ⟨Arranged.firstDecides hsorted.symm.subset, fun h => h.arranged hsorted.symm.subset⟩

theorem arranged_handleOutputOrderChanged_clones :
    let eDP : QScreen := ⟨"eDP-1", 0, 0, 1920, 1080⟩
    let hdmi : QScreen := ⟨"HDMI-1", 0, 0, 1920, 1080⟩
    let app : QGuiApp := { screens := [eDP, hdmi], distinct := by decide, outputOrder := ["HDMI-1", "eDP-1"] }
    Arranged app app.outputOrder
      (({ sizeSortedScreens := [hdmi, eDP] } : ScreenPool).handleOutputOrderChanged app app.outputOrder).1 := by
  intro eDP hdmi app
  refine (arranged_handleOutputOrderChanged_iff app { sizeSortedScreens := [hdmi, eDP] } (.swap _ _ _)).mpr ?_
  intro s hs t ht
  have hsorted : s = eDP ∨ s = hdmi := by simpa [app] using hs.mem
  rcases hsorted with rfl | rfl
  · have ht : some hdmi = some t := ht
    cases ht
    exact iff_of_true (by decide) ⟨hdmi, ⟨by simp [app], by decide, by decide⟩, by decide⟩
  · have ht : (none : Option QScreen) = some t := ht
    cases ht

-- A screen that is not in the order comes before the one that the small screen is a part of.
theorem not_arranged_leftOut : ¬∀ (app : QGuiApp) (pool : ScreenPool), app.outputOrder.Nodup →
    pool.sizeSortedScreens.Perm app.screens →
    Arranged app app.outputOrder (pool.handleOutputOrderChanged app app.outputOrder).1 := by
  intro h
  let wide : QScreen := ⟨"A", 0, 0, 3000, 2000⟩
  let large : QScreen := ⟨"B", 0, 0, 2000, 1000⟩
  let small : QScreen := ⟨"C", 0, 0, 1000, 500⟩
  let app : QGuiApp := { screens := [wide, large, small], distinct := by decide, outputOrder := ["B", "C"] }
  let pool : ScreenPool := { sizeSortedScreens := [wide, large, small] }
  have ha : (pool.handleOutputOrderChanged app app.outputOrder).1.availableScreens = [large, small] := by
    decide +kernel
  have hapart := (h app pool (by decide) (.refl _)).apart
  rw [ha] at hapart
  exact absurd (hapart small (by simp) large (by simp) (by decide)) (by decide)

end ScreenPool
end Shell
