import PlasmaModel.Placement.PlaceSmart

namespace KWin.Placement

def cascadeOffset (area : RectF) : PointF :=
  ⟨(area.right - area.left) / 48, (area.bottom - area.top) / 48⟩

def Window.pos (window : Window) : PointF :=
  ⟨window.x, window.y⟩

def Window.frameGeometry (window : Window) : RectF :=
  ⟨window.x, window.y, window.x + window.width, window.y + window.height⟩

-- What the loop does not change. The stacking order has the topmost window last.
structure Cascade where
  window        : Window
  desktop       : Nat
  stackingOrder : List Window
  geometry      : RectF
  area          : RectF
  area_pos      : area.isEmpty = false

namespace Cascade

variable (c : Cascade)

def isIgnored (possibleGeo : RectF) (other : Window) : Bool :=
  isIrrelevant other c.window c.desktop || !other.frameGeometry.intersects possibleGeo

-- The first window, from the top, that the window would cover at the candidate position.
def covered (possibleGeo : RectF) : RectF → List Window → Option Window
  | _, [] => .none
  | coveredArea, other :: others =>
    if c.isIgnored possibleGeo other then
      covered possibleGeo coveredArea others
    else if possibleGeo.contains other.frameGeometry && !coveredArea.contains other.frameGeometry then
      some other
    else
      let coveredArea := coveredArea.united other.frameGeometry
      if coveredArea.contains c.area then
        .none
      else
        covered possibleGeo coveredArea others

def next (possibleGeo : RectF) (other : Window) : RectF :=
  let offset := cascadeOffset c.area
  possibleGeo.moveTopLeft ⟨other.pos.x + offset.x, other.pos.y + offset.y⟩

def isOutside (possibleGeo : RectF) : Bool :=
  possibleGeo.right > c.area.right || possibleGeo.bottom > c.area.bottom

-- The windows which are not left of a position.
def remaining (left : ℚ) : List Window :=
  c.stackingOrder.filter (left ≤ ·.x)

variable {c} {possibleGeo coveredArea : RectF} {other : Window} {others : List Window}

theorem offset_pos : 0 < (cascadeOffset c.area).x ∧ 0 < (cascadeOffset c.area).y := by
  have h := RectF.isEmpty_eq_false_iff.mp c.area_pos
  constructor
  · exact div_pos (sub_pos.mpr h.1) (by norm_num)
  · exact div_pos (sub_pos.mpr h.2) (by norm_num)

theorem covered_spec (h : c.covered possibleGeo coveredArea others = some other) :
    other ∈ others ∧ possibleGeo.contains other.frameGeometry = true := by
  induction others generalizing coveredArea
  case nil => cases h
  case cons other' others ih =>
    unfold covered at h
    split at h
    case isTrue => exact (ih h).imp_left (List.mem_cons_of_mem _)
    case isFalse =>
      split at h
      case isTrue hc =>
        obtain rfl := Option.some.inj h
        exact ⟨List.mem_cons_self, (Bool.and_eq_true_iff.mp hc).1⟩
      case isFalse =>
        dsimp only at h
        split at h
        case isTrue => cases h
        case isFalse => exact (ih h).imp_left (List.mem_cons_of_mem _)

-- Each jump goes to the right and down.
theorem next_lt (h : possibleGeo.contains other.frameGeometry = true) :
    possibleGeo.left ≤ other.x ∧ other.x < (c.next possibleGeo other).left ∧
      possibleGeo.top ≤ other.y ∧ other.y < (c.next possibleGeo other).top := by
  have ⟨_, ⟨hl, _⟩, ht, _⟩ := RectF.contains_iff.mp h
  have ⟨hx, hy⟩ := offset_pos (c := c)
  exact ⟨hl, lt_add_of_pos_right _ hx, ht, lt_add_of_pos_right _ hy⟩

theorem remaining_lt {left left' : ℚ} (hm : other ∈ c.stackingOrder) (hl : left ≤ other.x) (hl' : other.x < left') :
    (c.remaining left').length < (c.remaining left).length := by
  have hsub : (c.remaining left').Sublist (c.remaining left) := by
    refine List.monotone_filter_right _ fun w hw => ?_
    exact decide_eq_true (hl.trans (hl'.le.trans (of_decide_eq_true hw)))
  refine lt_of_le_of_ne hsub.length_le fun heq => ?_
  have hmem : other ∈ c.remaining left := List.mem_filter.mpr ⟨hm, decide_eq_true hl⟩
  rw [← hsub.eq_of_length heq] at hmem
  exact absurd (of_decide_eq_true (List.mem_filter.mp hmem).2) (not_le.mpr hl')

variable (c)

def run (possibleGeo : RectF) : RectF :=
  match _h : c.covered possibleGeo default c.stackingOrder.reverse with
  | .none => possibleGeo
  | some other =>
    if c.isOutside (c.next possibleGeo other) then
      c.geometry
    else
      run (c.next possibleGeo other)
termination_by (c.remaining possibleGeo.left).length
decreasing_by
  have ⟨hm, hc⟩ := covered_spec _h
  have ⟨hl, hl', _⟩ := next_lt (c := c) hc
  exact remaining_lt (List.mem_reverse.mp hm) hl hl'

end Cascade

def cascade (window : Window) (stackingOrder : List Window) (currentDesktop : Nat) (geometry area : RectF)
    (h : area.isEmpty = false) : Cascade where
  window
  desktop := if window.isOnDesktop currentDesktop then currentDesktop else window.desktops.headD currentDesktop
  stackingOrder
  geometry
  area
  area_pos := h

def cascadeIfCovering (window : Window) (stackingOrder : List Window) (currentDesktop : Nat) (geometry area : RectF)
    (h : area.isEmpty = false) : RectF :=
  (cascade window stackingOrder currentDesktop geometry area h).run geometry

-- The bounding rectangle of the windows.
def bounding (windows : List Window) : RectF :=
  windows.foldl (fun r window => r.united window.frameGeometry) default

end KWin.Placement

namespace KWin.RectF

variable {a b r : RectF}

theorem Covers.contains (h : Covers b a) (hr : a.contains r = true) : b.contains r = true := by
  have ⟨ha, ⟨hl, hr⟩, ht, hb⟩ := contains_iff.mp hr
  have ⟨hl', ht', hr', hb'⟩ := h ha
  have ⟨hx, hy⟩ := isEmpty_eq_false_iff.mp ha
  refine contains_iff.mpr ⟨isEmpty_eq_false_iff.mpr ⟨?_, ?_⟩, ⟨hl'.trans hl, hr.trans hr'⟩, ht'.trans ht, hb.trans hb'⟩
  · exact hl'.trans_lt (hx.trans_le hr')
  · exact ht'.trans_lt (hy.trans_le hb')

theorem intersects_of_contains (h : a.contains b = true) (hb : b.isEmpty = false) : b.intersects a = true := by
  have ⟨ha, ⟨hl, hr⟩, ht, hbot⟩ := contains_iff.mp h
  have ⟨hx, hy⟩ := isEmpty_eq_false_iff.mp hb
  simp [intersects, ha, hb, hx.trans_le hr, hl.trans_lt hx, hy.trans_le hbot, ht.trans_lt hy]

end KWin.RectF

namespace KWin.Placement

open RectF

namespace Cascade

variable {c : Cascade} {possibleGeo coveredArea : RectF} {other : Window} {others above below : List Window}

theorem covered_filter :
    c.covered possibleGeo coveredArea (others.filter (!isIrrelevant · c.window c.desktop)) =
      c.covered possibleGeo coveredArea others := by
  induction others generalizing coveredArea
  case nil => rfl
  case cons other others ih =>
    by_cases h : isIrrelevant other c.window c.desktop = true
    case pos =>
      have hignored : c.isIgnored possibleGeo other = true := by simp [isIgnored, h]
      rw [List.filter_cons_of_neg (by simp [h]), covered, if_pos hignored, ih]
    case neg =>
      rw [List.filter_cons_of_pos (by simpa using h), covered, covered]
      simp only [ih]

-- A window which the position covers lies behind those above it, unless these hide the whole area.
theorem contains_of_covered_eq_none {bound : RectF}
    (h : c.covered possibleGeo coveredArea (above ++ other :: below) = .none)
    (hr : isIrrelevant other c.window c.desktop = false) (ho : other.frameGeometry.isEmpty = false)
    (hc : possibleGeo.contains other.frameGeometry = true) (hb : Covers bound coveredArea)
    (ha : ∀ w ∈ above, Covers bound w.frameGeometry) :
    bound.contains other.frameGeometry = true ∨ bound.contains c.area = true := by
  induction above generalizing coveredArea
  case nil =>
    rw [List.nil_append, covered, if_neg (by simp [isIgnored, hr, intersects_of_contains hc ho])] at h
    split at h
    case isTrue => cases h
    case isFalse hn =>
      have hcovered : coveredArea.contains other.frameGeometry = true := by simpa [hc] using hn
      exact .inl (hb.contains hcovered)
  case cons w above ih =>
    have ⟨hw, ha⟩ := List.forall_mem_cons.mp ha
    rw [List.cons_append, covered] at h
    split at h
    case isTrue => exact ih h hb ha
    case isFalse =>
      split at h
      case isTrue => cases h
      case isFalse =>
        have hb' : Covers bound (coveredArea.united w.frameGeometry) := covers_united.mpr ⟨hb, hw⟩
        dsimp only at h
        split at h
        case isTrue harea => exact .inr (hb'.contains harea)
        case isFalse => exact ih h hb' ha

-- Where the loop ends.
theorem run_cases (c : Cascade) (possibleGeo : RectF) :
    c.run possibleGeo = c.geometry ∨
      c.covered (c.run possibleGeo) default c.stackingOrder.reverse = .none ∧
        (c.run possibleGeo = possibleGeo ∨
          possibleGeo.left < (c.run possibleGeo).left ∧ possibleGeo.top < (c.run possibleGeo).top ∧
            (c.run possibleGeo).right ≤ c.area.right ∧ (c.run possibleGeo).bottom ≤ c.area.bottom) := by
  induction possibleGeo using run.induct c
  case case1 possibleGeo h =>
    have heq : c.run possibleGeo = possibleGeo := by
      rw [run]
      split <;> simp_all
    exact .inr (heq.symm ▸ ⟨h, .inl rfl⟩)
  case case2 possibleGeo other h hout =>
    left
    rw [run]
    split <;> simp_all
  case case3 possibleGeo other h hout ih =>
    have heq : c.run possibleGeo = c.run (c.next possibleGeo other) := by
      conv_lhs => rw [run]
      split <;> simp_all
    rw [heq]
    refine ih.imp_right fun ⟨hnone, hor⟩ => ⟨hnone, .inr ?_⟩
    have ⟨hx, hx', hy, hy'⟩ := next_lt (c := c) (covered_spec h).2
    rcases hor with hor | ⟨hl, ht, hin⟩
    · rw [hor]
      have hin : ¬c.isOutside (c.next possibleGeo other) = true := hout
      simp only [isOutside, Bool.or_eq_true, decide_eq_true_eq, not_or, not_lt] at hin
      exact ⟨hx.trans_lt hx', hy.trans_lt hy', hin⟩
    · exact ⟨hx.trans_lt (hx'.trans hl), hy.trans_lt (hy'.trans ht), hin⟩

-- The windows that matter, with the topmost one last.
def clients (c : Cascade) : List Window :=
  c.stackingOrder.filter (!isIrrelevant · c.window c.desktop)

theorem contains_bounding (hnone : c.covered possibleGeo default c.stackingOrder.reverse = .none)
    (hsplit : c.clients.reverse = above ++ other :: below) (ho : other.frameGeometry.isEmpty = false)
    (hc : possibleGeo.contains other.frameGeometry = true) :
    (bounding above).contains other.frameGeometry = true ∨ (bounding above).contains c.area = true := by
  have hmem : other ∈ c.clients := by
    rw [← List.mem_reverse, hsplit]
    exact List.mem_append_right _ List.mem_cons_self
  have hr := (List.mem_filter.mp hmem).2
  have hbound : Covers (bounding above) (bounding above) := fun _ => ⟨le_rfl, le_rfl, le_rfl, le_rfl⟩
  rw [← covered_filter, List.filter_reverse, ← clients, hsplit] at hnone
  refine contains_of_covered_eq_none hnone (by simpa using hr) ho hc ?_ (covers_foldl_united.mp hbound).2
  exact fun hempty => absurd hempty (by decide)

end Cascade

theorem cascade_clients {window : Window} {stackingOrder : List Window} {currentDesktop : Nat} {geometry area : RectF}
    {h : area.isEmpty = false} : (cascade window stackingOrder currentDesktop geometry area h).clients =
      relevantClients window stackingOrder currentDesktop :=
  rfl

-- The window stays where it is, or it is moved to the right and down to where it hides no other window.
theorem cascadeIfCovering_cases (window : Window) (stackingOrder : List Window) (currentDesktop : Nat)
    (geometry area result : RectF) (h : area.isEmpty = false)
    (hr : cascadeIfCovering window stackingOrder currentDesktop geometry area h = result) :
    result = geometry ∨
      (geometry.left < result.left ∧ geometry.top < result.top ∧ result.right ≤ area.right ∧
        result.bottom ≤ area.bottom) ∧
      ∀ above other below, (relevantClients window stackingOrder currentDesktop).reverse = above ++ other :: below →
        other.frameGeometry.isEmpty = false → result.contains other.frameGeometry = true →
          (bounding above).contains other.frameGeometry = true ∨ (bounding above).contains area = true := by
  have hcases := (cascade window stackingOrder currentDesktop geometry area h).run_cases geometry
  rw [cascadeIfCovering] at hr
  rw [hr] at hcases
  rcases hcases with heq | ⟨hnone, heq | hlt⟩
  · exact .inl heq
  · exact .inl heq
  · refine .inr ⟨hlt, fun above other below hsplit ho hc => ?_⟩
    have hclients : (cascade window stackingOrder currentDesktop geometry area h).clients.reverse =
        above ++ other :: below := by
      rw [cascade_clients, hsplit]
    have hbounding := Cascade.contains_bounding hnone hclients ho hc
    exact hbounding

-- A client on all desktops.
def Window.plain (id : Nat) (r : RectF) : Window :=
  { id, x := r.left, y := r.top, width := r.right - r.left, height := r.bottom - r.top, isClient := true,
    isShown := true, desktops := [], isOnCurrentActivity := true, isDesktop := false, isDock := false,
    keepAbove := false, keepBelow := false }

-- The window jumps over the corner of the one it would cover.
theorem cascadeIfCovering_cases_jump :
    cascadeIfCovering (.plain 0 ⟨0, 0, 100, 100⟩) [.plain 1 ⟨20, 30, 60, 60⟩] 0 ⟨0, 0, 100, 100⟩ ⟨0, 0, 480, 480⟩
      (by decide) = ⟨30, 40, 130, 140⟩ ∧
    ∀ above other below,
      (relevantClients (.plain 0 ⟨0, 0, 100, 100⟩) [.plain 1 ⟨20, 30, 60, 60⟩] 0).reverse = above ++ other :: below →
        other.frameGeometry.isEmpty = false → (⟨30, 40, 130, 140⟩ : RectF).contains other.frameGeometry = true →
          (bounding above).contains other.frameGeometry = true ∨ (bounding above).contains ⟨0, 0, 480, 480⟩ = true := by
  have hjump : cascadeIfCovering (.plain 0 ⟨0, 0, 100, 100⟩) [.plain 1 ⟨20, 30, 60, 60⟩] 0 ⟨0, 0, 100, 100⟩
      ⟨0, 0, 480, 480⟩ (by decide) = ⟨30, 40, 130, 140⟩ := by decide +kernel
  have hcases := cascadeIfCovering_cases (.plain 0 ⟨0, 0, 100, 100⟩) [.plain 1 ⟨20, 30, 60, 60⟩] 0 ⟨0, 0, 100, 100⟩
    ⟨0, 0, 480, 480⟩ ⟨30, 40, 130, 140⟩ (by decide) hjump
  rcases hcases with heq | ⟨_, hcovers⟩
  · exact absurd heq (by decide +kernel)
  · exact ⟨hjump, hcovers⟩

-- The topmost window hides the whole area, so the jump over the lowest window may end on the one between.
theorem cascadeIfCovering_hides : ∃ window stackingOrder geometry area result above other below,
    ∃ h : area.isEmpty = false, cascadeIfCovering window stackingOrder 0 geometry area h = result ∧
      result ≠ geometry ∧ (relevantClients window stackingOrder 0).reverse = above ++ other :: below ∧
        other.frameGeometry.isEmpty = false ∧ result.contains other.frameGeometry = true ∧
          (bounding above).contains other.frameGeometry = false := by
  refine ⟨.plain 0 ⟨-100, -100, 0, 0⟩,
    [.plain 1 ⟨-100, -100, -90, -90⟩, .plain 2 ⟨-50, -50, 5, 5⟩, .plain 3 ⟨0, 0, 480, 480⟩],
    ⟨-100, -100, 0, 0⟩, ⟨0, 0, 480, 480⟩, ⟨-90, -90, 10, 10⟩, [.plain 3 ⟨0, 0, 480, 480⟩], .plain 2 ⟨-50, -50, 5, 5⟩,
    [.plain 1 ⟨-100, -100, -90, -90⟩], by decide, by decide +kernel, by decide +kernel, rfl, ?_, ?_, ?_⟩
  all_goals decide +kernel

end KWin.Placement
