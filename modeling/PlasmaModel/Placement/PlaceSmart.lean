import PlasmaModel.Region.RectF

namespace KWin.Placement

-- The desktops of a window that is on all of them are none.
structure Window where
  id                  : Nat
  x                   : ℚ
  y                   : ℚ
  width               : ℚ
  height              : ℚ
  isClient            : Bool
  isShown             : Bool
  desktops            : List Nat
  isOnCurrentActivity : Bool
  isDesktop           : Bool
  isDock              : Bool
  keepAbove           : Bool
  keepBelow           : Bool

def Window.size (window : Window) : SizeF :=
  ⟨window.width, window.height⟩

def Window.isOnDesktop (window : Window) (desktop : Nat) : Bool :=
  window.desktops.isEmpty || window.desktops.contains desktop

def isIrrelevant (window regarding : Window) (desktop : Nat) : Bool :=
  window.id = regarding.id || !window.isClient || !window.isShown || !window.isOnDesktop desktop ||
    !window.isOnCurrentActivity || window.isDesktop

-- The conversion of a double to an integer.
def toInt (q : ℚ) : Int :=
  if 0 ≤ q then ⌊q⌋ else ⌈q⌉

namespace Window

def xl (client : Window) : Int := toInt client.x
def yt (client : Window) : Int := toInt client.y
def xr (client : Window) : Int := toInt (client.xl + client.width)
def yb (client : Window) : Int := toInt (client.yt + client.height)

end Window

def none    : Int := 0
def hWrong : Int := -1
def wWrong : Int := -2

-- What the search does not change. A window of no size is not placed.
structure Search where
  clients : List Window
  area    : RectF
  cw      : Int
  ch      : Int
  cw_pos  : 0 < cw
  ch_pos  : 0 < ch

-- The integers of the search are exact.
structure Search.State where
  x           : Int
  y           : Int
  firstPass  : Bool := true
  minOverlap : Int := 0
  xOptimal   : Int := x
  yOptimal   : Int := y

namespace Search

variable (s : Search)

def areaXr : Int := ⌊s.area.left + (s.area.right - s.area.left)⌋
def areaYb : Int := ⌊s.area.top + (s.area.bottom - s.area.top)⌋

-- The height of the window leaves room in the area.
def isLower : Bool := (s.ch : ℚ) < s.area.bottom - s.area.top

def clientOverlap (x y : Int) (client : Window) : Int :=
  let cxl := x
  let cxr := x + s.cw
  let cyt := y
  let cyb := y + s.ch
  if cxl < client.xr ∧ cxr > client.xl ∧ cyt < client.yb ∧ cyb > client.yt then
    let xl := max cxl client.xl
    let xr := min cxr client.xr
    let yt := max cyt client.yt
    let yb := min cyb client.yb
    if client.keepAbove then
      16 * (xr - xl) * (yb - yt)
    else if client.keepBelow && !client.isDock then
      0
    else
      (xr - xl) * (yb - yt)
  else
    0

def overlap (x y : Int) : Int :=
  if y + s.ch > s.areaYb ∧ s.isLower then
    hWrong
  else if x + s.cw > s.areaXr then
    wWrong
  else
    s.clients.foldl (fun overlap client => overlap + s.clientOverlap x y client) none

-- Each candidate counts that lies behind `here`, and before those that were found so far.
def closer (here possible candidate : Int) : Int :=
  if candidate > here ∧ possible > candidate then candidate else possible

def nextX (x y : Int) : Int :=
  let possible := if s.areaXr - s.cw > x then s.areaXr - s.cw else s.areaXr
  s.clients.foldl
    (fun possible client =>
      if y < client.yb ∧ client.yt < s.ch + y then
        closer x (closer x possible client.xr) (client.xl - s.cw)
      else
        possible)
    possible

def nextY (y : Int) : Int :=
  let possible := if s.areaYb - s.ch > y then s.areaYb - s.ch else s.areaYb
  s.clients.foldl (fun possible client => closer y (closer y possible client.yb) (client.yt - s.ch)) possible

-- The best position so far.
def State.remember (st : State) (overlap : Int) : State :=
  if st.firstPass then
    { st with firstPass := false, minOverlap := overlap }
  else if overlap ≥ none ∧ overlap < st.minOverlap then
    { st with minOverlap := overlap, xOptimal := st.x, yOptimal := st.y }
  else
    st

@[simp] theorem State.remember_x (st : State) (overlap : Int) : (st.remember overlap).x = st.x := by
  unfold remember
  split_ifs <;> rfl

@[simp] theorem State.remember_y (st : State) (overlap : Int) : (st.remember overlap).y = st.y := by
  unfold remember
  split_ifs <;> rfl

variable {s} {here possible candidate x y : Int}

theorem closer_eq_or_lt (here possible candidate : Int) : closer here possible candidate = possible ∨ here < closer here possible candidate := by
  unfold closer
  split_ifs <;> omega

theorem closer_le : closer here possible candidate ≤ possible := by
  unfold closer
  split_ifs <;> omega

theorem closer_le_candidate (h : here < candidate) : closer here possible candidate ≤ candidate := by
  unfold closer
  split_ifs <;> omega

theorem foldl_eq_or_lt (here : Int) (f : Int → Window → Int)
    (hf : ∀ possible client, f possible client = possible ∨ here < f possible client)
    (clients : List Window) (possible : Int) : clients.foldl f possible = possible ∨ here < clients.foldl f possible := by
  induction clients generalizing possible
  case nil => exact .inl rfl
  case cons client clients ih =>
    have := hf possible client
    have := ih (f possible client)
    simp only [List.foldl_cons]
    omega

theorem closer_closer {candidate' : Int} : closer here (closer here possible candidate) candidate' = possible ∨
    here < closer here (closer here possible candidate) candidate' := by
  have := closer_eq_or_lt here possible candidate
  have := closer_eq_or_lt here (closer here possible candidate) candidate'
  omega

-- There is no way on from the end of a row.
theorem lt_nextX_or : x < s.nextX x y ∨ s.areaXr ≤ s.nextX x y := by
  have := foldl_eq_or_lt x
    (fun possible client =>
      if y < client.yb ∧ client.yt < s.ch + y then
        closer x (closer x possible client.xr) (client.xl - s.cw)
      else
        possible)
    (fun possible client => by split_ifs; exacts [closer_closer, .inl rfl]) s.clients
    (if s.areaXr - s.cw > x then s.areaXr - s.cw else s.areaXr)
  simp only [nextX]
  split_ifs at * <;> omega

theorem lt_nextY_or : y < s.nextY y ∨ s.areaYb ≤ s.nextY y := by
  have := foldl_eq_or_lt y (fun possible client => closer y (closer y possible client.yb) (client.yt - s.ch))
    (fun possible client => closer_closer) s.clients (if s.areaYb - s.ch > y then s.areaYb - s.ch else s.areaYb)
  simp only [nextY]
  split_ifs at * <;> omega

theorem inside_of_overlap (h : s.overlap x y ≥ none) : (y + s.ch ≤ s.areaYb ∨ ¬s.isLower) ∧ x + s.cw ≤ s.areaXr := by
  unfold overlap at h
  split_ifs at h with hy hx
  · exact absurd h (by decide)
  · exact absurd h (by decide)
  · rw [not_and_or] at hy
    exact ⟨hy.imp_left not_lt.mp, not_lt.mp hx⟩

variable (s)

-- Within a row the position moves to the right, and each row lies below the one before it.
def run (st : State) : Int × Int :=
  let overlap := s.overlap st.x st.y
  if overlap = none then
    (st.x, st.y)
  else if overlap > none then
    let st' := st.remember overlap
    if st.y < s.areaYb then
      run { st' with x := s.nextX st.x st.y }
    else
      (st'.xOptimal, st'.yOptimal)
  else if overlap = wWrong then
    let st' := st.remember overlap
    if s.nextY st.y < s.areaYb then
      run { st' with x := toInt s.area.left, y := s.nextY st.y }
    else
      (st'.xOptimal, st'.yOptimal)
  -- Clients of negative size apart, only `hWrong` is left.
  else
    ((st.remember overlap).xOptimal, (st.remember overlap).yOptimal)
termination_by ((s.areaYb - st.y).toNat, (s.areaXr - st.x).toNat)
decreasing_by
  case _ _ hpos _ =>
    have hx := (inside_of_overlap (Int.le_of_lt hpos)).2
    have hcw := s.cw_pos
    have hnext := lt_nextX_or (s := s) (x := st.x) (y := st.y)
    simp only [State.remember_y]
    exact .right _ (by omega)
  case _ _ _ hy =>
    have hnext := lt_nextY_or (s := s) (y := st.y)
    exact .left _ _ (by omega)

end Search

def relevantClients (window : Window) (stackingOrder : List Window) (currentDesktop : Nat) : List Window :=
  let desktop := if window.isOnDesktop currentDesktop then currentDesktop else window.desktops.headD currentDesktop
  stackingOrder.filter (!isIrrelevant · window desktop)

def placeSmart (window : Window) (stackingOrder : List Window) (currentDesktop : Nat) (area : RectF) : Option Point :=
  if h : window.width ≤ 0 ∨ window.height ≤ 0 then
    .none
  else
    let s : Search := {
      clients := relevantClients window stackingOrder currentDesktop
      area
      cw := ⌈window.width⌉
      ch := ⌈window.height⌉
      cw_pos := Int.ceil_pos.mpr (not_le.mp (not_or.mp h).1)
      ch_pos := Int.ceil_pos.mpr (not_le.mp (not_or.mp h).2)
    }
    let optimal := s.run { x := toInt area.left, y := toInt area.top }
    some ⟨optimal.1, if s.isLower then optimal.2 else toInt area.top⟩

end KWin.Placement
