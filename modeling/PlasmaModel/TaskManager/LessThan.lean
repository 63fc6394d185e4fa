import Mathlib.Data.List.Nodup
import Mathlib.Data.Prod.Lex
import PlasmaModel.Lib.WeakOrder

namespace TaskManager

inductive SortMode
  | sortDisabled
  | sortManual
  | sortAlpha
  | sortVirtualDesktop
  | sortActivity
  | sortLastActivated
  | sortWindowPositionHorizontal

structure WindowGeometry where
  x     : Int
  y     : Int
  right : Int

-- The roles of a row that decide where it is sorted to. Dates that are not valid are missing.
structure SortedRow (QUrl Desktop : Type) where
  row                     : Nat
  isLauncher              : Bool := false
  isStartup               : Bool := false
  isOnAllVirtualDesktops  : Bool := false
  virtualDesktops         : List Desktop := []
  geometry                : WindowGeometry := ⟨0, 0, 0⟩
  -- The time of the row, or of the group that it is in.
  lastActivated           : Option Int := none
  -- The title read as a date.
  displayDateTime         : Option Int := none
  activities              : List String := []
  appName                 : String := ""
  display                 : String := ""
  launcherUrlWithoutIcon  : QUrl

-- Strings are compared by the sort keys of the locale.
structure TasksModelPrivate (QUrl Desktop Key : Type) where
  sortMode            : SortMode := .sortAlpha
  isRightToLeft       : Bool := false
  separateLaunchers   : Bool := true
  launchInPlace       : Bool := false
  sortedPreFilterRows : List Nat := []
  activityTaskCounts  : List (String × Int) := []
  numberOfDesktops    : Int
  position            : Desktop → UInt32
  launcherPosition    : QUrl → Int
  sortKey             : String → Key

namespace TasksModelPrivate

variable {QUrl Desktop Key : Type} [DecidableEq Desktop] [LinearOrder Key]
variable (p : TasksModelPrivate QUrl Desktop Key) (left right : SortedRow QUrl Desktop)

-- The desktop with the lowest position, the last one of these.
def nextDesktop (model : Option Desktop × Int) (desktop : Desktop) : Option Desktop × Int :=
  let desktopPos := (p.position desktop).toBitVec.toInt
  if desktopPos ≤ model.2 then (some desktop, desktopPos) else model

def getDesktop (model : SortedRow QUrl Desktop) : Option Desktop :=
  (model.virtualDesktops.foldl p.nextDesktop (none, p.numberOfDesktops)).1

def lessThanByVirtualDesktop : Option Bool :=
  if left.isOnAllVirtualDesktops && !right.isOnAllVirtualDesktops then
    some true
  else if !left.isOnAllVirtualDesktops && right.isOnAllVirtualDesktops then
    some false
  else if !left.isOnAllVirtualDesktops && !right.isOnAllVirtualDesktops then
    match p.getDesktop left, p.getDesktop right with
    | some leftDesktop, some rightDesktop =>
      if leftDesktop ≠ rightDesktop then some (p.position leftDesktop < p.position rightDesktop) else none
    | some _, none => some false
    | none, some _ => some true
    | none, none => none
  else
    none

def activityTaskCount (activity : String) : Int :=
  ((p.activityTaskCounts.find? (·.1 = activity)).map (·.2)).getD 0

def getScore (model : SortedRow QUrl Desktop) : Int :=
  model.activities.foldl (fun a activity => a + p.activityTaskCount activity) (-1)

def sumScore : Int :=
  p.activityTaskCounts.foldl (fun a count => a + count.2) 0

def sortString (model : SortedRow QUrl Desktop) : String :=
  if model.appName.isEmpty then model.display else model.appName

def localeAwareCompare (a b : String) : Ordering :=
  compare (p.sortKey a) (p.sortKey b)

def sortAlpha : Bool :=
  match p.localeAwareCompare (sortString left) (sortString right) with
  | .eq => left.row < right.row
  | .lt => true
  | .gt => false

def sortActivity : Bool :=
  let leftScore := if p.getScore left = -1 then p.sumScore else p.getScore left
  let rightScore := if p.getScore right = -1 then p.sumScore else p.getScore right
  if leftScore ≠ rightScore then leftScore > rightScore else p.sortAlpha left right

def sortVirtualDesktop : Bool :=
  (p.lessThanByVirtualDesktop left right).getD (p.sortActivity left right)

def getSortDateTime (model : SortedRow QUrl Desktop) : Option Int :=
  if model.lastActivated.isSome then model.lastActivated else model.displayDateTime

-- Dates that are not valid are before the others.
def isBefore : Option Int → Option Int → Bool
  | _, none => false
  | none, some _ => true
  | some a, some b => a < b

def sortLastActivated : Bool :=
  if getSortDateTime left ≠ getSortDateTime right then
    isBefore (getSortDateTime right) (getSortDateTime left)
  else
    p.sortVirtualDesktop left right

def sortGeometry : Bool :=
  if left.geometry.x ≠ right.geometry.x then
    if p.isRightToLeft then left.geometry.right > right.geometry.right else left.geometry.x < right.geometry.x
  else if left.geometry.y ≠ right.geometry.y then
    left.geometry.y < right.geometry.y
  else
    p.sortLastActivated left right

def sortWindowPositionHorizontal : Bool :=
  if left.isStartup && right.isStartup then
    left.row < right.row
  else if left.isStartup && !right.isStartup then
    false
  else if !left.isStartup && right.isStartup then
    true
  else
    (p.lessThanByVirtualDesktop left right).getD (p.sortGeometry left right)

def sortByMode : Bool :=
  match p.sortMode with
  | .sortDisabled => left.row < right.row
  | .sortWindowPositionHorizontal => p.sortWindowPositionHorizontal left right
  | .sortLastActivated => p.sortLastActivated left right
  | .sortVirtualDesktop => p.sortVirtualDesktop left right
  | .sortActivity => p.sortActivity left right
  | .sortAlpha | .sortManual => p.sortAlpha left right

def indexOf (row : Nat) : Int :=
  (p.sortedPreFilterRows.idxOf? row).elim (-1) Int.ofNat

def sortOthers (sortOnlyLaunchers : Bool) : Bool :=
  if sortOnlyLaunchers && !p.sortedPreFilterRows.isEmpty then
    p.indexOf left.row < p.indexOf right.row
  else
    p.sortByMode left right

def pos (model : SortedRow QUrl Desktop) : Int :=
  p.launcherPosition model.launcherUrlWithoutIcon

-- Launcher tasks go first, if there is a place for them.
def sortLaunchers : Option Bool :=
  if left.isLauncher && right.isLauncher then
    some (left.row < right.row)
  else if left.isLauncher && !right.isLauncher then
    if p.launchInPlace && p.pos right ≠ -1 then some (p.pos left < p.pos right) else some true
  else if !left.isLauncher && right.isLauncher then
    if p.launchInPlace && p.pos left ≠ -1 then some (p.pos left < p.pos right) else some false
  else if p.launchInPlace then
    if p.pos left ≠ -1 && p.pos right ≠ -1 then
      some (p.pos left < p.pos right)
    else if p.pos left ≠ -1 && p.pos right = -1 then
      some true
    else if p.pos left = -1 && p.pos right ≠ -1 then
      some false
    else
      none
  else
    none

def lessThan (sortOnlyLaunchers : Bool) : Bool :=
  if p.separateLaunchers then
    (p.sortLaunchers left right).getD (p.sortOthers left right sortOnlyLaunchers)
  else
    p.sortOthers left right sortOnlyLaunchers

-- The desktop that decides, unless the task is on all of them.
def desktopOf (model : SortedRow QUrl Desktop) : Option (Option Desktop) :=
  if model.isOnAllVirtualDesktops then none else some (p.getDesktop model)

def desktopKey : Option (Option Desktop) → ℕ ×ₗ ℕ
  | none               => toLex (0, 0)
  | some none          => toLex (1, 0)
  | some (some desktop) => toLex (2, (p.position desktop).toNat)

def activityKey (model : SortedRow QUrl Desktop) : ℤᵒᵈ ×ₗ (Key ×ₗ ℕ) :=
  toLex (OrderDual.toDual (if p.getScore model = -1 then p.sumScore else p.getScore model),
    toLex (p.sortKey (sortString model), model.row))

def dateKey : Option Int → ℕ ×ₗ ℤ
  | none      => toLex (0, 0)
  | some date => toLex (1, date)

end TasksModelPrivate

namespace TasksModelPrivate

variable {QUrl Desktop Key : Type} {p : TasksModelPrivate QUrl Desktop Key} {left right : SortedRow QUrl Desktop}
variable {S : SortedRow QUrl Desktop → Prop}

theorem activityKey_inj (h : p.activityKey left = p.activityKey right) : left.row = right.row := by
  have h := congrArg (fun k => (ofLex (ofLex k).2).2) h
  exact h

-- Two different desktops of one position, where the one has two of the rows.
def DesktopsApart (p : TasksModelPrivate QUrl Desktop Key) (a b c : SortedRow QUrl Desktop) : Prop :=
  ∀ desktop desktop', p.desktopOf a = some (some desktop) → p.desktopOf c = some (some desktop) →
    p.desktopOf b = some (some desktop') → desktop ≠ desktop' → p.position desktop ≠ p.position desktop'

theorem desktopKey_ne_iff {a b : Option (Option Desktop)} (h : a ≠ b) : p.desktopKey a ≠ p.desktopKey b ↔
    ∀ desktop desktop', a = some (some desktop) → b = some (some desktop') →
      p.position desktop ≠ p.position desktop' := by
  match a, b with
  | none, none => exact absurd rfl h
  | some none, some none => exact absurd rfl h
  | none, some none | none, some (some _) | some none, none | some none, some (some _) | some (some _), none
  | some (some _), some none => simp [desktopKey]
  | some (some desktop), some (some desktop') => simp [desktopKey, UInt32.toNat_inj]

theorem apart_desktopOf_iff {rest : SortedRow QUrl Desktop → SortedRow QUrl Desktop → Prop} :
    StrictWeak.Apart S p.desktopOf (p.desktopKey ∘ p.desktopOf) rest ↔
      ∀ a b c, S a → S b → S c → rest a c ∨ rest c a → p.DesktopsApart a b c := by
  constructor
  case mp =>
    intro h a b c ha hb hc hor desktop desktop' hda hdc hdb hne heq
    have hac : p.desktopOf a = p.desktopOf c := hda.trans hdc.symm
    have hba : p.desktopOf b ≠ p.desktopOf a := by
      rw [hda, hdb]
      exact fun hn => hne (Option.some.inj (Option.some.inj hn)).symm
    have hkey : p.desktopKey (p.desktopOf b) = p.desktopKey (p.desktopOf a) := by
      rw [hda, hdb, desktopKey, desktopKey, heq]
    rcases hor with hr | hr
    · exact h a b c ha hb hc hac hba hr ⟨(hac ▸ hkey).ge, hkey.le⟩
    · exact h c b a hc hb ha hac.symm (hac ▸ hba) hr ⟨hkey.ge, (hac ▸ hkey).le⟩
  case mpr =>
    rintro h a b c ha hb hc hac hba hr ⟨hcb, hab⟩
    have hkey : p.desktopKey (p.desktopOf a) = p.desktopKey (p.desktopOf b) :=
      le_antisymm (by rw [hac]; exact hcb) hab
    refine (desktopKey_ne_iff hba.symm).mpr (fun desktop desktop' hda hdb => ?_) hkey
    refine h a b c ha hb hc (.inl hr) desktop desktop' hda (hac ▸ hda) hdb fun hn => ?_
    rw [hda, hdb, hn] at hba
    exact hba rfl

-- Launchers and what takes their places.
def isPlaced (p : TasksModelPrivate QUrl Desktop Key) (a : SortedRow QUrl Desktop) : Bool :=
  p.separateLaunchers && (a.isLauncher || p.launchInPlace && p.pos a ≠ -1)

theorem sortLaunchers_eq (hsep : p.separateLaunchers = true) : p.sortLaunchers left right =
    if p.isPlaced left && p.isPlaced right then
      some (decide (if left.isLauncher && right.isLauncher then left.row < right.row else p.pos left < p.pos right))
    else if p.isPlaced left || p.isPlaced right then some (p.isPlaced left) else none := by
  simp only [sortLaunchers, isPlaced, hsep]
  cases hl : left.isLauncher <;> cases hr : right.isLauncher <;> cases hp : p.launchInPlace <;> simp
  all_goals
    by_cases hlp : p.pos left = -1 <;> by_cases hrp : p.pos right = -1 <;> simp [hlp, hrp]

theorem isPlaced_of_isLauncher (hsep : p.separateLaunchers = true) (h : left.isLauncher = true) :
    p.isPlaced left = true := by
  simp [isPlaced, hsep, h]

-- A window in the place of a launcher is not between two launchers that changed their places.
def LaunchersApart (p : TasksModelPrivate QUrl Desktop Key) (a b c : SortedRow QUrl Desktop) : Prop :=
  a.isLauncher = true → c.isLauncher = true → b.isLauncher = false → p.isPlaced b = true → a.row < c.row →
    ¬(p.pos c ≤ p.pos b ∧ p.pos b ≤ p.pos a)

theorem strictWeak_placed_iff (hinj : ∀ a b, S a → S b → a.row = b.row → a = b) :
    StrictWeak S (StrictWeak.ThenBy (·.isLauncher) p.pos
      fun a b => if a.isLauncher then a.row < b.row else p.pos a < p.pos b) ↔
      ∀ a b c, S a → S b → S c → a.isLauncher = true → c.isLauncher = true → b.isLauncher = false → a.row < c.row →
        ¬(p.pos c ≤ p.pos b ∧ p.pos b ≤ p.pos a) := by
  rw [StrictWeak.thenBy_iff]
  · rw [and_iff_right fun x _ => ?_]
    · simp only [StrictWeak.Apart]
      refine forall₃_congr fun a b c => forall₃_congr fun _ _ _ => ?_
      refine ⟨fun h ha hc hb hrow => ?_, fun h hac hba hrest => ?_⟩
      · refine h (ha.trans hc.symm) (by simp [ha, hb]) ?_
        rw [if_pos ha]
        exact hrow
      · cases ha : a.isLauncher
        case false =>
          rw [ha, if_neg (by simp)] at hrest
          exact fun hle => not_le_of_gt hrest (hle.1.trans hle.2)
        case true =>
          rw [ha] at hac hba hrest
          exact h ha hac.symm (by simpa using hba) hrest
    · cases hx : x.isLauncher
      case false => exact .of_key p.pos fun a b ha _ => by rw [if_neg (by simp [ha.2])]
      case true => exact .of_key (·.row) fun a b ha _ => by rw [if_pos ha.2]
  · intro a b ha hb hd hab hba
    rw [← hd] at hba
    cases hl : a.isLauncher
    case false =>
      rw [hl, if_neg (by simp), not_lt] at hab hba
      exact le_antisymm hba hab
    case true =>
      rw [hl, if_pos rfl, not_lt] at hab hba
      rw [hinj a b ha hb (le_antisymm hba hab)]

theorem lessThanByVirtualDesktop_eq [DecidableEq Desktop] : p.lessThanByVirtualDesktop left right =
    if p.desktopOf left = p.desktopOf right then none else
      some (decide (p.desktopKey (p.desktopOf left) < p.desktopKey (p.desktopOf right))) := by
  rw [lessThanByVirtualDesktop, desktopOf, desktopOf]
  cases left.isOnAllVirtualDesktops <;> cases right.isOnAllVirtualDesktops
  case false.false =>
    cases p.getDesktop left <;> cases p.getDesktop right <;>
      simp [desktopKey, Prod.Lex.toLex_lt_toLex, UInt32.lt_iff_toNat_lt]
  all_goals
    cases p.getDesktop left <;> cases p.getDesktop right <;> simp [desktopKey, Prod.Lex.toLex_lt_toLex]

variable [LinearOrder Key]

theorem sortAlpha_iff : p.sortAlpha left right = true ↔
    toLex (p.sortKey (sortString left), left.row) < toLex (p.sortKey (sortString right), right.row) := by
  rw [sortAlpha, Prod.Lex.toLex_lt_toLex, localeAwareCompare]
  cases h : compare (p.sortKey (sortString left)) (p.sortKey (sortString right)) with
  | lt => simp [compare_lt_iff_lt.mp h]
  | eq => simp [compare_eq_iff_eq.mp h]
  | gt =>
    have hlt := compare_gt_iff_gt.mp h
    simp [not_lt_of_gt hlt, ne_of_gt hlt]

theorem sortActivity_iff : p.sortActivity left right = true ↔ p.activityKey left < p.activityKey right := by
  rw [sortActivity, activityKey, activityKey, Prod.Lex.toLex_lt_toLex, ← sortAlpha_iff, OrderDual.toDual_lt_toDual]
  dsimp only
  generalize (if p.getScore left = -1 then p.sumScore else p.getScore left) = leftScore
  generalize (if p.getScore right = -1 then p.sumScore else p.getScore right) = rightScore
  by_cases heq : leftScore = rightScore
  case pos => simp [heq]
  case neg => simp [heq]

theorem strictWeak_sortActivity : StrictWeak S (fun a b => p.sortActivity a b = true) :=
  .of_key p.activityKey fun _ _ _ _ => sortActivity_iff

theorem sortActivity_total (h : left.row ≠ right.row) :
    p.sortActivity left right = true ∨ p.sortActivity right left = true := by
  rw [sortActivity_iff, sortActivity_iff]
  exact lt_or_gt_of_ne fun heq => h (activityKey_inj heq)

theorem sortActivity_or_iff (hinj : ∀ a b, S a → S b → a.row = b.row → a = b) (ha : S left) (hb : S right) :
    p.sortActivity left right = true ∨ p.sortActivity right left = true ↔ left ≠ right := by
  refine ⟨?_, fun hne => sortActivity_total fun hrow => hne (hinj left right ha hb hrow)⟩
  rintro h rfl
  exact strictWeak_sortActivity.irrefl left ha (h.elim id id)

variable [DecidableEq Desktop]

theorem sortVirtualDesktop_iff : p.sortVirtualDesktop left right = true ↔
    StrictWeak.ThenBy p.desktopOf (p.desktopKey ∘ p.desktopOf) (fun a b => p.sortActivity a b = true) left right := by
  rw [sortVirtualDesktop, lessThanByVirtualDesktop_eq, StrictWeak.ThenBy]
  by_cases heq : p.desktopOf left = p.desktopOf right
  case pos => simp [heq]
  case neg => simp [heq]

theorem isBefore_iff {a b : Option Int} : isBefore a b = true ↔ dateKey a < dateKey b := by
  cases a <;> cases b <;> simp [isBefore, dateKey, Prod.Lex.toLex_lt_toLex]

theorem dateKey_inj {a b : Option Int} : dateKey a = dateKey b ↔ a = b := by
  cases a <;> cases b <;> simp [dateKey]

theorem sortLastActivated_iff : p.sortLastActivated left right = true ↔
    StrictWeak.ThenBy (OrderDual.toDual ∘ dateKey ∘ getSortDateTime) (OrderDual.toDual ∘ dateKey ∘ getSortDateTime)
      (fun a b => p.sortVirtualDesktop a b = true) left right := by
  simp only [sortLastActivated, StrictWeak.ThenBy, Function.comp_apply, OrderDual.toDual_lt_toDual,
    OrderDual.toDual_inj, dateKey_inj, ← isBefore_iff]
  by_cases heq : getSortDateTime left = getSortDateTime right
  case pos => simp [heq]
  case neg => simp [heq, dateKey_inj]

theorem sortGeometry_iff : p.sortGeometry left right = true ↔
    StrictWeak.ThenBy (·.geometry.x)
      (fun a => if p.isRightToLeft then -a.geometry.right else a.geometry.x)
      (StrictWeak.ThenBy (·.geometry.y) (·.geometry.y) fun a b => p.sortLastActivated a b = true) left right := by
  simp only [sortGeometry, StrictWeak.ThenBy]
  by_cases hx : left.geometry.x = right.geometry.x
  case pos =>
    by_cases hy : left.geometry.y = right.geometry.y
    case pos => simp [hx, hy]
    case neg => simp [hx, hy]
  case neg => cases hr : p.isRightToLeft <;> simp [hx]

theorem sortWindowPositionHorizontal_iff : p.sortWindowPositionHorizontal left right = true ↔
    StrictWeak.ThenBy (·.isStartup) (·.isStartup)
      (fun a b => if a.isStartup then a.row < b.row else
        StrictWeak.ThenBy p.desktopOf (p.desktopKey ∘ p.desktopOf) (fun a b => p.sortGeometry a b = true) a b)
      left right := by
  rw [sortWindowPositionHorizontal, lessThanByVirtualDesktop_eq]
  simp only [StrictWeak.ThenBy]
  cases hl : left.isStartup <;> cases hr : right.isStartup <;> simp
  by_cases heq : p.desktopOf left = p.desktopOf right
  case pos => simp [heq]
  case neg => simp [heq]

-- Rows that are compared by their desktops.
def comparesDesktops (p : TasksModelPrivate QUrl Desktop Key) (a b : SortedRow QUrl Desktop) : Prop :=
  match p.sortMode with
  | .sortVirtualDesktop => True
  | .sortLastActivated => getSortDateTime a = getSortDateTime b
  | .sortWindowPositionHorizontal => a.isStartup = false ∧ b.isStartup = false
  | _ => False

theorem strictWeak_sortVirtualDesktop_iff : StrictWeak S (fun a b => p.sortVirtualDesktop a b = true) ↔
    StrictWeak.Apart S p.desktopOf (p.desktopKey ∘ p.desktopOf) fun a b => p.sortActivity a b = true := by
  rw [StrictWeak.congr fun a b _ _ => sortVirtualDesktop_iff, StrictWeak.thenBy_iff]
  · exact and_iff_right fun x _ => strictWeak_sortActivity
  · intro a b _ _ heq _ _
    rw [Function.comp_apply, Function.comp_apply, heq]

theorem strictWeak_sortLastActivated_iff : StrictWeak S (fun a b => p.sortLastActivated a b = true) ↔
    ∀ x, S x → StrictWeak.Apart (fun a => S a ∧ getSortDateTime a = getSortDateTime x) p.desktopOf
      (p.desktopKey ∘ p.desktopOf) fun a b => p.sortActivity a b = true := by
  rw [StrictWeak.congr fun a b _ _ => sortLastActivated_iff, StrictWeak.thenBy_key_iff]
  simp only [Function.comp_apply, OrderDual.toDual_inj, dateKey_inj, strictWeak_sortVirtualDesktop_iff]

-- On one desktop, rows with the same left edge are in order.
theorem strictWeak_sortY (hd : ∀ a b, S a → S b → p.desktopOf a = p.desktopOf b) :
    StrictWeak S (StrictWeak.ThenBy (·.geometry.y) (·.geometry.y) fun a b => p.sortLastActivated a b = true) := by
  refine StrictWeak.thenBy_key_iff.mpr fun x _ => strictWeak_sortLastActivated_iff.mpr fun y _ => ?_
  exact fun a b c ha hb _ _ hba _ _ => hba (hd b a hb.1.1 ha.1.1)

theorem sortLastActivated_total (hrow : left.row ≠ right.row) (hd : p.desktopOf left = p.desktopOf right) :
    p.sortLastActivated left right = true ∨ p.sortLastActivated right left = true := by
  rw [sortLastActivated_iff, sortLastActivated_iff]
  simp only [StrictWeak.ThenBy, sortVirtualDesktop_iff, hd, true_and, ne_eq, not_true_eq_false, false_and, or_false]
  rcases lt_trichotomy ((OrderDual.toDual ∘ dateKey ∘ getSortDateTime) left)
    ((OrderDual.toDual ∘ dateKey ∘ getSortDateTime) right) with h | h | h
  · exact .inl (.inr ⟨ne_of_lt h, h⟩)
  · exact (sortActivity_total hrow).imp (fun ht => .inl ⟨h, ht⟩) fun ht => .inl ⟨h.symm, ht⟩
  · exact .inr (.inr ⟨ne_of_lt h, h⟩)

theorem sortY_total (hrow : left.row ≠ right.row) (hd : p.desktopOf left = p.desktopOf right) :
    StrictWeak.ThenBy (·.geometry.y) (·.geometry.y) (fun a b => p.sortLastActivated a b = true) left right ∨
      StrictWeak.ThenBy (·.geometry.y) (·.geometry.y) (fun a b => p.sortLastActivated a b = true) right left := by
  rcases lt_trichotomy left.geometry.y right.geometry.y with h | h | h
  · exact .inl (.inr ⟨ne_of_lt h, h⟩)
  · exact (sortLastActivated_total hrow hd).imp (fun ht => .inl ⟨h, ht⟩) fun ht => .inl ⟨h.symm, ht⟩
  · exact .inr (.inr ⟨ne_of_lt h, h⟩)

-- The rows are written from right to left, and neither reaches farther.
def Tied (p : TasksModelPrivate QUrl Desktop Key) (a c : SortedRow QUrl Desktop) : Prop :=
  p.sortMode = .sortWindowPositionHorizontal ∧ p.isRightToLeft = true ∧ a.geometry.x ≠ c.geometry.x ∧
    a.geometry.right = c.geometry.right

theorem sortGeometry_total_iff (hrow : left.row ≠ right.row) (hd : p.desktopOf left = p.desktopOf right)
    (hmode : p.sortMode = .sortWindowPositionHorizontal) :
    (p.sortGeometry left right = true ∨ p.sortGeometry right left = true) ↔ ¬p.Tied left right := by
  rw [sortGeometry_iff, sortGeometry_iff, Tied, and_iff_right hmode]
  by_cases hx : left.geometry.x = right.geometry.x
  case pos =>
    refine iff_of_true ((sortY_total hrow hd).imp (fun h => .inl ⟨hx, h⟩) fun h => .inl ⟨hx.symm, h⟩) ?_
    exact fun hn => hn.2.1 hx
  case neg =>
    simp only [StrictWeak.ThenBy, hx, Ne.symm hx, false_and, false_or, ne_eq, not_false_eq_true, true_and]
    cases p.isRightToLeft
    case false => simpa using lt_or_gt_of_ne hx
    case true => simp [eq_comm]

-- What is written from right to left is told apart by the left edges, and ordered by the right ones.
theorem strictWeak_sortGeometry_iff (hinj : ∀ a b, S a → S b → a.row = b.row → a = b)
    (hd : ∀ a b, S a → S b → p.desktopOf a = p.desktopOf b) :
    StrictWeak S (fun a b => p.sortGeometry a b = true) ↔ (p.isRightToLeft = true →
      ∀ a b c, S a → S b → S c → a.geometry.x = c.geometry.x → b.geometry.x ≠ a.geometry.x →
        StrictWeak.ThenBy (·.geometry.y) (·.geometry.y) (fun a b => p.sortLastActivated a b = true) a c →
          ¬(a.geometry.right ≤ b.geometry.right ∧ b.geometry.right ≤ c.geometry.right)) := by
  rw [StrictWeak.congr fun a b _ _ => sortGeometry_iff, StrictWeak.thenBy_iff]
  · rw [and_iff_right fun x _ => strictWeak_sortY fun a b ha hb => hd a b ha.1 hb.1]
    cases p.isRightToLeft
    case false =>
      refine iff_of_true (fun a b c _ _ _ hac hba _ hle => hba ?_) (by simp)
      exact le_antisymm hle.2 (hac.le.trans hle.1)
    case true => simp only [StrictWeak.Apart, if_true, Int.neg_le_neg_iff, and_comm, forall_const]
  · intro a b ha hb hx hab hba
    by_cases hrow : a.row = b.row
    case pos => rw [hinj a b ha hb hrow]
    case neg => exact absurd (sortY_total hrow (hd a b ha hb)) (not_or.mpr ⟨hab, hba⟩)

theorem strictWeak_sortWindowPositionHorizontal_iff :
    StrictWeak S (fun a b => p.sortWindowPositionHorizontal a b = true) ↔
    (∀ x, S x → x.isStartup = false → StrictWeak (fun a => (S a ∧ a.isStartup = false) ∧ p.desktopOf a = p.desktopOf x)
      fun a b => p.sortGeometry a b = true) ∧
    ∀ a b c, (S a ∧ a.isStartup = false) → (S b ∧ b.isStartup = false) → (S c ∧ c.isStartup = false) →
      p.sortGeometry a c = true ∨ p.sortGeometry c a = true → p.DesktopsApart a b c := by
  -- The startup tasks are in the order of their rows.
  have hstartup : StrictWeak S (fun a b => p.sortWindowPositionHorizontal a b = true) ↔
      StrictWeak (fun a => S a ∧ a.isStartup = false)
        (StrictWeak.ThenBy p.desktopOf (p.desktopKey ∘ p.desktopOf) fun a b => p.sortGeometry a b = true) := by
    rw [StrictWeak.congr fun a b _ _ => sortWindowPositionHorizontal_iff, StrictWeak.thenBy_key_iff]
    have hrest : ∀ a b : SortedRow QUrl Desktop, a.isStartup = false →
        ((if a.isStartup then a.row < b.row else StrictWeak.ThenBy p.desktopOf (p.desktopKey ∘ p.desktopOf)
          (fun a b => p.sortGeometry a b = true) a b) ↔ StrictWeak.ThenBy p.desktopOf (p.desktopKey ∘ p.desktopOf)
            (fun a b => p.sortGeometry a b = true) a b) := fun a b ha => by rw [if_neg (by simp [ha])]
    refine ⟨fun h => .of_mem fun x hx => ?_, fun h x hx => ?_⟩
    · refine (StrictWeak.congr fun a b ha _ => hrest a b ha.2).mp ((h x hx.1).mono fun a ha => ?_)
      exact ⟨ha.1, ha.2.trans hx.2.symm⟩
    · cases hs : x.isStartup
      case false =>
        refine (StrictWeak.congr fun a b ha _ => hrest a b ha.2).mpr (h.mono fun a ha => ?_)
        exact ⟨ha.1, ha.2⟩
      case true => exact .of_key (·.row) fun a b ha _ => by rw [if_pos ha.2]
  rw [hstartup, StrictWeak.thenBy_iff, apart_desktopOf_iff]
  · exact and_congr_left fun _ => ⟨fun h x hx hs => h x ⟨hx, hs⟩, fun h x hx => h x hx.1 hx.2⟩
  · intro a b _ _ heq _ _
    rw [Function.comp_apply, Function.comp_apply, heq]

-- The order of the windows on one desktop which start at the same left edge.
def columnKey (model : SortedRow QUrl Desktop) : ℤ ×ₗ ((ℕ ×ₗ ℤ)ᵒᵈ ×ₗ (ℤᵒᵈ ×ₗ (Key ×ₗ ℕ))) :=
  toLex (model.geometry.y, toLex (OrderDual.toDual (dateKey (getSortDateTime model)), p.activityKey model))

theorem columnKey_lt_iff (hd : p.desktopOf left = p.desktopOf right) : p.columnKey left < p.columnKey right ↔
    StrictWeak.ThenBy (·.geometry.y) (·.geometry.y) (fun a b => p.sortLastActivated a b = true) left right := by
  simp only [columnKey, Prod.Lex.toLex_lt_toLex, StrictWeak.ThenBy, sortLastActivated_iff, sortVirtualDesktop_iff, hd,
    true_and, ne_eq, not_true_eq_false, false_and, or_false, sortActivity_iff, Function.comp_apply]
  rw [or_comm (a := left.geometry.y < right.geometry.y)]
  refine or_congr (and_congr_right fun _ => ?_) ⟨fun h => ⟨ne_of_lt h, h⟩, fun h => h.2⟩
  rw [or_comm]
  exact or_congr Iff.rfl ⟨fun h => ⟨ne_of_lt h, h⟩, fun h => h.2⟩

-- A window that starts elsewhere does not end between the ends of two windows of one column.
def EdgesApart (p : TasksModelPrivate QUrl Desktop Key) (a b c : SortedRow QUrl Desktop) : Prop :=
  a.geometry.x = c.geometry.x → b.geometry.x ≠ a.geometry.x → p.columnKey a < p.columnKey c →
    ¬(a.geometry.right ≤ b.geometry.right ∧ b.geometry.right ≤ c.geometry.right)

theorem sortGeometry_or_iff (hinj : ∀ a b, S a → S b → a.row = b.row → a = b) (ha : S left) (hb : S right)
    (hd : p.desktopOf left = p.desktopOf right) (hmode : p.sortMode = .sortWindowPositionHorizontal) :
    p.sortGeometry left right = true ∨ p.sortGeometry right left = true ↔ left ≠ right ∧ ¬p.Tied left right := by
  by_cases hrow : left.row = right.row
  case pos =>
    cases hinj left right ha hb hrow
    simp only [or_self, ne_eq, not_true_eq_false, false_and, iff_false, sortGeometry_iff]
    simp [StrictWeak.ThenBy, sortLastActivated_iff, sortVirtualDesktop_iff, sortActivity_iff]
  case neg =>
    have hne : left ≠ right := fun heq => hrow (by rw [heq])
    rw [sortGeometry_total_iff hrow hd hmode, and_iff_right hne]

theorem strictWeak_sortByMode_iff (hinj : ∀ a b, S a → S b → a.row = b.row → a = b) :
    StrictWeak S (fun a b => p.sortByMode a b = true) ↔
      (∀ a b c, S a → S b → S c → p.comparesDesktops a b → p.comparesDesktops a c → a ≠ c → ¬p.Tied a c →
        p.DesktopsApart a b c) ∧
      (p.sortMode = .sortWindowPositionHorizontal → p.isRightToLeft = true → ∀ a b c, S a → S b → S c →
        p.comparesDesktops a b → p.comparesDesktops a c → p.desktopOf a = p.desktopOf b →
          p.desktopOf a = p.desktopOf c → p.EdgesApart a b c) := by
  cases hmode : p.sortMode
  case sortVirtualDesktop =>
    simp only [sortByMode, hmode, comparesDesktops, Tied, reduceCtorEq, false_and, not_false_eq_true, forall_const,
      IsEmpty.forall_iff, and_true, strictWeak_sortVirtualDesktop_iff, apart_desktopOf_iff]
    refine forall₃_congr fun a b c => forall₃_congr fun ha hb hc => ?_
    rw [sortActivity_or_iff hinj ha hc]
  case sortLastActivated =>
    simp only [sortByMode, hmode, comparesDesktops, Tied, reduceCtorEq, false_and, not_false_eq_true, forall_const,
      IsEmpty.forall_iff, and_true, strictWeak_sortLastActivated_iff, apart_desktopOf_iff]
    constructor
    case mp =>
      intro h a b c ha hb hc hab hac hne
      exact h a ha a b c ⟨ha, rfl⟩ ⟨hb, hab.symm⟩ ⟨hc, hac.symm⟩ ((sortActivity_or_iff hinj ha hc).mpr hne)
    case mpr =>
      intro h x _ a b c ha hb hc hor
      refine h a b c ha.1 hb.1 hc.1 (ha.2.trans hb.2.symm) (ha.2.trans hc.2.symm) ?_
      exact (sortActivity_or_iff hinj ha.1 hc.1).mp hor
  case sortWindowPositionHorizontal =>
    simp only [sortByMode, hmode, comparesDesktops, forall_const, strictWeak_sortWindowPositionHorizontal_iff]
    rw [and_comm]
    refine and_congr ⟨fun h => ?_, fun h => ?_⟩ ⟨fun h => ?_, fun h => ?_⟩
    · intro a b c ha hb hc hab hac hne ht desktop desktop' hda hdc
      refine h a b c ⟨ha, hab.1⟩ ⟨hb, hab.2⟩ ⟨hc, hac.2⟩ ?_ desktop desktop' hda hdc
      exact (sortGeometry_or_iff hinj ha hc (hda.trans hdc.symm) hmode).mpr ⟨hne, ht⟩
    · intro a b c ha hb hc hor desktop desktop' hda hdc
      have ⟨hne, ht⟩ := (sortGeometry_or_iff hinj ha.1 hc.1 (hda.trans hdc.symm) hmode).mp hor
      exact h a b c ha.1 hb.1 hc.1 ⟨ha.2, hb.2⟩ ⟨ha.2, hc.2⟩ hne ht desktop desktop' hda hdc
    · intro hr a b c ha hb hc hab hac hdab hdac hx hne hy
      have h := (strictWeak_sortGeometry_iff (fun a b ha hb => hinj a b ha.1.1 hb.1.1)
        fun a b ha hb => ha.2.trans hb.2.symm).mp (h a ha hab.1) hr
      refine h a b c ⟨⟨ha, hab.1⟩, rfl⟩ ⟨⟨hb, hab.2⟩, hdab.symm⟩ ⟨⟨hc, hac.2⟩, hdac.symm⟩ hx hne ?_
      exact (columnKey_lt_iff hdac).mp hy
    · intro x _ _
      refine (strictWeak_sortGeometry_iff (fun a b ha hb => hinj a b ha.1.1 hb.1.1)
        fun a b ha hb => ha.2.trans hb.2.symm).mpr fun hr a b c ha hb hc hx hne hy => ?_
      refine h hr a b c ha.1.1 hb.1.1 hc.1.1 ⟨ha.1.2, hb.1.2⟩ ⟨ha.1.2, hc.1.2⟩ (ha.2.trans hb.2.symm)
        (ha.2.trans hc.2.symm) hx hne ?_
      exact (columnKey_lt_iff (ha.2.trans hc.2.symm)).mpr hy
  all_goals
    simp only [sortByMode, hmode, comparesDesktops, reduceCtorEq, IsEmpty.forall_iff, implies_true, and_true, iff_true]
  case sortDisabled => exact .of_key (·.row) fun a b _ _ => decide_eq_true_iff
  case sortActivity => exact strictWeak_sortActivity
  all_goals exact .of_key (fun a => toLex (p.sortKey (sortString a), a.row)) fun _ _ _ _ => sortAlpha_iff

theorem lessThan_iff {sortOnlyLaunchers : Bool} : p.lessThan left right sortOnlyLaunchers = true ↔
    StrictWeak.ThenBy (fun a => !p.isPlaced a) (fun a => !p.isPlaced a)
      (fun a b => if p.isPlaced a then
        StrictWeak.ThenBy (·.isLauncher) p.pos
          (fun a b => if a.isLauncher then a.row < b.row else p.pos a < p.pos b) a b
      else p.sortOthers a b sortOnlyLaunchers = true) left right := by
  rw [lessThan, StrictWeak.ThenBy]
  cases hsep : p.separateLaunchers
  case false => simp [isPlaced, hsep]
  case true =>
    rw [if_pos rfl, sortLaunchers_eq hsep, StrictWeak.ThenBy]
    cases p.isPlaced left <;> cases p.isPlaced right <;> simp
    cases left.isLauncher <;> cases right.isLauncher <;> simp

theorem strictWeak_sortOthers_iff {sortOnlyLaunchers : Bool} :
    StrictWeak S (fun a b => p.sortOthers a b sortOnlyLaunchers = true) ↔
      ((sortOnlyLaunchers && !p.sortedPreFilterRows.isEmpty) = false →
        StrictWeak S fun a b => p.sortByMode a b = true) := by
  simp only [sortOthers]
  cases hs : sortOnlyLaunchers && !p.sortedPreFilterRows.isEmpty
  case false => simp
  case true =>
    refine iff_of_true (.of_key (fun a => p.indexOf a.row) fun a b _ _ => ?_) (by simp)
    rw [if_pos rfl, decide_eq_true_iff]

end TasksModelPrivate

-- The rows of a model or of a group.
structure SortedRows (QUrl Desktop : Type) where
  rows  : List (SortedRow QUrl Desktop)
  nodup : (rows.map (·.row)).Nodup

namespace TasksModelPrivate

variable {QUrl Desktop Key : Type} [DecidableEq Desktop] [LinearOrder Key]

-- The rows that are compared by the sort mode.
def sortsByMode (p : TasksModelPrivate QUrl Desktop Key) (sortOnlyLaunchers : Bool)
    (a : SortedRow QUrl Desktop) : Bool :=
  !p.isPlaced a && !(sortOnlyLaunchers && !p.sortedPreFilterRows.isEmpty)

structure Orderable (p : TasksModelPrivate QUrl Desktop Key) (S : SortedRow QUrl Desktop → Prop)
    (sortOnlyLaunchers : Bool) : Prop where
  launchers : ∀ a b c, S a → S b → S c → p.LaunchersApart a b c
  desktops  : ∀ a b c, S a → S b → S c → p.sortsByMode sortOnlyLaunchers a = true →
    p.sortsByMode sortOnlyLaunchers b = true → p.sortsByMode sortOnlyLaunchers c = true →
      p.comparesDesktops a b → p.comparesDesktops a c → a ≠ c → ¬p.Tied a c → p.DesktopsApart a b c
  edges     : p.sortMode = .sortWindowPositionHorizontal → p.isRightToLeft = true → ∀ a b c, S a → S b → S c →
    p.sortsByMode sortOnlyLaunchers a = true → p.sortsByMode sortOnlyLaunchers b = true →
      p.sortsByMode sortOnlyLaunchers c = true → p.comparesDesktops a b → p.comparesDesktops a c →
        p.desktopOf a = p.desktopOf b → p.desktopOf a = p.desktopOf c → p.EdgesApart a b c

variable {p : TasksModelPrivate QUrl Desktop Key} {S : SortedRow QUrl Desktop → Prop} {sortOnlyLaunchers : Bool}

omit [DecidableEq Desktop] [LinearOrder Key] in
theorem sortsByMode_iff {a : SortedRow QUrl Desktop} : p.sortsByMode sortOnlyLaunchers a = true ↔
    p.isPlaced a = false ∧ (sortOnlyLaunchers && !p.sortedPreFilterRows.isEmpty) = false := by
  rw [sortsByMode, Bool.and_eq_true_iff, Bool.not_eq_true', Bool.not_eq_true']

-- What is placed comes first.
theorem strictWeak_lessThan_iff_split : StrictWeak S (fun a b => p.lessThan a b sortOnlyLaunchers = true) ↔
    StrictWeak (fun a => S a ∧ p.isPlaced a = true) (StrictWeak.ThenBy (·.isLauncher) p.pos
      fun a b => if a.isLauncher then a.row < b.row else p.pos a < p.pos b) ∧
    StrictWeak (fun a => S a ∧ p.isPlaced a = false) fun a b => p.sortOthers a b sortOnlyLaunchers = true := by
  rw [StrictWeak.congr fun a b _ _ => lessThan_iff, StrictWeak.thenBy_key_iff]
  simp only [Bool.not_inj_iff]
  constructor
  case mp =>
    refine fun h => ⟨.of_mem fun x hx => ?_, .of_mem fun x hx => ?_⟩
    · refine (StrictWeak.congr fun a b ha _ => ?_).mp ((h x hx.1).mono fun a ha => ⟨ha.1, ha.2.trans hx.2.symm⟩)
      rw [if_pos ha.2]
    · refine (StrictWeak.congr fun a b ha _ => ?_).mp ((h x hx.1).mono fun a ha => ⟨ha.1, ha.2.trans hx.2.symm⟩)
      rw [if_neg (by simp [ha.2])]
  case mpr =>
    rintro ⟨hplaced, hothers⟩ x hx
    cases hp : p.isPlaced x
    case true =>
      refine (StrictWeak.congr fun a b ha _ => ?_).mpr hplaced
      rw [if_pos ha.2]
    case false =>
      refine (StrictWeak.congr fun a b ha _ => ?_).mpr hothers
      rw [if_neg (by simp [ha.2])]

theorem strictWeak_lessThan_iff_orderable (hinj : ∀ a b, S a → S b → a.row = b.row → a = b) :
    StrictWeak S (fun a b => p.lessThan a b sortOnlyLaunchers = true) ↔ p.Orderable S sortOnlyLaunchers := by
  rw [strictWeak_lessThan_iff_split, strictWeak_placed_iff fun a b ha hb => hinj a b ha.1 hb.1,
    strictWeak_sortOthers_iff, strictWeak_sortByMode_iff fun a b ha hb => hinj a b ha.1 hb.1]
  constructor
  case mp =>
    rintro ⟨hlaunchers, hmode⟩
    constructor
    case launchers =>
      intro a b c ha hb hc hla hlc hlb hpb hrow
      have hsep : p.separateLaunchers = true := (Bool.and_eq_true_iff.mp hpb).1
      exact hlaunchers a b c ⟨ha, isPlaced_of_isLauncher hsep hla⟩ ⟨hb, hpb⟩ ⟨hc, isPlaced_of_isLauncher hsep hlc⟩
        hla hlc hlb hrow
    case desktops =>
      intro a b c ha hb hc hsa hsb hsc
      have ⟨⟨hpa, hs⟩, ⟨hpb, _⟩, ⟨hpc, _⟩⟩ := And.intro (sortsByMode_iff.mp hsa)
        (And.intro (sortsByMode_iff.mp hsb) (sortsByMode_iff.mp hsc))
      exact (hmode hs).1 a b c ⟨ha, hpa⟩ ⟨hb, hpb⟩ ⟨hc, hpc⟩
    case edges =>
      intro hm hr a b c ha hb hc hsa hsb hsc
      have ⟨⟨hpa, hs⟩, ⟨hpb, _⟩, ⟨hpc, _⟩⟩ := And.intro (sortsByMode_iff.mp hsa)
        (And.intro (sortsByMode_iff.mp hsb) (sortsByMode_iff.mp hsc))
      exact (hmode hs).2 hm hr a b c ⟨ha, hpa⟩ ⟨hb, hpb⟩ ⟨hc, hpc⟩
  case mpr =>
    refine fun h => ⟨fun a b c ha hb hc hla hlc hlb hrow => ?_, fun hs => ⟨fun a b c ha hb hc => ?_, ?_⟩⟩
    · exact h.launchers a b c ha.1 hb.1 hc.1 hla hlc hlb hb.2 hrow
    · exact h.desktops a b c ha.1 hb.1 hc.1 (sortsByMode_iff.mpr ⟨ha.2, hs⟩) (sortsByMode_iff.mpr ⟨hb.2, hs⟩)
        (sortsByMode_iff.mpr ⟨hc.2, hs⟩)
    · intro hm hr a b c ha hb hc
      exact h.edges hm hr a b c ha.1 hb.1 hc.1 (sortsByMode_iff.mpr ⟨ha.2, hs⟩) (sortsByMode_iff.mpr ⟨hb.2, hs⟩)
        (sortsByMode_iff.mpr ⟨hc.2, hs⟩)

theorem strictWeak_lessThan_iff (p : TasksModelPrivate QUrl Desktop Key) (rows : SortedRows QUrl Desktop)
    (sortOnlyLaunchers : Bool) : StrictWeak (· ∈ rows.rows) (fun a b => p.lessThan a b sortOnlyLaunchers = true) ↔
      p.Orderable (· ∈ rows.rows) sortOnlyLaunchers :=
  strictWeak_lessThan_iff_orderable fun _ _ ha hb h => List.inj_on_of_nodup_map rows.nodup ha hb h

-- Two windows of one column, and one that starts to the right of it, where all end at the same edge.
def columnRows : SortedRows Unit Unit where
  rows := [
    { row := 0, geometry := ⟨0, 0, 9⟩, launcherUrlWithoutIcon := () },
    { row := 1, geometry := ⟨5, 0, 9⟩, launcherUrlWithoutIcon := () },
    { row := 2, geometry := ⟨0, 5, 9⟩, launcherUrlWithoutIcon := () }
  ]
  nodup := by decide

def rightToLeft : TasksModelPrivate Unit Unit ℕ where
  sortMode         := .sortWindowPositionHorizontal
  isRightToLeft    := true
  numberOfDesktops := 1
  position         := fun _ => 0
  launcherPosition := fun _ => -1
  sortKey          := String.length

theorem not_strictWeak_rightToLeft :
    ¬StrictWeak (· ∈ columnRows.rows) fun a b => rightToLeft.lessThan a b false = true := by
  intro h
  have hmem : ∀ i : Fin 3, columnRows.rows[i] ∈ columnRows.rows := fun i => List.getElem_mem _
  refine absurd (h.incomp _ _ _ (hmem 0) (hmem 1) (hmem 2) ?_ ?_ ?_ ?_).1 ?_
  all_goals decide

end TasksModelPrivate
end TaskManager
