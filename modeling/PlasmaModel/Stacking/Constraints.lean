import Mathlib.Logic.Relation
import PlasmaModel.Lib.Runs
import PlasmaModel.Stacking.Basic

namespace KWin

abbrev ConstraintPtr := Nat

-- The flag `enqueued` is only used while the stacking order is computed, which leaves the links alone.
structure ConstraintNode (Window : Type) extends Constraint Window where
  -- All constraints above our "below" window.
  parents  : List ConstraintPtr := []
  -- All constraints below our "above" window.
  children : List ConstraintPtr := []

-- A missing node is one that is deleted, or that has not been allocated yet.
structure Constraints (Window : Type) where
  nodes       : ConstraintPtr → Option (ConstraintNode Window) := fun _ => none
  constraints : List ConstraintPtr := []
  -- The windows that have not been constrained since they were removed.
  removed     : List Window := []

namespace Constraints

variable {Window : Type} [DecidableEq Window] (s : Constraints Window)

def set (p : ConstraintPtr) (node : Option (ConstraintNode Window)) : Constraints Window :=
  { s with nodes := fun q => if q = p then node else s.nodes q }

def modify (f : ConstraintNode Window → ConstraintNode Window) (p : ConstraintPtr) : Option (Constraints Window) := do
  let node ← s.nodes p
  return s.set p (f node)

def modifyAll (f : ConstraintNode Window → ConstraintNode Window) :
    List ConstraintPtr → Constraints Window → Option (Constraints Window)
  | [], s => some s
  | p :: ps, s => (s.modify f p).bind (modifyAll f ps)

-- The parents and the children of a new constraint, unless there is one already.
def collect (below above : Window) (parents children : List ConstraintPtr) :
    List ConstraintPtr → Option (Option (List ConstraintPtr × List ConstraintPtr))
  | [] => some (some (parents, children))
  | p :: ps => do
    let constraint ← s.nodes p
    if constraint.below = below ∧ constraint.above = above then
      some none
    else if constraint.below = above then
      collect below above parents (children ++ [p]) ps
    else if constraint.above = below then
      collect below above (parents ++ [p]) children ps
    else
      collect below above parents children ps

def addChild (p : ConstraintPtr) (node : ConstraintNode Window) : ConstraintNode Window :=
  { node with children := node.children ++ [p] }

def addParent (p : ConstraintPtr) (node : ConstraintNode Window) : ConstraintNode Window :=
  { node with parents := node.parents ++ [p] }

def removeChild (p : ConstraintPtr) (node : ConstraintNode Window) : ConstraintNode Window :=
  { node with children := node.children.erase p }

def removeParent (p : ConstraintPtr) (node : ConstraintNode Window) : ConstraintNode Window :=
  { node with parents := node.parents.erase p }

-- Adds the constraint at the address.
def link (address : ConstraintPtr) (constraint : ConstraintNode Window) : Option (Constraints Window) :=
  let s := { s.set address (some constraint) with
    constraints := s.constraints ++ [address]
    removed := s.removed.filter fun window => window ≠ constraint.below ∧ window ≠ constraint.above }
  (modifyAll (addChild address) constraint.parents s).bind (modifyAll (addParent address) constraint.children)

def constrain (address : ConstraintPtr) (below above : Window) : Option (Constraints Window) :=
  if below = above then
    some s
  else do
    match ← s.collect below above [] [] s.constraints with
    | none => return s
    | some (parents, children) => s.link address { below, above, parents, children }

def find (below above : Window) : List ConstraintPtr → Option (Option ConstraintPtr)
  | [] => some none
  | p :: ps => do
    let constraint ← s.nodes p
    if constraint.below = below ∧ constraint.above = above then return some p else find below above ps

def unconstrain (below above : Window) : Option (Constraints Window) := do
  match ← s.find below above s.constraints with
  | none => return s
  | some p =>
    let s := { s with constraints := s.constraints.erase p }
    let constraint ← s.nodes p
    let s ← modifyAll (removeChild p) constraint.parents s
    let s ← modifyAll (removeParent p) constraint.children s
    return s.set p none

-- The constraints below the index, from the last one to the first one.
def removeConstraints (window : Window) : Nat → Constraints Window → Option (Constraints Window)
  | 0, s => some s
  | i + 1, s => do
    let p ← s.constraints[i]?
    let constraint ← s.nodes p
    if constraint.below ≠ window ∧ constraint.above ≠ window then
      removeConstraints window i s
    else
      let s ←
        if constraint.below = window then
          modifyAll (removeParent p) constraint.children s
        else
          modifyAll (removeChild p) constraint.parents s
      removeConstraints window i { s.set p none with constraints := s.constraints.eraseIdx i }

def removeFromStack (window : Window) : Option (Constraints Window) := do
  let s ← removeConstraints window s.constraints.length s
  return { s with removed := window :: s.removed }

-- The recursion is at most as deep as the fuel.
def areConstrained (above : Window) : Nat → Window → Option Bool
  | 0, _ => none
  | fuel + 1, below => s.constraints.anyM fun p => do
    let constraint ← s.nodes p
    if constraint.below = below then
      if constraint.above = above then
        return true
      else
        constraint.children.anyM fun q => do
          let child ← s.nodes q
          areConstrained above fuel child.below
    else
      return false

inductive Event (Window : Type)
  | constrain (address : ConstraintPtr) (below above : Window)
  | unconstrain (below above : Window)
  | removeFromStack (window : Window)

-- A new constraint gets an address that is not in use.
def step : Event Window → Option (Constraints Window)
  | .constrain address below above => if (s.nodes address).isSome then none else s.constrain address below above
  | .unconstrain below above => s.unconstrain below above
  | .removeFromStack window => s.removeFromStack window

-- The second window has to be above the first one.
def Above (below above : Window) : Prop :=
  ∃ p ∈ s.constraints, ∃ node, s.nodes p = some node ∧ node.below = below ∧ node.above = above

def Acyclic : Prop :=
  ∀ window, ¬Relation.TransGen s.Above window window

-- The runs that keep the relation acyclic.
abbrev Reachable (s : Constraints Window) : Prop :=
  Machine.Reaches step (fun s event => ∀ s', s.step event = some s' → s'.Acyclic) {} s

def isBelow (window : Window) (p : ConstraintPtr) : Bool :=
  (s.nodes p).any (·.below = window)

def isAbove (window : Window) (p : ConstraintPtr) : Bool :=
  (s.nodes p).any (·.above = window)

-- The constraints are linked in the order in which they were added. While a window is removed, the
-- lists that belong to it are not kept up to date.
structure Linked (P : Window → Prop) : Prop where
  nodup    : s.constraints.Nodup
  live     : ∀ p, p ∈ s.constraints ↔ ∃ node, s.nodes p = some node
  irrefl   : ∀ p node, s.nodes p = some node → node.below ≠ node.above
  unique   : ∀ p q node other, s.nodes p = some node → s.nodes q = some other → node.below = other.below →
    node.above = other.above → p = q
  children : ∀ p node, s.nodes p = some node → P node.above →
    node.children = s.constraints.filter (s.isBelow node.above)
  parents  : ∀ p node, s.nodes p = some node → P node.below →
    node.parents = s.constraints.filter (s.isAbove node.below)

variable {s} {p q : ConstraintPtr} {ps : List ConstraintPtr} {node other : ConstraintNode Window} {window : Window}
variable {P : Window → Prop} {f : ConstraintNode Window → ConstraintNode Window}

theorem isBelow_iff (h : s.nodes p = some node) : s.isBelow window p = true ↔ node.below = window := by
  simp [isBelow, h]

theorem isAbove_iff (h : s.nodes p = some node) : s.isAbove window p = true ↔ node.above = window := by
  simp [isAbove, h]

omit [DecidableEq Window] in
@[simp]
theorem set_self {node : Option (ConstraintNode Window)} : (s.set p node).nodes p = node :=
  if_pos rfl

omit [DecidableEq Window] in
theorem set_of_ne {node : Option (ConstraintNode Window)} (h : q ≠ p) : (s.set p node).nodes q = s.nodes q :=
  if_neg h

omit [DecidableEq Window] in
theorem modifyAll_eq (hn : ps.Nodup) (hl : ∀ p ∈ ps, ∃ node, s.nodes p = some node) : modifyAll f ps s =
    some { s with nodes := fun q => if q ∈ ps then (s.nodes q).map f else s.nodes q } := by
  induction ps generalizing s
  case nil => simp [modifyAll]
  case cons p ps ih =>
    have ⟨hp, hn⟩ := List.nodup_cons.mp hn
    have ⟨⟨node, hnode⟩, hl⟩ := List.forall_mem_cons.mp hl
    have hne : ∀ q ∈ ps, q ≠ p := fun q hq heq => hp (heq ▸ hq)
    have hmodify : s.modify f p = some (s.set p (f node)) := by simp [modify, hnode]
    have hlive : ∀ q ∈ ps, ∃ node', (s.set p (f node)).nodes q = some node' := by
      intro q hq
      rw [set_of_ne (hne q hq)]
      exact hl q hq
    rw [modifyAll, hmodify, Option.bind_some, ih hn hlive]
    congr 2
    funext q
    by_cases hq : q = p
    case pos => simp [hq, set, hp, hnode]
    case neg => simp [hq, set]

namespace Linked

theorem mem (h : s.Linked P) (hp : s.nodes p = some node) : p ∈ s.constraints :=
  (h.live p).mpr ⟨node, hp⟩

theorem mem_children (h : s.Linked P) (hp : s.nodes p = some node) (hq : s.nodes q = some other) (hP : P node.above) :
    q ∈ node.children ↔ other.below = node.above := by
  rw [h.children p node hp hP, List.mem_filter, isBelow_iff hq, and_iff_right (h.mem hq)]

theorem mem_parents (h : s.Linked P) (hp : s.nodes p = some node) (hq : s.nodes q = some other) (hP : P node.below) :
    q ∈ node.parents ↔ other.above = node.below := by
  rw [h.parents p node hp hP, List.mem_filter, isAbove_iff hq, and_iff_right (h.mem hq)]

theorem children_live (h : s.Linked P) (hp : s.nodes p = some node) (hP : P node.above) :
    node.children.Nodup ∧ ∀ q ∈ node.children, ∃ other, s.nodes q = some other := by
  rw [h.children p node hp hP]
  exact ⟨h.nodup.filter _, fun q hq => (h.live q).mp (List.mem_filter.mp hq).1⟩

theorem parents_live (h : s.Linked P) (hp : s.nodes p = some node) (hP : P node.below) :
    node.parents.Nodup ∧ ∀ q ∈ node.parents, ∃ other, s.nodes q = some other := by
  rw [h.parents p node hp hP]
  exact ⟨h.nodup.filter _, fun q hq => (h.live q).mp (List.mem_filter.mp hq).1⟩

end Linked

-- The lists of the other constraints lose the constraint which is deleted.
structure Unlinks (s : Constraints Window) (p : ConstraintPtr) (P : Window → Prop) (s' : Constraints Window) :
    Prop where
  constraints : s'.constraints = s.constraints.erase p
  deleted     : s'.nodes p = none
  live        : ∀ q, q ≠ p → ∀ node, s.nodes q = some node → ∃ node', s'.nodes q = some node'
  nodes       : ∀ q node', s'.nodes q = some node' → ∃ node, s.nodes q = some node ∧
    node'.below = node.below ∧ node'.above = node.above ∧
      (P node.above → node'.children = node.children.erase p) ∧ (P node.below → node'.parents = node.parents.erase p)

theorem Linked.unlinks {Q : Window → Prop} {s' : Constraints Window} (h : s.Linked P) (hu : s.Unlinks p Q s')
    (hQ : ∀ window, Q window → P window) : s'.Linked Q := by
  have hne : ∀ q node', s'.nodes q = some node' → q ≠ p := by
    rintro q node' hq rfl
    cases hu.deleted.symm.trans hq
  have hmem : ∀ q, q ∈ s'.constraints ↔ q ≠ p ∧ q ∈ s.constraints := by
    intro q
    rw [hu.constraints, h.nodup.mem_erase_iff]
  have hbelow : ∀ window, ∀ q ∈ s'.constraints, s.isBelow window q = s'.isBelow window q := by
    intro window q hq
    have ⟨hqp, hq⟩ := (hmem q).mp hq
    have ⟨other, hother⟩ := (h.live q).mp hq
    have ⟨other', hother'⟩ := hu.live q hqp other hother
    have ⟨_, hs, hb, _⟩ := hu.nodes q other' hother'
    obtain rfl := Option.some.inj (hother.symm.trans hs)
    simp [isBelow, hother, hother', hb]
  have habove : ∀ window, ∀ q ∈ s'.constraints, s.isAbove window q = s'.isAbove window q := by
    intro window q hq
    have ⟨hqp, hq⟩ := (hmem q).mp hq
    have ⟨other, hother⟩ := (h.live q).mp hq
    have ⟨other', hother'⟩ := hu.live q hqp other hother
    have ⟨_, hs, _, ha, _⟩ := hu.nodes q other' hother'
    obtain rfl := Option.some.inj (hother.symm.trans hs)
    simp [isAbove, hother, hother', ha]
  have hfilter : ∀ keep : ConstraintPtr → Bool, (s.constraints.filter keep).erase p = s'.constraints.filter keep := by
    intro keep
    rw [hu.constraints, (h.nodup.filter _).erase_eq_filter, h.nodup.erase_eq_filter, List.filter_comm]
  constructor
  case nodup => exact hu.constraints ▸ h.nodup.erase p
  case live =>
    refine fun q => ⟨fun hq => ?_, fun ⟨node', hq⟩ => ?_⟩
    · have ⟨hqp, hq⟩ := (hmem q).mp hq
      have ⟨node, hnode⟩ := (h.live q).mp hq
      exact hu.live q hqp node hnode
    · have ⟨node, hnode, _⟩ := hu.nodes q node' hq
      exact (hmem q).mpr ⟨hne q node' hq, h.mem hnode⟩
  case irrefl =>
    intro q node' hq
    have ⟨node, hnode, hb, ha, _⟩ := hu.nodes q node' hq
    rw [hb, ha]
    exact h.irrefl q node hnode
  case unique =>
    intro q r node' other' hq hr hb ha
    have ⟨node, hnode, hb₁, ha₁, _⟩ := hu.nodes q node' hq
    have ⟨other, hother, hb₂, ha₂, _⟩ := hu.nodes r other' hr
    exact h.unique q r node other hnode hother (by rw [← hb₁, hb, hb₂]) (by rw [← ha₁, ha, ha₂])
  case children =>
    intro q node' hq hP
    have ⟨node, hnode, _, ha, hc, _⟩ := hu.nodes q node' hq
    rw [ha] at hP ⊢
    rw [hc hP, h.children q node hnode (hQ _ hP), hfilter]
    exact List.filter_congr (hbelow node.above)
  case parents =>
    intro q node' hq hP
    have ⟨node, hnode, hb, _, _, hp⟩ := hu.nodes q node' hq
    rw [hb] at hP ⊢
    rw [hp hP, h.parents q node hnode (hQ _ hP), hfilter]
    exact List.filter_congr (habove node.below)

-- The constraint is taken out of the children of `ps` and of the parents of `cs`.
omit [DecidableEq Window] in
theorem unlinks_of {s' : Constraints Window} {ps cs : List ConstraintPtr} (hp : s'.nodes p = none)
    (hc : s'.constraints = s.constraints.erase p)
    (hnodes : ∀ q, q ≠ p → s'.nodes q = ((s.nodes q).map fun node => if q ∈ ps then removeChild p node else node).map
      fun node => if q ∈ cs then removeParent p node else node)
    (hps : ∀ q node, s.nodes q = some node → P node.above → q ∉ ps → p ∉ node.children)
    (hcs : ∀ q node, s.nodes q = some node → P node.below → q ∉ cs → p ∉ node.parents) : s.Unlinks p P s' := by
  constructor
  case constraints => exact hc
  case deleted => exact hp
  case live =>
    intro q hq node hnode
    rw [hnodes q hq, hnode]
    exact ⟨_, rfl⟩
  case nodes =>
    intro q node' hnode'
    have hq : q ≠ p := by
      rintro rfl
      cases hp.symm.trans hnode'
    rw [hnodes q hq] at hnode'
    simp only [Option.map_map, Option.map_eq_some_iff, Function.comp_apply] at hnode'
    obtain ⟨node, hnode, rfl⟩ := hnode'
    refine ⟨node, hnode, ?_, ?_, fun hP => ?_, fun hP => ?_⟩
    · split_ifs <;> rfl
    · split_ifs <;> rfl
    · by_cases hin : q ∈ ps
      case pos => split_ifs <;> rfl
      case neg =>
        rw [List.erase_of_not_mem (hps q node hnode hP hin)]
        split_ifs <;> rfl
    · by_cases hin : q ∈ cs
      case pos => split_ifs <;> rfl
      case neg =>
        rw [List.erase_of_not_mem (hcs q node hnode hP hin)]
        split_ifs <;> rfl

theorem find_cases (h : ∀ p ∈ ps, ∃ node, s.nodes p = some node) (below above : Window) :
    (s.find below above ps = some none ∧
      ∀ p ∈ ps, ∀ node, s.nodes p = some node → ¬(node.below = below ∧ node.above = above)) ∨
    ∃ p ∈ ps, ∃ node, s.nodes p = some node ∧ s.find below above ps = some (some p) := by
  induction ps
  case nil => exact .inl ⟨rfl, by simp⟩
  case cons p ps ih =>
    have ⟨⟨node, hnode⟩, h⟩ := List.forall_mem_cons.mp h
    by_cases heq : node.below = below ∧ node.above = above
    case pos => exact .inr ⟨p, List.mem_cons_self, node, hnode, by simp [find, hnode, heq]⟩
    case neg =>
      have hfind : s.find below above (p :: ps) = s.find below above ps := by simp [find, hnode, heq]
      rw [hfind]
      rcases ih h with ⟨hnone, hall⟩ | ⟨q, hq, hrest⟩
      · refine .inl ⟨hnone, List.forall_mem_cons.mpr ⟨fun other hother => ?_, hall⟩⟩
        exact Option.some.inj (hnode.symm.trans hother) ▸ heq
      · exact .inr ⟨q, List.mem_cons_of_mem _ hq, hrest⟩

omit [DecidableEq Window] in
theorem unlink {ps cs : List ConstraintPtr} (l : List ConstraintPtr)
    (hps : ps.Nodup ∧ ∀ q ∈ ps, ∃ other, s.nodes q = some other)
    (hcs : cs.Nodup ∧ ∀ q ∈ cs, ∃ other, s.nodes q = some other)
    (hin : ∀ q other, s.nodes q = some other → P other.above → q ∉ ps → p ∉ other.children)
    (hin' : ∀ q other, s.nodes q = some other → P other.below → q ∉ cs → p ∉ other.parents) :
    ∃ s₁ s₂, modifyAll (removeChild p) ps { s with constraints := l } = some s₁ ∧
      modifyAll (removeParent p) cs s₁ = some s₂ ∧ s₂.constraints = l ∧ s₂.removed = s.removed ∧
        s.Unlinks p P { s₂.set p none with constraints := s.constraints.erase p } := by
  have hlive : ∀ q ∈ cs, ∃ other, (if q ∈ ps then (s.nodes q).map (removeChild p) else s.nodes q) = some other := by
    intro q hq
    have ⟨other, hother⟩ := hcs.2 q hq
    rw [hother]
    split_ifs
    · exact ⟨_, rfl⟩
    · exact ⟨_, rfl⟩
  refine ⟨_, _, modifyAll_eq hps.1 hps.2, modifyAll_eq hcs.1 hlive, rfl, rfl, unlinks_of set_self rfl ?_ hin hin'⟩
  intro q hq
  refine (set_of_ne hq).trans ?_
  dsimp only
  cases s.nodes q <;> split_ifs <;> rfl

structure Valid (s : Constraints Window) : Prop where
  linked  : s.Linked fun _ => True
  removed : ∀ p node, s.nodes p = some node → node.below ∉ s.removed ∧ node.above ∉ s.removed

namespace Valid

theorem init : ({} : Constraints Window).Valid where
  linked := {
    nodup := List.nodup_nil
    live := fun _ => ⟨nofun, nofun⟩
    irrefl := nofun
    unique := nofun
    children := nofun
    parents := nofun }
  removed := nofun

theorem unlinks {s' : Constraints Window} (h : s.Valid) (hu : s.Unlinks p (fun _ => True) s')
    (hr : s'.removed = s.removed) : s'.Valid where
  linked := h.linked.unlinks hu fun _ _ => trivial
  removed q node' hnode' := by
    have ⟨node, hnode, hb, ha, _⟩ := hu.nodes q node' hnode'
    rw [hr, hb, ha]
    exact h.removed q node hnode

theorem unconstrain (h : s.Valid) (below above : Window) : ∃ s', s.unconstrain below above = some s' ∧ s'.Valid := by
  have hl := h.linked
  rw [Constraints.unconstrain]
  rcases find_cases (fun p hp => (hl.live p).mp hp) below above with ⟨hfind, _⟩ | ⟨p, hp, node, hnode, hfind⟩
  · rw [hfind]
    exact ⟨s, rfl, h⟩
  · have hin : ∀ q other, s.nodes q = some other → True → q ∉ node.parents → p ∉ other.children := by
      intro q other hother _ hq
      rw [hl.mem_children hother hnode trivial]
      exact fun heq => hq ((hl.mem_parents hnode hother trivial).mpr heq.symm)
    have hin' : ∀ q other, s.nodes q = some other → True → q ∉ node.children → p ∉ other.parents := by
      intro q other hother _ hq
      rw [hl.mem_parents hother hnode trivial]
      exact fun heq => hq ((hl.mem_children hnode hother trivial).mpr heq.symm)
    have ⟨s₁, s₂, h₁, h₂, hc, hr, hu⟩ := unlink (P := fun _ => True) (s.constraints.erase p)
      (hl.parents_live hnode trivial) (hl.children_live hnode trivial) hin hin'
    rw [← hc] at hu
    exact ⟨s₂.set p none, by simp [hfind, hnode, h₁, h₂], h.unlinks hu hr⟩

end Valid

omit [DecidableEq Window] in
theorem eraseIdx_getElem? {i : Nat} (hn : s.constraints.Nodup) (hp : s.constraints[i]? = some p) :
    s.constraints.eraseIdx i = s.constraints.erase p := by
  obtain ⟨hi, rfl⟩ := List.getElem?_eq_some_iff.mp hp
  exact (hn.erase_getElem i hi).symm

-- The last constraints do not mention the window any more.
def Without (window : Window) (i : Nat) (s : Constraints Window) : Prop :=
  ∀ p ∈ s.constraints.drop i, ∀ node, s.nodes p = some node → node.below ≠ window ∧ node.above ≠ window

theorem Linked.removeConstraint (h : s.Linked (· ≠ window)) (hnode : s.nodes p = some node)
    (hmention : ¬(node.below ≠ window ∧ node.above ≠ window)) : ∃ s',
      (if node.below = window then modifyAll (removeParent p) node.children s
        else modifyAll (removeChild p) node.parents s) = some s' ∧ s'.constraints = s.constraints ∧
          s'.removed = s.removed ∧
            s.Unlinks p (· ≠ window) { s'.set p none with constraints := s.constraints.erase p } := by
  have hirrefl := h.irrefl p node hnode
  have hnil : ([] : List ConstraintPtr).Nodup ∧ ∀ q ∈ [], ∃ other, s.nodes q = some other :=
    ⟨List.nodup_nil, fun q hq => absurd hq List.not_mem_nil⟩
  by_cases hb : node.below = window
  case pos =>
    have ha : node.above ≠ window := fun heq => hirrefl (hb.trans heq.symm)
    have hin : ∀ q other, s.nodes q = some other → other.above ≠ window → q ∉ [] → p ∉ other.children := by
      intro q other hother hne _
      rw [h.mem_children hother hnode hne]
      exact fun heq => hne (heq ▸ hb)
    have hin' : ∀ q other, s.nodes q = some other → other.below ≠ window → q ∉ node.children → p ∉ other.parents := by
      intro q other hother hne hq
      rw [h.mem_parents hother hnode hne]
      exact fun heq => hq ((h.mem_children hnode hother ha).mpr heq.symm)
    have ⟨s₁, s₂, h₁, h₂, hc, hr, hu⟩ := unlink (P := (· ≠ window)) (p := p) s.constraints hnil
      (h.children_live hnode ha) hin hin'
    cases h₁
    rw [if_pos hb]
    exact ⟨s₂, h₂, hc, hr, hu⟩
  case neg =>
    have ha : node.above = window := by tauto
    have hin : ∀ q other, s.nodes q = some other → other.above ≠ window → q ∉ node.parents → p ∉ other.children := by
      intro q other hother hne hq
      rw [h.mem_children hother hnode hne]
      exact fun heq => hq ((h.mem_parents hnode hother hb).mpr heq.symm)
    have hin' : ∀ q other, s.nodes q = some other → other.below ≠ window → q ∉ [] → p ∉ other.parents := by
      intro q other hother hne _
      rw [h.mem_parents hother hnode hne]
      exact fun heq => hne (heq ▸ ha)
    have ⟨s₁, s₂, h₁, h₂, hc, hr, hu⟩ := unlink (P := (· ≠ window)) (p := p) s.constraints
      (h.parents_live hnode hb) hnil hin hin'
    cases h₂
    rw [if_neg hb]
    exact ⟨_, h₁, hc, hr, hu⟩

theorem removeConstraints_ok {i : Nat} (h : s.Linked (· ≠ window)) (hi : i ≤ s.constraints.length)
    (hw : s.Without window i) : ∃ s', removeConstraints window i s = some s' ∧ s'.Linked (· ≠ window) ∧
      s'.Without window 0 ∧ s'.removed = s.removed ∧
        ∀ p node', s'.nodes p = some node' → ∃ node, s.nodes p = some node ∧ node'.below = node.below ∧
          node'.above = node.above := by
  induction i generalizing s
  case zero => exact ⟨s, rfl, h, hw, rfl, fun p node hp => ⟨node, hp, rfl, rfl⟩⟩
  case succ i ih =>
    have hdrop : s.constraints.drop i = s.constraints[i] :: s.constraints.drop (i + 1) := List.drop_eq_getElem_cons hi
    have hp : s.constraints[i]? = some (s.constraints[i]) := List.getElem?_eq_getElem hi
    generalize s.constraints[i] = p at hp hdrop
    have ⟨node, hnode⟩ := (h.live p).mp (List.mem_of_getElem? hp)
    have hremove : removeConstraints window (i + 1) s =
        if node.below ≠ window ∧ node.above ≠ window then
          removeConstraints window i s
        else
          (if node.below = window then modifyAll (removeParent p) node.children s
            else modifyAll (removeChild p) node.parents s).bind fun s =>
              removeConstraints window i { s.set p none with constraints := s.constraints.eraseIdx i } := by
      rw [removeConstraints, hp]
      simp only [Option.bind_eq_bind, Option.bind_some, hnode]
      split_ifs <;> rfl
    rw [hremove]
    by_cases hmention : node.below ≠ window ∧ node.above ≠ window
    case pos =>
      rw [if_pos hmention]
      refine ih h (by omega) fun q hq other hother => ?_
      rw [hdrop] at hq
      rcases List.mem_cons.mp hq with rfl | hq
      · exact Option.some.inj (hnode.symm.trans hother) ▸ hmention
      · exact hw q hq other hother
    case neg =>
      have ⟨s₁, hs₁, hc, hr, hu⟩ := h.removeConstraint hnode hmention
      rw [if_neg hmention, hs₁, Option.bind_some, hc, eraseIdx_getElem? h.nodup hp]
      have hl := h.unlinks hu fun _ hne => hne
      have hlength : i ≤ (s.constraints.erase p).length := by
        rw [List.length_erase_of_mem (List.mem_of_getElem? hp)]
        omega
      have hw' : Without window i { s₁.set p none with constraints := s.constraints.erase p } := by
        intro q hq other' hother'
        have ⟨other, hother, hb, ha, _⟩ := hu.nodes q other' hother'
        have hq : q ∈ s.constraints.drop (i + 1) := by
          dsimp only at hq
          rw [← eraseIdx_getElem? h.nodup hp, List.eraseIdx_eq_take_drop_succ, List.drop_append_of_le_length] at hq
          · simpa using hq
          · simp; omega
        rw [hb, ha]
        exact hw q hq other hother
      have ⟨s', hs', hl', hw'', hr', hn⟩ := ih hl hlength hw'
      refine ⟨s', hs', hl', hw'', hr'.trans hr, fun q node' hnode' => ?_⟩
      have ⟨other, hother, hb, ha⟩ := hn q node' hnode'
      have ⟨other', hother', hb', ha', _⟩ := hu.nodes q other hother
      exact ⟨other', hother', hb.trans hb', ha.trans ha'⟩

theorem Valid.removeFromStack (h : s.Valid) (window : Window) :
    ∃ s', s.removeFromStack window = some s' ∧ s'.Valid := by
  have hl : s.Linked (· ≠ window) :=
    { h.linked with
      children := fun p node hp _ => h.linked.children p node hp trivial
      parents := fun p node hp _ => h.linked.parents p node hp trivial }
  have hw : s.Without window s.constraints.length := by
    intro p hp
    rw [List.drop_length] at hp
    exact absurd hp List.not_mem_nil
  have ⟨s', hs', hl', hw', hr, hn⟩ := removeConstraints_ok hl (Nat.le_refl _) hw
  have hmention : ∀ p node, s'.nodes p = some node → node.below ≠ window ∧ node.above ≠ window :=
    fun p node hp => hw' p (hl'.mem hp) node hp
  refine ⟨{ s' with removed := window :: s'.removed }, by simp [Constraints.removeFromStack, hs'], ?_, ?_⟩
  · exact
      { hl' with
        children := fun p node hp _ => hl'.children p node hp (hmention p node hp).2
        parents := fun p node hp _ => hl'.parents p node hp (hmention p node hp).1 }
  · intro p node' hp
    have ⟨node, hnode, hb, ha⟩ := hn p node' hp
    have hremoved := h.removed p node hnode
    rw [← hb, ← ha, ← hr] at hremoved
    have ⟨hb', ha'⟩ := hmention p node' hp
    exact ⟨List.not_mem_cons_of_ne_of_not_mem hb' hremoved.1, List.not_mem_cons_of_ne_of_not_mem ha' hremoved.2⟩

theorem collect_cases (h : ∀ p ∈ ps, ∃ node, s.nodes p = some node) (below above : Window)
    (parents children : List ConstraintPtr) :
    s.collect below above parents children ps = some none ∨
    (∀ p ∈ ps, ∀ node, s.nodes p = some node → ¬(node.below = below ∧ node.above = above)) ∧
      s.collect below above parents children ps = some (some
        (parents ++ ps.filter (fun p => s.isAbove below p && !s.isBelow above p),
          children ++ ps.filter (s.isBelow above))) := by
  induction ps generalizing parents children
  case nil => exact .inr ⟨by simp, by simp [collect]⟩
  case cons p ps ih =>
    have ⟨⟨node, hnode⟩, h⟩ := List.forall_mem_cons.mp h
    have hb : s.isBelow above p = decide (node.below = above) := by simp [isBelow, hnode]
    have ha : s.isAbove below p = decide (node.above = below) := by simp [isAbove, hnode]
    rw [collect]
    simp only [hnode, Option.bind_eq_bind, Option.bind_some]
    by_cases heq : node.below = below ∧ node.above = above
    case pos => exact .inl (by rw [if_pos heq])
    case neg =>
      have hp : ∀ other, s.nodes p = some other → ¬(other.below = below ∧ other.above = above) :=
        fun other hother => Option.some.inj (hnode.symm.trans hother) ▸ heq
      rw [if_neg heq]
      by_cases hchild : node.below = above
      case pos =>
        rw [if_pos hchild]
        refine (ih h parents (children ++ [p])).imp_right fun ⟨hall, hc⟩ => ⟨List.forall_mem_cons.mpr ⟨hp, hall⟩, ?_⟩
        rw [hc]
        simp [hb, hchild]
      case neg =>
        rw [if_neg hchild]
        by_cases hparent : node.above = below
        case pos =>
          rw [if_pos hparent]
          refine (ih h (parents ++ [p]) children).imp_right fun ⟨hall, hc⟩ => ⟨List.forall_mem_cons.mpr ⟨hp, hall⟩, ?_⟩
          rw [hc]
          simp [ha, hb, hparent, hchild]
        case neg =>
          rw [if_neg hparent]
          refine (ih h parents children).imp_right fun ⟨hall, hc⟩ => ⟨List.forall_mem_cons.mpr ⟨hp, hall⟩, ?_⟩
          rw [hc]
          simp [ha, hb, hparent, hchild]

-- The new constraint, linked with the others.
theorem Valid.link {below above : Window} {s' : Constraints Window} (h : s.Valid) (hne : below ≠ above)
    (hp : s.nodes p = none)
    (hnew : ∀ q ∈ s.constraints, ∀ node, s.nodes q = some node → ¬(node.below = below ∧ node.above = above))
    (hc : s'.constraints = s.constraints ++ [p])
    (hr : s'.removed = s.removed.filter fun window => window ≠ below ∧ window ≠ above)
    (hself : s'.nodes p =
      some ⟨⟨below, above⟩, s.constraints.filter (s.isAbove below), s.constraints.filter (s.isBelow above)⟩)
    (hnodes : ∀ q, q ≠ p → s'.nodes q = ((s.nodes q).map fun node =>
      if s.isAbove below q then addChild p node else node).map fun node =>
        if s.isBelow above q then addParent p node else node) : s'.Valid := by
  have hold : ∀ q node', q ≠ p → s'.nodes q = some node' → ∃ node, s.nodes q = some node ∧
      node'.below = node.below ∧ node'.above = node.above ∧
        node'.children = node.children ++ (if node.above = below then [p] else []) ∧
          node'.parents = node.parents ++ (if node.below = above then [p] else []) := by
    intro q node' hq hnode'
    rw [hnodes q hq] at hnode'
    simp only [Option.map_map, Option.map_eq_some_iff, Function.comp_apply] at hnode'
    obtain ⟨node, hnode, rfl⟩ := hnode'
    refine ⟨node, hnode, ?_⟩
    simp only [isAbove_iff hnode, isBelow_iff hnode]
    split_ifs <;> simp [addChild, addParent]
  have hl := h.linked
  have hnp : ∀ q node, s.nodes q = some node → q ≠ p := by
    rintro q node hq rfl
    cases hp.symm.trans hq
  have hcases : ∀ q node', s'.nodes q = some node' →
      q = p ∧ node' = ⟨⟨below, above⟩, s.constraints.filter (s.isAbove below), s.constraints.filter (s.isBelow above)⟩ ∨
        q ≠ p ∧ ∃ node, s.nodes q = some node ∧ node'.below = node.below ∧ node'.above = node.above ∧
          node'.children = node.children ++ (if node.above = below then [p] else []) ∧
            node'.parents = node.parents ++ (if node.below = above then [p] else []) := by
    intro q node' hnode'
    by_cases hq : q = p
    case pos =>
      subst hq
      exact .inl ⟨rfl, Option.some.inj (hnode'.symm.trans hself)⟩
    case neg => exact .inr ⟨hq, hold q node' hq hnode'⟩
  have hlive : ∀ q ∈ s.constraints, q ≠ p := by
    intro q hq
    have ⟨node, hnode⟩ := (hl.live q).mp hq
    exact hnp q node hnode
  have hbelow : ∀ window, s'.constraints.filter (s'.isBelow window) =
      s.constraints.filter (s.isBelow window) ++ (if below = window then [p] else []) := by
    intro window
    have hfilter : s.constraints.filter (s'.isBelow window) = s.constraints.filter (s.isBelow window) := by
      refine List.filter_congr fun q hq => ?_
      rw [isBelow, isBelow, hnodes q (hlive q hq)]
      cases s.nodes q <;> simp only [Option.map_none, Option.map_some, Option.any_some]
      split_ifs <;> rfl
    rw [hc, List.filter_append, hfilter]
    simp [List.filter_cons, isBelow, hself]
  have habove : ∀ window, s'.constraints.filter (s'.isAbove window) =
      s.constraints.filter (s.isAbove window) ++ (if above = window then [p] else []) := by
    intro window
    have hfilter : s.constraints.filter (s'.isAbove window) = s.constraints.filter (s.isAbove window) := by
      refine List.filter_congr fun q hq => ?_
      rw [isAbove, isAbove, hnodes q (hlive q hq)]
      cases s.nodes q <;> simp only [Option.map_none, Option.map_some, Option.any_some]
      split_ifs <;> rfl
    rw [hc, List.filter_append, hfilter]
    simp [List.filter_cons, isAbove, hself]
  constructor
  case linked =>
    constructor
    case nodup =>
      rw [hc, List.nodup_append]
      exact ⟨hl.nodup, List.nodup_singleton p, fun q hq r hr => List.mem_singleton.mp hr ▸ hlive q hq⟩
    case live =>
      intro q
      rw [hc, List.mem_append, List.mem_singleton]
      by_cases hq : q = p
      case pos => simp [hq, hself]
      case neg =>
        rw [or_iff_left hq, hl.live, hnodes q hq]
        simp
    case irrefl =>
      intro q node' hnode'
      rcases hcases q node' hnode' with ⟨_, rfl⟩ | ⟨_, node, hnode, hb, ha, _⟩
      · exact hne
      · rw [hb, ha]
        exact hl.irrefl q node hnode
    case unique =>
      intro q r node' other' hq hr hb ha
      rcases hcases q node' hq with ⟨rfl, rfl⟩ | ⟨_, node, hnode, hb₁, ha₁, _⟩
      · rcases hcases r other' hr with ⟨rfl, _⟩ | ⟨_, other, hother, hb₂, ha₂, _⟩
        · rfl
        · exact absurd ⟨hb₂.symm.trans hb.symm, ha₂.symm.trans ha.symm⟩ (hnew r (hl.mem hother) other hother)
      · rcases hcases r other' hr with ⟨rfl, rfl⟩ | ⟨_, other, hother, hb₂, ha₂, _⟩
        · exact absurd ⟨hb₁.symm.trans hb, ha₁.symm.trans ha⟩ (hnew q (hl.mem hnode) node hnode)
        · exact hl.unique q r node other hnode hother (by rw [← hb₁, hb, hb₂]) (by rw [← ha₁, ha, ha₂])
    case children =>
      intro q node' hnode' _
      rw [hbelow]
      rcases hcases q node' hnode' with ⟨_, rfl⟩ | ⟨_, node, hnode, _, ha, hchildren, _⟩
      · exact (List.append_nil _).symm.trans (congrArg _ (if_neg hne).symm)
      · rw [hchildren, hl.children q node hnode trivial, ha]
        simp only [eq_comm]
    case parents =>
      intro q node' hnode' _
      rw [habove]
      rcases hcases q node' hnode' with ⟨_, rfl⟩ | ⟨_, node, hnode, hb, _, _, hparents⟩
      · exact (List.append_nil _).symm.trans (congrArg _ (if_neg (Ne.symm hne)).symm)
      · rw [hparents, hl.parents q node hnode trivial, hb]
        simp only [eq_comm]
  case removed =>
    intro q node' hnode'
    rw [hr]
    rcases hcases q node' hnode' with ⟨_, rfl⟩ | ⟨_, node, hnode, hb, ha, _⟩
    · simp
    · rw [hb, ha]
      have ⟨hb', ha'⟩ := h.removed q node hnode
      exact ⟨fun hm => hb' (List.mem_filter.mp hm).1, fun hm => ha' (List.mem_filter.mp hm).1⟩

theorem link_ok {address : ConstraintPtr} (constraint : ConstraintNode Window) (hp : s.nodes address = none)
    (hps : constraint.parents.Nodup ∧ ∀ q ∈ constraint.parents, ∃ node, s.nodes q = some node)
    (hcs : constraint.children.Nodup ∧ ∀ q ∈ constraint.children, ∃ node, s.nodes q = some node) :
    ∃ s', s.link address constraint = some s' ∧ s'.constraints = s.constraints ++ [address] ∧
      s'.removed = s.removed.filter (fun window => window ≠ constraint.below ∧ window ≠ constraint.above) ∧
        s'.nodes address = some constraint ∧ ∀ q, q ≠ address → s'.nodes q = ((s.nodes q).map fun node =>
          if q ∈ constraint.parents then addChild address node else node).map fun node =>
            if q ∈ constraint.children then addParent address node else node := by
  have hne : ∀ q node, s.nodes q = some node → q ≠ address := by
    rintro q node hq rfl
    cases hp.symm.trans hq
  obtain ⟨s₀, hs₀⟩ : ∃ s₀ : Constraints Window, s₀ = { s.set address (some constraint) with
    constraints := s.constraints ++ [address]
    removed := s.removed.filter fun window => window ≠ constraint.below ∧ window ≠ constraint.above } := ⟨_, rfl⟩
  have hself : s₀.nodes address = some constraint := hs₀ ▸ set_self
  have hnodes : ∀ q, q ≠ address → s₀.nodes q = s.nodes q := fun q hq => hs₀ ▸ set_of_ne hq
  have hlive : ∀ q ∈ constraint.parents, ∃ node, s₀.nodes q = some node := by
    intro q hq
    have ⟨node, hnode⟩ := hps.2 q hq
    exact ⟨node, (hnodes q (hne q node hnode)).trans hnode⟩
  have hlive' : ∀ q ∈ constraint.children, ∃ node,
      (if q ∈ constraint.parents then (s₀.nodes q).map (addChild address) else s₀.nodes q) = some node := by
    intro q hq
    have ⟨node, hnode⟩ := hcs.2 q hq
    rw [hnodes q (hne q node hnode), hnode]
    split_ifs
    · exact ⟨_, rfl⟩
    · exact ⟨_, rfl⟩
  have hlink : s.link address constraint = (modifyAll (addChild address) constraint.parents s₀).bind
      (modifyAll (addParent address) constraint.children) := by
    rw [hs₀]
    rfl
  have hps' : address ∉ constraint.parents := fun hin => (hps.2 _ hin).elim fun node hnode => hne _ node hnode rfl
  have hcs' : address ∉ constraint.children := fun hin => (hcs.2 _ hin).elim fun node hnode => hne _ node hnode rfl
  rw [hlink, modifyAll_eq hps.1 hlive, Option.bind_some, modifyAll_eq hcs.1 hlive']
  refine ⟨_, rfl, by rw [hs₀], by rw [hs₀], ?_, fun q hq => ?_⟩
  · dsimp only
    rw [if_neg hcs', if_neg hps', hself]
  · dsimp only
    rw [hnodes q hq]
    cases s.nodes q <;> split_ifs <;> rfl

theorem Valid.constrain {address : ConstraintPtr} (h : s.Valid) (hp : s.nodes address = none) (below above : Window) :
    ∃ s', s.constrain address below above = some s' ∧ (s'.Acyclic → s'.Valid) := by
  have hl := h.linked
  rw [Constraints.constrain]
  by_cases hne : below = above
  case pos =>
    rw [if_pos hne]
    exact ⟨s, rfl, fun _ => h⟩
  case neg =>
    rw [if_neg hne]
    rcases collect_cases (fun p hp => (hl.live p).mp hp) below above [] [] with hnone | ⟨hnew, hcollect⟩
    · rw [hnone]
      exact ⟨s, rfl, fun _ => h⟩
    · rw [hcollect]
      simp only [Option.bind_eq_bind, Option.bind_some, List.nil_append]
      have hlive : ∀ keep : ConstraintPtr → Bool, (s.constraints.filter keep).Nodup ∧
          ∀ q ∈ s.constraints.filter keep, ∃ node, s.nodes q = some node :=
        fun keep => ⟨hl.nodup.filter _, fun q hq => (hl.live q).mp (List.mem_filter.mp hq).1⟩
      have ⟨s', hs', hc, hr, hself, hnodes⟩ := link_ok ⟨⟨below, above⟩,
        s.constraints.filter (fun p => s.isAbove below p && !s.isBelow above p), s.constraints.filter (s.isBelow above)⟩
        hp (hlive _) (hlive _)
      refine ⟨s', hs', fun hacyclic => ?_⟩
      -- A constraint between the same windows the other way round would close a cycle.
      have hparents : s.constraints.filter (fun p => s.isAbove below p && !s.isBelow above p) =
          s.constraints.filter (s.isAbove below) := by
        refine List.filter_congr fun q hq => ?_
        have ⟨node, hnode⟩ := (hl.live q).mp hq
        by_cases hcycle : s.isAbove below q = true ∧ s.isBelow above q = true
        case neg => cases ha : s.isAbove below q <;> cases hb : s.isBelow above q <;> simp_all
        case pos =>
          exfalso
          rw [isAbove_iff hnode, isBelow_iff hnode] at hcycle
          have hne : q ≠ address := by
            rintro rfl
            cases hp.symm.trans hnode
          have hnew : s'.Above below above :=
            ⟨address, hc ▸ List.mem_append_right _ List.mem_cons_self, _, hself, rfl, rfl⟩
          have hold : s'.Above above below := by
            refine ⟨q, hc ▸ List.mem_append_left _ hq, _, (hnodes q hne).trans (by rw [hnode]; rfl), ?_, ?_⟩
            · rw [← hcycle.2]
              split_ifs <;> rfl
            · rw [← hcycle.1]
              split_ifs <;> rfl
          exact hacyclic below (Relation.TransGen.single hnew |>.tail hold)
      rw [hparents] at hself hnodes
      refine h.link hne hp hnew hc hr hself fun q hq => ?_
      rw [hnodes q hq]
      cases hnode : s.nodes q
      case none => rfl
      case some node =>
        have hmem := hl.mem hnode
        simp [hmem]

namespace Valid

-- No event meets a node that is deleted.
theorem step {event : Event Window} (h : s.Valid) :
    (∃ address below above, event = .constrain address below above ∧ (s.nodes address).isSome) ∧ s.step event = none ∨
      ∃ s', s.step event = some s' ∧ (s'.Acyclic → s'.Valid) := by
  cases event
  case constrain address below above =>
    rw [Constraints.step]
    cases hnode : s.nodes address
    case none => exact .inr (h.constrain hnode below above)
    case some node => exact .inl ⟨⟨address, below, above, rfl, by rw [hnode]; rfl⟩, rfl⟩
  case unconstrain below above =>
    have ⟨s', hs', h'⟩ := h.unconstrain below above
    exact .inr ⟨s', hs', fun _ => h'⟩
  case removeFromStack window =>
    have ⟨s', hs', h'⟩ := h.removeFromStack window
    exact .inr ⟨s', hs', fun _ => h'⟩

end Valid

omit [DecidableEq Window] in
theorem init_acyclic : ({} : Constraints Window).Acyclic := by
  intro window h
  have ⟨_, ⟨p, hp, _⟩, _⟩ := Relation.TransGen.head'_iff.mp h
  exact absurd hp List.not_mem_nil

theorem Reachable.valid (h : Reachable s) : s.Valid ∧ s.Acyclic := by
  refine @Machine.Reaches.invariant _ _ _ _ _ _ (fun s => s.Valid ∧ s.Acyclic) h ⟨Valid.init, init_acyclic⟩ ?_
  intro s₁ s₂ event ⟨hv, _⟩ hallowed hs
  have hacyclic := hallowed s₂ hs
  have hstep := @Valid.step _ _ _ event hv
  rcases hstep with ⟨_, hnone⟩ | ⟨s', hs', hv'⟩
  · cases hnone.symm.trans hs
  · obtain rfl := Option.some.inj (hs'.symm.trans hs)
    exact ⟨hv' hacyclic, hacyclic⟩

theorem anyM_iff {α : Type} {l : List α} {f : α → Option Bool} {P : α → Prop}
    (h : ∀ a ∈ l, ∃ b, f a = some b ∧ (b = true ↔ P a)) : ∃ b, l.anyM f = some b ∧ (b = true ↔ ∃ a ∈ l, P a) := by
  induction l
  case nil => exact ⟨false, rfl, by simp⟩
  case cons a l ih =>
    have ⟨⟨b, hb, hP⟩, h⟩ := List.forall_mem_cons.mp h
    have ⟨b', hb', hP'⟩ := ih h
    cases b
    case true => exact ⟨true, by simp [hb], iff_of_true rfl ⟨a, List.mem_cons_self, hP.mp rfl⟩⟩
    case false => exact ⟨b', by simp [hb, hb'], by simp [hP', ← hP]⟩

section AreConstrained

open Relation Classical

variable {above below : Window} {fuel : Nat}

-- The constraints that are above the window, directly or not.
noncomputable def allAbove (s : Constraints Window) (window : Window) : List ConstraintPtr :=
  s.constraints.filter fun p => ∃ node, s.nodes p = some node ∧ ReflTransGen s.Above window node.below

omit [DecidableEq Window] in
theorem allAbove_lt (hacyclic : s.Acyclic) (hp : p ∈ s.constraints) (hnode : s.nodes p = some node) :
    (s.allAbove node.above).length < (s.allAbove node.below).length := by
  have hedge : s.Above node.below node.above := ⟨p, hp, node, hnode, rfl, rfl⟩
  have hsub : (s.allAbove node.above).Sublist (s.allAbove node.below) := by
    refine List.monotone_filter_right _ fun q hq => ?_
    have ⟨other, hother, hpath⟩ := of_decide_eq_true hq
    exact decide_eq_true ⟨other, hother, hpath.head hedge⟩
  refine Nat.lt_of_le_of_ne hsub.length_le fun heq => ?_
  have hmem : p ∈ s.allAbove node.below := List.mem_filter.mpr ⟨hp, decide_eq_true ⟨node, hnode, .refl⟩⟩
  rw [← hsub.eq_of_length heq] at hmem
  have ⟨other, hother, hpath⟩ := of_decide_eq_true (List.mem_filter.mp hmem).2
  obtain rfl := Option.some.inj (hnode.symm.trans hother)
  exact hacyclic node.below (TransGen.head' hedge hpath)

theorem Linked.areConstrained_iff (h : s.Linked fun _ => True) (hacyclic : s.Acyclic)
    (hfuel : (s.allAbove below).length < fuel) :
    ∃ b, s.areConstrained above fuel below = some b ∧ (b = true ↔ TransGen s.Above below above) := by
  induction fuel generalizing below
  case zero => cases hfuel
  case succ fuel ih =>
    have hP : TransGen s.Above below above ↔ ∃ p ∈ s.constraints, ∃ node, s.nodes p = some node ∧ node.below = below ∧
        (node.above = above ∨ TransGen s.Above node.above above) := by
      refine ⟨fun hpath => ?_, fun ⟨p, hp, node, hnode, hb, hor⟩ => ?_⟩
      · have ⟨next, ⟨p, hp, node, hnode, hb, ha⟩, hpath⟩ := TransGen.head'_iff.mp hpath
        refine ⟨p, hp, node, hnode, hb, ?_⟩
        rw [ha]
        exact (reflTransGen_iff_eq_or_transGen.mp hpath).imp_left Eq.symm
      · have hedge : s.Above below node.above := ⟨p, hp, node, hnode, hb, rfl⟩
        rcases hor with rfl | hpath
        · exact .single hedge
        · exact .head hedge hpath
    rw [areConstrained, hP]
    refine anyM_iff fun p hp => ?_
    have ⟨node, hnode⟩ := (h.live p).mp hp
    simp only [hnode, Option.bind_eq_bind, Option.bind_some, Option.some.injEq, exists_eq_left']
    by_cases hb : node.below = below
    case neg => exact ⟨false, if_neg hb, by simp [hb]⟩
    case pos =>
      rw [if_pos hb]
      by_cases ha : node.above = above
      case pos => exact ⟨true, if_pos ha, by simp [ha, hb]⟩
      case neg =>
        rw [if_neg ha]
        have hany : ∀ q ∈ node.children, ∃ b, (do
            let child ← s.nodes q
            s.areConstrained above fuel child.below) = some b ∧ (b = true ↔ TransGen s.Above node.above above) := by
          intro q hq
          have ⟨child, hchild⟩ := (h.children_live hnode trivial).2 q hq
          have hbelow := (h.mem_children hnode hchild trivial).mp hq
          have hlt : (s.allAbove child.below).length < fuel := by
            have := allAbove_lt hacyclic hp hnode
            rw [hbelow]
            rw [hb] at this
            omega
          rw [hchild, ← hbelow]
          exact ih hlt
        have ⟨b, hb', hiff⟩ := anyM_iff hany
        refine ⟨b, hb', hiff.trans ⟨fun ⟨_, _, hpath⟩ => ⟨hb, .inr hpath⟩, fun ⟨_, hor⟩ => ?_⟩⟩
        have hpath := hor.resolve_left ha
        have ⟨_, ⟨q, hq, child, hchild, hbelow, _⟩, _⟩ := TransGen.head'_iff.mp hpath
        exact ⟨q, (h.mem_children hnode hchild trivial).mpr hbelow, hpath⟩

end AreConstrained

def pair (s : Constraints Window) (p : ConstraintPtr) : Option (Window × Window) :=
  (s.nodes p).map fun node => (node.below, node.above)

-- What the constraints look like after any run that keeps the relation acyclic.
structure WellFormed (s : Constraints Window) : Prop where
  nodup          : (s.constraints.map s.pair).Nodup
  removed        : ∀ window ∈ s.removed, ∀ other, ¬s.Above window other ∧ ¬s.Above other window
  linked         : ∀ p ∈ s.constraints, ∀ c ∈ s.constraints, ∃ parent child, s.nodes p = some parent ∧
    s.nodes c = some child ∧ (c ∈ parent.children ↔ p ∈ child.parents) ∧
      (p ∈ child.parents ↔ parent.above = child.below)
  closed         : ∀ p ∈ s.constraints, ∀ node, s.nodes p = some node →
    node.parents ⊆ s.constraints ∧ node.children ⊆ s.constraints
  areConstrained : ∀ below above fuel, s.constraints.length < fuel →
    ∃ b, s.areConstrained above fuel below = some b ∧ (b = true ↔ Relation.TransGen s.Above below above)
  taken          : ∀ event, (∃ address below above, event = .constrain address below above ∧
    (s.nodes address).isSome) ∨ (s.step event).isSome

theorem Reachable.wellFormed (s : Constraints Window) (h : s.Reachable) : s.WellFormed := by
  have ⟨hv, hacyclic⟩ := h.valid
  have hl := hv.linked
  constructor
  case nodup =>
    refine List.Nodup.map_on (fun p hp q hq heq => ?_) hl.nodup
    have ⟨node, hnode⟩ := (hl.live p).mp hp
    have ⟨other, hother⟩ := (hl.live q).mp hq
    simp only [pair, hnode, hother, Option.map_some, Option.some.injEq, Prod.mk.injEq] at heq
    exact hl.unique p q node other hnode hother heq.1 heq.2
  case removed =>
    intro window hw other
    constructor
    · rintro ⟨p, _, node, hnode, rfl, _⟩
      exact (hv.removed p node hnode).1 hw
    · rintro ⟨p, _, node, hnode, _, rfl⟩
      exact (hv.removed p node hnode).2 hw
  case linked =>
    intro p hp c hc
    have ⟨parent, hparent⟩ := (hl.live p).mp hp
    have ⟨child, hchild⟩ := (hl.live c).mp hc
    have hparents := hl.mem_parents hchild hparent trivial
    refine ⟨parent, child, hparent, hchild, ?_, hparents⟩
    rw [hl.mem_children hparent hchild trivial, hparents, eq_comm]
  case closed =>
    intro p _ node hnode
    refine ⟨fun q hq => (hl.live q).mpr ?_, fun q hq => (hl.live q).mpr ?_⟩
    · exact (hl.parents_live hnode trivial).2 q hq
    · exact (hl.children_live hnode trivial).2 q hq
  case areConstrained =>
    intro below above fuel hfuel
    exact hl.areConstrained_iff hacyclic (Nat.lt_of_le_of_lt (List.length_filter_le ..) hfuel)
  case taken =>
    intro event
    refine hv.step.imp (·.1) fun ⟨s', hs', _⟩ => ?_
    rw [hs']
    rfl

theorem acyclic_of_lt {s : Constraints Nat} (h : ∀ below above, s.Above below above → below < above) : s.Acyclic := by
  intro window hcycle
  have hlt : ∀ {above}, Relation.TransGen s.Above window above → window < above := by
    intro above hpath
    induction hpath
    case single hedge => exact h _ _ hedge
    case tail hedge ih => exact Nat.lt_trans ih (h _ _ hedge)
  exact Nat.lt_irrefl _ (hlt hcycle)

-- A dialog on a dialog.
theorem Reachable.wellFormed_dialogs : ∃ s : Constraints Nat, s.WellFormed ∧ s.constraints = [0, 1] := by
  let s₁ : Constraints Nat :=
    { nodes := fun q => if q = 0 then some ⟨⟨1, 2⟩, [], []⟩ else none
      constraints := [0] }
  let s₂ : Constraints Nat :=
    { nodes := fun q =>
        if q = 0 then some ⟨⟨1, 2⟩, [], [1]⟩ else if q = 1 then some ⟨⟨2, 3⟩, [0], []⟩ else s₁.nodes q
      constraints := [0, 1] }
  have hs₁ : ({} : Constraints Nat).step (.constrain 0 1 2) = some s₁ := rfl
  have hs₂ : s₁.step (.constrain 1 2 3) = some s₂ := rfl
  have ha₁ : s₁.Acyclic := by
    refine acyclic_of_lt ?_
    rintro _ _ ⟨p, hp, node, hnode, rfl, rfl⟩
    obtain rfl := List.mem_singleton.mp hp
    cases hnode
    decide
  have ha₂ : s₂.Acyclic := by
    refine acyclic_of_lt ?_
    rintro _ _ ⟨p, hp, node, hnode, rfl, rfl⟩
    rcases List.mem_pair.mp hp with rfl | rfl
    · cases hnode
      decide
    · cases hnode
      decide
  have hreach : s₂.Reachable := by
    refine (Machine.Reaches.refl.tail ?_ hs₁).tail ?_ hs₂
    · exact fun s' hs' => Option.some.inj (hs₁.symm.trans hs') ▸ ha₁
    · exact fun s' hs' => Option.some.inj (hs₂.symm.trans hs') ▸ ha₂
  exact ⟨s₂, Reachable.wellFormed s₂ hreach, rfl⟩

end Constraints

end KWin
