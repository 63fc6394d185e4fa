import PlasmaModel.Lib.ListMove
import PlasmaModel.TaskManager.Theorems.Grouping

-- The map by which `TasksModel` sorts its rows in manual sort mode.
namespace TaskManager

-- Positions outside of a list are answered with nothing.
namespace QList

variable {α : Type} [DecidableEq α] {l l₁ l₂ l₃ m r : List α} {a c : α}

def indexOf (l : List α) (a : α) : Int :=
  (l.idxOf? a).elim (-1) Int.ofNat

end QList

-- The source rows that a filter leaves, each of them once.
structure FilterProxyModel where
  rows  : List Nat
  nodup : rows.Nodup

-- The part of `TasksModel` that sorts by hand, with the models below it.
structure ManualSort (QUrl : Type) where
  groupingProxyModel  : TaskGroupingProxyModel QUrl
  filterProxyModel    : FilterProxyModel
  sortedPreFilterRows : List Nat

namespace TaskGroupingProxyModel

-- A row with one task only is not the parent of a group.
def rowCount {QUrl : Type} (s : TaskGroupingProxyModel QUrl) (row : Nat) : Nat :=
  let rowCount := (s.rowMap[row]?.getD []).length
  if rowCount = 1 then 0 else rowCount

end TaskGroupingProxyModel

namespace ManualSort

variable {QUrl : Type}

def preFilterRow (s : ManualSort QUrl) (index : QModelIndex) : Option Nat :=
  (s.groupingProxyModel.mapToSource index).bind (s.filterProxyModel.rows[·]?)

-- A row of an index that is not valid is nowhere in the map.
def indexOf (map : List Nat) (row : Option Nat) : Int :=
  row.elim (-1) (QList.indexOf map)

-- The rows of the group in its order.
def groupRows (s : ManualSort QUrl) (row : Nat) : List Nat :=
  (List.range (s.groupingProxyModel.rowCount row)).filterMap fun i => s.preFilterRow (.child row i)

variable {s : ManualSort QUrl} {row i : Nat} {map l r rest : List Nat} {leader : Nat}

-- The children before the `i`-th one are in their places.
structure Gathers (s : ManualSort QUrl) (row : Nat) (l r : List Nat) (leader : Nat) (rest : List Nat) : Prop where
  nodup    : (l ++ leader :: r).Nodup
  distinct : (leader :: rest).Nodup
  first    : s.preFilterRow (.child row 0) = some leader
  children : ∀ i (hi : i < rest.length), s.preFilterRow (.child row (i + 1)) = some rest[i]
  mem      : ∀ c ∈ rest, c ∈ l ∨ c ∈ r

def gathered (l r : List Nat) (leader : Nat) (done : List Nat) : List Nat :=
  l.filter (· ∉ done) ++ (leader :: done ++ r.filter (· ∉ done))

theorem Gathers.nodup_gathered (h : s.Gathers row l r leader rest) (i : Nat) :
    (gathered l r leader (rest.take i)).Nodup := by
  have ⟨hl, hr, hd⟩ := List.nodup_append'.mp h.nodup
  have ⟨hlr, hr⟩ := List.nodup_cons.mp hr
  have hlt : leader ∉ rest.take i := fun ha => (List.nodup_cons.mp h.distinct).1 (List.mem_of_mem_take ha)
  have ht : (rest.take i).Nodup := (List.take_sublist _ _).nodup (List.nodup_cons.mp h.distinct).2
  refine List.nodup_append'.mpr ⟨hl.filter _, List.nodup_append'.mpr ⟨?_, hr.filter _, ?_⟩, ?_⟩
  · exact List.nodup_cons.mpr ⟨hlt, ht⟩
  · intro a ha har
    have ⟨har, hat⟩ := List.mem_filter.mp har
    rcases List.mem_cons.mp ha with rfl | ha
    · exact hlr har
    · exact of_decide_eq_true hat ha
  · intro a hal ha
    have ⟨hal, hat⟩ := List.mem_filter.mp hal
    rcases List.mem_append.mp ha with ha | ha
    · rcases List.mem_cons.mp ha with rfl | ha
      · exact hd hal (List.mem_cons_self ..)
      · exact of_decide_eq_true hat ha
    · exact hd hal (List.mem_cons_of_mem _ (List.mem_filter.mp ha).1)

-- Once more, nothing is moved.
theorem Gathers.again (h : s.Gathers row l r leader rest) :
    { s with sortedPreFilterRows := gathered l r leader rest : ManualSort QUrl }.Gathers row (l.filter (· ∉ rest))
      (rest ++ r.filter (· ∉ rest)) leader rest where
  nodup    := by simpa [gathered] using h.nodup_gathered rest.length
  distinct := h.distinct
  first    := h.first
  children := h.children
  mem c hc := .inr (List.mem_append_left _ hc)

theorem Gathers.filter (h : s.Gathers row l r leader rest) :
    (l ++ leader :: r).filter (· ∉ leader :: rest) = l.filter (· ∉ rest) ++ r.filter (· ∉ rest) := by
  have ⟨_, hr, hd⟩ := List.nodup_append'.mp h.nodup
  have hleader : ∀ l : List Nat, leader ∉ l → l.filter (· ∉ leader :: rest) = l.filter (· ∉ rest) := fun l hl => by
    refine List.filter_congr fun a ha => decide_eq_decide.mpr ?_
    have hne : a ≠ leader := fun heq => hl (heq ▸ ha)
    rw [List.mem_cons, not_or, and_iff_right hne]
  rw [List.filter_append, List.filter_cons_of_neg (by simp), hleader l fun hl => hd hl (List.mem_cons_self ..),
    hleader r (List.nodup_cons.mp hr).1]

-- Every member of the group is in the map.
def Sorts (s : ManualSort QUrl) (row : Nat) : Prop :=
  ∀ i < s.groupingProxyModel.rowCount row, ∃ a ∈ s.sortedPreFilterRows, s.preFilterRow (.child row i) = some a

instance : Decidable (s.Sorts row) :=
  inferInstanceAs (Decidable (∀ i < _, ∃ a ∈ _, _ = _))

theorem Sorts.mem (h : s.Sorts row) {a : Nat} (ha : a ∈ s.groupRows row) : a ∈ s.sortedPreFilterRows := by
  have ⟨i, hi, hia⟩ := List.mem_filterMap.mp ha
  have ⟨b, hb, hib⟩ := h i (List.mem_range.mp hi)
  rw [Option.some.inj (hia.symm.trans hib)]
  exact hb

end ManualSort
end TaskManager
