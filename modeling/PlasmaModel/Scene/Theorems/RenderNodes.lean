import PlasmaModel.Scene.Item

namespace KWin
namespace Item

variable {filter holeFilter : Nat → Bool} {data : ItemData} {children items : List Item} {item below : Item} {id : Nat}

-- Items that are left out together with their children.
def Skipped (filter holeFilter : Nat → Bool) (id : Nat) : Prop :=
  filter id = true ∧ holeFilter id = false

instance : Decidable (Skipped filter holeFilter id) :=
  inferInstanceAs (Decidable (_ ∧ _))

-- What the item adds by itself.
def renderNode? (filter holeFilter : Nat → Bool) (item : Item) : Option RenderNode :=
  if Skipped filter holeFilter item.id then none else item.value.renderNode (filter item.id)

theorem takeWhile_of_sorted {l : List Item} (h : l.Pairwise fun a b => a.z ≤ b.z) :
    l.takeWhile (·.z < 0) = l.filter (·.z < 0) := by
  induction l
  case nil => rfl
  case cons a l ih =>
    have ⟨hle, h⟩ := List.pairwise_cons.mp h
    rw [List.takeWhile_cons, List.filter_cons, ih h]
    split
    case isTrue => rfl
    case isFalse hz =>
      have hnil : l.filter (·.z < 0) = [] := by
        refine List.filter_eq_nil_iff.mpr fun b hb => ?_
        have hab := hle b hb
        simp only [decide_eq_true_eq] at hz ⊢
        omega
      exact hnil.symm

theorem sortedChildItems_sorted (children : List Item) :
    (sortedChildItems children).Pairwise fun a b => a.z ≤ b.z :=
  have : Std.Total fun a b : Item => a.z ≤ b.z := ⟨fun a b => Int.le_total a.z b.z⟩
  have : IsTrans Item fun a b => a.z ≤ b.z := ⟨fun _ _ _ => Int.le_trans⟩
  List.pairwise_insertionSort _ children

theorem flatMap_if {α β : Type} (p : α → Bool) (g : α → List β) (l : List α) :
    l.flatMap (fun a => if p a then g a else []) = (l.filter p).flatMap g := by
  induction l
  case nil => rfl
  case cons a l ih =>
    rw [List.flatMap_cons, ih, List.filter_cons]
    cases p a <;> rfl

theorem createRenderNode_node : createRenderNode filter holeFilter (.node data children) =
    if Skipped filter holeFilter data.id then [] else
      (visibleBelow children).flatMap (createRenderNode filter holeFilter) ++
      (data.renderNode (filter data.id)).toList ++
      (visibleAbove children).flatMap (createRenderNode filter holeFilter) := by
  have hskip : (filter data.id && !holeFilter data.id) = true ↔ Skipped filter holeFilter data.id := by
    simp [Skipped]
  rw [createRenderNode, if_congr hskip rfl rfl]
  simp only [List.flatMap_subtype, List.unattach_attach]
  simp only [takeWhile_of_sorted (sortedChildItems_sorted children), flatMap_if, List.filter_filter, visibleBelow,
    visibleAbove, Bool.decide_and, Bool.decide_eq_true, Bool.and_comm]

-- Lists that are put together of the lists for the members of another one.
section FlatMap

variable {α β : Type} {a b a' b' : List β} {f g : α → List β} {l : List α}

theorem append_eq_append_iff_of_sublist (ha : a.Sublist a') (hb : b.Sublist b') :
    a ++ b = a' ++ b' ↔ a = a' ∧ b = b' := by
  constructor
  case mp =>
    intro h
    have hlen := congrArg List.length h
    have hla := ha.length_le
    have hlb := hb.length_le
    rw [List.length_append, List.length_append] at hlen
    exact ⟨ha.eq_of_length (by omega), hb.eq_of_length (by omega)⟩
  case mpr =>
    intro ⟨ha, hb⟩
    rw [ha, hb]

theorem flatMap_eq_iff_of_sublist (h : ∀ a ∈ l, (f a).Sublist (g a)) :
    l.flatMap f = l.flatMap g ↔ ∀ a ∈ l, f a = g a := by
  induction l
  case nil => exact iff_of_true rfl nofun
  case cons a l ih =>
    have ⟨ha, h⟩ := List.forall_mem_cons.mp h
    rw [List.flatMap_cons, List.flatMap_cons, append_eq_append_iff_of_sublist ha (List.Sublist.flatMap_right l h), ih h,
      List.forall_mem_cons]

end FlatMap

theorem self_mem_paintOrder (item : Item) : item ∈ item.paintOrder := by
  cases item
  simp [paintOrder_node]

theorem paintOrder_trans (hb : below ∈ item.paintOrder) : below.paintOrder ⊆ item.paintOrder := by
  induction item using RoseTree.induction
  case node data children ih =>
    cases mem_paintOrder_node.mp hb
    case inl heq => exact heq ▸ List.Subset.refl _
    case inr hb =>
      have ⟨child, hc, hb⟩ := hb
      intro d hd
      exact mem_paintOrder_node.mpr (.inr ⟨child, hc, ih child (mem_of_visible hc) hb hd⟩)

-- No item with something to draw is below a skipped one without being skipped itself.
def Covering (filter holeFilter : Nat → Bool) (item : Item) : Prop :=
  ∀ skipped ∈ item.paintOrder, Skipped filter holeFilter skipped.id →
    ∀ below ∈ skipped.paintOrder, below.value.trait?.isSome → Skipped filter holeFilter below.id

theorem renderNode?_eq_none : renderNode? filter holeFilter item = none ↔
    (item.value.trait?.isSome → Skipped filter holeFilter item.id) := by
  by_cases h : Skipped filter holeFilter item.id
  case pos => simp [renderNode?, h]
  case neg => simp [renderNode?, h, ItemData.renderNode]

theorem renderNodes_node : (paintOrder (.node data children)).filterMap (renderNode? filter holeFilter) =
    ((visibleBelow children).flatMap fun child => child.paintOrder.filterMap (renderNode? filter holeFilter)) ++
    (renderNode? filter holeFilter (.node data children)).toList ++
    (visibleAbove children).flatMap fun child => child.paintOrder.filterMap (renderNode? filter holeFilter) := by
  rw [paintOrder_node, List.filterMap_append, List.filterMap_append, List.filterMap_flatMap, List.filterMap_flatMap]
  cases h : renderNode? filter holeFilter (.node data children) <;> simp [h]

theorem createRenderNode_sublist (filter holeFilter : Nat → Bool) (item : Item) :
    (item.createRenderNode filter holeFilter).Sublist (item.paintOrder.filterMap (renderNode? filter holeFilter)) := by
  induction item using RoseTree.induction
  case node data children ih =>
    rw [createRenderNode_node]
    split
    case isTrue => exact List.nil_sublist _
    case isFalse hskip =>
      have hown : renderNode? filter holeFilter (.node data children) = data.renderNode (filter data.id) :=
        if_neg hskip
      rw [renderNodes_node, hown]
      have hbelow := List.Sublist.flatMap_right _ fun child hc => ih child (mem_of_visible (List.mem_append_left _ hc))
      have habove := List.Sublist.flatMap_right _ fun child hc => ih child (mem_of_visible (List.mem_append_right _ hc))
      exact (hbelow.append (List.Sublist.refl _)).append habove

theorem covering_node (hskip : ¬Skipped filter holeFilter data.id) :
    Covering filter holeFilter (.node data children) ↔
      ∀ child ∈ visibleBelow children ++ visibleAbove children, Covering filter holeFilter child := by
  constructor
  case mp => exact fun h child hc skipped hs => h skipped (mem_paintOrder_node.mpr (.inr ⟨child, hc, hs⟩))
  case mpr =>
    intro h skipped hs hs'
    cases mem_paintOrder_node.mp hs
    case inl heq =>
      cases heq
      exact absurd hs' hskip
    case inr hs =>
      have ⟨child, hc, hs⟩ := hs
      exact h child hc skipped hs hs'

theorem createRenderNode_eq_iff : item.createRenderNode filter holeFilter =
    item.paintOrder.filterMap (renderNode? filter holeFilter) ↔ Covering filter holeFilter item := by
  induction item using RoseTree.induction
  case node data children ih =>
    rw [createRenderNode_node]
    split
    case isTrue hskip =>
      rw [eq_comm, List.filterMap_eq_nil_iff]
      constructor
      case mp => exact fun h skipped hs _ below hb => renderNode?_eq_none.mp (h below (paintOrder_trans hs hb))
      case mpr => exact fun h below hb => renderNode?_eq_none.mpr (h _ (self_mem_paintOrder _) hskip below hb)
    case isFalse hskip =>
      have hown : renderNode? filter holeFilter (.node data children) = data.renderNode (filter data.id) :=
        if_neg hskip
      have hsub := createRenderNode_sublist filter holeFilter
      rw [renderNodes_node, hown, covering_node hskip,
        append_eq_append_iff_of_sublist ((List.Sublist.flatMap_right _ fun child _ => hsub child).append (.refl _))
          (List.Sublist.flatMap_right _ fun child _ => hsub child),
        List.append_left_inj, flatMap_eq_iff_of_sublist fun child _ => hsub child,
        flatMap_eq_iff_of_sublist fun child _ => hsub child, ← List.forall_mem_append]
      exact forall₂_congr fun child hc => ih child (mem_of_visible hc)

end Item

namespace SceneView

variable {s s' : SceneView} {scene : Scene} {view : Nat} {itemView : ItemView} {event : ViewEvent}
  {views : List Nat} {p q : Nat → Prop}

-- The list names exactly the views with a property, each one once.
structure Names (views : List Nat) (p : Nat → Prop) : Prop where
  nodup : views.Nodup
  mem   : ∀ view, view ∈ views ↔ p view

theorem Names.congr (h : Names views p) (hq : ∀ v, q v ↔ p v) : Names views q :=
  ⟨h.nodup, fun v => (h.mem v).trans (hq v).symm⟩

theorem Names.add (h : Names views p) (hv : ¬p view) (hq : ∀ v, q v ↔ p v ∨ v = view) :
    Names (views ++ [view]) q where
  nodup := by
    have hnot := hv ∘ (h.mem view).mp
    exact h.nodup.append (List.nodup_singleton view) (List.disjoint_singleton.mpr hnot)
  mem v := by rw [hq, ← h.mem, List.mem_append, List.mem_singleton]

theorem Names.remove (h : Names views p) (hq : ∀ v, q v ↔ v ≠ view ∧ p v) : Names (views.erase view) q :=
  ⟨h.nodup.erase view, fun v => by rw [hq, ← h.mem, h.nodup.mem_erase_iff]⟩

def IsExclusive (s : SceneView) (view : Nat) : Prop :=
  ∃ itemView ∈ s.views view, itemView.exclusive = true

def IsUnderlay (s : SceneView) (view : Nat) : Prop :=
  ∃ itemView ∈ s.views view, itemView.exclusive = true ∧ itemView.underlay = true

-- The lists of the scene view name the views that are flagged.
structure Consistent (s : SceneView) : Prop where
  exclusive : Names s.exclusiveViews s.IsExclusive
  underlay  : Names s.underlayViews s.IsUnderlay

variable {f : Nat → Option ItemView} {P : ItemView → Prop}

theorem exists_view_set (hp : P itemView) (v : Nat) :
    (∃ i ∈ Function.update f view (some itemView) v, P i) ↔ (∃ i ∈ f v, P i) ∨ v = view := by
  by_cases hv : v = view
  case pos => simp [hv, hp]
  case neg => simp [hv]

theorem exists_view_unset {i? : Option ItemView} (hp : ∀ i ∈ i?, ¬P i) (v : Nat) :
    (∃ i ∈ Function.update f view i? v, P i) ↔ v ≠ view ∧ ∃ i ∈ f v, P i := by
  by_cases hv : v = view
  case pos => simpa [hv] using hp
  case neg => simp [hv]

theorem exists_view_same {i? : Option ItemView} (hp : (∃ i ∈ i?, P i) ↔ ∃ i ∈ f view, P i) (v : Nat) :
    (∃ i ∈ Function.update f view i? v, P i) ↔ ∃ i ∈ f v, P i := by
  by_cases hv : v = view
  case pos => simpa [hv] using hp
  case neg => simp [hv]

theorem Consistent.create (h : s.Consistent) (hv : s.views view = none) (tree : Bool) :
    (s.setView view (some { item, tree })).Consistent :=
  ⟨h.exclusive.congr (exists_view_same (by simp [hv])), h.underlay.congr (exists_view_same (by simp [hv]))⟩

theorem Consistent.setExclusive (h : s.Consistent) (hv : s.views view = some itemView) (enable : Bool) :
    (s.setExclusive view itemView enable).Consistent := by
  rw [SceneView.setExclusive]
  split
  case isTrue => exact h
  case isFalse hne =>
    cases enable
    case false =>
      exact ⟨h.exclusive.remove (exists_view_unset (by simp)), h.underlay.remove (exists_view_unset (by simp))⟩
    case true =>
      have hexclusive : ¬s.IsExclusive view := by simpa [IsExclusive, hv] using hne
      have hunderlay : ¬s.IsUnderlay view := by simp_all [IsUnderlay]
      cases hu : itemView.underlay
      case false =>
        exact ⟨h.exclusive.add hexclusive (exists_view_set rfl),
          h.underlay.congr (exists_view_same (by simp_all [IsUnderlay]))⟩
      case true =>
        exact ⟨h.exclusive.add hexclusive (exists_view_set rfl), h.underlay.add hunderlay (exists_view_set ⟨rfl, rfl⟩)⟩

theorem Consistent.setUnderlay (h : s.Consistent) (hv : s.views view = some itemView) (underlay : Bool) :
    (s.setUnderlay view itemView underlay).Consistent := by
  rw [SceneView.setUnderlay]
  split
  case isTrue => exact h
  case isFalse hne =>
    cases hx : itemView.exclusive
    case false =>
      exact ⟨h.exclusive.congr (exists_view_same (by simp [hv, hx])),
        h.underlay.congr (exists_view_same (by simp [hv, hx]))⟩
    case true =>
      cases underlay
      case false =>
        exact ⟨h.exclusive.congr (exists_view_same (by simp [hv, hx])),
          h.underlay.remove (exists_view_unset (by simp))⟩
      case true =>
        have hunderlay : ¬s.IsUnderlay view := by simpa [IsUnderlay, hv, hx] using hne
        exact ⟨h.exclusive.congr (exists_view_same (by simp [hv, hx])),
          h.underlay.add hunderlay (exists_view_set ⟨rfl, rfl⟩)⟩

theorem Consistent.destroy (h : s.Consistent) (hv : s.views view = some itemView) :
    (s.destroy view itemView).Consistent := by
  rw [SceneView.destroy]
  cases hx : itemView.exclusive
  case false =>
    exact ⟨h.exclusive.congr (exists_view_same (by simp [hv, hx])),
      h.underlay.congr (exists_view_same (by simp [hv, hx]))⟩
  case true =>
    exact ⟨h.exclusive.remove (exists_view_unset (by simp)), h.underlay.remove (exists_view_unset (by simp))⟩

theorem Consistent.step (h : s.Consistent) (hs : s.step event = some s') : s'.Consistent := by
  cases event
  case create view item tree =>
    rw [SceneView.step] at hs
    split at hs
    case isTrue => cases hs
    case isFalse hv =>
      cases hs
      exact h.create (by simpa using hv) tree
  all_goals
    have ⟨itemView, hv, hs⟩ := Option.map_eq_some_iff.mp hs
    cases hs
  case setExclusive view enable => exact h.setExclusive hv enable
  case setUnderlay view underlay => exact h.setUnderlay hv underlay
  case destroy view => exact h.destroy hv

theorem Reachable.consistent (h : s.Reachable) : s.Consistent :=
  h.invariant ⟨⟨.nil, by simp [IsExclusive]⟩, ⟨.nil, by simp [IsUnderlay]⟩⟩ fun _ _ _ hc _ hs => hc.step hs

-- What is taken by an underlay is taken by an exclusive view.
theorem Consistent.underlays_subset (h : s.Consistent) : s.underlays ⊆ s.exclusive := by
  intro itemView hi
  have ⟨view, hview, hv⟩ := List.mem_filterMap.mp hi
  have ⟨_, hv', he, _⟩ := (h.underlay.mem view).mp hview
  exact List.mem_filterMap.mpr ⟨view, (h.exclusive.mem view).mpr ⟨_, hv', he⟩, hv⟩

theorem Consistent.shouldRenderItem_of_hole (h : s.Consistent) (hh : s.shouldRenderHole scene item = true) :
    s.shouldRenderItem scene item = false := by
  have ⟨itemView, hi, hr⟩ := List.any_eq_true.mp hh
  have hany : s.exclusive.any (·.shouldRenderItem scene item) = true :=
    List.any_eq_true.mpr ⟨itemView, h.underlays_subset hi, hr⟩
  exact (congrArg not hany).trans Bool.not_true

end SceneView
end KWin
