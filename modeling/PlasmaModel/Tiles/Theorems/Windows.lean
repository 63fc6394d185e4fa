import Mathlib.Algebra.Order.BigOperators.Group.Finset
import PlasmaModel.Tiles.Theorems.Geometry
import PlasmaModel.Tiles.TileManagers

namespace KWin

open RoseTree (node)

namespace Tiles

variable {Window : Type} {t t' : Tiles Window} {p : List Nat} {window : Window}
variable {S S' : Window → Prop}

-- A change to what one tile lists.
def setWindows (f : List Window → List Window) (t : Tiles Window) (p : List Nat) : Tiles Window :=
  t.modifyValue (fun tile => { tile with windows := f tile.windows }) p

-- Windows of layouts other than the root.
def LayoutsList (t : Tiles Window) (S : Window → Prop) : Prop :=
  ∀ c ∈ t.children, c.Forall fun tile children => children ≠ [] → ∀ w ∈ tile.windows, S w

-- What the tiles list.
def lists (t : Tiles Window) : RoseTree (List Window) :=
  t.map Tile.windows

theorem lists_of_shape_eq (h : t'.shape = t.shape) : t'.lists = t.lists := by
  have hs (t : Tiles Window) : t.shape.map Prod.snd = t.lists := RoseTree.map_map _ _ t
  rw [← hs, ← hs, h]

theorem windows_of_lists_eq (h : t'.lists = t.lists) : t'.windows p = t.windows p := by
  have hw (t : Tiles Window) : t.windows p = (t.lists.value? p).elim [] id := by
    rw [lists, RoseTree.value?_map, windows]
    cases RoseTree.value? t p <;> rfl
  rw [hw, hw, h]

theorem layoutsList_iff_lists :
    t.LayoutsList S ↔ ∀ c ∈ t.lists.children, c.Forall fun windows children => children ≠ [] → ∀ w ∈ windows, S w := by
  rw [lists, RoseTree.children_map, List.forall_mem_map]
  refine forall_congr' fun c => forall_congr' fun _ => ?_
  rw [RoseTree.forall_map]
  exact iff_of_eq (congrArg (c.Forall ·) (funext fun tile => funext fun children => by simp))

theorem layoutsList_of_lists_eq (h : t'.lists = t.lists) : t'.LayoutsList S ↔ t.LayoutsList S := by
  rw [layoutsList_iff_lists, layoutsList_iff_lists, h]

@[simp] theorem lists_setLayoutDirection (dir : LayoutDirection) : (t.setLayoutDirection p dir).lists = t.lists :=
  RoseTree.map_modifyValue fun _ _ => rfl

@[simp] theorem lists_setTileGeometry (geom : RectF) : (t.setTileGeometry p geom).lists = t.lists :=
  RoseTree.map_modifyValue fun _ _ => rfl

theorem lists_createChildAt {fuel position : Nat} {geom : RectF} {dir : LayoutDirection}
    (h : t.createChildAt fuel p geom dir position = some t') :
    t'.lists = lists (t.modify (insertChild (min position (t.childCount p)) (.node {} [])) p) := by
  have ⟨t₁, h₁, h⟩ := Option.bind_eq_some_iff.mp h
  cases h
  exact (lists_setLayoutDirection dir).trans (lists_of_shape_eq (shape_setRelativeGeometry h₁))

theorem LayoutsList.insertChild {k : Nat} (ht : t.LayoutsList S) (hS : t.childCount p = 0 → ∀ w ∈ t.windows p, S w) :
    LayoutsList (t.modify (Tiles.insertChild k (.node {} [])) p) S := by
  have hleaf : (node {} [] : Tiles Window).Forall fun tile children => children ≠ [] → ∀ w ∈ tile.windows, S w :=
    .node (absurd rfl) nofun
  have hchildren {cs : List (Tiles Window)} {c : Tiles Window} (hc : c ∈ cs.insertIdx k (.node {} [])) :
      c = .node {} [] ∨ c ∈ cs :=
    List.eq_or_mem_of_mem_insertIdx hc
  refine RoseTree.forall_children_modify (fun v cs cs' hl h hne => h fun hcs => hne ?_) ht (fun _ c hc => ?_)
    fun _ n hn h => ?_
  · rw [hcs] at hl
    exact List.eq_nil_of_length_eq_zero hl.symm
  · cases hchildren hc
    case inl hc => exact hc ▸ hleaf
    case inr hc => exact ht c hc
  · have ⟨hv, hcs⟩ := RoseTree.forall_node.mp ((RoseTree.node_eta n).symm ▸ h)
    refine RoseTree.forall_node.mpr ⟨fun _ w hw => ?_, fun c hc => ?_⟩
    · by_cases hne : n.children = []
      case neg => exact hv (by simpa using hne) w hw
      case pos =>
        rw [childCount_of_subtree? hn, hne, windows, RoseTree.value?, hn] at hS
        exact hS rfl w hw
    · cases hchildren hc
      case inl hc => exact hc ▸ hleaf
      case inr hc => exact hcs c hc

theorem LayoutsList.eraseChild {k : Nat} (ht : t.LayoutsList S) :
    LayoutsList (t.modify (fun n => .node n.value (n.children.eraseIdx k)) p) S := by
  refine RoseTree.forall_children_modify (fun v cs cs' hl h hne => h fun hcs => hne ?_) ht
    (fun _ c hc => ht c (List.mem_of_mem_eraseIdx hc)) fun _ n hn h => ?_
  · rw [hcs] at hl
    exact List.eq_nil_of_length_eq_zero hl.symm
  · have ⟨hv, hcs⟩ := RoseTree.forall_node.mp ((RoseTree.node_eta n).symm ▸ h)
    refine RoseTree.forall_node.mpr ⟨fun hne => hv fun he => hne ?_, fun c hc => hcs c (List.mem_of_mem_eraseIdx hc)⟩
    rw [List.map_eq_nil_iff] at he
    rw [he]
    rfl

theorem LayoutsList.setWindows {f : List Window → List Window} (ht : t.LayoutsList S)
    (hf : p ≠ [] → t.childCount p ≠ 0 → ∀ w ∈ f (t.windows p), w ∈ t.windows p ∨ S w) : (setWindows f t p).LayoutsList S := by
  refine RoseTree.forall_children_modify (fun v cs cs' hl h hne => h fun hcs => hne ?_) ht (fun _ => ht) fun hp n hn h => ?_
  · rw [hcs] at hl
    exact List.eq_nil_of_length_eq_zero hl.symm
  · have ⟨hv, hcs⟩ := RoseTree.forall_node.mp ((RoseTree.node_eta n).symm ▸ h)
    refine RoseTree.forall_node.mpr ⟨fun hne w hw => ?_, hcs⟩
    have hwin : t.windows p = n.value.windows := by rw [windows, RoseTree.value?, hn]; rfl
    rw [hwin, childCount_of_subtree? hn] at hf
    cases hf hp (fun h0 => hne (by rw [List.eq_nil_of_length_eq_zero h0]; rfl)) w hw
    case inl hw => exact hv hne w hw
    case inr hw => exact hw

theorem subtree?_of_mem_windows {w : Window} (hw : w ∈ t.windows p) :
    ∃ n, t.subtree? p = some n ∧ t.windows p = n.value.windows := by
  rw [windows, RoseTree.value?] at hw ⊢
  cases hn : t.subtree? p
  case none => simp [hn] at hw
  case some n => exact ⟨n, rfl, rfl⟩

theorem LayoutsList.windows_eq_nil (ht : t.LayoutsList fun _ => False) (hp : p ≠ []) (hc : t.childCount p ≠ 0) : t.windows p = [] := by
  refine List.eq_nil_iff_forall_not_mem.mpr fun w hw => ?_
  have ⟨n, hn, hwin⟩ := subtree?_of_mem_windows hw
  have ⟨q, i, hp⟩ := (List.eq_nil_or_concat' p).resolve_left hp
  subst hp
  have ⟨c, hi, hc'⟩ := Option.bind_eq_some_iff.mp ((RoseTree.subtree?_append q [i]).symm.trans hn)
  have ⟨hlist, _⟩ := RoseTree.forall_node.mp ((RoseTree.node_eta n).symm ▸ (ht c (List.mem_of_getElem? hi)).subtree hc')
  rw [childCount_of_subtree? hn] at hc
  exact hlist (fun h => hc (by rw [List.map_eq_nil_iff.mp h]; rfl)) w (hwin ▸ hw)

variable [DecidableEq Window]

-- How often the tiles list a window.
def listings (t : Tiles Window) (window : Window) : Nat :=
  t.sum fun tile => tile.windows.count window

theorem listings_of_lists_eq (h : t'.lists = t.lists) : t'.listings window = t.listings window := by
  have hs (t : Tiles Window) : t.lists.sum (·.count window) = t.listings window := RoseTree.sum_map _ _ t
  rw [← hs, ← hs, h]

theorem listings_insertChild {k : Nat} (hk : k ≤ t.childCount p) :
    Tiles.listings (t.modify (insertChild k (.node {} [])) p) window = t.listings window := by
  cases hn : t.subtree? p
  case none => rw [RoseTree.modify_of_subtree?_eq_none hn]
  case some n =>
    rw [childCount_of_subtree? hn] at hk
    have h := RoseTree.sum_modify (h := fun tile : Tile Window => tile.windows.count window)
      (f := insertChild k (.node {} [])) hn
    have hsum := ((List.perm_insertIdx (.node {} []) n.children hk).map
      (RoseTree.sum fun tile : Tile Window => tile.windows.count window)).sum_eq
    cases n with | node v cs =>
    rw [insertChild, RoseTree.sum_node, RoseTree.sum_node, hsum, List.map_cons, List.sum_cons, RoseTree.sum_node] at h
    simp only [List.count_nil, List.map_nil, List.sum_nil] at h
    exact Nat.add_right_cancel (h.trans (by simp [listings]))

theorem listings_eraseChild {k : Nat} :
    Tiles.listings (t.modify (fun n => .node n.value (n.children.eraseIdx k)) p) window ≤ t.listings window := by
  cases hn : t.subtree? p
  case none => rw [RoseTree.modify_of_subtree?_eq_none hn]
  case some n =>
    have h := RoseTree.sum_modify (h := fun tile : Tile Window => tile.windows.count window)
      (f := fun n => .node n.value (n.children.eraseIdx k)) hn
    have hsum := ((List.eraseIdx_sublist n.children k).map
      (RoseTree.sum fun tile : Tile Window => tile.windows.count window)).sum_le_sum fun _ _ => Nat.zero_le _
    cases n with | node v cs =>
    rw [RoseTree.sum_node, RoseTree.sum_node] at h
    dsimp only [RoseTree.value_node, RoseTree.children_node] at h hsum
    change RoseTree.sum _ _ ≤ RoseTree.sum _ _
    omega

theorem LayoutsList.imp (h : ∀ w, 0 < t.listings w → S w → S' w) (ht : t.LayoutsList S) : t.LayoutsList S' := by
  intro c hc
  refine (ht c hc).imp fun tile htile children hlist hne w hw => h w ?_ (hlist hne w hw)
  have hmem : tile ∈ t.preorder := by
    cases t
    rw [RoseTree.preorder_node]
    exact List.mem_cons_of_mem _ (List.mem_flatMap.mpr ⟨c, hc, htile⟩)
  exact (List.count_pos_iff.mpr hw).trans_le (RoseTree.le_sum (h := fun tile : Tile Window => tile.windows.count w) hmem)

theorem listings_setWindows {f : List Window → List Window} {n : Tiles Window} (hn : t.subtree? p = some n) :
    (setWindows f t p).listings window + n.value.windows.count window =
      t.listings window + (f n.value.windows).count window :=
  RoseTree.sum_modifyValue (h := fun tile : Tile Window => tile.windows.count window) hn

theorem listings_setWindows_le {f : List Window → List Window} {k : Nat} (hf : ∀ l, (f l).count window ≤ l.count window + k) :
    (setWindows f t p).listings window ≤ t.listings window + k := by
  cases hn : t.subtree? p
  case none =>
    rw [setWindows, RoseTree.modifyValue, RoseTree.modify_of_subtree?_eq_none hn]
    exact Nat.le_add_right _ _
  case some n =>
    have h : (setWindows f t p).listings window + _ = _ := listings_setWindows hn
    have := hf n.value.windows
    omega

section

-- All tiles forget a window.
variable {erase : Tile Window → Tile Window} (herase : ∀ tile, (erase tile).windows = tile.windows.erase window)
include herase

theorem listings_map_erase_self (h : t.listings window ≤ 1) : Tiles.listings (t.map erase) window = 0 := by
  rw [listings, RoseTree.sum_map]
  refine List.sum_eq_zero fun k hk => ?_
  have ⟨tile, htile, hk⟩ := List.mem_map.mp hk
  have hle := (RoseTree.le_sum (h := fun tile : Tile Window => tile.windows.count window) htile).trans h
  rw [← hk, Function.comp_apply, herase, List.count_erase_self]
  exact Nat.sub_eq_zero_of_le hle

theorem listings_map_erase_le {w : Window} : Tiles.listings (t.map erase) w ≤ t.listings w := by
  rw [listings, RoseTree.sum_map]
  refine RoseTree.sum_le_sum fun tile _ => ?_
  rw [Function.comp_apply, herase]
  exact List.erase_sublist.count_le w

theorem LayoutsList.map_erase (ht : t.LayoutsList S) : LayoutsList (t.map erase) S := by
  intro c hc
  rw [RoseTree.children_map] at hc
  have ⟨d, hd, hc⟩ := List.mem_map.mp hc
  subst hc
  refine RoseTree.forall_map.mpr ((ht d hd).imp fun tile _ children hlist hne w hw => ?_)
  rw [herase] at hw
  exact hlist (fun h => hne (by rw [h]; rfl)) w (List.mem_of_mem_erase hw)

end

end Tiles

variable {Output Desktop Window : Type} [DecidableEq Window] [Fintype Output]

namespace TileManagers

variable {tm : TileManagers Output Desktop Window} {tile : TileAt Output Desktop} {output : Output} {desktop : Desktop}
variable {window : Window} {S : Output → Desktop → Window → Prop} {f : List Window → List Window} {t : Tiles Window}
variable {p : List Nat}

-- How often the tiles of a desktop list a window, on all outputs.
def listings (tm : TileManagers Output Desktop Window) (desktop : Desktop) (window : Window) : Nat :=
  ∑ output, ((tm.rootTile output desktop).listings window + (tm.quickRootTile output desktop).listings window)

-- Each window is listed once on a desktop, and layouts list no windows but those in `S`, which are on the move.
structure Listed (S : Output → Desktop → Window → Prop) (tm : TileManagers Output Desktop Window) : Prop where
  once   : ∀ desktop window, tm.listings desktop window ≤ 1
  custom : ∀ output desktop, (tm.rootTile output desktop).LayoutsList (S output desktop)
  quick  : ∀ output desktop, (tm.quickRootTile output desktop).LayoutsList fun _ => False

-- The windows of a new layout that are still there.
def Leaving (output : Output) (desktop : Desktop) (windows : List Window) (output' : Output) (desktop' : Desktop)
    (window : Window) : Prop :=
  output' = output ∧ desktop' = desktop ∧ window ∈ windows

theorem Listed.leave {windows : List Window} (h : tm.Listed (Leaving output desktop (window :: windows)))
    (hgone : tm.listings desktop window = 0) : tm.Listed (Leaving output desktop windows) where
  once := h.once
  quick := h.quick
  custom output' desktop' := by
    refine (h.custom output' desktop').imp fun w hw ⟨ho, hd, hw'⟩ => ⟨ho, hd, ?_⟩
    refine (List.mem_cons.mp hw').resolve_left fun he => ?_
    subst ho hd he
    have := Finset.single_le_sum (f := fun o => (tm.rootTile o desktop').listings w +
      (tm.quickRootTile o desktop').listings w) (fun _ _ => Nat.zero_le _) (Finset.mem_univ output')
    have hgone : _ = 0 := hgone
    rw [TileManagers.listings] at hgone
    omega

theorem Listed.nodup (h : tm.Listed S) : ((tm.rootTile output desktop).windows p).Nodup := by
  refine List.nodup_iff_count_le_one.mpr fun w => ?_
  by_cases hw : w ∈ (tm.rootTile output desktop).windows p
  case neg => exact (List.count_eq_zero_of_not_mem hw).trans_le (Nat.zero_le 1)
  case pos =>
    have ⟨n, hn, hwin⟩ := Tiles.subtree?_of_mem_windows hw
    have htile := RoseTree.le_sum (h := fun tile : Tile Window => tile.windows.count w)
      (RoseTree.preorder_subset hn (RoseTree.value_mem_preorder n))
    have htotal := Finset.single_le_sum (f := fun o => (tm.rootTile o desktop).listings w +
      (tm.quickRootTile o desktop).listings w) (fun _ _ => Nat.zero_le _) (Finset.mem_univ output)
    rw [hwin]
    exact htile.trans ((Nat.le_add_right _ _).trans (htotal.trans (h.once desktop w)))

-- Nothing is on the move.
abbrev Settled (tm : TileManagers Output Desktop Window) : Prop :=
  tm.Listed fun _ _ _ => False

theorem Settled.addRemoved (h : tm.Settled) : (tm.addRemoved output desktop t).Settled :=
  { h with }

variable [DecidableEq Desktop]

theorem listings_evacuate_self (h : tm.listings desktop window ≤ 1) :
    (tm.evacuate desktop window).listings desktop window = 0 := by
  refine Finset.sum_eq_zero fun output _ => ?_
  have hle := (Finset.single_le_sum (f := fun o => (tm.rootTile o desktop).listings window +
    (tm.quickRootTile o desktop).listings window) (fun _ _ => Nat.zero_le _) (Finset.mem_univ output)).trans h
  simp only [evacuate, if_true]
  rw [Tiles.listings_map_erase_self (fun _ => rfl) ((Nat.le_add_right _ _).trans hle),
    Tiles.listings_map_erase_self (fun _ => rfl) ((Nat.le_add_left _ _).trans hle), Nat.add_zero]

theorem listings_evacuate_le {desktop' : Desktop} {window' : Window} :
    (tm.evacuate desktop window).listings desktop' window' ≤ tm.listings desktop' window' := by
  refine Finset.sum_le_sum fun output _ => ?_
  simp only [evacuate]
  split
  case isTrue =>
    exact Nat.add_le_add (Tiles.listings_map_erase_le fun _ => rfl) (Tiles.listings_map_erase_le fun _ => rfl)
  case isFalse => exact le_rfl

theorem Listed.evacuate (h : tm.Listed S) : (tm.evacuate desktop window).Listed S where
  once desktop' window' := listings_evacuate_le.trans (h.once desktop' window')
  custom output desktop' := by
    simp only [TileManagers.evacuate]
    split
    case isTrue => exact (h.custom output desktop').map_erase fun _ => rfl
    case isFalse => exact h.custom output desktop'
  quick output desktop' := by
    simp only [TileManagers.evacuate]
    split
    case isTrue => exact (h.quick output desktop').map_erase fun _ => rfl
    case isFalse => exact h.quick output desktop'

variable [DecidableEq Output]

theorem sum_add_of_eq_off {g h : Output → Nat} (output : Output) (heq : ∀ o ≠ output, g o = h o) :
    ∑ o, g o + h output = ∑ o, h o + g output := by
  have hg := Finset.add_sum_erase _ g (Finset.mem_univ output)
  have hh := Finset.add_sum_erase _ h (Finset.mem_univ output)
  have hs : ∑ o ∈ Finset.univ.erase output, g o = ∑ o ∈ Finset.univ.erase output, h o :=
    Finset.sum_congr rfl fun o ho => heq o (Finset.ne_of_mem_erase ho)
  omega

theorem listings_setRootTile :
    (tm.setRootTile output desktop t).listings desktop window + (tm.rootTile output desktop).listings window =
      tm.listings desktop window + t.listings window := by
  have h := sum_add_of_eq_off output
    (g := fun o => ((tm.setRootTile output desktop t).rootTile o desktop).listings window +
      ((tm.setRootTile output desktop t).quickRootTile o desktop).listings window)
    (h := fun o => (tm.rootTile o desktop).listings window + (tm.quickRootTile o desktop).listings window)
    fun o ho => by simp [setRootTile, ho]
  simp only [setRootTile, and_self, if_true] at h
  simp only [listings, setRootTile]
  omega

theorem listings_setRootTile_ne {desktop' : Desktop} (h : desktop' ≠ desktop) :
    (tm.setRootTile output desktop t).listings desktop' window = tm.listings desktop' window := by
  simp [listings, setRootTile, h]

theorem listings_setRootTile_le {desktop' : Desktop} {k : Nat}
    (h : t.listings window ≤ (tm.rootTile output desktop).listings window + k) :
    (tm.setRootTile output desktop t).listings desktop' window ≤ tm.listings desktop' window + k := by
  by_cases hd : desktop' = desktop
  case pos =>
    subst hd
    have : (tm.setRootTile output desktop' t).listings desktop' window + _ = _ := listings_setRootTile
    omega
  case neg =>
    rw [listings_setRootTile_ne hd]
    exact Nat.le_add_right _ _

theorem Listed.setRootTile (h : tm.Listed S) (hw : ∀ window, t.listings window ≤ (tm.rootTile output desktop).listings window)
    (hl : t.LayoutsList (S output desktop)) : (tm.setRootTile output desktop t).Listed S where
  once desktop window := (listings_setRootTile_le (k := 0) (hw window)).trans (h.once desktop window)
  custom output' desktop' := by
    rw [TileManagers.setRootTile]
    dsimp only
    split
    case isTrue he =>
      cases he.left
      cases he.right
      exact hl
    case isFalse => exact h.custom output' desktop'
  quick := h.quick

-- Changes to what one tile lists.

def desktop? : TileAt Output Desktop → Option Desktop
  | .custom _ desktop _ => some desktop
  | .quick _ desktop _ => some desktop
  | .removed .. => none

-- A tile that has a parent and tiles of its own.
def isInnerLayout (tm : TileManagers Output Desktop Window) : TileAt Output Desktop → Bool
  | .custom output desktop p => p ≠ [] ∧ (tm.rootTile output desktop).childCount p ≠ 0
  | .quick output desktop p => p ≠ [] ∧ (tm.quickRootTile output desktop).childCount p ≠ 0
  | .removed .. => false

theorem listings_setWindows_le {k : Nat} (hf : ∀ l, (f l).count window ≤ l.count window + k) :
    (tm.setWindows f tile).listings desktop window ≤ tm.listings desktop window + k := by
  cases tile
  case custom output desktop' p => exact listings_setRootTile_le (Tiles.listings_setWindows_le hf)
  case removed => exact Nat.le_add_right _ _
  case quick output desktop' p =>
    have h := sum_add_of_eq_off output
      (g := fun o => ((tm.setWindows f (.quick output desktop' p)).rootTile o desktop).listings window +
        ((tm.setWindows f (.quick output desktop' p)).quickRootTile o desktop).listings window)
      (h := fun o => (tm.rootTile o desktop).listings window + (tm.quickRootTile o desktop).listings window)
      fun o ho => by simp [setWindows, ho]
    have hle : ((tm.setWindows f (.quick output desktop' p)).quickRootTile output desktop).listings window ≤
        (tm.quickRootTile output desktop).listings window + k := by
      rw [setWindows]
      dsimp only
      split
      case isTrue => exact Tiles.listings_setWindows_le hf
      case isFalse => exact Nat.le_add_right _ _
    simp only [listings]
    simp only [setWindows] at h hle ⊢
    omega

theorem listings_setWindows_ne (hd : desktop? tile ≠ some desktop) :
    (tm.setWindows f tile).listings desktop window = tm.listings desktop window := by
  cases tile
  case custom output desktop' p => exact listings_setRootTile_ne fun h => hd (congrArg some h.symm)
  case removed => rfl
  case quick output desktop' p =>
    have hd : ¬desktop = desktop' := fun h => hd (congrArg some h.symm)
    simp [listings, setWindows, hd]

theorem Listed.setWindows_layouts (h : tm.Listed S) (hf : isInnerLayout tm tile → ∀ l, f l ⊆ l) :
    (∀ output desktop, ((tm.setWindows f tile).rootTile output desktop).LayoutsList (S output desktop)) ∧
      ∀ output desktop, ((tm.setWindows f tile).quickRootTile output desktop).LayoutsList fun _ => False := by
  cases tile
  case removed => exact ⟨h.custom, h.quick⟩
  case custom output desktop p =>
    refine ⟨fun output' desktop' => ?_, h.quick⟩
    rw [TileManagers.setWindows, TileManagers.setRootTile]
    dsimp only
    split
    case isFalse => exact h.custom output' desktop'
    case isTrue he =>
      cases he.left
      cases he.right
      exact (h.custom output desktop).setWindows fun hp hc w hw => .inl (hf (by simp [isInnerLayout, hp, hc]) _ hw)
  case quick output desktop p =>
    refine ⟨h.custom, fun output' desktop' => ?_⟩
    rw [setWindows]
    dsimp only
    split
    case isFalse => exact h.quick output' desktop'
    case isTrue he =>
      cases he.left
      cases he.right
      exact (h.quick output desktop).setWindows fun hp hc w hw => .inl (hf (by simp [isInnerLayout, hp, hc]) _ hw)

theorem Listed.unmanage (h : tm.Listed S) : (tm.unmanage tile window).Listed S where
  once desktop w :=
    (listings_setWindows_le (k := 0) fun _ => List.erase_sublist.count_le w).trans (h.once desktop w)
  custom := (h.setWindows_layouts fun _ _ => List.erase_subset).left
  quick := (h.setWindows_layouts fun _ _ => List.erase_subset).right

-- A window that is listed nowhere else.
theorem Listed.add (h : tm.Listed S) (hdesktop : ∀ d ∈ desktop? tile, tm.listings d window = 0)
    (hleaf : isInnerLayout tm tile = false) : (tm.setWindows (· ++ [window]) tile).Listed S where
  once d w := by
    by_cases hd : desktop? tile = some d
    case neg => exact (listings_setWindows_ne hd).trans_le (h.once d w)
    case pos =>
      by_cases hw : w = window
      case pos =>
        subst hw
        have : (tm.setWindows (· ++ [w]) tile).listings d w ≤ tm.listings d w + 1 := listings_setWindows_le fun l => by simp
        rwa [hdesktop d hd] at this
      case neg =>
        refine (listings_setWindows_le (k := 0) fun l => ?_).trans (h.once d w)
        rw [List.count_append, List.count_singleton, beq_false_of_ne (Ne.symm hw)]
        exact le_rfl
  custom := (h.setWindows_layouts fun hl => absurd hl (by simp [hleaf])).left
  quick := (h.setWindows_layouts fun hl => absurd hl (by simp [hleaf])).right

-- A window leaves all tiles of a desktop.

omit [DecidableEq Output] [Fintype Output] in
theorem isInnerLayout_evacuate : isInnerLayout (tm.evacuate desktop window) tile = isInnerLayout tm tile := by
  cases tile
  case removed => rfl
  all_goals
    simp only [isInnerLayout, evacuate]
    split
    case isTrue => rw [RoseTree.childCount_map]
    case isFalse => rfl

omit [DecidableEq Window] [Fintype Output] in
theorem isInnerLayout_setWindows {tile' : TileAt Output Desktop} :
    isInnerLayout (tm.setWindows f tile') tile = isInnerLayout tm tile := by
  have hcustom (o d q) : ((tm.setWindows f tile').rootTile o d).childCount q = (tm.rootTile o d).childCount q := by
    cases tile'
    case quick => rfl
    case removed => rfl
    case custom output desktop p =>
      rw [setWindows, setRootTile]
      dsimp only
      split
      case isTrue he => rw [RoseTree.childCount_modifyValue, he.left, he.right]
      case isFalse => rfl
  have hquick (o d q) : ((tm.setWindows f tile').quickRootTile o d).childCount q = (tm.quickRootTile o d).childCount q := by
    cases tile'
    case custom => rfl
    case removed => rfl
    case quick output desktop p =>
      rw [setWindows]
      dsimp only
      split
      case isTrue => exact RoseTree.childCount_modifyValue q
      case isFalse => rfl
  cases tile
  case removed => rfl
  case custom o d q => simp only [isInnerLayout, hcustom]
  case quick o d q => simp only [isInnerLayout, hquick]

omit [DecidableEq Output] [DecidableEq Desktop] [DecidableEq Window] [Fintype Output] in
theorem desktop?_eq {content : Desktop × Tile Window} (h : tm.tile? tile = some content) {d : Desktop}
    (hd : d ∈ desktop? tile) : d = content.1 := by
  cases tile
  case removed => cases hd
  all_goals
    cases hd
    have ⟨_, _, h⟩ := Option.map_eq_some_iff.mp h
    rw [← h]

theorem Listed.manage {system : WindowSystem Output Desktop Window} (h : tm.Listed S)
    (hleaf : isInnerLayout tm tile = false) : (tm.manage system tile window).Listed S := by
  rw [TileManagers.manage]
  split
  case h_1 => exact h
  case h_2 desktop _ _ _ windows htile =>
    split
    case isTrue => exact h
    case isFalse =>
      split
      case isTrue => exact h
      case isFalse =>
        split
        case isTrue => exact h
        case isFalse =>
          refine h.evacuate.add (fun d hd => ?_) (isInnerLayout_evacuate.trans hleaf)
          cases desktop?_eq htile hd
          exact listings_evacuate_self (h.once _ window)

-- A window goes to a tile that is no layout.

variable {system : WindowSystem Output Desktop Window}

theorem foldl_choose {α : Type} {step : Option α → α → Option α} {l : List α} {a : α} {acc : Option α}
    (hstep : ∀ acc b, step acc b = some b ∨ step acc b = acc) (h : l.foldl step acc = some a) : a ∈ l ∨ acc = some a := by
  induction l generalizing acc
  case nil => exact .inr h
  case cons b l ih =>
    cases ih h
    case inl h => exact .inl (List.mem_cons_of_mem _ h)
    case inr h =>
      cases hstep acc b
      case inl hb =>
        cases hb.symm.trans h
        exact .inl List.mem_cons_self
      case inr hb => exact .inr (hb.symm.trans h)

omit [DecidableEq Window] in
theorem nearest_mem {distance : RectF → ℚ} (h : nearest distance t = some p) : p ≠ [] ∧ t.childCount p = 0 := by
  have hmem : p ∈ t.paths.filter (t.childCount · = 0) := by
    refine (foldl_choose (fun acc q => ?_) h).resolve_right nofun
    cases acc
    case none => exact .inl rfl
    case some r =>
      dsimp only
      split
      case isTrue => exact .inl rfl
      case isFalse => exact .inr rfl
  have ⟨hp, hc⟩ := List.mem_filter.mp hmem
  exact ⟨(RoseTree.mem_paths hp).left, of_decide_eq_true hc⟩

omit [DecidableEq Output] [DecidableEq Desktop] [DecidableEq Window] [Fintype Output] in
theorem pick_leaf (h : tm.pick system output desktop window = some tile) : isInnerLayout tm tile = false := by
  have ⟨p, hp, h⟩ := Option.map_eq_some_iff.mp h
  subst h
  simp [isInnerLayout, (nearest_mem hp).right]

theorem Listed.adoptWindows {windows : List Window} (h : tm.Listed S) :
    (tm.adoptWindows system output desktop windows).Listed S := by
  induction windows generalizing tm
  case nil => exact h
  case cons window windows ih =>
    apply ih
    cases hpick : tm.pick system output desktop window
    case none => exact h
    case some => exact h.manage (pick_leaf hpick)

theorem listings_unmanage (h : tm.listings desktop window ≤ 1) (hw : window ∈ (tm.rootTile output desktop).windows p) :
    (tm.unmanage (.custom output desktop p) window).listings desktop window = 0 := by
  have ⟨n, hn, hwin⟩ := Tiles.subtree?_of_mem_windows hw
  rw [hwin] at hw
  have hpos := List.count_pos_iff.mpr hw
  have htile : (Tiles.setWindows (·.erase window) (tm.rootTile output desktop) p).listings window + _ = _ :=
    Tiles.listings_setWindows hn
  have htotal : (tm.setRootTile output desktop (Tiles.setWindows (·.erase window) (tm.rootTile output desktop) p)).listings
    desktop window + _ = _ := listings_setRootTile
  rw [List.count_erase_self] at htile
  change (tm.setRootTile output desktop (Tiles.setWindows (·.erase window) (tm.rootTile output desktop) p)).listings
    desktop window = 0
  omega

omit [DecidableEq Window] [Fintype Output] in
theorem mem_windows_setWindows {w : Window} (hf : ∀ l, w ∈ l → w ∈ f l) (hw : w ∈ (tm.rootTile output desktop).windows p) :
    w ∈ ((tm.setWindows f tile).rootTile output desktop).windows p := by
  cases tile
  case quick => exact hw
  case removed => exact hw
  case custom output' desktop' q =>
    rw [setWindows, setRootTile]
    dsimp only
    split
    case isFalse => exact hw
    case isTrue he =>
      cases he.left
      cases he.right
      have ⟨n, hn, hwin⟩ := Tiles.subtree?_of_mem_windows hw
      rw [hwin] at hw
      rw [Tiles.windows, RoseTree.value?_modifyValue, RoseTree.value?, hn]
      split
      case isTrue => exact hf _ hw
      case isFalse => exact hw

omit [DecidableEq Output] [Fintype Output] in
theorem mem_windows_evacuate {w : Window} (hne : w ≠ window) {desktop' : Desktop}
    (hw : w ∈ (tm.rootTile output desktop).windows p) :
    w ∈ ((tm.evacuate desktop' window).rootTile output desktop).windows p := by
  simp only [evacuate]
  split
  case isFalse => exact hw
  case isTrue =>
    have ⟨n, hn, hwin⟩ := Tiles.subtree?_of_mem_windows hw
    rw [hwin] at hw
    rw [Tiles.windows, RoseTree.value?_map, RoseTree.value?, hn]
    exact (List.mem_erase_of_ne hne).mpr hw

omit [Fintype Output] in
theorem mem_windows_manage {w : Window} (hne : w ≠ window) (hw : w ∈ (tm.rootTile output desktop).windows p) :
    w ∈ ((tm.manage system tile window).rootTile output desktop).windows p := by
  rw [manage]
  split
  case h_1 => exact hw
  case h_2 =>
    split
    case isTrue => exact hw
    case isFalse =>
      split
      case isTrue => exact hw
      case isFalse =>
        split
        case isTrue => exact hw
        case isFalse =>
          exact mem_windows_setWindows (fun l hl => List.mem_append_left _ hl) (mem_windows_evacuate hne hw)

theorem Listed.moveWindows {windows : List Window} (h : tm.Listed (Leaving output desktop windows)) (hnodup : windows.Nodup)
    (hmem : ∀ w ∈ windows, w ∈ (tm.rootTile output desktop).windows p) :
    (tm.moveWindows system output desktop p windows).Listed fun _ _ _ => False := by
  induction windows generalizing tm
  case nil => exact { h with custom := fun o d => (h.custom o d).imp fun w _ ⟨_, _, hw⟩ => nomatch hw }
  case cons window windows ih =>
    have ⟨hnot, hnodup⟩ := List.nodup_cons.mp hnodup
    have hgone := listings_unmanage (h.once desktop window) (hmem window List.mem_cons_self)
    have hunmanage : (tm.unmanage (.custom output desktop p) window).Listed _ := h.unmanage
    have hleft := hunmanage.leave hgone
    have hmem (w) (hw : w ∈ windows) : w ≠ window ∧
        w ∈ ((tm.unmanage (.custom output desktop p) window).rootTile output desktop).windows p := by
      have hne : w ≠ window := fun h => hnot (h ▸ hw)
      exact ⟨hne, mem_windows_setWindows (fun l hl => (List.mem_erase_of_ne hne).mpr hl)
        (hmem w (List.mem_cons_of_mem _ hw))⟩
    rw [TileManagers.moveWindows]
    cases hpick : tm.pick system output desktop window
    case none => exact ih hleft hnodup fun w hw => (hmem w hw).right
    case some tile =>
      refine ih (hleft.manage ?_) hnodup fun w hw => mem_windows_manage (hmem w hw).left (hmem w hw).right
      rw [TileManagers.unmanage, isInnerLayout_setWindows]
      exact pick_leaf hpick

-- Tiles are split and removed.

theorem Listed.setRootTile_lists (h : tm.Listed S) (ht : t.lists = (tm.rootTile output desktop).lists) :
    (tm.setRootTile output desktop t).Listed S :=
  h.setRootTile (fun _ => (Tiles.listings_of_lists_eq ht).le) ((Tiles.layoutsList_of_lists_eq ht).mpr (h.custom _ _))

variable {fuel row position : Nat} {geom : RectF} {dir : LayoutDirection} {tm' : TileManagers Output Desktop Window}

theorem Settled.createChildAt (h : tm.Settled)
    (hs : tm.createChildAt system fuel output desktop p geom dir position = some tm') : tm'.Settled := by
  have ⟨t, ht, hs⟩ := Option.bind_eq_some_iff.mp hs
  have hlists := Tiles.lists_createChildAt ht
  have hsum (w) : t.listings w ≤ (tm.rootTile output desktop).listings w :=
    ((Tiles.listings_of_lists_eq hlists).trans (Tiles.listings_insertChild (Nat.min_le_right _ _))).le
  cases hs
  split
  case isFalse hne =>
    refine h.setRootTile hsum ((Tiles.layoutsList_of_lists_eq hlists).mpr ?_)
    exact (h.custom output desktop).insertChild fun h0 => absurd h0 hne
  case isTrue =>
    have hleaving : tm.Listed (Leaving output desktop ((tm.rootTile output desktop).windows p)) :=
      { h with custom := fun o d => (h.custom o d).imp fun _ _ => False.elim }
    refine (hleaving.setRootTile hsum ?_).moveWindows h.nodup fun w hw => ?_
    · exact (Tiles.layoutsList_of_lists_eq hlists).mpr
        ((hleaving.custom output desktop).insertChild fun _ w hw => ⟨rfl, rfl, hw⟩)
    · have ⟨n, hn, hwin⟩ := Tiles.subtree?_of_mem_windows hw
      rw [rootTile_setRootTile, Tiles.windows_of_lists_eq hlists, Tiles.windows, RoseTree.value?,
        RoseTree.subtree?_modify_self, hn]
      rwa [hwin] at hw

theorem Settled.splitLayout {parent : List Nat} (h : tm.Settled)
    (hs : tm.splitLayout system fuel output desktop row parent dir = some tm') : tm'.Settled := by
  cases dir <;> exact Settled.createChildAt (h.setRootTile_lists (by simp)) hs

theorem Settled.splitTile (h : tm.Settled) (hs : tm.splitTile system fuel output desktop p dir = some tm') :
    tm'.Settled := by
  cases dir
  case floating => exact Settled.createChildAt (h.setRootTile_lists (by simp)) hs
  all_goals
    have ⟨tm₁, h₁, hs⟩ := Option.bind_eq_some_iff.mp hs
    exact (Settled.createChildAt (h.setRootTile_lists (by simp)) h₁).createChildAt hs

theorem Settled.split (h : tm.Settled) (hs : tm.split system fuel output desktop p dir = some tm') : tm'.Settled := by
  cases p
  case nil => exact h.splitTile hs
  case cons row parent =>
    rw [TileManagers.split] at hs
    split at hs
    case isTrue => exact h.splitLayout hs
    case isFalse => exact h.splitTile hs

omit [DecidableEq Window] in
theorem lists_fillGap {parent : List Nat} {start : Edge} {t' : Tiles Window}
    (h : fillGap fuel t parent row geom start = some t') : t'.lists = t.lists := by
  have hset {t t' : Tiles Window} {p geom} (h : t.setRelativeGeometry fuel p geom = some t') : t'.lists = t.lists :=
    Tiles.lists_of_shape_eq (Tiles.shape_setRelativeGeometry h)
  rw [fillGap] at h
  split at h
  case isTrue =>
    have ⟨t₁, h₁, h⟩ := Option.bind_eq_some_iff.mp h
    exact (hset h).trans (hset h₁)
  case isFalse =>
    split at h
    case isTrue => exact hset h
    case isFalse =>
      split at h
      case isTrue => exact hset h
      case isFalse =>
        cases h
        rfl

omit [DecidableEq Window] in
theorem lists_takeTile {parent : List Nat} {t' : Tiles Window} (h : takeTile fuel t row parent = some t') :
    t'.lists = Tiles.lists (t.modify (fun n => .node n.value (n.children.eraseIdx row)) parent) := by
  rw [takeTile] at h
  split at h
  case h_1 => exact lists_fillGap h
  case h_2 => exact lists_fillGap h
  case h_3 =>
    cases h
    rfl

theorem Settled.eraseChild {parent : List Nat} (h : tm.Settled)
    (ht : t.lists = Tiles.lists ((tm.rootTile output desktop).modify
      (fun n => .node n.value (n.children.eraseIdx row)) parent)) : (tm.setRootTile output desktop t).Settled :=
  Listed.setRootTile h (fun _ => (Tiles.listings_of_lists_eq ht).trans_le Tiles.listings_eraseChild)
    ((Tiles.layoutsList_of_lists_eq ht).mpr (h.custom output desktop).eraseChild)

theorem Settled.removeLast {parent : List Nat} (h : tm.Settled) : (tm.removeLast system output desktop parent).Settled := by
  rw [TileManagers.removeLast]
  split
  case h_1 => exact h
  case h_2 =>
    split
    case isFalse => exact h
    case isTrue => exact Settled.addRemoved (Listed.adoptWindows (h.eraseChild rfl))

theorem Settled.remove (h : tm.Settled) (hs : tm.remove system fuel output desktop p = some tm') : tm'.Settled := by
  cases p
  case nil =>
    cases hs
    exact h
  case cons row parent =>
    rw [TileManagers.remove] at hs
    split at hs
    case h_1 =>
      cases hs
      exact h
    case h_2 =>
      have ⟨t, ht, hs⟩ := Option.bind_eq_some_iff.mp hs
      cases hs
      exact Settled.addRemoved (Listed.adoptWindows (h.eraseChild (lists_takeTile ht)).removeLast)

theorem Settled.delete {i : Nat} (h : tm.Settled) : (tm.delete system i).Settled := by
  rw [TileManagers.delete]
  split
  case h_1 => exact h
  case h_2 => exact Listed.adoptWindows { h with }

-- No window is added to a tile that has a parent and tiles of its own.
def AddsToLeaf (tm : TileManagers Output Desktop Window) : TileEvent Output Desktop Window → Prop
  | .manage tile _ => isInnerLayout tm tile = false
  | _ => True

theorem Reachable.settled (h : tm.Reachable NoWindows AddsToLeaf) : tm.Settled := by
  induction h
  case init h =>
    have ⟨_, h⟩ := h
    have hsum {t : Tiles Window} (ht : ∀ tile ∈ t.preorder, tile.windows = []) (w) : t.listings w = 0 :=
      List.sum_eq_zero fun k hk => by
        have ⟨tile, htile, hk⟩ := List.mem_map.mp hk
        rw [← hk, ht tile htile, List.count_nil]
    have hlist {t : Tiles Window} (ht : ∀ tile ∈ t.preorder, tile.windows = []) : t.LayoutsList fun _ => False := by
      cases t with | node tile cs =>
      refine fun c hc => RoseTree.forall_of_preorder fun tile htile children _ w hw => ?_
      rw [ht tile (by rw [RoseTree.preorder_node]; exact List.mem_cons_of_mem _ (List.mem_flatMap.mpr ⟨c, hc, htile⟩))] at hw
      cases hw
    exact {
      once := fun _ _ => (Finset.sum_eq_zero fun o _ => by rw [hsum (h o _).left, hsum (h o _).right, Nat.add_zero]).trans_le (Nat.zero_le 1)
      custom := fun o d => hlist (h o d).left
      quick := fun o d => hlist (h o d).right
    }
  case handle tm tm' event _ _ _ hleaf hs ih =>
    cases event
    case manage =>
      cases hs
      exact ih.manage hleaf
    case unmanage =>
      cases hs
      exact ih.unmanage
    case forget =>
      cases hs
      exact ih.unmanage
    case split => exact ih.split hs
    case remove => exact ih.remove hs
    case delete =>
      cases hs
      exact ih.delete

-- A window is listed once, and not by layouts.
theorem listed_once (h : tm.Reachable NoWindows AddsToLeaf) :
    (∀ desktop window, tm.listings desktop window ≤ 1) ∧
      ∀ tile desktop content, isInnerLayout tm tile → tm.tile? tile = some (desktop, content) → content.windows = [] := by
  refine ⟨h.settled.once, fun tile desktop content hl ht => ?_⟩
  cases tile
  case removed => cases hl
  case custom output desktop' p =>
    have hl := of_decide_eq_true hl
    have ⟨_, hv, ht⟩ := Option.map_eq_some_iff.mp ht
    have hw := (h.settled.custom output desktop').windows_eq_nil hl.left hl.right
    rw [Tiles.windows, hv] at hw
    cases ht
    exact hw
  case quick output desktop' p =>
    have hl := of_decide_eq_true hl
    have ⟨_, hv, ht⟩ := Option.map_eq_some_iff.mp ht
    have hw := (h.settled.quick output desktop').windows_eq_nil hl.left hl.right
    rw [Tiles.windows, hv] at hw
    cases ht
    exact hw

-- Columns on one output, the first of which is a column of two rows, and windows near their left sides.
def columns : TileManagers Unit Unit Nat where
  rootTile _ _ :=
    .node { relativeGeometry := screen, layoutDirection := .horizontal } [
      .node { relativeGeometry := { left := 0, top := 0, right := 1 / 2, bottom := 1 }, layoutDirection := .vertical } [
        .node { relativeGeometry := { left := 0, top := 0, right := 1 / 2, bottom := 1 / 2 } } [],
        .node { relativeGeometry := { left := 0, top := 1 / 2, right := 1 / 2, bottom := 1 } } []],
      .node { relativeGeometry := { left := 1 / 2, top := 0, right := 1, bottom := 1 } } []]
  quickRootTile _ _ := .node {} []

def desktopWindows : WindowSystem Unit Unit Nat where
  isResizable _ := true
  isAppletPopup _ := false
  isOnDesktop _ _ := true
  distance _ _ geom _ := geom.left

theorem columns_reachable {P : TileManagers Unit Unit Nat → TileEvent Unit Unit Nat → Prop} : columns.Reachable NoWindows P :=
  .init ⟨rfl, fun _ _ => ⟨by simp [columns, RoseTree.preorder, RoseTree.preorderAll], by
    simp [columns, RoseTree.preorder, RoseTree.preorderAll]⟩⟩

-- The window goes from one row to the other.
theorem listed_once_columns :
    (∀ desktop window, ((columns.manage desktopWindows (.custom () () [0, 0]) 7).manage desktopWindows
      (.custom () () [1, 0]) 7).listings desktop window ≤ 1) ∧
      ∀ tile desktop content, isInnerLayout ((columns.manage desktopWindows (.custom () () [0, 0]) 7).manage desktopWindows
        (.custom () () [1, 0]) 7) tile → ((columns.manage desktopWindows (.custom () () [0, 0]) 7).manage desktopWindows
        (.custom () () [1, 0]) 7).tile? tile = some (desktop, content) → content.windows = [] :=
  listed_once (@Reachable.handle _ _ _ _ _ _ _ _ _ _ (.manage (.custom () () [1, 0]) 7) desktopWindows 0
    (@Reachable.handle _ _ _ _ _ _ _ _ _ _ (.manage (.custom () () [0, 0]) 7) desktopWindows 0 columns_reachable rfl rfl)
    rfl rfl)

-- A window can be added to a layout.
theorem layout_lists_window :
    ¬∀ tm : TileManagers Unit Unit Nat, tm.Reachable NoWindows (fun _ _ => True) →
      (∀ desktop window, tm.listings desktop window ≤ 1) ∧
        ∀ tile desktop content, isInnerLayout tm tile → tm.tile? tile = some (desktop, content) → content.windows = [] :=
  fun h => by
    have ⟨_, hl⟩ := h (columns.manage desktopWindows (.custom () () [0]) 7)
      (@Reachable.handle _ _ _ _ _ _ _ _ _ _ (.manage (.custom () () [0]) 7) desktopWindows 0 columns_reachable trivial rfl)
    cases hl (.custom () () [0]) () _ rfl rfl

end TileManagers
end KWin
