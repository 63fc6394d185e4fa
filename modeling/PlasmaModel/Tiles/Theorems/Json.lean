import PlasmaModel.Tiles.Json
import PlasmaModel.Tiles.Theorems.Geometry

namespace KWin.Tiles

open RoseTree (node)

variable {Window Window' : Type}

-- The same shape and geometry, and the same directions of the tiles with children.
inductive SameLayout : Tiles Window → Tiles Window' → Prop
  | node {tile tile' children children'} :
    tile.relativeGeometry = tile'.relativeGeometry →
    (children ≠ [] → tile.layoutDirection = tile'.layoutDirection) →
    List.Forall₂ SameLayout children children' →
    SameLayout (.node tile children) (.node tile' children')

mutual

-- The tiles as they are read. A new tile gets the direction of the layout it is in.
def restored (parent : LayoutDirection) : Tiles Window → Tiles Window'
  | .node tile children =>
    .node {
        relativeGeometry := tile.relativeGeometry
        layoutDirection := if children.isEmpty then parent else tile.layoutDirection
        geometryLock := false
      } (restoredAll tile.layoutDirection children)

def restoredAll (parent : LayoutDirection) : List (Tiles Window) → List (Tiles Window')
  | [] => []
  | tile :: tiles => restored parent tile :: restoredAll parent tiles

end

def addChildren (children : List (Tiles Window)) (n : Tiles Window) : Tiles Window :=
  .node n.value (n.children ++ children)

variable {t n : Tiles Window} {p : List Nat} {dir : LayoutDirection} {tile : Tile Window} {children : List (Tiles Window)}
variable {avail geom : RectF} {geoms : List RectF} {fuel : Nat}

theorem addChildren_addChildren (cs ds : List (Tiles Window)) (n : Tiles Window) :
    addChildren ds (addChildren cs n) = addChildren (cs ++ ds) n := by
  simp [addChildren]

theorem subtree?_addChildren {cs : List (Tiles Window)} (hn : t.subtree? p = some n) :
    (t.modify (addChildren cs) p).subtree? p = some (addChildren cs n) := by
  rw [RoseTree.subtree?_modify_self, hn]
  rfl

theorem subtree?_addChild {c : Tiles Window} (hn : t.subtree? p = some n) :
    (t.modify (addChildren [c]) p).subtree? (n.children.length :: p) = some c := by
  rw [RoseTree.subtree?, subtree?_addChildren hn]
  simp [addChildren]

theorem modify_addChild {c : Tiles Window} {f : Tiles Window → Tiles Window} (hn : t.subtree? p = some n) :
    (t.modify (addChildren [c]) p).modify f (n.children.length :: p) = t.modify (addChildren [f c]) p := by
  rw [RoseTree.modify, RoseTree.modify_modify]
  refine RoseTree.modify_congr fun m hm => ?_
  cases hn.symm.trans hm
  rw [Function.comp_apply, addChildren, RoseTree.children_node, ← List.insertIdx_length_self,
    RoseTree.modify_insertIdx _ _ _ _ le_rfl]
  exact congrArg (RoseTree.node _) List.insertIdx_length_self

theorem createChildAt_last (fuel : Nat) (hn : t.subtree? p = some n) (hm : geom.MinimumSize) (hs : screen.Contains geom)
    (hf : n.value.layoutDirection = .floating → n.value.relativeGeometry.Contains geom) :
    createChildAt (fuel + 1) t p geom dir n.children.length = some (t.modify (addChildren [created geom dir]) p) := by
  rw [createChildAt_eq fuel _ hn hm hs hf, min_self]
  refine congrArg some (RoseTree.modify_congr fun m hm => ?_)
  cases hn.symm.trans hm
  rw [insertChild, List.insertIdx_length_self]
  rfl

-- What is saved of a tile.

@[simp] theorem strToLayoutDirection_toString (dir : LayoutDirection) : strToLayoutDirection dir.toString = dir := by
  cases dir <;> rfl

theorem tilesToJSon_isEmpty (dir : LayoutDirection) (cs : List (Tiles Window)) : (tilesToJSon dir cs).isEmpty = cs.isEmpty := by
  cases cs <;> rfl

-- The fields of a tile in a layout.
def tileFields (dir : LayoutDirection) (tile : Tile Window) (children : List (Tiles Window)) : List (String × Json) :=
  sizeToJSon tile.relativeGeometry (some dir) ++
    if children.isEmpty then
      []
    else
      [("layoutDirection", .string tile.layoutDirection.toString), ("tiles", .array (tilesToJSon tile.layoutDirection children))]

theorem tileToJSon_eq (dir : LayoutDirection) (tile : Tile Window) (children : List (Tiles Window)) :
    tileToJSon (some dir) (.node tile children) = .object (tileFields dir tile children) := by
  rw [tileToJSon, Option.isSome_some, Bool.and_true, tileFields]

theorem lookup_tiles (dir : LayoutDirection) (tile : Tile Window) (children : List (Tiles Window)) :
    (tileFields dir tile children).lookup "tiles" =
      if children.isEmpty then none else some (.array (tilesToJSon tile.layoutDirection children)) := by
  cases dir <;> cases children <;> rfl

theorem string?_layoutDirection (dir : LayoutDirection) (tile : Tile Window) (h : children ≠ []) :
    Json.string? "layoutDirection" (.object (tileFields dir tile children)) = tile.layoutDirection.toString := by
  cases children
  case nil => contradiction
  case cons => cases dir <;> rfl

-- The geometry of a tile is read from its size and from the area that is left.

theorem parseGeometry_eq (h : avail.Partitioned (tile.relativeGeometry :: geoms) dir)
    (hc : avail.Contains tile.relativeGeometry) :
    parseGeometry (.object (tileFields dir tile children)) avail dir = tile.relativeGeometry := by
  have ⟨_, _, hr, hb⟩ := hc
  apply RectF.edge_injective
  cases dir
  case floating =>
    show ∀ edge, (RectF.ofSize tile.relativeGeometry.left tile.relativeGeometry.top tile.relativeGeometry.width
      tile.relativeGeometry.height).edge edge = _
    intro edge
    cases edge <;> simp [RectF.ofSize, RectF.edge, RectF.width, RectF.height]
  case horizontal =>
    have hl : tile.relativeGeometry.left = avail.left := h.first _ rfl
    have ht : tile.relativeGeometry.top = avail.top := h.across _ List.mem_cons_self
    have hb : tile.relativeGeometry.bottom = avail.bottom := h.opposite _ List.mem_cons_self
    have hw : tile.relativeGeometry.width ≤ avail.width := by rw [RectF.width, hl]; exact sub_le_sub_right hr _
    show ∀ edge, (avail.setWidth (min tile.relativeGeometry.width avail.width)).edge edge = _
    rw [min_eq_left hw]
    intro edge
    cases edge <;> simp [RectF.setWidth, RectF.edge, RectF.width, hl, ht, hb]
  case vertical =>
    have ht : tile.relativeGeometry.top = avail.top := h.first _ rfl
    have hl : tile.relativeGeometry.left = avail.left := h.across _ List.mem_cons_self
    have hr : tile.relativeGeometry.right = avail.right := h.opposite _ List.mem_cons_self
    have hh : tile.relativeGeometry.height ≤ avail.height := by rw [RectF.height, ht]; exact sub_le_sub_right hb _
    show ∀ edge, (avail.setHeight (min tile.relativeGeometry.height avail.height)).edge edge = _
    rw [min_eq_left hh]
    intro edge
    cases edge <;> simp [RectF.setHeight, RectF.edge, RectF.height, hl, ht, hr]

theorem remainingArea_partitioned (h : avail.Partitioned (geom :: geoms) dir) :
    (remainingArea avail geom dir).Partitioned geoms dir := by
  cases dir
  case floating => exact fun c hc => h c (List.mem_cons_of_mem _ hc)
  case horizontal => exact RectF.Divided.tail h
  case vertical => exact RectF.Divided.tail h

-- Nothing is to be enlarged in a partition.
theorem enlargeLast_eq (hn : t.subtree? p = some n)
    (h : n.value.relativeGeometry.Partitioned (n.children.map (·.value.relativeGeometry)) n.value.layoutDirection) :
    enlargeLast (fuel + 1) t p = some t := by
  rw [enlargeLast, childCount_of_subtree? hn, layoutDirection_of_subtree? hn, relativeGeometry_of_subtree? hn]
  cases List.eq_nil_or_concat' n.children
  case inl hc => rw [if_pos (by simp [hc])]
  case inr hc =>
    have ⟨cs, c, hc⟩ := hc
    have hlast : t.subtree? ((n.children.length - 1) :: p) = some c := by
      simp [RoseTree.subtree?, hn, hc]
    rw [hc, List.map_append] at h
    split
    case isTrue => rfl
    case isFalse hf =>
      have hright : c.value.relativeGeometry.right = n.value.relativeGeometry.right := by
        cases hd : n.value.layoutDirection
        case floating => simp [hd] at hf
        case horizontal =>
          rw [hd] at h
          exact h.last _ (by simp)
        case vertical =>
          rw [hd] at h
          exact h.opposite _ (by simp)
      dsimp only
      rw [setRelativeGeometry, if_pos (by rw [relativeGeometry_of_subtree? hlast, ← hright])]

theorem parseTilingJSon_object (fields : List (String × Json)) :
    parseTilingJSon fuel (.object fields) avail t p =
      if avail.isEmpty || (parseGeometry (.object fields) avail (t.layoutDirection p)).isEmpty then
        some (t, none)
      else
        let createdTile := t.childCount p :: p
        (createChildAt fuel t p (parseGeometry (.object fields) avail (t.layoutDirection p)) (t.layoutDirection p)
            (t.childCount p)).bind fun t =>
          match fields.lookup "tiles" with
          | some (.array arr) =>
            if arr.isEmpty then
              some (t, some createdTile)
            else
              let t := setLayoutDirection t createdTile
                (strToLayoutDirection (Json.string? "layoutDirection" (.object fields)))
              (parseTiles fuel arr (relativeGeometry t createdTile) t createdTile).map (·, some createdTile)
          | _ => some (t, some createdTile) := by
  rw [parseTilingJSon]
  by_cases h₁ : avail.isEmpty
  case pos => rw [if_pos h₁, if_pos (by simp [h₁])]
  case neg =>
    by_cases h₂ : (parseGeometry (.object fields) avail (t.layoutDirection p)).isEmpty
    case pos => rw [if_neg h₁, if_pos h₂, if_pos (by simp [h₂])]
    case neg =>
      rw [if_neg h₁, if_neg h₂, if_neg (by simp [h₁, h₂])]
      refine congrArg (Option.bind _) (funext fun t => ?_)
      split
      case h_1 arr h =>
        rw [h]
        dsimp only
        split
        case isTrue => rfl
        case isFalse => cases parseTiles _ _ _ _ _ <;> rfl
      case h_2 h =>
        split
        case h_1 arr h' => exact absurd h' (h arr)
        case h_2 => rfl

-- A tile is restored next to the ones before it, when there is its geometry left for it.
variable (Window') in
def Restorable (fuel : Nat) (c : Tiles Window) : Prop :=
  ∀ {t n : Tiles Window'} {p avail geoms}, t.subtree? p = some n →
    avail.Partitioned (c.value.relativeGeometry :: geoms) n.value.layoutDirection →
    avail.Contains c.value.relativeGeometry → screen.Contains c.value.relativeGeometry →
    (n.value.layoutDirection = .floating → n.value.relativeGeometry.Contains c.value.relativeGeometry) →
    parseTilingJSon (fuel + 1) (tileToJSon (some n.value.layoutDirection) c) avail t p =
      some (t.modify (addChildren [restored n.value.layoutDirection c]) p, some (n.children.length :: p))

theorem restored_value (parent : LayoutDirection) (c : Tiles Window) :
    (restored parent c : Tiles Window').value.relativeGeometry = c.value.relativeGeometry := by
  cases c
  rfl

theorem restoredAll_values (parent : LayoutDirection) (cs : List (Tiles Window)) :
    (restoredAll parent cs : List (Tiles Window')).map (·.value.relativeGeometry) = cs.map (·.value.relativeGeometry) := by
  induction cs
  case nil => rfl
  case cons c cs ih => rw [restoredAll, List.map_cons, List.map_cons, restored_value, ih]

theorem parseTiles_eq {t n : Tiles Window'} {cs : List (Tiles Window)} (hr : ∀ c ∈ cs, Restorable Window' fuel c)
    (hn : t.subtree? p = some n) (ha : avail.Partitioned (cs.map (·.value.relativeGeometry)) n.value.layoutDirection)
    (hm : ∀ c ∈ cs, c.value.relativeGeometry.MinimumSize)
    (hs : ∀ c ∈ cs, screen.Contains c.value.relativeGeometry)
    (hf : n.value.layoutDirection = .floating → ∀ c ∈ cs, n.value.relativeGeometry.Contains c.value.relativeGeometry) :
    parseTiles (fuel + 1) (tilesToJSon n.value.layoutDirection cs) avail t p =
      enlargeLast (fuel + 1) (t.modify (addChildren (restoredAll n.value.layoutDirection cs)) p) p := by
  induction cs generalizing t n avail
  case nil =>
    rw [tilesToJSon, parseTiles, restoredAll, RoseTree.modify_congr (g := id), RoseTree.modify_id]
    exact fun n _ => by simp [addChildren]
  case cons c cs ih =>
    have hc : avail.Contains c.value.relativeGeometry :=
      ha.contains (List.forall_mem_map.mpr hm) (List.mem_map_of_mem List.mem_cons_self)
    have htile := hr c List.mem_cons_self hn ha hc (hs c List.mem_cons_self) (fun h => hf h c List.mem_cons_self)
    have hn' : RoseTree.subtree? (t.modify (addChildren [restored n.value.layoutDirection c]) p) p = _ := subtree?_addChildren hn
    have ih := ih (fun c h => hr c (List.mem_cons_of_mem _ h)) hn' (remainingArea_partitioned ha)
      (fun c h => hm c (List.mem_cons_of_mem _ h)) (fun c h => hs c (List.mem_cons_of_mem _ h))
      (fun hd c h => hf hd c (List.mem_cons_of_mem _ h))
    have hdir : (addChildren [restored n.value.layoutDirection c] n).value.layoutDirection = n.value.layoutDirection := rfl
    have harea : remainingArea avail (relativeGeometry (t.modify (addChildren [restored n.value.layoutDirection c]) p)
        (n.children.length :: p)) (layoutDirection (t.modify (addChildren [restored n.value.layoutDirection c]) p) p) =
        remainingArea avail c.value.relativeGeometry n.value.layoutDirection := by
      rw [relativeGeometry_of_subtree? (subtree?_addChild hn), restored_value, layoutDirection_of_subtree? hn', hdir]
    rw [hdir, RoseTree.modify_modify] at ih
    cases c with | node tile children =>
    rw [tilesToJSon, tileToJSon_eq, parseTiles, ← tileToJSon_eq, htile]
    dsimp only [Option.elim_some, bind, Option.bind_some]
    rw [harea, ih, restoredAll]
    refine congrArg (enlargeLast _ · p) (RoseTree.modify_congr fun n _ => ?_)
    rw [Function.comp_apply, addChildren_addChildren, List.singleton_append]

-- All tiles of a new layout.
theorem parseTiles_layout {t n : Tiles Window'} {cs : List (Tiles Window)}
    (hr : ∀ c ∈ cs, Restorable Window' fuel c) (hn : t.subtree? p = some n) (he : n.children = [])
    (hp : n.value.relativeGeometry.Partitioned (cs.map (·.value.relativeGeometry)) n.value.layoutDirection)
    (hm : ∀ c ∈ cs, c.value.relativeGeometry.MinimumSize) (hs : screen.Contains n.value.relativeGeometry) :
    parseTiles (fuel + 1) (tilesToJSon n.value.layoutDirection cs) n.value.relativeGeometry t p =
      some (t.modify (addChildren (restoredAll n.value.layoutDirection cs)) p) := by
  have hin (c) (hc : c ∈ cs) : n.value.relativeGeometry.Contains c.value.relativeGeometry :=
    hp.contains (List.forall_mem_map.mpr hm) (List.mem_map_of_mem hc)
  rw [parseTiles_eq hr hn hp hm (fun c hc => hs.trans (hin c hc)) (fun _ => hin)]
  apply enlargeLast_eq (subtree?_addChildren hn)
  rw [addChildren, RoseTree.value_node, RoseTree.children_node, he, List.nil_append, restoredAll_values]
  exact hp

theorem Forall_value {P : Tile Window → List (Tile Window) → Prop} {c : Tiles Window} (h : RoseTree.Forall P c) :
    P c.value (c.children.map RoseTree.value) := by
  cases h
  assumption

theorem restorable (fuel : Nat) (c : Tiles Window) (hp : c.Partitioned) (hm : c.MinimumSizes) :
    Restorable Window' fuel c := by
  induction c using RoseTree.induction
  case node tile cs ih =>
    intro t n p avail geoms hn ha hc hs hf
    cases hp with | node hp hps =>
    cases hm with | node hm hms =>
    dsimp only [RoseTree.value_node] at ha hc hs hf hm
    have hparse : parseGeometry (.object (tileFields n.value.layoutDirection tile cs)) avail n.value.layoutDirection = _ :=
      parseGeometry_eq ha hc
    have hnonempty := hm.nonempty
    rw [tileToJSon_eq, parseTilingJSon_object, layoutDirection_of_subtree? hn, hparse, childCount_of_subtree? hn,
      if_neg (by simp [hnonempty, hc.nonempty hnonempty]), createChildAt_last fuel hn hm hs hf, lookup_tiles]
    dsimp only [Option.bind_some]
    cases hcs : cs.isEmpty
    case true =>
      cases List.isEmpty_iff.mp hcs
      rfl
    case false =>
      have hdir : setLayoutDirection (t.modify (addChildren [created tile.relativeGeometry n.value.layoutDirection]) p)
          (n.children.length :: p) tile.layoutDirection =
          t.modify (addChildren [created tile.relativeGeometry tile.layoutDirection]) p :=
        modify_addChild hn
      have hchild := subtree?_addChild (c := created tile.relativeGeometry tile.layoutDirection) hn
      rw [List.map_map] at hp
      have htiles := parseTiles_layout (fun c hc => ih c hc (hps c hc) (hms c hc)) hchild rfl hp
        (fun c hc => Forall_value (hms c hc)) hs
      have hrestored : addChildren (restoredAll tile.layoutDirection cs) (created tile.relativeGeometry tile.layoutDirection) =
          (restored n.value.layoutDirection (.node tile cs) : Tiles Window') := by
        rw [restored, hcs]
        rfl
      have hvalue : (created tile.relativeGeometry tile.layoutDirection : Tiles Window').value.layoutDirection =
        tile.layoutDirection := rfl
      rw [modify_addChild hn, hvalue, hrestored] at htiles
      rw [string?_layoutDirection _ _ (by rintro rfl; cases hcs), strToLayoutDirection_toString, hdir,
        relativeGeometry_of_subtree? hchild, if_neg Bool.false_ne_true]
      dsimp only
      rw [if_neg (by rw [tilesToJSon_isEmpty, hcs]; exact Bool.false_ne_true)]
      exact (congrArg (Option.map _) htiles).trans rfl

mutual

theorem sameLayout_restored (parent : LayoutDirection) :
    ∀ t : Tiles Window, SameLayout t (restored parent t : Tiles Window')
  | .node tile cs => by
    rw [restored]
    refine .node rfl (fun h => ?_) (sameLayout_restoredAll tile.layoutDirection cs)
    rw [if_neg (by simpa using h)]

theorem sameLayout_restoredAll (parent : LayoutDirection) :
    ∀ cs : List (Tiles Window), List.Forall₂ SameLayout cs (restoredAll parent cs : List (Tiles Window'))
  | [] => .nil
  | c :: cs => .cons (sameLayout_restored parent c) (sameLayout_restoredAll parent cs)

end

-- A layout is restored as it was saved.
theorem layout_restored (fuel : Nat) (t : Tiles Window) (hp : t.Partitioned) (hm : t.MinimumSizes)
    (hs : t.relativeGeometry [] = screen) :
    ∃ t' : Tiles Window', readSettings (fuel + 1) (tileToJSon none t) rootTile = some t' ∧ SameLayout t t' := by
  cases hp with | node hp hps =>
  cases hm with | node hm hms =>
  case node tile cs =>
  have hs : tile.relativeGeometry = screen := hs
  cases hcs : cs.isEmpty
  case true =>
    cases List.isEmpty_iff.mp hcs
    exact ⟨rootTile, rfl, .node hs (absurd rfl) .nil⟩
  case false =>
    refine ⟨restored tile.layoutDirection (.node tile cs), ?_, sameLayout_restored _ _⟩
    rw [List.map_map, hs] at hp
    have htiles := parseTiles_layout (p := [])
      (t := (.node { relativeGeometry := screen, layoutDirection := tile.layoutDirection, geometryLock := false } [] :
        Tiles Window'))
      (fun c hc => restorable fuel c (hps c hc) (hms c hc)) rfl rfl hp (fun c hc => Forall_value (hms c hc))
      ⟨le_rfl, le_rfl, le_rfl, le_rfl⟩
    have hdoc : tileToJSon none (.node tile cs) = .object [("layoutDirection", .string tile.layoutDirection.toString),
        ("tiles", .array (tilesToJSon tile.layoutDirection cs))] := by
      rw [tileToJSon, hcs]
      rfl
    have hroot : rootTile.setLayoutDirection [] (strToLayoutDirection tile.layoutDirection.toString) =
        (.node { relativeGeometry := screen, layoutDirection := tile.layoutDirection, geometryLock := false } [] :
          Tiles Window') := by
      rw [strToLayoutDirection_toString]
      rfl
    have hscreen : screen.isEmpty = false := by
      norm_num [screen, RectF.ofSize, RectF.isEmpty]
    rw [hdoc, readSettings]
    have htile : Json.value? "tiles" (.object [("layoutDirection", .string tile.layoutDirection.toString),
        ("tiles", .array (tilesToJSon tile.layoutDirection cs))]) =
        some (.array (tilesToJSon tile.layoutDirection cs)) := rfl
    have hparse : parseTilingJSon (fuel + 1) (.array (tilesToJSon tile.layoutDirection cs)) screen
        (.node { relativeGeometry := screen, layoutDirection := tile.layoutDirection, geometryLock := false } []) [] =
        some ((restored tile.layoutDirection (.node tile cs) : Tiles Window'), none) := by
      rw [parseTilingJSon, if_neg (by rw [hscreen]; exact Bool.false_ne_true), restored, hcs, hs]
      exact (congrArg (Option.bind · fun t => some (t, none)) htiles).trans rfl
    rw [htile]
    dsimp only
    rw [if_neg (by rw [tilesToJSon_isEmpty, hcs]; exact Bool.false_ne_true)]
    rw [show Json.string? "layoutDirection" _ = tile.layoutDirection.toString from rfl, hroot, hparse]
    rfl

-- A column next to a column of two rows, the second of which has a floating tile.
def columns : Tiles Nat :=
  .node { relativeGeometry := screen, layoutDirection := .horizontal } [
    .node { relativeGeometry := { left := 0, top := 0, right := 1 / 4, bottom := 1 } } [],
    .node { relativeGeometry := { left := 1 / 4, top := 0, right := 1, bottom := 1 }, layoutDirection := .vertical } [
      .node { relativeGeometry := { left := 1 / 4, top := 0, right := 1, bottom := 1 / 2 } } [],
      .node { relativeGeometry := { left := 1 / 4, top := 1 / 2, right := 1, bottom := 1 } } [
        .node { relativeGeometry := { left := 1 / 2, top := 5 / 8, right := 3 / 4, bottom := 7 / 8 } } []]]]

theorem columns_partitioned : columns.Partitioned := by
  simp only [Partitioned, columns, RoseTree.forall_node, List.map, RoseTree.value_node, screen_eq, RectF.Partitioned,
    RectF.divided_iff, List.mem_cons, List.not_mem_nil, forall_eq_or_imp]
  norm_num [RectF.edge, Edge.across, Edge.opposite, RectF.Contains]

theorem columns_minimumSizes : columns.MinimumSizes := by
  simp only [MinimumSizes, columns, RoseTree.forall_node, List.mem_cons, List.not_mem_nil, forall_eq_or_imp, screen_eq,
    RectF.minimumSize_iff]
  norm_num [RectF.width, RectF.height, minimumSize]

theorem layout_restored_columns :
    ∃ t' : Tiles Nat, readSettings 1 (tileToJSon none columns) rootTile = some t' ∧ SameLayout columns t' :=
  layout_restored 0 columns columns_partitioned columns_minimumSizes rfl

-- The root is a layout even without tiles, but then its direction is not read.
theorem childless_root_not_restored :
    ¬∀ (fuel : Nat) (t : Tiles Nat), t.Partitioned → t.MinimumSizes → t.relativeGeometry [] = screen →
      ∃ t' : Tiles Nat, readSettings (fuel + 1) (tileToJSon none t) rootTile = some t' ∧ SameLayout t t' ∧
        t'.layoutDirection [] = t.layoutDirection [] := fun h => by
  have hp : Partitioned (.node { relativeGeometry := screen, layoutDirection := .horizontal } [] : Tiles Nat) :=
    .node ⟨nofun, nofun, nofun, nofun, .nil⟩ nofun
  have hm : MinimumSizes (.node { relativeGeometry := screen, layoutDirection := .horizontal } [] : Tiles Nat) :=
    .node screen_minimumSize nofun
  have ⟨t', ht, _, hd⟩ := h 0 _ hp hm rfl
  cases ht
  cases hd

end KWin.Tiles
