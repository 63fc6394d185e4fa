import PlasmaModel.Compositor.AssignLayers

namespace KWin

variable {Layer Item : Type} {backend : Backend Layer Item} {sceneView : LayerView}
variable {a b : Assignment Layer Item} {layer primary place : Layer} {item : Item} {pair : Layer × Item}
variable {items : List Item} {layers : List Layer} {z zpos : Int}

-- The layers are listed from the bottom to the top.
structure Stacked (backend : Backend Layer Item) (zpos : Layer → Int) (stack : List (Layer × Item)) : Prop where
  ascending : stack.Pairwise fun p q => zpos p.1 < zpos q.1
  inRange   : ∀ p ∈ stack, (backend.layer p.1).minZpos ≤ zpos p.1 ∧ zpos p.1 ≤ (backend.layer p.1).maxZpos

namespace Stacked

variable {zposOf zposOf' : Layer → Int} {stack l₁ l₂ : List (Layer × Item)}

theorem nil : Stacked backend zposOf ([] : List (Layer × Item)) where
  ascending := .nil
  inRange   := by simp

theorem congr (h : Stacked backend zposOf stack) (he : ∀ p ∈ stack, zposOf' p.1 = zposOf p.1) :
    Stacked backend zposOf' stack where
  ascending := h.ascending.imp_of_mem fun hp hq hlt => by rw [he _ hp, he _ hq]; exact hlt
  inRange p hp := by rw [he p hp]; exact h.inRange p hp

theorem cons (h : Stacked backend zposOf stack) (hb : ∀ p ∈ stack, zposOf pair.1 < zposOf p.1)
    (hr : (backend.layer pair.1).minZpos ≤ zposOf pair.1 ∧ zposOf pair.1 ≤ (backend.layer pair.1).maxZpos) :
    Stacked backend zposOf (pair :: stack) where
  ascending := h.ascending.cons hb
  inRange   := by simpa using ⟨hr, fun l i hp => h.inRange (l, i) hp⟩

theorem unique {p q : Layer × Item} (h : Stacked backend zposOf stack) (hp : p ∈ stack) (hq : q ∈ stack)
    (he : zposOf p.1 = zposOf q.1) : p = q := by
  have hnodup : (stack.map fun p => zposOf p.1).Nodup := List.pairwise_map.mpr (h.ascending.imp ne_of_lt)
  exact List.inj_on_of_nodup_map hnodup hp hq he

end Stacked

theorem findPlace_spec {primary : OutputLayer} {zposOf : Layer → Int} {previous : Option Layer} {sorted : List Layer}
    (h : findPlace primary zposOf previous sorted = some place) :
    ∃ l₁ l₂, sorted = l₁ ++ place :: l₂ ∧
      (∀ layer ∈ l₁.getLast?.or previous, zposOf layer ≤ primary.maxZpos) ∧
      ∀ layer ∈ l₂.head?, primary.minZpos ≤ zposOf layer := by
  fun_induction findPlace primary zposOf previous sorted
  case case1 => contradiction
  case case2 layer rest _ ih =>
    have ⟨l₁, l₂, he, hl, hr⟩ := ih h
    exact ⟨layer :: l₁, l₂, by simp [he], by simpa [List.getLast?_cons] using hl, hr⟩
  case case3 layer rest _ _ ih =>
    have ⟨l₁, l₂, he, hl, hr⟩ := ih h
    exact ⟨layer :: l₁, l₂, by simp [he], by simpa [List.getLast?_cons] using hl, hr⟩
  case case4 previous layer rest hl hr =>
    cases h
    refine ⟨[], rest, rfl, fun l h => ?_, fun l h => ?_⟩
    · simp only [List.getLast?_nil, Option.none_or, Option.mem_def] at h
      simpa [h] using hl
    · rw [Option.mem_def] at h
      simpa [h] using hr

variable {r₁ r₂ : List (Layer × Item)} {l₁ l₂ : List Layer}

theorem Stacked.sortedLayers (hs : Stacked backend a.zpos a.ret) : a.sortedLayers = a.layers :=
  List.Pairwise.insertionSort_eq (List.pairwise_map.mpr (hs.ascending.imp le_of_lt))

theorem split_layers (h : a.layers = l₁ ++ place :: l₂) :
    ∃ r₁ item r₂, a.ret = r₁ ++ (place, item) :: r₂ ∧ r₁.map Prod.fst = l₁ ∧ r₂.map Prod.fst = l₂ := by
  have ⟨r₁, r, hret, h₁, hr⟩ := List.map_eq_append_iff.mp h
  have ⟨⟨layer, item⟩, r₂, hcons, hp, h₂⟩ := List.map_eq_cons_iff.mp hr
  cases hp
  exact ⟨r₁, item, r₂, hcons ▸ hret, h₁, h₂⟩

theorem lt_of_getLast {zposOf : Layer → Int} (h : layers.Pairwise (zposOf · < zposOf ·))
    (hlast : ∀ layer ∈ layers.getLast?, zposOf layer < z) : ∀ layer ∈ layers, zposOf layer < z := by
  cases List.eq_nil_or_concat' layers
  case inl he => simp [he]
  case inr he =>
    have ⟨init, last, he⟩ := he
    subst he
    have hz : zposOf last < z := hlast last (by simp)
    intro layer hl
    cases List.mem_append.mp hl
    case inl hl => exact ((List.pairwise_append.mp h).2.2 layer hl last (by simp)).trans hz
    case inr hl => exact List.mem_singleton.mp hl ▸ hz

theorem lt_of_head {zposOf : Layer → Int} (h : layers.Pairwise (zposOf · < zposOf ·))
    (hhead : ∀ layer ∈ layers.head?, z < zposOf layer) : ∀ layer ∈ layers, z < zposOf layer := by
  cases layers
  case nil => simp
  case cons head tail =>
    have hz : z < zposOf head := hhead head rfl
    intro layer hl
    cases List.mem_cons.mp hl
    case inl he => exact he ▸ hz
    case inr hl => exact hz.trans (List.rel_of_pairwise_cons h hl)

theorem not_mem_layers (hu : primaryUsed backend a = false) (ht : (backend.layer layer).type = .primary) :
    layer ∉ a.layers := by
  intro hl
  have ⟨p, hp, he⟩ := List.mem_map.mp hl
  have hne := List.any_eq_false.mp hu p hp
  simp [he, ht] at hne

variable [DecidableEq Layer]

namespace Assignment

@[simp]
theorem setZpos_ret : (a.setZpos layer z).ret = a.ret := rfl

@[simp]
theorem setZpos_layers : (a.setZpos layer z).layers = a.layers := rfl

@[simp]
theorem setZpos_self : (a.setZpos layer z).zpos layer = z := by
  simp [setZpos]

theorem setZpos_of_ne (h : place ≠ layer) : (a.setZpos layer z).zpos place = a.zpos place := by
  simp [setZpos, h]

@[simp]
theorem assign_zpos : (a.assign layer item).zpos = a.zpos := rfl

@[simp]
theorem erase_zpos : (a.erase layer).zpos = a.zpos := rfl

omit [DecidableEq Layer] in
theorem mem_layers (h : pair ∈ a.ret) : pair.1 ∈ a.layers :=
  List.mem_map_of_mem h

theorem erase_of_not_mem (h : layer ∉ a.layers) : a.erase layer = a := by
  have hkeep : ∀ pair ∈ a.ret, decide (pair.1 ≠ layer) := fun pair hp =>
    decide_eq_true fun he => h (he ▸ mem_layers hp)
  rw [erase, List.filter_eq_self.mpr hkeep]

theorem assign_ret (h : layer ∉ a.layers) : (a.assign layer item).ret = (layer, item) :: a.ret := by
  rw [assign, erase_of_not_mem h]

end Assignment

theorem assignTopDown_stacked (h : assignTopDown backend sceneView items layers zpos a = some b)
    (hs : Stacked backend a.zpos a.ret) (hn : layers.Nodup) (hfresh : ∀ layer ∈ layers, layer ∉ a.layers)
    (hbelow : ∀ p ∈ a.ret, zpos < a.zpos p.1) :
    Stacked backend b.zpos b.ret ∧ b.ret.map Prod.snd = items.reverse ++ a.ret.map Prod.snd ∧
      ∀ layer ∈ b.layers, layer ∈ layers ∨ layer ∈ a.layers := by
  fun_induction assignTopDown backend sceneView items layers zpos a
  case case1 => cases h; exact ⟨hs, by simp, fun _ => .inr⟩
  case case2 => contradiction
  case case3 ih =>
    have ⟨hb, hi, hm⟩ := ih h hs hn.of_cons (fun l hl => hfresh l (.tail _ hl)) hbelow
    exact ⟨hb, hi, fun l hl => (hm l hl).imp_left (.tail _)⟩
  case case4 ih =>
    have ⟨hb, hi, hm⟩ := ih h hs hn.of_cons (fun l hl => hfresh l (.tail _ hl)) hbelow
    exact ⟨hb, hi, fun l hl => (hm l hl).imp_left (.tail _)⟩
  case case5 item items layer layers zpos a nextZpos hmin _ ih =>
    have hlayer := hfresh layer (.head _)
    have hret : ((a.setZpos layer nextZpos).assign layer item).ret = (layer, item) :: a.ret :=
      Assignment.assign_ret hlayer
    have hsame : ∀ p ∈ a.ret, (a.setZpos layer nextZpos).zpos p.1 = a.zpos p.1 := fun p hp =>
      Assignment.setZpos_of_ne fun he => hlayer (he ▸ Assignment.mem_layers hp)
    have hnext : nextZpos ≤ zpos ∧ nextZpos ≤ (backend.layer layer).maxZpos := ⟨min_le_left .., min_le_right ..⟩
    have hstack : Stacked backend (a.setZpos layer nextZpos).zpos ((layer, item) :: a.ret) := by
      apply (hs.congr hsame).cons
      · intro p hp
        have := hbelow p hp
        simp only [Assignment.setZpos_self, hsame p hp]
        omega
      · simp only [Assignment.setZpos_self]
        omega
    have hlayers : ((a.setZpos layer nextZpos).assign layer item).layers = layer :: a.layers := by
      simp [Assignment.layers, hret]
    have ⟨hb, hi, hm⟩ := ih h (hret ▸ hstack) hn.of_cons ?fresh ?below
    case fresh =>
      intro l hl hmem
      cases List.mem_cons.mp (hlayers ▸ hmem)
      case inl he => exact (List.nodup_cons.mp hn).1 (he ▸ hl)
      case inr hmem => exact hfresh l (.tail _ hl) hmem
    case below =>
      intro p hp
      rw [hret] at hp
      cases List.mem_cons.mp hp
      case inl he => simp [he]
      case inr hp =>
        have := hbelow p hp
        simp only [Assignment.assign_zpos, hsame p hp]
        omega
    refine ⟨hb, by simp [hi, hret], fun l hl => ?_⟩
    cases hm l hl
    case inl hl => exact .inl (.tail _ hl)
    case inr hl =>
      apply (List.mem_cons.mp (hlayers ▸ hl)).imp_left
      rintro rfl
      exact .head _

-- What the documentation of the function and its callers rely on.
structure Ordered (backend : Backend Layer Item) (items : List Item) (layers : List Layer)
    (a : Assignment Layer Item) : Prop where
  known       : ∀ p ∈ a.ret, p.1 ∈ layers ∧ p.2 ∈ items
  assigned    : ∀ item ∈ items, ∃! layer, (layer, item) ∈ a.ret
  single      : ∀ p ∈ a.ret, ∀ q ∈ a.ret, p.1 = q.1 → p.2 = q.2
  usesPrimary : ∃ p ∈ a.ret, (backend.layer p.1).type = .primary
  inRange     : ∀ p ∈ a.ret, (backend.layer p.1).minZpos ≤ a.zpos p.1 ∧ a.zpos p.1 ≤ (backend.layer p.1).maxZpos
  decreasing  : items.Pairwise fun top bottom =>
                  ∀ p ∈ a.ret, ∀ q ∈ a.ret, p.2 = top → q.2 = bottom → a.zpos q.1 < a.zpos p.1
  restored    : ∀ sorted : List Layer, sorted.Perm a.layers → sorted.Pairwise (a.zpos · ≤ a.zpos ·) →
                  sorted.map a.item? = items.reverse.map some

theorem Ordered.nodup (o : Ordered backend items layers a) : items.Nodup := by
  refine o.decreasing.imp_of_mem fun {top bottom} ht _ hd he => ?_
  have ⟨layer, hlayer, _⟩ := o.assigned top ht
  exact lt_irrefl _ (hd _ hlayer _ hlayer rfl he)

namespace Stacked

variable {stack : List (Layer × Item)}

theorem item? (hs : Stacked backend a.zpos stack) (hp : stack.Perm a.ret) (h : pair ∈ stack) :
    a.item? pair.1 = some pair.2 := by
  have hmem := hp.mem_iff.mp h
  cases hf : a.ret.find? (·.1 = pair.1)
  case none => simpa using List.find?_eq_none.mp hf pair hmem
  case some found =>
    have he : found.1 = pair.1 := by simpa using List.find?_some hf
    have heq := hs.unique (hp.mem_iff.mpr (List.mem_of_find?_eq_some hf)) h (congrArg a.zpos he)
    simp [Assignment.item?, hf, heq]

omit [DecidableEq Layer] in
theorem sorted_eq (hs : Stacked backend a.zpos stack) (hp : stack.Perm a.ret) {sorted : List Layer}
    (hperm : sorted.Perm a.layers) (hsorted : sorted.Pairwise (a.zpos · ≤ a.zpos ·)) :
    sorted = stack.map Prod.fst := by
  have hstack : (stack.map Prod.fst).Pairwise (a.zpos · < a.zpos ·) := List.pairwise_map.mpr hs.ascending
  have hall : sorted.Perm (stack.map Prod.fst) := hperm.trans (hp.map Prod.fst).symm
  refine hall.eq_of_pairwise (fun l m hl hm hle hge => ?_) hsorted (hstack.imp le_of_lt)
  have ⟨p, hpm, hl⟩ := List.mem_map.mp (hall.mem_iff.mp hl)
  have ⟨q, hqm, hm⟩ := List.mem_map.mp hm
  rw [← hl, ← hm] at hle hge ⊢
  rw [hs.unique hpm hqm (le_antisymm hle hge)]

theorem ordered (hs : Stacked backend a.zpos stack) (hp : stack.Perm a.ret)
    (hi : stack.map Prod.snd = items.reverse) (hn : items.Nodup) (hl : ∀ p ∈ stack, p.1 ∈ layers)
    (hprimary : ∃ p ∈ stack, (backend.layer p.1).type = .primary) : Ordered backend items layers a := by
  have hitem : ∀ p ∈ stack, p.2 ∈ items := fun p h => List.mem_reverse.mp (hi ▸ List.mem_map_of_mem h)
  have hsnd : (stack.map Prod.snd).Nodup := hi ▸ List.nodup_reverse.mpr hn
  have hsame : ∀ p ∈ stack, ∀ q ∈ stack, p.2 = q.2 → p = q := fun p h q h' he =>
    List.inj_on_of_nodup_map hsnd h h' he
  have hdec : (stack.map Prod.snd).Pairwise fun bottom top =>
      ∀ p ∈ stack, ∀ q ∈ stack, p.2 = top → q.2 = bottom → a.zpos q.1 < a.zpos p.1 :=
    List.pairwise_map.mpr <| hs.ascending.imp_of_mem fun hbm htm hlt p hp q hq ht hb =>
      hsame p hp _ htm ht ▸ hsame q hq _ hbm hb ▸ hlt
  constructor
  case known => exact fun p h => ⟨hl p (hp.mem_iff.mpr h), hitem p (hp.mem_iff.mpr h)⟩
  case assigned =>
    intro item h
    have ⟨p, hps, he⟩ := List.mem_map.mp (hi ▸ List.mem_reverse.mpr h)
    refine ⟨p.1, he ▸ hp.mem_iff.mp hps, fun layer h => ?_⟩
    exact congrArg Prod.fst (hsame _ (hp.mem_iff.mpr h) p hps he.symm)
  case single =>
    exact fun p h q h' he =>
      congrArg Prod.snd (hs.unique (hp.mem_iff.mpr h) (hp.mem_iff.mpr h') (congrArg a.zpos he))
  case usesPrimary =>
    have ⟨p, h, ht⟩ := hprimary
    exact ⟨p, hp.mem_iff.mp h, ht⟩
  case inRange => exact fun p h => hs.inRange p (hp.mem_iff.mpr h)
  case decreasing =>
    rw [hi, List.pairwise_reverse] at hdec
    simpa only [hp.mem_iff] using hdec
  case restored =>
    intro sorted hperm hsorted
    rw [hs.sorted_eq hp hperm hsorted, ← hi, List.map_map, List.map_map]
    exact List.map_congr_left fun p h => hs.item? hp h

end Stacked

-- The primary layer goes strictly past what is below and above the layer that it replaces.
def Untied (primary : OutputLayer) (zposOf : Layer → Int) (sorted : List Layer) (place : Layer) : Prop :=
  ∀ l₁ l₂, sorted = l₁ ++ place :: l₂ →
    (∀ layer ∈ l₁.getLast?, zposOf layer < primary.maxZpos) ∧ ∀ layer ∈ l₂.head?, primary.minZpos < zposOf layer

-- Wherever the primary layer has to be swapped in, it ties with neither of its neighbours.
def SwapsUntied (backend : Backend Layer Item) (sceneView : LayerView) (items : List Item) (layers : List Layer)
    (zposOf : Layer → Int) : Prop :=
  ∀ first ∈ layers.head?, ∀ a primary place,
    assignTopDown backend sceneView items layers (backend.layer first).maxZpos ⟨zposOf, []⟩ = some a →
    primaryUsed backend a = false →
    findLayer backend layers .primary = some primary →
    findPlace (backend.layer primary) a.zpos none a.sortedLayers = some place →
    Untied (backend.layer primary) a.zpos a.sortedLayers place

-- The primary layer takes the item of the layer which it replaces.
theorem swapIn_spec (h : swapIn backend a primary place = some b) (hs : Stacked backend a.zpos a.ret)
    (hret : a.ret = r₁ ++ (place, item) :: r₂) (hnew : primary ∉ a.layers) :
    (r₁ ++ (primary, item) :: r₂).Perm b.ret ∧
      b.zpos primary = max (backend.layer primary).minZpos (min (a.zpos place) (backend.layer primary).maxZpos) ∧
      ∀ p ∈ a.ret, b.zpos p.1 = a.zpos p.1 := by
  have hplace : (place, item) ∈ a.ret := hret ▸ by simp
  have hzpos : ∀ z, ∀ p ∈ a.ret, (a.setZpos primary z).zpos p.1 = a.zpos p.1 := fun z p hp =>
    Assignment.setZpos_of_ne fun he => hnew (he ▸ Assignment.mem_layers hp)
  have hne : ∀ p ∈ r₁ ++ r₂, decide (p.1 ≠ place) := by
    have hnodup : (r₁ ++ (place, item) :: r₂).Nodup := hret ▸ hs.ascending.imp fun hlt he => absurd (he ▸ hlt) (lt_irrefl _)
    intro p hp
    refine decide_eq_true fun he => ?_
    have hmem : p ∈ a.ret := by rw [hret]; grind
    have heq := hs.unique hmem hplace (congrArg a.zpos he)
    grind
  have hfilter : a.ret.filter (·.1 ≠ place) = r₁ ++ r₂ := by
    rw [hret, List.filter_append, List.filter_cons_of_neg (by simp), ← List.filter_append, List.filter_eq_self.mpr hne]
  simp only [swapIn, Option.map_eq_some_iff] at h
  obtain ⟨i, hi, rfl⟩ := h
  have hi : i = item := by
    have := hs.item? (List.Perm.refl _) hplace
    simp only [Assignment.item?, Assignment.setZpos_ret] at hi this
    exact Option.some.inj (hi.symm.trans this)
  refine ⟨?_, by simp, fun p hp => by simpa using hzpos _ p hp⟩
  rw [Assignment.assign_ret, Assignment.erase, Assignment.setZpos_ret, hfilter, hi]
  · exact List.perm_middle
  · simp only [Assignment.erase, Assignment.layers, Assignment.setZpos_ret, hfilter]
    intro hmem
    apply hnew
    rw [Assignment.layers, hret]
    grind

theorem Stacked.swapIn (h : swapIn backend a primary place = some b) (hs : Stacked backend a.zpos a.ret)
    (hret : a.ret = r₁ ++ (place, item) :: r₂) (hnew : primary ∉ a.layers)
    (hprev : ∀ p ∈ r₁, a.zpos p.1 < (backend.layer primary).maxZpos)
    (hnext : ∀ p ∈ r₂, (backend.layer primary).minZpos < a.zpos p.1) :
    Stacked backend b.zpos (r₁ ++ (primary, item) :: r₂) := by
  have ⟨_, hprimary, hsame⟩ := swapIn_spec h hs hret hnew
  have hrange := (backend.layer primary).zposRange
  have hasc := hs.ascending
  have hin := hs.inRange
  rw [hret] at hasc hin hsame
  have ⟨hl, hr, hlr⟩ := List.pairwise_append.mp hasc
  have ⟨hplace, hr⟩ := List.pairwise_cons.mp hr
  have hsame₁ : ∀ p ∈ r₁, b.zpos p.1 = a.zpos p.1 := fun p hp => hsame p (by simp [hp])
  have hsame₂ : ∀ p ∈ r₂, b.zpos p.1 = a.zpos p.1 := fun p hp => hsame p (by simp [hp])
  constructor
  case ascending =>
    rw [List.pairwise_append, List.pairwise_cons]
    refine ⟨hl.imp_of_mem ?_, ⟨fun q hq => ?_, hr.imp_of_mem ?_⟩, fun p hp q hq => ?_⟩
    · exact fun hp hq hlt => by rwa [hsame₁ _ hp, hsame₁ _ hq]
    · have := hplace q hq
      have := hnext q hq
      simp only [hprimary, hsame₂ q hq] at *
      omega
    · exact fun hp hq hlt => by rwa [hsame₂ _ hp, hsame₂ _ hq]
    · rw [hsame₁ p hp]
      cases List.mem_cons.mp hq
      case inl he =>
        have := hlr p hp _ (.head _)
        have := hprev p hp
        simp only [he, hprimary] at *
        omega
      case inr hq =>
        rw [hsame₂ q hq]
        exact hlr p hp q (.tail _ hq)
  case inRange =>
    intro p hp
    cases List.mem_append.mp hp
    case inl hp => exact hsame₁ p hp ▸ hin p (by simp [hp])
    case inr hp =>
      cases List.mem_cons.mp hp
      case inl he => simp only [he, hprimary]; omega
      case inr hp => exact hsame₂ p hp ▸ hin p (by simp [hp])

theorem swapIn_ordered (h : swapIn backend a primary place = some b) (hs : Stacked backend a.zpos a.ret)
    (hi : a.ret.map Prod.snd = items.reverse) (hl : ∀ layer ∈ a.layers, layer ∈ layers) (hn : items.Nodup)
    (hnew : primary ∉ a.layers) (hp : primary ∈ layers) (ht : (backend.layer primary).type = .primary)
    (he : a.layers = l₁ ++ place :: l₂) (hu : Untied (backend.layer primary) a.zpos a.layers place) :
    Ordered backend items layers b := by
  have ⟨r₁, item, r₂, hret, h₁, h₂⟩ := split_layers he
  have ⟨hprev, hnext⟩ := hu l₁ l₂ he
  have hasc : a.layers.Pairwise (a.zpos · < a.zpos ·) := List.pairwise_map.mpr hs.ascending
  rw [he, List.pairwise_append, List.pairwise_cons] at hasc
  have hstack : Stacked backend b.zpos (r₁ ++ (primary, item) :: r₂) := by
    apply hs.swapIn h hret hnew
    · exact fun p hp => lt_of_getLast hasc.1 hprev p.1 (h₁ ▸ List.mem_map_of_mem hp)
    · exact fun p hp => lt_of_head hasc.2.1.2 hnext p.1 (h₂ ▸ List.mem_map_of_mem hp)
  apply hstack.ordered (swapIn_spec h hs hret hnew).1
  · rw [← hi, hret]
    simp
  · exact hn
  · intro p hp'
    cases List.mem_append.mp hp'
    case inl hp' => exact hl p.1 (he ▸ h₁ ▸ List.mem_append_left _ (List.mem_map_of_mem hp'))
    case inr hp' =>
      cases List.mem_cons.mp hp'
      case inl heq => exact heq ▸ hp
      case inr hp' => exact hl p.1 (he ▸ h₂ ▸ List.mem_append_right _ (.tail _ (List.mem_map_of_mem hp')))
  · exact ⟨(primary, item), by simp, ht⟩

theorem Ordered.untied (o : Ordered backend items layers b) (h : swapIn backend a primary place = some b)
    (hs : Stacked backend a.zpos a.ret) (hi : a.ret.map Prod.snd = items.reverse) (hnew : primary ∉ a.layers)
    (hplace : findPlace (backend.layer primary) a.zpos none a.layers = some place) :
    Untied (backend.layer primary) a.zpos a.layers place := by
  intro l₁ l₂ he
  have ⟨k₁, k₂, hk, hprev, hnext⟩ := findPlace_spec hplace
  have hasc : a.layers.Pairwise (a.zpos · < a.zpos ·) := List.pairwise_map.mpr hs.ascending
  have hnodup : a.layers.Nodup := hasc.imp fun hlt heq => absurd (heq ▸ hlt) (lt_irrefl _)
  obtain ⟨rfl, rfl⟩ : l₁ = k₁ ∧ l₂ = k₂ := by
    rw [he, List.nodup_middle, List.nodup_cons] at hnodup
    have := (List.append_cons_inj_of_notMem (by grind) (by grind)).mp (he.symm.trans hk)
    exact ⟨this.1, this.2.2⟩
  have ⟨r₁, item, r₂, hret, h₁, h₂⟩ := split_layers he
  have ⟨hperm, hprimary, hsame⟩ := swapIn_spec h hs hret hnew
  have hrange := (backend.layer primary).zposRange
  -- The zpos still increase from the bottom to the top.
  have hdec := o.decreasing
  rw [← List.reverse_reverse items, ← hi, List.pairwise_reverse, hret, List.pairwise_map, List.pairwise_append] at hdec
  have hmem : (primary, item) ∈ b.ret := hperm.mem_iff.mp (by simp)
  constructor
  case left =>
    intro layer hl
    have ⟨p, hp, hpl⟩ := List.mem_map.mp (h₁ ▸ List.mem_of_getLast? hl)
    have hpb : p ∈ b.ret := hperm.mem_iff.mp (by simp [hp])
    have hlt := hdec.2.2 p hp (place, item) (.head _) _ hmem p hpb rfl rfl
    have hweak := hprev layer (by simpa using hl)
    have hplace := (List.pairwise_append.mp (he ▸ hasc)).2.2 layer (List.mem_of_getLast? hl) place (.head _)
    rw [hprimary, hsame p (hret ▸ by simp [hp]), hpl] at hlt
    omega
  case right =>
    intro layer hl
    have ⟨p, hp, hpl⟩ := List.mem_map.mp (h₂ ▸ List.mem_of_head? hl)
    have hpb : p ∈ b.ret := hperm.mem_iff.mp (by simp [hp])
    have hlt := (List.pairwise_cons.mp hdec.2.1).1 p hp p hpb (primary, item) hmem rfl rfl
    have hweak := hnext layer hl
    rw [hprimary, hsame p (hret ▸ by simp [hp]), hpl] at hlt
    omega

variable {zposOf : Layer → Int}

theorem assignLayers_ordered_iff (hn : layers.Nodup) (h : assignLayers backend sceneView items layers zposOf = some b) :
    Ordered backend items layers b ↔ items.Nodup ∧ SwapsUntied backend sceneView items layers zposOf := by
  unfold assignLayers at h
  split at h
  case h_1 => contradiction
  case h_2 => contradiction
  case h_3 first rest top bottom =>
    simp only [Option.bind_eq_bind, Option.bind_eq_some_iff] at h
    have ⟨a, ha, h⟩ := h
    have ⟨hs, hi, hl⟩ := assignTopDown_stacked ha .nil hn (by simp [Assignment.layers]) (by simp)
    simp only [List.map_nil, List.append_nil, Assignment.layers, List.not_mem_nil, or_false] at hi hl
    cases hu : primaryUsed backend a
    case true =>
      rw [hu, if_pos rfl] at h
      cases h
      have hfree : SwapsUntied backend sceneView (top :: bottom) (first :: rest) zposOf := by
        intro f hf c primary place hc hcu
        cases hf
        cases ha.symm.trans hc
        exact absurd (hu.symm.trans hcu) (by decide)
      have hprimary : ∃ p ∈ b.ret, (backend.layer p.1).type = .primary := by
        simpa [primaryUsed] using hu
      refine ⟨fun o => ⟨o.nodup, hfree⟩, fun ⟨hn', _⟩ => ?_⟩
      exact hs.ordered (.refl _) hi hn' (fun p hp => hl p.1 (List.mem_map_of_mem hp)) hprimary
    case false =>
      rw [hu, if_neg (by decide)] at h
      simp only [Option.bind_eq_some_iff] at h
      have ⟨primary, hfind, place, hplace, hswap⟩ := h
      have ht : (backend.layer primary).type = .primary := by simpa using List.find?_some hfind
      have hnew := not_mem_layers hu ht
      rw [hs.sortedLayers] at hplace
      constructor
      case mp =>
        refine fun o => ⟨o.nodup, fun f hf c primary' place' hc hcu hfind' hplace' => ?_⟩
        cases hf
        cases ha.symm.trans hc
        cases hfind.symm.trans hfind'
        rw [hs.sortedLayers] at hplace' ⊢
        cases hplace.symm.trans hplace'
        exact o.untied hswap hs hi hnew hplace
      case mpr =>
        intro ⟨hn', hfree⟩
        have ⟨l₁, l₂, he, _⟩ := findPlace_spec hplace
        have huntied := hfree first rfl a primary place ha hu hfind (hs.sortedLayers ▸ hplace)
        rw [hs.sortedLayers] at huntied
        exact swapIn_ordered hswap hs hi hl hn' hnew (List.mem_of_find?_eq_some hfind) ht he huntied

namespace Tie

-- The overlay at the top and the primary layer are fixed at the same zpos.
def fixedLayer (type : OutputLayerType) (minZpos maxZpos : Int) (h : minZpos ≤ maxZpos) : OutputLayer :=
  { type, minZpos, maxZpos, recommendedSizes := [], zposRange := h }

def window : LayerItem :=
  { isCursorItem := false, positions := [⟨0, 0⟩], rect := ⟨0, 0, 9, 9⟩, boundingRect := ⟨0, 0, 9, 9⟩ }

def tied : Backend Nat Nat where
  layer
    | 0 => fixedLayer .genericLayer 5 5 (by decide)
    | 1 => fixedLayer .primary 5 5 (by decide)
    | _ => fixedLayer .genericLayer 0 4 (by decide)
  item _ := window

def view : LayerView :=
  { viewport := ⟨0, 0, 9, 9⟩, scale := 1 }

def swapped : Assignment Nat Nat :=
  (assignLayers tied view [0, 1] [0, 1, 2] fun _ => 0).get (by decide)

theorem assignLayers_tied : (assignLayers tied view [0, 1] [0, 1, 2] fun _ => 0) = some swapped :=
  (Option.some_get _).symm

end Tie

open Tie in
theorem assignLayers_not_ordered :
    ¬∀ (backend : Backend Nat Nat) (sceneView : LayerView) (items layers : List Nat) (zposOf : Nat → Int)
      (b : Assignment Nat Nat), items.Nodup → layers.Nodup →
      (layers.Pairwise fun l m => (backend.layer m).maxZpos ≤ (backend.layer l).maxZpos) →
      (∃ layer ∈ layers, (backend.layer layer).type = .primary) →
      assignLayers backend sceneView items layers zposOf = some b → Ordered backend items layers b := by
  intro h
  have o := h tied view [0, 1] [0, 1, 2] (fun _ => 0) swapped (by decide) (by decide) (by decide) (by decide)
    assignLayers_tied
  have hlt := (List.pairwise_cons.mp o.decreasing).1 1 (by decide) (0, 0) (by decide) (1, 1) (by decide) rfl rfl
  exact absurd hlt (by decide)

open Tie in
theorem assignLayers_ordered_iff_tied :
    Ordered tied [0, 1] [0, 1, 2] swapped ↔ [0, 1].Nodup ∧ SwapsUntied tied view [0, 1] [0, 1, 2] fun _ => 0 :=
  assignLayers_ordered_iff (by decide) assignLayers_tied

end KWin
