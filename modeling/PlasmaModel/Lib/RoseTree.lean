import Mathlib

-- Trees whose nodes have any number of children, and the paths to their nodes.
inductive RoseTree (α : Type _) where
  | node (value : α) (children : List (RoseTree α))

namespace RoseTree

variable {α β : Type _}

def value : RoseTree α → α
  | node value _ => value

def children : RoseTree α → List (RoseTree α)
  | node _ children => children

-- A path names the children on the way up, so that what is left of it leads to the parent.
def subtree? (t : RoseTree α) : List Nat → Option (RoseTree α)
  | [] => some t
  | i :: p => (t.subtree? p).bind (·.children[i]?)

def value? (t : RoseTree α) (p : List Nat) : Option α :=
  (t.subtree? p).map value

def childCount (t : RoseTree α) (p : List Nat) : Nat :=
  (t.subtree? p).elim 0 (·.children.length)

-- Changes the node at the end of a path.
def modify (f : RoseTree α → RoseTree α) : List Nat → RoseTree α → RoseTree α
  | [], t => f t
  | i :: p, t => modify (fun n => node n.value (n.children.modify i f)) p t

def modifyValue (f : α → α) (p : List Nat) (t : RoseTree α) : RoseTree α :=
  t.modify (fun n => node (f n.value) n.children) p

mutual

def map (f : α → β) : RoseTree α → RoseTree β
  | node value children => node (f value) (mapAll f children)

def mapAll (f : α → β) : List (RoseTree α) → List (RoseTree β)
  | [] => []
  | c :: cs => map f c :: mapAll f cs

end

mutual

-- The values of all nodes, in preorder.
def preorder : RoseTree α → List α
  | node value children => value :: preorderAll children

def preorderAll : List (RoseTree α) → List α
  | [] => []
  | c :: cs => preorder c ++ preorderAll cs

end

mutual

-- The subtrees at all nodes, in preorder.
def subtrees : RoseTree α → List (RoseTree α)
  | node value children => node value children :: subtreesAll children

def subtreesAll : List (RoseTree α) → List (RoseTree α)
  | [] => []
  | c :: cs => subtrees c ++ subtreesAll cs

end

def sum (h : α → Nat) (t : RoseTree α) : Nat :=
  (t.preorder.map h).sum

mutual

-- The paths to all nodes but the root, in preorder.
def paths : RoseTree α → List (List Nat)
  | node _ children => pathsFrom 0 children

def pathsFrom (i : Nat) : List (RoseTree α) → List (List Nat)
  | [] => []
  | c :: cs => [i] :: (paths c).map (· ++ [i]) ++ pathsFrom (i + 1) cs

end

mutual

-- The values of all nodes, in preorder, each with those above it.
def withAncestors (above : List α) : RoseTree α → List (α × List α)
  | node value children => (value, above) :: withAncestorsAll (value :: above) children

def withAncestorsAll (above : List α) : List (RoseTree α) → List (α × List α)
  | [] => []
  | c :: cs => withAncestors above c ++ withAncestorsAll above cs

end

-- What holds of the value of every node, given the values of its children.
inductive Forall (P : α → List α → Prop) : RoseTree α → Prop
  | node {v cs} : P v (cs.map value) → (∀ c ∈ cs, Forall P c) → Forall P (node v cs)

variable {t n : RoseTree α} {f g : RoseTree α → RoseTree α} {p q r : List Nat} {i : Nat}

@[simp] theorem value_node (v : α) (cs : List (RoseTree α)) : (node v cs).value = v := rfl

@[simp] theorem children_node (v : α) (cs : List (RoseTree α)) : (node v cs).children = cs := rfl

@[simp] theorem node_eta (t : RoseTree α) : node t.value t.children = t := by
  cases t
  rfl

theorem induction {P : RoseTree α → Prop} (node : ∀ v cs, (∀ c ∈ cs, P c) → P (node v cs)) : ∀ t, P t
  | .node v cs => node v cs fun c _ => induction node c

theorem forall_node {P : α → List α → Prop} {v : α} {cs : List (RoseTree α)} :
    Forall P (node v cs) ↔ P v (cs.map value) ∧ ∀ c ∈ cs, Forall P c :=
  ⟨fun h => by cases h with | node hv hcs => exact ⟨hv, hcs⟩, fun ⟨hv, hcs⟩ => .node hv hcs⟩

theorem mapAll_eq (h : α → β) (cs : List (RoseTree α)) : mapAll h cs = cs.map (map h) := by
  induction cs
  case nil => rfl
  case cons c cs ih => rw [mapAll, ih, List.map_cons]

theorem preorderAll_eq (cs : List (RoseTree α)) : preorderAll cs = cs.flatMap preorder := by
  induction cs
  case nil => rfl
  case cons c cs ih => rw [preorderAll, ih, List.flatMap_cons]

theorem preorder_node (v : α) (cs : List (RoseTree α)) : (node v cs).preorder = v :: cs.flatMap preorder := by
  rw [preorder, preorderAll_eq]

theorem subtreesAll_eq (cs : List (RoseTree α)) : subtreesAll cs = cs.flatMap subtrees := by
  induction cs
  case nil => rfl
  case cons c cs ih => rw [subtreesAll, ih, List.flatMap_cons]

theorem subtrees_node (v : α) (cs : List (RoseTree α)) :
    (node v cs).subtrees = node v cs :: cs.flatMap subtrees := by
  rw [subtrees, subtreesAll_eq]

theorem self_mem_subtrees (t : RoseTree α) : t ∈ t.subtrees := by
  cases t
  exact subtrees_node _ _ ▸ List.mem_cons_self

theorem subtrees_sublist {s : RoseTree α} (hs : s ∈ t.subtrees) : s.subtrees.Sublist t.subtrees := by
  induction t using induction
  case node v cs ih =>
    rw [subtrees_node] at hs
    cases List.mem_cons.mp hs
    case inl heq => exact heq ▸ .refl _
    case inr hs =>
      have ⟨c, hc, hs⟩ := List.mem_flatMap.mp hs
      have hsub := (List.singleton_sublist.mpr hc).flatMap subtrees
      rw [List.flatMap_singleton] at hsub
      exact (ih c hc hs).trans (subtrees_node v cs ▸ hsub.cons _)

theorem sum_node (h : α → Nat) (v : α) (cs : List (RoseTree α)) : (node v cs).sum h = h v + (cs.map (sum h)).sum := by
  rw [sum, preorder_node, List.map_cons, List.sum_cons, List.map_flatMap]
  congr 1
  induction cs
  case nil => rfl
  case cons c cs ih => rw [List.flatMap_cons, List.sum_append, ih, List.map_cons, List.sum_cons]; rfl

theorem sum_map (k : β → Nat) (h : α → β) (t : RoseTree α) : (t.map h).sum k = t.sum (k ∘ h) := by
  induction t using induction
  case node v cs ih =>
    rw [map, mapAll_eq, sum_node, sum_node, List.map_map]
    exact congrArg (k (h v) + ·) (congrArg List.sum (List.map_congr_left ih))

@[simp] theorem value_map (h : α → β) (t : RoseTree α) : (t.map h).value = h t.value := by
  cases t
  rfl

@[simp] theorem children_map (h : α → β) (t : RoseTree α) : (t.map h).children = t.children.map (map h) := by
  cases t
  exact mapAll_eq h _

theorem map_map {γ : Type _} (k : β → γ) (h : α → β) (t : RoseTree α) : (t.map h).map k = t.map (k ∘ h) := by
  induction t using induction
  case node v cs ih =>
    rw [map, mapAll_eq, map, mapAll_eq, map, mapAll_eq, List.map_map]
    exact congrArg (node _) (List.map_congr_left ih)

-- Paths.

theorem subtree?_append (r p : List Nat) : t.subtree? (r ++ p) = (t.subtree? p).bind (·.subtree? r) := by
  induction r
  case nil => simp [subtree?]
  case cons i r ih => rw [List.cons_append, subtree?, ih, Option.bind_assoc]; rfl

theorem subtree?_map (h : α → β) (p : List Nat) : (t.map h).subtree? p = (t.subtree? p).map (map h) := by
  induction p
  case nil => rfl
  case cons i p ih =>
    rw [subtree?, ih, subtree?]
    cases t.subtree? p
    case none => rfl
    case some n => simp [children_map]

theorem value?_map (h : α → β) (p : List Nat) : (t.map h).value? p = (t.value? p).map h := by
  rw [value?, subtree?_map, value?]
  cases t.subtree? p <;> simp

theorem childCount_map (h : α → β) (p : List Nat) : (t.map h).childCount p = t.childCount p := by
  rw [childCount, subtree?_map, childCount]
  cases t.subtree? p <;> simp

-- Changes.

theorem modify_append (r p : List Nat) (t : RoseTree α) : t.modify f (r ++ p) = t.modify (modify f r) p := by
  induction r generalizing f
  case nil => rfl
  case cons i r ih => exact ih

@[simp] theorem modify_id (p : List Nat) (t : RoseTree α) : t.modify id p = t := by
  induction p
  case nil => rfl
  case cons i p ih =>
    rw [modify]
    refine Eq.trans ?_ ih
    exact congrArg (t.modify · p) (funext fun n => by simp)

theorem modify_modify (p : List Nat) (t : RoseTree α) : (t.modify f p).modify g p = t.modify (g ∘ f) p := by
  induction p generalizing f g
  case nil => rfl
  case cons i p ih =>
    rw [modify, modify, ih]
    exact congrArg (t.modify · p) (funext fun n => by simp [List.modify_modify_eq])

-- Only what happens to the node at the end of the path matters.
theorem modify_congr (h : ∀ n, t.subtree? p = some n → f n = g n) : t.modify f p = t.modify g p := by
  induction p generalizing f g
  case nil => exact h t rfl
  case cons i p ih =>
    rw [modify, modify]
    refine ih fun n hn => ?_
    have h (c) (hc : n.children[i]? = some c) : f c = g c := h c (by rw [subtree?, hn]; exact hc)
    congr 1
    refine List.ext_getElem? fun j => ?_
    rw [List.getElem?_modify, List.getElem?_modify]
    split
    case isTrue hi =>
      subst hi
      cases hc : n.children[i]?
      case none => rfl
      case some c => simp [h c hc]
    case isFalse => rfl

theorem modify_insertIdx (cs : List α) (i : Nat) (c : α) (h : α → α) (hi : i ≤ cs.length) :
    (cs.insertIdx i c).modify i h = cs.insertIdx i (h c) := by
  induction cs generalizing i
  case nil => cases Nat.le_zero.mp hi; rfl
  case cons d cs ih =>
    cases i
    case zero => rfl
    case succ i => simp [ih i (Nat.le_of_succ_le_succ hi)]

theorem subtree?_modify_self : (t.modify f p).subtree? p = (t.subtree? p).map f := by
  induction p generalizing f
  case nil => rfl
  case cons i p ih =>
    rw [modify, subtree?, ih, subtree?]
    cases t.subtree? p
    case none => rfl
    case some n => simp

theorem subtree?_modify_above (r p : List Nat) : (t.modify f (r ++ p)).subtree? p = (t.subtree? p).map (modify f r) := by
  rw [modify_append, subtree?_modify_self]

theorem modify_cons_value (t : RoseTree α) : (t.modify f (p ++ [i])).value = t.value := by
  rw [modify_append]
  rfl

theorem value_modify (h : ∀ n, (f n).value = n.value) (p : List Nat) (t : RoseTree α) :
    (t.modify f p).value = t.value := by
  cases List.eq_nil_or_concat' p
  case inl hp => exact hp ▸ h t
  case inr hp =>
    have ⟨q, i, hp⟩ := hp
    exact hp ▸ modify_cons_value t

theorem value_modify_cons (i : Nat) (p : List Nat) (t : RoseTree α) : (t.modify f (i :: p)).value = t.value :=
  value_modify (f := fun n => node n.value (n.children.modify i f)) (fun _ => rfl) p t

theorem subtree?_modify_apart {j : Nat} (h : i ≠ j) (r q p : List Nat) :
    (t.modify f (r ++ i :: p)).subtree? (q ++ j :: p) = t.subtree? (q ++ j :: p) := by
  rw [subtree?_append, subtree?_append, modify_append, modify, subtree?, subtree?_modify_self, subtree?]
  cases t.subtree? p
  case none => rfl
  case some n => rw [Option.map_some, Option.bind_some, Option.bind_some, children_node, List.getElem?_modify_ne _ _ h]

-- Of two paths, one leads on from the other, or they part somewhere.
theorem paths_compare (p q : List Nat) :
    (∃ r, p = r ++ q) ∨ (∃ r, q = r ++ p) ∨ ∃ r r' i j s, p = r ++ i :: s ∧ q = r' ++ j :: s ∧ i ≠ j := by
  induction p using List.reverseRecOn generalizing q
  case nil => exact .inr (.inl ⟨q, (List.append_nil q).symm⟩)
  case append_singleton p i ih =>
    cases List.eq_nil_or_concat' q
    case inl h => exact .inl ⟨_, by rw [h, List.append_nil]⟩
    case inr h =>
      have ⟨q, j, h⟩ := h
      subst h
      by_cases hij : i = j
      case neg => exact .inr (.inr ⟨p, q, i, j, [], rfl, rfl, hij⟩)
      case pos =>
        subst hij
        rcases ih q with ⟨r, rfl⟩ | ⟨r, rfl⟩ | ⟨r, r', k, l, s, rfl, rfl, hne⟩
        · exact .inl ⟨r, List.append_assoc _ _ _⟩
        · exact .inr (.inl ⟨r, List.append_assoc _ _ _⟩)
        · exact .inr (.inr ⟨r, r', k, l, s ++ [i], by simp, by simp, hne⟩)

theorem append_ne_self (h : r ≠ []) (p : List Nat) : r ++ p ≠ p := fun heq => by
  have := List.length_pos_iff.mpr h
  have := congrArg List.length heq
  rw [List.length_append] at this
  omega

theorem sum_modify {h : α → Nat} (hn : t.subtree? p = some n) :
    (t.modify f p).sum h + n.sum h = t.sum h + (f n).sum h := by
  induction p generalizing f n
  case nil =>
    cases hn
    exact Nat.add_comm _ _
  case cons i p ih =>
    have ⟨m, hm, hc⟩ := Option.bind_eq_some_iff.mp hn
    have hi := ih (f := fun n => node n.value (n.children.modify i f)) hm
    cases m with | node v cs =>
    have ⟨hlt, hc⟩ := List.getElem?_eq_some_iff.mp hc
    have hlt : i < cs.length := hlt
    have hc : cs[i] = n := hc
    subst hc
    rw [value_node, children_node, sum_node, sum_node] at hi
    have hcs : (cs.map (sum h)).sum = ((cs.take i).map (sum h)).sum + (cs[i].sum h + ((cs.drop (i + 1)).map (sum h)).sum) := by
      rw [← List.sum_cons, ← List.map_cons, ← List.drop_eq_getElem_cons hlt, ← List.sum_append, ← List.map_append,
        List.take_append_drop]
    rw [List.modify_eq_take_cons_drop hlt, List.map_append, List.map_cons, List.sum_append, List.sum_cons] at hi
    rw [modify]
    omega

theorem sum_modifyValue {h : α → Nat} {k : α → α} (hn : t.subtree? p = some n) :
    (t.modifyValue k p).sum h + h n.value = t.sum h + h (k n.value) := by
  have hs := sum_modify (h := h) (f := fun n => node (k n.value) n.children) hn
  cases n with | node v cs =>
  rw [sum_node, sum_node] at hs
  rw [modifyValue, value_node]
  dsimp only [value_node, children_node] at hs
  omega

-- There is nothing to change where no path leads.
theorem modify_of_subtree?_eq_none (hn : t.subtree? p = none) : t.modify f p = t := by
  refine (modify_congr (g := id) fun n hn' => ?_).trans (modify_id p t)
  cases hn.symm.trans hn'

theorem sum_le_sum {h k : α → Nat} (hk : ∀ v ∈ t.preorder, h v ≤ k v) : t.sum h ≤ t.sum k :=
  List.sum_le_sum hk

theorem le_sum {h : α → Nat} {v : α} (hv : v ∈ t.preorder) : h v ≤ t.sum h :=
  List.single_le_sum (fun _ _ => Nat.zero_le _) _ (List.mem_map_of_mem hv)

theorem preorder_subset (hn : t.subtree? p = some n) : n.preorder ⊆ t.preorder := by
  induction p generalizing n
  case nil =>
    cases hn
    exact List.Subset.refl _
  case cons i p ih =>
    have ⟨m, hm, hc⟩ := Option.bind_eq_some_iff.mp hn
    refine List.Subset.trans ?_ (ih hm)
    cases m with | node v cs =>
    rw [preorder_node]
    exact fun x hx => List.mem_cons_of_mem _ (List.mem_flatMap.mpr ⟨n, List.mem_of_getElem? hc, hx⟩)

theorem value_mem_preorder (t : RoseTree α) : t.value ∈ t.preorder := by
  cases t
  exact List.mem_cons_self

theorem modifyValue_subtree? {h : α → α} (q : List Nat) : ∃ m : RoseTree α → RoseTree α,
    (∀ n, (m n).children.length = n.children.length) ∧ (∀ n, (m n).value = if q = p then h n.value else n.value) ∧
      (t.modifyValue h p).subtree? q = (t.subtree? q).map m := by
  rcases paths_compare p q with ⟨r, rfl⟩ | ⟨r, rfl⟩ | ⟨r, r', i, j, s, rfl, rfl, hne⟩
  · refine ⟨modify (fun n => node (h n.value) n.children) r, fun n => ?_, fun n => ?_, subtree?_modify_above r q⟩
    · rcases List.eq_nil_or_concat' r with rfl | ⟨r, i, rfl⟩
      · rfl
      · rw [modify_append, modify, modify, children_node, List.length_modify]
    · rcases List.eq_nil_or_concat' r with rfl | ⟨r, i, rfl⟩
      · exact (if_pos rfl).symm
      · rw [modify_cons_value, if_neg (append_ne_self (by simp) q).symm]
  · rcases List.eq_nil_or_concat' r with rfl | ⟨r, i, rfl⟩
    · exact ⟨fun n => node (h n.value) n.children, fun n => rfl, fun n => (if_pos rfl).symm, subtree?_modify_self⟩
    · refine ⟨id, fun n => rfl, fun n => (if_neg (append_ne_self (by simp) p)).symm, ?_⟩
      rw [modifyValue, List.append_assoc, subtree?_append, List.singleton_append, subtree?, subtree?_modify_self,
        subtree?_append, subtree?]
      cases t.subtree? p <;> simp
  · refine ⟨id, fun n => rfl, fun n => (if_neg fun heq => ?_).symm, ?_⟩
    · rw [← List.singleton_append, ← List.append_assoc, ← List.singleton_append (l := s), ← List.append_assoc] at heq
      simpa [hne.symm] using (List.append_left_inj s).mp heq
    · rw [Option.map_id, id]
      exact subtree?_modify_apart hne _ _ _

theorem value?_modifyValue {h : α → α} (q : List Nat) :
    (t.modifyValue h p).value? q = if q = p then (t.value? q).map h else t.value? q := by
  have ⟨m, _, hv, hs⟩ := modifyValue_subtree? (t := t) (h := h) (p := p) q
  rw [value?, hs, value?]
  cases t.subtree? q
  case none => simp
  case some n => simp [hv]; split <;> rfl

theorem childCount_modifyValue {h : α → α} (q : List Nat) : (t.modifyValue h p).childCount q = t.childCount q := by
  have ⟨m, hl, _, hs⟩ := modifyValue_subtree? (t := t) (h := h) (p := p) q
  rw [childCount, hs, childCount]
  cases t.subtree? q <;> simp [hl]

theorem map_modify {h : α → β} {k : RoseTree β → RoseTree β}
    (hk : ∀ n, t.subtree? p = some n → (f n).map h = k (n.map h)) : (t.modify f p).map h = (t.map h).modify k p := by
  induction p generalizing f k
  case nil => exact hk t rfl
  case cons i p ih =>
    refine ih fun n hn => ?_
    rw [map, mapAll_eq, value_map, children_map]
    congr 1
    refine List.ext_getElem? fun j => ?_
    rw [List.getElem?_map, List.getElem?_modify, List.getElem?_modify, List.getElem?_map]
    cases hc : n.children[j]?
    case none => rfl
    case some c =>
      by_cases hij : i = j
      case neg => simp [hij]
      case pos =>
        subst hij
        simp [hk c (by rw [subtree?, hn]; exact hc)]

-- A change that a map does not see.
theorem map_modifyValue {h : α → β} {k : α → α} (hk : ∀ n, t.subtree? p = some n → h (k n.value) = h n.value) :
    (t.modifyValue k p).map h = t.map h := by
  rw [modifyValue, map_modify (k := id), modify_id]
  intro n hn
  rw [map, mapAll_eq, hk n hn, id, ← children_map, ← value_map h n, node_eta]

theorem Forall.imp {P Q : α → List α → Prop} (h : ∀ v ∈ t.preorder, ∀ cs, P v cs → Q v cs) (ht : Forall P t) :
    Forall Q t := by
  induction t using induction
  case node v cs ih =>
    have ⟨hv, hcs⟩ := forall_node.mp ht
    rw [preorder_node] at h
    refine forall_node.mpr ⟨h v List.mem_cons_self _ hv, fun c hc => ih c hc (fun v hv => ?_) (hcs c hc)⟩
    exact h v (List.mem_cons_of_mem _ (List.mem_flatMap.mpr ⟨c, hc, hv⟩))

theorem forall_of_preorder {P : α → List α → Prop} (h : ∀ v ∈ t.preorder, ∀ cs, P v cs) : Forall P t := by
  induction t using induction
  case node v cs ih =>
    rw [preorder_node] at h
    exact .node (h v List.mem_cons_self _) fun c hc => ih c hc fun v hv =>
      h v (List.mem_cons_of_mem _ (List.mem_flatMap.mpr ⟨c, hc, hv⟩))

theorem forall_map {P : β → List β → Prop} {h : α → β} :
    Forall P (t.map h) ↔ Forall (fun v cs => P (h v) (cs.map h)) t := by
  induction t using induction
  case node v cs ih =>
    rw [map, mapAll_eq, forall_node, forall_node, List.forall_mem_map, List.map_map, List.map_map]
    refine and_congr (iff_of_eq (congrArg (P (h v)) (List.map_congr_left fun c _ => value_map h c))) ?_
    exact forall_congr' fun c => forall_congr' fun hc => ih c hc

theorem Forall.subtree {P : α → List α → Prop} (ht : Forall P t) (hn : t.subtree? p = some n) : Forall P n := by
  induction p generalizing n
  case nil =>
    cases hn
    exact ht
  case cons i p ih =>
    have ⟨m, hm, hc⟩ := Option.bind_eq_some_iff.mp hn
    have ⟨_, hcs⟩ := forall_node.mp ((node_eta m).symm ▸ ih hm)
    exact hcs n (List.mem_of_getElem? hc)

-- Where what matters of the value stays as it is, only the changed node matters.
theorem Forall.modify_of_map {γ : Type _} {P : α → List α → Prop} {k : α → γ}
    (hP : ∀ v cs cs', cs.map k = cs'.map k → P v cs → P v cs')
    (hv : ∀ n, t.subtree? p = some n → k (f n).value = k n.value) (ht : Forall P t)
    (hf : ∀ n, t.subtree? p = some n → Forall P n → Forall P (f n)) : Forall P (t.modify f p) := by
  induction p generalizing f
  case nil => exact hf t rfl ht
  case cons i p ih =>
    refine ih (fun _ _ => rfl) fun n hn h => ?_
    have ⟨hroot, hcs⟩ := forall_node.mp ((node_eta n).symm ▸ h)
    have hchild (c) (hc : n.children[i]? = some c) : t.subtree? (i :: p) = some c := by
      rw [subtree?, hn]
      exact hc
    have hvalues : (n.children.map value).map k = ((n.children.modify i f).map value).map k := by
      refine List.ext_getElem? fun j => ?_
      rw [List.getElem?_map, List.getElem?_map, List.getElem?_map, List.getElem?_map, List.getElem?_modify]
      cases hc : n.children[j]?
      case none => rfl
      case some c =>
        by_cases hij : i = j
        case neg => simp [hij]
        case pos =>
          subst hij
          simp [hv c (hchild c hc)]
    refine forall_node.mpr ⟨hP _ _ _ hvalues hroot, fun c hc => ?_⟩
    have ⟨j, hj⟩ := List.mem_iff_getElem?.mp hc
    rw [List.getElem?_modify] at hj
    have ⟨d, hd, hj⟩ := Option.map_eq_some_iff.mp hj
    have hd' := hcs d (List.mem_of_getElem? hd)
    subst hj
    split
    case isTrue hij =>
      subst hij
      exact hf d (hchild d hd) hd'
    case isFalse => exact hd'

theorem Forall.modify_of_value {P : α → List α → Prop} (hv : ∀ n, t.subtree? p = some n → (f n).value = n.value)
    (ht : Forall P t) (hf : ∀ n, t.subtree? p = some n → Forall P n → Forall P (f n)) : Forall P (t.modify f p) := by
  refine ht.modify_of_map (k := id) (fun v cs cs' hc h => ?_) hv hf
  rw [List.map_id, List.map_id] at hc
  exact hc ▸ h

-- Where it does not matter what the children are but how many.
theorem Forall.modify {P : α → List α → Prop} (hP : ∀ v cs cs', cs.length = cs'.length → P v cs → P v cs')
    (ht : Forall P t) (hf : ∀ n, t.subtree? p = some n → Forall P n → Forall P (f n)) : Forall P (t.modify f p) := by
  refine ht.modify_of_map (k := fun _ => ()) (fun v cs cs' hc => hP v cs cs' ?_) (fun _ _ => rfl) hf
  simpa using congrArg List.length hc

-- The same for all nodes but the root.
theorem forall_children_modify {P : α → List α → Prop} (hP : ∀ v cs cs', cs.length = cs'.length → P v cs → P v cs')
    (ht : ∀ c ∈ t.children, Forall P c) (hroot : p = [] → ∀ c ∈ (f t).children, Forall P c)
    (hf : p ≠ [] → ∀ n, t.subtree? p = some n → Forall P n → Forall P (f n)) :
    ∀ c ∈ (t.modify f p).children, Forall P c := by
  cases List.eq_nil_or_concat' p
  case inl hp =>
    subst hp
    exact hroot rfl
  case inr hp =>
    have ⟨q, i, hp⟩ := hp
    subst hp
    intro c hc
    rw [modify_append, modify, modify, children_node] at hc
    have ⟨j, hj⟩ := List.mem_iff_getElem?.mp hc
    rw [List.getElem?_modify] at hj
    have ⟨d, hd, hj⟩ := Option.map_eq_some_iff.mp hj
    have hd' := ht d (List.mem_of_getElem? hd)
    subst hj
    split
    case isTrue hij =>
      subst hij
      refine hd'.modify hP fun n hn => hf (by simp) n ?_
      rw [subtree?_append]
      simp [subtree?, hd, hn]
    case isFalse => exact hd'

theorem mem_pathsFrom {k : Nat} {cs : List (RoseTree α)} (h : p ∈ pathsFrom k cs) :
    ∃ j c, cs[j]? = some c ∧ (p = [k + j] ∨ ∃ q ∈ c.paths, p = q ++ [k + j]) := by
  induction cs generalizing k
  case nil => cases h
  case cons c cs ih =>
    rw [pathsFrom, List.cons_append, List.mem_cons, List.mem_append, List.mem_map] at h
    rcases h with h | ⟨q, hq, h⟩ | h
    · exact ⟨0, c, rfl, .inl h⟩
    · exact ⟨0, c, rfl, .inr ⟨q, hq, h.symm⟩⟩
    · have ⟨j, d, hd, h⟩ := ih h
      rw [Nat.add_assoc, Nat.add_comm 1 j] at h
      exact ⟨j + 1, d, hd, h⟩

theorem mem_paths (h : p ∈ t.paths) : p ≠ [] ∧ (t.subtree? p).isSome := by
  induction t using induction generalizing p
  case node v cs ih =>
    have ⟨j, c, hc, h⟩ := mem_pathsFrom h
    rw [Nat.zero_add] at h
    rcases h with rfl | ⟨q, hq, rfl⟩
    · exact ⟨List.cons_ne_nil _ _, by simp [subtree?, hc]⟩
    · refine ⟨by simp, ?_⟩
      rw [subtree?_append]
      simp [subtree?, hc, (ih c (List.mem_of_getElem? hc) hq).right]

end RoseTree
