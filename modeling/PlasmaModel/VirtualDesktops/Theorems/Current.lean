import PlasmaModel.VirtualDesktops.Theorems.Layout

namespace KWin
namespace VirtualDesktopManager

variable {s s' : VirtualDesktopManager} {P Q : Nat → Prop} {entries : List (Nat × Option Nat)} {output desktop : Nat}
  {shown : Option Nat} {event : DesktopEvent}

-- The outputs with the property are those that have a desktop, and unless every output has its own they all have
-- the same one.
structure Assigned (s : VirtualDesktopManager) (P : Nat → Prop) : Prop where
  nodup  : (s.currentDesktops.map Prod.fst).Nodup
  mem    : ∀ output, output ∈ s.currentDesktops.map Prod.fst ↔ P output
  shown  : ∀ e ∈ s.currentDesktops, ∃ desktop ∈ s.desktops, e.2 = some desktop
  shared : s.perOutputVirtualDesktops = false → ∃ desktop, ∀ e ∈ s.currentDesktops, e.2 = some desktop

theorem mem_of_lookup (h : entries.lookup output = some shown) : (output, shown) ∈ entries := by
  have ⟨before, after, heq, _⟩ := List.lookup_eq_some_iff.mp h
  exact heq ▸ List.mem_append_right _ (.head _)

theorem exists_lookup (h : output ∈ entries.map Prod.fst) : ∃ shown, entries.lookup output = some shown := by
  cases hl : entries.lookup output
  case some shown => exact ⟨shown, rfl⟩
  case none =>
    have ⟨e, he, heq⟩ := List.mem_map.mp h
    exact absurd heq.symm (by simpa using List.lookup_eq_none_iff.mp hl e he)

theorem Assigned.lookup (h : s.Assigned P) (ho : P output) :
    ∃ desktop ∈ s.desktops, s.currentDesktops.lookup output = some (some desktop) := by
  have ⟨shown, hl⟩ := exists_lookup ((h.mem output).mpr ho)
  have ⟨desktop, hd, heq⟩ := h.shown _ (mem_of_lookup hl)
  exact ⟨desktop, hd, hl.trans (congrArg some heq)⟩

theorem Assigned.congr (h : s.Assigned P) (hpq : ∀ output, Q output ↔ P output) : s.Assigned Q :=
  { h with mem := fun output => (h.mem output).trans (hpq output).symm }

-- The desktops change, and those that are shown follow them.
theorem Assigned.map (h : s.Assigned P) {g : Option Nat → Option Nat}
    (he : s'.currentDesktops = s.currentDesktops.map fun e => (e.1, g e.2))
    (hp : s'.perOutputVirtualDesktops = s.perOutputVirtualDesktops)
    (hg : ∀ desktop ∈ s.desktops, ∃ desktop' ∈ s'.desktops, g (some desktop) = some desktop') : s'.Assigned P := by
  have hkeys : s'.currentDesktops.map Prod.fst = s.currentDesktops.map Prod.fst := by
    rw [he, List.map_map]
    rfl
  constructor
  case nodup => exact hkeys ▸ h.nodup
  case mem => exact hkeys ▸ h.mem
  case shown =>
    intro e hmem
    have ⟨e', he', heq⟩ := List.mem_map.mp (he ▸ hmem)
    have ⟨desktop, hd, hs⟩ := h.shown e' he'
    exact heq ▸ hs ▸ hg desktop hd
  case shared =>
    intro hper
    cases hnil : s.currentDesktops
    case nil =>
      rw [he, hnil]
      exact ⟨0, nofun⟩
    case cons e₀ rest =>
      have ⟨desktop, hall⟩ := h.shared (hp ▸ hper)
      have ⟨first, hf, hs⟩ := h.shown e₀ (hnil ▸ .head _)
      have ⟨desktop', _, hgd⟩ := hg first hf
      refine ⟨desktop', fun e hmem => ?_⟩
      have ⟨e', he', heq⟩ := List.mem_map.mp (he ▸ hmem)
      rw [← heq, hall e' he', ← hall e₀ (hnil ▸ .head _), hs, hgd]

theorem Assigned.entry_eq (h : s.Assigned P) (ho : P output) : s.entry output = s := by
  have ⟨_, _, hl⟩ := h.lookup ho
  rw [entry, hl]
  rfl

-- Only the desktops of the outputs change.
def Reassigned (s s' : VirtualDesktopManager) : Prop :=
  s' = { s with currentDesktops := s'.currentDesktops }

theorem Reassigned.trans {s₁ s₂ s₃ : VirtualDesktopManager} (h : Reassigned s₁ s₂) (h' : Reassigned s₂ s₃) :
    Reassigned s₁ s₃ := by
  rw [Reassigned] at h h' ⊢
  rw [h', h]

theorem entry_reassigned (s : VirtualDesktopManager) (output : Nat) : Reassigned s (s.entry output) := by
  rw [entry]
  split <;> rfl

theorem setEntry_reassigned (s : VirtualDesktopManager) (output : Nat) (shown : Option Nat) :
    Reassigned s (s.setEntry output shown) :=
  (entry_reassigned s output).trans rfl

theorem map_keys (f : Nat → Option Nat → Option Nat) (entries : List (Nat × Option Nat)) :
    (entries.map fun e => (e.1, f e.1 e.2)).map Prod.fst = entries.map Prod.fst := by
  rw [List.map_map]
  rfl

theorem Assigned.entry_keys (h : s.Assigned P) (output : Nat) :
    ((s.entry output).currentDesktops.map Prod.fst).Nodup ∧
      ∀ o, o ∈ (s.entry output).currentDesktops.map Prod.fst ↔ P o ∨ o = output := by
  by_cases ho : P output
  case pos =>
    rw [h.entry_eq ho]
    refine ⟨h.nodup, fun o => (h.mem o).trans ⟨.inl, fun hor => ?_⟩⟩
    cases hor
    case inl hp => exact hp
    case inr heq => exact heq ▸ ho
  case neg =>
    have hnot := ho ∘ (h.mem output).mp
    have hnone : s.currentDesktops.lookup output = none := by
      cases hl : s.currentDesktops.lookup output
      case none => rfl
      case some shown => exact absurd (List.mem_map_of_mem (f := Prod.fst) (mem_of_lookup hl)) hnot
    rw [entry, hnone]
    simp only [Option.isSome_none, Bool.false_eq_true, if_false, List.map_append, List.map_cons, List.map_nil]
    refine ⟨h.nodup.append (List.nodup_singleton _) (List.disjoint_singleton.mpr hnot), fun o => ?_⟩
    rw [List.mem_append, h.mem, List.mem_singleton]

theorem mem_setEntry {e : Nat × Option Nat} (he : e ∈ (s.setEntry output shown).currentDesktops) :
    e ∈ s.currentDesktops ∨ e = (output, shown) := by
  have ⟨⟨other, current⟩, hmem, heq⟩ := List.mem_map.mp he
  by_cases ho : other = output
  case pos => exact .inr (heq ▸ by simp [ho])
  case neg =>
    have heq : (other, current) = e := by simpa [ho] using heq
    rw [entry] at hmem
    split at hmem
    case isTrue => exact .inl (heq ▸ hmem)
    case isFalse =>
      cases List.mem_append.mp hmem
      case inl hmem => exact .inl (heq ▸ hmem)
      case inr hmem =>
        cases List.mem_singleton.mp hmem
        exact absurd rfl ho

theorem Assigned.setEntry (h : s.Assigned P) (hd : desktop ∈ s.desktops)
    (hs : s.perOutputVirtualDesktops = false → ∀ e ∈ s.currentDesktops, e.2 = some desktop) :
    (s.setEntry output (some desktop)).Assigned fun o => P o ∨ o = output := by
  have hre := setEntry_reassigned s output (some desktop)
  have ⟨hnodup, hmem⟩ := h.entry_keys output
  have hkeys : (s.setEntry output (some desktop)).currentDesktops.map Prod.fst =
      (s.entry output).currentDesktops.map Prod.fst :=
    map_keys (fun other current => if other = output then some desktop else current) _
  have hper : (s.setEntry output (some desktop)).perOutputVirtualDesktops = s.perOutputVirtualDesktops := by rw [hre]
  have hdesk : (s.setEntry output (some desktop)).desktops = s.desktops := by rw [hre]
  constructor
  case nodup => exact hkeys ▸ hnodup
  case mem => exact hkeys ▸ hmem
  case shown =>
    intro e he
    cases mem_setEntry he
    case inl he => exact hdesk ▸ h.shown e he
    case inr heq => exact ⟨desktop, hdesk ▸ hd, heq ▸ rfl⟩
  case shared =>
    intro hfalse
    refine ⟨desktop, fun e he => ?_⟩
    cases mem_setEntry he
    case inl he => exact hs (hper ▸ hfalse) e he
    case inr heq => exact heq ▸ rfl

theorem setCurrent_reassigned (s : VirtualDesktopManager) (newDesktop output : Nat) :
    Reassigned s (s.setCurrent newDesktop output) := by
  have hentry := entry_reassigned s output
  rw [setCurrent]
  split
  case isTrue => exact hentry
  case isFalse =>
    split
    case isTrue => exact hentry.trans (setEntry_reassigned ..)
    case isFalse => exact hentry.trans rfl

theorem Assigned.setCurrent (h : s.Assigned P) (hd : desktop ∈ s.desktops) (ho : P output) :
    (s.setCurrent desktop output).Assigned P := by
  rw [VirtualDesktopManager.setCurrent, h.entry_eq ho]
  simp only
  split
  case isTrue => exact h
  case isFalse =>
    split
    case isTrue hper =>
      refine (h.setEntry hd fun hfalse => absurd (hper.symm.trans hfalse) (by decide)).congr fun o => ?_
      exact ⟨.inl, fun hor => hor.elim (fun hp => hp) fun heq => heq ▸ ho⟩
    case isFalse => exact h.map (g := fun _ => some desktop) rfl rfl fun _ _ => ⟨desktop, hd, rfl⟩

theorem Assigned.initialDesktop (h : s.Assigned P) (hn : s.desktops ≠ []) (lastDesktop : Option String) (first : Nat) :
    ∃ desktop ∈ s.desktops, s.initialDesktopForNewOutput lastDesktop first = some desktop ∧
      (s.perOutputVirtualDesktops = false → ∀ e ∈ s.currentDesktops, e.2 = some desktop) := by
  rw [initialDesktopForNewOutput]
  split
  case isTrue hany =>
    have ⟨hper, hne⟩ : s.perOutputVirtualDesktops = false ∧ s.currentDesktops ≠ [] := by simpa using hany
    have hlt := Nat.mod_lt first (List.length_pos_iff.mpr hne)
    have ⟨desktop, hall⟩ := h.shared hper
    have hmem := List.getElem_mem hlt
    have ⟨desktop', hd, heq⟩ := h.shown _ hmem
    have hsame := Option.some.inj (heq.symm.trans (hall _ hmem))
    refine ⟨desktop, hsame ▸ hd, ?_, fun _ => hall⟩
    rw [List.getElem?_eq_getElem hlt, Option.bind_some, hall _ hmem]
  case isFalse hnot =>
    have hempty (hper : s.perOutputVirtualDesktops = false) : s.currentDesktops = [] := by simpa [hper] using hnot
    have hshared (desktop : Nat) (hper : s.perOutputVirtualDesktops = false) :
        ∀ e ∈ s.currentDesktops, e.2 = some desktop := hempty hper ▸ nofun
    split
    case h_1 desktop hlast =>
      have ⟨id, _, hid⟩ := Option.bind_eq_some_iff.mp hlast
      exact ⟨desktop, List.mem_of_find?_eq_some hid, rfl, hshared desktop⟩
    case h_2 =>
      exact ⟨s.desktops.head hn, List.head_mem hn, List.head?_eq_some_head hn, hshared _⟩

theorem initCurrentDesktopForOutput_reassigned (s : VirtualDesktopManager) (output : Nat) (lastDesktop : Option String)
    (first : Nat) : Reassigned s (s.initCurrentDesktopForOutput output lastDesktop first) := by
  rw [initCurrentDesktopForOutput]
  split
  case h_1 => rfl
  case h_2 => exact setEntry_reassigned ..

theorem Assigned.initCurrentDesktopForOutput (h : s.Assigned P) (hn : s.desktops ≠ []) (output : Nat)
    (lastDesktop : Option String) (first : Nat) :
    (s.initCurrentDesktopForOutput output lastDesktop first).Assigned fun o => P o ∨ o = output := by
  have ⟨desktop, hd, hi, hs⟩ := h.initialDesktop hn lastDesktop first
  rw [VirtualDesktopManager.initCurrentDesktopForOutput]
  split
  case h_1 hl =>
    have ho := (h.mem output).mp (List.mem_map_of_mem (f := Prod.fst) (mem_of_lookup hl))
    exact h.congr fun o => ⟨fun hor => hor.elim (fun hp => hp) fun heq => heq ▸ ho, .inl⟩
  case h_2 => exact hi ▸ h.setEntry hd hs

theorem removeOutput_reassigned (s : VirtualDesktopManager) (output : Nat) : Reassigned s (s.removeOutput output) :=
  rfl

theorem Assigned.removeOutput (h : s.Assigned P) (output : Nat) :
    (s.removeOutput output).Assigned fun o => P o ∧ o ≠ output := by
  have hsub : (s.removeOutput output).currentDesktops.Sublist s.currentDesktops := List.filter_sublist
  constructor
  case nodup => exact h.nodup.sublist (hsub.map Prod.fst)
  case mem =>
    intro o
    rw [← h.mem o, VirtualDesktopManager.removeOutput]
    simp only [List.mem_map, List.mem_filter, decide_eq_true_eq]
    constructor
    case mp => exact fun ⟨e, ⟨he, hne⟩, heq⟩ => ⟨⟨e, he, heq⟩, heq ▸ hne⟩
    case mpr => exact fun ⟨⟨e, he, heq⟩, hne⟩ => ⟨e, ⟨he, heq ▸ hne⟩, heq⟩
  case shown => exact fun e he => h.shown e (hsub.subset he)
  case shared =>
    intro hper
    have ⟨desktop, hall⟩ := h.shared hper
    exact ⟨desktop, fun e he => hall e (hsub.subset he)⟩

theorem foldl_reassigned {f : VirtualDesktopManager → Nat → VirtualDesktopManager}
    (hf : ∀ s output, Reassigned s (f s output)) (outputs : List Nat) (s : VirtualDesktopManager) :
    Reassigned s (outputs.foldl f s) := by
  induction outputs generalizing s
  case nil => rfl
  case cons output outputs ih => exact (hf s output).trans (ih _)

theorem Assigned.added (h : s.Assigned P) (hn : s.desktops ≠ []) (outputs : List Nat)
    (lastDesktop : Nat → Option String) (first : Nat → Nat) :
    (outputs.foldl (fun s output => s.initCurrentDesktopForOutput output (lastDesktop output) (first output))
      s).Assigned fun o => P o ∨ o ∈ outputs := by
  induction outputs generalizing s P
  case nil => exact h.congr fun o => by simp
  case cons output outputs ih =>
    have hinit := h.initCurrentDesktopForOutput hn output (lastDesktop output) (first output)
    have hdesk := initCurrentDesktopForOutput_reassigned s output (lastDesktop output) (first output)
    have hn' : (s.initCurrentDesktopForOutput output (lastDesktop output) (first output)).desktops ≠ [] := by
      rw [hdesk]
      exact hn
    exact (ih hinit hn').congr fun o => by rw [List.mem_cons, or_assoc]

theorem Assigned.removed (h : s.Assigned P) (outputs : List Nat) :
    (outputs.foldl VirtualDesktopManager.removeOutput s).Assigned fun o => P o ∧ o ∉ outputs := by
  induction outputs generalizing s P
  case nil => exact h.congr fun o => by simp
  case cons output outputs ih =>
    exact (ih (h.removeOutput output)).congr fun o => by rw [List.mem_cons, not_or, and_assoc]

-- The state between the operations.
structure Settled (s : VirtualDesktopManager) : Prop extends LaidOut s where
  assigned : s.Assigned (· ∈ s.outputs)
  active   : s.activeOutput ∈ s.outputs

theorem Settled.of_laidOut (h : s.Settled) (hl : s'.LaidOut) (ha : s'.Assigned (· ∈ s.outputs))
    (ho : s'.outputs = s.outputs) (hactive : s'.activeOutput = s.activeOutput) : s'.Settled :=
  { hl with assigned := ho ▸ ha, active := ho ▸ hactive ▸ h.active }

theorem Settled.reassigned (h : s.Settled) (hr : Reassigned s s') (ha : s'.Assigned (· ∈ s.outputs)) : s'.Settled :=
  h.of_laidOut (h.toLaidOut.of_eq (by rw [hr])) ha (by rw [hr]) (by rw [hr])

theorem Settled.setCurrent (h : s.Settled) (hd : desktop ∈ s.desktops) (ho : output ∈ s.outputs) :
    (s.setCurrent desktop output).Settled :=
  h.reassigned (setCurrent_reassigned s desktop output) (h.assigned.setCurrent hd ho)

theorem Assigned.all (h : s.Assigned P) (hk : s'.currentDesktops.map Prod.fst = s.currentDesktops.map Prod.fst)
    (hd : desktop ∈ s'.desktops) (hall : ∀ e ∈ s'.currentDesktops, e.2 = some desktop) : s'.Assigned P :=
  ⟨hk ▸ h.nodup, hk ▸ h.mem, fun e he => ⟨desktop, hd, hall e he⟩, fun _ => ⟨desktop, hall⟩⟩

-- Either some output shows another desktop, or all the outputs show the desktop already.
theorem foldl_setCurrent {outputs : List Nat} (hper : s.perOutputVirtualDesktops = false)
    (ho : ∀ output ∈ outputs, output ∈ s.currentDesktops.map Prod.fst) :
    let s' := outputs.foldl (fun s output => s.setCurrent desktop output) s
    s'.currentDesktops = s.currentDesktops.map (fun e => (e.1, some desktop)) ∨
      s'.currentDesktops = s.currentDesktops ∧
        ∀ output ∈ outputs, s.currentDesktops.lookup output = some (some desktop) := by
  induction outputs generalizing s
  case nil => exact .inr ⟨rfl, nofun⟩
  case cons output outputs ih =>
    have ⟨ho, hos⟩ := List.forall_mem_cons.mp ho
    have ⟨shown, hl⟩ := exists_lookup ho
    have hentry : s.entry output = s := if_pos (by rw [hl]; rfl)
    by_cases hshown : shown = some desktop
    case pos =>
      have hsame : s.setCurrent desktop output = s := by
        rw [VirtualDesktopManager.setCurrent, hentry, hl, hshown]
        exact if_pos rfl
      rw [List.foldl_cons, hsame]
      cases ih hper hos
      case inl hall => exact .inl hall
      case inr hsame => exact .inr ⟨hsame.1, List.forall_mem_cons.mpr ⟨hl.trans (congrArg some hshown), hsame.2⟩⟩
    case neg =>
      have hall : s.setCurrent desktop output =
          { s with currentDesktops := s.currentDesktops.map fun e => (e.1, some desktop) } := by
        have hne : s.currentDesktops.lookup output ≠ some (some desktop) :=
          fun h => hshown (Option.some.inj (hl.symm.trans h))
        rw [VirtualDesktopManager.setCurrent, hentry, if_neg hne, hper]
        rfl
      rw [List.foldl_cons, hall]
      have hkeys := map_keys (fun _ _ => some desktop) s.currentDesktops
      cases ih (s := { s with currentDesktops := s.currentDesktops.map fun e => (e.1, some desktop) }) hper
        fun output ho => hkeys.symm ▸ hos output ho
      case inl hall =>
        rw [List.map_map] at hall
        exact .inl hall
      case inr hsame => exact .inl hsame.1

theorem Settled.setPerOutputVirtualDesktops (h : s.Settled) (enabled : Bool) (lastDesktop : Option String)
    (first : Nat) : (s.setPerOutputVirtualDesktops enabled lastDesktop first).Settled := by
  rw [VirtualDesktopManager.setPerOutputVirtualDesktops]
  split
  case isTrue => exact h
  case isFalse hne =>
    cases enabled
    case true =>
      have ha : Assigned { s with perOutputVirtualDesktops := true } (· ∈ s.outputs) :=
        { h.assigned with shared := nofun }
      exact h.of_laidOut (h.toLaidOut.of_eq rfl) ha rfl rfl
    case false =>
      have ⟨desktop, hd, hl⟩ := h.assigned.lookup h.active
      have hcurrent : currentDesktop { s with perOutputVirtualDesktops := false } s.activeOutput lastDesktop first =
          some desktop := by
        rw [currentDesktop, hl]
        rfl
      simp only [hcurrent, Option.elim_some, Bool.false_eq_true, if_false]
      have hre : Reassigned { s with perOutputVirtualDesktops := false } _ :=
        foldl_reassigned (fun s output => setCurrent_reassigned s desktop output) s.outputs _
      have hfold := @foldl_setCurrent { s with perOutputVirtualDesktops := false } desktop s.outputs rfl
        fun output ho => (h.assigned.mem output).mpr ho
      generalize List.foldl _ _ s.outputs = s' at hre hfold ⊢
      have ha : s'.Assigned (· ∈ s.outputs) := by
        cases hfold
        case inl hmap =>
          refine h.assigned.all (hmap ▸ map_keys (fun _ _ => some desktop) _) (by rw [hre]; exact hd) fun e he => ?_
          have ⟨_, _, heq⟩ := List.mem_map.mp (hmap ▸ he)
          exact heq ▸ rfl
        case inr hsame =>
          have ⟨hsame, hl⟩ := hsame
          refine h.assigned.all (congrArg _ hsame) (by rw [hre]; exact hd) fun e he => ?_
          have he : e ∈ s.currentDesktops := hsame ▸ he
          have hmem := mem_of_lookup (hl e.1 ((h.assigned.mem e.1).mp (List.mem_map_of_mem he)))
          exact congrArg Prod.snd (List.inj_on_of_nodup_map h.assigned.nodup he hmem rfl)
      exact h.of_laidOut (h.toLaidOut.of_eq (by rw [hre])) ha (by rw [hre]) (by rw [hre])

theorem Settled.updateOutputs (h : s.LaidOut) (ha : s.Assigned (· ∈ s.outputs)) {outputs : List Nat} (hne : outputs ≠ [])
    (lastDesktop : Nat → Option String) (first : Nat → Nat) : (s.updateOutputs outputs lastDesktop first).Settled := by
  rw [VirtualDesktopManager.updateOutputs]
  have hstart : Assigned { s with outputs } (· ∈ s.outputs) := { ha with }
  have hadded := hstart.added h.nonempty (outputs.filter (· ∉ s.outputs)) lastDesktop first
  have hre : Reassigned { s with outputs } _ := foldl_reassigned
    (fun s output => initCurrentDesktopForOutput_reassigned s output (lastDesktop output) (first output))
    (outputs.filter (· ∉ s.outputs)) _
  have hremoved := hadded.removed (s.outputs.filter (· ∉ outputs))
  have hre' := hre.trans (foldl_reassigned removeOutput_reassigned (s.outputs.filter (· ∉ outputs)) _)
  generalize List.foldl _ _ (s.outputs.filter (· ∉ outputs)) = s' at hre' hremoved ⊢
  have ha' : s'.Assigned (· ∈ outputs) := hremoved.congr fun o => by
    simp only [List.mem_filter, decide_eq_true_eq]
    by_cases hs : o ∈ s.outputs <;> by_cases ho : o ∈ outputs <;> simp [hs, ho]
  split
  case isTrue hactive =>
    have hl : s'.LaidOut := h.of_eq (by rw [hre'])
    have ho : s'.outputs = outputs := by rw [hre']
    exact { hl with assigned := ho ▸ ha', active := ho ▸ hactive }
  case isFalse =>
    have hl : LaidOut { s' with activeOutput := outputs.headD 0 } := h.of_eq (by rw [hre'])
    have ho : s'.outputs = outputs := by rw [hre']
    have hhead : outputs.headD 0 ∈ outputs := by
      cases outputs
      case nil => exact absurd rfl hne
      case cons => exact .head _
    exact { hl with assigned := { ho ▸ ha' with }, active := ho ▸ hhead }

theorem Assigned.mono (h : s.Assigned P) (hc : s'.currentDesktops = s.currentDesktops)
    (hp : s'.perOutputVirtualDesktops = s.perOutputVirtualDesktops) (hsub : s.desktops ⊆ s'.desktops) :
    s'.Assigned P :=
  h.map (g := fun shown => shown) (hc.trans (List.map_id _).symm) hp fun desktop hd => ⟨desktop, hsub hd, rfl⟩

theorem Settled.createVirtualDesktop (h : s.Settled) (position : Nat) (newId : String) :
    (s.createVirtualDesktop position newId).Settled := by
  have hl := h.toLaidOut.createVirtualDesktop position newId
  by_cases hcount : s.count = VirtualDesktopManager.maximum
  case pos =>
    rw [VirtualDesktopManager.createVirtualDesktop, if_pos hcount]
    exact h
  case neg =>
    rw [VirtualDesktopManager.createVirtualDesktop, if_neg hcount] at hl ⊢
    refine h.of_laidOut hl (h.assigned.mono rfl rfl fun desktop hd => ?_) rfl rfl
    exact (List.perm_insertIdx _ _ (Nat.min_le_right _ _)).mem_iff.mpr (List.mem_cons_of_mem _ hd)

theorem exists_newDesktop {desktops : List Nat} (hn : desktops ≠ []) (i : Nat) :
    ∃ newDesktop ∈ desktops, (if i < desktops.length then desktops[i]? else desktops.getLast?) = some newDesktop := by
  split
  case isTrue hi => exact ⟨_, List.getElem_mem hi, List.getElem?_eq_getElem hi⟩
  case isFalse => exact ⟨_, List.getLast_mem hn, List.getLast?_eq_some_getLast hn⟩

theorem Settled.removeVirtualDesktop (h : s.Settled) (hd : desktop ∈ s.desktops) :
    (s.removeVirtualDesktop desktop).Settled := by
  have hl := h.toLaidOut.removeVirtualDesktop hd
  by_cases hcount : s.count = 1
  case pos =>
    rw [VirtualDesktopManager.removeVirtualDesktop, if_pos hcount]
    exact h
  case neg =>
    rw [VirtualDesktopManager.removeVirtualDesktop, if_neg hcount] at hl ⊢
    generalize hi : s.desktops.idxOf desktop = i at hl ⊢
    let g (shown : Option Nat) : Option Nat :=
      if shown = some desktop then
        if i < (s.desktops.eraseIdx i).length then (s.desktops.eraseIdx i)[i]? else (s.desktops.eraseIdx i).getLast?
      else
        shown
    refine h.of_laidOut hl (h.assigned.map (g := g) rfl rfl fun other ho => ?_) rfl rfl
    by_cases heq : other = desktop
    case pos =>
      obtain ⟨newDesktop, hmem, hnew⟩ := exists_newDesktop hl.nonempty i
      exact ⟨newDesktop, hmem, (if_pos (congrArg some heq)).trans hnew⟩
    case neg =>
      have hmem := (List.mem_erase_of_ne heq).mpr ho
      rw [List.erase_eq_eraseIdx_of_idxOf hi] at hmem
      exact ⟨other, hmem, if_neg fun hsome => heq (Option.some.inj hsome)⟩

theorem Settled.moveVirtualDesktop (h : s.Settled) (desktop : Nat) (position : Int) :
    (s.moveVirtualDesktop desktop position).Settled := by
  have hl := h.toLaidOut.moveVirtualDesktop desktop position
  by_cases hd : desktop ∈ s.desktops
  case neg =>
    rw [VirtualDesktopManager.moveVirtualDesktop, if_pos hd]
    exact h
  case pos =>
    by_cases hpos : position < 0 ∨ s.count ≤ position
    case pos =>
      rw [VirtualDesktopManager.moveVirtualDesktop, if_neg (not_not.mpr hd), if_pos hpos]
      exact h
    case neg =>
      by_cases hsame : s.desktops.idxOf desktop = position.toNat
      case pos =>
        rw [VirtualDesktopManager.moveVirtualDesktop, if_neg (not_not.mpr hd), if_neg hpos, if_pos hsame]
        exact h
      case neg =>
        rw [VirtualDesktopManager.moveVirtualDesktop, if_neg (not_not.mpr hd), if_neg hpos, if_neg hsame] at hl ⊢
        exact h.of_laidOut hl (h.assigned.mono rfl rfl (perm_moved hd hpos).symm.subset) rfl rfl

theorem Settled.setCount (h : s.Settled) (count : Nat) (newId : Nat → String) : (s.setCount count newId).Settled := by
  have hl := h.toLaidOut.setCount count newId
  rw [VirtualDesktopManager.setCount] at hl ⊢
  generalize max 1 (min count VirtualDesktopManager.maximum) = n at hl ⊢
  by_cases hsame : n = s.count
  case pos =>
    rw [if_pos hsame]
    exact h
  case neg =>
    rw [if_neg hsame] at hl ⊢
    by_cases hlt : n < s.count
    case pos =>
      rw [if_pos hlt] at hl ⊢
      let g (shown : Option Nat) : Option Nat :=
        if shown.any (· ∈ s.desktops.drop n) then (s.desktops.take n).getLast? else shown
      refine h.of_laidOut hl (h.assigned.map (g := g) rfl rfl fun other ho => ?_) rfl rfl
      simp only [g]
      split
      case isTrue => exact ⟨_, List.getLast_mem hl.nonempty, List.getLast?_eq_some_getLast hl.nonempty⟩
      case isFalse hnot =>
        have hkept : other ∉ s.desktops.drop n := by simpa using hnot
        have hmem := (List.mem_append.mp (List.take_append_drop n s.desktops ▸ ho)).resolve_right hkept
        exact ⟨other, hmem, rfl⟩
    case neg =>
      rw [if_neg hlt] at hl ⊢
      obtain ⟨hsub, hother⟩ := appendDesktops_other newId (n - s.count) s
      refine h.of_laidOut hl (h.assigned.mono ?_ ?_ hsub) ?_ ?_
      all_goals rw [updateLayout, hother]

theorem Settled.setRows (h : s.Settled) (rows : Nat) : (s.setRows rows).Settled := by
  have hl := h.toLaidOut.setRows rows
  by_cases hr : rows = 0 ∨ s.count < rows ∨ rows = s.rows
  case pos =>
    rw [VirtualDesktopManager.setRows, if_pos hr]
    exact h
  case neg =>
    rw [VirtualDesktopManager.setRows, if_neg hr] at hl ⊢
    exact h.of_laidOut hl (h.assigned.mono rfl rfl (List.Subset.refl _)) rfl rfl

theorem Settled.step (h : s.Settled) (hs : s.step event = some s') : s'.Settled := by
  cases event
  case createVirtualDesktop position newId => cases hs; exact h.createVirtualDesktop position newId
  case removeVirtualDesktop desktop =>
    have ⟨hd, hs⟩ := Option.ite_none_right_eq_some.mp hs
    cases hs
    exact h.removeVirtualDesktop hd
  case removeVirtualDesktopId id =>
    cases hs
    cases hid : s.desktopForId id
    case none => exact h
    case some desktop => exact h.removeVirtualDesktop (List.mem_of_find?_eq_some hid)
  case moveVirtualDesktop desktop position => cases hs; exact h.moveVirtualDesktop desktop position
  case setCount count newId => cases hs; exact h.setCount count newId
  case setRows rows => cases hs; exact h.setRows rows
  case setCurrent desktop output =>
    have ⟨⟨hd, ho⟩, hs⟩ := Option.ite_none_right_eq_some.mp hs
    cases hs
    exact h.setCurrent hd ho
  case setCurrentNumber desktop output =>
    have ⟨ho, hs⟩ := Option.ite_none_right_eq_some.mp hs
    cases hs
    cases hd : s.desktopForX11Id desktop
    case none => exact h
    case some desktop' =>
      have ⟨_, hd⟩ := Option.ite_none_left_eq_some.mp hd
      exact h.setCurrent (List.mem_of_getElem? hd) ho
  case setPerOutputVirtualDesktops enabled lastDesktop first =>
    cases hs
    exact h.setPerOutputVirtualDesktops enabled lastDesktop first
  case setActiveOutput output =>
    have ⟨ho, hs⟩ := Option.ite_none_right_eq_some.mp hs
    cases hs
    exact { h with active := ho, assigned := { h.assigned with } }
  case updateOutputs outputs lastDesktop first =>
    have ⟨hne, hs⟩ := Option.ite_none_left_eq_some.mp hs
    cases hs
    exact .updateOutputs h.toLaidOut h.assigned (fun heq => hne (.inl heq)) lastDesktop first

end VirtualDesktopManager

namespace VirtualDesktopManager

variable {s s₀ : VirtualDesktopManager} {perOutput : Bool} {n : Nat} {ids : Nat → String} {rows : Int} {outputs : List Nat}
  {lastDesktop : Nat → Option String} {first : Nat → Nat}

structure Valid (s : VirtualDesktopManager) : Prop where
  nonempty : s.desktops ≠ []
  maximum  : s.count ≤ maximum
  numbers  : ∀ i desktop, s.desktops[i]? = some desktop → s.x11DesktopNumber desktop = i + 1
  rows     : 1 ≤ s.rows ∧ s.rows ≤ s.count
  size     : s.grid.width = (s.count + s.rows - 1) / s.rows ∧ s.grid.height = s.rows
  listed   : s.grid.grid.flatten = s.desktops ∧ s.desktops.Nodup
  placed   : ∀ x y, x < s.grid.width → y < s.grid.height → s.grid.at? x y = s.desktops[y * s.grid.width + x]?
  current  : ∀ e ∈ s.currentDesktops, ∃ desktop ∈ s.desktops, e.2 = some desktop
  shared   : s.perOutputVirtualDesktops = false →
    ∃ desktop, ∀ output ∈ s.outputs, s.currentDesktops.lookup output = some (some desktop)

theorem Settled.valid (h : s.Settled) : s.Valid where
  nonempty := h.nonempty
  maximum  := h.maximum
  numbers  := h.numbers
  rows     := ⟨h.rows, h.rows_le⟩
  size     := h.size
  listed   := ⟨h.listed, h.nodup⟩
  placed   := h.placed
  current  := h.assigned.shown
  shared hper := by
    have ⟨desktop, hall⟩ := h.assigned.shared hper
    refine ⟨desktop, fun output ho => ?_⟩
    have ⟨desktop', _, hl⟩ := h.assigned.lookup ho
    exact hl.trans (congrArg some (hall _ (mem_of_lookup hl)))

end VirtualDesktopManager
end KWin
