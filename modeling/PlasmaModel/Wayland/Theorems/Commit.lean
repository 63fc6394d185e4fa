import PlasmaModel.Wayland.Theorems.TryApply

namespace KWin

open Fallible State

namespace TransactionEntry

def setNext (x : SurfaceId) (t : TransactionId) (entry : TransactionEntry) : TransactionEntry :=
  if entry.surface = x then { entry with nextTransaction := some t } else entry

theorem setNext_link (x : SurfaceId) (t : TransactionId) (entry : TransactionEntry) :
    (entry.setNext x t).link = entry.link.setNext x t := by
  unfold setNext Link.setNext link
  split <;> rfl

-- Forgets everything by which a transaction is tied to others.
def eraseLinks (entry : TransactionEntry) : TransactionEntry :=
  { entry with previousTransaction := none, nextTransaction := none, fences := [] }

def eraseNext (entry : TransactionEntry) : TransactionEntry :=
  { entry with nextTransaction := none }

@[simp]
theorem setNext_surface (x : SurfaceId) (t : TransactionId) (entry : TransactionEntry) :
    (entry.setNext x t).surface = entry.surface := by
  unfold setNext
  split <;> rfl

@[simp]
theorem setNext_eraseNext (x : SurfaceId) (t : TransactionId) (entry : TransactionEntry) :
    (entry.setNext x t).eraseNext = entry.eraseNext := by
  unfold setNext
  split <;> rfl

@[simp]
theorem setNext_eraseLinks (x : SurfaceId) (t : TransactionId) (entry : TransactionEntry) :
    (entry.setNext x t).eraseLinks = entry.eraseLinks := by
  unfold setNext
  split <;> rfl

end TransactionEntry

def Surface.eraseEnds (surface : Surface) : Surface :=
  { surface with firstTransaction := none, lastTransaction := none }

variable {env : Environment} {s s' s₀ : State} {queue queue' queue₀ : SurfaceId → List TransactionId}
variable {t a : TransactionId} {x : SurfaceId} {entry : TransactionEntry} {entries : List TransactionEntry}
variable {i j : Nat} {v : QueueView} {surface : Surface} {transaction : Transaction}

theorem exists_modify {α : Type} {l : List α} {a : α} (h : l[i]? = some a) :
    ∃ r : Multiset α, ↑l = a ::ₘ r ∧ ∀ f, (↑(l.modify i f) : Multiset α) = f a ::ₘ r := by
  induction l generalizing i
  case nil => simp at h
  case cons b l ih =>
    cases i
    case zero =>
      obtain rfl : b = a := by simpa using h
      exact ⟨↑l, rfl, fun f => rfl⟩
    case succ i =>
      have ⟨r, h₁, h₂⟩ := ih (i := i) (by simpa using h)
      refine ⟨b ::ₘ r, ?_, fun f => ?_⟩
      · rw [← Multiset.cons_coe, h₁, Multiset.cons_swap]
      · rw [List.modify_succ_cons, ← Multiset.cons_coe, h₂, Multiset.cons_swap]

-- What the link between a transaction and the last transaction of the surface changes.
structure Links (s s' : State) (t : TransactionId) (i : Nat) (x : SurfaceId) (surface : Surface)
    (transaction : Transaction) : Prop where
  own      : s'.transactions t = some ⟨(if surface.lastTransaction = some t then
               transaction.entries.map (·.setNext x t) else transaction.entries).modify i
                 ({ · with previousTransaction := surface.lastTransaction })⟩
  others   : ∀ b ≠ t, s'.transactions b = if surface.lastTransaction = some b then
               (s.transactions b).map (⟨·.entries.map (·.setNext x t)⟩) else s.transactions b
  surfaces : s'.surfaces = Function.update s.surfaces x (some { surface with
               firstTransaction := surface.firstTransaction.or (some t), lastTransaction := some t })
  rest     : s' = { s with surfaces := s'.surfaces, transactions := s'.transactions }

theorem links_of_first (htr : s.transactions t = some transaction) (hs : s.surfaces x = some surface)
    (hends : surface.firstTransaction = none ∧ surface.lastTransaction = none) :
    ∃ s₁, s.linkNext t x surface = .ok s₁ ∧
      Links s (s₁.linkPrevious t i x surface) t i x surface transaction := by
  refine ⟨s.modifySurface x fun surface => { surface with firstTransaction := some t },
    by simp [linkNext, hends.1]; rfl, ?_, ?_, ?_, ?_⟩
  case refine_1 => simp [linkPrevious, modifyEntry, modifyEntries, State.modifySurface, htr, hends]
  case refine_2 =>
    intro b hb
    simp [linkPrevious, modifyEntry, modifyEntries, State.modifySurface, hends, hb]
  case refine_3 => simp [linkPrevious, modifyEntry, modifyEntries, State.modifySurface, hends, hs]
  case refine_4 => rfl

theorem links_of_last {first last : TransactionId} (htr : s.transactions t = some transaction)
    (hs : s.surfaces x = some surface) (hfirst : surface.firstTransaction = some first)
    (hlast : surface.lastTransaction = some last) (hl : (s.transactions last).isSome) :
    ∃ s₁, s.linkNext t x surface = .ok s₁ ∧
      Links s (s₁.linkPrevious t i x surface) t i x surface transaction := by
  obtain ⟨transaction', hl⟩ := Option.isSome_iff_exists.mp hl
  refine ⟨s.setEntries last (transaction'.entries.map (·.setNext x t)), ?_, ?_, ?_, ?_, ?_⟩
  case refine_1 => simp [linkNext, hfirst, hlast, State.transaction, hl, TransactionEntry.setNext]
  case refine_2 =>
    by_cases h : last = t
    case pos =>
      obtain rfl : transaction' = transaction := by simpa [h, htr, eq_comm] using hl
      simp [linkPrevious, modifyEntry, modifyEntries, State.modifySurface, State.setEntries, hlast, h]
    case neg =>
      simp [linkPrevious, modifyEntry, modifyEntries, State.modifySurface, State.setEntries, hlast, h,
        htr, Ne.symm h]
  case refine_3 =>
    intro b hb
    by_cases h : last = b
    case pos =>
      subst h
      simp [linkPrevious, modifyEntry, modifyEntries, State.modifySurface, State.setEntries, hlast, hl, hb]
    case neg =>
      simp [linkPrevious, modifyEntry, modifyEntries, State.modifySurface, State.setEntries, hlast, h, hb,
        Ne.symm h]
  case refine_4 =>
    simp [linkPrevious, modifyEntry, modifyEntries, State.modifySurface, State.setEntries, hs, hfirst]
  case refine_5 => rfl

namespace Links

theorem links_own (h : Links s s' t i x surface transaction) (htr : s.transactions t = some transaction)
    (he : transaction.entries[i]? = some entry) :
    ∃ r, s.queueView.links t = some (entry.link ::ₘ r) ∧
      s'.queueView.links t = some (if surface.lastTransaction = some t then
        { entry.link.setNext x t with previous := some t } ::ₘ r.map (Link.setNext x t)
      else { entry.link with previous := surface.lastTransaction } ::ₘ r) := by
  have ⟨r, h₁, h₂⟩ := exists_modify he
  refine ⟨r.map (·.link), by rw [queueView_links htr, ← Multiset.map_coe, h₁, Multiset.map_cons], ?_⟩
  rw [queueView_links h.own, ← Multiset.map_coe]
  split
  case isTrue hl =>
    have ⟨r', h₁', h₂'⟩ := exists_modify (l := transaction.entries.map (·.setNext x t)) (i := i)
      (a := entry.setNext x t) (by simp [he])
    rw [← Multiset.map_coe, h₁, Multiset.map_cons, Multiset.cons_inj_right] at h₁'
    subst h₁'
    rw [h₂', hl, Multiset.map_cons, Multiset.map_map, Multiset.map_map]
    refine congrArg some (congrArg₂ _ ?_ (Multiset.map_congr rfl fun e _ => e.setNext_link x t))
    rw [← entry.setNext_link x t]
    rfl
  case isFalse => rw [h₂, Multiset.map_cons]; rfl

theorem links_others (h : Links s s' t i x surface transaction) (hb : b ≠ t) : s'.queueView.links b =
    if surface.lastTransaction = some b then (s.queueView.links b).map (·.map (Link.setNext x t))
    else s.queueView.links b := by
  simp only [State.queueView, h.others b hb]
  split
  case isTrue =>
    cases s.transactions b
    case none => rfl
    case some => simp [TransactionEntry.setNext_link, Function.comp_def]
  case isFalse => rfl

theorem ends (h : Links s s' t i x surface transaction) : s'.queueView.ends =
    Function.update s.queueView.ends x (some ⟨surface.firstTransaction.or (some t), some t⟩) := by
  funext y
  simp only [State.queueView, h.surfaces]
  by_cases hy : y = x
  case pos => subst hy; simp [Surface.ends]
  case neg => simp [hy]

end Links

-- What a commit makes of the queues: the new transaction is the last one in the queues of its surfaces
-- that exist.
def committedQueue (s₀ : State) (queue₀ : SurfaceId → List TransactionId) (entries : List TransactionEntry)
    (x : SurfaceId) : List TransactionId :=
  if (s₀.surfaces x).isSome ∧ x ∈ entries.map (·.surface) then queue₀ x ++ [s₀.nextTransaction] else queue₀ x

-- What `commit` has done before it links its i-th entry.
structure Linking (s₀ : State) (queue₀ : SurfaceId → List TransactionId) (entries : List TransactionEntry)
    (i : Nat) (s : State) (transaction : Transaction) : Prop where
  queues   : Queues s.queueView (committedQueue s₀ queue₀ (entries.take i))
  linked   : ∀ a ≠ s₀.nextTransaction, ∀ links, s.queueView.links a = some links →
               Linked s.queueView (committedQueue s₀ queue₀ (entries.take i)) a links
  found    : s.transactions s₀.nextTransaction = some transaction
  own      : transaction.entries.map (·.eraseLinks) = entries.map (·.eraseLinks)
  others   : ∀ a ≠ s₀.nextTransaction, (s.transactions a).map (·.entries.map (·.eraseNext)) =
               (s₀.transactions a).map (·.entries.map (·.eraseNext))
  surfaces : ∀ x, (s.surfaces x).map (·.eraseEnds) = (s₀.surfaces x).map (·.eraseEnds)
  rest     : s = { s₀ with surfaces := s.surfaces, transactions := s.transactions,
                           nextTransaction := s₀.nextTransaction + 1 }
  previous : ∀ j entry, transaction.entries[j]? = some entry →
               entry.previousTransaction = if i ≤ j ∨ s₀.surfaces entry.surface = none then none else
                 (committedQueue s₀ queue₀ (entries.take j) entry.surface).getLast?
  next     : ∀ entry ∈ transaction.entries, entry.nextTransaction ≠ none →
               (s₀.surfaces entry.surface).isSome ∧ entry.surface ∈ (entries.take i).map (·.surface)

theorem committedQueue_nil : committedQueue s₀ queue₀ [] = queue₀ := by
  funext x
  simp [committedQueue]

theorem mem_committedQueue (entries : List TransactionEntry) (h : s₀.nextTransaction ∉ queue₀ x) :
    s₀.nextTransaction ∈ committedQueue s₀ queue₀ entries x ↔
      (s₀.surfaces x).isSome ∧ x ∈ entries.map (·.surface) := by
  unfold committedQueue
  split
  case isTrue hx => simpa using hx
  case isFalse hx => exact iff_of_false h hx

theorem committedQueue_concat (s₀ : State) (queue₀ : SurfaceId → List TransactionId)
    (entries : List TransactionEntry) (entry : TransactionEntry) : committedQueue s₀ queue₀ (entries ++ [entry]) =
    if (s₀.surfaces entry.surface).isSome ∧ entry.surface ∉ entries.map (·.surface) then
      Function.update (committedQueue s₀ queue₀ entries) entry.surface
        (committedQueue s₀ queue₀ entries entry.surface ++ [s₀.nextTransaction])
    else committedQueue s₀ queue₀ entries := by
  split
  case isTrue h =>
    funext x
    by_cases hx : x = entry.surface
    case pos => subst hx; simp [committedQueue, h.1, h.2]
    case neg => simp [committedQueue, hx]
  case isFalse h =>
    funext x
    by_cases hx : x = entry.surface
    case pos => subst hx; simp only [committedQueue]; grind
    case neg => simp [committedQueue, hx]

theorem map_modify {α β : Type} {l : List α} {f : α → α} {g : α → β} (h : ∀ a, g (f a) = g a) :
    (l.modify i f).map g = l.map g := by
  refine List.ext_getElem? fun j => ?_
  simp only [List.getElem?_map, List.getElem?_modify]
  cases l[j]? <;> simp
  split <;> simp [h]

namespace Linking

theorem start (hc : Consistent s₀ queue₀)
    (he : ∀ entry ∈ entries, entry.previousTransaction = none ∧ entry.nextTransaction = none ∧
      entry.surface < s₀.nextSurface) :
    Linking s₀ queue₀ entries 0 { s₀.setEntries s₀.nextTransaction entries with
      nextTransaction := s₀.nextTransaction + 1 } ⟨entries⟩ := by
  have hl : ∀ l ∈ (↑(entries.map (·.link)) : Multiset Link), l.previous = none ∧ l.surface < s₀.nextSurface := by
    intro l hl
    obtain ⟨entry, hm, rfl⟩ := List.mem_map.mp (Multiset.mem_coe.mp hl)
    exact ⟨(he entry hm).1, (he entry hm).2.2⟩
  have hv : State.queueView { s₀.setEntries s₀.nextTransaction entries with
      nextTransaction := s₀.nextTransaction + 1 } =
      { s₀.queueView.setLinks s₀.nextTransaction ↑(entries.map (·.link)) with
        nextTransaction := s₀.nextTransaction + 1 } := by
    rw [← setEntries_queueView]
    rfl
  constructor
  case queues =>
    rw [hv, List.take_zero, committedQueue_nil]
    exact hc.queues.create (fun l h => (hl l h).1) (fun l h => (hl l h).2)
  case linked =>
    rw [hv, List.take_zero, committedQueue_nil]
    intro a ha links h
    have := hc.linked a links (by simpa [QueueView.setLinks, ha] using h)
    exact ⟨this.nodup, this.unqueued⟩
  case found => simp [setEntries]
  case own => rfl
  case others => exact fun a ha => by simp [setEntries, ha]
  case surfaces => exact fun _ => rfl
  case rest => rfl
  case previous => exact fun j entry hj => by simpa using (he entry (List.mem_of_getElem? hj)).1
  case next => exact fun entry hm hn => absurd (he entry hm).2.1 hn

theorem isSome_eq (h : Linking s₀ queue₀ entries i s transaction) :
    (s.surfaces x).isSome = (s₀.surfaces x).isSome := by
  simpa using congrArg Option.isSome (h.surfaces x)

theorem map_eq {α : Type} {g : Surface → α} (h : Linking s₀ queue₀ entries i s transaction)
    (hg : ∀ a, g a.eraseEnds = g a) : (s.surfaces x).map g = (s₀.surfaces x).map g := by
  have := congrArg (Option.map g) (h.surfaces x)
  simpa [Option.map_map, Function.comp_def, hg] using this

-- The fences of an entry play no part in the links.
theorem watch (env : Environment) (h : Linking s₀ queue₀ entries i s transaction) (he : transaction.entries[j]? = some entry) :
    ∃ transaction' entry', Linking s₀ queue₀ entries i (s.watch env s₀.nextTransaction j entry) transaction' ∧
      transaction'.entries[j]? = some entry' ∧ entry'.surface = entry.surface := by
  unfold State.watch
  split
  case isFalse => exact ⟨transaction, entry, h, he, rfl⟩
  case isTrue =>
    generalize hf : (fun entry : TransactionEntry => { entry with
      fences := List.replicate (env.watch s₀.nextTransaction j) true }) = f
    have hmem : ∀ {k : Nat} {e : TransactionEntry}, (transaction.entries.modify j f)[k]? = some e →
        ∃ e₀ : TransactionEntry, transaction.entries[k]? = some e₀ ∧ e.link = e₀.link := by
      intro k e hk
      rw [List.getElem?_modify] at hk
      cases hk' : transaction.entries[k]?
      case none => simp [hk'] at hk
      case some e₀ =>
        refine ⟨e₀, rfl, ?_⟩
        rw [hk'] at hk
        obtain rfl := Option.some.inj hk
        split <;> simp [← hf, TransactionEntry.link]
    have hv : (s.modifyEntry s₀.nextTransaction j f).queueView = s.queueView := by
      simp only [State.queueView, modifyEntry, modifyEntries]
      congr 1
      ext1 a
      by_cases ha : a = s₀.nextTransaction
      case neg => simp [ha]
      case pos => simp [ha, h.found, map_modify (g := (·.link)) (f := f) fun _ => by simp [← hf, TransactionEntry.link]]
    refine ⟨⟨transaction.entries.modify j f⟩, f entry, ?_, by simp [he], by simp [← hf]⟩
    constructor
    case queues => exact hv ▸ h.queues
    case linked => exact hv ▸ h.linked
    case found => simp [modifyEntry, modifyEntries, h.found]
    case own => rw [map_modify fun _ => by simp [← hf, TransactionEntry.eraseLinks], h.own]
    case others => exact fun a ha => by simpa [modifyEntry, modifyEntries, ha] using h.others a ha
    case surfaces => exact h.surfaces
    case rest => rw [h.rest]; rfl
    case previous =>
      intro k e hk
      obtain ⟨e₀, hk₀, hl⟩ := hmem hk
      have h₁ : e.surface = e₀.surface := congrArg Link.surface hl
      have h₂ : e.previousTransaction = e₀.previousTransaction := congrArg Link.previous hl
      rw [h₁, h₂, h.previous k e₀ hk₀]
    case next =>
      intro e hm
      obtain ⟨k, hk⟩ := List.mem_iff_getElem?.mp hm
      obtain ⟨e₀, hk₀, hl⟩ := hmem hk
      have h₁ : e.surface = e₀.surface := congrArg Link.surface hl
      have h₂ : e.nextTransaction = e₀.nextTransaction := congrArg Link.next hl
      rw [h₁, h₂]
      exact h.next e₀ (List.mem_of_getElem? hk₀)

theorem entry_at (h : Linking s₀ queue₀ entries i s transaction) (he : transaction.entries[j]? = some entry) :
    ∃ e, entries[j]? = some e ∧ e.surface = entry.surface := by
  have := congrArg (·[j]?) h.own
  simp only [List.getElem?_map, he, Option.map_some] at this
  obtain ⟨e, he, hs⟩ := Option.map_eq_some_iff.mp this.symm
  exact ⟨e, he, congrArg (·.surface) hs⟩

theorem take_succ (h : Linking s₀ queue₀ entries i s transaction) (he : transaction.entries[i]? = some entry) :
    ∃ e, entries.take (i + 1) = entries.take i ++ [e] ∧ e.surface = entry.surface := by
  have ⟨e, he, hs⟩ := h.entry_at he
  exact ⟨e, by simp [List.take_add_one, he], hs⟩

-- The surface of the entry does not exist any more.
theorem skip (h : Linking s₀ queue₀ entries i s transaction) (he : transaction.entries[i]? = some entry)
    (hs : s.surfaces entry.surface = none) : Linking s₀ queue₀ entries (i + 1) s transaction := by
  have hs₀ : s₀.surfaces entry.surface = none := by simpa [hs] using h.isSome_eq (x := entry.surface)
  have hq : committedQueue s₀ queue₀ (entries.take (i + 1)) = committedQueue s₀ queue₀ (entries.take i) := by
    have ⟨e, ht, hes⟩ := h.take_succ he
    rw [ht, committedQueue_concat, if_neg (by simp [hes, hs₀])]
  constructor
  case queues => exact hq ▸ h.queues
  case linked => exact hq ▸ h.linked
  case found => exact h.found
  case own => exact h.own
  case others => exact h.others
  case surfaces => exact h.surfaces
  case rest => exact h.rest
  case previous =>
    intro j e hj
    rw [h.previous j e hj]
    by_cases hij : j = i
    case pos => subst hij; obtain rfl := Option.some.inj (he.symm.trans hj); simp [hs₀]
    case neg => exact if_congr (or_congr_left (by omega)) rfl rfl
  case next =>
    intro e hm hn
    have ⟨h₁, h₂⟩ := h.next e hm hn
    exact ⟨h₁, List.map_subset _ (List.take_subset_take_left _ (Nat.le_succ i)) h₂⟩

-- What the entries are after the i-th one has been linked.
theorem entry_of_links (hl : Links s s' t i x surface transaction) :
    ∃ transaction', s'.transactions t = some transaction' ∧
      transaction'.entries.map (·.eraseLinks) = transaction.entries.map (·.eraseLinks) ∧
      ∀ j e', transaction'.entries[j]? = some e' → ∃ e, transaction.entries[j]? = some e ∧
        e'.surface = e.surface ∧
        e'.previousTransaction = (if j = i then surface.lastTransaction else e.previousTransaction) ∧
        (e'.nextTransaction ≠ none → e.nextTransaction ≠ none ∨
          (surface.lastTransaction = some t ∧ e.surface = x)) := by
  refine ⟨_, hl.own, ?_, fun j e' hj => ?_⟩
  case refine_1 =>
    refine (map_modify (g := TransactionEntry.eraseLinks) ?_).trans ?_
    · exact fun _ => rfl
    · split <;> simp
  case refine_2 =>
    by_cases ht : surface.lastTransaction = some t
    case pos =>
      simp only [if_pos ht, List.getElem?_modify, List.getElem?_map] at hj
      obtain ⟨e₁, he₁, rfl⟩ := Option.map_eq_some_iff.mp hj
      obtain ⟨e, he, rfl⟩ := Option.map_eq_some_iff.mp he₁
      refine ⟨e, he, ?_⟩
      by_cases hx : e.surface = x <;> by_cases hij : i = j
      · subst hij; simp [hx, ht, TransactionEntry.setNext]
      · simp [hij, Ne.symm hij, hx, ht, TransactionEntry.setNext]
      · subst hij; simp [hx, ht, TransactionEntry.setNext]
      · simp [hij, Ne.symm hij, hx, ht, TransactionEntry.setNext]
    case neg =>
      simp only [if_neg ht, List.getElem?_modify] at hj
      obtain ⟨e, he, rfl⟩ := Option.map_eq_some_iff.mp hj
      refine ⟨e, he, ?_⟩
      by_cases hij : i = j
      case pos => subst hij; simp [ht]
      case neg => simp [hij, Ne.symm hij, ht]

theorem link (h : Linking s₀ queue₀ entries i s transaction) (hf : ∀ x, s₀.nextTransaction ∉ queue₀ x)
    (hn : s₀.nextTransaction ∉ s₀.applying)
    (he : transaction.entries[i]? = some entry) (hs : s.surfaces entry.surface = some surface)
    (hl : Links s s' s₀.nextTransaction i entry.surface surface transaction) :
    ∃ transaction', Linking s₀ queue₀ entries (i + 1) s' transaction' := by
  have hs₀ : (s₀.surfaces entry.surface).isSome := by simpa [hs] using (h.isSome_eq (x := entry.surface)).symm
  have hends : surface.ends = _ := h.queues.ends entry.surface surface.ends (by simp [State.queueView, hs])
  generalize hq : committedQueue s₀ queue₀ (entries.take i) = queue at hends
  have hfirst : surface.firstTransaction = (queue entry.surface).head? := congrArg Ends.first hends
  have hlast : surface.lastTransaction = (queue entry.surface).getLast? := congrArg Ends.last hends
  have happ : s.applying = s₀.applying := by rw [h.rest]
  have hnext : s.nextTransaction = s₀.nextTransaction + 1 := by rw [h.rest]
  have hrest := hl.rest
  obtain ⟨e, htake, hes⟩ := h.take_succ he
  obtain ⟨r, hlinks, hlinks'⟩ := hl.links_own h.found he
  obtain ⟨transaction', hfound, hown, hentries⟩ := entry_of_links hl
  have hmem := mem_committedQueue (entries.take i) (hf entry.surface)
  rw [hq] at hmem
  have hstate : ∀ q', Queues s'.queueView q' → committedQueue s₀ queue₀ (entries.take (i + 1)) = q' →
      (∀ a ≠ s₀.nextTransaction, ∀ y, a ∈ q' y ↔ a ∈ queue y) →
      Linking s₀ queue₀ entries (i + 1) s' transaction' := by
    intro q' hqueues hq' hmem'
    constructor
    case queues => exact hq' ▸ hqueues
    case linked =>
      intro a ha links hlinks
      rw [hl.links_others ha] at hlinks
      rw [hq']
      have : ∃ links₀, s.queueView.links a = some links₀ ∧
          (links = links₀ ∨ links = links₀.map (Link.setNext entry.surface s₀.nextTransaction)) := by
        split at hlinks
        · obtain ⟨links₀, h₀, rfl⟩ := Option.map_eq_some_iff.mp hlinks
          exact ⟨links₀, h₀, .inr rfl⟩
        · exact ⟨links, hlinks, .inl rfl⟩
      obtain ⟨links₀, h₀, hlinks⟩ := this
      refine (hq ▸ h.linked a ha links₀ h₀).enqueue (hmem' a ha) hlinks ?_ (fun y hy => ?_) ?_
      · simp [State.queueView, hs]
      · rw [hl.ends]
        have : y ≠ entry.surface := by rintro rfl; simp [State.queueView, hs] at hy
        simpa [this] using hy
      · rw [State.queueView, hrest]; rfl
    case found => exact hfound
    case own => exact hown.trans h.own
    case others =>
      intro a ha
      rw [← h.others a ha, hl.others a ha]
      split
      · cases s.transactions a <;> simp
      · rfl
    case surfaces =>
      intro y
      rw [← h.surfaces y, hl.surfaces]
      by_cases hy : y = entry.surface
      case pos => subst hy; simp [hs, Surface.eraseEnds]
      case neg => simp [hy]
    case rest => rw [hrest, h.rest]
    case previous =>
      intro j e' hj
      obtain ⟨e₁, hj₁, hse, hpe, _⟩ := hentries j e' hj
      rw [hpe, hse]
      by_cases hij : j = i
      case pos =>
        subst hij
        obtain rfl := Option.some.inj (he.symm.trans hj₁)
        have : s₀.surfaces entry.surface ≠ none := by rintro hn; simp [hn] at hs₀
        simp [this, hlast, hq]
      case neg =>
        rw [if_neg hij, h.previous j e₁ hj₁]
        exact if_congr (or_congr_left (by omega)) rfl rfl
    case next =>
      intro e' hm hn
      obtain ⟨j, hj⟩ := List.mem_iff_getElem?.mp hm
      obtain ⟨e₁, hj₁, hse, _, hne⟩ := hentries j e' hj
      rw [hse]
      rcases hne hn with hne | ⟨_, hx⟩
      · obtain ⟨h₁, h₂⟩ := h.next e₁ (List.mem_of_getElem? hj₁) hne
        exact ⟨h₁, List.map_subset _ (List.take_subset_take_left _ (Nat.le_succ i)) h₂⟩
      · rw [hx, htake]
        exact ⟨hs₀, by simp [hes]⟩
  have hq' := committedQueue_concat s₀ queue₀ (entries.take i) e
  rw [← htake, hes, hq] at hq'
  have hqueues := hq ▸ h.queues
  have hprev : entry.previousTransaction = none := by simpa using h.previous i entry he
  have hnapp : s₀.nextTransaction ∉ s.queueView.applying := by rwa [← happ] at hn
  have happ' : s'.queueView.applying = s.queueView.applying := by rw [State.queueView, hrest]; rfl
  have hnext' : s'.queueView.nextTransaction = s.queueView.nextTransaction := by rw [State.queueView, hrest]; rfl
  have hsurf' : s'.queueView.nextSurface = s.queueView.nextSurface := by rw [State.queueView, hrest]; rfl
  by_cases hm : s₀.nextTransaction ∈ queue entry.surface
  case pos =>
    have hx := (hmem.mp hm).2
    rw [if_neg (fun h => h.2 hx)] at hq'
    have hqx : (queue entry.surface).getLast? = some s₀.nextTransaction := by
      rw [← hq, committedQueue, if_pos ⟨hs₀, hx⟩, List.getLast?_concat]
    rw [hlast, hqx, if_pos rfl] at hlinks'
    refine ⟨transaction', hstate queue ?_ hq' fun _ _ _ => Iff.rfl⟩
    refine hqueues.link_again hlinks rfl hqx hprev hlinks' (fun b hb => ?_) ?_ happ' hnapp hnext' hsurf'
    · rw [hl.links_others hb, hlast, hqx, if_neg (by simpa using hb.symm)]
    · rw [hl.ends, hfirst, Function.update_eq_self_iff]
      cases hqe : queue entry.surface
      case nil => simp [hqe] at hm
      case cons => simp [State.queueView, hs, hends, hqe, ← hqx]
  case neg =>
    have hx : entry.surface ∉ (entries.take i).map (·.surface) := fun hx => hm (hmem.mpr ⟨hs₀, hx⟩)
    rw [if_pos ⟨hs₀, hx⟩] at hq'
    have hqx : surface.lastTransaction ≠ some s₀.nextTransaction := by
      rw [hlast]
      exact fun h => hm (List.mem_of_getLast? h)
    rw [if_neg hqx, hlast] at hlinks'
    refine ⟨transaction', hstate _ ?_ hq' fun a ha y => ?_⟩
    · refine hqueues.link_new hlinks hnext rfl hm hprev (fun l hl hn => ?_) ?_ hlinks' (fun b hb => ?_) ?_
        (fun y hy => ?_) happ' hnapp hnext' hsurf'
      · rw [Option.some.inj (hlinks.symm.trans (queueView_links h.found))] at hl
        obtain ⟨e', hm', rfl⟩ := List.mem_map.mp (Multiset.mem_coe.mp hl)
        by_contra hne
        have := (mem_committedQueue _ (hf e'.surface)).mpr (h.next e' hm' hne)
        exact hn (hq ▸ this)
      · exact hqueues.alive entry.surface surface.ends (by simp [State.queueView, hs])
      · rw [hl.links_others hb, hlast]
      · rw [hl.ends, Function.update_self, hfirst, List.head?_append]
        rfl
      · rw [hl.ends, Function.update_of_ne hy]
    · by_cases hy : y = entry.surface
      case pos => subst hy; simp [ha]
      case neg => rw [Function.update_of_ne hy]

-- An entry is always linked: the last transaction of a surface exists.
theorem step (env : Environment) (h : Linking s₀ queue₀ entries i s transaction) (hf : ∀ x, s₀.nextTransaction ∉ queue₀ x)
    (hn : s₀.nextTransaction ∉ s₀.applying) (hi : i < entries.length) : ∃ s' transaction',
      s.commitEntry env s₀.nextTransaction i = .ok s' ∧ Linking s₀ queue₀ entries (i + 1) s' transaction' := by
  have hlen : transaction.entries.length = entries.length := by simpa using congrArg List.length h.own
  obtain ⟨entry, he⟩ : ∃ entry, transaction.entries[i]? = some entry :=
    ⟨_, List.getElem?_eq_getElem (hlen ▸ hi)⟩
  have hentry : s.entry s₀.nextTransaction i = .ok entry := entry_eq_ok.mpr ⟨transaction, h.found, he⟩
  cases hs : s.surfaces entry.surface
  case none =>
    refine ⟨s, transaction, ?_, h.skip he hs⟩
    simp [commitEntry, hentry, bind, Except.bind, hs, pure, Except.pure]
  case some surface =>
    obtain ⟨transaction₁, entry₁, h₁, he₁, hx⟩ := h.watch env he
    have hs₁ : (s.watch env s₀.nextTransaction i entry).surfaces entry.surface = some surface := by
      unfold State.watch
      split <;> exact hs
    have hends : surface.ends = _ := h₁.queues.ends entry.surface surface.ends (by simp [State.queueView, hs₁])
    generalize hq : committedQueue s₀ queue₀ (entries.take i) = queue at hends
    have hlinks : ∃ s₂, (s.watch env s₀.nextTransaction i entry).linkNext s₀.nextTransaction entry.surface surface =
        .ok s₂ ∧ Links (s.watch env s₀.nextTransaction i entry)
          (s₂.linkPrevious s₀.nextTransaction i entry.surface surface) s₀.nextTransaction i entry.surface surface
          transaction₁ := by
      cases hqe : queue entry.surface
      case nil => exact links_of_first h₁.found hs₁ (by rw [hqe] at hends; exact ⟨congrArg Ends.first hends, congrArg Ends.last hends⟩)
      case cons first rest =>
        rw [hqe] at hends
        obtain ⟨last, hlast⟩ : ∃ last, (first :: rest).getLast? = some last :=
          ⟨_, List.getLast?_eq_getLast_of_ne_nil (List.cons_ne_nil _ _)⟩
        refine links_of_last h₁.found hs₁ (congrArg Ends.first hends) ((congrArg Ends.last hends).trans hlast) ?_
        obtain ⟨links, hl, _⟩ := h₁.queues.queued entry.surface last
          (by rw [hq, hqe]; exact List.mem_of_getLast? hlast)
        simp only [State.queueView, Option.map_eq_some_iff] at hl
        obtain ⟨_, hl, _⟩ := hl
        simp [hl]
    obtain ⟨s₂, h₂, hl⟩ := hlinks
    obtain ⟨transaction', h'⟩ := h₁.link hf hn he₁ (hx ▸ hs₁) (hx ▸ hl)
    refine ⟨_, transaction', ?_, h'⟩
    simp only [commitEntry, hentry, hx]
    simp [bind, Except.bind, hs, h₂, pure, Except.pure]

theorem consistent (h : Linking s₀ queue₀ entries entries.length s transaction)
    (hf : ∀ x, s₀.nextTransaction ∉ queue₀ x) : Consistent s (committedQueue s₀ queue₀ entries) := by
  have hq := h.queues
  have hl := h.linked
  rw [List.take_length] at hq hl
  refine ⟨hq, fun a links ha => ?_⟩
  by_cases hat : a = s₀.nextTransaction
  case neg => exact hl a hat links ha
  case pos =>
    subst hat
    obtain rfl := Option.some.inj (ha.symm.trans (queueView_links h.found))
    constructor
    case nodup =>
      intro hp
      rw [Multiset.filter_coe, Multiset.map_coe, Multiset.coe_nodup, List.Nodup, List.pairwise_map,
        List.pairwise_filter, List.pairwise_map, List.pairwise_iff_getElem]
      intro j k hj hk hjk hqj _ heq
      have hqj := (mem_committedQueue _ (hf _)).mp (of_decide_eq_true hqj)
      refine hp transaction.entries[k].link (Multiset.mem_coe.mpr (List.mem_map_of_mem (List.getElem_mem hk))) ?_
      have ⟨e, hej, hes⟩ := h.entry_at (List.getElem?_eq_getElem hj)
      show transaction.entries[k].previousTransaction = _
      have heq : transaction.entries[j].surface = transaction.entries[k].surface := heq
      have halive : (s₀.surfaces transaction.entries[k].surface).isSome := heq ▸ hqj.1
      have hmem : transaction.entries[k].surface ∈ (entries.take k).map (·.surface) := by
        rw [← heq, ← hes]
        refine List.mem_map_of_mem (List.mem_take_iff_getElem.mpr ⟨j, ?_, ?_⟩)
        · have := (List.getElem?_eq_some_iff.mp hej).1
          omega
        · exact (List.getElem?_eq_some_iff.mp hej).2
      have hlen : transaction.entries.length = entries.length := by simpa using congrArg List.length h.own
      rw [h.previous k _ (List.getElem?_eq_getElem hk), if_neg, committedQueue, if_pos ⟨halive, hmem⟩,
        List.getLast?_concat]
      rintro (hlk | hnone)
      · omega
      · simp [hnone] at halive
    case unqueued =>
      intro _ l hl hn
      obtain ⟨e, he, rfl⟩ := List.mem_map.mp (Multiset.mem_coe.mp hl)
      rw [mem_committedQueue _ (hf _)] at hn
      have ⟨j, hj⟩ := List.mem_iff_getElem?.mp he
      have ⟨e₀, hej, hes⟩ := h.entry_at hj
      have hmem : e.link.surface ∈ entries.map (·.surface) := List.mem_map.mpr ⟨e₀, List.mem_of_getElem? hej, hes⟩
      have hdead : s₀.surfaces e.surface = none := by
        have : ¬(s₀.surfaces e.link.surface).isSome := fun h => hn ⟨h, hmem⟩
        simpa [TransactionEntry.link] using this
      constructor
      · have := h.isSome_eq (x := e.surface)
        rw [hdead] at this
        simpa [State.queueView, TransactionEntry.link] using this
      · by_contra hne
        have := (h.next e he hne).1
        simp [hdead] at this

end Linking

-- A commit puts the transaction into the queues and tries to apply it.
theorem commit_linking (env : Environment) (hc : Consistent s₀ queue₀)
    (he : ∀ entry ∈ entries, entry.previousTransaction = none ∧ entry.nextTransaction = none ∧
      entry.surface < s₀.nextSurface) : ∃ s₁ transaction, Linking s₀ queue₀ entries entries.length s₁ transaction ∧
      Consistent s₁ (committedQueue s₀ queue₀ entries) ∧
      s₀.commit env entries = s₁.tryApply env s₀.nextTransaction := by
  have hf : ∀ x, s₀.nextTransaction ∉ queue₀ x := fun x => hc.queues.fresh_not_mem
  have ⟨s₁, h₁, transaction, h₂⟩ := foldlM_range_ok
    (fun i s => ∃ transaction, Linking s₀ queue₀ entries i s transaction)
    (fun i hi s ⟨_, h⟩ =>
      have ⟨s', transaction', h₁, h₂⟩ := h.step env hf hc.queues.fresh_not_applying hi
      ⟨s', h₁, transaction', h₂⟩)
    ⟨_, Linking.start hc he⟩
  refine ⟨s₁, transaction, h₂, h₂.consistent hf, ?_⟩
  simp only [commit, h₁]
  rfl

end KWin
