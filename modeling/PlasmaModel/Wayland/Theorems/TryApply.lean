import Mathlib.Logic.Relation
import PlasmaModel.Wayland.Theorems.Basic
import PlasmaModel.Wayland.Theorems.Queue

namespace KWin

open Fallible State

structure Consistent (s : State) (queue : SurfaceId → List TransactionId) : Prop where
  queues : Queues s.queueView queue
  linked : ∀ t links, s.queueView.links t = some links → Linked s.queueView queue t links

-- What a commit and everything that follows from it leave alone of a surface.
def Surface.eraseQueue (surface : Surface) : Surface :=
  { surface with current := {}, mapped := false, firstTransaction := none, lastTransaction := none }

structure Static (s s' : State) : Prop where
  surfaces       : ∀ x, (s'.surfaces x).map (·.eraseQueue) = (s.surfaces x).map (·.eraseQueue)
  subSurfaces    : s'.subSurfaces = s.subSurfaces
  extensions     : s'.extensions = s.extensions
  nextSurface    : s'.nextSurface = s.nextSurface
  nextSubSurface : s'.nextSubSurface = s.nextSubSurface
  nextExtension  : s'.nextExtension = s.nextExtension
  nextSerial     : s'.nextSerial = s.nextSerial

-- A state together with the queues of its surfaces.
structure Config where
  state : State
  queue : SurfaceId → List TransactionId

-- What `apply()` does step by step, in all nested calls.
inductive Step (env : Environment) : Config → Config → Prop
  | applyStates : s.isReady t = .ok true → s.applyStates env t = .ok s' → Step env ⟨s, queue⟩ ⟨s', queue⟩
  | unlink {entry : TransactionEntry} : t ∈ s.applying → s.entry t i = .ok entry →
      queue entry.surface = t :: rest → s.unlink t entry = .ok s' →
      Step env ⟨s, queue⟩ ⟨s', Function.update queue entry.surface rest⟩
  | delete : t ∈ s.applying → (∀ x, t ∉ queue x) → Step env ⟨s, queue⟩ ⟨s.delete t, queue⟩

abbrev Steps (env : Environment) : Config → Config → Prop :=
  Relation.ReflTransGen (Step env)

-- What nothing does to the transactions in `outer` but their own `apply()`.
structure Frame (outer : List TransactionId) (c c' : Config) : Prop where
  transactions : ∀ u ∈ outer, c'.state.transactions u = c.state.transactions u
  queue        : ∀ u ∈ outer, ∀ x, u ∈ c'.queue x ↔ u ∈ c.queue x

variable {env : Environment} {s s' s'' : State} {queue queue' : SurfaceId → List TransactionId}
variable {t a : TransactionId} {x : SurfaceId} {entry : TransactionEntry} {links r : Multiset Link}
variable {f : Surface → Surface} {i n : Nat} {c c' : Config} {v v' : QueueView} {rest : List TransactionId} {l : Link}

theorem queueView_links {transaction : Transaction} (h : s.transactions t = some transaction) :
    s.queueView.links t = some ↑(transaction.entries.map (·.link)) := by
  simp [State.queueView, h]

theorem State.SameBut.queueView_eq (h : SameBut f s s') (hf : ∀ a, (f a).ends = a.ends) :
    s'.queueView = s.queueView := by
  have hs : ∀ x, (s'.surfaces x).map (·.ends) = (s.surfaces x).map (·.ends) := fun x => h.map_eq hf
  have hr := h.rest
  rw [State.queueView, State.queueView]
  simp only [hs]
  rw [hr]

theorem applyStates_queueView (h : s.applyStates env t = .ok s') :
    s'.queueView = { s.queueView with applying := t :: s.applying } := by
  have ⟨transaction, s₁, ht, hn, h₁, h₂⟩ := applyStates_cases h
  have hs := (applyEntries_same h₁).queueView_eq fun _ => rfl
  have hl : ((env.sort s transaction.entries).map s₁.mergedEntry).map (·.link) =
      (env.sort s transaction.entries).map (·.link) := by
    rw [List.map_map]
    refine List.map_congr_left fun entry _ => ?_
    simp only [Function.comp_apply, mergedEntry]
    split <;> rfl
  have hp : (↑((env.sort s transaction.entries).map (·.link)) : Multiset Link) =
      ↑(transaction.entries.map (·.link)) :=
    Multiset.coe_eq_coe.mpr <| (env.sort_perm s transaction.entries).map _
  have hv : s'.queueView = { s₁.queueView with
      links := Function.update s₁.queueView.links t (some ↑(transaction.entries.map (·.link))) } := by
    rw [h₂, State.queueView, State.queueView]
    congr 1
    ext1 t'
    by_cases htt : t' = t
    case pos => simp [htt, State.setEntries, hl, hp]
    case neg => simp [State.setEntries, htt]
  rw [hv, hs]
  have : Function.update s.queueView.links t (some ↑(transaction.entries.map (·.link))) = s.queueView.links := by
    rw [← queueView_links ht, Function.update_eq_self]
  simp only [State.queueView] at this ⊢
  rw [this]

theorem dequeue_queueView : (s.dequeue t entry).queueView = s.queueView.pop t entry.link := by
  simp only [State.dequeue, State.modifySurface, State.queueView, QueueView.pop, TransactionEntry.link]
  congr 1
  ext1 y
  by_cases hy : y = entry.surface
  case neg => simp [hy]
  case pos =>
    subst hy
    cases s.surfaces entry.surface <;> simp
    split <;> simp_all [Surface.ends]

theorem setEntries_queueView {entries : List TransactionEntry} :
    (s.setEntries t entries).queueView = s.queueView.setLinks t ↑(entries.map (·.link)) := by
  simp only [State.setEntries, State.queueView, QueueView.setLinks]
  congr 1
  ext1 t'
  by_cases ht : t' = t <;> simp [ht]

theorem clearPrevious_links {entries : List TransactionEntry} (h : ∃ e ∈ entries, e.previousTransaction = some t) :
    ∃ l r, (↑(entries.map (·.link)) : Multiset Link) = l ::ₘ r ∧ l.previous = some t ∧
      (↑((clearPrevious t entries).map (·.link)) : Multiset Link) = { l with previous := none } ::ₘ r := by
  induction entries
  case nil => simp at h
  case cons e entries ih =>
    rw [clearPrevious]
    split
    case isTrue hp => exact ⟨e.link, ↑(entries.map (·.link)), by simp, hp, by simp [TransactionEntry.link]⟩
    case isFalse hp =>
      have ⟨l, r, h₁, h₂, h₃⟩ := ih (by simpa [hp] using h)
      refine ⟨l, e.link ::ₘ r, ?_, h₂, ?_⟩
      · rw [List.map_cons, ← Multiset.cons_coe, h₁, Multiset.cons_swap]
      · rw [List.map_cons, ← Multiset.cons_coe, h₃, Multiset.cons_swap]

theorem unlink_cases (h : s.unlink t entry = .ok s') :
    (entry.nextTransaction = none ∧ s' = s.dequeue t entry) ∨
    (∃ next transaction, entry.nextTransaction = some next ∧ s.transactions next = some transaction ∧
      s' = (s.dequeue t entry).setEntries next (clearPrevious t transaction.entries)) := by
  unfold unlink at h
  simp only at h
  split at h
  case h_1 hn => exact .inl ⟨hn, (pure_eq_ok.mp h).symm⟩
  case h_2 next hn =>
    simp only [bind_eq_ok, transaction_eq_ok] at h
    obtain ⟨transaction, ht, h⟩ := h
    exact .inr ⟨next, transaction, hn, ht, (pure_eq_ok.mp h).symm⟩

namespace Static

theorem refl : Static s s :=
  ⟨fun _ => rfl, rfl, rfl, rfl, rfl, rfl, rfl⟩

theorem trans (h₁ : Static s s') (h₂ : Static s' s'') : Static s s'' where
  surfaces x     := (h₂.surfaces x).trans (h₁.surfaces x)
  subSurfaces    := h₂.subSurfaces.trans h₁.subSurfaces
  extensions     := h₂.extensions.trans h₁.extensions
  nextSurface    := h₂.nextSurface.trans h₁.nextSurface
  nextSubSurface := h₂.nextSubSurface.trans h₁.nextSubSurface
  nextExtension  := h₂.nextExtension.trans h₁.nextExtension
  nextSerial     := h₂.nextSerial.trans h₁.nextSerial

theorem of_same (h : SameBut f s s') (hf : ∀ a, (f a).eraseQueue = a.eraseQueue) : Static s s' where
  surfaces x     := h.map_eq hf
  subSurfaces    := by rw [h.rest]
  extensions     := by rw [h.rest]
  nextSurface    := by rw [h.rest]
  nextSubSurface := by rw [h.rest]
  nextExtension  := by rw [h.rest]
  nextSerial     := by rw [h.rest]

theorem modifySurface (hf : ∀ a, (f a).eraseQueue = a.eraseQueue) : Static s (s.modifySurface x f) :=
  of_same (.modifySurface hf) fun _ => rfl

theorem map_eq {α : Type} {g : Surface → α} (h : Static s s') (hg : ∀ a, g a.eraseQueue = g a) :
    (s'.surfaces x).map g = (s.surfaces x).map g := by
  have hm : ∀ o : Option Surface, (o.map (·.eraseQueue)).map g = o.map g := fun o => by
    cases o <;> simp [hg]
  rw [← hm, h.surfaces, hm]

theorem isSome_eq (h : Static s s') : (s'.surfaces x).isSome = (s.surfaces x).isSome := by
  have := congrArg Option.isSome (h.surfaces x)
  simpa using this

theorem eq_none (h : Static s s') (hx : s.surfaces x = none) : s'.surfaces x = none := by
  have := h.isSome_eq (x := x)
  simpa [hx] using this

end Static


namespace Linked

theorem filter_surfaces : (links.filter (a ∈ queue ·.surface)).map (·.surface) =
    (links.map (·.surface)).filter (a ∈ queue ·) := by
  rw [Multiset.filter_map]
  rfl

-- The head of a queue is taken away.
theorem pop (h : Linked v queue a links) (ht : t ∈ v.applying) (hx : queue x = t :: rest)
    (ends : ∀ y, v.ends y = none → v'.ends y = none) (applying : v'.applying = v.applying) :
    Linked v' (Function.update queue x rest) a links where
  nodup hp := by
    refine Multiset.nodup_of_le (Multiset.map_le_map ?_) (h.nodup hp)
    refine Multiset.monotone_filter_right _ fun l hl => ?_
    by_cases hy : l.surface = x
    case pos => rw [hy, Function.update_self] at hl; rw [hy, hx]; exact List.mem_cons_of_mem _ hl
    case neg => rwa [Function.update_of_ne hy] at hl
  unqueued ha l hl hm := by
    rw [applying] at ha
    have hat : a ≠ t := by rintro rfl; exact ha ht
    have ⟨h₁, h₂⟩ := h.unqueued ha l hl (by
      by_cases hy : l.surface = x
      case pos => rw [hy, Function.update_self] at hm; rw [hy, hx]; simp [hat, hm]
      case neg => rwa [Function.update_of_ne hy] at hm)
    exact ⟨ends _ h₁, h₂⟩

theorem clear_previous (h : Linked v queue a (l ::ₘ r)) (hl : l.previous ≠ some a) :
    Linked v queue a ({ l with previous := none } ::ₘ r) where
  nodup hp := by
    rw [filter_surfaces, Multiset.map_cons, ← Multiset.map_cons (fun l : Link => l.surface) l r, ← filter_surfaces]
    refine h.nodup fun l' hl' => ?_
    rcases Multiset.mem_cons.mp hl' with rfl | hl'
    · exact hl
    · exact hp l' (Multiset.mem_cons_of_mem hl')
  unqueued ha l' hl' hm := by
    rcases Multiset.mem_cons.mp hl' with rfl | hl'
    · exact h.unqueued ha l (Multiset.mem_cons_self _ _) hm
    · exact h.unqueued ha l' (Multiset.mem_cons_of_mem hl') hm

-- Another transaction is put into the queue of a surface that exists.
theorem enqueue {links' : Multiset Link} (h : Linked v queue a links) (hm : ∀ y, a ∈ queue' y ↔ a ∈ queue y)
    (hl : links' = links ∨ links' = links.map (Link.setNext x t)) (hx : v.ends x ≠ none)
    (ends : ∀ y, v.ends y = none → v'.ends y = none) (applying : v'.applying = v.applying) :
    Linked v' queue' a links' := by
  have surfaces : links'.map (·.surface) = links.map (·.surface) := by
    rcases hl with rfl | rfl <;> simp
  have old : ∀ l' ∈ links', ∃ l ∈ links, l'.surface = l.surface ∧ l'.previous = l.previous ∧
      (l.surface ≠ x → l'.next = l.next) := by
    intro l' hl'
    rcases hl with rfl | rfl
    · exact ⟨l', hl', rfl, rfl, fun _ => rfl⟩
    · obtain ⟨l, hl, rfl⟩ := Multiset.mem_map.mp hl'
      exact ⟨l, hl, by simp, by simp, fun hn => by simp [Link.setNext_next, hn]⟩
  constructor
  case nodup =>
    intro hp
    rw [filter_surfaces, surfaces, Multiset.filter_congr fun y _ => hm y, ← filter_surfaces]
    refine h.nodup fun l hll => ?_
    rcases hl with rfl | rfl
    · exact hp l hll
    · simpa using hp _ (Multiset.mem_map_of_mem _ hll)
  case unqueued =>
    intro ha l' hl' hn
    have ⟨l, hl, hs, _, hnext⟩ := old l' hl'
    have ⟨h₁, h₂⟩ := h.unqueued (applying ▸ ha) l hl (by rwa [← hm, ← hs])
    have hlx : l.surface ≠ x := by rintro rfl; exact hx h₁
    exact ⟨hs ▸ ends _ h₁, (hnext hlx).trans h₂⟩

-- The entries which put a transaction into queues have different surfaces.
theorem pairwise {entries : List TransactionEntry} (h : Linked v queue t ↑(entries.map (·.link)))
    (hp : ∀ entry ∈ entries, entry.previousTransaction ≠ some t) :
    entries.Pairwise fun e e' => t ∈ queue e.surface → t ∈ queue e'.surface → e.surface ≠ e'.surface := by
  have hn := h.nodup fun l hl => by
    obtain ⟨entry, he, rfl⟩ := List.mem_map.mp (Multiset.mem_coe.mp hl)
    exact hp entry he
  rw [Multiset.filter_coe, Multiset.map_coe, Multiset.coe_nodup, List.Nodup, List.pairwise_map,
    List.pairwise_filter, List.pairwise_map] at hn
  exact hn.imp fun h hm hm' => h (decide_eq_true hm) (decide_eq_true hm')

end Linked

theorem pop_ends_none {y : SurfaceId} (h : v.ends y = none) : (v.pop t l).ends y = none := by
  by_cases hy : y = l.surface
  case pos => subst hy; simp [QueueView.pop, h]
  case neg => simpa [QueueView.pop, Function.update_of_ne hy] using h

namespace Consistent

theorem applyStates (hc : Consistent s queue) (hr : s.isReady t = .ok true)
    (h : s.applyStates env t = .ok s') : Consistent s' queue := by
  have ⟨transaction, ht, hb⟩ := isReady_cases hr
  have ⟨_, _, _, hn, _⟩ := applyStates_cases h
  have hv := applyStates_queueView h
  have hp : ∀ l ∈ (↑(transaction.entries.map (·.link)) : Multiset Link), l.previous = none := by
    intro l hl
    obtain ⟨entry, he, rfl⟩ := List.mem_map.mp (Multiset.mem_coe.mp hl)
    exact not_blocks_cases (hb entry he)
  constructor
  case queues =>
    rw [hv]
    exact hc.queues.begin (queueView_links ht) hp hn
  case linked =>
    rw [hv]
    intro a links ha
    have hl := hc.linked a links ha
    exact ⟨hl.nodup, fun hn => hl.unqueued fun hm => hn (List.mem_cons_of_mem _ hm)⟩

-- The entry of a transaction which is being applied is unlinked.
theorem unlink (hc : Consistent s queue) (ht : t ∈ s.applying) (he : s.entry t i = .ok entry)
    (hx : queue entry.surface = t :: rest) (h : s.unlink t entry = .ok s') :
    Consistent s' (Function.update queue entry.surface rest) := by
  have q := hc.queues
  obtain ⟨transaction, htr, he⟩ := entry_eq_ok.mp he
  have hlinks := queueView_links htr
  have hmem : entry.link ∈ (↑(transaction.entries.map (·.link)) : Multiset Link) :=
    Multiset.mem_coe.mpr <| List.mem_map_of_mem (List.mem_of_getElem? he)
  have hnext : entry.nextTransaction = rest.head? := q.next_eq ht hlinks hmem hx
  rcases unlink_cases h with ⟨hn, rfl⟩ | ⟨next, transaction', hn, htr', rfl⟩
  case inl =>
    have hr : rest = [] := by simpa [hn, eq_comm] using hnext
    constructor
    case queues =>
      rw [dequeue_queueView]
      exact q.pop hx ht rfl hn hr
    case linked =>
      rw [dequeue_queueView]
      exact fun a links ha => (hc.linked a links ha).pop ht hx (fun _ => pop_ends_none) rfl
  case inr =>
    have hr : rest.head? = some next := hnext.symm.trans hn
    have ⟨ln, r₀, hln, hlp⟩ := q.exists_waiting hx hr
    have hw : ∃ e ∈ transaction'.entries, e.previousTransaction = some t := by
      have hm : ln ∈ (↑(transaction'.entries.map (·.link)) : Multiset Link) := by
        rw [Option.some.inj ((queueView_links htr').symm.trans hln)]
        exact Multiset.mem_cons_self _ _
      obtain ⟨e, he, rfl⟩ := List.mem_map.mp (Multiset.mem_coe.mp hm)
      exact ⟨e, he, hlp⟩
    have ⟨l, r, h₁, h₂, h₃⟩ := clearPrevious_links hw
    have hl : s.queueView.links next = some (l ::ₘ r) := by rw [queueView_links htr', h₁]
    have hne : next ≠ t := by
      have hnd := q.nodup (x := entry.surface)
      rw [hx] at hnd
      rintro rfl
      exact (List.nodup_cons.mp hnd).1 (List.mem_of_mem_head? hr)
    constructor
    case queues =>
      rw [setEntries_queueView, dequeue_queueView, h₃]
      exact q.pop_setLinks hx ht rfl hn hr hl h₂
    case linked =>
      rw [setEntries_queueView, dequeue_queueView, h₃]
      intro a links ha
      have hp : ∀ {a links}, s.queueView.links a = some links →
          Linked ((s.queueView.pop t entry.link).setLinks next ({ l with previous := none } ::ₘ r))
            (Function.update queue entry.surface rest) a links :=
        fun {a links} ha => (hc.linked a links ha).pop ht hx (fun _ => pop_ends_none) rfl
      by_cases han : a = next
      case neg => exact hp (by simpa [QueueView.setLinks, QueueView.pop, Function.update_of_ne han] using ha)
      case pos =>
        subst han
        obtain rfl : { l with previous := none } ::ₘ r = links := by simpa [QueueView.setLinks] using ha
        exact (hp hl).clear_previous (by rw [h₂]; simpa using hne.symm)

theorem delete (hc : Consistent s queue) (hq : ∀ x, t ∉ queue x) : Consistent (s.delete t) queue := by
  have hv : (s.delete t).queueView = { s.queueView with
      links := Function.update s.queueView.links t none, applying := s.queueView.applying.erase t } := by
    simp only [State.delete, State.queueView]
    congr 1
    ext1 a
    by_cases ha : a = t <;> simp [ha]
  constructor
  case queues =>
    rw [hv]
    exact hc.queues.delete hq
  case linked =>
    rw [hv]
    intro a links ha
    have hat : a ≠ t := by rintro rfl; simp at ha
    have hl := hc.linked a links (by simpa [Function.update_of_ne hat] using ha)
    exact ⟨hl.nodup, fun hn => hl.unqueued fun hm => hn ((List.mem_erase_of_ne hat).mpr hm)⟩

theorem step (hc : Consistent c.state c.queue) (h : Step env c c') : Consistent c'.state c'.queue := by
  cases h
  case applyStates hr h => exact hc.applyStates hr h
  case unlink ht he hx h => exact hc.unlink ht he hx h
  case delete ht hq => exact hc.delete hq

theorem steps (hc : Consistent c.state c.queue) (h : Steps env c c') : Consistent c'.state c'.queue := by
  induction h
  case refl => exact hc
  case tail hs ih => exact ih.step hs

end Consistent

namespace Frame

variable {outer : List TransactionId} {c₁ c₂ c₃ : Config}

theorem refl : Frame outer c c :=
  ⟨fun _ _ => rfl, fun _ _ _ => Iff.rfl⟩

theorem trans (h₁ : Frame outer c₁ c₂) (h₂ : Frame outer c₂ c₃) : Frame outer c₁ c₃ where
  transactions u hu := (h₂.transactions u hu).trans (h₁.transactions u hu)
  queue u hu x      := (h₂.queue u hu x).trans (h₁.queue u hu x)

theorem mono {inner : List TransactionId} (h : Frame inner c c') (hs : outer ⊆ inner) : Frame outer c c' where
  transactions u hu := h.transactions u (hs hu)
  queue u hu        := h.queue u (hs hu)

theorem applyStates (h : s.applyStates env t = .ok s') (ht : t ∉ outer) :
    Frame outer ⟨s, queue⟩ ⟨s', queue⟩ where
  transactions u hu := by
    have ⟨transaction, s₁, _, _, h₁, h₂⟩ := applyStates_cases h
    have hut : u ≠ t := by rintro rfl; exact ht hu
    have hs := (applyEntries_same h₁).rest
    subst h₂
    rw [State.setEntries]
    simp only [Function.update_of_ne hut]
    rw [hs]
  queue _ _ _ := Iff.rfl

theorem unlink (hc : Consistent s queue) (hx : queue entry.surface = t :: rest)
    (he : s.entry t i = .ok entry) (ht : t ∈ s.applying) (h : s.unlink t entry = .ok s')
    (ho : outer ⊆ s.applying) (hn : t ∉ outer) :
    Frame outer ⟨s, queue⟩ ⟨s', Function.update queue entry.surface rest⟩ where
  transactions u hu := by
    rcases unlink_cases h with ⟨_, rfl⟩ | ⟨next, transaction, hnext, htr, rfl⟩
    case inl => rfl
    case inr =>
      have hun : u ≠ next := by
        rintro rfl
        obtain ⟨transaction', htr', he⟩ := entry_eq_ok.mp he
        have hr := hc.queues.next_eq ht (queueView_links htr') (l := entry.link)
          (Multiset.mem_coe.mpr <| List.mem_map_of_mem (List.mem_of_getElem? he)) hx
        have hnd := hc.queues.nodup (x := entry.surface)
        have hh := hc.queues.applying_head (ho hu) (x := entry.surface)
        have hm : u ∈ rest := List.mem_of_mem_head? (hr.symm.trans hnext)
        rw [hx] at hnd hh
        obtain rfl : t = u := by simpa using hh (List.mem_cons_of_mem _ hm)
        exact (List.nodup_cons.mp hnd).1 hm
      simp [State.setEntries, Function.update_of_ne hun, State.dequeue, State.modifySurface]
  queue u hu y := by
    have hut : u ≠ t := by rintro rfl; exact hn hu
    by_cases hy : y = entry.surface
    case pos => subst hy; simp [hx, hut]
    case neg => simp [Function.update_of_ne hy]

theorem delete (ht : t ∉ outer) : Frame outer ⟨s, queue⟩ ⟨s.delete t, queue⟩ where
  transactions u hu := by
    have hut : u ≠ t := by rintro rfl; exact ht hu
    simp [State.delete, Function.update_of_ne hut]
  queue _ _ _ := Iff.rfl

end Frame

theorem Static.applyStates (h : s.applyStates env t = .ok s') : Static s s' := by
  have ⟨transaction, s₁, _, _, h₁, h₂⟩ := applyStates_cases h
  subst h₂
  have hs := Static.of_same (applyEntries_same h₁) fun _ => rfl
  exact ⟨hs.surfaces, hs.subSurfaces, hs.extensions, hs.nextSurface, hs.nextSubSurface, hs.nextExtension,
    hs.nextSerial⟩

theorem Step.static (h : Step env c c') : Static c.state c'.state := by
  cases h
  case applyStates h => exact .applyStates h
  case unlink t queue rest s s' i entry _ _ _ h =>
    have hd : Static s (s.dequeue t entry) := .modifySurface fun surface => by split <;> rfl
    rcases unlink_cases h with ⟨_, rfl⟩ | ⟨_, _, _, _, rfl⟩
    · exact hd
    · exact ⟨hd.surfaces, rfl, rfl, rfl, rfl, rfl, rfl⟩
  case delete => exact ⟨fun _ => rfl, rfl, rfl, rfl, rfl, rfl, rfl⟩

theorem Steps.static (h : Steps env c c') : Static c.state c'.state := by
  induction h
  case refl => exact .refl
  case tail hs ih => exact ih.trans hs.static

-- A call of `tryApply` is made up of steps and comes back to the outer calls of `apply()`.
structure Nested (env : Environment) (c c' : Config) : Prop where
  steps    : Steps env c c'
  applying : c'.state.applying = c.state.applying
  frame    : Frame c.state.applying c c'

namespace Nested

theorem refl : Nested env c c :=
  ⟨.refl, rfl, .refl⟩

theorem trans {c'' : Config} (h₁ : Nested env c c') (h₂ : Nested env c' c'') : Nested env c c'' where
  steps    := h₁.steps.trans h₂.steps
  applying := h₂.applying.trans h₁.applying
  frame    := h₁.frame.trans (h₁.applying ▸ h₂.frame)

end Nested

-- What `apply` needs to know about the recursive call.
def Retries (env : Environment) (retry : State → TransactionId → Except Fault State) : Prop :=
  ∀ {s queue t s'}, Consistent s queue → retry s t = .ok s' → ∃ queue', Nested env ⟨s, queue⟩ ⟨s', queue'⟩

theorem retryChild_cases {retry : State → TransactionId → Except Fault State} {e : SubSurfaceId}
    (h : retryChild retry s e = .ok s') : ∃ sub child, s.subSurfaces e = some sub ∧
      s.surfaces sub.surface = some child ∧ s.retryNext retry child.firstTransaction = .ok s' := by
  simp only [retryChild, bind_eq_ok, subSurface_eq_ok, surface_eq_ok] at h
  obtain ⟨sub, hsub, child, hchild, h⟩ := h
  refine ⟨sub, child, hsub, hchild, ?_⟩
  cases hf : child.firstTransaction <;> simpa [hf, retryNext] using h

section

variable {retry : State → TransactionId → Except Fault State} (hretry : Retries env retry)
include hretry

theorem retryNext_nested {next : Option TransactionId} (hc : Consistent s queue)
    (h : s.retryNext retry next = .ok s') : ∃ queue', Nested env ⟨s, queue⟩ ⟨s', queue'⟩ := by
  cases next
  case none => exact ⟨queue, pure_eq_ok.mp h ▸ .refl⟩
  case some next => exact hretry hc h

theorem retryChildList_nested {l : List SubSurfaceId} (hc : Consistent s queue)
    (h : l.foldlM (retryChild retry) s = .ok s') : ∃ queue', Nested env ⟨s, queue⟩ ⟨s', queue'⟩ := by
  refine foldlM_preserves (fun s' => ∃ queue', Nested env ⟨s, queue⟩ ⟨s', queue'⟩)
    (fun e _ s₁ s₂ ⟨queue₁, h₁⟩ h₂ => ?_) ⟨queue, .refl⟩ h
  have ⟨sub, child, _, _, h₂⟩ := retryChild_cases h₂
  have ⟨queue₂, h₂⟩ := retryNext_nested hretry (hc.steps h₁.steps) h₂
  exact ⟨queue₂, h₁.trans h₂⟩

theorem retryChildren_nested (hc : Consistent s queue) (h : s.retryChildren retry x = .ok s') :
    ∃ queue', Nested env ⟨s, queue⟩ ⟨s', queue'⟩ := by
  unfold retryChildren at h
  split at h
  case h_1 => exact ⟨queue, pure_eq_ok.mp h ▸ .refl⟩
  case h_2 surface _ =>
    split at h
    case isTrue => exact ⟨queue, pure_eq_ok.mp h ▸ .refl⟩
    case isFalse =>
      simp only [bind_eq_ok] at h
      obtain ⟨s₁, h₁, surface₁, _, h₂⟩ := h
      have ⟨queue₁, h₁⟩ := retryChildList_nested hretry hc h₁
      have ⟨queue₂, h₂⟩ := retryChildList_nested hretry (hc.steps h₁.steps) h₂
      exact ⟨queue₂, h₁.trans h₂⟩

end

-- Before its i-th entry, `apply` has taken the earlier entries out of their queues, and no others.
structure AtEntry (t : TransactionId) (transaction : Transaction) (i : Nat) (c : Config) : Prop where
  consistent : Consistent c.state c.queue
  applying   : t ∈ c.state.applying
  found      : c.state.transactions t = some transaction
  left       : ∀ j < i, ∀ entry, transaction.entries[j]? = some entry → t ∉ c.queue entry.surface
  queued     : ∀ j ≥ i, ∀ entry, transaction.entries[j]? = some entry →
                 t ∈ c.queue entry.surface ∨
                   (c.state.surfaces entry.surface = none ∧ entry.nextTransaction = none)

namespace AtEntry

variable {transaction : Transaction}

theorem pairwise (h : AtEntry t transaction i c) : transaction.entries.Pairwise fun e e' =>
    t ∈ c.queue e.surface → t ∈ c.queue e'.surface → e.surface ≠ e'.surface := by
  have hl := queueView_links h.found
  refine (h.consistent.linked t _ hl).pairwise fun entry he => ?_
  have ⟨_, hl', hp⟩ := h.consistent.queues.ready t h.applying
  obtain rfl := Option.some.inj (hl.symm.trans hl')
  simp [show entry.previousTransaction = none from
    hp entry.link (Multiset.mem_coe.mpr (List.mem_map_of_mem he))]

theorem nested (h : AtEntry t transaction i c) (hn : Nested env c c') : AtEntry t transaction i c' where
  consistent := h.consistent.steps hn.steps
  applying   := hn.applying ▸ h.applying
  found      := (hn.frame.transactions t h.applying).trans h.found
  left j hj entry he hm := h.left j hj entry he ((hn.frame.queue t h.applying _).mp hm)
  queued j hj entry he := (h.queued j hj entry he).imp (hn.frame.queue t h.applying _).mpr
    fun ⟨hd, hx⟩ => ⟨hn.steps.static.eq_none hd, hx⟩

theorem unlink (env : Environment) (h : AtEntry t transaction i ⟨s, queue⟩) (he : transaction.entries[i]? = some entry)
    (hu : s.unlink t entry = .ok s') : ∃ queue', AtEntry t transaction (i + 1) ⟨s', queue'⟩ ∧
      Steps env ⟨s, queue⟩ ⟨s', queue'⟩ ∧ s'.applying = s.applying ∧
      ∀ outer ⊆ s.applying, t ∉ outer → Frame outer ⟨s, queue⟩ ⟨s', queue'⟩ := by
  have hc : Consistent s queue := h.consistent
  have happ : s'.applying = s.applying := by
    rcases unlink_cases hu with ⟨_, rfl⟩ | ⟨_, _, _, _, rfl⟩ <;> rfl
  by_cases hm : t ∈ queue entry.surface
  case pos =>
    have hh : (queue entry.surface).head? = some t := hc.queues.applying_head h.applying hm
    obtain ⟨rest, hx⟩ : ∃ rest, queue entry.surface = t :: rest := by
      cases hq : queue entry.surface <;> simp_all
    have hent : s.entry t i = .ok entry := entry_eq_ok.mpr ⟨transaction, h.found, he⟩
    have hstep : Step env ⟨s, queue⟩ ⟨s', Function.update queue entry.surface rest⟩ :=
      .unlink h.applying hent hx hu
    have hnd := hc.queues.nodup (x := entry.surface)
    rw [hx] at hnd
    have htr := (List.nodup_cons.mp hnd).1
    have hnext := hc.queues.next_eq h.applying (queueView_links h.found) (l := entry.link)
      (Multiset.mem_coe.mpr <| List.mem_map_of_mem (List.mem_of_getElem? he)) hx
    refine ⟨_, ⟨hc.step hstep, happ ▸ h.applying, ?_, ?_, ?_⟩, .single hstep, happ,
      fun outer ho hn => .unlink hc hx hent h.applying hu ho hn⟩
    case refine_1 =>
      rcases unlink_cases hu with ⟨_, rfl⟩ | ⟨next, _, hn, _, rfl⟩
      · exact h.found
      · have hne : t ≠ next := by
          rintro rfl
          exact htr (List.mem_of_mem_head? (hnext.symm.trans hn))
        simpa [State.setEntries, Function.update_of_ne hne, State.dequeue, State.modifySurface] using h.found
    case refine_2 =>
      intro j hj entry' he' (hm' : t ∈ Function.update queue entry.surface rest entry'.surface)
      by_cases hs : entry'.surface = entry.surface
      case pos => rw [hs, Function.update_self] at hm'; exact htr hm'
      case neg =>
        rw [Function.update_of_ne hs] at hm'
        rcases Nat.lt_succ_iff_lt_or_eq.mp hj with hj | rfl
        · exact h.left j hj entry' he' hm'
        · exact hs (by rw [Option.some.inj (he.symm.trans he')])
    case refine_3 =>
      intro j hj entry' he'
      refine (h.queued j (by omega) entry' he').imp (fun hm' => ?_) (.imp_left hstep.static.eq_none)
      have hs : entry.surface ≠ entry'.surface := by
        have hp := List.pairwise_iff_getElem.mp h.pairwise
        obtain ⟨hi, he⟩ := List.getElem?_eq_some_iff.mp he
        obtain ⟨hj', he'⟩ := List.getElem?_eq_some_iff.mp he'
        simpa [he, he', hm, show t ∈ queue entry'.surface from hm'] using hp i j hi hj' (by omega)
      show t ∈ Function.update queue entry.surface rest entry'.surface
      rwa [Function.update_of_ne hs.symm]
  case neg =>
    obtain ⟨hdead, hnone⟩ := (h.queued i le_rfl entry he).resolve_left hm
    have hd : s.dequeue t entry = s := modifySurface_of_none hdead
    have hs : s' = s := by
      rcases unlink_cases hu with ⟨_, rfl⟩ | ⟨next, _, hn, _, _⟩
      · exact hd
      · simp [hnone] at hn
    subst hs
    refine ⟨queue, { h with left := fun j hj entry' he' hm' => ?_, queued := fun j hj => h.queued j (by omega) },
      .refl, rfl, fun _ _ _ => .refl⟩
    rcases Nat.lt_succ_iff_lt_or_eq.mp hj with hj | rfl
    · exact h.left j hj entry' he' hm'
    · exact hm (Option.some.inj (he.symm.trans he') ▸ hm')

end AtEntry

section

variable {retry : State → TransactionId → Except Fault State} (hretry : Retries env retry)
include hretry

theorem applyNext_steps {transaction : Transaction} (h : AtEntry t transaction i ⟨s, queue⟩)
    (hi : i < transaction.entries.length) (ha : applyNext retry t s i = .ok s') :
    ∃ queue', AtEntry t transaction (i + 1) ⟨s', queue'⟩ ∧ Steps env ⟨s, queue⟩ ⟨s', queue'⟩ ∧
      s'.applying = s.applying ∧ ∀ outer ⊆ s.applying, t ∉ outer → Frame outer ⟨s, queue⟩ ⟨s', queue'⟩ := by
  simp only [applyNext, bind_eq_ok] at ha
  obtain ⟨entry, he, s₁, h₁, s₂, h₂, h₃⟩ := ha
  obtain ⟨_, htr, he⟩ := entry_eq_ok.mp he
  obtain rfl := Option.some.inj (htr.symm.trans h.found)
  have ⟨queue₁, h₁, hs, happ, hf⟩ := h.unlink env he h₁
  have ⟨queue₂, h₂⟩ := retryNext_nested hretry h₁.consistent h₂
  have ⟨queue₃, h₃⟩ := retryChildren_nested hretry (h₁.nested h₂).consistent h₃
  have hn := h₂.trans h₃
  exact ⟨queue₃, h₁.nested hn, hs.trans hn.steps, hn.applying.trans happ,
    fun outer ho ht => (hf outer ho ht).trans (hn.frame.mono (happ ▸ ho))⟩

theorem apply_nested (hc : Consistent s queue) (hr : s.isReady t = .ok true)
    (h : s.apply env retry t = .ok s') : ∃ queue', Nested env ⟨s, queue⟩ ⟨s', queue'⟩ := by
  simp only [apply, bind_eq_ok, transaction_eq_ok] at h
  obtain ⟨s₁, h₁, transaction, htr, s₂, h₂, h⟩ := h
  obtain rfl := pure_eq_ok.mp h
  have hstep : Step env ⟨s, queue⟩ ⟨s₁, queue⟩ := .applyStates hr h₁
  have ⟨transaction₀, _, htr₀, hn, _⟩ := applyStates_cases h₁
  have happ : s₁.applying = t :: s.applying := congrArg (·.applying) (applyStates_queueView h₁)
  have hstart : AtEntry t transaction 0 ⟨s₁, queue⟩ := by
    refine ⟨hc.applyStates hr h₁, by simp [happ], htr, by simp, fun j _ entry he => ?_⟩
    by_cases hm : t ∈ queue entry.surface
    case pos => exact .inl hm
    case neg =>
      have hlink : s.queueView.links t = some ↑(transaction.entries.map (·.link)) := by
        rw [← queueView_links htr, congrArg (·.links) (applyStates_queueView h₁)]
      have ⟨hd, hx⟩ := (hc.linked t _ hlink).unqueued hn entry.link
        (Multiset.mem_coe.mpr <| List.mem_map_of_mem (List.mem_of_getElem? he)) hm
      exact .inr ⟨hstep.static.eq_none (by simpa [State.queueView, TransactionEntry.link] using hd), hx⟩
  have ⟨queue₂, hend, hs, happ₂, hf⟩ := foldlM_range_induct
    (fun i s₂ => ∃ queue₂, AtEntry t transaction i ⟨s₂, queue₂⟩ ∧ Steps env ⟨s₁, queue⟩ ⟨s₂, queue₂⟩ ∧
      s₂.applying = s₁.applying ∧ Frame s.applying ⟨s₁, queue⟩ ⟨s₂, queue₂⟩)
    (fun i hi s₂ s₃ ⟨queue₂, h₂, hs, happ₂, hf⟩ h₃ => by
      have ⟨queue₃, h₃, hs', happ₃, hf'⟩ := applyNext_steps hretry h₂ hi h₃
      exact ⟨queue₃, h₃, hs.trans hs', happ₃.trans happ₂,
        hf.trans (hf' _ (by simp [happ₂, happ]) hn)⟩)
    ⟨queue, hstart, .refl, rfl, .refl⟩ h₂
  have hq : ∀ x, t ∉ queue₂ x := by
    intro x hm
    have ⟨links, hl, l, hlm, hx⟩ := hend.consistent.queues.queued x t hm
    obtain rfl := Option.some.inj (hl.symm.trans (queueView_links hend.found))
    obtain ⟨entry, he, rfl⟩ := List.mem_map.mp (Multiset.mem_coe.mp hlm)
    have ⟨j, hj, he⟩ := List.getElem_of_mem he
    subst hx
    exact hend.left j hj entry (List.getElem?_eq_some_iff.mpr ⟨hj, he⟩) hm
  exact ⟨queue₂, (hs.head hstep).tail (.delete hend.applying hq), by simp [State.delete, happ₂, happ],
    ((Frame.applyStates h₁ hn).trans hf).trans (.delete hn)⟩

end

theorem tryApplyFrom_nested : Retries env (tryApplyFrom env n) := by
  induction n
  case zero => intro s queue t s' _ h; contradiction
  case succ n ih =>
    intro s queue t s' hc h
    simp only [tryApplyFrom, bind_eq_ok] at h
    obtain ⟨ready, hr, h⟩ := h
    split at h
    case isTrue ht => exact apply_nested ih hc (ht ▸ hr) h
    case isFalse => exact ⟨queue, pure_eq_ok.mp h ▸ .refl⟩

theorem tryApply_nested (hc : Consistent s queue) (h : s.tryApply env t = .ok s') :
    ∃ queue', Nested env ⟨s, queue⟩ ⟨s', queue'⟩ :=
  tryApplyFrom_nested hc h

end KWin
