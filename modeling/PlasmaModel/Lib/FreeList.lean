import Mathlib.Data.List.Nodup

-- Lists that are linked through the cells of an array, each of which names the next one.
namespace FreeList

variable {ι : Type}

def Linked (next : ι → Option ι) : Option ι → List ι → Prop
  | head, [] => head = none
  | head, i :: rest => head = some i ∧ Linked next (next i) rest

variable {next next' : ι → Option ι} {head : Option ι} {i : ι} {cells : List ι}

theorem Linked.congr (h : Linked next head cells) (hn : ∀ i ∈ cells, next' i = next i) : Linked next' head cells := by
  induction cells generalizing head
  case nil => exact h
  case cons i rest ih =>
    refine ⟨h.1, ?_⟩
    rw [hn i List.mem_cons_self]
    exact ih h.2 fun j hj => hn j (List.mem_cons_of_mem _ hj)

theorem Linked.push (h : Linked next head cells) (hi : i ∉ cells) (hn : next' i = head)
    (he : ∀ j, j ≠ i → next' j = next j) : Linked next' (some i) (i :: cells) := by
  refine ⟨rfl, ?_⟩
  rw [hn]
  exact h.congr fun j hj => he j fun heq => hi (heq ▸ hj)

theorem Linked.pop (h : Linked next (some i) cells) : ∃ rest, cells = i :: rest ∧ Linked next (next i) rest := by
  cases cells with
  | nil => cases h
  | cons j rest =>
    cases h.1
    exact ⟨rest, rfl, h.2⟩

end FreeList
