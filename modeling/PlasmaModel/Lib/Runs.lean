import Mathlib.Data.List.Basic
import Mathlib.Data.List.Flatten
import Mathlib.Data.List.Nodup

-- Runs of a machine that answers every event with its next state, or with nothing if it cannot take the event.
namespace Machine

variable {State Event : Type} (step : State → Event → Option State) (Allowed : State → Event → Prop)

-- The states at the end of the runs from `s` all of whose events are allowed where they occur.
inductive Reaches (s : State) : State → Prop
  | refl : Reaches s s
  | tail {s₁ s₂ event} : Reaches s s₁ → Allowed s₁ event → step s₁ event = some s₂ → Reaches s s₂

def run [∀ s event, Decidable (Allowed s event)] (s : State) : List Event → Option State
  | [] => some s
  | event :: events =>
    if Allowed s event then
      (step s event).bind fun s => run s events
    else
      none

-- The run ends at an event that the machine cannot take.
def Always (P : State → Prop) (s : State) : List Event → Prop
  | [] => P s
  | event :: events => P s ∧ ∀ s', step s event = some s' → Always P s' events

def EachStep (Q : State → Event → Prop) (s : State) : List Event → Prop
  | [] => True
  | event :: events => ∀ s', step s event = some s' → Q s event ∧ EachStep Q s' events

variable {step Allowed} {s s₁ s₂ : State}

theorem Reaches.invariant {Inv : State → Prop} (h : Reaches step Allowed s s₁) (start : Inv s)
    (next : ∀ s₁ s₂ event, Inv s₁ → Allowed s₁ event → step s₁ event = some s₂ → Inv s₂) : Inv s₁ := by
  induction h
  case refl => exact start
  case tail _ ha hs ih => exact next _ _ _ ih ha hs

theorem Reaches.head {event : Event} (ha : Allowed s event) (hs : step s event = some s₁)
    (h : Reaches step Allowed s₁ s₂) : Reaches step Allowed s s₂ := by
  induction h
  case refl => exact Reaches.refl.tail ha hs
  case tail _ ha hs ih => exact ih.tail ha hs

theorem Reaches.of_run [∀ s event, Decidable (Allowed s event)] (events : List Event)
    (h : run step Allowed s events = some s₁) : Reaches step Allowed s s₁ := by
  induction events generalizing s
  case nil =>
    cases h
    exact .refl
  case cons event events ih =>
    rw [run] at h
    split at h
    case isTrue ha =>
      have ⟨s', hs, h⟩ := Option.bind_eq_some_iff.mp h
      exact (ih h).head ha hs
    case isFalse => cases h

theorem Always.start {P : State → Prop} {events : List Event} (h : Always step P s events) : P s := by
  cases events with
  | nil => exact h
  | cons => exact h.1

theorem Always.of_invariant {P Inv : State → Prop} (events : List Event) (hi : Inv s) (holds : ∀ {s}, Inv s → P s)
    (next : ∀ {s event s'}, Inv s → step s event = some s' → Inv s') : Always step P s events := by
  induction events generalizing s
  case nil => exact holds hi
  case cons event events ih => exact ⟨holds hi, fun s' hs => ih (next hi hs)⟩

theorem always_iff_eachStep {P Assumed : State → Prop} {Q : State → Event → Prop} {events : List Event}
    (ha : Always step Assumed s events) (hp : P s)
    (next : ∀ s event s', P s → Assumed s → step s event = some s' → (P s' ↔ Q s event)) :
    Always step P s events ↔ EachStep step Q s events := by
  induction events generalizing s
  case nil => exact iff_of_true hp trivial
  case cons event events ih =>
    rw [Always, and_iff_right hp, EachStep]
    refine forall₂_congr fun s' hs => ?_
    have hnext := next _ _ _ hp ha.1 hs
    have ha := ha.2 s' hs
    exact ⟨fun h => ⟨hnext.mp h.start, (ih ha h.start).mp h⟩, fun ⟨hq, h⟩ => (ih ha (hnext.mpr hq)).mpr h⟩

-- A run either keeps the invariant in every step, or a step of it spoils the state for good.
theorem run_keeps_or_spoils [∀ s event, Decidable (Allowed s event)] {Inv Spoiled : State → Prop}
    {Q : State → Event → Prop} (events : List Event) (hi : Inv s) (hr : run step Allowed s events = some s₁)
    (next : ∀ {s event s'}, Inv s → step s event = some s' → (Q s event → Inv s') ∧ (¬Q s event → Spoiled s'))
    (stays : ∀ {s event s'}, Spoiled s → step s event = some s' → Spoiled s') :
    EachStep step Q s events ∧ Inv s₁ ∨ ¬EachStep step Q s events ∧ Spoiled s₁ := by
  have hspoiled {s : State} (events : List Event) (h : Spoiled s) (hr : run step Allowed s events = some s₁) :
      Spoiled s₁ := by
    have := Reaches.of_run events hr
    exact this.invariant h fun _ _ _ h _ hs => stays h hs
  induction events generalizing s
  case nil =>
    cases hr
    exact .inl ⟨trivial, hi⟩
  case cons event events ih =>
    rw [run] at hr
    split at hr
    case isFalse => cases hr
    case isTrue =>
      have ⟨s', hs, hr⟩ := Option.bind_eq_some_iff.mp hr
      have heach : EachStep step Q s (event :: events) ↔ Q s event ∧ EachStep step Q s' events :=
        ⟨fun h => h s' hs, fun h s'' hs' => by cases hs.symm.trans hs'; exact h⟩
      rw [heach]
      have ⟨hkeep, hspoil⟩ := next hi hs
      by_cases hq : Q s event
      case pos =>
        cases ih (hkeep hq) hr with
        | inl h => exact .inl ⟨⟨hq, h.1⟩, h.2⟩
        | inr h => exact .inr ⟨fun hn => h.1 hn.2, h.2⟩
      case neg => exact .inr ⟨fun hn => hq hn.1, hspoiled events (hspoil hq) hr⟩

-- Here the invariant is needed to know what a step does, and it is kept by the steps that are as they should be.
theorem Always.iff_eachStep {P Inv : State → Prop} {Q : State → Event → Prop} {events : List Event} (hi : Inv s)
    (holds : ∀ {s}, Inv s → P s)
    (next : ∀ {s event s'}, Inv s → step s event = some s' → (P s' ↔ Q s event) ∧ (Q s event → Inv s')) :
    Always step P s events ↔ EachStep step Q s events := by
  induction events generalizing s
  case nil => exact iff_of_true (holds hi) trivial
  case cons event events ih =>
    rw [Always, and_iff_right (holds hi), EachStep]
    refine forall₂_congr fun s' hs => ?_
    have ⟨hq, hi⟩ := next hi hs
    constructor
    case mp =>
      intro h
      have hq := hq.mp h.start
      exact ⟨hq, (ih (hi hq)).mp h⟩
    case mpr => exact fun ⟨hq, h⟩ => (ih (hi hq)).mpr h

theorem eachStep_iff {Inv : State → Prop} {P Q : State → Event → Prop} {events : List Event} (hi : Inv s)
    (next : ∀ {s event s'}, Inv s → step s event = some s' → (P s event ↔ Q s event) ∧ (Q s event → Inv s')) :
    EachStep step P s events ↔ EachStep step Q s events := by
  induction events generalizing s
  case nil => exact Iff.rfl
  case cons event events ih =>
    refine forall₂_congr fun s' hs => ?_
    have ⟨hpq, hi⟩ := next hi hs
    rw [hpq]
    exact and_congr_right fun hq => ih (hi hq)

end Machine

-- Logs of the signals that subjects emit, and the phases that the signals of each of them lead it through.
namespace EventLog

variable {Subject Signal Phase α : Type} {subject : α → Subject} {signals : α → List Signal} {l : List α}

-- The signals of one subject after another.
def emissions (subject : α → Subject) (signals : α → List Signal) (l : List α) : List (Subject × Signal) :=
  l.flatMap fun a => (signals a).map (subject a, ·)

section

variable [DecidableEq Subject] {log log' : List (Subject × Signal)} {x : Subject}

def signalsOf (log : List (Subject × Signal)) (x : Subject) : List Signal :=
  (log.filter (·.1 = x)).map Prod.snd

theorem signalsOf_append : signalsOf (log ++ log') x = signalsOf log x ++ signalsOf log' x := by
  simp [signalsOf]

theorem signalsOf_map {y : Subject} (ss : List Signal) :
    signalsOf (ss.map (y, ·)) x = if y = x then ss else [] := by
  rw [signalsOf, List.filter_map, List.map_map]
  split
  case isTrue h => simp [Function.comp_def, h]
  case isFalse h => simp [Function.comp_def, h]

theorem signalsOf_emissions_cons {a : α} : signalsOf (emissions subject signals (a :: l)) x =
    (if subject a = x then signals a else []) ++ signalsOf (emissions subject signals l) x := by
  rw [emissions, List.flatMap_cons, signalsOf_append, signalsOf_map, emissions]

theorem signalsOf_emissions_of_notMem (h : ∀ a ∈ l, subject a ≠ x) :
    signalsOf (emissions subject signals l) x = [] := by
  induction l
  case nil => rfl
  case cons a l ih =>
    have ⟨ha, hl⟩ := List.forall_mem_cons.mp h
    rw [signalsOf_emissions_cons, if_neg ha, ih hl, List.append_nil]

theorem signalsOf_emissions_of_mem {a : α} (hi : Function.Injective subject) (hn : l.Nodup) (ha : a ∈ l) :
    signalsOf (emissions subject signals l) (subject a) = signals a := by
  induction l
  case nil => contradiction
  case cons b l ih =>
    have ⟨hb, hl⟩ := List.nodup_cons.mp hn
    rw [signalsOf_emissions_cons]
    cases List.mem_cons.mp ha
    case inl h =>
      have hrest : ∀ c ∈ l, subject c ≠ subject a := fun c hc heq => hb (h ▸ hi heq ▸ hc)
      rw [if_pos (h ▸ rfl), signalsOf_emissions_of_notMem hrest, List.append_nil, h]
    case inr h =>
      have hne : subject b ≠ subject a := fun heq => hb (hi heq ▸ h)
      rw [if_neg hne, ih hl h, List.nil_append]

-- Every subject is in the phase its signals have led it to.
def Follows (next : Phase → Signal → Option Phase) (start : Phase) (log : List (Subject × Signal))
    (phase : Subject → Phase) : Prop :=
  ∀ x, (signalsOf log x).foldlM next start = some (phase x)

namespace Follows

variable {next : Phase → Signal → Option Phase} {start : Phase} {phase phase' : Subject → Phase}

-- Subjects that have signals in the appended part go on from where they are, the others stay.
theorem append (h : Follows next start log phase) (hi : Function.Injective subject) (hn : l.Nodup)
    (hl : ∀ a ∈ l, (signals a).foldlM next (phase (subject a)) = some (phase' (subject a)))
    (hrest : ∀ x, (∀ a ∈ l, subject a ≠ x) → phase' x = phase x) :
    Follows next start (log ++ emissions subject signals l) phase' := by
  intro x
  rw [signalsOf_append, List.foldlM_append, h x]
  by_cases hx : ∃ a ∈ l, subject a = x
  case pos =>
    have ⟨a, ha, hax⟩ := hx
    subst hax
    rw [signalsOf_emissions_of_mem hi hn ha]
    exact hl a ha
  case neg =>
    have hx : ∀ a ∈ l, subject a ≠ x := fun a ha heq => hx ⟨a, ha, heq⟩
    rw [signalsOf_emissions_of_notMem hx, hrest x hx]
    rfl

end Follows
end
end EventLog
