import Mathlib.Data.Nat.Notation

-- The signals of a Wayland server, and the two ways to emit them. What the functions of the listeners do in between is
-- up to the environment.
namespace Libwayland

inductive SignalEvent (Data : Type)
  | add (l : ℕ)
  | remove (l : ℕ)
  | emit (data : Data)
  | returned

inductive SignalRecord (Data : Type)
  | added (l : ℕ)
  | removed (l : ℕ)
  | started (k : ℕ) (data : Data)
  | called (k l : ℕ) (data : Data)
  | finished (k : ℕ)

structure Emission (Data : Type) where
  id   : ℕ
  data : Data

-- What should come of the emissions, by the log of all that has happened, the latest first.
namespace SignalRecord

variable {Data : Type}

def registered : List (SignalRecord Data) → List ℕ
  | [] => []
  | .added l :: log => registered log ++ [l]
  | .removed l :: log => (registered log).filter (· ≠ l)
  | _ :: log => registered log

-- The listeners that an emission has still to call.
def waiting (k : ℕ) : List (SignalRecord Data) → List ℕ
  | [] => []
  | .started k' _ :: log => if k' = k then registered log else waiting k log
  | .called k' l _ :: log => if k' = k then (waiting k log).filter (· ≠ l) else waiting k log
  | .removed l :: log => (waiting k log).filter (· ≠ l)
  | _ :: log => waiting k log

def dataOf (k : ℕ) : List (SignalRecord Data) → Option Data
  | [] => none
  | .started k' data :: log => if k' = k then some data else dataOf k log
  | _ :: log => dataOf k log

-- Every call is one that was waited for, and at the end of an emission there is nobody who waits for it.
def Right : List (SignalRecord Data) → Prop
  | [] => True
  | .called k l data :: log => l ∈ waiting k log ∧ dataOf k log = some data ∧ Right log
  | .finished k :: log => waiting k log = [] ∧ Right log
  | _ :: log => Right log

end SignalRecord

-- An element of the list of a signal: a listener, or one of the markers of an emission.
inductive Link
  | listener (l : ℕ) | cursor (k : ℕ) | stop (k : ℕ)
deriving DecidableEq

-- This is `wl_signal`. The emissions that are running come with the innermost first.
structure Signal (Data : Type) where
  listenerList : List Link := []
  emissions    : List (Emission Data) := []
  nextEmission : ℕ := 0
  log          : List (SignalRecord Data) := []

namespace Signal

variable {Data : Type}

-- The cursor moves behind the element that comes next, until this is a listener or the end of the emission.
def emitFrom (k : ℕ) (before : List Link) : List Link → List Link × Option ℕ
  | [] => (before, none)
  | .listener l :: after => (before ++ .listener l :: .cursor k :: after, some l)
  | .cursor k' :: after => emitFrom k (before ++ [.cursor k']) after
  | .stop k' :: after => if k' = k then (before ++ after, none) else emitFrom k (before ++ [.stop k']) after

-- The loop of `wl_signal_emit_mutable`, from the return of one function to the call of the next one.
def emitLoop (s : Signal Data) : Signal Data :=
  match s.emissions with
  | [] => s
  | e :: rest =>
    let before := s.listenerList.takeWhile (· ≠ .cursor e.id)
    let after := (s.listenerList.dropWhile (· ≠ .cursor e.id)).tail
    match emitFrom e.id before after with
    | (listenerList, some l) => { s with listenerList, log := .called e.id l e.data :: s.log }
    | (listenerList, none) => { s with listenerList, emissions := rest, log := .finished e.id :: s.log }

def step (s : Signal Data) : SignalEvent Data → Option (Signal Data)
  | .add l =>
    if .listener l ∈ s.listenerList then
      none
    else
      some { s with listenerList := s.listenerList ++ [.listener l], log := .added l :: s.log }
  | .remove l =>
    if .listener l ∈ s.listenerList then
      some { s with listenerList := s.listenerList.erase (.listener l), log := .removed l :: s.log }
    else
      none
  | .emit data =>
    let k := s.nextEmission
    some <| emitLoop { s with
      listenerList := .cursor k :: s.listenerList ++ [.stop k]
      emissions := ⟨k, data⟩ :: s.emissions
      nextEmission := k + 1
      log := .started k data :: s.log }
  | .returned =>
    match s.emissions with
    | [] => none
    | _ :: _ => some s.emitLoop

end Signal

-- This is `wl_priv_signal`.
structure PrivSignal (Data : Type) where
  listenerList : List ℕ := []
  emitList     : List ℕ := []
  emissions    : List (Emission Data) := []
  nextEmission : ℕ := 0
  log          : List (SignalRecord Data) := []

namespace PrivSignal

variable {Data : Type}

-- The loop of `wl_priv_signal_emit`, from the return of one function to the call of the next one.
def emitLoop (s : PrivSignal Data) : PrivSignal Data :=
  match s.emissions with
  | [] => s
  | e :: rest =>
    match s.emitList with
    | [] => { s with emissions := rest, log := .finished e.id :: s.log }
    | pos :: emitList =>
      { s with listenerList := pos :: s.listenerList, emitList, log := .called e.id pos e.data :: s.log }

def step (s : PrivSignal Data) : SignalEvent Data → Option (PrivSignal Data)
  | .add l =>
    if l ∈ s.listenerList ∨ l ∈ s.emitList then
      none
    else
      some { s with listenerList := s.listenerList ++ [l], log := .added l :: s.log }
  | .remove l =>
    if l ∈ s.listenerList ∨ l ∈ s.emitList then
      some { s with
        listenerList := s.listenerList.erase l
        emitList := s.emitList.erase l
        log := .removed l :: s.log }
    else
      none
  | .emit data =>
    let k := s.nextEmission
    some <| emitLoop { s with
      listenerList := []
      emitList := s.listenerList ++ s.emitList
      emissions := ⟨k, data⟩ :: s.emissions
      nextEmission := k + 1
      log := .started k data :: s.log }
  | .returned =>
    match s.emissions with
    | [] => none
    | _ :: _ => some s.emitLoop

end PrivSignal

end Libwayland
