import Mathlib.Algebra.Order.Field.Rat
import PlasmaModel.Lib.LeastWeight

-- The layers into which the windows are packed in the overview.
namespace Expo

open LeastWeight

structure QRectF where
  x      : ℚ
  y      : ℚ
  width  : ℚ
  height : ℚ
deriving Inhabited

def penalty (maxWidth idealWidth penaltyFactor width : ℚ) : ℚ :=
  if width < idealWidth then
    (width - idealWidth) * (width - idealWidth) / idealWidth / idealWidth
  else
    penaltyFactor * (width - idealWidth) * (width - idealWidth) / (maxWidth - idealWidth) / (maxWidth - idealWidth)

def weight (maxWidth idealWidth : ℚ) (cumWidths : List ℚ) (start stop : ℕ) : ℚ :=
  penalty maxWidth idealWidth cumWidths.length (cumWidths.getD stop 0 - cumWidths.getD start 0)

-- The interval halves, so `length` rounds are enough.
def searchHigh (leastWeightCandidate : ℕ → ℕ → ℚ) (candidate alternativeSmall : ℕ) : ℕ → ℕ → ℕ → ℕ
  | 0, _, high => high
  | fuel + 1, low, high =>
    if high - low ≥ 2 then
      let mid := (low + high) / 2
      if leastWeightCandidate alternativeSmall mid ≤ leastWeightCandidate candidate mid then
        searchHigh leastWeightCandidate candidate alternativeSmall fuel mid high
      else
        searchHigh leastWeightCandidate candidate alternativeSmall fuel low mid
    else
      high

def isDominated (candidate alternativeSmall alternativeBig length : ℕ) (leastWeightCandidate : ℕ → ℕ → ℚ) : Bool :=
  if alternativeBig = length then
    true
  else if leastWeightCandidate alternativeSmall length ≤ leastWeightCandidate candidate length then
    true
  else
    let high := searchHigh leastWeightCandidate candidate alternativeSmall length alternativeBig length
    leastWeightCandidate alternativeBig high ≤ leastWeightCandidate candidate high

def popFront (leastWeightCandidate : ℕ → ℕ → ℚ) (num : ℕ) : List ℕ → List ℕ
  | first :: second :: candidates =>
    if leastWeightCandidate second num ≤ leastWeightCandidate first num then
      popFront leastWeightCandidate num (second :: candidates)
    else
      first :: second :: candidates
  | candidates => candidates

-- The candidates are listed from the back.
def popBack (length : ℕ) (leastWeightCandidate : ℕ → ℕ → ℚ) (currentIndex : ℕ) : List ℕ → List ℕ
  | back :: previous :: candidates =>
    if isDominated back previous currentIndex length leastWeightCandidate then
      popBack length leastWeightCandidate currentIndex (previous :: candidates)
    else
      back :: previous :: candidates
  | candidates => candidates

structure State where
  layerStart           : List ℕ
  leastWeight          : List ℚ
  layerStartCandidates : List ℕ

section

variable (weight : ℕ → ℕ → ℚ) (length : ℕ)

def State.leastWeightCandidate (s : State) (lastRowStartPos num : ℕ) : ℚ :=
  s.leastWeight.getD lastRowStartPos 0 + weight lastRowStartPos num

def State.init : State where
  layerStart           := List.replicate (length + 1) 0
  leastWeight          := List.replicate (length + 1) 0
  layerStartCandidates := [0]

def State.assign (s : State) (currentIndex : ℕ) : State :=
  let front := s.layerStartCandidates.headD 0
  { s with
    leastWeight := s.leastWeight.set currentIndex (s.leastWeightCandidate weight front currentIndex)
    layerStart  := s.layerStart.set currentIndex front }

def State.next (s : State) (currentIndex : ℕ) : State :=
  let s := s.assign weight currentIndex
  let g := s.leastWeightCandidate weight
  let candidates := (popFront g (currentIndex + 1) (s.layerStartCandidates ++ [currentIndex])).dropLast
  let candidates := (popBack length g currentIndex candidates.reverse).reverse
  match candidates.getLast? with
  | none => { s with layerStartCandidates := candidates ++ [currentIndex] }
  | some back =>
    if g currentIndex length < g back length then
      { s with layerStartCandidates := candidates ++ [currentIndex] }
    else
      { s with layerStartCandidates := candidates }

-- The state after the iteration for an index.
def iterate : ℕ → State
  | 0 => .init length
  | currentIndex + 1 => (iterate currentIndex).next weight length (currentIndex + 1)

end

def recover (layerStart : List ℕ) : ℕ → ℕ → List ℕ → Option (List ℕ)
  | _, 0, layerStartPosReversed => some layerStartPosReversed
  | 0, _ + 1, _ => none
  | fuel + 1, currentIndex + 1, layerStartPosReversed =>
    let start := layerStart.getD (currentIndex + 1) 0
    recover layerStart fuel start (layerStartPosReversed ++ [start])

-- Nothing if the layers never get back to the first window.
def getLayerStartPos (maxWidth idealWidth : ℚ) (length : ℕ) (cumWidths : List ℚ) : Option (List ℕ) :=
  let weight := weight maxWidth idealWidth cumWidths
  let s := (iterate weight length (length - 1)).assign weight length
  (recover s.layerStart length length [length]).map List.reverse

structure Layer where
  maxWidth       : ℚ
  maxHeight      : ℚ
  remainingWidth : ℚ
  ids            : List ℕ

def Layer.create (maxWidth : ℚ) (windowSizes : List QRectF) (windowIds : List ℕ) (startPos endPos : ℕ) : Layer :=
  let ids := (windowIds.drop startPos).take (endPos - startPos)
  { maxWidth
    maxHeight      := windowSizes[windowIds.getD (endPos - 1) 0]!.height
    remainingWidth := ids.foldl (fun remainingWidth id => remainingWidth - windowSizes[id]!.width) maxWidth
    ids }

def Layer.width (layer : Layer) : ℚ :=
  layer.maxWidth - layer.remainingWidth

structure LayeredPacking where
  maxWidth : ℚ
  width    : ℚ
  height   : ℚ
  layers   : List Layer

def LayeredPacking.emplaceBack (windowSizes : List QRectF) (ids : List ℕ) (packing : LayeredPacking) (bounds : ℕ × ℕ) :
    LayeredPacking :=
  let layer := Layer.create packing.maxWidth windowSizes ids bounds.1 bounds.2
  { packing with
    layers := packing.layers ++ [layer]
    width  := max packing.width layer.width
    height := packing.height + layer.maxHeight }

def LayeredPacking.create (maxWidth : ℚ) (windowSizes : List QRectF) (ids layerStartPos : List ℕ) : LayeredPacking :=
  (layerStartPos.zip layerStartPos.tail).foldl (emplaceBack windowSizes ids) ⟨maxWidth, 0, 0, []⟩

def cumWidths (windowSizes : List QRectF) (ids : List ℕ) : List ℚ :=
  ids.foldl (fun cumWidths id => cumWidths ++ [cumWidths.getLastD 0 + windowSizes[id]!.width]) [0]

def findPacking (windowSizes : List QRectF) (ids : List ℕ) (idealWidthRatio stripWidth : ℚ) : Option LayeredPacking :=
  (getLayerStartPos stripWidth (stripWidth * idealWidthRatio) ids.length (cumWidths windowSizes ids)).map
    (LayeredPacking.create stripWidth windowSizes ids)

end Expo
