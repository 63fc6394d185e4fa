import PlasmaModel.Outputs.Store
import PlasmaModel.Region.Theorems.FromRects

namespace KWin

def Size.transposed (size : Size) : Size :=
  ⟨size.height, size.width⟩

def SizeF.transposed (size : SizeF) : SizeF :=
  ⟨size.height, size.width⟩

namespace OutputTransform

def kind : OutputTransform → BitVec 32
  | normal    => 0
  | rotate90  => 1
  | rotate180 => 2
  | rotate270 => 3
  | flipX     => 4
  | flipX90   => 5
  | flipX180  => 6
  | flipX270  => 7

def inverted : OutputTransform → OutputTransform
  | normal    => normal
  | rotate90  => rotate270
  | rotate180 => rotate180
  | rotate270 => rotate90
  | flipX     => flipX
  | flipX90   => flipX90
  | flipX180  => flipX180
  | flipX270  => flipX270

def mapRectF (transform : OutputTransform) (rect : RectF) (bounds : SizeF) : RectF :=
  match transform with
  | normal    => rect
  | rotate90  => ⟨rect.top, bounds.width - rect.right, rect.bottom, bounds.width - rect.left⟩
  | rotate180 =>
    ⟨bounds.width - rect.right, bounds.height - rect.bottom, bounds.width - rect.left, bounds.height - rect.top⟩
  | rotate270 => ⟨bounds.height - rect.bottom, rect.left, bounds.height - rect.top, rect.right⟩
  | flipX     => ⟨bounds.width - rect.right, rect.top, bounds.width - rect.left, rect.bottom⟩
  | flipX90   => ⟨rect.top, rect.left, rect.bottom, rect.right⟩
  | flipX180  => ⟨rect.left, bounds.height - rect.bottom, rect.right, bounds.height - rect.top⟩
  | flipX270  =>
    ⟨bounds.height - rect.bottom, bounds.width - rect.right, bounds.height - rect.top, bounds.width - rect.left⟩

def mapRect (transform : OutputTransform) (rect : Rect) (bounds : Size) : Rect :=
  match transform with
  | normal    => rect
  | rotate90  => ⟨rect.top, bounds.width - rect.right, rect.bottom, bounds.width - rect.left⟩
  | rotate180 =>
    ⟨bounds.width - rect.right, bounds.height - rect.bottom, bounds.width - rect.left, bounds.height - rect.top⟩
  | rotate270 => ⟨bounds.height - rect.bottom, rect.left, bounds.height - rect.top, rect.right⟩
  | flipX     => ⟨bounds.width - rect.right, rect.top, bounds.width - rect.left, rect.bottom⟩
  | flipX90   => ⟨rect.top, rect.left, rect.bottom, rect.right⟩
  | flipX180  => ⟨rect.left, bounds.height - rect.bottom, rect.right, bounds.height - rect.top⟩
  | flipX270  =>
    ⟨bounds.height - rect.bottom, bounds.width - rect.right, bounds.height - rect.top, bounds.width - rect.left⟩

def mapPointF (transform : OutputTransform) (point : PointF) (bounds : SizeF) : PointF :=
  match transform with
  | normal    => point
  | rotate90  => ⟨point.y, bounds.width - point.x⟩
  | rotate180 => ⟨bounds.width - point.x, bounds.height - point.y⟩
  | rotate270 => ⟨bounds.height - point.y, point.x⟩
  | flipX     => ⟨bounds.width - point.x, point.y⟩
  | flipX90   => ⟨point.y, point.x⟩
  | flipX180  => ⟨point.x, bounds.height - point.y⟩
  | flipX270  => ⟨bounds.height - point.y, bounds.width - point.x⟩

def mapSize (transform : OutputTransform) (size : Size) : Size :=
  match transform with
  | normal | rotate180 | flipX | flipX180 => size
  | _ => size.transposed

variable {s t : OutputTransform}

-- The square that a pixel covers.
def pixel (p : Point) : Rect :=
  Rect.ofSize p ⟨1, 1⟩

end OutputTransform
end KWin
