import GbaStation.Rasterizer.SurfaceParams

/-!
# Surfaces (`rasterizer_cache/surface_base.cpp`)

A surface is its parameters with what the cache keeps about it: the flags that the cache reads,
the value it was filled with, and the regions of it that are not valid.

Three fields are not in the source. `serial` numbers the objects that were put in the slots of the
cache, `validated` has the addresses that `ValidateSurface` has marked valid since they were last
invalidated, and `written` those of them whose pixels it has written. Nothing is computed from them.
-/

namespace GbaStation.Rasterizer

structure Surface extends SurfaceParams where
  registered : Bool := false
  tracked : Bool := false
  fillSize : Nat := 0
  fillData : List UInt8 := [0, 0, 0, 0]
  invalidRegions : IntervalSet := .empty
  serial : Nat := 0
  validated : IntervalSet := .empty
  written : IntervalSet := .empty

namespace Surface

def isRegionValid (s : Surface) (interval : Interval) : Bool :=
  !s.invalidRegions.intersects interval

def markValid (interval : Interval) (s : Surface) : Surface :=
  { s with invalidRegions := s.invalidRegions.sub interval }

/-- The bytes of the fill value repeat as pixels of the format. -/
def fillRepeats (s : Surface) (format : PixelFormat) : Bool :=
  let bpp := (getFormatBpp format).toNat
  if s.fillSize * 8 ≠ bpp then
    let bytes := max (bpp / 8) 1
    let test := (List.replicate bytes (s.fillData.take s.fillSize)).flatten
    let same := (List.range s.fillSize).all fun i =>
      decide ((test.drop (bytes * i)).take bytes = test.take bytes)
    let byte : UInt8 := test.headD 0
    same && !(bpp == 4 && byte % 16 != byte / 16)
  else true

/-- The surface can fill the interval of the destination. -/
def canFill (s : Surface) (dest : SurfaceParams) (interval : Interval) : Except Abort Bool := do
  if s.type = .fill ∧ s.isRegionValid interval ∧ first interval ≥ s.addr ∧
      lastNext interval ≤ s.endAddr then
    if sameInterval (← dest.fromInterval interval).getInterval interval then
      return s.fillRepeats dest.pixelFormat
    else return false
  else return false

end Surface

end GbaStation.Rasterizer
