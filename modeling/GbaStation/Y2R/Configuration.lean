import Mathlib.Data.Vector.Basic

/-!
# Settings of a colorspace conversion (`service/cam/y2r_u.h`)

The settings that a strip depends on.
-/

namespace GbaStation.Y2R

inductive InputFormat where
  /-- 8-bit input in separate planes, with 4:2:2 subsampling. -/
  | yuv422Indiv8
  /-- 8-bit input in separate planes, with 4:2:0 subsampling. -/
  | yuv420Indiv8
  /-- 16-bit input, of which the low byte is used. -/
  | yuv422Indiv16
  | yuv420Indiv16
  /-- One interleaved stream, with 4:2:2 subsampling. -/
  | yuyv422Interleaved
  deriving DecidableEq, Repr

inductive Rotation where
  | none
  | clockwise90
  | clockwise180
  | clockwise270
  deriving DecidableEq, Repr

inductive BlockAlignment where
  | linear
  | block8x8
  deriving DecidableEq, Repr

abbrev CoefficientSet := Vector Int16 8

end GbaStation.Y2R
