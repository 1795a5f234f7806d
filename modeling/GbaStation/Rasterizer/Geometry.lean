import GbaStation.Rasterizer.SurfaceParams

/-!
# Where the pixels of a surface lie
-/

namespace GbaStation.Rasterizer

/-- What follows an `ASSERT` that holds. -/
theorem of_ensure {α : Type} {p : Prop} [Decidable p] {f : Unit → Except Abort α} {a : α}
    (h : (ensure p >>= f) = .ok a) : p ∧ f () = .ok a := by
  unfold ensure at h
  split_ifs at h with hp
  · exact ⟨hp, h⟩
  · cases h

namespace SurfaceParams

variable {p q rect : SurfaceParams} {interval : Interval}

/-- The stride that is used: the width, if there is none. -/
def strideOrWidth (p : SurfaceParams) : UInt32 := if p.stride = 0 then p.width else p.stride

/-- The size of a single level, with the gaps between its rows. -/
def levelSize (p : SurfaceParams) : UInt32 :=
  if p.isTiled then p.bytesInPixels (p.strideOrWidth * 8 * (p.height / 8 - 1) + p.width * 8)
  else p.bytesInPixels (p.strideOrWidth * (p.height - 1) + p.width)

theorem updateParams_one (h : p.levels = 1) : p.updateParams =
    (getFormatType p.pixelFormat).map fun type =>
      { p with
        stride := p.strideOrWidth
        type := type
        mipmapOffsets := p.mipmapOffsets.set 0 p.addr
        size := p.levelSize
        endAddr := p.addr + p.levelSize } := by
  unfold updateParams levelSize strideOrWidth
  cases hstride : decide (p.stride = 0) with
  | true =>
    simp only [of_decide_eq_true hstride, if_true]
    cases getFormatType p.pixelFormat with
    | error e => rfl
    | ok t => simp [h, Except.map, bind, Except.bind, pure, Except.pure, bytesInPixels]
  | false =>
    simp only [of_decide_eq_false hstride, if_false]
    cases getFormatType p.pixelFormat with
    | error e => rfl
    | ok t => simp [h, Except.map, bind, Except.bind, pure, Except.pure, bytesInPixels]

/-- A single level keeps its format and its place. -/
theorem of_updateParams (h : p.levels = 1) (hupdate : p.updateParams = .ok q) :
    p.pixelFormat ≠ .invalid ∧ q.pixelFormat = p.pixelFormat ∧ q.isTiled = p.isTiled := by
  rw [updateParams_one h] at hupdate
  cases htype : getFormatType p.pixelFormat with
  | error e =>
    rw [htype] at hupdate
    cases hupdate
  | ok type =>
    rw [htype] at hupdate
    obtain rfl := Except.ok.inj hupdate
    refine ⟨fun hinvalid => ?_, rfl, rfl⟩
    rw [hinvalid] at htype
    cases htype

/-- A rectangle has the format of the surface. -/
theorem of_fromInterval (h : p.fromInterval interval = .ok rect) :
    p.pixelFormat ≠ .invalid ∧ rect.pixelFormat = p.pixelFormat ∧ rect.isTiled = p.isTiled := by
  unfold fromInterval at h
  dsimp only at h
  obtain ⟨-, h⟩ := of_ensure h
  obtain ⟨-, h⟩ := of_ensure h
  split_ifs at h
  · have hkeep := of_updateParams (by rfl) h
    exact hkeep
  · obtain ⟨-, h⟩ := of_ensure h
    have hkeep := of_updateParams (by rfl) h
    exact hkeep
  · have hkeep := of_updateParams (by rfl) h
    exact hkeep
  · obtain ⟨-, h⟩ := of_ensure h
    have hkeep := of_updateParams (by rfl) h
    exact hkeep

end SurfaceParams

end GbaStation.Rasterizer
