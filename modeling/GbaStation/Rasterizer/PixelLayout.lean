import GbaStation.Rasterizer.PhysicalMemory

/-!
# Layouts of pixels

The pixels of an image lie in rows of tiles. Within a row of tiles the offset of a pixel is one for
its column and one for its line; a linear image is one whose tiles have a single line. The code
computes offsets in `u32`.
-/

namespace GbaStation.Rasterizer

structure PixelLayout where
  /-- The lines of a tile. -/
  lines : Nat
  /-- The pixels in front of a line of a tile. -/
  line : Nat → Nat
  /-- The pixels in front of a column. -/
  column : Nat → Nat
  /-- The pixels of a row of tiles. -/
  step : Nat
  bytes : Nat
  lines_pos : 0 < lines
  line_mono : ∀ i j, i ≤ j → j < lines → line i ≤ line j
  column_mono : ∀ i j, i ≤ j → column i ≤ column j

namespace PixelLayout

variable (layout : PixelLayout) {x y w h size limit : Nat}

/-- The offset of a pixel. -/
def offset (x y : Nat) : Nat :=
  (layout.column x + layout.line (y % layout.lines) + y / layout.lines * layout.step) * layout.bytes

/-- The last line of the row of tiles before that of `y`; the first line, if there is none. -/
def lineAbove (y : Nat) : Nat := y / layout.lines * layout.lines - 1

/-- The two pixels that may lie last do so below a limit, with so many bytes from them on. -/
def Within (w h size limit : Nat) : Prop :=
  layout.offset (w - 1) (h - 1) + size ≤ limit ∧
    layout.offset (w - 1) (layout.lineAbove (h - 1)) + size ≤ limit

variable {layout}

theorem line_le (y : Nat) : layout.line (y % layout.lines) ≤ layout.line (layout.lines - 1) := by
  have hlt := Nat.mod_lt y layout.lines_pos
  exact layout.line_mono _ _ (by omega) (by omega)

theorem lineAbove_le (y : Nat) : layout.lineAbove y ≤ y :=
  Nat.le_trans (Nat.sub_le _ _) (Nat.div_mul_le_self y layout.lines)

/-- A pixel does not lie behind both the last one and the last one of the row of tiles above. -/
theorem offset_le {x' y' : Nat} (hx : x ≤ x') (hy : y ≤ y') :
    layout.offset x y ≤ layout.offset x' y' ∨
      layout.offset x y ≤ layout.offset x' (layout.lineAbove y') := by
  have hcolumn := layout.column_mono x x' hx
  have hpos := layout.lines_pos
  have hdiv : y / layout.lines ≤ y' / layout.lines := Nat.div_le_div_right hy
  rcases Nat.eq_or_lt_of_le hdiv with hsame | hbefore
  · -- one row of tiles
    have hlt := Nat.mod_lt y' hpos
    have hmod : y % layout.lines ≤ y' % layout.lines := by
      have hsplit := Nat.div_add_mod y layout.lines
      have hsplit' := Nat.div_add_mod y' layout.lines
      rw [hsame] at hsplit
      omega
    have hline := layout.line_mono _ _ hmod hlt
    refine .inl (Nat.mul_le_mul_right layout.bytes ?_)
    rw [hsame]
    omega
  · -- a row above
    have habove : layout.lineAbove y' / layout.lines = y' / layout.lines - 1 ∧
        layout.lineAbove y' % layout.lines = layout.lines - 1 := by
      obtain ⟨n, hn⟩ := Nat.exists_eq_succ_of_ne_zero
        (Nat.ne_of_gt (Nat.lt_of_le_of_lt (Nat.zero_le _) hbefore))
      have hline : layout.lineAbove y' = layout.lines * n + (layout.lines - 1) := by
        rw [lineAbove, hn, Nat.succ_mul, Nat.mul_comm n]
        omega
      rw [hline, Nat.mul_add_div hpos, Nat.mul_add_mod, Nat.div_eq_of_lt (by omega),
        Nat.mod_eq_of_lt (by omega), hn]
      exact ⟨rfl, rfl⟩
    have hline := layout.line_le y
    have hrows : y / layout.lines * layout.step ≤ (y' / layout.lines - 1) * layout.step :=
      Nat.mul_le_mul_right _ (by omega)
    refine .inr (Nat.mul_le_mul_right layout.bytes ?_)
    rw [habove.1, habove.2]
    omega

/-- How far the next line may lie behind a line. -/
theorem offset_succ_le (x y : Nat) : layout.offset x (y + 1) ≤
    layout.offset x y + (layout.line (layout.lines - 1) + layout.step) * layout.bytes := by
  have hline := layout.line_le (y + 1)
  have hdiv : (y + 1) / layout.lines ≤ y / layout.lines + 1 := by
    rw [Nat.succ_div]
    split
    · exact Nat.le_refl _
    · exact Nat.le_succ _
  have hrows := Nat.mul_le_mul_right layout.step hdiv
  rw [Nat.succ_mul] at hrows
  unfold offset
  rw [← Nat.add_mul]
  refine Nat.mul_le_mul_right layout.bytes ?_
  omega

/-- Offsets that are below `2 ^ 28` as the code computes them did not wrap around: they get there in
steps that are too small to jump over the rest. -/
theorem word_offset (hsmall : (layout.column x + layout.line (layout.lines - 1) + layout.step) *
      layout.bytes < 2 ^ 31)
    (h : ∀ y', y' ≤ y → word (layout.offset x y') ≤ 2 ^ 28) :
    word (layout.offset x y) = layout.offset x y := by
  rw [Nat.add_mul] at hsmall
  induction y with
  | zero =>
    have hfirst : layout.offset x 0 ≤
        (layout.column x + layout.line (layout.lines - 1)) * layout.bytes := by
      have hline := layout.line_le 0
      unfold offset
      rw [Nat.zero_div, Nat.zero_mul, Nat.add_zero]
      exact Nat.mul_le_mul_right _ (Nat.add_le_add_left hline _)
    exact word_of_lt (by omega)
  | succ y ih =>
    have hbefore := ih fun y' hy => h y' (Nat.le_succ_of_le hy)
    have hlow := h y (Nat.le_succ y)
    have hnext := layout.offset_succ_le x y
    rw [Nat.add_mul] at hsmall hnext
    exact word_of_lt (by omega)

/-- All pixels lie below a limit, as the code computes their offsets, if the two last ones do. -/
theorem within_iff (hw : 0 < w) (hh : 0 < h) (hlimit : limit ≤ 2 ^ 28)
    (hsmall : (layout.column (w - 1) + layout.line (layout.lines - 1) + layout.step) *
      layout.bytes < 2 ^ 31) :
    (∀ x, x < w → ∀ y, y < h → word (layout.offset x y) + size ≤ limit) ↔
      layout.Within w h size limit := by
  constructor
  · intro hall
    have hlast : ∀ y, y < h → layout.offset (w - 1) y + size ≤ limit := by
      intro y hy
      have hfits := hall (w - 1) (by omega) y hy
      rwa [word_offset hsmall fun y' hy' => ?_] at hfits
      have hfits' := hall (w - 1) (by omega) y' (by omega)
      omega
    have habove := (@lineAbove_le layout) (h - 1)
    exact ⟨hlast _ (by omega), hlast _ (by omega)⟩
  · rintro ⟨hlast, habove⟩ x hx y hy
    have hword := word_le (layout.offset x y)
    rcases (@offset_le layout x y (w - 1) (h - 1)) (by omega) (by omega) with hle | hle
    · omega
    · omega

end PixelLayout

end GbaStation.Rasterizer
