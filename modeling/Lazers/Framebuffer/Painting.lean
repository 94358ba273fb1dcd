import Lazers.Framebuffer.Console

/-!
# What drawing does to the pixels

`Paints S v c c'` says that the pixels in `S` become `v` and that nothing else changes. Painting
one set and then another with the same color paints both, and so the loops of `console.rs` that
draw are each one such step. `Cleared` and `Scrolled` are the steps that also change what the
console knows about its rows.

Nothing here needs the framebuffer to be a usable one, except what is said about single pixels:
with a stride below the width, two pixels of the screen can be one cell of memory.
-/

namespace Lazers.Framebuffer

/-! ## Cells of memory and pixels -/

section

variable {stride x y a b : Nat}

theorem le_index (hx : x < stride) : a * stride ≤ y * stride + x ↔ a ≤ y := by
  constructor
  · intro h
    by_contra hlt
    have hmul : (y + 1) * stride ≤ a * stride := Nat.mul_le_mul_right _ (by omega)
    rw [Nat.succ_mul] at hmul
    omega
  · intro h
    have hmul : a * stride ≤ y * stride := Nat.mul_le_mul_right _ h
    omega

theorem index_lt (hx : x < stride) : y * stride + x < b * stride ↔ y < b := by
  have hle := @le_index stride x y b hx
  omega

theorem index_inj {x' y' : Nat} (hx : x < stride) (hx' : x' < stride) :
    y * stride + x = y' * stride + x' ↔ x = x' ∧ y = y' := by
  constructor
  · intro h
    have hle := (@le_index stride x y y' hx).mp (by omega)
    have hge := (@le_index stride x' y' y hx').mp (by omega)
    obtain rfl : y = y' := by omega
    exact ⟨by omega, rfl⟩
  · rintro ⟨rfl, rfl⟩
    rfl

end

namespace FramebufferConsole

variable {c c' c₁ c₂ : FramebufferConsole} {S T : Nat → Nat → Prop} {v : UInt32}

/-- The pixel in a column and a line of the screen. -/
def pixel (c : FramebufferConsole) (x y : Nat) : UInt32 :=
  c.pixels.get (y * c.framebuffer.stride + x)

/-- The color of the background, as a pixel. -/
def blank (c : FramebufferConsole) : UInt32 := c.encodeColor c.background

/-- **The pixels in `S` become `v`, and nothing else changes.** -/
structure Paints (S : Nat → Nat → Prop) (v : UInt32) (c c' : FramebufferConsole) : Prop where
  frame : c' = { c with pixels := c'.pixels }
  bound : c'.pixels.bound ≤ max c.pixels.bound c.visiblePixels
  inside : c.framebuffer.width ≤ c.framebuffer.stride → ∀ x y, x < c.framebuffer.width →
    y < c.visibleHeight → S x y → c'.pixel x y = v
  outside : c.framebuffer.width ≤ c.framebuffer.stride → ∀ x y, x < c.framebuffer.width →
    ¬ S x y → c'.pixel x y = c.pixel x y

namespace Paints

theorem exists_pixels (h : Paints S v c c') : ∃ pixels, c' = { c with pixels } := ⟨_, h.frame⟩

theorem refl : Paints (fun _ _ => False) v c c where
  frame := rfl
  bound := Nat.le_max_left _ _
  inside := fun _ _ _ _ _ h => h.elim
  outside := fun _ _ _ _ _ => rfl

/-- **One set after the other.** -/
theorem trans (h₁ : Paints S v c c₁) (h₂ : Paints T v c₁ c₂) :
    Paints (fun x y => S x y ∨ T x y) v c c₂ := by
  obtain ⟨pixels, rfl⟩ := h₁.exists_pixels
  refine ⟨h₂.frame, ?_, fun hstride x y hx hy hS => ?_, fun hstride x y hx hS => ?_⟩
  · have h₁ := h₁.bound
    have h₂ := h₂.bound
    dsimp only [visiblePixels] at h₁ h₂ ⊢
    omega
  · by_cases hT : T x y
    · exact h₂.inside hstride x y hx hy hT
    · rw [h₂.outside hstride x y hx hT]
      exact h₁.inside hstride x y hx hy (hS.resolve_right hT)
  · rw [not_or] at hS
    rw [h₂.outside hstride x y hx hS.2]
    exact h₁.outside hstride x y hx hS.1

theorem congr (h : Paints S v c c') (hST : ∀ x y, S x y ↔ T x y) : Paints T v c c' where
  frame := h.frame
  bound := h.bound
  inside := fun hstride x y hx hy hT => h.inside hstride x y hx hy ((hST x y).mpr hT)
  outside := fun hstride x y hx hT => h.outside hstride x y hx fun hS => hT ((hST x y).mp hS)

/-- **A loop paints what its rounds paint.** -/
theorem foldlM_range {f : FramebufferConsole → Nat → Option FramebufferConsole} {n : Nat}
    {S : Nat → Nat → Nat → Prop} {P : FramebufferConsole → Prop} (hP : P c)
    (hframe : ∀ c pixels, P c → P { c with pixels })
    (hstep : ∀ i < n, ∀ c, P c → ∃ c', f c i = some c' ∧ Paints (S i) v c c') :
    ∃ c', (List.range n).foldlM f c = some c' ∧ Paints (fun x y => ∃ i < n, S i x y) v c c' := by
  obtain ⟨c', hrun, hpaints, -⟩ :=
    @Loop.foldlM_range _ f (fun i c' => Paints (fun x y => ∃ j < i, S j x y) v c c' ∧ P c') n c
      ⟨refl.congr fun x y => ⟨False.elim, by rintro ⟨j, hj, -⟩; omega⟩, hP⟩
      fun i hi c₁ h₁ => by
        obtain ⟨hpaints, hP₁⟩ := h₁
        obtain ⟨c₂, hrun, h₂⟩ := hstep i hi c₁ hP₁
        refine ⟨c₂, hrun, (hpaints.trans h₂).congr fun x y => ?_, ?_⟩
        · constructor
          · rintro (⟨j, hj, hS⟩ | hS)
            · exact ⟨j, Nat.lt_succ_of_lt hj, hS⟩
            · exact ⟨i, Nat.lt_succ_self i, hS⟩
          · rintro ⟨j, hj, hS⟩
            obtain hlt | rfl := Nat.lt_succ_iff_lt_or_eq.mp hj
            · exact .inl ⟨j, hlt, hS⟩
            · exact .inr hS
        · obtain ⟨pixels, rfl⟩ := h₂.exists_pixels
          exact hframe _ _ hP₁
  exact ⟨c', hrun, hpaints⟩

end Paints

/-! ## The functions that paint -/

theorem putPixel_paints (c : FramebufferConsole) (x y : Nat) (v : UInt32) :
    ∃ c', c.putPixel x y v = some c' ∧ Paints (fun x' y' => x' = x ∧ y' = y) v c c' := by
  rw [putPixel]
  by_cases hscreen : x ≥ c.framebuffer.width ∨ y ≥ c.visibleHeight
  · -- not on the screen, and so not a pixel that `inside` speaks of
    rw [if_pos hscreen]
    refine ⟨c, rfl, rfl, Nat.le_max_left _ _, fun _ x' y' hx' hy' => ?_, fun _ _ _ _ _ => rfl⟩
    rintro ⟨rfl, rfl⟩
    omega
  · rw [if_neg hscreen]
    dsimp only
    by_cases hslice : y * c.framebuffer.stride + x ≥ c.visiblePixels
    · -- only with a stride below the width
      rw [if_pos hslice]
      refine ⟨c, rfl, rfl, Nat.le_max_left _ _, fun hstride x' y' hx' hy' => ?_,
        fun _ _ _ _ _ => rfl⟩
      rintro ⟨rfl, rfl⟩
      have hin := (index_lt (Nat.lt_of_lt_of_le hx' hstride)).mpr hy'
      rw [visiblePixels] at hslice
      omega
    · rw [if_neg hslice]
      obtain ⟨pixels, hwrite, hbound, hget⟩ :=
        @Cells.write_of_lt _ c.pixels c.visiblePixels (y * c.framebuffer.stride + x) v (by omega)
      rw [hwrite]
      have hpixel : ∀ x' y', pixel { c with pixels } x' y' =
          if y' * c.framebuffer.stride + x' = y * c.framebuffer.stride + x then v
          else c.pixel x' y' := fun x' y' => hget _
      refine ⟨_, rfl, rfl, hbound, fun _ x' y' _ _ => ?_, fun hstride x' y' hx' hS => ?_⟩
      · rintro ⟨rfl, rfl⟩
        rw [hpixel, if_pos rfl]
      · have hx : x < c.framebuffer.stride := by omega
        rw [hpixel, if_neg fun h => hS ((index_inj (by omega) hx).mp h)]

/-- **A rectangle with a mask.** -/
theorem paint_paints (c : FramebufferConsole) (originX originY width height : Nat)
    (mask : Nat → Nat → Bool) (v : UInt32) :
    ∃ c', c.paint originX originY width height mask v = some c' ∧
      Paints (fun x y => ∃ row < height, ∃ column < width, mask column row = true ∧
        x = originX + column ∧ y = originY + row) v c c' := by
  -- both loops are unions, of rows and of the pixels of a row
  refine Paints.foldlM_range (P := fun _ => True) trivial (fun _ _ _ => trivial) fun row _ c _ => ?_
  refine Paints.foldlM_range (P := fun _ => True) trivial (fun _ _ _ => trivial)
    fun column _ c _ => ?_
  by_cases hmask : mask column row = true
  · obtain ⟨c', hput, hpaints⟩ := c.putPixel_paints (originX + column) (originY + row) v
    exact ⟨c', (if_pos hmask).trans hput,
      hpaints.congr fun x y => ⟨fun h => ⟨hmask, h⟩, fun h => h.2⟩⟩
  · exact ⟨c, if_neg hmask, Paints.refl.congr fun x y => ⟨False.elim, fun h => hmask h.1⟩⟩

theorem fillLine_paints (c : FramebufferConsole) {y : Nat} (h : y < c.visibleHeight) (v : UInt32) :
    ∃ pixels, c.pixels.fill c.visiblePixels (y * c.framebuffer.stride)
        (y * c.framebuffer.stride + c.framebuffer.stride) v = some pixels ∧
      Paints (fun _ y' => y' = y) v c { c with pixels } := by
  have hlines : (y + 1) * c.framebuffer.stride ≤ c.visiblePixels := Nat.mul_le_mul_right _ h
  rw [Nat.succ_mul] at hlines
  obtain ⟨pixels, hfill, hbound, hget⟩ := @Cells.fill_of_le _ c.pixels c.visiblePixels
    (y * c.framebuffer.stride) (y * c.framebuffer.stride + c.framebuffer.stride) v
    (Nat.le_add_right _ _) hlines
  have hpixel : ∀ x y', x < c.framebuffer.stride →
      pixel { c with pixels } x y' = if y' = y then v else c.pixel x y' := by
    intro x y' hx
    have hline : (y * c.framebuffer.stride ≤ y' * c.framebuffer.stride + x ∧
        y' * c.framebuffer.stride + x < y * c.framebuffer.stride + c.framebuffer.stride) ↔
          y' = y := by
      rw [← Nat.succ_mul, le_index hx, index_lt hx]
      omega
    rw [pixel, hget]
    simp only [hline]
    rfl
  refine ⟨pixels, hfill, rfl, hbound, fun hstride x y' hx _ hline => ?_,
    fun hstride x y' hx hline => ?_⟩
  · rw [hpixel x y' (Nat.lt_of_lt_of_le hx hstride), if_pos hline]
  · rw [hpixel x y' (Nat.lt_of_lt_of_le hx hstride), if_neg hline]

/-- **A band of lines.** -/
theorem clearBand_paints (c : FramebufferConsole) {startY endY : Nat} (h : endY ≤ c.visibleHeight) :
    ∃ c', c.clearBand startY endY = some c' ∧
      Paints (fun _ y => startY ≤ y ∧ y < endY) c.blank c c' := by
  have hloop : ∃ c', c.clearBand startY endY = some c' ∧
      Paints (fun _ y => ∃ i < endY - startY, y = startY + i) c.blank c c' := by
    refine Paints.foldlM_range (P := fun c₁ => c₁.visibleHeight = c.visibleHeight) rfl
      (fun _ _ h => h) fun i hi c₁ hheight => ?_
    obtain ⟨pixels, hfill, hpaints⟩ :=
      c₁.fillLine_paints (y := startY + i) (by omega) (c.encodeColor c.background)
    dsimp only
    rw [hfill]
    exact ⟨_, rfl, hpaints⟩
  obtain ⟨c', hrun, hpaints⟩ := hloop
  refine ⟨c', hrun, hpaints.congr fun x y => ?_⟩
  constructor
  · rintro ⟨i, hi, rfl⟩
    omega
  · intro hy
    exact ⟨y - startY, by omega, by omega⟩

/-! ## Clearing and scrolling -/

/-- The screen is blank, and so are the rows. -/
structure Cleared (c c' : FramebufferConsole) : Prop where
  frame : c' = { c with
    pixels := c'.pixels, cursorColumn := 0, cursorRow := 0, rowLengths := c'.rowLengths,
    inputFloor := none }
  bound : c'.pixels.bound ≤ max c.pixels.bound c.visiblePixels
  blank : c.framebuffer.width ≤ c.framebuffer.stride → ∀ x y, x < c.framebuffer.width →
    y < c.visibleHeight → c'.pixel x y = c.blank
  lengths : ∀ row < maxTrackedRows, c'.rowLengths.get row = 0

theorem clear_cleared (c : FramebufferConsole) : ∃ c', c.clear = some c' ∧ Cleared c c' := by
  obtain ⟨pixels, hfill, hbound, hget⟩ := @Cells.fill_of_le _ c.pixels c.visiblePixels 0
    c.visiblePixels (c.encodeColor c.background) (Nat.zero_le _) (Nat.le_refl _)
  obtain ⟨rowLengths, hlengths, -, hzero⟩ := @Cells.fill_of_le _ c.rowLengths maxTrackedRows 0
    maxTrackedRows 0 (Nat.zero_le _) (Nat.le_refl _)
  rw [clear, hfill]
  dsimp only [Option.bind_eq_bind, Option.bind_some]
  rw [hlengths]
  refine ⟨_, rfl, rfl, hbound, fun hstride x y hx hy => ?_, fun row hrow => ?_⟩
  · have hin := (index_lt (Nat.lt_of_lt_of_le hx hstride)).mpr hy
    exact (hget _).trans (if_pos ⟨Nat.zero_le _, hin⟩)
  · exact (hzero row).trans (if_pos ⟨Nat.zero_le _, hrow⟩)

/-- **One row up.** The lines from the second row on move up by the height of a row, and the last
ones are blank; the lengths of the rows move with them, and so does the input floor. -/
structure Scrolled (c c' : FramebufferConsole) : Prop where
  frame : c' = { c with
    pixels := c'.pixels, rowLengths := c'.rowLengths,
    inputFloor := c.inputFloor.map fun floor => { floor with row := floor.row - 1 } }
  bound : c'.pixels.bound ≤ max c.pixels.bound c.visiblePixels
  moved : c.framebuffer.width ≤ c.framebuffer.stride → ∀ x y, x < c.framebuffer.width →
    paddingY ≤ y → y + glyphAdvanceY + paddingY < c.visibleHeight →
    c'.pixel x y = c.pixel x (y + glyphAdvanceY)
  cleared : c.framebuffer.width ≤ c.framebuffer.stride → ∀ x y, x < c.framebuffer.width →
    c.visibleHeight ≤ y + glyphAdvanceY + paddingY → y + paddingY < c.visibleHeight →
    c'.pixel x y = c.blank
  lengths : ∀ row, c'.rowLengths.get row =
    if row + 1 < c.rows then c.rowLengths.get (row + 1)
    else if row + 1 = c.rows then 0 else c.rowLengths.get row

/-- The copy of `scroll_up`, line by line. -/
theorem copyLines (c : FramebufferConsole) (h : 42 < c.visibleHeight) :
    ∃ pixels, c.pixels.copyWithin c.visiblePixels
        ((paddingY + glyphAdvanceY) * c.framebuffer.stride)
        ((c.visibleHeight - paddingY) * c.framebuffer.stride) (paddingY * c.framebuffer.stride) =
          some pixels ∧
      pixels.bound ≤ max c.pixels.bound c.visiblePixels ∧
      ∀ x y, x < c.framebuffer.stride → pixel { c with pixels } x y =
        if paddingY ≤ y ∧ y + glyphAdvanceY + paddingY < c.visibleHeight then
          c.pixel x (y + glyphAdvanceY)
        else c.pixel x y := by
  have hpadding : paddingY = 16 := rfl
  have hadvance : glyphAdvanceY = 10 := rfl
  obtain ⟨pixels, hcopy, hbound, hget⟩ := @Cells.copyWithin_of_le _ c.pixels c.visiblePixels
    ((paddingY + glyphAdvanceY) * c.framebuffer.stride)
    ((c.visibleHeight - paddingY) * c.framebuffer.stride) (paddingY * c.framebuffer.stride)
    (Nat.mul_le_mul_right _ (by omega)) (Nat.mul_le_mul_right _ (Nat.sub_le _ _))
    (Nat.mul_le_mul_right _ (by omega))
  refine ⟨pixels, hcopy, hbound, fun x y hx => ?_⟩
  -- the copied part ends with the line that came from above the lower padding
  have hlast : paddingY * c.framebuffer.stride + ((c.visibleHeight - paddingY) *
      c.framebuffer.stride - (paddingY + glyphAdvanceY) * c.framebuffer.stride) =
        (c.visibleHeight - glyphAdvanceY - paddingY) * c.framebuffer.stride := by
    rw [← Nat.sub_mul, ← Nat.add_mul]
    congr 1
    omega
  have hlines : (paddingY * c.framebuffer.stride ≤ y * c.framebuffer.stride + x ∧
      y * c.framebuffer.stride + x < (c.visibleHeight - glyphAdvanceY - paddingY) *
        c.framebuffer.stride) ↔
          paddingY ≤ y ∧ y + glyphAdvanceY + paddingY < c.visibleHeight := by
    rw [le_index hx, index_lt hx]
    omega
  rw [pixel, hget]
  dsimp only
  rw [hlast]
  by_cases hline : paddingY ≤ y ∧ y + glyphAdvanceY + paddingY < c.visibleHeight
  · rw [if_pos (hlines.mpr hline), if_pos hline, pixel]
    congr 1
    have hy : (y + glyphAdvanceY) * c.framebuffer.stride =
        y * c.framebuffer.stride + glyphAdvanceY * c.framebuffer.stride := Nat.add_mul _ _ _
    have hpad : (paddingY + glyphAdvanceY) * c.framebuffer.stride =
        paddingY * c.framebuffer.stride + glyphAdvanceY * c.framebuffer.stride := Nat.add_mul _ _ _
    have hle := (hlines.mpr hline).1
    omega
  · rw [if_neg fun h => hline (hlines.mp h), if_neg hline]
    rfl

/-- The lengths of the rows, one row up and an empty last one. -/
theorem shiftLengths (c : FramebufferConsole) (hrows : 1 ≤ c.rows)
    (hmax : c.rows ≤ maxTrackedRows) :
    ∃ rowLengths, (do
        let rowLengths ← c.rowLengths.copyWithin maxTrackedRows 1 c.rows 0
        rowLengths.write maxTrackedRows (c.rows - 1) 0) = some rowLengths ∧
      ∀ row, rowLengths.get row =
        if row + 1 < c.rows then c.rowLengths.get (row + 1)
        else if row + 1 = c.rows then 0 else c.rowLengths.get row := by
  obtain ⟨copied, hcopy, -, hget⟩ := @Cells.copyWithin_of_le _ c.rowLengths maxTrackedRows 1
    c.rows 0 hrows hmax (Nat.zero_le _)
  obtain ⟨rowLengths, hwrite, -, hlast⟩ :=
    @Cells.write_of_lt _ copied maxTrackedRows (c.rows - 1) 0 (by omega)
  refine ⟨rowLengths, by rw [hcopy]; exact hwrite, fun row => ?_⟩
  rw [hlast]
  -- the last row is written after the copy
  by_cases hrow : row + 1 = c.rows
  · rw [if_pos (by omega), if_neg (by omega), if_pos hrow]
  · rw [if_neg (by omega), if_neg hrow, hget]
    by_cases hlt : row + 1 < c.rows
    · rw [if_pos (by omega), if_pos hlt]
      congr 1
      omega
    · rw [if_neg (by omega), if_neg hlt]

theorem shift_scrolled (c : FramebufferConsole) (h : 42 < c.visibleHeight) (hrows : 1 ≤ c.rows)
    (hmax : c.rows ≤ maxTrackedRows) : ∃ c', c.scrollUp = some c' ∧ Scrolled c c' := by
  have hpadding : paddingY = 16 := rfl
  have hadvance : glyphAdvanceY = 10 := rfl
  have htop : min paddingY c.visibleHeight = paddingY := by omega
  obtain ⟨pixels, hcopy, hbound, hmoved⟩ := c.copyLines h
  obtain ⟨rowLengths, hshift, hlengths⟩ := c.shiftLengths hrows hmax
  obtain ⟨copied, hcopied, hwrite⟩ := Option.bind_eq_some_iff.mp hshift
  obtain ⟨c', hband, hpaints⟩ := @clearBand_paints
    { c with
      pixels, rowLengths,
      inputFloor := c.inputFloor.map fun floor => { floor with row := floor.row - 1 } }
    (c.visibleHeight - paddingY - glyphAdvanceY) _ (Nat.sub_le c.visibleHeight paddingY)
  refine ⟨c', ?_, ?_⟩
  · rw [scrollUp]
    dsimp only
    rw [htop, if_neg (by omega), if_neg (by omega), hcopy]
    dsimp only [Option.bind_eq_bind, Option.bind_some]
    rw [hcopied]
    dsimp only [Option.bind_some]
    rw [hwrite]
    exact hband
  · obtain ⟨pixels', rfl⟩ := hpaints.exists_pixels
    refine ⟨rfl, ?_, fun hstride x y hx htop hbottom => ?_, fun hstride x y hx hstart hend => ?_,
      hlengths⟩
    · have hbound' := hpaints.bound
      dsimp only [visiblePixels] at hbound hbound' ⊢
      omega
    · refine (hpaints.outside hstride x y hx (by omega)).trans ?_
      exact (hmoved x y (Nat.lt_of_lt_of_le hx hstride)).trans (if_pos ⟨htop, hbottom⟩)
    · exact hpaints.inside hstride x y hx (show y < c.visibleHeight by omega) (by omega)

/-- **The three regimes** of `scroll_up`, by the height of the screen. -/
theorem scrollUp_cases (c : FramebufferConsole) (hrows : 1 ≤ c.rows)
    (hmax : c.rows ≤ maxTrackedRows) :
    (c.visibleHeight ≤ 32 ∧ ∃ c', c.scrollUp = some c' ∧ Cleared c c') ∨
    (c.visibleHeight ≤ 42 ∧ ∃ c', c.scrollUp = some c' ∧
      Paints (fun _ y => paddingY ≤ y ∧ y < c.visibleHeight - paddingY) c.blank c c') ∨
    (42 < c.visibleHeight ∧ ∃ c', c.scrollUp = some c' ∧ Scrolled c c') := by
  have hpadding : paddingY = 16 := rfl
  have hadvance : glyphAdvanceY = 10 := rfl
  by_cases htall : 42 < c.visibleHeight
  · exact .inr (.inr ⟨htall, c.shift_scrolled htall hrows hmax⟩)
  rw [scrollUp]
  dsimp only
  by_cases hclear : c.visibleHeight - paddingY ≤ min paddingY c.visibleHeight
  · rw [if_pos hclear]
    exact .inl ⟨by omega, c.clear_cleared⟩
  · have htop : min paddingY c.visibleHeight = paddingY := by omega
    rw [if_neg hclear, htop, if_pos (by omega)]
    exact .inr (.inl ⟨by omega, c.clearBand_paints (Nat.sub_le _ _)⟩)

end FramebufferConsole

end Lazers.Framebuffer
