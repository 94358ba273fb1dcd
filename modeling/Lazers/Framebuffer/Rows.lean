import Lazers.Framebuffer.Painting

/-!
# Rows, cells and the cursor

`Valid` is what every operation of the console keeps, for a framebuffer of any width, height,
stride and size. Under it the functions of `console.rs` that work on rows are described one by one:
`newLine_cases` for the two ways to the next line, `writeByte_spec` for a byte that is drawn, and
`backspace_accepts` with `backspace_rejects` for one that erases. Everything else about the console
is derived from these, and no function is unfolded again.
-/

namespace Lazers.Framebuffer

namespace ConsoleCursor

/-- In the order of reading. -/
def Before (p q : ConsoleCursor) : Prop := p.row < q.row ∨ p.row = q.row ∧ p.column < q.column

instance (p q : ConsoleCursor) : Decidable (p.Before q) := inferInstanceAs (Decidable (_ ∨ _))

end ConsoleCursor

namespace FramebufferConsole

variable {c c' c₁ c₂ : FramebufferConsole} {row column x y : Nat}

/-! ## The invariant -/

/-- What holds of the console from `new` on. -/
structure Valid (c : FramebufferConsole) : Prop where
  height : c.visibleHeight = visibleHeightPixels c.framebuffer
  columns : c.columns = usableColumns c.framebuffer.width
  rows : c.rows = min (usableRows c.visibleHeight) maxTrackedRows
  cursorRow : c.cursorRow < c.rows
  cursorColumn : c.cursorColumn ≤ c.columns
  lengths : ∀ row < maxTrackedRows, c.rowLengths.get row ≤ c.columns
  bound : c.pixels.bound ≤ c.framebuffer.size / 4

theorem usableColumns_pos (width : Nat) : 1 ≤ usableColumns width := by
  rw [usableColumns]
  split
  · exact Nat.le_refl _
  · exact Nat.le_add_right _ _

theorem usableRows_pos (visibleHeight : Nat) : 1 ≤ usableRows visibleHeight := by
  rw [usableRows]
  split
  · exact Nat.le_refl _
  · exact Nat.le_add_right _ _

/-- The slice of `pixels_mut` is inside of the framebuffer. -/
theorem visibleHeightPixels_mul_le (framebuffer : FramebufferInfo) :
    visibleHeightPixels framebuffer * framebuffer.stride ≤ framebuffer.size / 4 := by
  rw [visibleHeightPixels]
  by_cases hstride : framebuffer.stride = 0
  · rw [hstride, Nat.mul_zero]
    exact Nat.zero_le _
  · rw [if_neg hstride]
    calc min framebuffer.height (framebuffer.size / 4 / framebuffer.stride) * framebuffer.stride
        ≤ framebuffer.size / 4 / framebuffer.stride * framebuffer.stride :=
          Nat.mul_le_mul_right _ (Nat.min_le_right _ _)
      _ ≤ framebuffer.size / 4 := Nat.div_mul_le_self _ _

theorem valid_new (framebuffer : FramebufferInfo) (foreground background : UInt32)
    (memory : Nat → UInt32) : Valid (new framebuffer foreground background memory) where
  height := rfl
  columns := rfl
  rows := rfl
  cursorRow := by
    have hpos := usableRows_pos (visibleHeightPixels framebuffer)
    show 0 < min (usableRows (visibleHeightPixels framebuffer)) 512
    omega
  cursorColumn := Nat.zero_le _
  lengths := fun _ _ => Nat.zero_le _
  bound := Nat.zero_le _

namespace Valid

theorem columns_pos (h : Valid c) : 1 ≤ c.columns := by
  rw [h.columns]
  exact usableColumns_pos _

theorem rows_pos (h : Valid c) : 1 ≤ c.rows := by
  have hrow := h.cursorRow
  omega

theorem rows_le (h : Valid c) : c.rows ≤ maxTrackedRows := by
  rw [h.rows]
  exact Nat.min_le_right _ _

theorem visiblePixels_le (h : Valid c) : c.visiblePixels ≤ c.framebuffer.size / 4 := by
  rw [visiblePixels, h.height]
  exact visibleHeightPixels_mul_le _

/-- What is drawn stays inside of the framebuffer. -/
theorem bound_le (h : Valid c) {bound : Nat} (hbound : bound ≤ max c.pixels.bound c.visiblePixels) :
    bound ≤ c.framebuffer.size / 4 := by
  have hpixels := h.bound
  have hslice := h.visiblePixels_le
  omega

theorem lineStart (h : Valid c) : Valid { c with cursorColumn := 0 } :=
  ⟨h.height, h.columns, h.rows, h.cursorRow, Nat.zero_le _, h.lengths, h.bound⟩

/-- With more than one row, there is room for the glyphs of every row above the lower padding. -/
theorem row_fits (h : Valid c) (hrows : 2 ≤ c.rows) (hrow : row < c.rows) :
    paddingY + row * glyphAdvanceY + glyphHeight + paddingY ≤ c.visibleHeight := by
  have hle : c.rows ≤ usableRows c.visibleHeight := by
    rw [h.rows]
    exact Nat.min_le_left _ _
  rw [usableRows] at hle
  by_cases hsmall : c.visibleHeight - paddingY * 2 < glyphHeight
  · rw [if_pos hsmall] at hle
    omega
  · rw [if_neg hsmall] at hle
    dsimp only [paddingY, glyphHeight, glyphAdvanceY] at hsmall hle ⊢
    omega

end Valid

/-! ## Cells of text -/

/-- The pixels of a cell of text, with the columns between it and the next. -/
def InCell (column row x y : Nat) : Prop :=
  (paddingX + column * glyphAdvanceX ≤ x ∧ x < paddingX + (column + 1) * glyphAdvanceX) ∧
    paddingY + row * glyphAdvanceY ≤ y ∧ y < paddingY + row * glyphAdvanceY + glyphHeight

theorem InCell.inj {column' row' : Nat} (h : InCell column row x y) (h' : InCell column' row' x y) :
    column = column' ∧ row = row' := by
  dsimp only [InCell, paddingX, paddingY, glyphAdvanceX, glyphAdvanceY, glyphWidth, glyphHeight]
    at h h'
  omega

/-- With more than one row, all of a cell is on the screen from top to bottom. -/
theorem InCell.visible (h : Valid c) (hrows : 2 ≤ c.rows) (hrow : row < c.rows)
    (hcell : InCell column row x y) : y < c.visibleHeight := by
  have hfits := h.row_fits hrows hrow
  have hend := hcell.2.2
  omega

theorem inCell_iff : InCell column row x y ↔ ∃ j < glyphHeight, ∃ i < glyphAdvanceX,
    x = paddingX + column * glyphAdvanceX + i ∧ y = paddingY + row * glyphAdvanceY + j := by
  rw [InCell, Nat.succ_mul]
  constructor
  · rintro ⟨⟨hx, hx'⟩, hy, hy'⟩
    exact ⟨y - (paddingY + row * glyphAdvanceY), by omega,
      x - (paddingX + column * glyphAdvanceX), by omega, by omega, by omega⟩
  · rintro ⟨j, hj, i, hi, rfl, rfl⟩
    omega

theorem InCell.next (hcell : InCell column row x y) :
    InCell column (row + 1) x (y + glyphAdvanceY) := by
  obtain ⟨hx, hy, hy'⟩ := hcell
  have hrow : (row + 1) * glyphAdvanceY = row * glyphAdvanceY + glyphAdvanceY := Nat.succ_mul _ _
  exact ⟨hx, by omega, by omega⟩

/-- The color of the foreground, as a pixel. -/
def ink (c : FramebufferConsole) : UInt32 := c.encodeColor c.foreground

/-- **One cell is drawn again**, in ink where `mask` has it, and nothing else changes. -/
structure Draws (column row : Nat) (mask : Nat → Nat → Prop) (c c' : FramebufferConsole) :
    Prop where
  frame : c' = { c with pixels := c'.pixels }
  bound : c'.pixels.bound ≤ max c.pixels.bound c.visiblePixels
  inked : c.framebuffer.width ≤ c.framebuffer.stride → ∀ x y, x < c.framebuffer.width →
    y < c.visibleHeight → mask x y → c'.pixel x y = c.ink
  blank : c.framebuffer.width ≤ c.framebuffer.stride → ∀ x y, x < c.framebuffer.width →
    y < c.visibleHeight → InCell column row x y → ¬ mask x y → c'.pixel x y = c.blank
  outside : c.framebuffer.width ≤ c.framebuffer.stride → ∀ x y, x < c.framebuffer.width →
    ¬ InCell column row x y → c'.pixel x y = c.pixel x y

/-- The pixels of a glyph. -/
def Inked (column row : Nat) (glyph : Glyph) (x y : Nat) : Prop :=
  ∃ j < glyphHeight, ∃ i < glyphWidth, glyphBit glyph i j = true ∧
    x = paddingX + column * glyphAdvanceX + i ∧ y = paddingY + row * glyphAdvanceY + j

theorem Inked.inCell {glyph : Glyph} (h : Inked column row glyph x y) : InCell column row x y := by
  obtain ⟨j, hj, i, hi, -, hx, hy⟩ := h
  exact inCell_iff.mpr ⟨j, hj, i, Nat.lt_of_lt_of_le hi (by decide), hx, hy⟩

/-- `clear_glyph_area` and then `draw_glyph`. -/
theorem drawCell (c : FramebufferConsole) (column row : Nat) (glyph : Glyph) :
    ∃ c₁ c', c.clearGlyphArea (paddingX + column * glyphAdvanceX) (paddingY + row * glyphAdvanceY) =
        some c₁ ∧
      c₁.drawGlyph (paddingX + column * glyphAdvanceX) (paddingY + row * glyphAdvanceY) glyph =
        some c' ∧
      Draws column row (Inked column row glyph) c c' := by
  obtain ⟨c₁, hclear, hblank⟩ := c.paint_paints (paddingX + column * glyphAdvanceX)
    (paddingY + row * glyphAdvanceY) glyphAdvanceX glyphHeight (fun _ _ => true) c.blank
  obtain ⟨c', hdraw, hink⟩ := c₁.paint_paints (paddingX + column * glyphAdvanceX)
    (paddingY + row * glyphAdvanceY) glyphWidth glyphHeight (glyphBit glyph)
    (c₁.encodeColor c₁.foreground)
  refine ⟨c₁, c', hclear, hdraw, ?_⟩
  have hblank := hblank.congr fun x y =>
    (show _ ↔ InCell column row x y by simp only [inCell_iff, true_and])
  obtain ⟨pixels, rfl⟩ := hblank.exists_pixels
  refine ⟨hink.frame, ?_, fun hstride x y hx hy h => hink.inside hstride x y hx hy h,
    fun hstride x y hx hy hcell h => ?_, fun hstride x y hx hcell => ?_⟩
  · have h₁ := hblank.bound
    have h₂ := hink.bound
    dsimp only [visiblePixels] at h₁ h₂ ⊢
    omega
  · -- the glyph is drawn over the blank cell
    rw [hink.outside hstride x y hx h]
    exact hblank.inside hstride x y hx hy hcell
  · rw [hink.outside hstride x y hx fun h => hcell (Inked.inCell h)]
    exact hblank.outside hstride x y hx hcell

/-- `clear_cell`. -/
theorem clearCell_draws (c : FramebufferConsole) (column row : Nat) :
    ∃ c', c.clearCell column row = some c' ∧ Draws column row (fun _ _ => False) c c' := by
  obtain ⟨c', hclear, hblank⟩ := c.paint_paints (paddingX + column * glyphAdvanceX)
    (paddingY + row * glyphAdvanceY) glyphAdvanceX glyphHeight (fun _ _ => true) c.blank
  have hblank := hblank.congr fun x y =>
    (show _ ↔ InCell column row x y by simp only [inCell_iff, true_and])
  exact ⟨c', hclear, hblank.frame, hblank.bound, fun _ _ _ _ _ h => h.elim,
    fun hstride x y hx hy hcell _ => hblank.inside hstride x y hx hy hcell, hblank.outside⟩

/-! ## Lines -/

/-- What no operation changes. -/
structure Same (c c' : FramebufferConsole) : Prop where
  framebuffer : c'.framebuffer = c.framebuffer
  foreground : c'.foreground = c.foreground
  background : c'.background = c.background
  visibleHeight : c'.visibleHeight = c.visibleHeight
  columns : c'.columns = c.columns
  rows : c'.rows = c.rows

namespace Same

theorem refl : Same c c := ⟨rfl, rfl, rfl, rfl, rfl, rfl⟩

theorem trans (h₁ : Same c c₁) (h₂ : Same c₁ c₂) : Same c c₂ where
  framebuffer := h₂.framebuffer.trans h₁.framebuffer
  foreground := h₂.foreground.trans h₁.foreground
  background := h₂.background.trans h₁.background
  visibleHeight := h₂.visibleHeight.trans h₁.visibleHeight
  columns := h₂.columns.trans h₁.columns
  rows := h₂.rows.trans h₁.rows

/-- The cursor, the rows and the pixels are not part of it. -/
theorem moved (h : Same c c') {cursorColumn cursorRow : Nat} {rowLengths : Cells Nat}
    {inputFloor : Option ConsoleCursor} {pixels : Cells UInt32} :
    Same c { c' with cursorColumn, cursorRow, rowLengths, inputFloor, pixels } :=
  ⟨h.framebuffer, h.foreground, h.background, h.visibleHeight, h.columns, h.rows⟩

theorem encodeColor (h : Same c c') (rgb : UInt32) : c'.encodeColor rgb = c.encodeColor rgb := by
  rw [FramebufferConsole.encodeColor, FramebufferConsole.encodeColor, h.framebuffer]

theorem blank (h : Same c c') : c'.blank = c.blank := by
  rw [FramebufferConsole.blank, FramebufferConsole.blank, h.encodeColor, h.background]

theorem ink (h : Same c c') : c'.ink = c.ink := by
  rw [FramebufferConsole.ink, FramebufferConsole.ink, h.encodeColor, h.foreground]

end Same

/-- **The three regimes** of `scroll_up`. -/
inductive ScrollsUp (c c' : FramebufferConsole) : Prop where
  | cleared (height : c.visibleHeight ≤ 32) (cleared : Cleared c c')
  | banded (height : c.visibleHeight ≤ 42)
      (paints : Paints (fun _ y => paddingY ≤ y ∧ y < c.visibleHeight - paddingY) c.blank c c')
  | shifted (height : 42 < c.visibleHeight) (scrolled : Scrolled c c')

theorem Cleared.same (h : Cleared c c') : Same c c' := by
  rw [h.frame]
  exact Same.refl.moved

theorem Scrolled.same (h : Scrolled c c') : Same c c' := by
  rw [h.frame]
  exact Same.refl.moved

theorem ScrollsUp.same (h : ScrollsUp c c') : Same c c' := by
  cases h with
  | cleared _ hcleared => exact hcleared.same
  | banded _ hpaints =>
    rw [hpaints.frame]
    exact Same.refl.moved
  | shifted _ hscrolled => exact hscrolled.same

theorem scrollUp_spec (hrows : 1 ≤ c.rows) (hmax : c.rows ≤ maxTrackedRows) :
    ∃ c', c.scrollUp = some c' ∧ ScrollsUp c c' := by
  obtain ⟨hheight, c', hrun, hcleared⟩ | ⟨hheight, c', hrun, hpaints⟩ |
    ⟨hheight, c', hrun, hscrolled⟩ := c.scrollUp_cases hrows hmax
  · exact ⟨c', hrun, .cleared hheight hcleared⟩
  · exact ⟨c', hrun, .banded hheight hpaints⟩
  · exact ⟨c', hrun, .shifted hheight hscrolled⟩

/-- **The two ways to the next line.** -/
theorem newLine_cases (h : Valid c) :
    (c.cursorRow + 1 < c.rows ∧
      c.newLine = some { c with cursorColumn := 0, cursorRow := c.cursorRow + 1 }) ∨
    (c.cursorRow + 1 = c.rows ∧ ∃ c₁, ScrollsUp { c with cursorColumn := 0 } c₁ ∧
      c.newLine = some { c₁ with cursorRow := c₁.rows - 1 }) := by
  rw [newLine]
  dsimp only
  have hrow := h.cursorRow
  by_cases hlast : c.cursorRow + 1 ≥ c.rows
  · rw [if_pos hlast]
    obtain ⟨c₁, hrun, hscrolls⟩ :=
      @scrollUp_spec { c with cursorColumn := 0 } h.rows_pos h.rows_le
    rw [hrun]
    exact .inr ⟨by omega, c₁, hscrolls, rfl⟩
  · rw [if_neg hlast]
    exact .inl ⟨by omega, rfl⟩

theorem ScrollsUp.column_eq_zero (h : ScrollsUp { c with cursorColumn := 0 } c₁) :
    c₁.cursorColumn = 0 := by
  cases h with
  | cleared _ hcleared => rw [hcleared.frame]
  | banded _ hpaints => rw [hpaints.frame]
  | shifted _ hscrolled => rw [hscrolled.frame]

/-- All three regimes leave a valid console. -/
theorem ScrollsUp.valid (h : Valid c) (hscrolls : ScrollsUp { c with cursorColumn := 0 } c₁) :
    Valid { c₁ with cursorRow := c₁.rows - 1 } := by
  have hlast : c.rows - 1 < c.rows := Nat.sub_lt h.rows_pos Nat.one_pos
  cases hscrolls with
  | cleared _ hcleared =>
    have hbound := h.bound_le hcleared.bound
    have hzero := hcleared.lengths
    rw [hcleared.frame]
    refine ⟨h.height, h.columns, h.rows, hlast, Nat.zero_le _, fun row hrow => ?_, hbound⟩
    show c₁.rowLengths.get row ≤ c.columns
    rw [hzero row hrow]
    exact Nat.zero_le _
  | banded _ hpaints =>
    have hbound := h.bound_le hpaints.bound
    rw [hpaints.frame]
    exact ⟨h.height, h.columns, h.rows, hlast, Nat.zero_le _, h.lengths, hbound⟩
  | shifted _ hscrolled =>
    have hbound := h.bound_le hscrolled.bound
    have hlengths := hscrolled.lengths
    rw [hscrolled.frame]
    refine ⟨h.height, h.columns, h.rows, hlast, Nat.zero_le _, fun row hrow => ?_, hbound⟩
    have hmax := h.rows_le
    show c₁.rowLengths.get row ≤ c.columns
    rw [hlengths]
    dsimp only
    by_cases hnext : row + 1 < c.rows
    · rw [if_pos hnext]
      exact h.lengths _ (by omega)
    · rw [if_neg hnext]
      by_cases hrows : row + 1 = c.rows
      · rw [if_pos hrows]
        exact Nat.zero_le _
      · rw [if_neg hrows]
        exact h.lengths row hrow

theorem newLine_valid (h : Valid c) :
    ∃ c', c.newLine = some c' ∧ Valid c' ∧ Same c c' ∧ c'.cursorColumn = 0 := by
  obtain ⟨hrow, hrun⟩ | ⟨-, c₁, hscrolls, hrun⟩ := newLine_cases h
  · exact ⟨_, hrun, ⟨h.height, h.columns, h.rows, hrow, Nat.zero_le _, h.lengths, h.bound⟩,
      Same.refl.moved, rfl⟩
  · have hsame : Same c c₁ := Same.refl.moved.trans hscrolls.same
    exact ⟨_, hrun, hscrolls.valid h, hsame.moved, hscrolls.column_eq_zero⟩

/-! ## Bytes that are drawn -/

/-- Where the next byte is drawn: on the next line, if this one is full. -/
def wrap (c : FramebufferConsole) : Option FramebufferConsole :=
  if c.cursorColumn ≥ c.columns then c.newLine else some c

theorem wrap_valid (h : Valid c) :
    ∃ c', c.wrap = some c' ∧ Valid c' ∧ Same c c' ∧ c'.cursorColumn < c'.columns := by
  rw [wrap]
  by_cases hfull : c.cursorColumn ≥ c.columns
  · obtain ⟨c', hrun, hvalid, hsame, hcolumn⟩ := newLine_valid h
    have hpos := hvalid.columns_pos
    exact ⟨c', (if_pos hfull).trans hrun, hvalid, hsame, by omega⟩
  · exact ⟨c, if_neg hfull, h, Same.refl, by omega⟩

/-- **A byte that is drawn**, at the cursor of the console after the wrap. -/
theorem writeByte_spec (h : Valid c) (byte : UInt8) :
    ∃ c₁ c₂ rowLengths, c.wrap = some c₁ ∧
      Draws c₁.cursorColumn c₁.cursorRow
        (Inked c₁.cursorColumn c₁.cursorRow (glyphFor byte)) c₁ c₂ ∧
      (∀ row, rowLengths.get row = if row = c₁.cursorRow then
        max (c₁.rowLengths.get row) (c₁.cursorColumn + 1) else c₁.rowLengths.get row) ∧
      c.writeByte byte = some { c₂ with cursorColumn := c₁.cursorColumn + 1, rowLengths } := by
  obtain ⟨c₁, hwrap, h₁, -, -⟩ := wrap_valid h
  obtain ⟨c₀, c₂, hclear, hdraw, hdraws⟩ :=
    c₁.drawCell c₁.cursorColumn c₁.cursorRow (glyphFor byte)
  have hrow : c₁.cursorRow < maxTrackedRows := Nat.lt_of_lt_of_le h₁.cursorRow h₁.rows_le
  obtain ⟨rowLengths, hwrite, -, hget⟩ := @Cells.write_of_lt _ c₁.rowLengths maxTrackedRows
    c₁.cursorRow (max (c₁.rowLengths.get c₁.cursorRow) (c₁.cursorColumn + 1)) hrow
  refine ⟨c₁, c₂, rowLengths, hwrap, hdraws, fun row => ?_, ?_⟩
  · rw [hget]
    by_cases heq : row = c₁.cursorRow
    · rw [if_pos heq, if_pos heq, heq]
    · rw [if_neg heq, if_neg heq]
  · rw [wrap] at hwrap
    rw [writeByte]
    by_cases hfull : c.cursorColumn ≥ c.columns
    all_goals
      -- both ways go on from `c₁`
      first
      | rw [if_pos hfull] at hwrap ⊢
      | rw [if_neg hfull] at hwrap ⊢
      rw [hwrap]
      dsimp only [Option.bind_eq_bind, Option.bind_some]
      rw [hclear]
      dsimp only [Option.bind_some]
      rw [hdraw]
      dsimp only [Option.bind_some]
      rw [hdraws.frame]
      dsimp only
      rw [Cells.read_of_lt hrow]
      dsimp only [Option.bind_some]
      rw [hwrite]
      rfl

/-! ## Bytes that erase -/

theorem lastWrittenAbove_spec (c : FramebufferConsole) (hrow : row ≤ maxTrackedRows) :
    ∃ target, c.lastWrittenAbove row = some target ∧
      ∀ t, target = some t → t.row < row ∧ c.rowLengths.get t.row = t.column + 1 := by
  induction row with
  | zero => exact ⟨none, rfl, fun t ht => by cases ht⟩
  | succ row ih =>
    rw [lastWrittenAbove, Cells.read_of_lt (by omega)]
    dsimp only [Option.bind_eq_bind, Option.bind_some]
    by_cases hlength : c.rowLengths.get row > 0
    · rw [if_pos hlength]
      refine ⟨_, rfl, fun t ht => ?_⟩
      cases ht
      exact ⟨Nat.lt_succ_self _, (Nat.sub_add_cancel hlength).symm⟩
    · rw [if_neg hlength]
      obtain ⟨target, hrun, htarget⟩ := ih (by omega)
      exact ⟨target, hrun, fun t ht => ⟨Nat.lt_succ_of_lt (htarget t ht).1, (htarget t ht).2⟩⟩

/-- The cell that a backspace would erase is in front of the cursor. -/
theorem previousCursorPosition_spec (h : Valid c) :
    ∃ target, c.previousCursorPosition = some target ∧
      ∀ t, target = some t → t.Before c.cursor ∧ t.column < c.columns := by
  have hmax := h.rows_le
  have hrow := h.cursorRow
  have hcolumn := h.cursorColumn
  rw [previousCursorPosition]
  by_cases hcursor : c.cursorColumn > 0
  · rw [if_pos hcursor]
    refine ⟨_, rfl, fun t ht => ?_⟩
    cases ht
    have hlt : c.cursorColumn - 1 < c.cursorColumn := Nat.sub_lt hcursor Nat.one_pos
    exact ⟨.inr ⟨rfl, hlt⟩, Nat.lt_of_lt_of_le hlt hcolumn⟩
  · rw [if_neg hcursor]
    obtain ⟨target, hrun, htarget⟩ :=
      c.lastWrittenAbove_spec (show c.cursorRow ≤ maxTrackedRows by omega)
    refine ⟨target, hrun, fun t ht => ?_⟩
    obtain ⟨hlt, hlength⟩ := htarget t ht
    have hle := h.lengths t.row (by omega)
    exact ⟨.inl hlt, by omega⟩

/-- The byte erases `target`, which is not before the floor of the session. -/
structure Accepts (c : FramebufferConsole) (target : ConsoleCursor) : Prop where
  previous : c.previousCursorPosition = some (some target)
  floor : ∃ floor, c.inputFloor = some floor ∧ ¬ target.Before floor

/-- **A backspace that is accepted.** -/
theorem backspace_accepts (h : Valid c) {target : ConsoleCursor} (haccepts : Accepts c target) :
    ∃ c₁ rowLengths, Draws target.column target.row (fun _ _ => False) c c₁ ∧
      (∀ row, rowLengths.get row = if row = target.row then target.column
        else c.rowLengths.get row) ∧
      c.backspaceFromSession = some (true, { c₁ with
        cursorColumn := target.column, cursorRow := target.row, rowLengths }) := by
  obtain ⟨hprevious, floor, hfloor, hnotBefore⟩ := haccepts
  obtain ⟨_, hsome, hspec⟩ := previousCursorPosition_spec h
  obtain rfl := Option.some.inj (hsome.symm.trans hprevious)
  have hbefore := (hspec target rfl).1
  have hmax := h.rows_le
  have hrow := h.cursorRow
  -- the write to `row_lengths` is in bounds
  have htarget : target.row < maxTrackedRows := by
    obtain hlt | ⟨heq, -⟩ := hbefore
    · exact Nat.lt_of_lt_of_le (Nat.lt_trans hlt hrow) hmax
    · rw [heq]
      exact Nat.lt_of_lt_of_le hrow hmax
  obtain ⟨c₁, hclear, hdraws⟩ := c.clearCell_draws target.column target.row
  obtain ⟨rowLengths, hwrite, -, hget⟩ :=
    @Cells.write_of_lt _ c.rowLengths maxTrackedRows target.row target.column htarget
  refine ⟨c₁, rowLengths, hdraws, hget, ?_⟩
  have hcursor : ¬ (c.cursor.row = floor.row ∧ c.cursor.column = floor.column) := by
    -- at the floor itself the target would be before it
    rintro ⟨hrow, hcolumn⟩
    rw [ConsoleCursor.Before, hrow, hcolumn] at hbefore
    exact hnotBefore hbefore
  rw [backspaceFromSession, hfloor]
  dsimp only
  rw [if_neg hcursor, hprevious]
  dsimp only [Option.bind_eq_bind, Option.bind_some]
  rw [if_neg (show ¬ (_ ∨ _) from hnotBefore), hclear]
  dsimp only [Option.bind_some]
  rw [hdraws.frame]
  dsimp only
  rw [hwrite]
  rfl

/-- **A backspace that is rejected** changes nothing. -/
theorem backspace_rejects (h : Valid c) (hrejects : ∀ target, ¬ Accepts c target) :
    c.backspaceFromSession = some (false, c) := by
  obtain ⟨previous, hprevious, -⟩ := previousCursorPosition_spec h
  rw [backspaceFromSession]
  cases hfloor : c.inputFloor with
  | none => rfl
  | some floor =>
    dsimp only
    by_cases hcursor : c.cursor.row = floor.row ∧ c.cursor.column = floor.column
    · rw [if_pos hcursor]
    · rw [if_neg hcursor, hprevious]
      cases previous with
      | none => rfl
      | some target =>
        dsimp only [Option.bind_eq_bind, Option.bind_some]
        have hbefore : target.Before floor := by
          by_contra hnot
          exact hrejects target ⟨hprevious, floor, hfloor, hnot⟩
        exact if_pos hbefore

theorem backspace_cases (h : Valid c) :
    c.backspaceFromSession = some (false, c) ∨
    ∃ target c₁ rowLengths, Accepts c target ∧
      Draws target.column target.row (fun _ _ => False) c c₁ ∧
      (∀ row, rowLengths.get row = if row = target.row then target.column
        else c.rowLengths.get row) ∧
      c.backspaceFromSession = some (true, { c₁ with
        cursorColumn := target.column, cursorRow := target.row, rowLengths }) := by
  by_cases haccepts : ∃ target, Accepts c target
  · obtain ⟨target, haccepts⟩ := haccepts
    obtain ⟨c₁, rowLengths, hrest⟩ := backspace_accepts h haccepts
    exact .inr ⟨target, c₁, rowLengths, haccepts, hrest⟩
  · exact .inl (backspace_rejects h fun target ht => haccepts ⟨target, ht⟩)

/-! ## Bytes -/

/-- **The three kinds of bytes.** -/
theorem writeTerminalByte_cases {byte : UInt8} (hrun : c.writeTerminalByte byte = some c') :
    (byte = 10 ∧ c.newLine = some c') ∨
    (byte = 0x7f ∧ ∃ accepted, c.backspaceFromSession = some (accepted, c')) ∨
    ((byte ≠ 10 ∧ byte ≠ 0x7f) ∧ c.writeByte byte = some c') := by
  rw [writeTerminalByte] at hrun
  by_cases hline : byte = 10
  · rw [if_pos hline] at hrun
    exact .inl ⟨hline, hrun⟩
  · rw [if_neg hline] at hrun
    by_cases herase : byte = 0x7f
    · rw [if_pos herase] at hrun
      obtain ⟨⟨accepted, c₁⟩, hstep, hpure⟩ := Option.bind_eq_some_iff.mp hrun
      obtain rfl := Option.some.inj hpure
      exact .inr (.inl ⟨herase, accepted, hstep⟩)
    · rw [if_neg herase] at hrun
      exact .inr (.inr ⟨⟨hline, herase⟩, hrun⟩)

end FramebufferConsole

end Lazers.Framebuffer
