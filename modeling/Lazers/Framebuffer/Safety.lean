import Lazers.Framebuffer.Rows

/-!
# Memory safety of the console

Each operation keeps `Valid` and does not panic, for a framebuffer of any width, height, stride and
size, also for one that is too small for a glyph. The three regimes of `scroll_up` leave the
console in different states, but in a valid one each.
-/

namespace Lazers.Framebuffer

namespace FramebufferConsole

variable {c c' c₁ c₂ : FramebufferConsole} {column row : Nat} {mask : Nat → Nat → Prop}

theorem Draws.exists_pixels (h : Draws column row mask c c') : ∃ pixels, c' = { c with pixels } :=
  ⟨_, h.frame⟩

theorem Draws.valid (h : Valid c) (hdraws : Draws column row mask c c') : Valid c' ∧ Same c c' := by
  have hbound := h.bound_le hdraws.bound
  obtain ⟨pixels, rfl⟩ := hdraws.exists_pixels
  exact ⟨⟨h.height, h.columns, h.rows, h.cursorRow, h.cursorColumn, h.lengths, hbound⟩,
    Same.refl.moved⟩

/-- The length of one row is set, and the cursor is somewhere on the screen. -/
theorem Valid.moved (h : Valid c) {cursorColumn cursorRow length row : Nat}
    {rowLengths : Cells Nat} (hcolumn : cursorColumn ≤ c.columns) (hrow : cursorRow < c.rows)
    (hlength : length ≤ c.columns)
    (hget : ∀ r, rowLengths.get r = if r = row then length else c.rowLengths.get r) :
    Valid { c with cursorColumn, cursorRow, rowLengths } := by
  refine ⟨h.height, h.columns, h.rows, hrow, hcolumn, fun r hr => ?_, h.bound⟩
  show rowLengths.get r ≤ c.columns
  rw [hget]
  by_cases heq : r = row
  · rw [if_pos heq]
    exact hlength
  · rw [if_neg heq]
    exact h.lengths r hr

theorem Accepts.lt (h : Valid c) {target : ConsoleCursor} (haccepts : Accepts c target) :
    target.Before c.cursor ∧ target.row < c.rows ∧ target.column < c.columns := by
  obtain ⟨_, hsome, hspec⟩ := previousCursorPosition_spec h
  obtain rfl := Option.some.inj (hsome.symm.trans haccepts.previous)
  obtain ⟨hbefore, hcolumn⟩ := hspec target rfl
  refine ⟨hbefore, ?_, hcolumn⟩
  obtain hlt | ⟨heq, -⟩ := hbefore
  · exact Nat.lt_trans hlt h.cursorRow
  · rw [heq]
    exact h.cursorRow

/-! ## One step -/

theorem writeByte_valid (h : Valid c) (byte : UInt8) :
    ∃ c', c.writeByte byte = some c' ∧ Valid c' ∧ Same c c' := by
  obtain ⟨c₁, c₂, rowLengths, hwrap, hdraws, hget, hrun⟩ := writeByte_spec h byte
  obtain ⟨c₀, hsome, h₁, hsame₁, hcolumn⟩ := wrap_valid h
  obtain rfl := Option.some.inj (hwrap.symm.trans hsome)
  refine ⟨_, hrun, ?_⟩
  obtain ⟨h₂, hsame₂⟩ := hdraws.valid h₁
  obtain ⟨pixels, rfl⟩ := hdraws.exists_pixels
  have hsame : Same c { c₁ with pixels } := hsame₁.trans hsame₂
  have hmax := h₁.rows_le
  have hrow := h₁.cursorRow
  have hlength := h₁.lengths c₁.cursorRow (by omega)
  have hset : ∀ r, rowLengths.get r = if r = c₁.cursorRow then
      max (c₁.rowLengths.get c₁.cursorRow) (c₁.cursorColumn + 1) else c₁.rowLengths.get r := by
    intro r
    rw [hget]
    by_cases heq : r = c₁.cursorRow
    · rw [if_pos heq, if_pos heq, heq]
    · rw [if_neg heq, if_neg heq]
  exact ⟨h₂.moved hcolumn hrow (Nat.max_le.mpr ⟨hlength, hcolumn⟩) hset, hsame.moved⟩

theorem backspace_valid (h : Valid c) :
    ∃ accepted c', c.backspaceFromSession = some (accepted, c') ∧ Valid c' ∧ Same c c' := by
  obtain hrun | ⟨target, c₁, rowLengths, haccepts, hdraws, hget, hrun⟩ := backspace_cases h
  · exact ⟨false, c, hrun, h, Same.refl⟩
  · obtain ⟨-, hrow, hcolumn⟩ := haccepts.lt h
    refine ⟨true, _, hrun, ?_⟩
    obtain ⟨h₁, hsame⟩ := hdraws.valid h
    obtain ⟨pixels, rfl⟩ := hdraws.exists_pixels
    exact ⟨h₁.moved (Nat.le_of_lt hcolumn) hrow (Nat.le_of_lt hcolumn) hget, hsame.moved⟩

theorem writeTerminalByte_valid (h : Valid c) (byte : UInt8) :
    ∃ c', c.writeTerminalByte byte = some c' ∧ Valid c' ∧ Same c c' := by
  rw [writeTerminalByte]
  by_cases hline : byte = 10
  · obtain ⟨c', hrun, hvalid, hsame, -⟩ := newLine_valid h
    exact ⟨c', (if_pos hline).trans hrun, hvalid, hsame⟩
  · rw [if_neg hline]
    by_cases herase : byte = 0x7f
    · obtain ⟨accepted, c', hrun, hvalid, hsame⟩ := backspace_valid h
      rw [if_pos herase, hrun]
      exact ⟨c', rfl, hvalid, hsame⟩
    · rw [if_neg herase]
      exact writeByte_valid h byte

theorem clear_valid (h : Valid c) : ∃ c', c.clear = some c' ∧ Valid c' ∧ Same c c' := by
  obtain ⟨c', hrun, hcleared⟩ := c.clear_cleared
  refine ⟨c', hrun, ?_, hcleared.same⟩
  have hbound := h.bound_le hcleared.bound
  have hzero := hcleared.lengths
  rw [hcleared.frame]
  refine ⟨h.height, h.columns, h.rows, h.rows_pos, Nat.zero_le _, fun row hrow => ?_, hbound⟩
  show c'.rowLengths.get row ≤ c.columns
  rw [hzero row hrow]
  exact Nat.zero_le _

theorem begin_valid (h : Valid c) : Valid c.beginTerminalSession ∧ Same c c.beginTerminalSession :=
  ⟨⟨h.height, h.columns, h.rows, h.cursorRow, h.cursorColumn, h.lengths, h.bound⟩,
    Same.refl.moved⟩

/-- **One operation keeps the invariant**, and does not panic. -/
theorem apply_valid (h : Valid c) (op : Op) :
    ∃ c', c.apply op = some c' ∧ Valid c' ∧ Same c c' := by
  cases op with
  | clear => exact clear_valid h
  | beginTerminalSession => exact ⟨_, rfl, begin_valid h⟩
  | writeTerminalByte byte => exact writeTerminalByte_valid h byte

/-! ## Any run -/

theorem run_valid (h : Valid c) (ops : List Op) :
    ∃ c', c.run ops = some c' ∧ Valid c' ∧ Same c c' := by
  induction ops generalizing c with
  | nil => exact ⟨c, rfl, h, Same.refl⟩
  | cons op ops ih =>
    obtain ⟨c₁, hstep, h₁, hsame₁⟩ := apply_valid h op
    obtain ⟨c', hrun, h', hsame⟩ := ih h₁
    refine ⟨c', ?_, h', hsame₁.trans hsame⟩
    rw [run, List.foldlM_cons, hstep]
    exact hrun

/-- **The console never leaves its memory.** For any framebuffer and any operations there is no
panic, the cursor and the lengths of the rows are in bounds, and no pixel at or beyond the end of
the framebuffer was written. -/
theorem console_memory_safe (framebuffer : FramebufferInfo) (foreground background : UInt32)
    (memory : Nat → UInt32) (ops : List Op) :
    ∃ c, (new framebuffer foreground background memory).run ops = some c ∧
      c.cursorRow < c.rows ∧ c.rows ≤ 512 ∧ c.cursorColumn ≤ c.columns ∧
      (∀ row < 512, c.rowLengths.get row ≤ c.columns) ∧
      c.pixels.bound ≤ framebuffer.size / 4 := by
  obtain ⟨c, hrun, hvalid, hsame⟩ :=
    run_valid (valid_new framebuffer foreground background memory) ops
  have hbound : c.pixels.bound ≤ c.framebuffer.size / 4 := hvalid.bound
  rw [hsame.framebuffer] at hbound
  exact ⟨c, hrun, hvalid.cursorRow, hvalid.rows_le, hvalid.cursorColumn, hvalid.lengths, hbound⟩

end FramebufferConsole

end Lazers.Framebuffer
