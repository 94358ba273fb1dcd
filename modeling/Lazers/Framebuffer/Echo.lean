import Lazers.Framebuffer.Grid
import Lazers.Framebuffer.Session
import Mathlib.Data.List.Induction

/-!
# Echo and erase

A line editor echoes the characters of a line and erases one with each `0x7f`. Here a text without
new lines and backspaces is written and then as many `0x7f` are: `echo_erase`.

On a page that never scrolls this is `Page.erase_put` once for each byte, with the difference that
what is left of a full line is the empty one after it (`Page.start`). The screen shows such a page
without the rows that have scrolled off (`Page.drop`), and the lengths of the rows that are left
are enough to erase on it, as long as nothing in front of them is erased.
-/

namespace Lazers.Framebuffer

namespace FramebufferConsole

variable {c c' c₁ c₂ : FramebufferConsole} {g g' : Grid} {p : Page UInt8} {n : Nat}

/-! ## Writing -/

/-- The text of the console is a page without its first `n` rows. -/
structure Shows (c : FramebufferConsole) (p : Page UInt8) (n : Nat) : Prop where
  valid : Valid c
  rows : 2 ≤ c.rows
  le : n ≤ p.row
  control : ∃ g, Control c g ∧ g.page = p.drop n

/-- **A byte on the page.** -/
theorem Shows.writeByte (h : Shows c p n) (byte : UInt8) (hrun : c.writeByte byte = some c') :
    Shows c' (p.write c.columns byte)
      (n + if c.cursorColumn ≥ c.columns ∧ c.cursorRow + 1 ≥ c.rows then 1 else 0) := by
  obtain ⟨hvalid, hrows, hle, g, hc, hpage⟩ := h
  obtain ⟨_, hsome, hvalid', hsame⟩ := writeByte_valid hvalid byte
  obtain rfl := Option.some.inj (hsome.symm.trans hrun)
  have hcolumn : c.cursorColumn = p.column := by rw [hc.column, hpage, Page.column_drop hle]
  -- the page after the wrap, and the rows that it has lost
  obtain ⟨hwrap, hrow⟩ : g.wrap.page = (p.start c.columns).drop
      (n + if c.cursorColumn ≥ c.columns ∧ c.cursorRow + 1 ≥ c.rows then 1 else 0) ∧
      (n + if c.cursorColumn ≥ c.columns ∧ c.cursorRow + 1 ≥ c.rows then 1 else 0) ≤
        (p.start c.columns).row := by
    rw [Grid.wrap, hc.columns, ← hc.column, Page.start, ← hcolumn]
    by_cases hfull : c.columns ≤ c.cursorColumn
    · rw [if_pos hfull, if_pos hfull]
      by_cases hlast : c.cursorRow + 1 ≥ c.rows
      · have hrow := hvalid.cursorRow
        rw [if_pos ⟨hfull, hlast⟩, hc.newLine_of_last (by omega)]
        refine ⟨?_, Nat.succ_le_succ hle⟩
        show g.page.newLine.drop 1 = _
        rw [hpage, Page.drop_newLine hle, Page.drop_drop]
      · rw [if_neg fun h => hlast h.2]
        refine ⟨?_, Nat.le_succ_of_le hle⟩
        rw [hc.newLine_of_next (by omega)]
        show g.page.newLine = _
        rw [hpage, Page.drop_newLine hle, Nat.add_zero]
    · rw [if_neg hfull, if_neg hfull, if_neg fun h => hfull h.1]
      exact ⟨hpage, hle⟩
  refine ⟨hvalid', by rw [hsame.rows]; exact hrows, hrow, _, hc.write hvalid hrows byte hrun, ?_⟩
  show g.wrap.page.put byte = _
  rw [hwrap, Page.drop_put hrow]
  rfl

/-- **Some text on the page.** -/
theorem Shows.writes (h : Shows c p n) (text : List UInt8) (hdrawn : ∀ byte ∈ text, Drawn byte) :
    ∃ c', c.writeTerminalBytes text = some c' ∧ Same c c' ∧
      Shows c' (p.writes c.columns text) (n + c.scrolls text) := by
  induction text generalizing c p n with
  | nil => exact ⟨c, rfl, Same.refl, h⟩
  | cons byte text ih =>
    have hbyte := hdrawn byte List.mem_cons_self
    obtain ⟨c₁, hstep, -, hsame⟩ := writeByte_valid h.valid byte
    have h₁ := h.writeByte byte hstep
    obtain ⟨c', hrun, hsame', h'⟩ := ih h₁ fun b hb => hdrawn b (List.mem_cons_of_mem _ hb)
    rw [← writeTerminalByte_of_drawn hbyte] at hstep
    refine ⟨c', (writeTerminalBytes_cons hstep).trans hrun, hsame.trans hsame', ?_⟩
    rw [scrolls_cons hstep, ← Nat.add_assoc]
    simp only [scrollsOn_of_drawn hbyte]
    rw [hsame.columns] at h'
    exact h'

/-- What was there before is kept, whatever the floor is. -/
theorem Beyond.writes {place : Nat} {c₀ : FramebufferConsole}
    (hplace : place ≤ c₀.rows * c₀.columns) (h : Beyond place n c₀ c) (text : List UInt8)
    (hdrawn : ∀ byte ∈ text, Drawn byte) (hrun : c.writeTerminalBytes text = some c') :
    Beyond place (n + c.scrolls text) c₀ c' := by
  induction text generalizing c n with
  | nil =>
    obtain rfl := Option.some.inj hrun
    exact h
  | cons byte text ih =>
    have hbyte := hdrawn byte List.mem_cons_self
    obtain ⟨c₁, hstep, -⟩ := writeByte_valid h.valid byte
    have h₁ := h.writeByte hplace hstep
    rw [← writeTerminalByte_of_drawn hbyte] at hstep
    rw [writeTerminalBytes_cons hstep] at hrun
    rw [scrolls_cons hstep, ← Nat.add_assoc]
    simp only [scrollsOn_of_drawn hbyte]
    exact ih h₁ (fun b hb => hdrawn b (List.mem_cons_of_mem _ hb)) hrun

/-! ## Erasing -/

/-- The page when some bytes are erased again: what was written last is there, or the cursor is
where it is written next. -/
inductive Behind (columns : Nat) (q : Page UInt8) : Page UInt8 → Prop where
  | put (byte : UInt8) : Behind columns q (q.put byte)
  | start (byte : UInt8) : Behind columns q ((q.put byte).start columns)

theorem Behind.spec {columns : Nat} {q : Page UInt8} (h : Behind columns q p) :
    p.last = some q.row ∧ p.erase = q ∧ (p.line q.row).length = q.column + 1 ∧ q.row ≤ p.row := by
  have hline : ∀ byte, ((q.put byte).line q.row).length = q.column + 1 := fun _ => Page.column_put
  cases h with
  | put byte => exact ⟨Page.last_put, Page.erase_put, hline byte, Nat.le_refl _⟩
  | start byte =>
    refine ⟨Page.last_start Page.last_put, ?_, ?_, Page.row_le_start (p := q.put byte)⟩
    · rw [Page.erase_start Page.last_put, Page.erase_put]
    · rw [Page.line_start]
      exact hline byte

/-- **One byte is erased.** -/
theorem Shows.backspace {q : Page UInt8} {floor : ConsoleCursor} (h : Shows c p n)
    (hbehind : Behind c.columns q p) (hn : n ≤ q.row) (hfloor : c.inputFloor = some floor)
    (htarget : ¬ ConsoleCursor.Before ⟨q.column, q.row - n⟩ floor) :
    ∃ c₁ c', c.writeTerminalByte 0x7f = some c' ∧ Same c c' ∧ Shows c' q n ∧
      c'.inputFloor = c.inputFloor ∧ c'.pixels = c₁.pixels ∧
      Draws q.column (q.row - n) (fun _ _ => False) c c₁ ∧ q.row - n < c.rows := by
  obtain ⟨hvalid, hrows, hle, g, hc, hpage⟩ := h
  obtain ⟨hlast, herase, hlength, hrow⟩ := hbehind.spec
  have hdropped : g.page.last = some (q.row - n) := by
    rw [hpage]
    exact Page.last_drop hlast hn
  have htext : (g.page.line (q.row - n)).length = q.column + 1 := by
    rw [hpage]
    show (p.line (q.row - n + n)).length = q.column + 1
    rw [Nat.sub_add_cancel hn]
    exact hlength
  have hsome : g.target = some ⟨q.column, q.row - n⟩ := by
    rw [Grid.target, hdropped, Option.map_some, htext, Nat.add_sub_cancel]
  have haccepts : Accepts c ⟨q.column, q.row - n⟩ :=
    (hc.accepts_iff hvalid).mpr ⟨hsome, floor, hc.floor.symm.trans hfloor, htarget⟩
  obtain ⟨c₁, rowLengths, hdraws, hget, hstep⟩ := backspace_accepts hvalid haccepts
  obtain ⟨_, c', hvalidStep, hvalid', hsame⟩ := backspace_valid hvalid
  cases Option.some.inj (hvalidStep.symm.trans hstep)
  obtain ⟨row, hrowLast, -, hg⟩ := hc.backspace_of_accepts hvalid haccepts
  obtain rfl := Option.some.inj (hdropped.symm.trans hrowLast)
  refine ⟨c₁, _, ?_, hsame, ⟨hvalid', by rw [hsame.rows]; exact hrows, hn, _,
    hc.backspace hvalid hstep, ?_⟩, ?_, rfl, hdraws, (haccepts.lt hvalid).2.1⟩
  · rw [writeTerminalByte, if_neg (by decide), if_pos rfl, hstep]
    rfl
  · rw [hg]
    show g.page.eraseAt (q.row - n) = q.drop n
    rw [← Page.erase_of_last hdropped, hpage, Page.drop_erase hlast hn, herase]
  · rw [hdraws.frame]

/-- The cell at a place that is counted in rows of `columns` cells, `n` scrolls later. -/
def InPlace (columns n place x y : Nat) : Prop :=
  InCell (place % columns) (place / columns - n) x y

theorem InPlace.placeOf {place row column x y : Nat} (hin : InPlace c.columns n place x y)
    (hcell : InCell column row x y) (hn : n ≤ place / c.columns) :
    c.placeOf n row column = place := by
  obtain ⟨rfl, rfl⟩ := hcell.inj hin
  rw [FramebufferConsole.placeOf, Nat.sub_add_cancel hn, Nat.div_add_mod']

theorem not_before_add {columns first k : Nat} {floor : ConsoleCursor}
    (h : ¬ ConsoleCursor.Before ⟨first % columns, first / columns - n⟩ floor)
    (hn : n ≤ first / columns) :
    ¬ ConsoleCursor.Before ⟨(first + k) % columns, (first + k) / columns - n⟩ floor := by
  have hrow : first / columns ≤ (first + k) / columns := Nat.div_le_div_right (Nat.le_add_right _ _)
  have hfirst := Nat.div_add_mod first columns
  have hlast := Nat.div_add_mod (first + k) columns
  rw [ConsoleCursor.Before] at h ⊢
  dsimp only at h ⊢
  by_cases heq : first / columns = (first + k) / columns
  · rw [← heq] at hlast ⊢
    omega
  · omega

/-- **The bytes of a text are erased**, the last one first. -/
theorem Shows.erases {q : Page UInt8} {columns : Nat} {floor : ConsoleCursor} (text : List UInt8)
    (hcolumn : p.column ≤ columns) (hpos : 0 < columns)
    (hn : n ≤ p.index columns / columns)
    (hfirst : ¬ ConsoleCursor.Before
      ⟨p.index columns % columns, p.index columns / columns - n⟩ floor)
    (hcolumns : c.columns = columns) (hfloor : c.inputFloor = some floor) (h : Shows c q n)
    (hq : q = (p.writes columns text).start columns ∨ text ≠ [] ∧ q = p.writes columns text) :
    ∃ c', c.writeTerminalBytes (List.replicate text.length 0x7f) = some c' ∧ Same c c' ∧
      Shows c' (p.start columns) n ∧
      (c.framebuffer.width ≤ c.framebuffer.stride → ∀ x y, x < c.framebuffer.width →
        ((∃ k < text.length, InPlace columns n (p.index columns + k) x y) →
          c'.pixel x y = c.blank) ∧
        ((∀ k < text.length, ¬ InPlace columns n (p.index columns + k) x y) →
          c'.pixel x y = c.pixel x y)) := by
  induction text using List.reverseRec generalizing c q with
  | nil =>
    obtain rfl | ⟨hne, -⟩ := hq
    · refine ⟨c, rfl, Same.refl, h, fun _ x y _ => ⟨?_, fun _ => rfl⟩⟩
      rintro ⟨k, hk, -⟩
      exact absurd hk (Nat.not_lt_zero k)
    · exact absurd rfl hne
  | append_singleton text byte ih =>
    -- the last byte is behind the page that the others leave
    obtain ⟨hwritten, hindex⟩ := Page.index_writes hcolumn hpos text
    have hrow : ((p.writes columns text).start columns).row =
        (p.index columns + text.length) / columns := by rw [Page.row_start hwritten hpos, hindex]
    have hlast : ((p.writes columns text).start columns).column =
        (p.index columns + text.length) % columns := by
      rw [Page.column_start hwritten hpos, hindex]
    have hbehind : Behind c.columns ((p.writes columns text).start columns) q := by
      rw [Page.writes_append] at hq
      rw [hcolumns]
      obtain rfl | ⟨-, rfl⟩ := hq
      · exact .start byte
      · exact .put byte
    have hle : n ≤ ((p.writes columns text).start columns).row := by
      rw [hrow]
      exact Nat.le_trans hn (Nat.div_le_div_right (Nat.le_add_right _ _))
    obtain ⟨c₁, c₂, hstep, hsame, h₂, hfloor₂, hpixels, hdraws, hvisible⟩ :=
      h.backspace hbehind hle hfloor (by rw [hrow, hlast]; exact not_before_add hfirst hn)
    obtain ⟨c', hrun, hsame', h', hrest⟩ :=
      ih (hsame.columns.trans hcolumns) (hfloor₂.trans hfloor) h₂ (.inl rfl)
    refine ⟨c', ?_, hsame.trans hsame', h', fun hstride x y hx => ?_⟩
    · rw [List.length_append, List.length_singleton, List.replicate_succ,
        writeTerminalBytes_cons hstep]
      exact hrun
    rw [hrow, hlast] at hdraws
    rw [hrow] at hvisible
    have hpixel : c₂.pixel x y = c₁.pixel x y := by
      rw [pixel, pixel, hpixels, hsame.framebuffer, (hdraws.valid h.valid).2.framebuffer]
    rw [hsame.framebuffer, hsame.blank] at hrest
    obtain ⟨hblank, hsame₂⟩ := hrest hstride x y hx
    have hcell : InPlace columns n (p.index columns + text.length) x y →
        c₂.pixel x y = c.blank := by
      intro hin
      rw [hpixel]
      exact hdraws.blank hstride x y hx (hin.visible h.valid h.rows hvisible) hin id
    constructor
    · rintro ⟨k, hk, hin⟩
      rw [List.length_append, List.length_singleton] at hk
      by_cases hearlier : ∃ k < text.length, InPlace columns n (p.index columns + k) x y
      · exact hblank hearlier
      · -- the cell that was erased first, and no other
        have hout : ∀ k < text.length, ¬ InPlace columns n (p.index columns + k) x y :=
          fun k hk hin => hearlier ⟨k, hk, hin⟩
        obtain hlt | rfl := Nat.lt_succ_iff_lt_or_eq.mp hk
        · exact absurd hin (hout k hlt)
        · rw [hsame₂ hout]
          exact hcell hin
    · intro hout
      rw [List.length_append, List.length_singleton] at hout
      rw [hsame₂ fun k hk => hout k (Nat.lt_succ_of_lt hk), hpixel]
      exact hdraws.outside hstride x y hx (hout text.length (Nat.lt_succ_self _))

/-! ## Echo and erase -/

theorem control_new (framebuffer : FramebufferInfo) (foreground background : UInt32)
    (memory : Nat → UInt32) :
    Control (new framebuffer foreground background memory)
      (Grid.empty (min (usableRows (visibleHeightPixels framebuffer)) maxTrackedRows)
        (usableColumns framebuffer.width)) :=
  ⟨rfl, rfl, rfl, rfl, fun _ _ => rfl, rfl⟩

/-- In any state with two rows or more, the console shows a page, and the cursor is on it. -/
theorem Control.shows (h : Valid c) (hrows : 2 ≤ c.rows) (hc : Control c g) : Shows c g.page 0 :=
  ⟨h, hrows, Nat.zero_le _, g, hc, Page.drop_zero.symm⟩

theorem Shows.placeOf (h : Shows c p n) :
    c.placeOf n c.cursorRow c.cursorColumn = p.index c.columns := by
  obtain ⟨-, -, hle, g, hc, hpage⟩ := h
  have hrow : c.cursorRow + n = p.row := by
    rw [hc.row, hpage]
    exact Nat.sub_add_cancel hle
  rw [FramebufferConsole.placeOf, hrow, hc.column, hpage, Page.column_drop hle, Page.index]

theorem Shows.cursor (h : Shows c p n) : c.cursor = ⟨p.column, p.row - n⟩ := by
  obtain ⟨-, -, hle, g, hc, hpage⟩ := h
  rw [FramebufferConsole.cursor, hc.row, hc.column, hpage, Page.column_drop hle]
  rfl

theorem Shows.column_le (h : Shows c p n) : p.column ≤ c.columns := by
  have hcursor := congrArg ConsoleCursor.column h.cursor
  dsimp only [FramebufferConsole.cursor] at hcursor
  rw [← hcursor]
  exact h.valid.cursorColumn

/-- **Any state** with two rows of text or more. -/
theorem run_shows (framebuffer : FramebufferInfo) (foreground background : UInt32)
    (memory : Nat → UInt32) (ops : List Op)
    (hrows : 2 ≤ usableRows (visibleHeightPixels framebuffer)) :
    ∃ c p, (new framebuffer foreground background memory).run ops = some c ∧
      Same (new framebuffer foreground background memory) c ∧ Shows c p 0 := by
  have h₀ := valid_new framebuffer foreground background memory
  have hrows₀ : 2 ≤ (new framebuffer foreground background memory).rows :=
    Nat.le_min.mpr ⟨hrows, by decide⟩
  obtain ⟨c, hrun, h, hsame⟩ := run_valid h₀ ops
  have hc := (control_new framebuffer foreground background memory).run h₀ hrows₀ ops hrun
  exact ⟨c, _, hrun, hsame, hc.shows h (by rw [hsame.rows]; exact hrows₀)⟩

/-- **Echo and erase cancel.** From any state with two rows of text or more, let a text without new
lines and backspaces be written, with `n` scrolls on the way: the `k`-th byte is at the place
`first + k`. If then the first of these cells is still on the screen and not before the floor of the
session, as many `0x7f` as there are bytes put the cursor on it. All cells of the text are blank
then, and those before it are what they were, `n` rows up. -/
theorem echo_erase (framebuffer : FramebufferInfo) (foreground background : UInt32)
    (memory : Nat → UInt32) (ops : List Op)
    (hrows : 2 ≤ usableRows (visibleHeightPixels framebuffer)) :
    ∃ c, (new framebuffer foreground background memory).run ops = some c ∧
      ∀ text : List UInt8, text ≠ [] → (∀ byte ∈ text, byte ≠ 10 ∧ byte ≠ 0x7f) →
      ∃ c₁, c.writeTerminalBytes text = some c₁ ∧
        let first := c.placeOf 0 c.cursorRow c.cursorColumn
        let n := c.scrolls text
        c₁.placeOf n c₁.cursorRow c₁.cursorColumn = first + text.length ∧
        ∀ floor, c₁.inputFloor = some floor → n ≤ first / c.columns →
          ¬ ConsoleCursor.Before ⟨first % c.columns, first / c.columns - n⟩ floor →
          ∃ c₂, c₁.writeTerminalBytes (List.replicate text.length 0x7f) = some c₂ ∧
            c₂.cursor = ⟨first % c.columns, first / c.columns - n⟩ ∧
            (framebuffer.width ≤ framebuffer.stride → ∀ x y, x < framebuffer.width →
              (∀ k < text.length, InPlace c.columns n (first + k) x y →
                c₂.pixel x y = c.encodeColor background) ∧
              (∀ row, ∀ column < c.columns, c.placeOf n row column < first →
                InCell column row x y → c₂.pixel x y = c.pixel x (y + n * glyphAdvanceY))) := by
  obtain ⟨c, p, hrun, hsame₀, hshows⟩ :=
    run_shows framebuffer foreground background memory ops hrows
  have h := hshows.valid
  refine ⟨c, hrun, fun text hne hdrawn => ?_⟩
  obtain ⟨c₁, hwrite, hsame₁, h₁⟩ := hshows.writes text hdrawn
  have hbeyond := (Beyond.start h).writes (placeOf_le h) text hdrawn hwrite
  rw [Nat.zero_add] at h₁ hbeyond
  have hpos : 0 < c.columns := h.columns_pos
  have hfirst := hshows.placeOf
  obtain ⟨-, hindex⟩ := Page.index_writes hshows.column_le hpos text
  have hplace₁ := h₁.placeOf
  rw [hsame₁.columns, hindex, ← hfirst] at hplace₁
  refine ⟨c₁, hwrite, hplace₁, fun floor hfloor hn hnotBefore => ?_⟩
  rw [hfirst] at hn hnotBefore
  obtain ⟨c₂, herase, hsame₂, h₂, hpixels⟩ := Shows.erases text hshows.column_le hpos hn hnotBefore
    hsame₁.columns hfloor h₁ (.inr ⟨hne, rfl⟩)
  refine ⟨c₂, herase, ?_, fun hstride x y hx => ?_⟩
  · rw [h₂.cursor, Page.row_start hshows.column_le hpos, Page.column_start hshows.column_le hpos,
      hfirst]
  rw [show framebuffer = c.framebuffer from hsame₀.framebuffer.symm] at hstride hx
  rw [hsame₁.framebuffer] at hpixels
  obtain ⟨hblank, hrest⟩ := hpixels hstride x y hx
  constructor
  · intro k hk hin
    rw [hfirst] at hin
    rw [hblank ⟨k, hk, hin⟩, hsame₁.blank, blank, hsame₀.background]
    rfl
  · intro row column hlt hbefore hcell
    -- the cells of the text are not before the first of them
    have hout : ∀ k < text.length,
        ¬ InPlace c.columns (c.scrolls text) (p.index c.columns + k) x y := by
      intro k _ hin
      have hle : c.scrolls text ≤ (p.index c.columns + k) / c.columns :=
        Nat.le_trans hn (Nat.div_le_div_right (Nat.le_add_right _ _))
      rw [hfirst, hin.placeOf hcell hle] at hbefore
      omega
    rw [hrest hout]
    exact hbeyond.pixel_eq hstride hlt hbefore hx hcell

/-- Two letters are written and erased on a screen with one column and two rows. -/
theorem echo_erase_at_small_screen :
    2 ≤ usableRows (visibleHeightPixels ⟨4096, 21 * 49 * 4, 21, 49, 21, .rgb⟩) ∧
      ∃ c c₁ c₂, (new ⟨4096, 21 * 49 * 4, 21, 49, 21, .rgb⟩ 0xf9fafb 0x111827 fun _ => 0).run
          [.clear, .beginTerminalSession] = some c ∧
        c.writeTerminalBytes [72, 73] = some c₁ ∧ c₁.cursor = ⟨1, 1⟩ ∧
        c₁.writeTerminalBytes [0x7f, 0x7f] = some c₂ ∧ c₂.cursor = ⟨0, 0⟩ := by
  have hrows : 2 ≤ usableRows (visibleHeightPixels ⟨4096, 21 * 49 * 4, 21, 49, 21, .rgb⟩) := by
    decide
  obtain ⟨c, hrun, htext⟩ := echo_erase ⟨4096, 21 * 49 * 4, 21, 49, 21, .rgb⟩ 0xf9fafb 0x111827
    (fun _ => 0) [.clear, .beginTerminalSession] hrows
  have hdrawn : ∀ byte ∈ ([72, 73] : List UInt8), byte ≠ 10 ∧ byte ≠ 0x7f := by
    intro byte hbyte
    rw [List.mem_cons, List.mem_singleton] at hbyte
    obtain rfl | rfl := hbyte
    · exact ⟨by decide, by decide⟩
    · exact ⟨by decide, by decide⟩
  obtain ⟨c₁, hwrite, -, herase⟩ := htext [72, 73] (by decide) hdrawn
  have hbefore : ((new ⟨4096, 21 * 49 * 4, 21, 49, 21, .rgb⟩ 0xf9fafb 0x111827 fun _ => 0).run
      [.clear, .beginTerminalSession]).map
        (fun c => (c.cursor, c.columns, c.scrolls [72, 73])) = some (⟨0, 0⟩, 1, 0) := by
    decide +kernel
  have hafter : ((new ⟨4096, 21 * 49 * 4, 21, 49, 21, .rgb⟩ 0xf9fafb 0x111827 fun _ => 0).run
      [.clear, .beginTerminalSession]).bind (fun c => (c.writeTerminalBytes [72, 73]).map
        fun c => (c.cursor, c.inputFloor)) = some (⟨1, 1⟩, some ⟨0, 0⟩) := by
    decide +kernel
  rw [hrun] at hbefore hafter
  have hafter : (c.writeTerminalBytes [72, 73]).map (fun c => (c.cursor, c.inputFloor)) =
      some (⟨1, 1⟩, some ⟨0, 0⟩) := hafter
  rw [hwrite] at hafter
  have hstate := Option.some.inj hbefore
  obtain ⟨hcursor, hcolumns, hscrolls⟩ : c.cursor = ⟨0, 0⟩ ∧ c.columns = 1 ∧
      c.scrolls [72, 73] = 0 :=
    ⟨congrArg (·.1) hstate, congrArg (·.2.1) hstate, congrArg (·.2.2) hstate⟩
  have hfirst : c.placeOf 0 c.cursorRow c.cursorColumn = 0 := by
    rw [FramebufferConsole.placeOf, show c.cursorRow = 0 from congrArg ConsoleCursor.row hcursor,
      show c.cursorColumn = 0 from congrArg ConsoleCursor.column hcursor, Nat.zero_add,
      Nat.zero_mul]
  rw [hfirst, hscrolls, hcolumns] at herase
  have hfloor : c₁.inputFloor = some ⟨0, 0⟩ := congrArg (·.2) (Option.some.inj hafter)
  obtain ⟨c₂, hrun₂, hcursor₂, -⟩ := herase ⟨0, 0⟩ hfloor (by decide) (by decide)
  exact ⟨hrows, c, c₁, c₂, hrun, hwrite, congrArg (·.1) (Option.some.inj hafter), hrun₂, hcursor₂⟩

end FramebufferConsole

end Lazers.Framebuffer
