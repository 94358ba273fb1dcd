import Lazers.Framebuffer.Echo
import Lazers.Framebuffer.Rendering
import Lazers.Lash.Repl

/-!
# The line on the screen (`lash/src/repl.rs`, `kernel/framebuffer.rs`)

The shell keeps the length of its line and the console the lengths of its rows, and each erases with
a `0x7f` what it takes for the last byte. Here the console is where the shell writes to.

The reference is the page of the text on the screen: behind some keys it is the old page with the
edited line written to it, or the place where more of it is written, without the rows that are gone
(`Edited`). How many rows are gone depends on the longest that the line has been (`scrolledOff`).

`screen_shows_line`: as long as the first cell of the line is on the screen and not before the floor
of the session, the screen shows the old text and then the line that is in the buffer.
-/

namespace Lazers.Lash

open Framebuffer FramebufferConsole

/-! ## The edited page -/

/-- The longest that the line is. -/
def longest : (line keys : List UInt8) → Nat
  | line, [] => line.length
  | line, key :: keys => max line.length (longest (editByte line key) keys)

/-- The rows that scroll off when the cell of place `first + longest - 1` is written. -/
def scrolledOff (rows columns first longest : Nat) : Nat :=
  (first + longest - 1) / columns + 1 - rows

/-- **A line behind the old text**, with `n` rows gone. -/
structure Edited (old : Grid) (floor : ConsoleCursor) (line : List UInt8) (n : Nat) (g : Grid) :
    Prop where
  rows : g.rows = old.rows
  columns : g.columns = old.columns
  floor : g.floor = some ⟨floor.column, floor.row - n⟩
  page : ∃ q, (q = old.page.writes old.columns line ∨
    q = (old.page.writes old.columns line).start old.columns) ∧
    n ≤ q.row ∧ q.row < n + old.rows ∧ g.page = q.drop n

/-- The cell is on the screen and in the session, `n` rows later. -/
structure InSession (columns first n : Nat) (floor : ConsoleCursor) : Prop where
  visible : n ≤ first / columns
  floor : ¬ ConsoleCursor.Before ⟨first % columns, first / columns - n⟩
    ⟨floor.column, floor.row - n⟩

section Keys

variable {old g : Grid} {floor : ConsoleCursor} {line : List UInt8} {rows columns first n k : Nat}

theorem length_le_longest (line keys : List UInt8) : line.length ≤ longest line keys := by
  cases keys with
  | nil => exact Nat.le_refl _
  | cons key keys => exact Nat.le_max_left _ _

theorem scrolledOff_mono {l : Nat} (h : k ≤ l) :
    scrolledOff rows columns first k ≤ scrolledOff rows columns first l := by
  have hdiv : (first + k - 1) / columns ≤ (first + l - 1) / columns :=
    Nat.div_le_div_right (by omega)
  rw [scrolledOff, scrolledOff]
  omega

theorem scrolledOff_max (l : Nat) : scrolledOff rows columns first (max k l) =
    max (scrolledOff rows columns first k) (scrolledOff rows columns first l) := by
  obtain hle | hle := Nat.le_total k l
  · rw [Nat.max_eq_right hle, Nat.max_eq_right (scrolledOff_mono hle)]
  · rw [Nat.max_eq_left hle, Nat.max_eq_left (scrolledOff_mono hle)]

/-- **Earlier is safer.** -/
theorem InSession.of_le {m : Nat} (h : InSession columns first n floor) (hle : m ≤ n) :
    InSession columns first m floor := by
  obtain ⟨hvisible, hfloor⟩ := h
  refine ⟨Nat.le_trans hle hvisible, ?_⟩
  rw [ConsoleCursor.Before] at hfloor ⊢
  dsimp only at hfloor ⊢
  omega

/-- The cells behind are in the session as well. -/
theorem InSession.add (h : InSession columns first n floor) (k : Nat) :
    InSession columns (first + k) n floor :=
  ⟨Nat.le_trans h.visible (Nat.div_le_div_right (Nat.le_add_right _ _)),
    not_before_add h.floor h.visible⟩

/-- Nothing is written yet. -/
theorem Edited.nil (hfloor : g.floor = some floor) (hrow : g.page.row < g.rows) :
    Edited g floor [] 0 g :=
  ⟨rfl, rfl, hfloor, g.page, .inl rfl, Nat.zero_le _, by rwa [Nat.zero_add], rfl⟩

/-- **A byte is written**, and the row that it is written to is on the screen. -/
theorem Edited.write (h : Edited old floor line n g) (hpos : 0 < old.columns)
    (hcolumn : old.page.column ≤ old.columns) (byte : UInt8) :
    Edited old floor (line ++ [byte])
      (max n (scrolledOff old.rows old.columns (old.page.index old.columns) (line.length + 1)))
      (g.write byte) := by
  obtain ⟨hrows, hcolumns, hfloor, q, hq, hn, hvisible, hpage⟩ := h
  obtain ⟨hwritten, hindex⟩ := Page.index_writes hcolumn hpos line
  -- the two pages are one place, and the byte is written to the same row
  have hstart : q.start old.columns = (old.page.writes old.columns line).start old.columns := by
    obtain rfl | rfl := hq
    · rfl
    · exact if_neg (Nat.not_le.mpr (Page.column_start_lt hpos))
  have hrow : (q.start old.columns).row =
      (old.page.index old.columns + line.length) / old.columns := by
    rw [hstart, Page.row_start hwritten hpos, hindex]
  have hoff : scrolledOff old.rows old.columns (old.page.index old.columns) (line.length + 1) =
      (q.start old.columns).row + 1 - old.rows := by
    rw [scrolledOff, hrow, ← Nat.add_assoc, Nat.add_sub_cancel]
  have hwrites : (old.page.writes old.columns (line ++ [byte])) =
      (q.start old.columns).put byte := by rw [Page.writes_append, Page.write, hstart]
  have hgcolumn : g.page.column = q.column := by rw [hpage, Page.column_drop hn]
  rw [hoff, Grid.write, Grid.wrap, hcolumns, hgcolumn]
  by_cases hfull : old.columns ≤ q.column
  · have hnew : q.start old.columns = q.newLine := if_pos hfull
    have hnewRow : q.newLine.row = q.row + 1 := rfl
    have hgpage : g.page.newLine = q.newLine.drop n := by rw [hpage, Page.drop_newLine hn]
    rw [if_pos hfull, hnew, hnewRow, Grid.newLine]
    dsimp only
    rw [hgpage, hrows]
    by_cases hroom : (q.newLine.drop n).row < old.rows
    · have hroom' : q.row + 1 - n < old.rows := hroom
      rw [if_pos hroom, Nat.max_eq_left (by omega)]
      refine ⟨rfl, hcolumns, hfloor, _, .inl rfl, ?_⟩
      rw [hwrites, hnew]
      refine ⟨Nat.le_succ_of_le hn, ?_, Page.drop_put (Nat.le_succ_of_le hn)⟩
      show q.row + 1 < n + old.rows
      omega
    · -- the last row: one more is gone
      have hroom' : ¬ q.row + 1 - n < old.rows := hroom
      rw [if_neg hroom, show max n (q.row + 1 + 1 - old.rows) = n + 1 by omega]
      refine ⟨rfl, hcolumns, ?_, _, .inl rfl, ?_⟩
      · show g.floor.map _ = _
        rw [hfloor]
        rfl
      · rw [hwrites, hnew]
        refine ⟨Nat.succ_le_succ hn, ?_, ?_⟩
        · show q.row + 1 < n + 1 + old.rows
          omega
        · show ((q.newLine.drop n).drop 1).put byte = _
          rw [Page.drop_drop, Page.drop_put (Nat.succ_le_succ hn)]
  · have hsame : q.start old.columns = q := if_neg hfull
    rw [if_neg hfull, hsame, Nat.max_eq_left (by omega)]
    refine ⟨hrows, hcolumns, hfloor, _, .inl rfl, ?_⟩
    rw [hwrites, hsame]
    refine ⟨hn, hvisible, ?_⟩
    show g.page.put byte = _
    rw [hpage, Page.drop_put hn]

/-- **A byte is erased**, and it is the last one of the line. -/
theorem Edited.backspace {byte : UInt8} (h : Edited old floor (line ++ [byte]) n g)
    (hpos : 0 < old.columns) (hcolumn : old.page.column ≤ old.columns)
    (hsession : InSession old.columns (old.page.index old.columns) n floor) :
    Edited old floor line n g.backspace := by
  obtain ⟨hrows, hcolumns, hfloor, q, hq, hn, hvisible, hpage⟩ := h
  obtain ⟨hwritten, hindex⟩ := Page.index_writes hcolumn hpos line
  rw [Page.writes_append] at hq
  have hbehind : Behind old.columns ((old.page.writes old.columns line).start old.columns) q := by
    obtain rfl | rfl := hq
    · exact .put byte
    · exact .start byte
  obtain ⟨hlast, herase, hlength, hle⟩ := hbehind.spec
  have hcell : ((old.page.writes old.columns line).start old.columns).row =
      (old.page.index old.columns + line.length) / old.columns := by
    rw [Page.row_start hwritten hpos, hindex]
  have hinside := hsession.add line.length
  have hdropped : g.page.last =
      some (((old.page.writes old.columns line).start old.columns).row - n) := by
    rw [hpage]
    exact Page.last_drop hlast (by rw [hcell]; exact hinside.visible)
  have htext : (g.page.line
      (((old.page.writes old.columns line).start old.columns).row - n)).length =
        ((old.page.writes old.columns line).start old.columns).column + 1 := by
    rw [hpage]
    show (q.line (_ - n + n)).length = _
    rw [Nat.sub_add_cancel (by rw [hcell]; exact hinside.visible)]
    exact hlength
  have htarget : g.target = some
      ⟨(old.page.index old.columns + line.length) % old.columns,
        (old.page.index old.columns + line.length) / old.columns - n⟩ := by
    rw [Grid.target, hdropped, Option.map_some, htext, Nat.add_sub_cancel, hcell,
      Page.column_start hwritten hpos, hindex]
  have hstep : g.backspace = { g with page := g.page.erase } := by
    rw [Grid.backspace, hfloor, htarget]
    exact if_neg hinside.floor
  rw [hstep]
  refine ⟨hrows, hcolumns, hfloor, _, .inr rfl, ?_, Nat.lt_of_le_of_lt hle hvisible, ?_⟩
  · rw [hcell]
    exact hinside.visible
  · show g.page.erase = _
    rw [hpage, Page.drop_erase hlast (by rw [hcell]; exact hinside.visible), herase]

/-- The operations that write some bytes. -/
def writing (bytes : List UInt8) : List Op := bytes.map .writeTerminalByte

/-- **One key.** -/
theorem Edited.key (h : Edited old floor line
      (scrolledOff old.rows old.columns (old.page.index old.columns) k) g)
    (hpos : 0 < old.columns) (hcolumn : old.page.column ≤ old.columns) (hk : line.length ≤ k)
    (hsession : InSession old.columns (old.page.index old.columns)
      (scrolledOff old.rows old.columns (old.page.index old.columns) k) floor)
    {key : UInt8} (hkey : key ≠ 10) :
    Edited old floor (editByte line key) (scrolledOff old.rows old.columns
      (old.page.index old.columns) (max k (editByte line key).length))
      (g.run (writing (echoByte line key))) := by
  rw [editByte, echoByte]
  by_cases hback : key = 0x7f
  · rw [if_pos hback, if_pos hback]
    have hmax : max k line.dropLast.length = k := by
      rw [List.length_dropLast]
      omega
    rw [hmax]
    by_cases hnil : line = []
    · rw [if_pos hnil]
      subst hnil
      exact h
    · rw [if_neg hnil]
      rw [← List.dropLast_append_getLast hnil] at h
      exact h.backspace hpos hcolumn hsession
  · rw [if_neg hback, if_neg hback]
    by_cases hroom : isPrintable key ∧ line.length < lineCapacity
    · rw [if_pos hroom, if_pos hroom, List.length_append, List.length_singleton, scrolledOff_max]
      have hwrite : g.run (writing [key]) = g.write key := by
        show g.apply (.writeTerminalByte key) = g.write key
        rw [Grid.apply, if_neg hkey, if_neg hback]
      rw [hwrite]
      exact h.write hpos hcolumn key
    · rw [if_neg hroom, if_neg hroom, Nat.max_eq_left hk]
      exact h

theorem run_append (g : Grid) (first rest : List Op) :
    g.run (first ++ rest) = (g.run first).run rest := List.foldl_append

/-- **Some keys.** -/
theorem Edited.keys (keys : List UInt8) (h : Edited old floor line
      (scrolledOff old.rows old.columns (old.page.index old.columns) k) g)
    (hpos : 0 < old.columns) (hcolumn : old.page.column ≤ old.columns) (hk : line.length ≤ k)
    (hsession : InSession old.columns (old.page.index old.columns)
      (scrolledOff old.rows old.columns (old.page.index old.columns)
        (max k (longest line keys))) floor)
    (hkeys : 10 ∉ keys) :
    Edited old floor (editLine line keys) (scrolledOff old.rows old.columns
      (old.page.index old.columns) (max k (longest line keys)))
      (g.run (writing (echoLine line keys))) := by
  induction keys generalizing line k g with
  | nil =>
    rw [longest, Nat.max_eq_left hk]
    exact h
  | cons key keys ih =>
    have hlongest : max k (longest line (key :: keys)) =
        max (max k (editByte line key).length) (longest (editByte line key) keys) := by
      have hnext := length_le_longest (editByte line key) keys
      rw [longest]
      omega
    rw [hlongest] at hsession ⊢
    have hkey : key ≠ 10 := fun heq => hkeys (by rw [heq]; exact List.mem_cons_self)
    have hstep := h.key hpos hcolumn hk (hsession.of_le (scrolledOff_mono (by omega))) hkey
    have hrest := ih hstep (Nat.le_max_right _ _) hsession
      (fun hmem => hkeys (List.mem_cons_of_mem _ hmem))
    rw [editLine_cons, echoLine, writing, List.map_append, run_append]
    exact hrest

/-- **What is in a cell**: the old text, and the line from its first cell on. -/
theorem Edited.cell (h : Edited old floor line n g) (hcolumn : old.page.column ≤ old.columns)
    {row column : Nat} (hlt : column < old.columns) :
    g.cell row column =
      if (row + n) * old.columns + column < old.page.index old.columns then
        old.cell (row + n) column
      else (line)[(row + n) * old.columns + column - old.page.index old.columns]? := by
  obtain ⟨-, -, -, q, hq, -, -, hpage⟩ := h
  have hcell : g.cell row column = (old.page.writes old.columns line).cell (row + n) column := by
    rw [Grid.cell, hpage]
    show (q.line (row + n))[column]? = _
    obtain rfl | rfl := hq
    · rfl
    · rw [Page.line_start, Page.cell]
  rw [hcell, Page.cell_writes hcolumn hlt]
  rfl

/-- The cursor is behind the line. -/
theorem Edited.index (h : Edited old floor line n g) (hpos : 0 < old.columns)
    (hcolumn : old.page.column ≤ old.columns) :
    (g.page.row + n) * old.columns + g.page.column = old.page.index old.columns + line.length := by
  obtain ⟨-, -, -, q, hq, hn, -, hpage⟩ := h
  obtain ⟨hwritten, hindex⟩ := Page.index_writes hcolumn hpos line
  have hplace : (g.page.row + n) * old.columns + g.page.column = q.index old.columns := by
    rw [hpage, Page.column_drop hn, Page.index]
    show (q.row - n + n) * old.columns + q.column = _
    rw [Nat.sub_add_cancel hn]
  rw [hplace]
  obtain rfl | rfl := hq
  · exact hindex
  · rw [Page.index_start hwritten, hindex]

end Keys

/-! ## The shell on the console -/

/-- **The shell in front of the screen**: what it writes is written to the console at once. -/
def onConsole (fx : ReplEffects (StateT FramebufferConsole Option)) :
    ReplEffects (StateT FramebufferConsole Option) :=
  { fx with
    stdoutWrite := fun bytes c => (c.writeTerminalBytes bytes).map fun c => ((), c)
    yieldNow := pure () }

/-- A byte that is echoed. -/
def Action.echoed : Action → Option UInt8
  | .echo byte => some byte
  | _ => none

section Console

variable {c c' : FramebufferConsole} {line : List UInt8}

/-- The shell submits nothing before the first new line. -/
theorem echoed_actions (line : List UInt8) (reads : List (Option UInt8)) (h : some 10 ∉ reads) :
    (∀ l, .submit l ∉ actions line reads) ∧
      (actions line reads).filterMap Action.echoed = echoLine line (bytesRead reads) := by
  induction reads generalizing line with
  | nil => exact ⟨fun _ => List.not_mem_nil, rfl⟩
  | cons read reads ih =>
    have hrest : some 10 ∉ reads := fun hmem => h (List.mem_cons_of_mem _ hmem)
    cases read with
    | none =>
      obtain ⟨hsubmit, hecho⟩ := ih line hrest
      refine ⟨fun l hmem => ?_, hecho⟩
      obtain heq | hmem := List.mem_cons.mp hmem
      · cases heq
      · exact hsubmit l hmem
    | some byte =>
      have hbyte : byte ≠ 10 := fun heq => h (by rw [heq]; exact List.mem_cons_self)
      obtain ⟨hsubmit, hecho⟩ := ih (editByte line byte) hrest
      have hactions : actions line (some byte :: reads) =
          (echoByte line byte).map .echo ++ .yieldNow :: actions (editByte line byte) reads := by
        rw [actions, if_neg hbyte]
      rw [hactions]
      constructor
      · intro l hmem
        obtain hmem | hmem := List.mem_append.mp hmem
        · obtain ⟨_, -, heq⟩ := List.mem_map.mp hmem
          cases heq
        · obtain heq | hmem := List.mem_cons.mp hmem
          · cases heq
          · exact hsubmit l hmem
      · have hself : ((echoByte line byte).map Action.echo).filterMap Action.echoed =
            echoByte line byte := by
          rw [List.filterMap_map]
          exact List.filterMap_some
        rw [List.filterMap_append, hself]
        show _ ++ (actions (editByte line byte) reads).filterMap Action.echoed = _
        rw [hecho]
        rfl

/-- **The calls of the loop write what is echoed**, as long as nothing is submitted. -/
theorem performAll_onConsole (fx : ReplEffects (StateT FramebufferConsole Option))
    (acts : List Action) (h : ∀ l, .submit l ∉ acts) :
    performAll (onConsole fx) acts c =
      (c.writeTerminalBytes (acts.filterMap Action.echoed)).map fun c => ((), c) := by
  induction acts generalizing c with
  | nil => rfl
  | cons action acts ih =>
    have hrest : ∀ l, .submit l ∉ acts := fun l hmem => h l (List.mem_cons_of_mem _ hmem)
    cases action with
    | submit l => exact absurd List.mem_cons_self (h l)
    | yieldNow => exact ih hrest
    | echo byte =>
      show ((c.writeTerminalBytes [byte]).map fun c => ((), c)).bind
        (fun next => performAll (onConsole fx) acts next.2) = _
      have hbyte : c.writeTerminalBytes [byte] = c.writeTerminalByte byte := by
        rw [writeTerminalBytes, List.foldlM_cons]
        cases c.writeTerminalByte byte <;> rfl
      show _ = Option.map _ (c.writeTerminalBytes (byte :: acts.filterMap Action.echoed))
      rw [hbyte]
      cases hstep : c.writeTerminalByte byte with
      | none =>
        rw [writeTerminalBytes, List.foldlM_cons, hstep]
        rfl
      | some c₁ =>
        rw [writeTerminalBytes_cons hstep]
        exact ih hrest

theorem writeTerminalBytes_eq_run (bytes : List UInt8) :
    c.writeTerminalBytes bytes = c.run (writing bytes) := by
  rw [writing, FramebufferConsole.run, List.foldlM_map]
  rfl

/-- **The screen shows the line that the shell has.** Let the shell start its line in any state of a
console with two rows or more, after a `clear`, and read any keys but a new line. If the first cell
of the line is still on the screen and not before the floor when the line has been as long as it
gets, the cursor is behind the line, and each cell in front of the line has the glyph that it had
`n` rows further down, each cell of the line that of the byte in the buffer, and each cell behind
it is blank. -/
theorem screen_shows_line (framebuffer : FramebufferInfo) (foreground background : UInt32)
    (memory : Nat → UInt32) (ops : List Op)
    (hrows : 2 ≤ usableRows (visibleHeightPixels framebuffer))
    (hstride : framebuffer.width ≤ framebuffer.stride)
    (fx : ReplEffects (StateT FramebufferConsole Option)) :
    ∃ c g, (new framebuffer foreground background memory).run (.clear :: ops) = some c ∧
      g = (Grid.empty c.rows c.columns).run ops ∧
      ∀ reads : List (Option UInt8), some 10 ∉ reads → ∀ floor, g.floor = some floor →
      let first := g.page.index c.columns
      let n := scrolledOff c.rows c.columns first (longest [] (bytesRead reads))
      InSession c.columns first n floor →
      ∃ sh c', (reads.foldlM (Shell.round (onConsole fx)) Shell.new).run c = some (sh, c') ∧
        sh.text = editLine [] (bytesRead reads) ∧
        c'.placeOf n c'.cursorRow c'.cursorColumn = first + sh.text.length ∧
        ∀ row < c.rows, ∀ column < c.columns, ∀ i < glyphWidth, ∀ j < glyphHeight,
          let x := paddingX + column * glyphAdvanceX + i
          let y := paddingY + row * glyphAdvanceY + j
          let place := c.placeOf n row column
          let shown := if place < first then g.cell (row + n) column else sh.text[place - first]?
          x < framebuffer.width → c'.pixel x y =
            if shown.any fun byte => glyphBit (glyphFor byte) i j then c.encodeColor foreground
            else c.encodeColor background := by
  obtain ⟨c, hrun, hvalid, hsame, hc, hshown⟩ :=
    run_shown framebuffer foreground background memory ops hrows hstride
  refine ⟨c, _, hrun, rfl, fun reads hline floor hfloor => ?_⟩
  generalize (Grid.empty c.rows c.columns).run ops = g at hc hshown hfloor ⊢
  intro first n hsession
  have hrows₁ : 2 ≤ c.rows := by
    rw [hsame.rows]
    exact Nat.le_min.mpr ⟨hrows, by decide⟩
  have hcolumn : g.page.column ≤ g.columns := by
    rw [hc.columns, ← hc.column]
    exact hvalid.cursorColumn
  have hrow : g.page.row < g.rows := by
    rw [hc.rows, ← hc.row]
    exact hvalid.cursorRow
  have hpos : 0 < g.columns := by
    rw [hc.columns]
    exact hvalid.columns_pos
  have hfirst : first = g.page.index g.columns := by rw [hc.columns]
  have hn : n = scrolledOff g.rows g.columns (g.page.index g.columns)
      (longest [] (bytesRead reads)) := by rw [hc.columns, hc.rows]
  -- nothing is gone yet: the cursor is on the screen
  have hnone : scrolledOff g.rows g.columns (g.page.index g.columns) 0 = 0 := by
    have hplace : g.page.index g.columns ≤ g.rows * g.columns := by
      rw [Page.index]
      have hmul : (g.page.row + 1) * g.columns ≤ g.rows * g.columns := Nat.mul_le_mul_right _ hrow
      rw [Nat.succ_mul] at hmul
      omega
    have hdiv : (g.page.index g.columns + 0 - 1) / g.columns < g.rows := by
      refine (Nat.div_lt_iff_lt_mul hpos).mpr ?_
      have hmul : 0 < g.rows * g.columns := Nat.mul_pos (by omega) hpos
      omega
    rw [scrolledOff]
    omega
  have hkeys : 10 ∉ bytesRead reads := by
    intro hmem
    obtain ⟨read, hread, heq⟩ := List.mem_filterMap.mp hmem
    rw [show read = some 10 from heq] at hread
    exact hline hread
  have hedited := Edited.keys (bytesRead reads) (k := 0)
    (by rw [hnone]; exact Edited.nil hfloor hrow) hpos hcolumn (Nat.le_refl _)
    (by rw [Nat.zero_max, ← hn, ← hfirst, hc.columns]; exact hsession) hkeys
  rw [Nat.zero_max, ← hn] at hedited
  -- the console follows the grid
  obtain ⟨hsubmit, hecho⟩ := echoed_actions [] reads hline
  obtain ⟨c', hwrite, hvalid', hsame'⟩ :=
    run_valid hvalid (writing (echoLine [] (bytesRead reads)))
  have hc' := hc.run hvalid hrows₁ _ hwrite
  have hshown' := hshown.run hvalid hrows₁
    (by rw [hsame.framebuffer]; exact hstride) hc _ hwrite
  rw [← writeTerminalBytes_eq_run] at hwrite
  -- and the shell writes to it what the keys echo
  have hloop := congrFun (Shell.holds_new.foldlM_round (onConsole fx) reads) c
  rw [editedLines_of_not_mem hkeys] at hloop
  have hperform : performAll (onConsole fx) (actions [] reads) c = some ((), c') := by
    rw [performAll_onConsole fx _ hsubmit, hecho, hwrite]
    rfl
  have hfinal : ((reads.foldlM (Shell.round (onConsole fx)) Shell.new).run c).bind
      (fun next => some (next.1.text, next.2)) =
      some (editLine [] (bytesRead reads), c') := by
    refine Eq.trans ?_ (hloop.trans ?_)
    · rfl
    · show (performAll (onConsole fx) (actions [] reads) c).bind _ = _
      rw [hperform]
      rfl
  obtain ⟨⟨sh, c₁⟩, hloopRun, heq⟩ := Option.bind_eq_some_iff.mp hfinal
  obtain ⟨htext, rfl⟩ : sh.text = editLine [] (bytesRead reads) ∧ c₁ = c' :=
    ⟨congrArg Prod.fst (Option.some.inj heq), congrArg Prod.snd (Option.some.inj heq)⟩
  refine ⟨sh, c₁, hloopRun, htext, ?_, ?_⟩
  · rw [htext, placeOf, hsame'.columns, hc'.row, hc'.column, hfirst, ← hc.columns]
    exact hedited.index hpos hcolumn
  · intro row hrow column hcol i hi j hj x y place shown hx
    have hcell : (g.run (writing (echoLine [] (bytesRead reads)))).cell row column = shown := by
      rw [hedited.cell hcolumn (by rw [hc.columns]; exact hcol), ← htext, hc.columns]
      rfl
    have hpixel : c₁.pixel x y = if glyphPixel _ row column i j then c₁.ink else c₁.blank :=
      hshown'.pixel_eq (by rw [hsame'.rows]; exact hrow) hi hj
        (by rw [hsame'.framebuffer, hsame.framebuffer]; exact hx)
    rw [glyphPixel, hcell] at hpixel
    have hink : c.encodeColor foreground = c₁.ink := by
      rw [hsame'.ink, ink, hsame.foreground]
      rfl
    have hblank : c.encodeColor background = c₁.blank := by
      rw [hsame'.blank, blank, hsame.background]
      rfl
    rw [hink, hblank]
    exact hpixel

/-- A letter and a backspace too many on a screen with one column. -/
theorem screen_shows_line_at_small_screen :
    2 ≤ usableRows (visibleHeightPixels ⟨4096, 21 * 49 * 4, 21, 49, 21, .rgb⟩) ∧
      ∃ c, (new ⟨4096, 21 * 49 * 4, 21, 49, 21, .rgb⟩ 0xf9fafb 0x111827 fun _ => 0).run
          [.clear, .beginTerminalSession] = some c ∧
        ∃ (sh : Shell) (c' : FramebufferConsole), sh.text = [108] ∧
          c'.placeOf 0 c'.cursorRow c'.cursorColumn = 1 := by
  have hrows : 2 ≤ usableRows (visibleHeightPixels ⟨4096, 21 * 49 * 4, 21, 49, 21, .rgb⟩) := by
    decide
  let fx : ReplEffects (StateT FramebufferConsole Option) :=
    ⟨fun _ => pure (), fun _ => pure (), fun _ => pure (.ok []), fun _ => pure 0, pure ()⟩
  obtain ⟨c, g, hrun, hg, hscreen⟩ := screen_shows_line ⟨4096, 21 * 49 * 4, 21, 49, 21, .rgb⟩
    0xf9fafb 0x111827 (fun _ => 0) [.beginTerminalSession] hrows (Nat.le_refl _) fx
  have hsize : ((new ⟨4096, 21 * 49 * 4, 21, 49, 21, .rgb⟩ 0xf9fafb 0x111827 fun _ => 0).run
      [.clear, .beginTerminalSession]).map (fun c => (c.rows, c.columns)) = some (2, 1) := by
    decide +kernel
  rw [hrun] at hsize
  obtain ⟨hr, hcol⟩ : c.rows = 2 ∧ c.columns = 1 :=
    ⟨congrArg Prod.fst (Option.some.inj hsize), congrArg Prod.snd (Option.some.inj hsize)⟩
  rw [hr, hcol] at hg
  have hsession : InSession 1 0 0 ⟨0, 0⟩ := ⟨Nat.le_refl _, by decide⟩
  have hfirst : g.page.index c.columns = 0 := by rw [hg, hcol]; rfl
  have hnone : scrolledOff c.rows c.columns 0 (longest [] (bytesRead
      [some 108, none, some 120, some 0x7f])) = 0 := by
    rw [hr, hcol]
    decide +kernel
  have hend := hscreen [some 108, none, some 120, some 0x7f] (by decide) ⟨0, 0⟩
    (by rw [hg]; rfl)
  dsimp only at hend
  rw [hfirst, hnone, hcol] at hend
  obtain ⟨sh, c', -, htext, hcursor, -⟩ := hend hsession
  have htext : sh.text = [108] := by
    rw [htext]
    decide +kernel
  rw [htext] at hcursor
  exact ⟨hrows, c, hrun, sh, c', htext, hcursor⟩

end Console

end Lazers.Lash
