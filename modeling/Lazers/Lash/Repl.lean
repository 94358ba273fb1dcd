import Lazers.Lash.Paths
import Lazers.LibLazer.Syscalls

/-!
# Line editing (`lash/src/repl.rs`)

The shell reads a byte at a time and edits its line in a buffer of 256 bytes with a length. What is
printable is appended and echoed, `0x7f` takes back the last byte and echoes itself, a new line
submits the line, and everything else is ignored. An empty read only yields.

What it does besides is up to a monad, as in the command lists. The reference knows no buffer:
`editByte` edits a list of bytes, `actions` are the calls that a stream of reads leads to.

`interactive_executes_lines`: the loop is the replay of these calls, and what it executes are the
pieces of the stream between new lines, each edited on its own.
-/

namespace Lazers.Lash

open FixedArray LibLazer

/-! ## The shell -/

/-- `Shell`, without the buffers that it only reads into. -/
structure Shell where
  line : Vector UInt8 lineCapacity
  len : Nat
deriving DecidableEq

/-- The calls of the loop. -/
structure ReplEffects (m : Type → Type) where
  stdoutWrite : List UInt8 → m Unit
  print : String → m Unit
  getcwd : (room : Nat) → m (Except GetCwdError (List UInt8))
  executeLine : List UInt8 → m Nat
  yieldNow : m Unit

def isPrintable (byte : UInt8) : Prop := 0x20 ≤ byte ∧ byte ≤ 0x7e

instance (byte : UInt8) : Decidable (isPrintable byte) := inferInstanceAs (Decidable (_ ∧ _))

namespace Shell

/-- `Shell::new`. -/
def new : Shell where
  line := Vector.replicate lineCapacity 0
  len := 0

/-- `line[..len]`. -/
def text (sh : Shell) : List UInt8 := used sh.line sh.len

variable {m : Type → Type} [Monad m] (fx : ReplEffects m)

/-- `Shell::append_printable`. -/
def appendPrintable (byte : UInt8) (sh : Shell) : m Shell :=
  if sh.len ≥ lineCapacity then pure sh
  else do
    fx.stdoutWrite [byte]
    return { line := sh.line.setIfInBounds sh.len byte, len := sh.len + 1 }

/-- `Shell::backspace`. -/
def backspace (sh : Shell) : m Shell :=
  if sh.len = 0 then pure sh
  else do
    fx.stdoutWrite [0x7f]
    return { sh with len := sh.len - 1 }

/-- `Shell::print_prompt`. -/
def printPrompt : m Unit := do
  let cwd := match ← fx.getcwd lineCapacity with
    | .ok bytes => (fromUtf8 bytes).getD "/"
    | .error _ => "/"
  fx.print (cwd ++ " > ")

/-- `Shell::submit_line`. -/
def submitLine (sh : Shell) : m Shell := do
  fx.print "\n"
  let _ ← fx.executeLine (used (writeAt (Vector.replicate lineCapacity 0) 0 sh.text) sh.len)
  printPrompt fx
  return { sh with len := 0 }

/-- The match in the loop. -/
def handleByte (byte : UInt8) (sh : Shell) : m Shell :=
  if byte = 10 then sh.submitLine fx
  else if byte = 0x7f then sh.backspace fx
  else if isPrintable byte then sh.appendPrintable fx byte
  else pure sh

/-- One round of the loop, with the byte that was read, if any. -/
def round (sh : Shell) (read : Option UInt8) : m Shell := do
  match read with
  | none =>
    fx.yieldNow
    return sh
  | some byte =>
    let sh ← sh.handleByte fx byte
    fx.yieldNow
    return sh

/-- `Shell::run_interactive`, up to some round: what was read in each. -/
def runInteractive (sh : Shell) (reads : List (Option UInt8)) : m Shell := do
  fx.print "Lash !!\n"
  printPrompt fx
  reads.foldlM (round fx) sh

end Shell

/-! ## Lines -/

/-- **One key**, a new line excepted. -/
def editByte (line : List UInt8) (byte : UInt8) : List UInt8 :=
  if byte = 0x7f then line.dropLast
  else if isPrintable byte ∧ line.length < lineCapacity then line ++ [byte]
  else line

/-- What a key echoes. -/
def echoByte (line : List UInt8) (byte : UInt8) : List UInt8 :=
  if byte = 0x7f then if line = [] then [] else [0x7f]
  else if isPrintable byte ∧ line.length < lineCapacity then [byte]
  else []

/-- Some keys. -/
def editLine (line keys : List UInt8) : List UInt8 := keys.foldl editByte line

def echoLine : (line keys : List UInt8) → List UInt8
  | _, [] => []
  | line, key :: keys => echoByte line key ++ echoLine (editByte line key) keys

/-- A call of the loop. -/
inductive Action where
  | echo (byte : UInt8)
  | submit (line : List UInt8)
  | yieldNow
deriving DecidableEq, Repr

/-- The calls that some reads lead to. -/
def actions : (line : List UInt8) → (reads : List (Option UInt8)) → List Action
  | _, [] => []
  | line, none :: reads => .yieldNow :: actions line reads
  | line, some byte :: reads =>
    if byte = 10 then .submit line :: .yieldNow :: actions [] reads
    else (echoByte line byte).map .echo ++ .yieldNow :: actions (editByte line byte) reads

/-- A submitted line. -/
def Action.submitted : Action → Option (List UInt8)
  | .submit line => some line
  | _ => none

/-- The bytes of some reads. -/
def bytesRead (reads : List (Option UInt8)) : List UInt8 := reads.filterMap id

/-- **The lines of a stream**: what is between new lines, edited. -/
def editedLines (line bytes : List UInt8) : List (List UInt8) :=
  match bytes.splitOn 10 with
  | [] => []
  | first :: rest => editLine line first :: rest.map (editLine [])

section Edit

variable {line : List UInt8} {byte : UInt8}

theorem editLine_cons (line : List UInt8) (key : UInt8) (keys : List UInt8) :
    editLine line (key :: keys) = editLine (editByte line key) keys := rfl

theorem length_editByte_le (h : line.length ≤ lineCapacity) :
    (editByte line byte).length ≤ lineCapacity := by
  rw [editByte]
  split_ifs with hback hroom
  · rw [List.length_dropLast]
    omega
  · rw [List.length_append, List.length_singleton]
    exact hroom.2
  · exact h

theorem printable_editByte (h : ∀ b ∈ line, isPrintable b) :
    ∀ b ∈ editByte line byte, isPrintable b := by
  intro b hb
  rw [editByte] at hb
  split_ifs at hb with hback hroom
  · exact h b (List.mem_of_mem_dropLast hb)
  · obtain hb | hb := List.mem_append.mp hb
    · exact h b hb
    · rw [List.mem_singleton.mp hb]
      exact hroom.1
  · exact h b hb

/-- The pieces of a longer stream. -/
theorem editedLines_cons (line bytes : List UInt8) (byte : UInt8) :
    editedLines line (byte :: bytes) =
      if byte = 10 then line :: editedLines [] bytes
      else editedLines (editByte line byte) bytes := by
  rw [editedLines, List.splitOn_cons_eq_if_modifyHead]
  by_cases hline : byte = 10
  · subst hline
    rw [if_pos (by decide), if_pos rfl, editedLines]
    cases hsplit : bytes.splitOn 10 with
    | nil => exact absurd hsplit (List.splitOn_ne_nil _ _)
    | cons first rest => rfl
  · rw [if_neg (by simpa using hline), if_neg hline, editedLines]
    cases bytes.splitOn 10 with
    | nil => rfl
    | cons first rest => rfl

/-- A stream without a new line. -/
theorem editedLines_of_not_mem {line bytes : List UInt8} (h : 10 ∉ bytes) :
    editedLines line bytes = [editLine line bytes] := by
  induction bytes generalizing line with
  | nil =>
    rw [editedLines, List.splitOn_nil]
    rfl
  | cons byte bytes ih =>
    have hbyte : byte ≠ 10 := fun heq => h (by rw [heq]; exact List.mem_cons_self)
    rw [editedLines_cons, if_neg hbyte, ih fun hmem => h (List.mem_cons_of_mem _ hmem)]
    rfl

theorem editedLines_ne_nil (line bytes : List UInt8) : editedLines line bytes ≠ [] := by
  rw [editedLines]
  cases hsplit : bytes.splitOn 10 with
  | nil => exact absurd hsplit (List.splitOn_ne_nil _ _)
  | cons first rest => exact List.cons_ne_nil _ _

end Edit

/-! ## The loop -/

section Loop

variable {m : Type → Type} [Monad m] (fx : ReplEffects m) {sh : Shell} {line : List UInt8}

/-- What the loop does for an action. -/
def Action.perform : Action → m Unit
  | .echo byte => fx.stdoutWrite [byte]
  | .submit line => do
    fx.print "\n"
    let _ ← fx.executeLine line
    Shell.printPrompt fx
  | .yieldNow => fx.yieldNow

/-- Some actions, one after the other. -/
def performAll : List Action → m Unit
  | [] => pure ()
  | action :: actions => do
    action.perform fx
    performAll actions

/-- The buffer holds a line. -/
structure Shell.Holds (sh : Shell) (line : List UInt8) : Prop where
  len : sh.len = line.length
  le : line.length ≤ lineCapacity
  text : sh.text = line

theorem Shell.holds_new : Shell.new.Holds [] := ⟨rfl, Nat.zero_le _, rfl⟩

/-- The calls of one byte. -/
def byteActions (line : List UInt8) (byte : UInt8) : List Action :=
  if byte = 10 then [.submit line] else (echoByte line byte).map .echo

/-- The line behind one byte. -/
def lineAfter (line : List UInt8) (byte : UInt8) : List UInt8 :=
  if byte = 10 then [] else editByte line byte

variable [LawfulMonad m]

theorem performAll_nil {α : Type} (x : m α) : (do performAll fx []; x) = x :=
  pure_bind () fun _ => x

theorem performAll_singleton (action : Action) : performAll fx [action] = action.perform fx := by
  rw [performAll, performAll]
  exact bind_pure (action.perform fx)

theorem performAll_append (first rest : List Action) :
    performAll fx (first ++ rest) = (do performAll fx first; performAll fx rest) := by
  induction first with
  | nil => exact (performAll_nil fx (performAll fx rest)).symm
  | cons action first ih =>
    rw [List.cons_append, performAll, performAll, ih, bind_assoc]

/-- **One byte**: the calls are those of the line, and so is the buffer after them. -/
theorem Shell.Holds.handleByte (h : sh.Holds line) (byte : UInt8) :
    ∃ sh' : Shell, sh'.Holds (lineAfter line byte) ∧
      sh.handleByte fx byte = (do performAll fx (byteActions line byte); pure sh') := by
  obtain ⟨hlen, hle, htext⟩ := h
  rw [Shell.handleByte, byteActions, lineAfter]
  by_cases hsubmit : byte = 10
  · rw [if_pos hsubmit, if_pos hsubmit, if_pos hsubmit]
    have hcopy : used (writeAt (Vector.replicate lineCapacity 0) 0 sh.text) sh.len = line := by
      have hused := used_writeAt (Vector.replicate lineCapacity (0 : UInt8)) 0
        (l := line) (by omega)
      rw [htext, hlen]
      rwa [Nat.zero_add, used_zero, List.nil_append] at hused
    refine ⟨{ sh with len := 0 }, ⟨rfl, Nat.zero_le _, rfl⟩, ?_⟩
    rw [submitLine, hcopy, performAll_singleton, Action.perform]
    simp only [bind_assoc]
  rw [if_neg hsubmit, if_neg hsubmit, if_neg hsubmit, echoByte, editByte]
  by_cases hback : byte = 0x7f
  · rw [if_pos hback, if_pos hback, if_pos hback, backspace, hlen]
    by_cases hnil : line = []
    · subst hnil
      exact ⟨sh, ⟨hlen, hle, htext⟩, (performAll_nil fx (pure sh)).symm⟩
    · have hpos : ¬ line.length = 0 := fun h => hnil (List.length_eq_zero_iff.mp h)
      rw [if_neg hpos, if_neg hnil]
      refine ⟨{ sh with len := line.length - 1 }, ⟨?_, ?_, ?_⟩, ?_⟩
      · rw [List.length_dropLast]
      · rw [List.length_dropLast]
        omega
      · show used sh.line (line.length - 1) = line.dropLast
        have hall : used sh.line line.length = line := by
          rw [← hlen]
          exact htext
        rw [used_take sh.line (Nat.sub_le line.length 1), hall, List.dropLast_eq_take]
      · rw [List.map_singleton, performAll_singleton]
        rfl
  · rw [if_neg hback, if_neg hback, if_neg hback]
    by_cases hprintable : isPrintable byte
    · rw [if_pos hprintable, appendPrintable, hlen]
      by_cases hfull : line.length ≥ lineCapacity
      · have hno : ¬ (isPrintable byte ∧ line.length < lineCapacity) := fun h => by omega
        rw [if_pos hfull, if_neg hno, if_neg hno]
        exact ⟨sh, ⟨hlen, hle, htext⟩, (performAll_nil fx (pure sh)).symm⟩
      · have hroom : line.length < lineCapacity := Nat.lt_of_not_le hfull
        rw [if_neg hfull, if_pos ⟨hprintable, hroom⟩, if_pos ⟨hprintable, hroom⟩]
        refine ⟨⟨sh.line.setIfInBounds line.length byte, line.length + 1⟩, ⟨?_, ?_, ?_⟩, ?_⟩
        · rw [List.length_append]
          rfl
        · rw [List.length_append]
          exact hroom
        · show used _ (line.length + 1) = line ++ [byte]
          have hall : used sh.line line.length = line := by
            rw [← hlen]
            exact htext
          rw [used_push byte hroom, hall]
        · rw [List.map_singleton, performAll_singleton]
          rfl
    · have hno : ¬ (isPrintable byte ∧ line.length < lineCapacity) := fun h => hprintable h.1
      rw [if_neg hprintable, if_neg hno, if_neg hno]
      exact ⟨sh, ⟨hlen, hle, htext⟩, (performAll_nil fx (pure sh)).symm⟩

/-- The calls of some reads, byte by byte. -/
theorem actions_some (line : List UInt8) (byte : UInt8) (reads : List (Option UInt8)) :
    actions line (some byte :: reads) =
      byteActions line byte ++ .yieldNow :: actions (lineAfter line byte) reads := by
  rw [actions, byteActions, lineAfter]
  split_ifs <;> rfl

/-- **The loop from some line on.** -/
theorem Shell.Holds.foldlM_round (h : sh.Holds line) (reads : List (Option UInt8)) :
    (Shell.text <$> reads.foldlM (Shell.round fx) sh) = (do
      performAll fx (actions line reads)
      pure ((editedLines line (bytesRead reads)).getLastD [])) := by
  induction reads generalizing sh line with
  | nil =>
    have hsplit : editedLines line (bytesRead []) = [line] := by
      show editedLines line [] = [line]
      rw [editedLines, List.splitOn_nil]
      rfl
    rw [hsplit, List.foldlM_nil, map_pure, h.text]
    exact (performAll_nil fx (pure line)).symm
  | cons read reads ih =>
    rw [List.foldlM_cons, map_bind]
    cases read with
    | none =>
      show ((do fx.yieldNow; pure sh) >>= fun sh => _) = _
      rw [bind_assoc]
      simp only [pure_bind, ih h, actions, performAll, bind_assoc]
      rfl
    | some byte =>
      obtain ⟨sh', hnext, hbyte⟩ := h.handleByte fx byte
      have hlines : (editedLines line (bytesRead (some byte :: reads))).getLastD [] =
          (editedLines (lineAfter line byte) (bytesRead reads)).getLastD [] := by
        show (editedLines line (byte :: bytesRead reads)).getLastD [] = _
        rw [editedLines_cons, lineAfter]
        split_ifs with hline
        · cases hrest : editedLines [] (bytesRead reads) with
          | nil => exact absurd hrest (editedLines_ne_nil _ _)
          | cons first rest => rfl
        · rfl
      show ((do let sh ← sh.handleByte fx byte; fx.yieldNow; pure sh) >>= fun sh => _) = _
      rw [hbyte, hlines, actions_some]
      simp only [bind_assoc, pure_bind, ih hnext, performAll_append, performAll]
      rfl

/-- What is submitted are the lines of the stream but the last. -/
theorem submitted_actions (line : List UInt8) (reads : List (Option UInt8)) :
    (actions line reads).filterMap Action.submitted =
      (editedLines line (bytesRead reads)).dropLast := by
  induction reads generalizing line with
  | nil =>
    show [] = (editedLines line []).dropLast
    rw [editedLines, List.splitOn_nil]
    rfl
  | cons read reads ih =>
    cases read with
    | none => exact ih line
    | some byte =>
      show _ = (editedLines line (byte :: bytesRead reads)).dropLast
      rw [actions_some, List.filterMap_append, editedLines_cons, byteActions, lineAfter]
      by_cases hline : byte = 10
      · rw [if_pos hline, if_pos hline, if_pos hline,
          List.dropLast_cons_of_ne_nil (editedLines_ne_nil _ _), ← ih []]
        rfl
      · rw [if_neg hline, if_neg hline, if_neg hline, ← ih]
        -- an echo submits nothing
        have hecho : ((echoByte line byte).map Action.echo).filterMap Action.submitted = [] := by
          rw [List.filterMap_map]
          exact List.filterMap_eq_nil_iff.mpr fun _ _ => rfl
        rw [hecho, List.nil_append]
        rfl

/-- Every line is printable and fits the buffer. -/
theorem editedLines_fit {line : List UInt8} (hle : line.length ≤ lineCapacity)
    (hprintable : ∀ b ∈ line, isPrintable b) (bytes : List UInt8) :
    ∀ l ∈ editedLines line bytes, l.length ≤ lineCapacity ∧ ∀ b ∈ l, isPrintable b := by
  induction bytes generalizing line with
  | nil =>
    intro l hl
    rw [editedLines, List.splitOn_nil] at hl
    obtain rfl : l = line := List.mem_singleton.mp hl
    exact ⟨hle, hprintable⟩
  | cons byte bytes ih =>
    intro l hl
    rw [editedLines_cons] at hl
    split_ifs at hl with hline
    · obtain rfl | hl := List.mem_cons.mp hl
      · exact ⟨hle, hprintable⟩
      · exact ih (Nat.zero_le _) (fun _ hb => absurd hb List.not_mem_nil) l hl
    · exact ih (length_editByte_le hle) (printable_editByte hprintable) l hl

/-- **The interactive shell executes the edited lines.** In every lawful monad the loop is the
replay of `actions`, and leaves the line behind the last new line in its buffer. The lines that it
executes are the pieces of the stream in front of new lines, in order, each edited on its own; they
are printable and have at most 256 bytes. -/
theorem interactive_executes_lines (reads : List (Option UInt8)) :
    (Shell.text <$> Shell.new.runInteractive fx reads) = (do
      fx.print "Lash !!\n"
      Shell.printPrompt fx
      performAll fx (actions [] reads)
      pure ((editedLines [] (bytesRead reads)).getLastD [])) ∧
    (actions [] reads).filterMap Action.submitted =
      (((bytesRead reads).splitOn 10).map (editLine [])).dropLast ∧
    ∀ line, .submit line ∈ actions [] reads → line.length ≤ lineCapacity ∧
      ∀ byte ∈ line, isPrintable byte := by
  have hlines : editedLines [] (bytesRead reads) =
      ((bytesRead reads).splitOn 10).map (editLine []) := by
    rw [editedLines]
    cases (bytesRead reads).splitOn 10 <;> rfl
  refine ⟨?_, ?_, fun line hline => ?_⟩
  · rw [Shell.runInteractive, map_bind]
    refine bind_congr fun _ => ?_
    rw [map_bind]
    exact bind_congr fun _ => Shell.holds_new.foldlM_round fx reads
  · rw [submitted_actions, hlines]
  · have hmem : line ∈ (actions [] reads).filterMap Action.submitted :=
      List.mem_filterMap.mpr ⟨_, hline, rfl⟩
    rw [submitted_actions] at hmem
    exact editedLines_fit (Nat.zero_le _) (fun _ hb => absurd hb List.not_mem_nil) _ line
      (List.mem_of_mem_dropLast hmem)

/-- `lx`, a backspace, `s` and a new line, with an empty read in between. -/
theorem interactive_executes_lines_at_ls :
    (actions [] [some 108, some 120, none, some 0x7f, some 115, some 10, some 99]).filterMap
      Action.submitted = [[108, 115]] := by
  let fx : ReplEffects Id := ⟨fun _ => (), fun _ => (), fun _ => .ok [], fun _ => 0, ()⟩
  refine (interactive_executes_lines fx _).2.1.trans ?_
  decide +kernel

end Loop

end Lazers.Lash
