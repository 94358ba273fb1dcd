import Lazers.Lash.Commands
import Lazers.Lash.Segments

/-!
# Command lists (`lash/src/shell.rs`)

`execute_line` runs the segments of a line from left to right. It keeps the status of the last
segment that ran, and decides at each operator whether the next one runs.

What a segment does is up to a monad, in which it may read and change any state, print, or end
the shell. The reference is a tree: `&&` and `||` have the same precedence and associate to the
left, and `;` always runs its right side.

- `eval_foldl`: the tree, evaluated from its leftmost leaf on.
- `executeLine_eq_eval`: running a line is evaluating its tree. This is an equation in every lawful
  monad, so in particular in one that records which segments ran.
-/

namespace Lazers.Lash

variable {m : Type → Type} [Monad m]

/-- The calls a shell makes besides running programs. `panic` is what `unwrap` does on `None`. -/
structure Effects (m : Type → Type) where
  println : String → m Unit
  panic : m Nat
  exit : (status : Nat) → m Nat
  runCd : TokenizedCommand → m Nat
  runEnv : TokenizedCommand → m Nat
  runSet : TokenizedCommand → m Nat
  runUnset : TokenizedCommand → m Nat
  runWhere : TokenizedCommand → m Nat
  runCommand : String → TokenizedCommand → ExecutionMode → m Nat
  commandNotFound : String → m Unit

namespace Effects

variable (sh : Effects m)

def printParseError (mode : ExecutionMode) : m Unit := do
  sh.println "lash: parse error"
  match mode with
  | .interactive => sh.println ""
  | .batch => pure ()

/-- What is printed for a line or a segment that cannot be parsed. -/
def reportParseError (mode : ExecutionMode) : ParseError → m Nat
  | .unmatchedSingleQuote | .unmatchedDoubleQuote | .trailingBackslash | .invalidSyntax => do
    sh.printParseError mode
    return 1
  | .resourceUnavailable => do
    sh.println "lash: unable to parse command: resource unavailable"
    return 1

/-- `Shell::execute_segment`. -/
def executeSegment (mode : ExecutionMode) (line : List UInt8) : m Nat :=
  match TokenizedCommand.parse line with
  | .error e => sh.reportParseError mode e
  | .ok tokens =>
    if tokens.count = 0 then pure 0
    else
      let command := (tokens.token 0).getD ""
      if command = "cd" then sh.runCd tokens
      else if command = "env" then sh.runEnv tokens
      else if command = "set" then sh.runSet tokens
      else if command = "unset" then sh.runUnset tokens
      else if command = "where" then sh.runWhere tokens
      else if command = "exit" then sh.exit 0
      else if command ≠ "" then sh.runCommand command tokens mode
      else do
        sh.commandNotFound command
        return 1

/-- Whether the segment behind an operator runs. -/
def shouldRun : SegmentOperator → (lastStatus : Nat) → Bool
  | .and, lastStatus => lastStatus = 0
  | .or, lastStatus => lastStatus ≠ 0
  | .sequence, _ => true

/-- The loop of `execute_line`, for the last `rounds` segments. -/
def executeFrom (run : List UInt8 → m Nat) (segments : SegmentScan) (line : List UInt8) :
    (rounds index lastStatus : Nat) → m Nat
  | 0, _, lastStatus => pure lastStatus
  | rounds + 1, index, lastStatus =>
    match if index = 0 then some true
      else (segments.operatorBefore index).map (shouldRun · lastStatus) with
    | none => sh.panic
    | some false => executeFrom run segments line rounds (index + 1) lastStatus
    | some true =>
      match segments.segment line index with
      | none => sh.panic
      | some segment => do
        let lastStatus ← run segment
        executeFrom run segments line rounds (index + 1) lastStatus

/-- `Shell::execute_line`, where `run` is `execute_segment`. -/
def executeLine (run : List UInt8 → m Nat) (mode : ExecutionMode) (line : List UInt8) : m Nat :=
  match scanSegments line with
  | .error e => sh.reportParseError mode e
  | .ok segments =>
    if segments.count = 0 then pure 0
    else sh.executeFrom run segments line segments.count 0 0

end Effects

/-! ## Trees -/

/-- A list of commands. -/
inductive Tree where
  | segment (bytes : List UInt8)
  | node (operator : SegmentOperator) (left right : Tree)

/-- **What a tree means.** A side that is skipped leaves the status of the other. -/
def Tree.eval (run : List UInt8 → m Nat) : Tree → m Nat
  | .segment bytes => run bytes
  | .node .and left right => do
    let status ← left.eval run
    if status = 0 then right.eval run else pure status
  | .node .or left right => do
    let status ← left.eval run
    if status ≠ 0 then right.eval run else pure status
  | .node .sequence left right => do
    let _ ← left.eval run
    right.eval run

/-- The tree of segments and the operators between them, associated to the left. -/
def leftTree (first : List UInt8) (rest : List (SegmentOperator × List UInt8)) : Tree :=
  rest.foldl (fun tree p => .node p.1 tree (.segment p.2)) (.segment first)

/-- The tree of a line, unless it is blank. -/
def listTree (line : List UInt8) : Option Tree :=
  match segmentsOf line with
  | [] => none
  | first :: rest => some (leftTree first ((operatorsOf line).zip rest))

/-- The segments behind the first, one after the other. -/
def runRest (run : List UInt8 → m Nat) : List (SegmentOperator × List UInt8) → Nat → m Nat
  | [], status => pure status
  | (operator, bytes) :: rest, status =>
    if Effects.shouldRun operator status then do
      let status ← run bytes
      runRest run rest status
    else runRest run rest status

section Eval

variable [LawfulMonad m] (run : List UInt8 → m Nat)

theorem eval_node (operator : SegmentOperator) (tree : Tree) (bytes : List UInt8)
    (rest : List (SegmentOperator × List UInt8)) :
    ((Tree.node operator tree (.segment bytes)).eval run >>= runRest run rest) =
      tree.eval run >>= runRest run ((operator, bytes) :: rest) := by
  cases operator with
  | and =>
    rw [Tree.eval, bind_assoc]
    refine bind_congr fun status => ?_
    by_cases hstatus : status = 0
    · simp [hstatus, runRest, Effects.shouldRun, Tree.eval]
    · simp [hstatus, runRest, Effects.shouldRun]
  | or =>
    rw [Tree.eval, bind_assoc]
    refine bind_congr fun status => ?_
    by_cases hstatus : status = 0
    · simp [hstatus, runRest, Effects.shouldRun]
    · simp [hstatus, runRest, Effects.shouldRun, Tree.eval]
  | sequence =>
    rw [Tree.eval, bind_assoc]
    exact bind_congr fun status => rfl

/-- A tree that leans to the left, evaluated from its leftmost leaf on. -/
theorem eval_foldl (rest : List (SegmentOperator × List UInt8)) (tree : Tree) :
    (rest.foldl (fun tree p => .node p.1 tree (.segment p.2)) tree).eval run =
      tree.eval run >>= runRest run rest := by
  induction rest generalizing tree with
  | nil => exact (bind_pure _).symm
  | cons p rest ih => rw [List.foldl_cons, ih, eval_node]

theorem eval_leftTree (first : List UInt8) (rest : List (SegmentOperator × List UInt8)) :
    (leftTree first rest).eval run = run first >>= runRest run rest :=
  eval_foldl run rest (.segment first)

end Eval

/-! ## The loop -/

/-- There is one operator less than there are segments. -/
theorem length_operatorsOf {line first : List UInt8} {rest : List (List UInt8)}
    (h : segmentsOf line = first :: rest) : (operatorsOf line).length = rest.length := by
  rw [segmentsOf] at h
  split_ifs at h
  have hlen := congrArg List.length h
  rw [List.length_map, pieces, Split.length_all, List.length_cons] at hlen
  rw [operatorsOf, List.length_map]
  omega

section Loop

variable (sh : Effects m) (run : List UInt8 → m Nat) {line first : List UInt8}
  {rest : List (List UInt8)} {scan : SegmentScan}

/-- The loop behind the first segment. -/
theorem executeFrom_eq (hlists : scan.Lists line) (hsegments : segmentsOf line = first :: rest)
    {rounds k status : Nat} (hrounds : k + rounds = rest.length) :
    sh.executeFrom run scan line rounds (k + 1) status =
      runRest run (((operatorsOf line).zip rest).drop k) status := by
  have hoperators := length_operatorsOf hsegments
  induction rounds generalizing k status with
  | zero =>
    rw [List.drop_eq_nil_of_le (by rw [List.length_zip, hoperators]; omega)]
    rfl
  | succ rounds ih =>
    have hk : k < rest.length := by omega
    have hk' : k < (operatorsOf line).length := by rwa [hoperators]
    have hoperator : scan.operatorBefore (k + 1) = some (operatorsOf line)[k] := by
      rw [hlists.operatorBefore, if_neg (Nat.succ_ne_zero k), Nat.add_sub_cancel,
        List.getElem?_eq_getElem hk']
    have hsegment : scan.segment line (k + 1) = some rest[k] := by
      rw [hlists.segment, hsegments, List.getElem?_cons_succ, List.getElem?_eq_getElem hk]
    have hdrop : ((operatorsOf line).zip rest).drop k =
        ((operatorsOf line)[k], rest[k]) :: ((operatorsOf line).zip rest).drop (k + 1) := by
      rw [List.drop_eq_getElem_cons (by rw [List.length_zip]; omega), List.getElem_zip]
    have hnext : ∀ status, sh.executeFrom run scan line rounds (k + 1 + 1) status =
        runRest run (((operatorsOf line).zip rest).drop (k + 1)) status :=
      fun status => ih (by omega)
    rw [hdrop, Effects.executeFrom, if_neg (Nat.succ_ne_zero k), hoperator, hsegment, runRest,
      Option.map_some]
    cases Effects.shouldRun (operatorsOf line)[k] status with
    | false => exact hnext status
    | true => exact bind_congr hnext

/-- **Running a line is evaluating its tree**, for every accepted line and whatever its segments
do. -/
theorem executeLine_eq_eval [LawfulMonad m] (h : Accepted line) (mode : ExecutionMode) :
    sh.executeLine run mode line =
      match listTree line with
      | none => pure 0
      | some tree => tree.eval run := by
  obtain ⟨e, -, hrejected⟩ | ⟨scan, hok, -, hlists, -⟩ := scanSegments_cases line
  · exact absurd h hrejected
  rw [Effects.executeLine, hok, listTree]
  dsimp only
  rw [hlists.count]
  cases hsegments : segmentsOf line with
  | nil => rfl
  | cons first rest =>
    have hfirst : scan.segment line 0 = some first := by
      rw [hlists.segment, hsegments]
      rfl
    rw [if_neg (by simp), List.length_cons, Effects.executeFrom, if_pos rfl, hfirst]
    dsimp only
    rw [eval_leftTree]
    refine bind_congr fun status => ?_
    exact executeFrom_eq sh run hlists hsegments (k := 0) (Nat.zero_add _)

end Loop

/-- A shell without commands that keeps what it prints. -/
def quietEffects : Effects (StateM (List String)) where
  println text := modify (· ++ [text])
  panic := pure 101
  exit := pure
  runCd _ := pure 0
  runEnv _ := pure 0
  runSet _ := pure 0
  runUnset _ := pure 0
  runWhere _ := pure 0
  runCommand command _ _ := do
    modify (· ++ [command])
    return if command = "false" then 1 else 0
  commandNotFound _ := pure ()

/-- In `false && a || b ; c` the second segment is skipped. -/
theorem executeLine_at_list :
    Accepted (strBytes "false && a || b ; c") ∧
      ((quietEffects.executeLine (quietEffects.executeSegment .batch) .batch
        (strBytes "false && a || b ; c")).run []).run = (0, ["false", "b", "c"]) := by
  have haccepted : Accepted (strBytes "false && a || b ; c") := by decide +kernel
  refine ⟨haccepted, ?_⟩
  rw [executeLine_eq_eval quietEffects _ haccepted]
  decide +kernel

end Lazers.Lash
