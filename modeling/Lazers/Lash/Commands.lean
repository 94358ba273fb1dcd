import Lazers.Lash.Paths
import Lazers.LibLazer.Syscalls

/-!
# Commands on the search path (`lash/src/commands.rs`, `lash/src/paths.rs`)

A command without a slash is looked for in the directories of `PATH`. `where` asks for each
candidate by reading it into a buffer of one byte, and running the command asks by spawning
it; both go on to the next candidate if the answer is that there is no such file.

- `with_path_candidates` visits the candidates in order and leaves out entries that are not
  absolute; `visitEntries_eq` separates the candidates from the visits.
- Either question goes on exactly at the candidates that are `Absent`, except that a child
  may answer for the kernel: its exit status `usize::MAX - 1` reads as "no such file"
  (`probe_continues_iff`, `spawn_continues_iff`).
- So `where` names the candidate that is run unless that happens (`where_predicts_iff`).
-/

namespace Lazers.Lash

open FixedArray KernelAbi Kernel LibLazer Memory Scheduler Storage

def pathBufferCapacity : Nat := 128
def commandPathCapacity : Nat := lineCapacity + 1 + 128

inductive PathSearchStep (T : Type) where
  | continue
  | matched
  | returnWith (value : T)

inductive PathSearchOutcome (T : Type) where
  | noMatches
  | matched
  | returned (value : T)

/-- A line printed by the shell. -/
inductive Line where
  | commandNotFound (command : String)
  | invalidPath (path : String)
  | invalidExecutable (path : String)
  | resourceUnavailable (message : String)
  | exitedWith (status : Nat)
  | found (candidate : String)
  | blank
deriving DecidableEq, Repr

def Line.text : Line → String
  | commandNotFound command => "lash: command not found: " ++ command
  | invalidPath path => "lash: invalid path: " ++ path
  | invalidExecutable path => "lash: invalid executable: " ++ path
  | resourceUnavailable message => message
  | exitedWith status => "lash: command exited with status " ++ toString status
  | found candidate => candidate
  | blank => ""

/-! ## Candidates -/

/-- `Shell::load_path`. `getEnv` is the system call on a buffer of so many bytes: the filled
part. -/
def loadPath (getEnv : String → Nat → Except GetEnvError (List UInt8)) : Option String :=
  match getEnv "PATH" pathBufferCapacity with
  | .ok value => fromUtf8 value
  | .error _ => none

/-- `Shell::build_path_candidate`. -/
def buildPathCandidate (entry : List UInt8) (command : String) : Except ResolutionError String :=
  if entry.length + 1 + (strBytes command).length > commandPathCapacity then
    .error .resourceUnavailable
  else
    match fromUtf8 (entry ++ 47 :: strBytes command) with
    | some candidate => .ok candidate
    | none => .error .invalidPath

section Search

variable {T : Type}

/-- What the visitor does at a candidate: the lines it prints and the step, unless it does not
come back. The number counts the candidates before this one; the rest of the system moves on
between two of them. -/
abbrev Visitor (T : Type) := Nat → String → Option (List Line × PathSearchStep T)

/-- The loop of `with_path_candidates`, over the segments between colons. -/
def visitEntries (command : String) (visitor : Visitor T) : (entries : List (List UInt8)) →
    (visited : Nat) → (matched : Bool) → (printed : List Line) →
    Option (List Line × Except ResolutionError (PathSearchOutcome T))
  | [], _, matched, printed => some (printed, .ok (if matched then .matched else .noMatches))
  | entry :: rest, visited, matched, printed =>
    if entry ≠ [] ∧ entry.head? = some 47 then
      match buildPathCandidate entry command with
      | .error e => some (printed, .error e)
      | .ok candidate =>
        match visitor visited candidate with
        | none => none
        | some (lines, .continue) =>
          visitEntries command visitor rest (visited + 1) matched (printed ++ lines)
        | some (lines, .matched) =>
          visitEntries command visitor rest (visited + 1) true (printed ++ lines)
        | some (lines, .returnWith value) => some (printed ++ lines, .ok (.returned value))
    else visitEntries command visitor rest visited matched printed

/-- `Shell::with_path_candidates`. -/
def withPathCandidates (getEnv : String → Nat → Except GetEnvError (List UInt8))
    (command : String) (visitor : Visitor T) :
    Option (List Line × Except ResolutionError (PathSearchOutcome T)) :=
  match loadPath getEnv with
  | none => some ([], .ok .noMatches)
  | some path => visitEntries command visitor ((strBytes path).splitOn 58) 0 false []

end Search

/-! ## The two questions -/

/-- What becomes of a program that was loaded: no room for it in the scheduler, still running,
or gone with a status. -/
inductive Child where
  | refused
  | running
  | exited (status : Nat)

/-- What the shell's calls meet. Memory and children are those of the `n`th candidate. -/
structure Machine where
  rootFs : Option Fat32
  fuel : Nat
  cwd : String
  getEnv : String → Nat → Except GetEnvError (List UInt8)
  memory : Nat → MemoryState
  child : Nat → LoadedUserProgram → Child

namespace Machine

variable (m : Machine)

/-- `spawn_child_process` and `wait_for_child`. -/
def await : Child → Option (Except Scheduler.SpawnError Nat)
  | .refused => some (.error .resourceUnavailable)
  | .running => none
  | .exited status => some (.ok status)

/-- `spawn_user_process_and_wait`, to its return. -/
def spawnUserProcessAndWait (n : Nat) (path : String) (argvTail : List UInt8) :
    Option (Except Scheduler.SpawnError Nat) :=
  match resolvePath m.cwd path with
  | .error e => some (.error (mapStorageSpawnError e))
  | .ok normalizedPath =>
    match readAndLoad m.rootFs m.fuel normalizedPath argvTail (m.memory n) with
    | none => none
    | some (.error e, _) => some (.error e)
    | some (.ok program, _) => await (m.child n program)

/-- `current_process_read_file`, to its return: the count. -/
def currentProcessReadFile (path : String) (room : Nat) : Option (Except StorageError Nat) :=
  match readFileFrom m.rootFs m.fuel m.cwd path room with
  | .ok bytes => some (.ok bytes.length)
  | .error (.storage e) => some (.error e)
  | .error .outOfFuel => none

/-- `liblazer::spawn_wait`. -/
def spawnWait (n : Nat) (path : String) (args : List String) :
    Option (Except LibLazer.SpawnError Nat) :=
  spawnWaitImpl (fun payload =>
    Syscall.spawnWait (m.spawnUserProcessAndWait n) (some (strBytes path)) (some payload)) args

/-- `liblazer::read_file`. -/
def readFile (path : String) (room : Nat) : Option (Except ReadFileError Nat) :=
  (Syscall.readFile m.currentProcessReadFile (some (strBytes path)) (some room)).map readFileResult

end Machine

/-- `Shell::probe_path`. -/
def probePath (m : Machine) (path : String) : Option (Except ResolutionError Bool) :=
  (m.readFile path 1).map fun
    | .ok _ => .ok true
    | .error .bufferTooSmall => .ok true
    | .error .notFound | .error .notAFile => .ok false
    | .error .invalidPath => .error .invalidPath
    | .error .resourceUnavailable => .error .resourceUnavailable

inductive ExecutionMode where
  | interactive
  | batch
deriving DecidableEq, Repr

/-- `Shell::report_command_status`: the lines, and the status. -/
def reportCommandStatus (status : Nat) (mode : ExecutionMode) : List Line × Nat :=
  (if status ≠ 0 ∧ mode = .interactive then [.exitedWith status, .blank] else [], status)

/-- The visitor of `run_path_command`. -/
def spawnVisitor (m : Machine) (args : List String) (mode : ExecutionMode) : Visitor Nat :=
  fun n candidate => (m.spawnWait n candidate args).map fun
    | .ok status =>
      let (lines, status) := reportCommandStatus status mode
      (lines, .returnWith status)
    | .error .fileNotFound => ([], .continue)
    | .error .invalidPath => ([.invalidPath candidate], .returnWith 1)
    | .error .invalidExecutable => ([.invalidExecutable candidate], .returnWith 1)
    | .error .resourceUnavailable =>
      ([.resourceUnavailable "lash: unable to run command: resource unavailable"], .returnWith 1)

/-- The visitor of `print_path_matches`. -/
def probeVisitor (m : Machine) : Visitor Nat := fun _ candidate =>
  (probePath m candidate).map fun
    | .ok true => ([.found candidate], .matched)
    | .ok false => ([], .continue)
    | .error .invalidPath => ([.invalidPath candidate], .returnWith 1)
    | .error .resourceUnavailable =>
      ([.resourceUnavailable "lash: unable to resolve command: resource unavailable"],
        .returnWith 1)

/-- `Shell::run_path_command`: the lines the shell prints, and the status. -/
def runPathCommand (m : Machine) (command : String) (args : List String) (mode : ExecutionMode) :
    Option (List Line × Nat) :=
  (withPathCandidates m.getEnv command (spawnVisitor m args mode)).map fun
    | (printed, .ok (.returned status)) => (printed, status)
    | (printed, .ok .matched) | (printed, .ok .noMatches) =>
      (printed ++ [.commandNotFound command], 1)
    | (printed, .error .invalidPath) => (printed ++ [.invalidPath command], 1)
    | (printed, .error .resourceUnavailable) =>
      (printed ++
        [.resourceUnavailable "lash: unable to run command: resource unavailable"], 1)

/-- `Shell::print_path_matches`. -/
def printPathMatches (m : Machine) (command : String) : Option (List Line × Nat) :=
  (withPathCandidates m.getEnv command (probeVisitor m)).map fun
    | (printed, .ok .matched) => (printed, 0)
    | (printed, .ok (.returned status)) => (printed, status)
    | (printed, .ok .noMatches) => (printed ++ [.commandNotFound command], 1)
    | (printed, .error .invalidPath) => (printed ++ [.invalidPath command], 1)
    | (printed, .error .resourceUnavailable) =>
      (printed ++
        [.resourceUnavailable "lash: unable to resolve command: resource unavailable"], 1)

/-! ## Visits in order -/

/-- Whether the loop goes on as if the candidate were not there. -/
def continues {T : Type} : Option (List Line × PathSearchStep T) → Bool
  | some (_, .continue) => true
  | _ => false

/-- The candidates in their order, and the error that ends them early. -/
def candidatesOf (command : String) : List (List UInt8) → List String × Option ResolutionError
  | [] => ([], none)
  | entry :: rest =>
    if entry ≠ [] ∧ entry.head? = some 47 then
      match buildPathCandidate entry command with
      | .error e => ([], some e)
      | .ok candidate => ((candidatesOf command rest).map (candidate :: ·) id)
    else candidatesOf command rest

/-- **The candidates of a command**; none without a `PATH`. -/
def candidates (m : Machine) (command : String) : List String × Option ResolutionError :=
  match loadPath m.getEnv with
  | none => ([], none)
  | some path => candidatesOf command ((strBytes path).splitOn 58)

/-- **The first candidate a search does not continue at**, with its position. -/
def firstStop {T : Type} (visitor : Visitor T) (candidates : List String) :
    Option (String × Nat) :=
  candidates.zipIdx.find? fun (candidate, n) => !continues (visitor n candidate)

section Search

variable {T : Type}

/-- The visits alone. -/
def visitCandidates (visitor : Visitor T) (ending : Option ResolutionError) :
    (candidates : List String) → (visited : Nat) → (matched : Bool) → (printed : List Line) →
    Option (List Line × Except ResolutionError (PathSearchOutcome T))
  | [], _, matched, printed => some (printed,
      match ending with
      | some e => .error e
      | none => .ok (if matched then .matched else .noMatches))
  | candidate :: rest, visited, matched, printed =>
    match visitor visited candidate with
    | none => none
    | some (lines, .continue) =>
      visitCandidates visitor ending rest (visited + 1) matched (printed ++ lines)
    | some (lines, .matched) =>
      visitCandidates visitor ending rest (visited + 1) true (printed ++ lines)
    | some (lines, .returnWith value) => some (printed ++ lines, .ok (.returned value))

theorem visitEntries_eq (command : String) (visitor : Visitor T) (entries : List (List UInt8))
    (visited : Nat) (matched : Bool) (printed : List Line) :
    visitEntries command visitor entries visited matched printed =
      visitCandidates visitor (candidatesOf command entries).2 (candidatesOf command entries).1
        visited matched printed := by
  induction entries generalizing visited matched printed with
  | nil => rfl
  | cons entry rest ih =>
    rw [visitEntries, candidatesOf]
    split_ifs with habs
    · cases buildPathCandidate entry command with
      | error e => rfl
      | ok candidate =>
        show _ = visitCandidates visitor _ (candidate :: _) _ _ _
        rw [visitCandidates]
        dsimp only
        split
        · rfl
        · exact ih _ _ _
        · exact ih _ _ _
        · rfl
    · exact ih _ _ _

theorem withPathCandidates_eq (m : Machine) (command : String) (visitor : Visitor T) :
    withPathCandidates m.getEnv command visitor =
      visitCandidates visitor (candidates m command).2 (candidates m command).1 0 false [] := by
  rw [withPathCandidates, candidates]
  cases loadPath m.getEnv with
  | none => rfl
  | some path => exact visitEntries_eq command visitor _ 0 false []

/-- Nothing matched if and only if the loop went on at every candidate. -/
theorem visitCandidates_noMatches_iff (visitor : Visitor T) (ending : Option ResolutionError)
    (candidates : List String) (visited : Nat) (matched : Bool) (printed : List Line) :
    (∃ lines, visitCandidates visitor ending candidates visited matched printed =
        some (lines, .ok .noMatches)) ↔
      (∀ p ∈ candidates.zipIdx visited, continues (visitor p.2 p.1) = true) ∧ ending = none ∧
        matched = false := by
  induction candidates generalizing visited matched printed with
  | nil =>
    cases ending with
    | some e => simp [visitCandidates]
    | none => cases matched <;> simp [visitCandidates]
  | cons candidate rest ih =>
    rw [visitCandidates, List.zipIdx_cons, List.forall_mem_cons]
    dsimp only
    cases visitor visited candidate with
    | none => simp [continues]
    | some visit =>
      obtain ⟨lines, step⟩ := visit
      cases step with
      | «continue» => simpa [continues] using ih (visited + 1) matched (printed ++ lines)
      | matched =>
        simp only [continues, Bool.false_eq_true, false_and, iff_false]
        rw [ih (visited + 1) true (printed ++ lines)]
        simp
      | returnWith value => simp [continues]

theorem visitCandidates_not_mem {visitor : Visitor T} {ending : Option ResolutionError}
    {line : Line}
    (hvisitor : ∀ n candidate lines step, visitor n candidate = some (lines, step) → line ∉ lines)
    {candidates : List String} {visited : Nat} {matched : Bool} {printed lines : List Line}
    {r : Except ResolutionError (PathSearchOutcome T)} (hprinted : line ∉ printed)
    (h : visitCandidates visitor ending candidates visited matched printed = some (lines, r)) :
    line ∉ lines := by
  induction candidates generalizing visited matched printed with
  | nil =>
    cases h
    exact hprinted
  | cons candidate rest ih =>
    rw [visitCandidates] at h
    cases hvisit : visitor visited candidate with
    | none =>
      rw [hvisit] at h
      cases h
    | some visit =>
      obtain ⟨lines', step⟩ := visit
      have hlines := hvisitor _ _ _ _ hvisit
      have happend : line ∉ printed ++ lines' := by simp [hprinted, hlines]
      rw [hvisit] at h
      cases step with
      | «continue» => exact ih happend h
      | matched => exact ih happend h
      | returnWith value =>
        cases h
        exact happend

/-- A visitor that never says `Matched` leaves none. -/
theorem visitCandidates_ne_matched {visitor : Visitor T} {ending : Option ResolutionError}
    (hvisitor : ∀ n candidate lines, visitor n candidate ≠ some (lines, .matched))
    {candidates : List String} {visited : Nat} {printed lines : List Line} :
    visitCandidates visitor ending candidates visited false printed ≠
      some (lines, .ok .matched) := by
  induction candidates generalizing visited printed with
  | nil =>
    cases ending <;> simp [visitCandidates]
  | cons candidate rest ih =>
    rw [visitCandidates]
    cases hvisit : visitor visited candidate with
    | none => simp
    | some visit =>
      obtain ⟨lines', step⟩ := visit
      cases step with
      | «continue» => exact ih
      | matched => exact absurd hvisit (hvisitor _ _ _)
      | returnWith value => simp

end Search

/-! ## What is there -/

/-- Opening a file of the root filesystem. -/
def openRoot (m : Machine) (normalizedPath : String) : Except Stop FatDirectoryEntry :=
  match m.rootFs with
  | none => .error (.storage .rootFsUnavailable)
  | some fs => outcome (fs.openAbsolute m.fuel normalizedPath)

/-- What opening a path comes to. -/
def openAt (m : Machine) (path : String) : Except Stop FatDirectoryEntry :=
  match resolvePath m.cwd path with
  | .error e => .error (.storage e)
  | .ok normalizedPath => openRoot m normalizedPath

/-- **There is no such file**: nothing of that name, or a directory. -/
def absent (m : Machine) (path : String) : Bool :=
  match openAt m path with
  | .error (.storage .fileNotFound) | .error (.storage .notAFile) => true
  | _ => false

/-- The status of the child that the `n`th spawn ran to its end. -/
def childStatus (m : Machine) (n : Nat) (path : String) (argvTail : List UInt8) : Option Nat :=
  (m.spawnUserProcessAndWait n path argvTail).bind Except.toOption

/-- A driver reports its own errors only, and the chain of every file covers its size. -/
structure Machine.Regular (m : Machine) : Prop where
  device : ∀ fs, m.rootFs = some fs → ∀ lba e, fs.device.sector lba = .error e →
    e = .ahciCommandTimeout ∨ e = .ahciTaskFileError
  covers : ∀ fs, m.rootFs = some fs → ∀ path entry,
    outcome (fs.openAbsolute m.fuel path) = .ok entry →
      fs.ChainCovers entry.firstCluster entry.size

/-- Reading an open file never fails as if the file were not there. -/
theorem Machine.Regular.readFile_error {m : Machine} (h : m.Regular) {fs : Fat32}
    (hfs : m.rootFs = some fs) {path : String} {entry : FatDirectoryEntry}
    (hopen : outcome (fs.openAbsolute m.fuel path) = .ok entry) {capacity : Nat} {e : StorageError}
    (herror : outcome (fs.readFile m.fuel entry capacity) = .error (.storage e)) :
    e ≠ .fileNotFound ∧ e ≠ .notAFile := by
  obtain hstop | ⟨lba, e', hsector, hstop⟩ | hstop | hstop :=
    fs.readFile_error (h.covers fs hfs path entry hopen) herror
  · cases hstop
    simp
  · cases hstop
    rcases h.device fs hfs lba e hsector with rfl | rfl <;> simp
  · cases hstop
    simp
  · cases hstop

/-! ### Asking by reading -/

theorem readFileFrom_eq (m : Machine) (path : String) (room : Nat) :
    readFileFrom m.rootFs m.fuel m.cwd path room =
      match m.rootFs with
      | none => (openAt m path).bind fun _ => .error (.storage .rootFsUnavailable)
      | some fs => (openAt m path).bind fun entry => outcome (fs.readFile m.fuel entry room) := by
  rw [readFileFrom, openAt]
  cases resolvePath m.cwd path with
  | error e => cases m.rootFs <;> rfl
  | ok normalizedPath =>
    dsimp only [openRoot]
    cases m.rootFs with
    | none => rfl
    | some fs => exact outcome_readFileInto fs m.fuel normalizedPath room

/-- Reading fails for want of a file if and only if opening does. -/
theorem Machine.Regular.currentProcessReadFile_absent_iff {m : Machine} (h : m.Regular)
    (path : String) (room : Nat) :
    (m.currentProcessReadFile path room = some (.error .fileNotFound) ∨
        m.currentProcessReadFile path room = some (.error .notAFile)) ↔ absent m path = true := by
  rw [currentProcessReadFile, readFileFrom_eq, absent]
  cases hopen : openAt m path with
  | error stop =>
    have hread : (match m.rootFs with
        | none => (Except.error stop : Except Stop FatDirectoryEntry).bind fun _ =>
            (.error (.storage .rootFsUnavailable) : Except Stop (List UInt8))
        | some fs => (Except.error stop).bind fun entry =>
            outcome (fs.readFile m.fuel entry room)) = .error stop := by
      cases m.rootFs <;> rfl
    rw [hread]
    cases stop with
    | outOfFuel => simp
    | storage e => cases e <;> simp
  | ok entry =>
    rw [openAt] at hopen
    cases hpath : resolvePath m.cwd path with
    | error e =>
      rw [hpath] at hopen
      cases hopen
    | ok normalizedPath =>
      rw [hpath] at hopen
      dsimp only [openRoot] at hopen
      cases hfs : m.rootFs with
      | none =>
        rw [hfs] at hopen
        cases hopen
      | some fs =>
        rw [hfs] at hopen
        dsimp only [Except.bind]
        cases hread : outcome (fs.readFile m.fuel entry room) with
        | ok bytes => simp
        | error stop =>
          cases stop with
          | outOfFuel => simp
          | storage e =>
            have hne := h.readFile_error hfs hopen hread
            simp [hne]

theorem Machine.currentProcessReadFile_le (m : Machine) {path : String} {room n : Nat}
    (h : m.currentProcessReadFile path room = some (.ok n)) : n ≤ room := by
  rw [currentProcessReadFile, readFileFrom] at h
  cases hpath : resolvePath m.cwd path with
  | error e =>
    rw [hpath] at h
    cases h
  | ok normalizedPath =>
    rw [hpath] at h
    dsimp only at h
    cases hread : outcome (readRootFileInto m.rootFs m.fuel normalizedPath room) with
    | ok bytes =>
      rw [hread] at h
      cases h
      exact readRootFileInto_length hread
    | error stop =>
      rw [hread] at h
      cases stop <;> cases h

/-- The call through its registers. -/
theorem Machine.readFile_eq (m : Machine) (path : String) {room : Nat}
    (hroom : room ≤ userStackTop) :
    m.readFile path room =
      (m.currentProcessReadFile path room).map (·.mapError ReadFileError.ofStorage) := by
  have htext : (some (strBytes path)).bind fromUtf8 = some path := by
    rw [Option.bind_some, fromUtf8_eq_some]
  rw [readFile, Syscall.readFile, Syscall.withText, htext]
  show ((m.currentProcessReadFile path room).map Syscall.readFileCode).map readFileResult = _
  rw [Option.map_map]
  refine Option.map_congr fun r hr => readFileResult_code fun n hn => ?_
  subst hn
  exact (m.currentProcessReadFile_le hr).trans hroom

/-- **`where` goes on at the candidates that are not there.** -/
theorem probe_continues_iff {m : Machine} (h : m.Regular) (n : Nat) (candidate : String) :
    continues (probeVisitor m n candidate) = absent m candidate := by
  have hiff := h.currentProcessReadFile_absent_iff candidate 1
  rw [Bool.eq_iff_iff, ← hiff, probeVisitor, probePath, m.readFile_eq candidate (by decide)]
  cases m.currentProcessReadFile candidate 1 with
  | none => simp [continues]
  | some r =>
    cases r with
    | ok count => simp [continues, Except.mapError]
    | error e => cases e <;> simp [continues, Except.mapError, ReadFileError.ofStorage]

/-! ### Asking by spawning -/

theorem mapStorageSpawnError_eq_fileNotFound {e : StorageError} :
    mapStorageSpawnError e = .fileNotFound ↔ e = .fileNotFound ∨ e = .notAFile := by
  cases e <;> simp [mapStorageSpawnError]

/-- Reading a program fails for want of a file if and only if opening it does. -/
theorem Machine.Regular.readRootFile_error_iff {m : Machine} (h : m.Regular)
    (normalizedPath : String) (s : MemoryState) {e : StorageError}
    (he : e = .fileNotFound ∨ e = .notAFile) :
    (readRootFile m.rootFs m.fuel normalizedPath s).1 = .error (.storage e) ↔
      openRoot m normalizedPath = .error (.storage e) := by
  rw [openRoot]
  cases hfs : m.rootFs with
  | none => simp [readRootFile]
  | some fs =>
    rw [readRootFile, Storage.readFile]
    dsimp only
    cases hopen : outcome (fs.openAbsolute m.fuel normalizedPath) with
    | error stop => simp
    | ok file =>
      dsimp only
      cases allocateKernelBuffer file.size s with
      | error e' s' => rcases he with rfl | rfl <;> simp
      | ok buffer s' =>
        dsimp only
        cases hread : outcome (fs.readFile m.fuel file buffer.len) with
        | ok bytes => simp
        | error stop =>
          simp only [reduceCtorEq, iff_false]
          intro hstop
          cases hstop
          have hne := h.readFile_error hfs hopen hread
          rcases he with rfl | rfl
          · exact hne.1 rfl
          · exact hne.2 rfl

/-- What is loaded was there, and loading has its own error. -/
theorem readAndLoad_fileNotFound_iff (m : Machine) (normalizedPath : String)
    (argvTail : List UInt8) (s : MemoryState) :
    (readAndLoad m.rootFs m.fuel normalizedPath argvTail s).map Prod.fst =
        some (.error .fileNotFound) ↔
      (readRootFile m.rootFs m.fuel normalizedPath s).1 = .error (.storage .fileNotFound) ∨
        (readRootFile m.rootFs m.fuel normalizedPath s).1 = .error (.storage .notAFile) := by
  rw [readAndLoad]
  obtain ⟨result, s'⟩ := readRootFile m.rootFs m.fuel normalizedPath s
  cases result with
  | error stop =>
    cases stop with
    | outOfFuel => simp
    | storage e => simp [mapStorageSpawnError_eq_fileNotFound]
  | ok file =>
    simp only [reduceCtorEq, or_self, iff_false]
    intro hmap
    obtain ⟨r, hr, hfst⟩ := Option.map_eq_some_iff.mp hmap
    simp only [Option.bind_eq_bind, Option.bind_eq_some_iff, Option.pure_def] at hr
    obtain ⟨⟨loaded, s₁⟩, -, s₂, -, hr⟩ := hr
    cases hr
    cases loaded <;> cases hfst

/-- A spawn fails for want of a file if and only if opening does. -/
theorem Machine.Regular.spawn_absent_iff {m : Machine} (h : m.Regular) (n : Nat) (path : String)
    (argvTail : List UInt8) :
    m.spawnUserProcessAndWait n path argvTail = some (.error .fileNotFound) ↔
      absent m path = true := by
  rw [spawnUserProcessAndWait, absent, openAt]
  cases resolvePath m.cwd path with
  | error e => cases e <;> simp [mapStorageSpawnError]
  | ok normalizedPath =>
    dsimp only
    have hload := readAndLoad_fileNotFound_iff m normalizedPath argvTail (m.memory n)
    rw [h.readRootFile_error_iff normalizedPath (m.memory n) (.inl rfl),
      h.readRootFile_error_iff normalizedPath (m.memory n) (.inr rfl)] at hload
    have habsent : (match openRoot m normalizedPath with
        | .error (.storage .fileNotFound) | .error (.storage .notAFile) => true
        | _ => false) = true ↔
        openRoot m normalizedPath = .error (.storage .fileNotFound) ∨
          openRoot m normalizedPath = .error (.storage .notAFile) := by
      rcases openRoot m normalizedPath with (e | _) | entry
      · cases e <;> simp
      · simp
      · simp
    rw [habsent, ← hload]
    rcases readAndLoad m.rootFs m.fuel normalizedPath argvTail (m.memory n) with
      _ | ⟨e | program, s'⟩
    · simp
    · simp
    · simp only [Option.map_some, Option.some_inj, reduceCtorEq, iff_false]
      cases m.child n program <;> simp [await]

/-- The one status that the wrapper reads as "no such file". -/
theorem spawnWaitResult_eq_fileNotFound {r : Except Scheduler.SpawnError Nat} :
    spawnWaitResult (Syscall.spawnWaitCode r) = .error .fileNotFound ↔
      r = .error .fileNotFound ∨ r = .ok (usizeMax - 1) := by
  cases r with
  | error e => cases e <;> decide
  | ok status =>
    simp only [reduceCtorEq, Except.ok.injEq, false_or]
    constructor
    · intro hresult
      have hcode := ResultCodes.mem_of_decode_eq_error hresult
      have heq : status = SpawnWait.fileNotFound := by simpa [Syscall.spawnWaitCode] using hcode
      exact heq
    · rintro rfl
      decide

/-- **Running goes on at the candidates that are not there**, and where a child exits with
`usize::MAX - 1`. -/
theorem spawn_continues_iff {m : Machine} (h : m.Regular) {args : List String}
    {payload : List UInt8} (hargs : serializeSpawnArgs args = .ok payload) (mode : ExecutionMode)
    (n : Nat) (candidate : String) :
    continues (spawnVisitor m args mode n candidate) =
      (absent m candidate || decide (childStatus m n candidate payload = some (usizeMax - 1))) := by
  have htext : (some (strBytes candidate)).bind fromUtf8 = some candidate := by
    rw [Option.bind_some, fromUtf8_eq_some]
  have hspawn : m.spawnWait n candidate args =
      (m.spawnUserProcessAndWait n candidate payload).map
        (spawnWaitResult ∘ Syscall.spawnWaitCode) := by
    rw [Machine.spawnWait, spawnWaitImpl, hargs]
    dsimp only
    rw [Syscall.spawnWait, Syscall.withText, htext, ← Option.map_map]
    rfl
  have hcontinue : continues (spawnVisitor m args mode n candidate) = true ↔
      m.spawnWait n candidate args = some (.error .fileNotFound) := by
    rw [spawnVisitor]
    rcases m.spawnWait n candidate args with _ | e | status
    · simp [continues]
    · cases e <;> simp [continues]
    · simp [continues]
  rw [Bool.eq_iff_iff, hcontinue, hspawn, Bool.or_eq_true, decide_eq_true_iff,
    ← h.spawn_absent_iff n candidate payload, childStatus]
  rcases m.spawnUserProcessAndWait n candidate payload with _ | r
  · simp
  · rw [Option.map_some, Option.some_inj, Function.comp_apply, spawnWaitResult_eq_fileNotFound]
    cases r <;> simp [Except.toOption]

theorem spawn_not_continues {m : Machine} {args : List String} {e : SpawnSerializeError}
    (hargs : serializeSpawnArgs args = .error e) (mode : ExecutionMode) (n : Nat)
    (candidate : String) : continues (spawnVisitor m args mode n candidate) = false := by
  rw [spawnVisitor, Machine.spawnWait, spawnWaitImpl, hargs]
  cases e <;> rfl

/-! ## What is reported -/

/-- The shell says that there is no such command. -/
def ReportsNotFound (result : Option (List Line × Nat)) (command : String) : Prop :=
  ∃ lines status, result = some (lines, status) ∧ Line.commandNotFound command ∈ lines

theorem firstStop_eq_none_iff {T : Type} {visitor : Visitor T} {candidates : List String} :
    firstStop visitor candidates = none ↔
      ∀ p ∈ candidates.zipIdx, continues (visitor p.2 p.1) = true := by
  simp [firstStop]

/-- A search that adds "command not found" exactly when nothing matched. -/
theorem notFound_iff (m : Machine) (command : String) (visitor : Visitor Nat)
    (finish : List Line × Except ResolutionError (PathSearchOutcome Nat) → List Line × Nat)
    (hquiet : ∀ n candidate lines step, visitor n candidate = some (lines, step) →
      Line.commandNotFound command ∉ lines)
    (hfinish : ∀ printed r, withPathCandidates m.getEnv command visitor = some (printed, r) →
      (Line.commandNotFound command ∈ (finish (printed, r)).1 ↔
        Line.commandNotFound command ∈ printed ∨ r = .ok .noMatches)) :
    ReportsNotFound ((withPathCandidates m.getEnv command visitor).map finish) command ↔
      firstStop visitor (candidates m command).1 = none ∧ (candidates m command).2 = none := by
  have hnone := visitCandidates_noMatches_iff visitor (candidates m command).2
    (candidates m command).1 0 false []
  rw [← withPathCandidates_eq] at hnone
  rw [firstStop_eq_none_iff]
  constructor
  · rintro ⟨lines, status, hresult, hmem⟩
    obtain ⟨⟨printed, r⟩, hrun, heq⟩ := Option.map_eq_some_iff.mp hresult
    have hnot : Line.commandNotFound command ∉ printed :=
      visitCandidates_not_mem hquiet List.not_mem_nil
        ((withPathCandidates_eq m command visitor).symm.trans hrun)
    have hlines : lines = (finish (printed, r)).1 := by rw [heq]
    rw [hlines] at hmem
    obtain hprinted | rfl := (hfinish printed r hrun).mp hmem
    · exact absurd hprinted hnot
    · obtain ⟨hall, hend, -⟩ := hnone.mp ⟨printed, hrun⟩
      exact ⟨hall, hend⟩
  · rintro ⟨hall, hend⟩
    obtain ⟨printed, hrun⟩ := hnone.mpr ⟨hall, hend, rfl⟩
    refine ⟨_, _, by rw [hrun]; rfl, (hfinish printed _ hrun).mpr (.inr rfl)⟩

theorem printPathMatches_notFound_iff (m : Machine) (command : String) :
    ReportsNotFound (printPathMatches m command) command ↔
      firstStop (probeVisitor m) (candidates m command).1 = none ∧
        (candidates m command).2 = none := by
  refine notFound_iff m command (probeVisitor m) _ ?_ ?_
  · intro n candidate lines step hvisit
    obtain ⟨r, -, hlines⟩ := Option.map_eq_some_iff.mp hvisit
    rcases r with (_ | _) | (_ | _) <;> cases hlines <;> simp
  · intro printed r _
    rcases r with (_ | _) | (_ | _ | _) <;> simp

theorem runPathCommand_notFound_iff (m : Machine) (command : String) (args : List String)
    (mode : ExecutionMode) :
    ReportsNotFound (runPathCommand m command args mode) command ↔
      firstStop (spawnVisitor m args mode) (candidates m command).1 = none ∧
        (candidates m command).2 = none := by
  refine notFound_iff m command (spawnVisitor m args mode) _ ?_ ?_
  · intro n candidate lines step hvisit
    obtain ⟨r, -, hlines⟩ := Option.map_eq_some_iff.mp hvisit
    rcases r with e | status
    · cases e <;> cases hlines <;> simp
    · simp only [reportCommandStatus, Prod.mk.injEq] at hlines
      obtain ⟨rfl, -⟩ := hlines
      split_ifs <;> simp
  · intro printed r hrun
    -- the spawn visitor never says `Matched`
    have hne : r ≠ .ok .matched := by
      rintro rfl
      rw [withPathCandidates_eq] at hrun
      refine visitCandidates_ne_matched (fun n candidate lines hvisit => ?_) hrun
      obtain ⟨r, -, hlines⟩ := Option.map_eq_some_iff.mp hvisit
      rcases r with e | status
      · cases e <;> cases hlines
      · cases hlines
    rcases r with (_ | _) | (_ | _ | _)
    · simp
    · simp
    · simp
    · exact absurd rfl hne
    · simp

/-- **`where` predicts execution**: the first candidate at which `where` does not go on is the
one at which running the command stops, and neither says that there is no such command unless
the other does. -/
def WherePredicts (m : Machine) (command : String) (args : List String) (mode : ExecutionMode) :
    Prop :=
  firstStop (probeVisitor m) (candidates m command).1 =
      firstStop (spawnVisitor m args mode) (candidates m command).1 ∧
    (ReportsNotFound (printPathMatches m command) command ↔
      ReportsNotFound (runPathCommand m command args mode) command)

/-- The first candidate that is there, with its position. -/
def firstPresent (m : Machine) (command : String) : Option (String × Nat) :=
  (candidates m command).1.zipIdx.find? fun (candidate, _) => !absent m candidate

/-- A narrower search finds the same if and only if what the wider one finds passes it. -/
theorem find?_and_eq_iff {α : Type} {p q : α → Bool} {l : List α} :
    l.find? (fun x => p x && q x) = l.find? p ↔ ∀ x, l.find? p = some x → q x = true := by
  induction l with
  | nil => simp
  | cons a rest ih =>
    cases hp : p a with
    | false => simpa [List.find?_cons, hp] using ih
    | true =>
      cases hq : q a with
      | true => simp [hp, hq]
      | false =>
        simp only [List.find?_cons, hp, hq, Bool.and_false, Option.some.injEq, forall_eq',
          Bool.false_eq_true, iff_false]
        intro hfind
        have hfound := List.find?_some hfind
        rw [hq, Bool.and_false] at hfound
        cases hfound

theorem firstStop_probe {m : Machine} (h : m.Regular) (command : String) :
    firstStop (probeVisitor m) (candidates m command).1 = firstPresent m command := by
  rw [firstStop, firstPresent]
  congr 1
  funext p
  exact congrArg (! ·) (probe_continues_iff h p.2 p.1)

/-- The two searches agree on where they stop, and then on the rest. -/
theorem wherePredicts_iff_firstStop (m : Machine) (command : String) (args : List String)
    (mode : ExecutionMode) :
    WherePredicts m command args mode ↔
      firstStop (probeVisitor m) (candidates m command).1 =
        firstStop (spawnVisitor m args mode) (candidates m command).1 := by
  refine ⟨And.left, fun heq => ⟨heq, ?_⟩⟩
  rw [printPathMatches_notFound_iff, runPathCommand_notFound_iff, heq]

/-- **When `where` predicts execution.** For every command and `PATH` and every root filesystem
whose files are covered by their chains: if the arguments can be passed on, then if and only if
the program at the first candidate that is there does not exit with `usize::MAX - 1`; and if
they cannot, if and only if the first candidate, should there be one, is there. -/
theorem where_predicts_iff {m : Machine} (h : m.Regular) (command : String) (args : List String)
    (mode : ExecutionMode) :
    WherePredicts m command args mode ↔
      match serializeSpawnArgs args with
      | .ok payload => ∀ candidate n, firstPresent m command = some (candidate, n) →
          childStatus m n candidate payload ≠ some (usizeMax - 1)
      | .error _ => ∀ candidate, (candidates m command).1.head? = some candidate →
          absent m candidate = false := by
  rw [wherePredicts_iff_firstStop, firstStop_probe h]
  cases hargs : serializeSpawnArgs args with
  | ok payload =>
    have hstop : firstStop (spawnVisitor m args mode) (candidates m command).1 =
        (candidates m command).1.zipIdx.find? fun p => (!absent m p.1) &&
          !decide (childStatus m p.2 p.1 payload = some (usizeMax - 1)) := by
      rw [firstStop]
      congr 1
      funext p
      show (!continues (spawnVisitor m args mode p.2 p.1)) = _
      rw [spawn_continues_iff h hargs mode p.2 p.1, Bool.not_or]
    rw [hstop, eq_comm, firstPresent, find?_and_eq_iff]
    simp only [Prod.forall, Bool.not_eq_true', decide_eq_false_iff_not, ne_eq]
  | error e =>
    have hstop : firstStop (spawnVisitor m args mode) (candidates m command).1 =
        (candidates m command).1.zipIdx.find? fun _ => true := by
      rw [firstStop]
      congr 1
      funext p
      show (!continues (spawnVisitor m args mode p.2 p.1)) = true
      rw [spawn_not_continues hargs mode p.2 p.1]
      rfl
    have hpresent : firstPresent m command =
        (candidates m command).1.zipIdx.find? fun p => true && !absent m p.1 := rfl
    rw [hstop, hpresent, find?_and_eq_iff]
    cases (candidates m command).1 with
    | nil => simp
    | cons candidate rest => simp

/-! ### A child that exits with `usize::MAX - 1` -/

/-- The directory entry of a file in cluster 3. -/
def programEntry : List UInt8 :=
  strBytes "A          " ++ [32] ++ List.replicate 14 0 ++ [3, 0, codePage.length.toUInt8, 0, 0, 0]

/-- A root directory with the one file `A`, which is a program of one page. -/
def programVolume : Fat32 where
  device := ⟨fun lba => .ok (
    if lba = 1 then sectorOf (List.replicate 8 0 ++ Fat32.endMark ++ Fat32.endMark)
    else if lba = 2 then sectorOf programEntry
    else if lba = 3 then sectorOf codePage
    else sectorOf [])⟩
  partitionStartLba := 0
  partitionSectorCount := 100
  sectorsPerCluster := 1
  reservedSectorCount := 1
  rootCluster := 2
  firstDataSector := 2

/-- `PATH=/`, and every child exits with `status`. -/
def programMachine (status : Nat) : Machine where
  rootFs := some programVolume
  fuel := 4
  cwd := "/"
  getEnv _ _ := .ok (strBytes "/")
  memory _ := overlapRun.state
  child _ _ := .exited status

theorem findInSector_programEntry (shortName : List UInt8) :
    Fat32.findInSector shortName (sectorOf programEntry) 16 0 =
      if strBytes "A          " = shortName then .found ⟨3, 120, false⟩ else .ended := by
  have hfirst : ((sectorOf programEntry).toList.drop 0).take 32 = programEntry := by
    decide +kernel
  have hsecond : (((sectorOf programEntry).toList.drop 32).take 32).getD 0 0 = 0 := by
    decide +kernel
  have hname : programEntry.take 11 = strBytes "A          " := by decide +kernel
  have hentry : programEntry.getD 0 0 = 65 ∧ programEntry.getD 11 0 = 32 ∧
      (readLeU16 programEntry 20 <<< 16) ||| readLeU16 programEntry 26 = 3 ∧
      readLeU32 programEntry 28 = 120 := by
    decide +kernel
  rw [Fat32.findInSector, fatDirectoryEntrySize, hfirst, hname, hentry.1, hentry.2.1,
    hentry.2.2.1, hentry.2.2.2, Fat32.findInSector, fatDirectoryEntrySize, Nat.zero_add, hsecond]
  rfl

/-- A root directory of one sector in which every search ends or finds `file`. -/
structure OneFile (fs : Fat32) (sector : Sector) (file : FatDirectoryEntry) : Prop where
  cluster : fs.sectorsPerCluster = 1
  root : fs.clusterToLba fs.rootCluster = .ok 2
  read : fs.device.sector 2 = .ok sector
  find : ∀ shortName, Fat32.findInSector shortName sector 16 0 = .found file ∨
    Fat32.findInSector shortName sector 16 0 = .ended
  isFile : file.isDirectory = false

theorem OneFile.find_triple {fs : Fat32} {sector : Sector} {file : FatDirectoryEntry}
    (h : OneFile fs sector file) (fuel : Nat) (component : String) :
    Triple (fun _ => True) (fs.findInDirectory fuel fs.rootCluster component)
      (fun entry _ => entry = file) fun _ _ => True := by
  refine Triple.bind (Triple.top _) fun shortName => ?_
  cases fuel with
  | zero => exact Triple.throw fun _ _ => trivial
  | succ fuel =>
    have hread : Triple (fun _ => True) (fs.device.readSector 2) (fun s _ => s = sector)
        fun _ _ => True := by
      intro log _
      rw [BlockDevice.readSector, h.read]
    have hcluster : Triple (fun _ => True) (fs.findInCluster shortName.toList 2 1 0)
        (fun found _ => found = some file) fun _ _ => True := by
      rw [Fat32.findInCluster, show wrap64 (2 + 0) = 2 from rfl]
      refine Triple.bind hread fun s => Triple.of_start fun _ hs => ?_
      subst hs
      obtain hfound | hended := h.find shortName.toList
      · rw [show sectorSize / fatDirectoryEntrySize = 16 from rfl, hfound]
        exact Triple.pure fun _ _ => rfl
      · rw [show sectorSize / fatDirectoryEntrySize = 16 from rfl, hended]
        exact Triple.throw fun _ _ => trivial
    rw [Fat32.findInChain, h.root, h.cluster]
    refine Triple.bind (Q := fun lba _ => lba = 2) (Triple.pure fun _ _ => rfl) fun lba => ?_
    refine Triple.of_start fun _ hlba => ?_
    subst hlba
    refine Triple.bind (hcluster.conseq (fun _ _ => trivial) (fun _ _ h => h) fun _ _ h => h)
      fun found => Triple.of_start fun _ hfound => ?_
    subst hfound
    exact Triple.pure fun _ _ => rfl

/-- Whatever opens is that file. -/
theorem OneFile.open_eq {fs : Fat32} {sector : Sector} {file : FatDirectoryEntry}
    (h : OneFile fs sector file) {fuel : Nat} {path : String} {entry : FatDirectoryEntry}
    (hok : outcome (fs.openAbsolute fuel path) = .ok entry) : entry = file := by
  have hresolve : Triple (fun _ => True) (fs.resolveAbsolute fuel path)
      (fun resolved _ => ∀ entry, resolved = .file entry → entry = file) fun _ _ => True := by
    rw [Fat32.resolveAbsolute]
    split_ifs
    · exact Triple.throw fun _ _ => trivial
    · cases (split path '/').filter (· ≠ "") with
      | nil => exact Triple.pure fun _ _ _ hfile => by cases hfile
      | cons component rest =>
        refine Triple.bind (h.find_triple fuel component) fun entry => ?_
        refine Triple.of_start fun _ hentry => ?_
        subst hentry
        simp only [h.isFile, Bool.false_eq_true, if_false, if_true]
        split_ifs
        · exact Triple.pure fun _ _ _ hfile => (FatResolvedPath.file.inj hfile).symm
        · exact Triple.throw fun _ _ => trivial
  have hopen : Triple (fun _ => True) (fs.openAbsolute fuel path)
      (fun entry _ => entry = file) fun _ _ => True := by
    refine Triple.bind hresolve fun resolved => ?_
    cases resolved with
    | file entry => exact Triple.pure fun _ h => h entry rfl
    | rootDirectory => exact Triple.throw fun _ _ => trivial
    | directory cluster => exact Triple.throw fun _ _ => trivial
  exact (outcome_of_triple hopen).1 _ hok

theorem programVolume_oneFile :
    OneFile programVolume (sectorOf programEntry) ⟨3, 120, false⟩ where
  cluster := rfl
  root := by decide
  read := rfl
  find shortName := by
    rw [findInSector_programEntry]
    split_ifs
    · exact .inl rfl
    · exact .inr rfl
  isFile := rfl

theorem programMachine_regular (status : Nat) : (programMachine status).Regular where
  device fs hfs lba e herror := by
    cases hfs
    cases herror
  covers fs hfs path entry hopen := by
    cases hfs
    intro k other _ hsize
    rw [programVolume_oneFile.open_eq hopen, show programVolume.clusterBytes = 512 from rfl] at hsize
    dsimp only at hsize
    omega

/-- The children of the machine exit with its status. -/
theorem childStatus_programMachine {status n : Nat} {path : String} {argvTail : List UInt8}
    {s : Nat} (h : childStatus (programMachine status) n path argvTail = some s) : s = status := by
  rw [childStatus, Machine.spawnUserProcessAndWait] at h
  cases hpath : resolvePath (programMachine status).cwd path with
  | error e =>
    rw [hpath] at h
    cases h
  | ok normalizedPath =>
    rw [hpath] at h
    dsimp only at h
    rcases hload : readAndLoad (programMachine status).rootFs (programMachine status).fuel
      normalizedPath argvTail ((programMachine status).memory n) with _ | ⟨e | program, s'⟩
    · rw [hload] at h
      cases h
    · rw [hload] at h
      cases h
    · rw [hload] at h
      exact (Option.some.inj h).symm

/-- A program that exits with zero is found where it is run. -/
theorem where_predicts_at_programMachine :
    WherePredicts (programMachine 0) "a" [] .interactive := by
  refine (where_predicts_iff (programMachine_regular 0) "a" [] .interactive).mpr ?_
  intro candidate n _ hstatus
  exact absurd (childStatus_programMachine hstatus) (by decide)

/-- **A program that answers for the kernel**: `where` finds it, and running it says that there
is no such command. -/
theorem where_predicts_fails_at_programMachine :
    (programMachine (usizeMax - 1)).Regular ∧
      printPathMatches (programMachine (usizeMax - 1)) "a" = some ([.found "//a"], 0) ∧
      runPathCommand (programMachine (usizeMax - 1)) "a" [] .batch =
        some ([.commandNotFound "a"], 1) ∧
      ¬ WherePredicts (programMachine (usizeMax - 1)) "a" [] .batch := by
  have hwhere : printPathMatches (programMachine (usizeMax - 1)) "a" =
      some ([.found "//a"], 0) := by
    decide +kernel
  have hrun : runPathCommand (programMachine (usizeMax - 1)) "a" [] .batch =
      some ([.commandNotFound "a"], 1) := by
    decide +kernel
  refine ⟨programMachine_regular _, hwhere, hrun, fun hpredicts => ?_⟩
  obtain ⟨lines, status, hlines, hmem⟩ :=
    hpredicts.2.mpr ⟨_, _, hrun, List.mem_singleton.mpr rfl⟩
  rw [hwhere] at hlines
  cases hlines
  simp at hmem

end Lazers.Lash
