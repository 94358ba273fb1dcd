import Lazers.Lib.ResultCodes
import Lazers.LibLazer.Process
import Lazers.Syscall

/-!
# Typed wrappers (`liblazer/src/process.rs`, `fs.rs`, `env.rs`)

A wrapper puts its arguments into registers and matches on the word that comes back. The
other end of the trip is the handler in `syscall.rs`; `Context.outcome` says what the handler
had to tell, and `RoundTrips` that the wrapper learns exactly that.

Byte counts are bounded by the buffer, and no buffer the kernel accepts comes near the
error codes. The exit status of a child has no such bound: the last four statuses are taken
for errors, and nothing else is lost (`roundTrips_iff`).
-/

namespace Lazers.LibLazer

open KernelAbi Memory Scheduler Storage Syscall

inductive SpawnError where
  | invalidPath
  | fileNotFound
  | invalidExecutable
  | resourceUnavailable
deriving DecidableEq, Repr

inductive ReadDirError where
  | invalidPath
  | notFound
  | bufferTooSmall
  | resourceUnavailable
deriving DecidableEq, Repr

inductive ChdirError where
  | invalidPath
  | notFound
  | resourceUnavailable
deriving DecidableEq, Repr

inductive GetCwdError where
  | bufferTooSmall
  | resourceUnavailable
deriving DecidableEq, Repr

inductive ReadFileError where
  | invalidPath
  | notFound
  | notAFile
  | bufferTooSmall
  | resourceUnavailable
deriving DecidableEq, Repr

inductive GetEnvError where
  | invalidKey
  | notFound
  | bufferTooSmall
  | resourceUnavailable
deriving DecidableEq, Repr

inductive SetEnvError where
  | invalidKey
  | keyTooLong
  | valueTooLong
  | capacityExceeded
  | resourceUnavailable
deriving DecidableEq, Repr

inductive UnsetEnvError where
  | invalidKey
  | notFound
  | resourceUnavailable
deriving DecidableEq, Repr

inductive ListEnvError where
  | bufferTooSmall
  | resourceUnavailable
deriving DecidableEq, Repr

/-! ## Matching on the word -/

/-- The match of `spawn_wait_impl`. -/
def spawnWaitResult : Nat → Except SpawnError Nat := ResultCodes.decode [
  (SpawnWait.invalidPath, .invalidPath),
  (SpawnWait.fileNotFound, .fileNotFound),
  (SpawnWait.invalidExecutable, .invalidExecutable),
  (SpawnWait.resourceUnavailable, .resourceUnavailable)]

/-- The match of `read_dir`. -/
def readDirResult : Nat → Except ReadDirError Nat := ResultCodes.decode [
  (ReadDir.invalidPath, .invalidPath),
  (ReadDir.notFound, .notFound),
  (ReadDir.bufferTooSmall, .bufferTooSmall),
  (ReadDir.resourceUnavailable, .resourceUnavailable)]

/-- The match of `chdir`. -/
def chdirResult : Nat → Except ChdirError Unit := ResultCodes.decodeUnit [
  (Chdir.invalidPath, .invalidPath),
  (Chdir.notFound, .notFound),
  (Chdir.resourceUnavailable, .resourceUnavailable)] .resourceUnavailable

/-- The match of `getcwd`. -/
def getcwdResult : Nat → Except GetCwdError Nat := ResultCodes.decode [
  (GetCwd.bufferTooSmall, .bufferTooSmall),
  (GetCwd.resourceUnavailable, .resourceUnavailable)]

/-- The match of `read_file`. -/
def readFileResult : Nat → Except ReadFileError Nat := ResultCodes.decode [
  (ReadFile.invalidPath, .invalidPath),
  (ReadFile.notFound, .notFound),
  (ReadFile.notAFile, .notAFile),
  (ReadFile.bufferTooSmall, .bufferTooSmall),
  (ReadFile.resourceUnavailable, .resourceUnavailable)]

/-- The match of `get_env`. -/
def getEnvResult : Nat → Except GetEnvError Nat := ResultCodes.decode [
  (GetEnv.invalidKey, .invalidKey),
  (GetEnv.notFound, .notFound),
  (GetEnv.bufferTooSmall, .bufferTooSmall),
  (GetEnv.resourceUnavailable, .resourceUnavailable)]

/-- The match of `set_env`. -/
def setEnvResult : Nat → Except SetEnvError Unit := ResultCodes.decodeUnit [
  (SetEnv.invalidKey, .invalidKey),
  (SetEnv.keyTooLong, .keyTooLong),
  (SetEnv.valueTooLong, .valueTooLong),
  (SetEnv.capacityExceeded, .capacityExceeded),
  (SetEnv.resourceUnavailable, .resourceUnavailable)] .resourceUnavailable

/-- The match of `unset_env`. -/
def unsetEnvResult : Nat → Except UnsetEnvError Unit := ResultCodes.decodeUnit [
  (UnsetEnv.invalidKey, .invalidKey),
  (UnsetEnv.notFound, .notFound),
  (UnsetEnv.resourceUnavailable, .resourceUnavailable)] .resourceUnavailable

/-- The match of `list_env`. -/
def listEnvResult : Nat → Except ListEnvError Nat := ResultCodes.decode [
  (ListEnv.bufferTooSmall, .bufferTooSmall),
  (ListEnv.resourceUnavailable, .resourceUnavailable)]

/-- `spawn_wait_impl`, on what the kernel returns for a payload. -/
def spawnWaitImpl (syscall : List UInt8 → Option Nat) (args : List String) :
    Option (Except SpawnError Nat) :=
  match serializeSpawnArgs args with
  | .error .invalidUtf8 => some (.error .invalidPath)
  | .error .tooLarge => some (.error .resourceUnavailable)
  | .ok payload => (syscall payload).map spawnWaitResult

/-! ## What the kernel has to tell -/

/-- The error of the same name. -/
def SpawnError.ofKernel : Scheduler.SpawnError → SpawnError
  | .invalidPath => .invalidPath
  | .fileNotFound => .fileNotFound
  | .invalidExecutable => .invalidExecutable
  | .resourceUnavailable => .resourceUnavailable

/-- A path that cannot name anything, a path that names no directory, a listing that does not
fit; anything else is out of the caller's hands. -/
def ReadDirError.ofStorage : StorageError → ReadDirError
  | .invalidPath | .pathNotAbsolute | .invalidShortName => .invalidPath
  | .fileNotFound | .notADirectory => .notFound
  | .bufferTooSmall => .bufferTooSmall
  | _ => .resourceUnavailable

def ChdirError.ofStorage : StorageError → ChdirError
  | .invalidPath | .pathNotAbsolute | .invalidShortName => .invalidPath
  | .fileNotFound | .notADirectory => .notFound
  | _ => .resourceUnavailable

def ReadFileError.ofStorage : StorageError → ReadFileError
  | .invalidPath | .pathNotAbsolute | .invalidShortName => .invalidPath
  | .fileNotFound => .notFound
  | .notAFile => .notAFile
  | .bufferTooSmall => .bufferTooSmall
  | _ => .resourceUnavailable

/-- A lookup has one word for everything that can be wrong with a key. -/
def GetEnvError.ofAccess : EnvironmentAccessError → GetEnvError
  | .notFound => .notFound
  | .bufferTooSmall => .bufferTooSmall
  | .resourceUnavailable => .resourceUnavailable
  | _ => .invalidKey

def SetEnvError.ofAccess : EnvironmentAccessError → SetEnvError
  | .invalidKey => .invalidKey
  | .keyTooLong => .keyTooLong
  | .valueTooLong => .valueTooLong
  | .capacityExceeded => .capacityExceeded
  | _ => .resourceUnavailable

def UnsetEnvError.ofAccess : EnvironmentAccessError → UnsetEnvError
  | .notFound => .notFound
  | .resourceUnavailable | .bufferTooSmall => .resourceUnavailable
  | _ => .invalidKey

/-- `write_listing_into` says that a listing does not fit with its own error for a full
table. -/
def ListEnvError.ofAccess : EnvironmentAccessError → ListEnvError
  | .bufferTooSmall | .capacityExceeded => .bufferTooSmall
  | _ => .resourceUnavailable

/-- A wrapper and its pointers, each an address with a length. -/
inductive Call where
  | spawnWait (path argv : Nat × Nat)
  | spawnWaitSilent (path argv : Nat × Nat)
  | readDir (path buffer : Nat × Nat)
  | chdir (path : Nat × Nat)
  | getcwd (buffer : Nat × Nat)
  | readFile (path buffer : Nat × Nat)
  | getEnv (key buffer : Nat × Nat)
  | setEnv (key value : Nat × Nat)
  | unsetEnv (key : Nat × Nat)
  | listEnv (buffer : Nat × Nat)

namespace Call

/-- What the wrapper returns. -/
def Result : Call → Type
  | spawnWait .. | spawnWaitSilent .. => Except SpawnError Nat
  | readDir .. => Except ReadDirError Nat
  | chdir .. => Except ChdirError Unit
  | getcwd .. => Except GetCwdError Nat
  | readFile .. => Except ReadFileError Nat
  | getEnv .. => Except GetEnvError Nat
  | setEnv .. => Except SetEnvError Unit
  | unsetEnv .. => Except UnsetEnvError Unit
  | listEnv .. => Except ListEnvError Nat

/-- The wrapper's match on `rax`. -/
def result : (call : Call) → Nat → call.Result
  | spawnWait .. | spawnWaitSilent .. => spawnWaitResult
  | readDir .. => readDirResult
  | chdir .. => chdirResult
  | getcwd .. => getcwdResult
  | readFile .. => readFileResult
  | getEnv .. => getEnvResult
  | setEnv .. => setEnvResult
  | unsetEnv .. => unsetEnvResult
  | listEnv .. => listEnvResult

end Call

section Trip

variable (c : Context)

/-- What the dispatcher leaves in `rax`. -/
def rax : Call → Option Nat
  | .spawnWait path argv =>
    Syscall.spawnWait (c.spawn false) (c.slice path) (c.slice argv)
  | .spawnWaitSilent path argv =>
    Syscall.spawnWait (c.spawn true) (c.slice path) (c.slice argv)
  | .readDir path buffer =>
    Syscall.readDir c.currentProcessReadDir (c.slice path) (room buffer)
  | .chdir path => Syscall.chdir c.currentProcessChdir (c.slice path)
  | .getcwd buffer => Syscall.getcwd c.currentProcessGetcwd (room buffer)
  | .readFile path buffer =>
    Syscall.readFile c.currentProcessReadFile (c.slice path) (room buffer)
  | .getEnv key buffer =>
    Syscall.getEnv c.currentProcessGetEnv (c.slice key) (room buffer)
  | .setEnv key value =>
    Syscall.setEnv c.currentProcessSetEnv (c.slice key) (c.slice value)
  | .unsetEnv key => Syscall.unsetEnv c.currentProcessUnsetEnv (c.slice key)
  | .listEnv buffer => Syscall.listEnv c.currentProcessListEnv (room buffer)

/-- A spawn as its caller should see it. -/
def spawnOutcome (silent : Bool) (path argv : Nat × Nat) : Option (Except SpawnError Nat) :=
  withText (c.slice path) (some (.error .invalidPath)) fun path =>
    withSlice (c.slice argv) (some (.error .resourceUnavailable)) fun argvTail =>
      (c.spawn silent path argvTail).map (·.mapError SpawnError.ofKernel)

/-- **What a call comes to in the kernel**, in the caller's types: the value of the service, or
the error that matches what went wrong. -/
def outcome : (call : Call) → Option call.Result
  | .spawnWait path argv => spawnOutcome c false path argv
  | .spawnWaitSilent path argv => spawnOutcome c true path argv
  | .readDir path buffer =>
    withText (c.slice path) (some (.error ReadDirError.invalidPath)) fun path =>
      withSlice (room buffer) (some (.error .resourceUnavailable)) fun room =>
        (c.currentProcessReadDir path room).map (·.mapError ReadDirError.ofStorage)
  | .chdir path =>
    withText (c.slice path) (some (.error ChdirError.invalidPath)) fun path =>
      (c.currentProcessChdir path).map (·.mapError ChdirError.ofStorage)
  | .getcwd buffer =>
    withSlice (room buffer) (some (.error GetCwdError.resourceUnavailable))
      fun room => (c.currentProcessGetcwd room).map fun
        | some bytesWritten => .ok bytesWritten
        | none => .error .bufferTooSmall
  | .readFile path buffer =>
    withText (c.slice path) (some (.error ReadFileError.invalidPath)) fun path =>
      withSlice (room buffer) (some (.error .resourceUnavailable)) fun room =>
        (c.currentProcessReadFile path room).map (·.mapError ReadFileError.ofStorage)
  | .getEnv key buffer =>
    withText (c.slice key) (some (.error GetEnvError.invalidKey)) fun key =>
      withSlice (room buffer) (some (.error .resourceUnavailable)) fun room =>
        (c.currentProcessGetEnv key room).map (·.mapError GetEnvError.ofAccess)
  | .setEnv key value =>
    withText (c.slice key) (some (.error SetEnvError.invalidKey)) fun key =>
      withText (c.slice value) (some (.error .resourceUnavailable)) fun value =>
        (c.currentProcessSetEnv key value).map (·.mapError SetEnvError.ofAccess)
  | .unsetEnv key =>
    withText (c.slice key) (some (.error UnsetEnvError.invalidKey)) fun key =>
      (c.currentProcessUnsetEnv key).map (·.mapError UnsetEnvError.ofAccess)
  | .listEnv buffer =>
    withSlice (room buffer) (some (.error ListEnvError.resourceUnavailable))
      fun room => (c.currentProcessListEnv room).map (·.mapError ListEnvError.ofAccess)

/-- The wrapper returns what the call came to, and does not return if the call does not. -/
def RoundTrips (call : Call) : Prop := (rax c call).map call.result = outcome c call

/-- The status a child exited with, if the call ran one to its end. -/
def childStatus : Call → Option Nat
  | .spawnWait path argv => exited false path argv
  | .spawnWaitSilent path argv => exited true path argv
  | _ => none
where
  exited (silent : Bool) (path argv : Nat × Nat) : Option Nat :=
    ((c.slice path).bind fromUtf8).bind fun text =>
      (c.slice argv).bind fun argvTail => (c.spawn silent text argvTail).bind Except.toOption

/-! ## Every code is matched -/

/-- A count that fits a buffer is below all codes. -/
theorem decode_count {ε : Type} {codes : List (Nat × ε)} {n : Nat}
    (hcodes : ∀ code ∈ codes, usizeMax - 4 ≤ code.1) (hn : n ≤ userStackTop) :
    ResultCodes.decode codes n = .ok n := by
  refine ResultCodes.decode_of_lt hcodes ?_
  have hlt : userStackTop < usizeMax - 4 := by decide
  omega

theorem readDirResult_code {r : Except StorageError Nat}
    (h : ∀ n, r = .ok n → n ≤ userStackTop) :
    readDirResult (readDirCode r) = r.mapError ReadDirError.ofStorage := by
  cases r with
  | ok n => exact decode_count (by decide) (h n rfl)
  | error e => cases e <;> rfl

theorem chdirResult_code (r : Except StorageError Unit) :
    chdirResult (chdirCode r) = r.mapError ChdirError.ofStorage := by
  cases r with
  | ok _ => rfl
  | error e => cases e <;> rfl

theorem readFileResult_code {r : Except StorageError Nat}
    (h : ∀ n, r = .ok n → n ≤ userStackTop) :
    readFileResult (readFileCode r) = r.mapError ReadFileError.ofStorage := by
  cases r with
  | ok n => exact decode_count (by decide) (h n rfl)
  | error e => cases e <;> rfl

theorem getEnvResult_code {r : Except EnvironmentAccessError Nat}
    (h : ∀ n, r = .ok n → n ≤ userStackTop) :
    getEnvResult (getEnvCode r) = r.mapError GetEnvError.ofAccess := by
  cases r with
  | ok n => exact decode_count (by decide) (h n rfl)
  | error e => cases e <;> rfl

theorem setEnvResult_code (r : Except EnvironmentAccessError Unit) :
    setEnvResult (setEnvCode r) = r.mapError SetEnvError.ofAccess := by
  cases r with
  | ok _ => rfl
  | error e => cases e <;> rfl

theorem unsetEnvResult_code (r : Except EnvironmentAccessError Unit) :
    unsetEnvResult (unsetEnvCode r) = r.mapError UnsetEnvError.ofAccess := by
  cases r with
  | ok _ => rfl
  | error e => cases e <;> rfl

theorem listEnvResult_code {r : Except EnvironmentAccessError Nat}
    (h : ∀ n, r = .ok n → n ≤ userStackTop) :
    listEnvResult (listEnvCode r) = r.mapError ListEnvError.ofAccess := by
  cases r with
  | ok n => exact decode_count (by decide) (h n rfl)
  | error e => cases e <;> rfl

/-- An exit status is matched as a status if and only if it is below the codes. -/
theorem spawnWaitResult_code {r : Except Scheduler.SpawnError Nat}
    (h : ∀ status, r = .ok status → status ≤ usizeMax) :
    spawnWaitResult (spawnWaitCode r) = r.mapError SpawnError.ofKernel ↔
      ∀ status, r = .ok status → status < usizeMax - 3 := by
  cases r with
  | error e => cases e <;> exact iff_of_true rfl nofun
  | ok status =>
    have hle := h status rfl
    have hdecode : spawnWaitResult status = .ok status ↔ status < usizeMax - 3 := by
      rw [spawnWaitResult, ResultCodes.decode_eq_ok_iff]
      simp only [List.mem_cons, List.not_mem_nil, or_false, forall_eq_or_imp, forall_eq,
        SpawnWait.invalidPath, SpawnWait.fileNotFound, SpawnWait.invalidExecutable,
        SpawnWait.resourceUnavailable, true_and]
      omega
    refine hdecode.trans ⟨fun hlt s hs => ?_, fun hlt => hlt status rfl⟩
    cases hs
    exact hlt

/-! ## The trips -/

theorem spawn_roundTrips_iff (silent : Bool) (path argv : Nat × Nat) :
    (Syscall.spawnWait (c.spawn silent) (c.slice path) (c.slice argv)).map spawnWaitResult =
        spawnOutcome c silent path argv ↔
      ∀ s, childStatus.exited c silent path argv = some s → s < usizeMax - 3 := by
  rw [Syscall.spawnWait, spawnOutcome, withText, withText, childStatus.exited]
  cases (c.slice path).bind fromUtf8 with
  | none => exact iff_of_true rfl (by rintro s ⟨⟩)
  | some text =>
    cases c.slice argv with
    | none => exact iff_of_true rfl (by rintro s ⟨⟩)
    | some argvTail =>
      show ((c.spawn silent text argvTail).map spawnWaitCode).map spawnWaitResult =
        (c.spawn silent text argvTail).map _ ↔
          ∀ s, (c.spawn silent text argvTail).bind Except.toOption = some s → _
      cases hspawn : c.spawn silent text argvTail with
      | none => exact iff_of_true rfl (by rintro s ⟨⟩)
      | some r =>
        have hle : ∀ status, r = .ok status → status ≤ usizeMax := by
          rintro status rfl
          exact c.status_le silent text argvTail status hspawn
        refine Option.some_inj.trans ((spawnWaitResult_code hle).trans ?_)
        cases r with
        | error e => exact iff_of_true (by rintro s ⟨⟩) (by rintro s ⟨⟩)
        | ok status =>
          constructor
          · rintro hlt s hs
            cases hs
            exact hlt status rfl
          · rintro hlt s hs
            cases hs
            exact hlt status rfl

theorem readDir_roundTrips (path buffer : Nat × Nat) : RoundTrips c (.readDir path buffer) := by
  show (Syscall.readDir _ _ _).map readDirResult = _
  rw [Syscall.readDir, map_withText (Option.map readDirResult)]
  refine withText_congr rfl fun path => ?_
  rw [map_withSlice (Option.map readDirResult)]
  refine withSlice_congr rfl fun room hroom => ?_
  rw [Option.map_map]
  refine Option.map_congr fun r hr => readDirResult_code fun n hn => ?_
  subst hn
  exact (c.currentProcessReadDir_le hr).trans (room_le hroom)

theorem chdir_roundTrips (path : Nat × Nat) : RoundTrips c (.chdir path) := by
  show (Syscall.chdir _ _).map chdirResult = _
  rw [Syscall.chdir, map_withText (Option.map chdirResult)]
  refine withText_congr rfl fun path => ?_
  rw [Option.map_map]
  exact Option.map_congr fun r _ => chdirResult_code r

theorem getcwd_roundTrips (buffer : Nat × Nat) : RoundTrips c (.getcwd buffer) := by
  show (Syscall.getcwd _ _).map getcwdResult = _
  rw [Syscall.getcwd, map_withSlice (Option.map getcwdResult)]
  refine withSlice_congr rfl fun room hroom => ?_
  rw [Option.map_map]
  refine Option.map_congr fun r hr => ?_
  cases r with
  | none => rfl
  | some n => exact decode_count (by decide) ((c.currentProcessGetcwd_le hr).trans (room_le hroom))

theorem readFile_roundTrips (path buffer : Nat × Nat) : RoundTrips c (.readFile path buffer) := by
  show (Syscall.readFile _ _ _).map readFileResult = _
  rw [Syscall.readFile, map_withText (Option.map readFileResult)]
  refine withText_congr rfl fun path => ?_
  rw [map_withSlice (Option.map readFileResult)]
  refine withSlice_congr rfl fun room hroom => ?_
  rw [Option.map_map]
  refine Option.map_congr fun r hr => readFileResult_code fun n hn => ?_
  subst hn
  exact (c.currentProcessReadFile_le hr).trans (room_le hroom)

theorem getEnv_roundTrips (key buffer : Nat × Nat) : RoundTrips c (.getEnv key buffer) := by
  show (Syscall.getEnv _ _ _).map getEnvResult = _
  rw [Syscall.getEnv, map_withText (Option.map getEnvResult)]
  refine withText_congr rfl fun key => ?_
  rw [map_withSlice (Option.map getEnvResult)]
  refine withSlice_congr rfl fun room hroom => ?_
  rw [Option.map_map]
  refine Option.map_congr fun r hr => getEnvResult_code fun n hn => ?_
  subst hn
  exact (c.currentProcessGetEnv_le hr).trans (room_le hroom)

theorem setEnv_roundTrips (key value : Nat × Nat) : RoundTrips c (.setEnv key value) := by
  show (Syscall.setEnv _ _ _).map setEnvResult = _
  rw [Syscall.setEnv, map_withText (Option.map setEnvResult)]
  refine withText_congr rfl fun key => ?_
  rw [map_withText (Option.map setEnvResult)]
  refine withText_congr rfl fun value => ?_
  rw [Option.map_map]
  exact Option.map_congr fun r _ => setEnvResult_code r

theorem unsetEnv_roundTrips (key : Nat × Nat) : RoundTrips c (.unsetEnv key) := by
  show (Syscall.unsetEnv _ _).map unsetEnvResult = _
  rw [Syscall.unsetEnv, map_withText (Option.map unsetEnvResult)]
  refine withText_congr rfl fun key => ?_
  rw [Option.map_map]
  exact Option.map_congr fun r _ => unsetEnvResult_code r

theorem listEnv_roundTrips (buffer : Nat × Nat) : RoundTrips c (.listEnv buffer) := by
  show (Syscall.listEnv _ _).map listEnvResult = _
  rw [Syscall.listEnv, map_withSlice (Option.map listEnvResult)]
  refine withSlice_congr rfl fun room hroom => ?_
  rw [Option.map_map]
  refine Option.map_congr fun r hr => listEnvResult_code fun n hn => ?_
  subst hn
  exact (c.currentProcessListEnv_le hr).trans (room_le hroom)

/-- **What the wrappers lose.** Whatever the kernel comes to on a call, the wrapper returns
it, the value of a success unchanged and otherwise the matching error, if and only if the call
is not a spawn whose child exits with one of the last four statuses. -/
theorem roundTrips_iff (call : Call) :
    RoundTrips c call ↔ ∀ s, childStatus c call = some s → s < usizeMax - 3 := by
  cases call with
  | spawnWait path argv => exact spawn_roundTrips_iff c false path argv
  | spawnWaitSilent path argv => exact spawn_roundTrips_iff c true path argv
  | readDir path buffer => exact iff_of_true (readDir_roundTrips c path buffer) nofun
  | chdir path => exact iff_of_true (chdir_roundTrips c path) nofun
  | getcwd buffer => exact iff_of_true (getcwd_roundTrips c buffer) nofun
  | readFile path buffer => exact iff_of_true (readFile_roundTrips c path buffer) nofun
  | getEnv key buffer => exact iff_of_true (getEnv_roundTrips c key buffer) nofun
  | setEnv key value => exact iff_of_true (setEnv_roundTrips c key value) nofun
  | unsetEnv key => exact iff_of_true (unsetEnv_roundTrips c key) nofun
  | listEnv buffer => exact iff_of_true (listEnv_roundTrips c buffer) nofun

end Trip

/-- A child that exits with `usize::MAX - 1`, at whatever path. -/
def exitsLate : Context where
  scheduler := SchedulerState.new 0
  rootFs := none
  fuel := 0
  memory _ := 97
  spawn _ _ _ := some (.ok (usizeMax - 1))
  status_le := by
    intro _ _ _ status h
    cases h
    exact Nat.sub_le _ _

/-- The parent is told that there is no such file. -/
theorem exitsLate_fileNotFound :
    outcome exitsLate (.spawnWait (userImageBase, 1) (userImageBase, 0)) =
        some (.ok (usizeMax - 1) : Except SpawnError Nat) ∧
      (rax exitsLate (.spawnWait (userImageBase, 1) (userImageBase, 0))).map spawnWaitResult =
        some (.error .fileNotFound) ∧
      ¬ RoundTrips exitsLate (.spawnWait (userImageBase, 1) (userImageBase, 0)) := by
  have htext : (exitsLate.slice (userImageBase, 1)).bind fromUtf8 = some "a" := by decide +kernel
  have hargv : exitsLate.slice (userImageBase, 0) = some [] := by decide
  have houtcome : spawnOutcome exitsLate false (userImageBase, 1) (userImageBase, 0) =
      some (.ok (usizeMax - 1)) := by
    rw [spawnOutcome, withText, htext, hargv]
    rfl
  have hrax : rax exitsLate (.spawnWait (userImageBase, 1) (userImageBase, 0)) =
      some SpawnWait.fileNotFound := by
    rw [rax, Syscall.spawnWait, withText, htext, hargv]
    rfl
  refine ⟨houtcome, by rw [hrax]; rfl, fun htrip => ?_⟩
  have hlt := (spawn_roundTrips_iff exitsLate false _ _).mp htrip (usizeMax - 1) (by
    rw [childStatus.exited, htext, hargv]
    rfl)
  revert hlt
  decide

end Lazers.LibLazer
