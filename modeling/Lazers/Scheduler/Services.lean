import Lazers.Scheduler.State
import Lazers.Storage.RootFs

/-!
# Process services (`scheduler/services.rs`, `scheduler/bootstrap.rs`)

What the system calls do for the process of the current thread, up to the context
switch if there is one; and the calls `kernel_main` makes to set the scheduler up.
-/

namespace Lazers.Scheduler

open FixedArray Kernel Memory Storage SchedulerState

inductive SpawnError where
  | invalidPath
  | fileNotFound
  | invalidExecutable
  | resourceUnavailable
deriving DecidableEq, Repr

inductive EnvironmentAccessError where
  | invalidKey
  | notFound
  | bufferTooSmall
  | keyTooLong
  | valueTooLong
  | capacityExceeded
  | resourceUnavailable
deriving DecidableEq, Repr

/-- `map_environment_error`. -/
def mapEnvironmentError : EnvironmentError → EnvironmentAccessError
  | .invalidKey => .invalidKey
  | .keyTooLong => .keyTooLong
  | .valueTooLong => .valueTooLong
  | .capacityExceeded => .capacityExceeded

/-- `map_storage_spawn_error`. -/
def mapStorageSpawnError : StorageError → SpawnError
  | .invalidPath | .pathNotAbsolute | .invalidShortName => .invalidPath
  | .fileNotFound | .notAFile => .fileNotFound
  | _ => .resourceUnavailable

/-- `NormalizedPath::resolve` and `as_str`. -/
def resolvePath (cwd path : String) : Except StorageError String := do
  let (len, bytes) ← normalizePath cwd path (Vector.replicate maxCwdLen 0)
  match fromUtf8 (used bytes len) with
  | some text => return text
  | none => throw .invalidPath

/-- **What a resolved path looks like.** -/
theorem resolvePath_spec {cwd path target : String} (h : resolvePath cwd path = .ok target) :
    PathStack.Canonical 47 46 (strBytes target) ∧ (strBytes target).length ≤ maxCwdLen ∧
      startsWith target '/' = true := by
  have hpath : path ≠ "" := by
    rintro rfl
    cases h
  rw [resolvePath] at h
  obtain ⟨-, len, out, hok, hlen, -⟩ | ⟨-, herr⟩ := normalizePath_spec cwd hpath
    (Vector.replicate maxCwdLen 0) (by decide)
  · have hcanonical := canonical_of_normalizePath (by decide) hok
    rw [hok] at h
    dsimp only [bind, Except.bind] at h
    cases htext : fromUtf8 (used out len) with
    | none =>
      rw [htext] at h
      cases h
    | some text =>
      rw [htext] at h
      cases h
      rw [fromUtf8_eq_some] at htext
      rw [← htext] at hcanonical
      refine ⟨hcanonical, ?_, (startsWith_iff (by decide)).mpr hcanonical.1⟩
      rw [htext, length_used _ hlen]
      exact hlen
  · rw [herr] at h
    cases h

/-- The process of the current thread, with its slot. -/
def currentProcess : SchedM (Option (ProcessId × Process)) := do
  match (← get).currentThread with
  | none => return none
  | some current =>
    let processId := (← thread current).processId
    return some (processId, ← process processId)

/-! ## Environment and working directory -/

/-- `current_process_set_env`. -/
def currentProcessSetEnv (key value : String) : SchedM (Except EnvironmentAccessError Unit) := do
  match ← currentProcess with
  | none => return .error .resourceUnavailable
  | some (processId, process) =>
    match Process.setEnv key value process with
    | .ok _ process =>
      modify (putProcess · processId (some process))
      return .ok ()
    | .error e process =>
      modify (putProcess · processId (some process))
      return .error (mapEnvironmentError e)

/-- `current_process_unset_env`. -/
def currentProcessUnsetEnv (key : String) : SchedM (Except EnvironmentAccessError Unit) := do
  match ← currentProcess with
  | none => return .error .resourceUnavailable
  | some (processId, process) =>
    match Process.removeEnv key process with
    | .ok removed process =>
      modify (putProcess · processId (some process))
      return if removed then .ok () else .error .notFound
    | .error e process =>
      modify (putProcess · processId (some process))
      return .error (mapEnvironmentError e)

/-- `current_process_get_env`, into a buffer of `room` bytes: the value. -/
def currentProcessGetEnv (key : String) (room : Nat) :
    SchedM (Except EnvironmentAccessError String) := do
  match ← currentProcess with
  | none => return .error .resourceUnavailable
  | some (_, process) =>
    match process.env.get key with
    | .error e => return .error (mapEnvironmentError e)
    | .ok none => return .error .notFound
    | .ok (some value) =>
      return if room < (strBytes value).length then .error .bufferTooSmall else .ok value

/-- `current_process_list_env`: the result, and the buffer it leaves. -/
def currentProcessListEnv (buffer : List UInt8) :
    SchedM (Except EnvironmentAccessError Nat × List UInt8) := do
  match ← currentProcess with
  | none => return (.error .resourceUnavailable, buffer)
  | some (_, process) =>
    let (result, buffer) := process.env.writeListingInto buffer
    return (result.mapError mapEnvironmentError, buffer)

/-- `current_process_getcwd`. -/
def currentProcessGetcwd (buffer : List UInt8) : SchedM (Option (Nat × List UInt8)) := do
  match ← currentProcess with
  | none => return none
  | some (_, process) => return process.copyCwdInto buffer

/-- `current_process_chdir`. -/
def currentProcessChdir (rootFs : Option Fat32) (fuel : Nat) (path : String) :
    SchedM (Except Stop Unit) := do
  match ← currentProcess with
  | none => return .error (.storage .rootFsUnavailable)
  | some (processId, process) =>
    match resolvePath process.cwd path with
    | .error e => return .error (.storage e)
    | .ok normalizedPath =>
      match ensureRootDir rootFs fuel normalizedPath [] with
      | .error stop _ => return .error stop
      | .ok _ _ =>
        match Process.setCwd normalizedPath process with
        | .error _ process =>
          modify (putProcess · processId (some process))
          return .error (.storage .invalidPath)
        | .ok _ process =>
          modify (putProcess · processId (some process))
          return .ok ()

/-! ## Files -/

/-- `current_process_read_file` of a process in directory `cwd`, into a buffer of `room` bytes: the
filled part. -/
def readFileFrom (rootFs : Option Fat32) (fuel : Nat) (cwd path : String) (room : Nat) :
    Except Stop (List UInt8) :=
  match resolvePath cwd path with
  | .error e => .error (.storage e)
  | .ok normalizedPath => outcome (readRootFileInto rootFs fuel normalizedPath room)

/-- `current_process_read_file`. -/
def currentProcessReadFile (rootFs : Option Fat32) (fuel : Nat) (path : String) (room : Nat) :
    SchedM (Except Stop (List UInt8)) := do
  match ← currentProcess with
  | none => return .error (.storage .rootFsUnavailable)
  | some (_, process) => return readFileFrom rootFs fuel process.cwd path room

/-- `current_process_read_dir`, into a buffer of `room` bytes: the filled part. -/
def currentProcessReadDir (rootFs : Option Fat32) (fuel : Nat) (path : String) (room : Nat) :
    SchedM (Except Stop (List UInt8)) := do
  match ← currentProcess with
  | none => return .error (.storage .rootFsUnavailable)
  | some (_, process) =>
    match resolvePath process.cwd path with
    | .error e => return .error (.storage e)
    | .ok normalizedPath => return outcome (readRootDir rootFs fuel normalizedPath room)

/-! ## Streams -/

/-- `current_process_read`. -/
def currentProcessRead (fd room : Nat) (c : Console) : SchedM (List UInt8 × Console) := do
  match ← currentProcess with
  | none => return ([], c)
  | some (_, process) => return process.read fd room c

/-- `current_process_write`. -/
def currentProcessWrite (fd : Nat) (buffer : List UInt8) (c : Console) :
    SchedM (Nat × Console) := do
  match ← currentProcess with
  | none => return (0, c)
  | some (_, process) => return process.write fd buffer c

/-! ## Spawning -/

/-- The part of `spawn_user_process_and_wait_with_stdio` between the path and the scheduler: the
file is read into a kernel buffer and loaded, and the buffer released. `none` if that never comes
back, because a read goes on for ever or an assertion fails. -/
def readAndLoad (rootFs : Option Fat32) (fuel : Nat) (normalizedPath : String)
    (argvTail : List UInt8) (s : MemoryState) :
    Option (Except SpawnError LoadedUserProgram × MemoryState) :=
  match readRootFile rootFs fuel normalizedPath s with
  | (.error .outOfFuel, _) => none
  | (.error (.storage e), s) => some (.error (mapStorageSpawnError e), s)
  | (.ok file, s) => do
    let (loaded, s) ← loadUserProgram (file.asSlice s) ⟨normalizedPath, argvTail⟩ s
    let s ← file.release s
    return (loaded.mapError fun _ => .invalidExecutable, s)

/-- How far a spawn gets before its thread is switched away. -/
inductive SpawnOutcome where
  | failed (error : SpawnError)
  | waitFailed
  | waiting (child : ProcessId) (switch : PreparedSwitch)

/-- `spawn_user_process_and_wait_with_stdio` up to the context switch. `load` is what reading
and loading the executable at a path comes to. -/
def spawnUserProcessAndWait (load : String → Except SpawnError LoadedUserProgram) (path : String)
    (silentStdio : Bool) : SchedM SpawnOutcome := do
  match (← get).currentThread with
  | none => return .failed .resourceUnavailable
  | some current =>
    let parentProcessId := (← thread current).processId
    match resolvePath (← process parentProcessId).cwd path with
    | .error e => return .failed (mapStorageSpawnError e)
    | .ok normalizedPath =>
      match load normalizedPath with
      | .error e => return .failed e
      | .ok program =>
        match ← spawnChildProcess current program silentStdio with
        | .error _ => return .failed .resourceUnavailable
        | .ok child =>
          match ← prepareWaitForChild child with
          | none => return .waitFailed
          | some switch => return .waiting child switch

/-! ## Bootstrap -/

/-- `create_process`. -/
def createProcess (config : ProcessConfig) : SchedM ProcessId := do
  match ← tryCreateProcess config with
  | some process => return process
  | none => throw .processCapacityExhausted

/-- `create_kernel_thread` and `create_user_thread`. -/
def createThread (process : ProcessId) (start : ThreadStart) : SchedM ThreadId := do
  match ← tryCreateThread process start with
  | some thread => return thread
  | none => throw .threadCapacityExhausted

/-- `set_process_env`. -/
def setProcessEnv (processId : ProcessId) (key value : String) :
    SchedM (Except EnvironmentAccessError Unit) := do
  match Process.setEnv key value (← process processId) with
  | .ok _ process =>
    modify (putProcess · processId (some process))
    return .ok ()
  | .error e process =>
    modify (putProcess · processId (some process))
    return .error (mapEnvironmentError e)

/-- The scheduler part of `kernel_main`, to the choice of the first thread. -/
def bootScheduler (kernelSpace : AddressSpace) (userProgram : LoadedUserProgram) :
    SchedM (Option ThreadActivation) := do
  let kernelProcess ← createProcess {
    addressSpace := kernelSpace
    terminalEndpoint := none
    ownedPages := OwnedPages.empty
    exitAction := .continue }
  let userProcess ← createProcess {
    addressSpace := userProgram.addressSpace
    terminalEndpoint := some primaryEndpoint
    ownedPages := userProgram.ownedPages
    exitAction := .shutdownSystem }
  match ← setProcessEnv userProcess "PATH" "/system/bin:/bin" with
  | .error _ => throw .failedToSeedBootstrapEnvironment
  | .ok _ =>
    let _ ← createThread kernelProcess (.kernel .terminalThreadEntry)
    let _ ← createThread userProcess (.user userProgram.entryPoint userProgram.userStackTop)
    let idle ← createThread kernelProcess (.kernel .idleThreadEntry)
    modify fun s => { s with idleThread := some idle }
    startThread

end Lazers.Scheduler
