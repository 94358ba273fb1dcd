import Lazers.KernelAbi
import Lazers.Memory.UserSpace
import Lazers.Scheduler.Services

/-!
# System call handlers (`syscall.rs`)

A handler borrows its arguments from user memory, asks the scheduler's services and turns
what they answer into the word that goes to `rax`. The handlers below take the borrowed
ranges as `user_slice` and `user_slice_mut` give them, `none` if it refused, and the answer
of the service as `none` if the service does not come back.
-/

namespace Lazers.Syscall

open KernelAbi Memory Scheduler Storage

/-! ## Arguments -/

/-- `user_slice` of text: the two checks share an error code in every handler. -/
def withText {α : Type} (slice : Option (List UInt8)) (bad : α) (body : String → α) : α :=
  match slice.bind fromUtf8 with
  | none => bad
  | some text => body text

/-- A range the handler borrows as it is. -/
def withSlice {α β : Type} (slice : Option β) (bad : α) (body : β → α) : α :=
  match slice with
  | none => bad
  | some range => body range

theorem map_withText {α β : Type} (f : α → β) (slice : Option (List UInt8)) (bad : α)
    (body : String → α) :
    f (withText slice bad body) = withText slice (f bad) fun text => f (body text) := by
  rw [withText, withText]
  cases slice.bind fromUtf8 <;> rfl

theorem map_withSlice {α β γ : Type} (f : α → γ) (slice : Option β) (bad : α) (body : β → α) :
    f (withSlice slice bad body) = withSlice slice (f bad) fun range => f (body range) := by
  cases slice <;> rfl

theorem withText_congr {α : Type} {slice : Option (List UInt8)} {bad bad' : α}
    {body body' : String → α} (hbad : bad = bad') (hbody : ∀ text, body text = body' text) :
    withText slice bad body = withText slice bad' body' := by
  rw [withText, withText]
  cases slice.bind fromUtf8 with
  | none => exact hbad
  | some text => exact hbody text

theorem withSlice_congr {α β : Type} {slice : Option β} {bad bad' : α} {body body' : β → α}
    (hbad : bad = bad') (hbody : ∀ range, slice = some range → body range = body' range) :
    withSlice slice bad body = withSlice slice bad' body' := by
  cases slice with
  | none => exact hbad
  | some range => exact hbody range rfl

/-! ## Codes -/

def spawnWaitCode : Except SpawnError Nat → Nat
  | .ok status => status
  | .error .invalidPath => SpawnWait.invalidPath
  | .error .fileNotFound => SpawnWait.fileNotFound
  | .error .invalidExecutable => SpawnWait.invalidExecutable
  | .error .resourceUnavailable => SpawnWait.resourceUnavailable

def readDirCode : Except StorageError Nat → Nat
  | .ok bytesWritten => bytesWritten
  | .error .invalidPath | .error .pathNotAbsolute | .error .invalidShortName => ReadDir.invalidPath
  | .error .fileNotFound | .error .notADirectory => ReadDir.notFound
  | .error .bufferTooSmall => ReadDir.bufferTooSmall
  | .error _ => ReadDir.resourceUnavailable

def chdirCode : Except StorageError Unit → Nat
  | .ok () => 0
  | .error .invalidPath | .error .pathNotAbsolute | .error .invalidShortName => Chdir.invalidPath
  | .error .fileNotFound | .error .notADirectory => Chdir.notFound
  | .error _ => Chdir.resourceUnavailable

def getcwdCode : Option Nat → Nat
  | some bytesWritten => bytesWritten
  | none => GetCwd.bufferTooSmall

def readFileCode : Except StorageError Nat → Nat
  | .ok bytesWritten => bytesWritten
  | .error .invalidPath | .error .pathNotAbsolute | .error .invalidShortName => ReadFile.invalidPath
  | .error .fileNotFound => ReadFile.notFound
  | .error .notAFile => ReadFile.notAFile
  | .error .bufferTooSmall => ReadFile.bufferTooSmall
  | .error _ => ReadFile.resourceUnavailable

def getEnvCode : Except EnvironmentAccessError Nat → Nat
  | .ok bytesWritten => bytesWritten
  | .error .invalidKey | .error .keyTooLong | .error .valueTooLong
  | .error .capacityExceeded => GetEnv.invalidKey
  | .error .notFound => GetEnv.notFound
  | .error .bufferTooSmall => GetEnv.bufferTooSmall
  | .error .resourceUnavailable => GetEnv.resourceUnavailable

def setEnvCode : Except EnvironmentAccessError Unit → Nat
  | .ok () => 0
  | .error .invalidKey => SetEnv.invalidKey
  | .error .keyTooLong => SetEnv.keyTooLong
  | .error .valueTooLong => SetEnv.valueTooLong
  | .error .capacityExceeded => SetEnv.capacityExceeded
  | .error .resourceUnavailable | .error .notFound
  | .error .bufferTooSmall => SetEnv.resourceUnavailable

def unsetEnvCode : Except EnvironmentAccessError Unit → Nat
  | .ok () => 0
  | .error .invalidKey | .error .keyTooLong | .error .valueTooLong
  | .error .capacityExceeded => UnsetEnv.invalidKey
  | .error .notFound => UnsetEnv.notFound
  | .error .resourceUnavailable | .error .bufferTooSmall => UnsetEnv.resourceUnavailable

def listEnvCode : Except EnvironmentAccessError Nat → Nat
  | .ok bytesWritten => bytesWritten
  | .error .bufferTooSmall | .error .capacityExceeded => ListEnv.bufferTooSmall
  | .error .invalidKey | .error .keyTooLong | .error .valueTooLong | .error .notFound
  | .error .resourceUnavailable =>
    ListEnv.resourceUnavailable

/-! ## Handlers -/

/-- `syscall_spawn_wait` and `syscall_spawn_wait_silent`, on the service each of them calls. -/
def spawnWait (service : String → List UInt8 → Option (Except SpawnError Nat))
    (path argv : Option (List UInt8)) : Option Nat :=
  withText path (some SpawnWait.invalidPath) fun path =>
    withSlice argv (some SpawnWait.resourceUnavailable) fun argvTail =>
      (service path argvTail).map spawnWaitCode

/-- `syscall_read_dir`. -/
def readDir (service : String → Nat → Option (Except StorageError Nat))
    (path : Option (List UInt8)) (buffer : Option Nat) : Option Nat :=
  withText path (some ReadDir.invalidPath) fun path =>
    withSlice buffer (some ReadDir.resourceUnavailable) fun room =>
      (service path room).map readDirCode

/-- `syscall_chdir`. -/
def chdir (service : String → Option (Except StorageError Unit)) (path : Option (List UInt8)) :
    Option Nat :=
  withText path (some Chdir.invalidPath) fun path => (service path).map chdirCode

/-- `syscall_getcwd`. -/
def getcwd (service : Nat → Option (Option Nat)) (buffer : Option Nat) : Option Nat :=
  withSlice buffer (some GetCwd.resourceUnavailable) fun room => (service room).map getcwdCode

/-- `syscall_read_file`. -/
def readFile (service : String → Nat → Option (Except StorageError Nat))
    (path : Option (List UInt8)) (buffer : Option Nat) : Option Nat :=
  withText path (some ReadFile.invalidPath) fun path =>
    withSlice buffer (some ReadFile.resourceUnavailable) fun room =>
      (service path room).map readFileCode

/-- `syscall_get_env`. -/
def getEnv (service : String → Nat → Option (Except EnvironmentAccessError Nat))
    (key : Option (List UInt8)) (buffer : Option Nat) : Option Nat :=
  withText key (some GetEnv.invalidKey) fun key =>
    withSlice buffer (some GetEnv.resourceUnavailable) fun room =>
      (service key room).map getEnvCode

/-- `syscall_set_env`. -/
def setEnv (service : String → String → Option (Except EnvironmentAccessError Unit))
    (key value : Option (List UInt8)) : Option Nat :=
  withText key (some SetEnv.invalidKey) fun key =>
    withText value (some SetEnv.resourceUnavailable) fun value =>
      (service key value).map setEnvCode

/-- `syscall_unset_env`. -/
def unsetEnv (service : String → Option (Except EnvironmentAccessError Unit))
    (key : Option (List UInt8)) : Option Nat :=
  withText key (some UnsetEnv.invalidKey) fun key => (service key).map unsetEnvCode

/-- `syscall_list_env`. -/
def listEnv (service : Nat → Option (Except EnvironmentAccessError Nat)) (buffer : Option Nat) :
    Option Nat :=
  withSlice buffer (some ListEnv.resourceUnavailable) fun room => (service room).map listEnvCode

/-! ## The services -/

/-- `user_slice_mut` of an address and a length: how many bytes the handler may fill. -/
def room (range : Nat × Nat) : Option Nat := (userSliceMut range.1 range.2).map Prod.snd

theorem room_le {range : Nat × Nat} {n : Nat} (h : room range = some n) : n ≤ userStackTop := by
  obtain ⟨borrowed, hborrow, rfl⟩ := Option.map_eq_some_iff.mp h
  rw [userSliceMut] at hborrow
  split_ifs at hborrow with hbad
  cases hborrow
  rcases Nat.eq_zero_or_pos range.2 with hzero | hpos
  · show range.2 ≤ userStackTop
    omega
  · have hstop : range.1 + range.2 ≤ userStackTop :=
      validateUserBuffer_le hpos (by simpa using hbad)
    show range.2 ≤ userStackTop
    omega

/-- What a call meets: the scheduler with the calling process, the root filesystem, the
caller's memory, and what a spawn comes to. -/
structure Context where
  scheduler : SchedulerState
  rootFs : Option Fat32
  fuel : Nat
  memory : Nat → UInt8
  spawn : (silent : Bool) → (path : String) → (argvTail : List UInt8) →
    Option (Except SpawnError Nat)
  /-- An exit status is a `usize`. -/
  status_le : ∀ silent path argvTail status,
    spawn silent path argvTail = some (.ok status) → status ≤ usizeMax

namespace Context

variable (c : Context)

/-- `user_slice` of an address and a length: the bytes borrowed. -/
def slice (range : Nat × Nat) : Option (List UInt8) :=
  (userSlice range.1 range.2).map fun (address, len) =>
    (List.range len).map fun i => c.memory (address + i)

/-- What a service returns from the state of the call. -/
def run {α : Type} (x : SchedM α) : Option α :=
  match x c.scheduler with
  | .ok a _ => some a
  | .error _ _ => none

/-- What a service that reads the disk returns, if it does. -/
def runDisk {α : Type} (x : SchedM (Except Stop α)) : Option (Except StorageError α) :=
  (c.run x).bind fun
    | .ok a => some (.ok a)
    | .error (.storage e) => some (.error e)
    | .error .outOfFuel => none

def currentProcessReadDir (path : String) (room : Nat) : Option (Except StorageError Nat) :=
  (c.runDisk (Scheduler.currentProcessReadDir c.rootFs c.fuel path room)).map (·.map List.length)

def currentProcessChdir (path : String) : Option (Except StorageError Unit) :=
  c.runDisk (Scheduler.currentProcessChdir c.rootFs c.fuel path)

def currentProcessGetcwd (room : Nat) : Option (Option Nat) :=
  (c.run (Scheduler.currentProcessGetcwd (List.replicate room 0))).map (·.map Prod.fst)

def currentProcessReadFile (path : String) (room : Nat) : Option (Except StorageError Nat) :=
  (c.runDisk (Scheduler.currentProcessReadFile c.rootFs c.fuel path room)).map (·.map List.length)

def currentProcessGetEnv (key : String) (room : Nat) :
    Option (Except EnvironmentAccessError Nat) :=
  (c.run (Scheduler.currentProcessGetEnv key room)).map (·.map fun value => (strBytes value).length)

def currentProcessSetEnv (key value : String) : Option (Except EnvironmentAccessError Unit) :=
  c.run (Scheduler.currentProcessSetEnv key value)

def currentProcessUnsetEnv (key : String) : Option (Except EnvironmentAccessError Unit) :=
  c.run (Scheduler.currentProcessUnsetEnv key)

def currentProcessListEnv (room : Nat) : Option (Except EnvironmentAccessError Nat) :=
  (c.run (Scheduler.currentProcessListEnv (List.replicate room 0))).map Prod.fst

/-! ### Counts -/

theorem run_of_triple {α : Type} {x : SchedM α} {Q : α → Prop}
    (h : Triple (fun _ => True) x (fun a _ => Q a) fun _ _ => True) :
    ∀ a, c.run x = some a → Q a := by
  intro a hrun
  rw [run] at hrun
  cases hx : x c.scheduler with
  | ok b s =>
    rw [hx] at hrun
    cases hrun
    exact h.ok trivial hx
  | error e s =>
    rw [hx] at hrun
    cases hrun

theorem runDisk_of_triple {α : Type} {x : SchedM (Except Stop α)} {Q : α → Prop}
    (h : Triple (fun _ => True) x (fun r _ => ∀ a, r = .ok a → Q a) fun _ _ => True) :
    ∀ a, c.runDisk x = some (.ok a) → Q a := by
  intro a hrun
  rw [runDisk, Option.bind_eq_some_iff] at hrun
  obtain ⟨r, hr, hrun⟩ := hrun
  have hQ := c.run_of_triple h r hr
  cases r with
  | ok b =>
    cases hrun
    exact hQ a rfl
  | error stop => cases stop <;> cases hrun

/-- The count of what was written. -/
theorem eq_of_map_length {r : Option (Except StorageError (List UInt8))} {n : Nat}
    (h : r.map (·.map List.length) = some (.ok n)) :
    ∃ bytes, r = some (.ok bytes) ∧ bytes.length = n := by
  obtain ⟨result, hresult, hmap⟩ := Option.map_eq_some_iff.mp h
  cases result with
  | ok bytes => exact ⟨bytes, hresult, Except.ok.inj hmap⟩
  | error e => cases hmap

theorem currentProcessReadDir_le {path : String} {room n : Nat}
    (h : c.currentProcessReadDir path room = some (.ok n)) : n ≤ room := by
  have htriple : Triple (fun _ => True)
      (Scheduler.currentProcessReadDir c.rootFs c.fuel path room)
      (fun r _ => ∀ bytes, r = .ok bytes → bytes.length ≤ room) fun _ _ => True := by
    refine Triple.bind (Triple.top _) fun current => ?_
    rcases current with _ | ⟨processId, process⟩
    · exact Triple.pure fun _ _ _ hok => by cases hok
    · dsimp only
      cases resolvePath process.cwd path with
      | error e => exact Triple.pure fun _ _ _ hok => by cases hok
      | ok normalizedPath => exact Triple.pure fun _ _ _ hok => readRootDir_length hok
  obtain ⟨bytes, hbytes, rfl⟩ := eq_of_map_length h
  exact c.runDisk_of_triple htriple _ hbytes

theorem currentProcessReadFile_le {path : String} {room n : Nat}
    (h : c.currentProcessReadFile path room = some (.ok n)) : n ≤ room := by
  have htriple : Triple (fun _ => True)
      (Scheduler.currentProcessReadFile c.rootFs c.fuel path room)
      (fun r _ => ∀ bytes, r = .ok bytes → bytes.length ≤ room) fun _ _ => True := by
    refine Triple.bind (Triple.top _) fun current => ?_
    rcases current with _ | ⟨processId, process⟩
    · exact Triple.pure fun _ _ _ hok => by cases hok
    · refine Triple.pure fun _ _ bytes hok => ?_
      rw [readFileFrom] at hok
      cases hpath : resolvePath process.cwd path with
      | error e =>
        rw [hpath] at hok
        cases hok
      | ok normalizedPath =>
        rw [hpath] at hok
        exact readRootFileInto_length hok
  obtain ⟨bytes, hbytes, rfl⟩ := eq_of_map_length h
  exact c.runDisk_of_triple htriple _ hbytes

theorem currentProcessGetcwd_le {room n : Nat}
    (h : c.currentProcessGetcwd room = some (some n)) : n ≤ room := by
  have htriple : Triple (fun _ => True)
      (Scheduler.currentProcessGetcwd (List.replicate room 0))
      (fun r _ => ∀ written, r = some written → written.1 ≤ room) fun _ _ => True := by
    refine Triple.bind (Triple.top _) fun current => ?_
    rcases current with _ | ⟨processId, process⟩
    · exact Triple.pure fun _ _ _ hok => by cases hok
    · refine Triple.pure fun _ _ written hok => ?_
      rw [Kernel.Process.copyCwdInto, List.length_replicate] at hok
      split_ifs at hok with hsmall
      cases hok
      show process.cwdLen ≤ room
      omega
  obtain ⟨r, hr, hmap⟩ := Option.map_eq_some_iff.mp h
  obtain ⟨written, rfl, rfl⟩ := Option.map_eq_some_iff.mp hmap
  exact c.run_of_triple htriple _ hr written rfl

theorem currentProcessGetEnv_le {key : String} {room n : Nat}
    (h : c.currentProcessGetEnv key room = some (.ok n)) : n ≤ room := by
  have htriple : Triple (fun _ => True) (Scheduler.currentProcessGetEnv key room)
      (fun r _ => ∀ value, r = .ok value → (strBytes value).length ≤ room) fun _ _ => True := by
    refine Triple.bind (Triple.top _) fun current => ?_
    rcases current with _ | ⟨processId, process⟩
    · exact Triple.pure fun _ _ _ hok => by cases hok
    · dsimp only
      rcases process.env.get key with e | _ | value
      · exact Triple.pure fun _ _ _ hok => by cases hok
      · exact Triple.pure fun _ _ _ hok => by cases hok
      · refine Triple.pure fun _ _ value' hok => ?_
        split_ifs at hok with hsmall
        cases hok
        omega
  obtain ⟨r, hr, hmap⟩ := Option.map_eq_some_iff.mp h
  cases r with
  | error e => cases hmap
  | ok value =>
    cases hmap
    exact c.run_of_triple htriple _ hr value rfl

theorem currentProcessListEnv_le {room n : Nat}
    (h : c.currentProcessListEnv room = some (.ok n)) : n ≤ room := by
  have htriple : Triple (fun _ => True)
      (Scheduler.currentProcessListEnv (List.replicate room 0))
      (fun r _ => ∀ n, r.1 = .ok n → n ≤ room) fun _ _ => True := by
    refine Triple.bind (Triple.top _) fun current => ?_
    rcases current with _ | ⟨processId, process⟩
    · exact Triple.pure fun _ _ _ hok => by cases hok
    · refine Triple.pure fun _ _ n hok => ?_
      change Except.mapError _ (process.env.writeListingInto (List.replicate room 0)).1 = _ at hok
      cases hresult : (process.env.writeListingInto (List.replicate room 0)).1 with
      | error e =>
        rw [hresult] at hok
        cases hok
      | ok written =>
        rw [hresult] at hok
        cases hok
        exact Kernel.Environment.writeListingFrom_le (by rw [List.length_replicate])
          (Nat.zero_le _) hresult
  obtain ⟨r, hr, hmap⟩ := Option.map_eq_some_iff.mp h
  exact c.run_of_triple htriple _ hr n hmap

end Context

end Lazers.Syscall
