import Lazers.LibLazer.Syscalls
import Lazers.Storage.Resolution
import Lazers.User.Program

/-!
# `cat`, `ls` and `pwd` (`user/*/src/main.rs`)

`cat` and `ls` hand one path to the kernel, with a buffer, and write what comes back to the
terminal: the buffer as far as it was filled, or a message that names the error. `pwd` has no path
to hand over.

- `Shows`: what is to be printed for a path and with which status the program is to exit, given a
  rule for what the path stands for on the volume.
- `cat_prints_file`, `ls_prints_directory`: the programs do that, for the words they were spawned
  with, the directory they are in and every volume that holds its directories. The terminal gets
  one write, so of a long file it gets what its queue has room for.
- `pwd_prints_cwd`: in every run `pwd` prints the directory, and its messages are never seen.
-/

namespace Lazers.User

open Kernel LibLazer Memory Scheduler Storage Storage.Fat32

/-! ## Source functions -/

/-- A system call that fills a buffer of `room` bytes, and the part of the buffer that the count it
returns stands for. -/
def intoBuffer {ε : Type} (room : Nat) (service : SchedM (Except Stop (List UInt8)))
    (code : Except StorageError Nat → Nat) (result : Nat → Except ε Nat) :
    UserM (Except ε (List UInt8)) :=
  OptionT.lift do
    match ← onScheduler service with
    | .ok bytes =>
      let buffer := bytes ++ List.replicate (room - bytes.length) 0
      return (result (code (.ok bytes.length))).map buffer.take
    | .error (.storage e) => return (result (code (.error e))).map (List.replicate room 0).take
    | .error .outOfFuel => throw .unfinished

/-- `read_file`. -/
def readFile (rootFs : Option Fat32) (fuel : Nat) (path : String) (room : Nat) :
    UserM (Except ReadFileError (List UInt8)) :=
  intoBuffer room (currentProcessReadFile rootFs fuel path room) Syscall.readFileCode readFileResult

/-- `read_dir`. -/
def readDir (rootFs : Option Fat32) (fuel : Nat) (path : String) (room : Nat) :
    UserM (Except ReadDirError (List UInt8)) :=
  intoBuffer room (currentProcessReadDir rootFs fuel path room) Syscall.readDirCode readDirResult

/-- The end of both programs: the buffer is written and the program exits with 0, or a message is
printed and it exits with 1. -/
def showResult {ε : Type} (message : ε → List String) :
    Except ε (List UInt8) → UserM (List Event)
  | .ok bytes => do
    OptionT.lift (do let _ ← stdoutWrite bytes)
    exit 0
  | .error e => do
    print (message e)
    exit 1

def fileBufferSize : Nat := 32 * 1024

/-- What `cat` says of an error, in pieces. -/
def catMessage (path : String) : ReadFileError → List String
  | .invalidPath => ["cat: invalid path: ", path, "\n"]
  | .notFound => ["cat: file not found: ", path, "\n"]
  | .notAFile => ["cat: not a file: ", path, "\n"]
  | .bufferTooSmall => ["cat: file too large\n"]
  | .resourceUnavailable => ["cat: unable to read file\n"]

/-- `_start` and `main` of `cat`. -/
def catMain (rootFs : Option Fat32) (fuel : Nat) (view : ByteView) (rounds stackTop : Nat) :
    UserM (List Event) := do
  let startup ← load (liblazerInitialize view stackTop)
  let (_, it) ← load ((args startup).next view rounds)
  match ← load (it.next view rounds) with
  | (none, _) => do
    print ["cat: missing path\n"]
    exit 1
  | (some path, _) => do
    showResult (catMessage path) (← readFile rootFs fuel path fileBufferSize)

def directoryBufferSize : Nat := 1024

/-- What `ls` says of an error, in pieces. -/
def lsMessage (path : String) : ReadDirError → List String
  | .invalidPath => ["ls: invalid path: ", path, "\n"]
  | .notFound => ["ls: directory not found: ", path, "\n"]
  | .bufferTooSmall => ["ls: output too large\n"]
  | .resourceUnavailable => ["ls: unable to read directory\n"]

/-- `_start` and `main` of `ls`. -/
def lsMain (rootFs : Option Fat32) (fuel : Nat) (view : ByteView) (rounds stackTop : Nat) :
    UserM (List Event) := do
  let startup ← load (liblazerInitialize view stackTop)
  let (_, it) ← load ((args startup).next view rounds)
  let (word, _) ← load (it.next view rounds)
  let path := word.getD "."
  showResult (lsMessage path) (← readDir rootFs fuel path directoryBufferSize)

def cwdBufferSize : Nat := 256

/-- `getcwd`: the part of the buffer that the count stands for. -/
def getcwd (room : Nat) : UserM (Except GetCwdError (List UInt8)) :=
  OptionT.lift do
    match ← onScheduler (currentProcessGetcwd (List.replicate room 0)) with
    | some (written, buffer) =>
      return (getcwdResult (Syscall.getcwdCode (some written))).map buffer.take
    | none => return (getcwdResult (Syscall.getcwdCode none)).map (List.replicate room 0).take

/-- `_start` and `main` of `pwd`. -/
def pwdMain (view : ByteView) (stackTop : Nat) : UserM (List Event) := do
  let _ ← load (liblazerInitialize view stackTop)
  match ← getcwd cwdBufferSize with
  | .ok bytes => do
    print [(fromUtf8 bytes).getD "/", "\n"]
    exit 0
  | .error .bufferTooSmall => do
    print ["pwd: path too large\n"]
    exit 1
  | .error .resourceUnavailable => do
    print ["pwd: unable to read working directory\n"]
    exit 1

/-! ## What is to be shown -/

/-- **The output for a path and the exit status.** `rule` says what an absolute path stands for. -/
inductive Shows {ε : Type} (rule : String → Except StorageError (List UInt8) → Prop)
    (ofStorage : StorageError → ε) (message : ε → List String) (cwd path : String) :
    (out : List UInt8) → (status : Nat) → Prop where
  | badPath {e : StorageError} (unresolved : resolvePath cwd path = .error e) :
      Shows rule ofStorage message cwd path ((message (ofStorage e)).flatMap strBytes) 1
  | filled {target : String} {bytes : List UInt8} (resolved : resolvePath cwd path = .ok target)
      (stands : rule target (.ok bytes)) : Shows rule ofStorage message cwd path bytes 0
  | refused {target : String} {e : StorageError} (resolved : resolvePath cwd path = .ok target)
      (stands : rule target (.error e)) :
      Shows rule ofStorage message cwd path ((message (ofStorage e)).flatMap strBytes) 1

/-- What `cat` is to print for its arguments. -/
inductive CatShows (fs : Fat32) (content : Nat → List (List UInt8)) (cwd : String) :
    (words : List String) → (out : List UInt8) → (status : Nat) → Prop where
  | noArgument : CatShows fs content cwd [] (strBytes "cat: missing path\n") 1
  | path {path : String} {rest : List String} {out : List UInt8} {status : Nat}
      (shown : Shows (GivesFile fs content fileBufferSize) ReadFileError.ofStorage
        (catMessage path) cwd path out status) : CatShows fs content cwd (path :: rest) out status

/-- What `ls` is to print for its arguments: without one, the directory it is in. -/
def LsShows (fs : Fat32) (content : Nat → List (List UInt8)) (cwd : String) (words : List String) :
    (out : List UInt8) → (status : Nat) → Prop :=
  Shows (ListsDirectory fs content directoryBufferSize) ReadDirError.ofStorage
    (lsMessage (words.headD ".")) cwd (words.headD ".")

/-! ## Calls that fill a buffer -/

section

variable {boot : Boot} {pr : Process} {endpoint : EndpointRef} {ε : Type}

/-- The system call comes back with what its service answered. -/
theorem intoBuffer_prints {room : Nat} {service : SchedM (Except Stop (List UInt8))}
    {code : Except StorageError Nat → Nat} {result : Nat → Except ε Nat}
    {ofStorage : StorageError → ε} {r : Except StorageError (List UInt8)}
    (hservice : ∀ m trace queued, Attached boot pr endpoint m trace queued →
      service m.scheduler = .ok (r.mapError Stop.storage) m.scheduler)
    (hroom : ∀ bytes, r = .ok bytes → bytes.length ≤ room) (hbound : room ≤ userStackTop)
    (hcode : ∀ n : Except StorageError Nat, (∀ k, n = .ok k → k ≤ userStackTop) →
      result (code n) = n.mapError ofStorage)
    {f : Except ε (List UInt8) → UserM (List Event)} {rest : UserM (List Event)}
    {bytes : List UInt8} (hf : Prints boot pr endpoint (f (r.mapError ofStorage)) bytes rest) :
    Prints boot pr endpoint (intoBuffer room service code result >>= f) bytes rest := by
  refine .answered (fun m trace queued h => ?_) hf
  have hcall : onScheduler service m = .ok (r.mapError Stop.storage) m :=
    onScheduler_of_ok (hservice m trace queued h)
  rw [intoBuffer, lift_bind_run hcall]
  -- the code that the kernel returns is decoded to what it was made of
  cases r with
  | error e =>
    show EStateM.Result.ok (some ((result (code (.error e))).map _)) m = _
    rw [hcode _ fun k hk => (by cases hk)]
    rfl
  | ok filled =>
    have hlen := hroom filled rfl
    show EStateM.Result.ok (some ((result (code (.ok filled.length))).map _)) m = _
    rw [hcode _ fun k hk => (by cases hk; omega)]
    show EStateM.Result.ok (some (Except.ok (List.take filled.length _))) m = _
    rw [List.take_left']
    · rfl
    · rfl

/-- What is printed of a result. -/
def outputOf (message : ε → List String) : Except ε (List UInt8) → List UInt8
  | .ok bytes => bytes
  | .error e => (message e).flatMap strBytes

/-- The exit status for a result. -/
def statusOf : Except ε (List UInt8) → Nat
  | .ok _ => 0
  | .error _ => 1

theorem showResult_prints (message : ε → List String) (r : Except ε (List UInt8)) :
    Prints boot pr endpoint (showResult message r) (outputOf message r) (exit (statusOf r)) := by
  cases r with
  | ok bytes =>
    have hwrite : Prints boot pr endpoint (OptionT.lift (do let _ ← stdoutWrite bytes)) bytes
        (pure ()) := .write bytes ()
    exact hwrite.last (exit 0)
  | error e =>
    have hprint : Prints boot pr endpoint (print (message e)) ((message e).flatMap strBytes)
        (pure ()) := .print (message e)
    exact hprint.last (exit 1)

/-- The answer of a service that resolves a path before it reads. -/
def answerAt (cwd path : String) (read : String → Except Stop (List UInt8)) :
    Except Stop (List UInt8) :=
  match resolvePath cwd path with
  | .error e => .error (.storage e)
  | .ok target => read target

/-- **A path that resolves** is looked up on the volume. -/
theorem shows_iff_of_resolve {rule : String → Except StorageError (List UInt8) → Prop}
    {ofStorage : StorageError → ε} {message : ε → List String} {cwd path target : String}
    {out : List UInt8} {status : Nat} (hresolve : resolvePath cwd path = .ok target) :
    Shows rule ofStorage message cwd path out status ↔ ∃ r, rule target r ∧
      out = outputOf message (r.mapError ofStorage) ∧ status = statusOf (r.mapError ofStorage) := by
  constructor
  · intro h
    cases h with
    | badPath unresolved => cases hresolve.symm.trans unresolved
    | filled resolved stands =>
      cases hresolve.symm.trans resolved
      exact ⟨_, stands, rfl, rfl⟩
    | refused resolved stands =>
      cases hresolve.symm.trans resolved
      exact ⟨_, stands, rfl, rfl⟩
  · rintro ⟨r, hrule, rfl, rfl⟩
    cases r with
    | ok bytes => exact .filled hresolve hrule
    | error e => exact .refused hresolve hrule

/-- **A program that reads a path** shows what its rule says, if the service resolves the path from
the process's directory and the reads follow the rule. -/
theorem reader_shows (read : (fuel : Nat) → String → DiskM (List UInt8)) {room : Nat}
    {path : String} {service : (fuel : Nat) → SchedM (Except Stop (List UInt8))}
    {code : Except StorageError Nat → Nat} {result : Nat → Except ε Nat}
    {ofStorage : StorageError → ε} {message : ε → List String}
    {rule : String → Except StorageError (List UInt8) → Prop} (hbound : room ≤ userStackTop)
    (hservice : ∀ fuel m trace queued, Attached boot pr endpoint m trace queued →
      service fuel m.scheduler = .ok (answerAt pr.cwd path fun target => outcome (read fuel target))
        m.scheduler)
    (hlength : ∀ fuel target bytes, outcome (read fuel target) = .ok bytes → bytes.length ≤ room)
    (hcode : ∀ n : Except StorageError Nat, (∀ k, n = .ok k → k ≤ userStackTop) →
      result (code n) = n.mapError ofStorage)
    (hrule : ∀ target, startsWith target '/' = true → ∃ enough, ∀ fuel, enough ≤ fuel →
      ∃ r, rule target r ∧ outcome (read fuel target) = r.mapError Stop.storage) :
    ∃ enough, ∀ fuel, enough ≤ fuel → ∃ out status,
      Shows rule ofStorage message pr.cwd path out status ∧
      Prints boot pr endpoint (intoBuffer room (service fuel) code result >>= showResult message)
        out (exit status) := by
  cases hresolve : resolvePath pr.cwd path with
  | error e =>
    -- the volume is not looked at, so any fuel is enough
    refine ⟨0, fun fuel _ => ⟨_, _, .badPath hresolve, ?_⟩⟩
    have hanswer : ∀ m trace queued, Attached boot pr endpoint m trace queued →
        service fuel m.scheduler = .ok (.error (.storage e)) m.scheduler := by
      intro m trace queued h
      rw [hservice fuel m trace queued h, answerAt, hresolve]
    exact intoBuffer_prints (r := .error e) hanswer (fun _ h => by cases h) hbound hcode
      (showResult_prints message _)
  | ok target =>
    obtain ⟨-, -, habsolute⟩ := resolvePath_spec hresolve
    obtain ⟨enough, hread⟩ := hrule target habsolute
    refine ⟨enough, fun fuel hfuel => ?_⟩
    obtain ⟨r, hstands, hr⟩ := hread fuel hfuel
    refine ⟨_, _, (shows_iff_of_resolve hresolve).mpr ⟨r, hstands, rfl, rfl⟩,
      intoBuffer_prints ?_ ?_ hbound hcode (showResult_prints message _)⟩
    · intro m trace queued h
      rw [hservice fuel m trace queued h, answerAt, hresolve]
      exact congrArg (EStateM.Result.ok · m.scheduler) hr
    · rintro bytes rfl
      exact hlength fuel target bytes hr

/-! ## The two calls -/

variable {fs : Fat32} {content : Nat → List (List UInt8)}

theorem currentProcessReadFile_attached {m : Scheduler.Machine} {trace : List Event}
    {queued : List UInt8} (h : Attached boot pr endpoint m trace queued) (rootFs : Option Fat32)
    (fuel : Nat) (path : String) (room : Nat) :
    currentProcessReadFile rootFs fuel path room m.scheduler =
      .ok (answerAt pr.cwd path fun target => outcome (readRootFileInto rootFs fuel target room))
        m.scheduler := by
  obtain ⟨c, hsteady, -, hcurrent, rfl⟩ := h.top []
  rw [currentProcessReadFile, EStateM.bind_of_ok (Steady.currentProcess_eq hsteady.inv hcurrent)]
  show EStateM.Result.ok (readFileFrom rootFs fuel c.top.process.cwd path room) _ = _
  cases hresolve : resolvePath c.top.process.cwd path with
  | error e => rw [readFileFrom, answerAt, hresolve]
  | ok target => rw [readFileFrom, answerAt, hresolve]

theorem currentProcessReadDir_attached {m : Scheduler.Machine} {trace : List Event}
    {queued : List UInt8} (h : Attached boot pr endpoint m trace queued) (rootFs : Option Fat32)
    (fuel : Nat) (path : String) (room : Nat) :
    currentProcessReadDir rootFs fuel path room m.scheduler =
      .ok (answerAt pr.cwd path fun target => outcome (readRootDir rootFs fuel target room))
        m.scheduler := by
  obtain ⟨c, hsteady, -, hcurrent, rfl⟩ := h.top []
  rw [currentProcessReadDir, EStateM.bind_of_ok (Steady.currentProcess_eq hsteady.inv hcurrent),
    answerAt]
  dsimp only
  cases resolvePath c.top.process.cwd path with
  | error e => rfl
  | ok target => rfl

theorem readFile_shows (hpos : 0 < fs.sectorsPerCluster) (hvolume : fs.Holds content)
    (path : String) :
    ∃ enough, ∀ fuel, enough ≤ fuel → ∃ out status,
      Shows (GivesFile fs content fileBufferSize) ReadFileError.ofStorage (catMessage path) pr.cwd
        path out status ∧
      Prints boot pr endpoint (readFile (some fs) fuel path fileBufferSize >>=
        showResult (catMessage path)) out (exit status) :=
  reader_shows (fun fuel target => readRootFileInto (some fs) fuel target fileBufferSize)
    (by decide)
    (fun fuel _ _ _ h => currentProcessReadFile_attached h (some fs) fuel path fileBufferSize)
    (fun _ _ _ h => readRootFileInto_length h) (fun _ hn => readFileResult_code hn)
    fun _ habsolute => readFileInto_gives hpos hvolume habsolute fileBufferSize

theorem readDir_shows (hvolume : fs.Holds content) (path : String) :
    ∃ enough, ∀ fuel, enough ≤ fuel → ∃ out status,
      Shows (ListsDirectory fs content directoryBufferSize) ReadDirError.ofStorage
        (lsMessage path) pr.cwd path out status ∧
      Prints boot pr endpoint (readDir (some fs) fuel path directoryBufferSize >>=
        showResult (lsMessage path)) out (exit status) := by
  refine reader_shows (fun fuel target => readRootDir (some fs) fuel target directoryBufferSize)
    (by decide)
    (fun fuel _ _ _ h => currentProcessReadDir_attached h (some fs) fuel path directoryBufferSize)
    (fun _ _ _ h => readRootDir_length h) (fun _ hn => readDirResult_code hn)
    fun target habsolute => ?_
  obtain ⟨enough, r, hlists, hread⟩ := readDir_lists hvolume habsolute directoryBufferSize
  exact ⟨enough, fun fuel hfuel => ⟨r, hlists, hread fuel hfuel⟩⟩

/-! ## The programs -/

variable {view : ByteView} {rounds calls stackTop : Nat} {startup : StartupArgs} {argv0 : String}
  {words : List String}

/-- `cat` behind its startup block. -/
theorem catMain_prints (hpos : 0 < fs.sectorsPerCluster) (hvolume : fs.Holds content)
    (hinit : liblazerInitialize view stackTop = some startup)
    (hcollect : (args startup).collect view rounds (calls + 2) = some (argv0 :: words)) :
    ∃ enough, ∀ fuel, enough ≤ fuel → ∃ out status, CatShows fs content pr.cwd words out status ∧
      Prints boot pr endpoint (catMain (some fs) fuel view rounds stackTop) out (exit status) := by
  obtain ⟨it, hname, hwords⟩ := next_of_collect_cons hcollect
  obtain ⟨it', hnext, rfl⟩ | ⟨path, rest, it', hnext, rfl, -⟩ := next_of_collect hwords
  · refine ⟨0, fun fuel _ => ⟨_, _, .noArgument, .load hinit (.load hname (.load hnext ?_))⟩⟩
    have hprint : Prints boot pr endpoint (print ["cat: missing path\n"])
        (strBytes "cat: missing path\n") (pure ()) := .word _
    exact hprint.last (exit 1)
  · obtain ⟨enough, hread⟩ := readFile_shows hpos hvolume path
    refine ⟨enough, fun fuel hfuel => ?_⟩
    obtain ⟨out, status, hshown, hprints⟩ := hread fuel hfuel
    exact ⟨out, status, .path hshown, .load hinit (.load hname (.load hnext hprints))⟩

/-- `ls` behind its startup block. -/
theorem lsMain_prints (hvolume : fs.Holds content)
    (hinit : liblazerInitialize view stackTop = some startup)
    (hcollect : (args startup).collect view rounds (calls + 2) = some (argv0 :: words)) :
    ∃ enough, ∀ fuel, enough ≤ fuel → ∃ out status, LsShows fs content pr.cwd words out status ∧
      Prints boot pr endpoint (lsMain (some fs) fuel view rounds stackTop) out (exit status) := by
  obtain ⟨it, hname, hwords⟩ := next_of_collect_cons hcollect
  -- without an argument the path is the directory itself
  have hpath : ∃ word it', it.next view rounds = some (word, it') ∧
      word.getD "." = words.headD "." := by
    obtain ⟨it', hnext, hnone⟩ | ⟨path, rest, it', hnext, hsome, -⟩ := next_of_collect hwords
    · exact ⟨none, it', hnext, by rw [hnone]; rfl⟩
    · exact ⟨some path, it', hnext, by rw [hsome]; rfl⟩
  obtain ⟨word, it', hnext, hword⟩ := hpath
  obtain ⟨enough, hread⟩ := readDir_shows hvolume (words.headD ".")
  refine ⟨enough, fun fuel hfuel => ?_⟩
  obtain ⟨out, status, hshown, hprints⟩ := hread fuel hfuel
  rw [← hword] at hprints
  exact ⟨out, status, hshown, .load hinit (.load hname (.load hnext hprints))⟩

/-- A process of a run has a directory that is absolute and fits. -/
theorem Attached.cwdIs {m : Scheduler.Machine} {trace : List Event} {queued : List UInt8}
    (h : Attached boot pr endpoint m trace queued) : pr.CwdIs pr.cwd := by
  obtain ⟨c, hsteady, -, -, rfl⟩ := h.top []
  exact (hsteady.inv.ok.ready c.top.process List.mem_cons_self).cwd

/-- The buffer of `pwd` is as large as the one in the kernel. -/
theorem getcwd_attached {m : Scheduler.Machine} {trace : List Event} {queued : List UInt8}
    (h : Attached boot pr endpoint m trace queued) :
    (getcwd cwdBufferSize).run m = .ok (some (.ok (strBytes pr.cwd))) m := by
  have hcwd := h.cwdIs
  obtain ⟨c, hsteady, -, hcurrent, rfl⟩ := h.top []
  -- the buffer has room for whatever the kernel's own buffer holds
  have hlen : (strBytes c.top.process.cwd).length ≤ cwdBufferSize := hcwd.cwdLen_eq ▸ hcwd.len_le
  have hservice : onScheduler (currentProcessGetcwd (List.replicate cwdBufferSize 0)) m =
      .ok (some ((strBytes c.top.process.cwd).length, strBytes c.top.process.cwd ++
        (List.replicate cwdBufferSize 0).drop (strBytes c.top.process.cwd).length)) m := by
    refine onScheduler_of_ok ?_
    rw [currentProcessGetcwd, EStateM.bind_of_ok (Steady.currentProcess_eq hsteady.inv hcurrent)]
    show EStateM.Result.ok (c.top.process.copyCwdInto _) _ = _
    rw [Process.copyCwdInto, List.length_replicate, hcwd.cwdLen_eq, if_neg (by omega),
      ← hcwd.cwdLen_eq, hcwd.used_eq]
  rw [getcwd, lift_bind_run hservice]
  show EStateM.Result.ok (some ((getcwdResult (strBytes c.top.process.cwd).length).map _)) m = _
  have hcount : getcwdResult (strBytes c.top.process.cwd).length =
      .ok (strBytes c.top.process.cwd).length :=
    decode_count (by decide) (hlen.trans (by decide))
  rw [hcount]
  show EStateM.Result.ok (some (Except.ok (List.take _ _))) m = _
  rw [List.take_left']
  rfl

end

/-! ## The small volume -/

/-- The sample machine with the small volume. -/
def listedBoot : Boot := { sampleBoot with rootFs := some listedVolume }

/-- The bootstrap process at its first call, with nothing queued. -/
theorem listedBoot_attached : ∃ r pr, listedBoot.exec [.yieldNow] = some r ∧
    Attached listedBoot pr primaryEndpoint r.1 r.2 [] ∧ pr.cwd = "/" := by
  obtain ⟨r, pr, hr, -, ⟨th, hth, huser, hpr⟩, hfd, hqueued⟩ := sample_calling
  have hexec : listedBoot.exec [.yieldNow] = some r := hr
  have hcwd : ((sampleBoot.exec [.yieldNow]).bind fun r => r.1.current.bind fun th =>
      (r.1.scheduler.process? th.processId).map (·.cwd)) = some "/" := by
    decide +kernel
  rw [hr, Option.bind_some, hth, Option.bind_some, hpr] at hcwd
  exact ⟨r, pr, hexec, ⟨run_of_exec hexec, ⟨th, hth, huser, hpr⟩, hfd, hqueued⟩,
    Option.some.inj hcwd⟩

/-- The one name in the root, and where it leads. -/
theorem listedVolume_resolves {r : Except StorageError FatResolvedPath}
    (h : Resolves (fun _ => binEntries) (pathComponents "/BIN") listedVolume.rootCluster r) :
    r = .ok (.directory 3) := by
  have hname : makeShortName "BIN" = .ok #v[66, 73, 78, 32, 32, 32, 32, 32, 32, 32, 32] := by
    decide +kernel
  have hfound : entryNamed (fun _ => binEntries) #v[66, 73, 78, 32, 32, 32, 32, 32, 32, 32, 32]
      listedVolume.rootCluster = some ⟨3, 0, true⟩ := by
    decide +kernel
  have hcomponents : pathComponents "/BIN" = ["BIN"] := by decide +kernel
  rw [hcomponents] at h
  exact h.unique (.last hname hfound)

theorem listedVolume_gives {room : Nat} {r : Except StorageError (List UInt8)}
    (h : GivesFile listedVolume (fun _ => binEntries) room "/BIN" r) : r = .error .notAFile := by
  cases h with
  | nowhere resolves => cases listedVolume_resolves resolves
  | directory _ _ => rfl
  | tooLarge resolves _ => cases listedVolume_resolves resolves
  | contents resolves _ _ => cases listedVolume_resolves resolves
  | unreadable resolves _ _ => cases listedVolume_resolves resolves

/-- The root has one entry in use, and an end entry. -/
theorem listedVolume_lists {r : Except StorageError (List UInt8)}
    (h : ListsDirectory listedVolume (fun _ => binEntries) directoryBufferSize "/" r) :
    r = .ok (strBytes "BIN\n") := by
  have hroot : ∀ r', Resolves (fun _ => binEntries) (pathComponents "/") listedVolume.rootCluster
      r' → r' = .ok .rootDirectory := by
    intro r' hresolves
    rw [show pathComponents "/" = [] by decide +kernel] at hresolves
    exact hresolves.unique (.here _)
  have hlisting : listing binEntries = strBytes "BIN\n" := by decide +kernel
  have hlen : (listing binEntries).length ≤ directoryBufferSize := by decide +kernel
  have hend : binEntries.any isEndEntry = true := by decide +kernel
  obtain ⟨entry, hentry, hends⟩ := List.any_eq_true.mp hend
  cases h with
  | nowhere resolves => cases hroot _ resolves
  | file resolves => cases hroot _ resolves
  | tooSmall _ _ large => exact absurd hlen (by omega)
  | listed _ _ _ _ => rw [hlisting]
  | unended _ _ _ full => cases (full entry hentry).symm.trans hends

end Lazers.User
