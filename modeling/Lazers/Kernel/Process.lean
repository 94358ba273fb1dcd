import Lazers.Kernel.Env
import Lazers.Kernel.Terminal
import Lazers.Lib.SlotTable
import Lazers.Memory.State

/-!
# Processes (`process.rs`)

A process owns an address space, a handle table, its standard streams, a working
directory and an environment. Methods on `&mut self` that can fail are `EStateM`:
what they changed before failing stays.

- `Process.Ready`: the streams resolve, the cwd is absolute text that fits, and the
  environment is valid; from such a process everything can be inherited.
-/

namespace Lazers.Kernel

open FixedArray Memory

def maxProcessHandles : Nat := 8
def maxCwdLen : Nat := 256

/-- Process slots and thread slots are named by their index. -/
abbrev ProcessId := Nat
abbrev ThreadId := Nat
abbrev HandleId := Nat

/-- `DEFAULT_INVALID_HANDLE`. -/
def defaultInvalidHandle : HandleId := u64Limit - 1

structure StdioHandles where
  stdin : HandleId
  stdout : HandleId
  stderr : HandleId
deriving DecidableEq

def StdioHandles.empty : StdioHandles where
  stdin := defaultInvalidHandle
  stdout := defaultInvalidHandle
  stderr := defaultInvalidHandle

inductive ProcessState where
  | running
  | exited (status : Nat)
deriving DecidableEq, Repr

inductive ProcessExitAction where
  | continue
  | shutdownSystem
deriving DecidableEq, Repr

structure Process where
  id : ProcessId
  addressSpace : AddressSpace
  handles : Vector (Option KernelObject) maxProcessHandles
  stdio : StdioHandles
  state : ProcessState
  waitingThread : Option ThreadId
  cwdBytes : Vector UInt8 maxCwdLen
  cwdLen : Nat
  env : Environment
  ownedPages : OwnedPages
  exitAction : ProcessExitAction
deriving DecidableEq

namespace Process

/-- `Process::new`, with `new_root_cwd`. -/
def new (id : ProcessId) (addressSpace : AddressSpace) (ownedPages : OwnedPages)
    (exitAction : ProcessExitAction) : Process where
  id
  addressSpace
  handles := Vector.replicate maxProcessHandles none
  stdio := StdioHandles.empty
  state := .running
  waitingThread := none
  cwdBytes := (Vector.replicate maxCwdLen 0).setIfInBounds 0 47
  cwdLen := 1
  env := Environment.new
  ownedPages
  exitAction

/-! ## Handles -/

/-- `install_handle`: the first free slot. -/
def installHandle (object : KernelObject) : EStateM Unit Process HandleId := fun p =>
  match SlotTable.firstFree p.handles with
  | none => .error () p
  | some index => .ok index { p with handles := SlotTable.put p.handles index (some object) }

/-- `set_stdio`. -/
def setStdio (p : Process) (stdio : StdioHandles) : Process := { p with stdio }

/-- `resolve_handle`. -/
def resolveHandle (p : Process) (handle : HandleId) : Option KernelObject :=
  SlotTable.get p.handles handle

/-- `resolve_fd`. -/
def resolveFd (p : Process) (fd : Nat) : Option KernelObject :=
  match fd with
  | 0 => p.resolveHandle p.stdio.stdin
  | 1 => p.resolveHandle p.stdio.stdout
  | 2 => p.resolveHandle p.stdio.stderr
  | _ => none

/-- `?` on an `Option` inside a method that returns one. -/
def orFail {α : Type} (x : Option α) : EStateM Unit Process α :=
  match x with
  | some a => pure a
  | none => throw ()

/-- `inherit_stdio_into`; the state is the child. -/
def inheritStdioInto (self : Process) : EStateM Unit Process Unit := do
  let stdin ← installHandle (← orFail (self.resolveFd 0))
  let stdout ← installHandle (← orFail (self.resolveFd 1))
  let stderr ← installHandle (← orFail (self.resolveFd 2))
  modify (setStdio · { stdin, stdout, stderr })

/-- `inherit_stdio_silent_into`; the state is the child. -/
def inheritStdioSilentInto (self : Process) : EStateM Unit Process Unit := do
  let stdin ← installHandle (← orFail (self.resolveFd 0))
  let stdout ← installHandle .null
  let stderr ← installHandle .null
  modify (setStdio · { stdin, stdout, stderr })

/-- The loop of `read`: the bytes read, at most `room` of them. -/
def readFrom (object : KernelObject) : (room : Nat) → Console → List UInt8 × Console
  | 0, c => ([], c)
  | room + 1, c =>
    match object.readByte c with
    | (none, c) => ([], c)
    | (some byte, c) =>
      let (bytes, c) := readFrom object room c
      (byte :: bytes, c)

/-- `Process::read` into a buffer of `room` bytes. -/
def read (p : Process) (fd room : Nat) (c : Console) : List UInt8 × Console :=
  match p.resolveFd fd with
  | none => ([], c)
  | some object => readFrom object room c

/-- The loop of `write`. -/
def writeFrom (object : KernelObject) : (buffer : List UInt8) → (written : Nat) → Console →
    Nat × Console
  | [], written, c => (written, c)
  | byte :: rest, written, c =>
    match object.writeByte byte c with
    | (false, c) => (written, c)
    | (true, c) => writeFrom object rest (written + 1) c

/-- `Process::write`. -/
def write (p : Process) (fd : Nat) (buffer : List UInt8) (c : Console) : Nat × Console :=
  match p.resolveFd fd with
  | none => (0, c)
  | some object => writeFrom object buffer 0 c

/-! ## Working directory and environment -/

/-- `Process::cwd`. -/
def cwd (p : Process) : String := (fromUtf8 (used p.cwdBytes p.cwdLen)).getD "/"

/-- `set_cwd`. -/
def setCwd (cwd : String) : EStateM Unit Process Unit := fun p =>
  if cwd = "" ∨ startsWith cwd '/' = false ∨ (strBytes cwd).length > maxCwdLen then .error () p
  else .ok () { p with
    cwdBytes := writeAt p.cwdBytes 0 (strBytes cwd)
    cwdLen := (strBytes cwd).length }

/-- `copy_cwd_into`: the length, and the buffer it leaves. -/
def copyCwdInto (p : Process) (buffer : List UInt8) : Option (Nat × List UInt8) :=
  if buffer.length < p.cwdLen then none
  else some (p.cwdLen, used p.cwdBytes p.cwdLen ++ buffer.drop p.cwdLen)

/-- `inherit_cwd_into`; the state is the child. -/
def inheritCwdInto (self : Process) : EStateM Unit Process Unit := setCwd self.cwd

/-- A call on `self.env`. -/
def onEnv {α : Type} (f : EStateM EnvironmentError Environment α) :
    EStateM EnvironmentError Process α := fun p =>
  match f p.env with
  | .ok a env => .ok a { p with env }
  | .error e env => .error e { p with env }

/-- `inherit_env_into`; the state is the child. -/
def inheritEnvInto (self : Process) : EStateM EnvironmentError Process Unit :=
  onEnv self.env.inheritInto

/-- `set_env`. -/
def setEnv (key value : String) : EStateM EnvironmentError Process Unit :=
  onEnv (Environment.set key value)

/-- `remove_env`. -/
def removeEnv (key : String) : EStateM EnvironmentError Process Bool :=
  onEnv (Environment.remove key)

/-! ## Lifecycle -/

/-- `mark_exited`. -/
def markExited (p : Process) (status : Nat) : Process := { p with state := .exited status }

/-- `set_waiting_thread`. -/
def setWaitingThread (p : Process) (thread : ThreadId) : Process :=
  { p with waitingThread := some thread }

/-- `take_waiting_thread`. -/
def takeWaitingThread (p : Process) : Option ThreadId × Process :=
  (p.waitingThread, { p with waitingThread := none })

/-- `take_owned_pages`. -/
def takeOwnedPages (p : Process) : OwnedPages × Process :=
  (p.ownedPages, { p with ownedPages := OwnedPages.empty })

/-! ## What can be inherited -/

/-- The cwd array holds `cwd`, which `set_cwd` would take. -/
structure CwdIs (p : Process) (cwd : String) : Prop where
  used_eq : used p.cwdBytes p.cwdLen = strBytes cwd
  len_le : p.cwdLen ≤ maxCwdLen
  absolute : startsWith cwd '/' = true

/-- **Ready**: everything a child inherits is in order. -/
structure Ready (p : Process) : Prop where
  stdio : ∀ fd < 3, ∃ object, p.resolveFd fd = some object
  cwd : p.CwdIs p.cwd
  env : p.env.Valid

variable {p : Process} {cwd : String}

/-- Only the environment changed. -/
theorem Ready.withEnv (h : p.Ready) {env : Environment} (henv : env.Valid) :
    Ready { p with env } where
  stdio := h.stdio
  cwd := ⟨h.cwd.used_eq, h.cwd.len_le, h.cwd.absolute⟩
  env := henv

theorem CwdIs.cwd_eq (h : p.CwdIs cwd) : p.cwd = cwd := by
  rw [Process.cwd, h.used_eq, fromUtf8_strBytes]
  rfl

theorem CwdIs.cwdLen_eq (h : p.CwdIs cwd) : p.cwdLen = (strBytes cwd).length := by
  rw [← h.used_eq, length_used _ h.len_le]

/-- What `set_cwd` takes, it stores. -/
theorem setCwd_cases (cwd : String) (p : Process) :
    (startsWith cwd '/' = true ∧ (strBytes cwd).length ≤ maxCwdLen ∧
      ∃ p', setCwd cwd p = .ok () p' ∧ p'.CwdIs cwd ∧
        p' = { p with cwdBytes := p'.cwdBytes, cwdLen := p'.cwdLen }) ∨
    (¬ (startsWith cwd '/' = true ∧ (strBytes cwd).length ≤ maxCwdLen) ∧
      setCwd cwd p = .error () p) := by
  rw [setCwd]
  by_cases habs : startsWith cwd '/' = true
  · by_cases hlen : (strBytes cwd).length ≤ maxCwdLen
    · have hne : cwd ≠ "" := by
        rintro rfl
        cases habs
      rw [if_neg (by simp [hne, habs, hlen])]
      refine .inl ⟨habs, hlen, _, rfl, ⟨?_, hlen, habs⟩, rfl⟩
      have hwrite := used_writeAt p.cwdBytes 0 (l := strBytes cwd) (by omega)
      rwa [Nat.zero_add, used_zero, List.nil_append] at hwrite
    · rw [if_pos (.inr (.inr (Nat.lt_of_not_le hlen)))]
      exact .inr ⟨fun h => hlen h.2, rfl⟩
  · rw [if_pos (.inr (.inl (Bool.not_eq_true _ ▸ habs)))]
    exact .inr ⟨fun h => habs h.1, rfl⟩

theorem cwdIs_new (id : ProcessId) (space : AddressSpace) (pages : OwnedPages)
    (action : ProcessExitAction) : (new id space pages action).CwdIs "/" where
  used_eq := used_push _ (by decide)
  len_le := (by decide : 1 ≤ maxCwdLen)
  absolute := by decide

/-! ### Handing the streams over -/

/-- The child's streams. -/
def childFd (parent : Process) (silent : Bool) (fd : Nat) : Option KernelObject :=
  if silent = true ∧ (fd = 1 ∨ fd = 2) then some .null else parent.resolveFd fd

/-- Three objects into an empty table. -/
theorem install_three (child : Process) (hempty : child.handles = Vector.replicate _ none)
    (a b c : KernelObject) :
    ∃ child', (do
        let stdin ← installHandle a
        let stdout ← installHandle b
        let stderr ← installHandle c
        modify (setStdio · { stdin, stdout, stderr }) : EStateM Unit Process Unit) child =
          .ok () child' ∧
      child' = { child with handles := child'.handles, stdio := child'.stdio } ∧
      child'.resolveFd 0 = some a ∧ child'.resolveFd 1 = some b ∧ child'.resolveFd 2 = some c := by
  obtain ⟨id, space, handles, stdio, state, waiting, cwd, len, env, pages, action⟩ := child
  subst hempty
  exact ⟨_, rfl, rfl, rfl, rfl, rfl⟩

/-- **Inheriting**: what a child gets from its parent, and that nothing else about the
new process changes. -/
structure Inherited (parent blank child : Process) (silent : Bool) : Prop where
  frame : child = { blank with
    handles := child.handles, stdio := child.stdio, cwdBytes := child.cwdBytes,
    cwdLen := child.cwdLen, env := child.env }
  fds : ∀ fd, child.resolveFd fd = childFd parent silent fd
  cwd : child.CwdIs parent.cwd
  env : child.env.Valid
  pairs : child.env.pairs = parent.env.pairs

variable {parent blank child : Process} {silent : Bool}

theorem resolveFd_ge {fd : Nat} (h : 3 ≤ fd) (p : Process) : p.resolveFd fd = none := by
  obtain ⟨k, rfl⟩ := Nat.exists_eq_add_of_le' h
  rfl

/-- The streams of a ready parent resolve in the child. -/
theorem Ready.inheritStdio (h : parent.Ready) (silent : Bool)
    (hempty : blank.handles = Vector.replicate _ none) :
    ∃ child, (if silent then parent.inheritStdioSilentInto else parent.inheritStdioInto) blank =
        .ok () child ∧
      child = { blank with handles := child.handles, stdio := child.stdio } ∧
      ∀ fd, child.resolveFd fd = childFd parent silent fd := by
  obtain ⟨a, ha⟩ := h.stdio 0 (by decide)
  obtain ⟨b, hb⟩ := h.stdio 1 (by decide)
  obtain ⟨c, hc⟩ := h.stdio 2 (by decide)
  cases silent with
  | true =>
    obtain ⟨child, hrun, hframe, h0, h1, h2⟩ := install_three blank hempty a .null .null
    refine ⟨child, ?_, hframe, fun fd => ?_⟩
    · rw [if_pos rfl, inheritStdioSilentInto, ha]
      exact hrun
    · rw [childFd]
      match fd with
      | 0 => rw [h0, if_neg (by simp), ha]
      | 1 => rw [h1, if_pos (by simp)]
      | 2 => rw [h2, if_pos (by simp)]
      | k + 3 => rw [if_neg (by omega), resolveFd_ge (by omega), resolveFd_ge (by omega)]
  | false =>
    obtain ⟨child, hrun, hframe, h0, h1, h2⟩ := install_three blank hempty a b c
    refine ⟨child, ?_, hframe, fun fd => ?_⟩
    · rw [if_neg (by simp), inheritStdioInto, ha, hb, hc]
      exact hrun
    · rw [childFd, if_neg (by simp)]
      match fd with
      | 0 => rw [h0, ha]
      | 1 => rw [h1, hb]
      | 2 => rw [h2, hc]
      | k + 3 => rw [resolveFd_ge (by omega), resolveFd_ge (by omega)]

/-- **A ready parent can be inherited from**, and its child is ready. -/
theorem Ready.inherit (h : parent.Ready) (silent : Bool) (blank : Process)
    (hempty : blank.handles = Vector.replicate _ none) :
    ∃ c₁ c₂ child, (if silent then parent.inheritStdioSilentInto else parent.inheritStdioInto)
          blank = .ok () c₁ ∧
      parent.inheritCwdInto c₁ = .ok () c₂ ∧ parent.inheritEnvInto c₂ = .ok () child ∧
      Inherited parent blank child silent := by
  obtain ⟨c₁, hstdio, hframe₁, hfds⟩ := h.inheritStdio silent hempty
  have hlen : (strBytes parent.cwd).length ≤ maxCwdLen := h.cwd.cwdLen_eq ▸ h.cwd.len_le
  obtain ⟨-, -, c₂, hcwd, hcwdIs, hframe₂⟩ | ⟨hbad, -⟩ := setCwd_cases parent.cwd c₁
  · obtain ⟨env, hrun, hvalid, hpairs⟩ := h.env.inheritInto_eq_ok c₂.env
    refine ⟨c₁, c₂, { c₂ with env }, hstdio, hcwd, ?_, ?_, ?_,
      ⟨hcwdIs.used_eq, hcwdIs.len_le, hcwdIs.absolute⟩, hvalid, hpairs⟩
    · rw [inheritEnvInto, onEnv, hrun]
    · rw [hframe₂, hframe₁]
    · intro fd
      rw [← hfds fd, hframe₂]
      rfl
  · exact absurd ⟨h.cwd.absolute, hlen⟩ hbad

theorem Inherited.ready (hin : Inherited parent blank child silent) (h : parent.Ready) :
    child.Ready where
  stdio fd hfd := by
    rw [hin.fds, childFd]
    split_ifs
    · exact ⟨_, rfl⟩
    · exact h.stdio fd hfd
  cwd := by
    rw [hin.cwd.cwd_eq]
    exact hin.cwd
  env := hin.env

/-! ## Streams and queues -/

variable {c : Console} {endpoint : EndpointRef} {l : List UInt8}

/-- Reading leaves output alone. -/
theorem readFrom_spec (h : c.Queued endpoint l) (room : Nat) :
    (readFrom (.terminalEndpoint endpoint) room c).2.Queued endpoint l ∧
      (readFrom (.terminalEndpoint endpoint) room c).2.screen = c.screen ∧
      (readFrom (.terminalEndpoint endpoint) room c).2.serial = c.serial := by
  induction room generalizing c with
  | zero => exact ⟨h, rfl, rfl⟩
  | succ room ih =>
    have hpop := h.popInputByte
    rw [readFrom]
    cases hread : KernelObject.readByte (.terminalEndpoint endpoint) c with
    | mk byte c' =>
      have hc' : (c.popInputByte endpoint).2 = c' := congrArg Prod.snd hread
      have hsame : c'.screen = c.screen ∧ c'.serial = c.serial := by
        rw [← hc']
        exact ⟨rfl, rfl⟩
      rw [hc'] at hpop
      cases byte with
      | none => exact ⟨hpop, hsame⟩
      | some byte =>
        obtain ⟨hqueued, hscreen, hserial⟩ := ih hpop
        exact ⟨hqueued, hscreen.trans hsame.1, hserial.trans hsame.2⟩

/-- **Writing to a terminal** queues a prefix of the buffer: as much as there is room for. One
byte more goes to the serial port, if there is one. -/
theorem writeFrom_spec (h : c.Queued endpoint l) (buffer : List UInt8) (written : Nat) :
    ∃ c', writeFrom (.terminalEndpoint endpoint) buffer written c =
        (written + min buffer.length (terminalOutputCapacity - l.length), c') ∧
      c'.Queued endpoint (l ++ buffer.take (terminalOutputCapacity - l.length)) ∧
      c'.screen = c.screen ∧
      c'.serial = c.serial ++ buffer.take (terminalOutputCapacity - l.length + 1) := by
  induction buffer generalizing c l written with
  | nil =>
    refine ⟨c, by simp [writeFrom], ?_, rfl, ?_⟩
    · rw [List.take_nil, List.append_nil]
      exact h
    · rw [List.take_nil, List.append_nil]
  | cons byte rest ih =>
    rw [writeFrom]
    obtain ⟨hroom, c₁, hpush, hqueued, hserial, hscreen⟩ | ⟨hfull, c₁, hpush, hqueued, hserial,
      hscreen⟩ := h.pushOutputByte_cases byte
    · have hwrite : KernelObject.writeByte (.terminalEndpoint endpoint) byte c = (true, c₁) := hpush
      obtain ⟨c', hrun, hqueued', hscreen', hserial'⟩ := ih hqueued (written + 1)
      have hleft : terminalOutputCapacity - l.length =
          (terminalOutputCapacity - (l ++ [byte]).length) + 1 := by
        rw [List.length_append, List.length_singleton]
        omega
      rw [hwrite]
      refine ⟨c', ?_, ?_, hscreen'.trans hscreen, ?_⟩
      · dsimp only
        rw [hrun, hleft, List.length_cons, Nat.add_min_add_right, Nat.add_assoc, Nat.add_comm 1]
      · rw [hleft, List.take_succ_cons, List.append_cons]
        exact hqueued'
      · rw [hserial', hserial, hleft, List.take_succ_cons, List.append_assoc]
        rfl
    · -- The refused byte has been mirrored already.
      have hwrite : KernelObject.writeByte (.terminalEndpoint endpoint) byte c = (false, c₁) := hpush
      have hleft : terminalOutputCapacity - l.length = 0 := by omega
      rw [hwrite, hleft]
      refine ⟨c₁, by simp, ?_, hscreen, ?_⟩
      · rw [List.take_zero, List.append_nil]
        exact hqueued
      · rw [hserial, List.take_succ_cons, List.take_zero]

end Process

end Lazers.Kernel
