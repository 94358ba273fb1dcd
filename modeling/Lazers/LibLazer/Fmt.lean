import Lazers.Scheduler.Output

/-!
# Formatted output in userland (`liblazer/src/fmt.rs`, `liblazer/src/io.rs`)

`print` and `eprint` format through `fmt::Write` implementations that pass each
piece on to the `write` system call. The kernel answers with the number of bytes
that the terminal queue took; `write_str` drops that number and says `Ok`.

`write_str_complete_iff`: the whole string is in the queue exactly when there was
room for it.
-/

namespace Lazers.LibLazer

open Kernel Scheduler

/-- `core::fmt::Error`. -/
inductive FmtError where
  | error
deriving DecidableEq, Repr

/-- `write`: the count that the system call leaves in `rax`. -/
def write (fd : Nat) (buffer : List UInt8) : MachineM Nat := do
  match ← writeCall fd buffer with
  | [.wrote _ _ _ _ written] => return written
  | _ => return 0

/-- `stdout_write`. -/
def stdoutWrite (buffer : List UInt8) : MachineM Nat := write 1 buffer

/-- `stderr_write`. -/
def stderrWrite (buffer : List UInt8) : MachineM Nat := write 2 buffer

/-- `Stdout::write_str`. -/
def Stdout.writeStr (s : String) : MachineM (Except FmtError Unit) := do
  let _ ← stdoutWrite (strBytes s)
  return .ok ()

/-- `Stderr::write_str`. -/
def Stderr.writeStr (s : String) : MachineM (Except FmtError Unit) := do
  let _ ← stderrWrite (strBytes s)
  return .ok ()

/-! ## What reaches the queue -/

/-- The `write` wrapper changes the console as the process's own write does. -/
theorem write_eq {m : Machine} {c : Config} (h : Inv m.scheduler c)
    (hcurrent : m.scheduler.currentThread = some c.top.thread.id) (fd : Nat)
    (buffer : List UInt8) :
    write fd buffer m = .ok (c.top.process.write fd buffer m.console).1
      { m with console := (c.top.process.write fd buffer m.console).2 } :=
  EStateM.bind_of_ok (Steady.writeCall_eq h hcurrent fd buffer) _

/-- A terminal's queue takes the whole buffer exactly when there is room for it. -/
theorem queued_write_iff {pr : Process} {fd : Nat} {endpoint : EndpointRef} {c : Console}
    {queued : List UInt8} (hfd : pr.resolveFd fd = some (.terminalEndpoint endpoint))
    (h : c.Queued endpoint queued) (buffer : List UInt8) :
    (pr.write fd buffer c).2.Queued endpoint (queued ++ buffer) ↔
      buffer.length ≤ terminalOutputCapacity - queued.length := by
  obtain ⟨c', hrun, hqueued, -⟩ := Process.writeFrom_spec h buffer 0
  rw [Process.write, hfd]
  dsimp only
  rw [hrun]
  constructor
  · intro hall
    -- The queue has one content, so the part taken is the whole buffer.
    have htake := List.append_cancel_left (hqueued.unique hall)
    rw [← htake]
    exact List.length_take_le _ _
  · intro hroom
    rwa [List.take_of_length_le hroom] at hqueued

/-- The calling process of a run: the current thread is a user thread of it. -/
def Calling (m : Machine) (pr : Process) : Prop :=
  ∃ th, m.current = some th ∧ (∃ entryPoint stackTop, th.start = .user entryPoint stackTop) ∧
    m.scheduler.process? th.processId = some pr

/-- `write_str` on descriptor `fd` says `Ok`, and has queued the string if and only if it fits
in what is left of the queue. -/
def CompleteIffRoom (writeStr : String → MachineM (Except FmtError Unit)) (fd : Nat) : Prop :=
  ∀ boot m trace pr endpoint queued s, Run boot m trace → Calling m pr →
    pr.resolveFd fd = some (.terminalEndpoint endpoint) → m.console.Queued endpoint queued →
    ∃ m', writeStr s m = .ok (.ok ()) m' ∧
      (m'.console.Queued endpoint (queued ++ strBytes s) ↔
        (strBytes s).length ≤ terminalOutputCapacity - queued.length)

theorem completeIffRoom_of_eq {writeStr : String → MachineM (Except FmtError Unit)} {fd : Nat}
    (hdef : ∀ s m k m', write fd (strBytes s) m = .ok k m' → writeStr s m = .ok (.ok ()) m') :
    CompleteIffRoom writeStr fd := by
  rintro boot m trace pr endpoint queued s run ⟨th, hth, huser, hpr⟩ hfd hqueued
  obtain ⟨c, hsteady, -⟩ := run.stackRun
  have hcurrent := hsteady.top_of_write (Enabled.of_user hth huser fd (strBytes s))
  -- The process found for the current thread is the top of the chain.
  have hprocess : pr = c.top.process := by
    rw [Machine.current, hcurrent, Option.bind_some,
      hsteady.inv.thread?_of_mem (Config.mem_threads Config.top_mem)] at hth
    cases hth
    rw [hsteady.inv.ok.owner c.top List.mem_cons_self, hsteady.inv.process?_top] at hpr
    exact (Option.some.inj hpr).symm
  subst hprocess
  exact ⟨_, hdef s m _ _ (write_eq hsteady.inv hcurrent fd (strBytes s)),
    queued_write_iff hfd hqueued (strBytes s)⟩

theorem stdout_completeIffRoom : CompleteIffRoom Stdout.writeStr 1 :=
  completeIffRoom_of_eq fun _ _ _ _ h => EStateM.bind_of_ok h _

theorem stderr_completeIffRoom : CompleteIffRoom Stderr.writeStr 2 :=
  completeIffRoom_of_eq fun _ _ _ _ h => EStateM.bind_of_ok h _

/-- **Formatted output is complete exactly when it fits.** In every run, `write_str` of a process
attached to a terminal returns `Ok`; its string is in the queue, behind what was there, if
and only if the queue had room for all of it. -/
theorem write_str_complete_iff {boot : Boot} {m : Machine} {trace : List Event} {pr : Process}
    {endpoint : EndpointRef} {queued : List UInt8} (s : String) (run : Run boot m trace)
    (hcalling : Calling m pr) (hqueued : m.console.Queued endpoint queued) :
    (pr.resolveFd 1 = some (.terminalEndpoint endpoint) →
      ∃ m', Stdout.writeStr s m = .ok (.ok ()) m' ∧
        (m'.console.Queued endpoint (queued ++ strBytes s) ↔
          (strBytes s).length ≤ terminalOutputCapacity - queued.length)) ∧
    (pr.resolveFd 2 = some (.terminalEndpoint endpoint) →
      ∃ m', Stderr.writeStr s m = .ok (.ok ()) m' ∧
        (m'.console.Queued endpoint (queued ++ strBytes s) ↔
          (strBytes s).length ≤ terminalOutputCapacity - queued.length)) := by
  constructor
  · intro hfd
    exact stdout_completeIffRoom boot m trace pr endpoint queued s run hcalling hfd hqueued
  · intro hfd
    exact stderr_completeIffRoom boot m trace pr endpoint queued s run hcalling hfd hqueued

/-- The bootstrap process at its first call, with nothing queued. -/
theorem sample_calling :
    ∃ r pr, sampleBoot.exec [.yieldNow] = some r ∧ Run sampleBoot r.1 r.2 ∧ Calling r.1 pr ∧
      pr.resolveFd 1 = some (.terminalEndpoint primaryEndpoint) ∧
      r.1.console.Queued primaryEndpoint [] := by
  obtain ⟨r, th, pr, hr, -, hth, huser, hpr, hfd, hempty⟩ := sample_bootstrap_current
  obtain ⟨c, -, -, queued, hqueued, -⟩ := (run_of_exec hr).pipeline
  have hnil : queued = [] := by
    rw [← List.length_eq_zero_iff, ← hqueued.len_eq]
    exact hempty
  exact ⟨r, pr, hr, run_of_exec hr, ⟨th, hth, huser, hpr⟩, hfd, hnil ▸ hqueued⟩

/-- A string that fits. -/
theorem write_str_complete_hi :
    ∃ r m', sampleBoot.exec [.yieldNow] = some r ∧ Stdout.writeStr "hi" r.1 = .ok (.ok ()) m' ∧
      m'.console.Queued primaryEndpoint (strBytes "hi") := by
  obtain ⟨r, pr, hr, run, hcalling, hfd, hqueued⟩ := sample_calling
  obtain ⟨m', hwrite, hiff⟩ :=
    (write_str_complete_iff "hi" run hcalling hqueued).1 hfd
  exact ⟨r, m', hr, hwrite, hiff.mpr (by decide +kernel)⟩

/-- **A string that is cut off**: 1025 bytes into the empty queue, and `Ok`. -/
theorem write_str_cut_off :
    ¬ ∀ boot m trace pr endpoint queued s m', Run boot m trace → Calling m pr →
      pr.resolveFd 1 = some (.terminalEndpoint endpoint) → m.console.Queued endpoint queued →
      Stdout.writeStr s m = .ok (.ok ()) m' →
      m'.console.Queued endpoint (queued ++ strBytes s) := by
  intro hclaim
  obtain ⟨r, pr, hr, run, hcalling, hfd, hqueued⟩ := sample_calling
  let long := String.ofList (List.replicate 1025 'a')
  have hlong : (strBytes long).length = 1025 := by
    rw [strBytes_eq_flatMap, String.toList_ofList, List.length_flatMap, List.map_replicate,
      List.sum_replicate]
    rfl
  obtain ⟨m', hwrite, hiff⟩ :=
    stdout_completeIffRoom sampleBoot r.1 r.2 pr primaryEndpoint [] long run hcalling hfd hqueued
  have hroom := hiff.mp (hclaim _ _ _ _ _ _ _ _ run hcalling hfd hqueued hwrite)
  rw [hlong, terminalOutputCapacity] at hroom
  exact absurd hroom (by decide)

end Lazers.LibLazer
