import Lazers.LibLazer.Fmt
import Lazers.LibLazer.Process
import Lazers.LibLazer.Runtime

/-!
# User programs (`user/*/src/main.rs`, on `liblazer`)

A program under `user/` looks at its arguments, makes a few system calls, prints, and exits. What it
is given comes from `spawn_wait` of another program, by way of the kernel's loader and the startup
block on the stack; what it prints goes to a terminal whose queue has room for 1024 bytes.

- `UserM`: such a program. Its system calls act on the machine, and a load from an unmapped address
  ends it (`none`).
- `Prints x bytes rest`: the program `x` writes `bytes` to its standard output, as much as there is
  room for, and goes on as `rest`. Where the output is cut into writes does not matter
  (`Prints.bind`).
- `arguments_arrive`: the words that were packed for the program are those it is given.
-/

namespace Lazers.User

open Kernel LibLazer Memory Scheduler

/-! ## Source functions -/

/-- A user program. -/
abbrev UserM : Type → Type := OptionT MachineM

/-- A load from the program's own memory. -/
def load {α : Type} (r : Option α) : UserM α := OptionT.mk (pure r)

/-- `Stdout::write_fmt`, of the pieces that formatting comes to. -/
def writeFmt : List String → UserM (Except FmtError Unit)
  | [] => return .ok ()
  | piece :: rest => do
    match ← OptionT.lift (Stdout.writeStr piece) with
    | .ok () => writeFmt rest
    | .error e => return .error e

/-- `print`: the result is dropped. -/
def print (pieces : List String) : UserM Unit := do
  let _ ← writeFmt pieces

/-- `exit`; what comes back is what the next thread lets the processes see. -/
def exit (code : Nat) : UserM (List Event) := OptionT.lift (exitCurrentProcess code)

/-! ## Writing to the terminal -/

/-- A call runs on from what its first part returns. -/
theorem lift_bind_run {α β : Type} {x : MachineM α} {a : α} {m m' : Machine} (hx : x m = .ok a m')
    (f : α → MachineM β) :
    (OptionT.lift (x >>= f) : UserM β).run m = (OptionT.lift (f a) : UserM β).run m' := by
  have hrun : (OptionT.lift (x >>= f) : UserM β).run m =
      (x >>= f >>= fun b => pure (some b)) m := rfl
  rw [hrun, bind_assoc, EStateM.bind_of_ok hx]
  rfl

/-- The process is the one that makes the calls, its standard output is the terminal, and `queued`
is what waits there. -/
structure Attached (boot : Boot) (pr : Process) (endpoint : EndpointRef) (m : Machine)
    (trace : List Event) (queued : List UInt8) : Prop where
  run : Run boot m trace
  calling : Calling m pr
  stdout : pr.resolveFd 1 = some (.terminalEndpoint endpoint)
  queued : m.console.Queued endpoint queued

/-- The process is at the top of the chain, and may write. -/
theorem Attached.top {boot : Boot} {pr : Process} {endpoint : EndpointRef} {m : Machine}
    {trace : List Event} {queued : List UInt8} (h : Attached boot pr endpoint m trace queued)
    (bytes : List UInt8) :
    ∃ c : Config, Steady m.scheduler c ∧ Enabled m (.write 1 bytes) ∧
      m.scheduler.currentThread = some c.top.thread.id ∧ pr = c.top.process := by
  obtain ⟨th, hth, huser, hpr⟩ := h.calling
  -- between two calls the run is at a chain of processes that wait for one another
  obtain ⟨c, hsteady, -⟩ := h.run.stackRun
  have henabled := Enabled.of_user hth huser 1 bytes
  have hcurrent := hsteady.top_of_write henabled
  refine ⟨c, hsteady, henabled, hcurrent, ?_⟩
  rw [Machine.current, hcurrent, Option.bind_some,
    hsteady.inv.thread?_of_mem (Config.mem_threads Config.top_mem)] at hth
  cases hth
  rw [hsteady.inv.ok.owner c.top List.mem_cons_self, hsteady.inv.process?_top] at hpr
  exact (Option.some.inj hpr).symm

/-- A bounded queue that takes what it has room for takes the same of two parts as of the whole. -/
theorem take_room (capacity : Nat) (queued xs ys : List UInt8) :
    queued ++ xs.take (capacity - queued.length) ++
        ys.take (capacity - (queued ++ xs.take (capacity - queued.length)).length) =
      queued ++ (xs ++ ys).take (capacity - queued.length) := by
  have hroom : capacity - (queued ++ xs.take (capacity - queued.length)).length =
      capacity - queued.length - xs.length := by
    rw [List.length_append, List.length_take]
    omega
  rw [hroom, List.append_assoc, List.take_append]

section

variable (boot : Boot) (pr : Process) (endpoint : EndpointRef)

/-- **The program prints, and goes on as `rest`.** Of the bytes it wrote the queue has as many as
there was room for; scheduler and screen are as before. -/
def Prints {α : Type} (x : UserM α) (bytes : List UInt8) (rest : UserM α) : Prop :=
  ∀ m trace queued, Attached boot pr endpoint m trace queued →
    ∃ m' events, x.run m = rest.run m' ∧
      Attached boot pr endpoint m' (trace ++ events)
        (queued ++ bytes.take (terminalOutputCapacity - queued.length)) ∧
      m'.scheduler = m.scheduler ∧ m'.console.screen = m.console.screen

end

namespace Prints

variable {boot : Boot} {pr : Process} {endpoint : EndpointRef} {α β : Type}

/-- A program that goes on as another one without a write. -/
theorem silent {x rest : UserM α} (hx : ∀ m trace queued,
    Attached boot pr endpoint m trace queued → x.run m = rest.run m) :
    Prints boot pr endpoint x [] rest := by
  intro m trace queued h
  refine ⟨m, [], hx m trace queued h, ?_, rfl, rfl⟩
  rw [List.take_nil, List.append_nil, List.append_nil]
  exact h

theorem nothing (x : UserM α) : Prints boot pr endpoint x [] x := silent fun _ _ _ _ => rfl

/-- **Where the output is cut does not matter**: two programs print what one does that prints the
bytes of both. -/
theorem bind {x : UserM α} {a : α} {f : α → UserM β} {rest : UserM β} {xs ys : List UInt8}
    (hx : Prints boot pr endpoint x xs (pure a)) (hf : Prints boot pr endpoint (f a) ys rest) :
    Prints boot pr endpoint (x >>= f) (xs ++ ys) rest := by
  intro m trace queued h
  obtain ⟨m₁, events₁, hrun₁, h₁, hsched₁, hscreen₁⟩ := hx m trace queued h
  obtain ⟨m₂, events₂, hrun₂, h₂, hsched₂, hscreen₂⟩ := hf m₁ _ _ h₁
  refine ⟨m₂, events₁ ++ events₂, ?_, ?_, hsched₂.trans hsched₁, hscreen₂.trans hscreen₁⟩
  · have hbind : (x >>= f).run m = (f a).run m₁ := EStateM.bind_of_ok hrun₁ _
    exact hbind.trans hrun₂
  · rw [take_room, List.append_assoc] at h₂
    exact h₂

/-- A program that prints and returns nothing. -/
theorem seq {x : UserM Unit} {y rest : UserM β} {xs ys : List UInt8}
    (hx : Prints boot pr endpoint x xs (pure ())) (hy : Prints boot pr endpoint y ys rest) :
    Prints boot pr endpoint (x >>= fun _ => y) (xs ++ ys) rest :=
  hx.bind hy

/-- The last output of a program. -/
theorem last {x : UserM Unit} {bytes : List UInt8} (hx : Prints boot pr endpoint x bytes (pure ()))
    (rest : UserM β) : Prints boot pr endpoint (x >>= fun _ => rest) bytes rest := by
  have h := hx.seq (nothing rest)
  rwa [List.append_nil] at h

/-- A load that is not a fault. -/
theorem load {r : Option α} {a : α} {f : α → UserM β} {rest : UserM β} {bytes : List UInt8}
    (hr : r = some a) (hf : Prints boot pr endpoint (f a) bytes rest) :
    Prints boot pr endpoint (User.load r >>= f) bytes rest := by
  subst hr
  exact hf

/-- A write is one system call; the count it returns is dropped. -/
theorem write (bytes : List UInt8) (a : α) :
    Prints boot pr endpoint (OptionT.lift (stdoutWrite bytes >>= fun _ => pure a)) bytes
      (pure a) := by
  intro m trace queued h
  obtain ⟨c, hsteady, henabled, hcurrent, rfl⟩ := h.top bytes
  have hstep : step boot.rootFs (.write 1 bytes) m = _ :=
    Steady.writeCall_eq hsteady.inv hcurrent 1 bytes
  obtain ⟨c', hwrite, hqueued, hscreen, -⟩ := Process.writeFrom_spec h.queued bytes 0
  -- descriptor 1 is the terminal, so what the call leaves is what the writes to it leave
  have hconsole : (c.top.process.write 1 bytes m.console).2 = c' := by
    rw [Process.write, h.stdout]
    dsimp only
    rw [hwrite]
  have hcall : (stdoutWrite bytes >>= fun _ => pure a) m = .ok a { m with console := c' } := by
    rw [← hconsole]
    exact EStateM.bind_of_ok (write_eq hsteady.inv hcurrent 1 bytes) _
  exact ⟨{ m with console := c' }, _, EStateM.bind_of_ok hcall _,
    ⟨h.run.step henabled (hconsole ▸ hstep), h.calling, h.stdout, hqueued⟩, rfl, hscreen⟩

/-- A call that only answers. -/
theorem answered {x : UserM α} {a : α} {f : α → UserM β} {rest : UserM β} {bytes : List UInt8}
    (hx : ∀ m trace queued, Attached boot pr endpoint m trace queued →
      x.run m = .ok (some a) m)
    (hf : Prints boot pr endpoint (f a) bytes rest) :
    Prints boot pr endpoint (x >>= f) bytes rest := by
  have hanswer : Prints boot pr endpoint x [] (pure a) := silent hx
  exact hanswer.bind hf

theorem writeFmt (pieces : List String) :
    Prints boot pr endpoint (User.writeFmt pieces) (pieces.flatMap strBytes) (pure (.ok ())) := by
  induction pieces with
  | nil => exact nothing _
  -- `write_str` never fails, so the pieces behind this one are written too
  | cons piece rest ih => exact (write (strBytes piece) _).bind ih

theorem print (pieces : List String) :
    Prints boot pr endpoint (User.print pieces) (pieces.flatMap strBytes) (pure ()) := by
  have hfmt : Prints boot pr endpoint (User.writeFmt pieces) (pieces.flatMap strBytes)
      (pure (.ok ())) := writeFmt pieces
  have h : Prints boot pr endpoint (User.print pieces) (pieces.flatMap strBytes ++ [])
      (pure ()) := hfmt.bind (nothing _)
  rwa [List.append_nil] at h

theorem word (s : String) :
    Prints boot pr endpoint (User.print [s]) (strBytes s) (pure ()) := by
  have h : Prints boot pr endpoint (User.print [s]) ([s].flatMap strBytes) (pure ()) := print [s]
  rwa [List.flatMap_singleton] at h

end Prints

/-! ## Arguments -/

section

variable {view : ByteView} {rounds : Nat}

/-- What a loop over the arguments collects, it gets from its calls of `next`. -/
theorem next_of_collect {calls : Nat} {it : Args} {words : List String}
    (h : it.collect view rounds (calls + 1) = some words) :
    (∃ it', it.next view rounds = some (none, it') ∧ words = []) ∨
      ∃ word rest it', it.next view rounds = some (some word, it') ∧ words = word :: rest ∧
        it'.collect view rounds calls = some rest := by
  obtain ⟨⟨value, it'⟩, hnext, h⟩ := Option.bind_eq_some_iff.mp h
  cases value with
  | none =>
    cases h
    exact .inl ⟨it', hnext, rfl⟩
  | some word =>
    obtain ⟨rest, hrest, h⟩ := Option.bind_eq_some_iff.mp h
    cases h
    exact .inr ⟨word, rest, it', hnext, rfl, hrest⟩

/-- The next call of a loop that collects a word. -/
theorem next_of_collect_cons {calls : Nat} {it : Args} {word : String} {rest : List String}
    (h : it.collect view rounds (calls + 1) = some (word :: rest)) :
    ∃ it', it.next view rounds = some (some word, it') ∧
      it'.collect view rounds calls = some rest := by
  obtain ⟨_, -, hnil⟩ | ⟨_, _, it', hnext, heq, hrest⟩ := next_of_collect h
  · cases hnil
  · obtain ⟨rfl, rfl⟩ := List.cons.inj heq
    exact ⟨it', hnext, hrest⟩

/-- **The words that were packed are the words that arrive**, behind the name of the program. -/
theorem arguments_arrive {s s' : MemoryState} (hs : ContextOk s) {bytes payload : List UInt8}
    {argv0 : String} {words : List String} (hpacked : serializeSpawnArgs words = .ok payload)
    {p : LoadedUserProgram} (hload : loadUserProgram bytes ⟨argv0, payload⟩ s = some (.ok p, s')) :
    ∃ startup,
      liblazerInitialize (userView s'.phys p.addressSpace.rootPaddr) p.userStackTop =
        some startup ∧
      ∀ rounds calls, userStackPages * pageSize ≤ rounds → words.length + 1 < calls →
        (args startup).collect (userView s'.phys p.addressSpace.rootPaddr) rounds calls =
          some (argv0 :: words) := by
  obtain ⟨layout, hlayout, htop, hblock⟩ := loadUserProgram_startupBlock hs hload
  obtain ⟨startup, fields, hinit, hfields, hcollect⟩ := startupBlock_read hlayout hblock
  obtain ⟨hpayload, -, hfree⟩ := serializeFrom_eq_ok (Nat.zero_le _) hpacked
  -- the fields of the payload are the words
  obtain rfl : fields = words := by
    refine List.map_injective_iff.mpr (fun _ _ heq => strBytes_inj.mp heq) (hfields.trans ?_)
    rw [show payload = payloadOf (words.map strBytes) from hpayload]
    refine argvFields_payloadOf fun field hfield => ?_
    obtain ⟨word, hword, rfl⟩ := List.mem_map.mp hfield
    exact hfree word hword
  rw [← htop] at hinit
  exact ⟨startup, hinit, hcollect⟩

end

/-- The sample program loads with this startup. -/
def SampleLoads (startup : ProgramStartup) : Prop :=
  ((loadUserProgram codePage startup overlapRun.state).bind fun r => r.1.toOption).isSome = true

instance (startup : ProgramStartup) : Decidable (SampleLoads startup) :=
  inferInstanceAs (Decidable (_ = true))

theorem codePage_loads {startup : ProgramStartup} (h : SampleLoads startup) :
    ∃ p s', loadUserProgram codePage startup overlapRun.state = some (.ok p, s') := by
  obtain ⟨p, hp⟩ := Option.isSome_iff_exists.mp h
  obtain ⟨⟨result, s'⟩, hload, hresult⟩ := Option.bind_eq_some_iff.mp hp
  cases result with
  | error e => cases hresult
  | ok q => exact ⟨q, s', hload⟩

end Lazers.User
