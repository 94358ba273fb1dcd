import Lazers.Scheduler.ExitStatus

/-!
# Environment and working directory of each process

All processes share two tables with reused slots, and a child's environment and working
directory are copied in when it is spawned. Over whole runs:

- a process is what its parent was at the moment of the spawn, plus its own calls since
  (`Descends`), and a call changes no process but the caller;
- every working directory is a canonical path that the filesystem takes for a directory.
-/

namespace Lazers.Scheduler

open Kernel Memory Storage PathStack FixedArray SchedulerState Config

/-! ## Where a process comes from -/

/-- The calls of the process in slot `p`, in order. -/
def ownCalls (p : ProcessId) (trace : List Event) : List OwnCall :=
  trace.filterMap fun
    | .called q call _ => if q = p then some call else none
    | _ => none

/-- The slot `p` changed hands. -/
def Event.Replaces (p : ProcessId) : Event → Prop
  | .spawned _ _ child _ => child = p
  | .exited q _ => q = p
  | _ => False

/-- **Where the content of a process comes from**: what the parent had in the state in which it
spawned, or what `kernel_main` set up, and then only the calls of the process itself. -/
def Descends (boot : Boot) (trace : List Event) (pr : Process) : Prop :=
  (contentOf pr = (ownCalls pr.id trace).foldl (replay boot.rootFs)
      ⟨[("PATH", "/system/bin:/bin")], "/"⟩ ∧ ∀ e ∈ trace, ¬ e.Replaces pr.id) ∨
  ∃ before parent thread silent after m₀ pr₀,
    trace = before ++ .spawned parent thread pr.id silent :: after ∧
    (∀ e ∈ after, ¬ e.Replaces pr.id) ∧
    Run boot m₀ before ∧ UserProcess m₀.scheduler parent pr₀ ∧
    contentOf pr = (ownCalls pr.id after).foldl (replay boot.rootFs) (contentOf pr₀)

theorem ownCalls_append (p : ProcessId) (trace events : List Event) :
    ownCalls p (trace ++ events) = ownCalls p trace ++ ownCalls p events :=
  List.filterMap_append

/-- Events of other processes do not matter. -/
theorem Descends.append {boot : Boot} {trace events : List Event} {pr pr' : Process}
    (h : Descends boot trace pr) (hid : pr'.id = pr.id)
    (hslot : ∀ e ∈ events, ¬ e.Replaces pr.id)
    (hcontent : contentOf pr' = (ownCalls pr.id events).foldl (replay boot.rootFs)
      (contentOf pr)) : Descends boot (trace ++ events) pr' := by
  have hslots : ∀ l : List Event, (∀ e ∈ l, ¬ e.Replaces pr.id) →
      ∀ e ∈ l ++ events, ¬ e.Replaces pr.id := by
    intro l hl e he
    obtain he | he := List.mem_append.mp he
    · exact hl e he
    · exact hslot e he
  rw [Descends, hid]
  obtain ⟨hboot, hkept⟩ | ⟨before, parent, thread, silent, after, m₀, pr₀, rfl, hkept, hrun, huser,
    hsince⟩ := h
  · refine .inl ⟨?_, hslots _ hkept⟩
    rw [ownCalls_append, List.foldl_append, ← hboot]
    exact hcontent
  · refine .inr ⟨before, parent, thread, silent, after ++ events, m₀, pr₀, by simp,
      hslots _ hkept, hrun, huser, ?_⟩
    rw [ownCalls_append, List.foldl_append, ← hsince]
    exact hcontent

/-- One step. -/
theorem Descends.step {boot : Boot} {m : Machine} {trace events : List Event}
    {stack stack' : List Member} (run : Run boot m trace) (hwaiting : Waiting stack trace)
    (huser : ∀ top rest, stack = top :: rest →
      UserProcess m.scheduler top.process.id top.process)
    (h : ∀ member ∈ stack, Descends boot trace member.process)
    (effect : Effect boot.rootFs stack events stack') :
    ∀ member ∈ stack', Descends boot (trace ++ events) member.process := by
  cases effect with
  | quiet =>
    rw [List.append_nil]
    exact h
  | @spawned parent child rest program inherited silent inherits waits fresh =>
    intro member hmember
    obtain rfl | hmember := List.mem_cons.mp hmember
    · -- The child starts with its parent's content in this very state.
      refine .inr ⟨trace, parent.process.id, parent.thread, silent, [], m, parent.process, rfl,
        by simp, run, huser parent rest rfl, ?_⟩
      rw [waits]
      have hcwd : (inherited.setWaitingThread parent.thread).cwd = inherited.cwd := rfl
      rw [contentOf, hcwd, inherits.cwd.cwd_eq]
      exact congrArg (Content.mk · parent.process.cwd) inherits.pairs
    · refine (h member hmember).append rfl (fun e he => ?_) rfl
      obtain rfl := List.mem_singleton.mp he
      exact fun heq => (fresh member hmember).1 heq.symm
  | @exited top parent rest status =>
    intro member hmember
    refine (h member (List.mem_cons_of_mem _ hmember)).append rfl (fun e he => ?_) rfl
    simp only [List.mem_cons, List.not_mem_nil, or_false] at he
    obtain rfl | rfl := he
    · exact fun heq => (hwaiting.below member hmember).1 heq.symm
    · exact fun hreplaces => hreplaces
  | @called top rest call result pr own =>
    intro member hmember
    have hslot : ∀ p, ∀ e ∈ [Event.called top.process.id call result], ¬ e.Replaces p := by
      intro p e he
      obtain rfl := List.mem_singleton.mp he
      exact fun hreplaces => hreplaces
    obtain rfl | hmember := List.mem_cons.mp hmember
    · refine (h top List.mem_cons_self).append own.id (hslot _) ?_
      simp only [ownCalls, List.filterMap_cons, List.filterMap_nil, if_pos]
      exact own.content
    · refine (h member (List.mem_cons_of_mem _ hmember)).append rfl (hslot _) ?_
      have hne := (hwaiting.below member hmember).1
      simp only [ownCalls, List.filterMap_cons, List.filterMap_nil, if_neg (Ne.symm hne)]
      rfl
  | @wrote top rest fd buffer written =>
    intro member hmember
    refine (h member hmember).append rfl (fun e he => ?_) rfl
    obtain rfl := List.mem_singleton.mp he
    exact fun hreplaces => hreplaces

/-- The process on top is in the tables. -/
theorem Steady.userProcess_top {s : SchedulerState} {c : Config} (h : Steady s c) {top : Member}
    {rest : List Member} (hstack : c.stack = top :: rest) :
    UserProcess s top.process.id top.process :=
  h.inv.userProcess_iff.mpr ⟨rfl, top, hstack ▸ List.mem_cons_self, rfl⟩

theorem Run.descends {boot : Boot} {m : Machine} {trace : List Event} (run : Run boot m trace) :
    ∃ c, Steady m.scheduler c ∧ StackRun boot.rootFs c.stack trace ∧
      ∀ member ∈ c.stack, Descends boot trace member.process := by
  refine run.induction (P := fun stack _ trace => StackRun boot.rootFs stack trace ∧
    ∀ member ∈ stack, Descends boot trace member.process) ?_ ?_
  · intro first hfirst
    refine ⟨.start hfirst, fun member hmember => ?_⟩
    obtain rfl := List.mem_singleton.mp hmember
    exact .inl ⟨hfirst.content, by simp⟩
  · rintro m c trace events stack' - run hsteady ⟨hrun, hall⟩ heffect -
    exact ⟨hrun.step heffect, Descends.step run hrun.waiting
      (fun top rest hstack => hsteady.userProcess_top hstack) hall heffect⟩

/-! ## Other processes -/

/-- An effect leaves every process but the newest as it is. -/
theorem Effect.others {rootFs : Option Fat32} {stack stack' : List Member} {events : List Event}
    (effect : Effect rootFs stack events stack') : ∀ member ∈ stack.tail, member ∈ stack' := by
  cases effect with
  | quiet stack => exact fun member hmember => List.mem_of_mem_tail hmember
  | spawned => exact fun member hmember =>
      List.mem_cons_of_mem _ (List.mem_cons_of_mem _ hmember)
  | exited => exact fun member hmember => hmember
  | called => exact fun member hmember => List.mem_cons_of_mem _ hmember
  | wrote => exact fun member hmember => List.mem_cons_of_mem _ hmember

/-- The newest process is the process of the current thread, unless that is a kernel thread. -/
theorem Steady.current_or_kernel {m : Machine} {c : Config} {call : Call}
    (h : Steady m.scheduler c) (henabled : Enabled m call) :
    m.scheduler.currentThread = some c.top.thread.id ∨ call = .yieldNow ∨
      ∃ input, call = .service input := by
  by_cases hyield : call = .yieldNow
  · exact .inr (.inl hyield)
  · by_cases hservice : ∃ input, call = .service input
    · exact .inr (.inr hservice)
    · exact .inl (h.top_of_enabled henabled hyield (not_exists.mp hservice))

/-- **A call changes no process but the caller's.** -/
theorem Steady.others {rootFs : Option Fat32} {m m' : Machine} {c : Config} {call : Call}
    {events : List Event} (h : Steady m.scheduler c) (henabled : Enabled m call)
    (hstep : step rootFs call m = .ok events m') {p : ProcessId} {pr : Process}
    (huser : UserProcess m.scheduler p pr)
    (hother : ∀ t th, m.scheduler.currentThread = some t → m.scheduler.thread? t = some th →
      th.processId ≠ p) : UserProcess m'.scheduler p pr := by
  obtain ⟨hid, member, hmember, rfl⟩ := h.inv.userProcess_iff.mp huser
  obtain htop | rfl | ⟨input, rfl⟩ := h.current_or_kernel henabled
  · -- The caller is on top, so the process is below it.
    have hne : member.process.id ≠ c.top.process.id := by
      have hthread := hother _ _ htop (h.inv.thread?_of_mem (mem_threads top_mem))
      rw [h.inv.ok.owner c.top List.mem_cons_self] at hthread
      rw [hid]
      exact hthread.symm
    have htail : member ∈ c.stack.tail := by
      obtain rfl | htail := List.mem_cons.mp hmember
      · exact absurd rfl hne
      · exact htail
    obtain ⟨events', m'', c', hok, hsteady, heffect, -⟩ | ⟨path, fuel, -, hstop⟩ |
      ⟨status, m'', -, -, -, hstop, -⟩ := h.step_cases rootFs henabled
    · rw [hok] at hstep
      cases hstep
      exact hsteady.inv.userProcess_iff.mpr ⟨hid, member, heffect.others member htail, rfl⟩
    · rw [hstop] at hstep
      cases hstep
    · rw [hstop] at hstep
      cases hstep
  · obtain ⟨s', c', hyield, hsteady, hstack⟩ := h.yieldNow_spec
    have hok : step rootFs .yieldNow m = .ok [] { m with scheduler := s' } :=
      onScheduler_of_ok hyield
    rw [hok] at hstep
    cases hstep
    exact hsteady.inv.userProcess_iff.mpr ⟨hid, member, hstack ▸ hmember, rfl⟩
  · cases hstep
    exact huser

/-- **Isolation over whole runs.** The environment listing and the working directory of every
live user process are those of its parent at the spawn with only its own calls since; a call
changes no other process, its streams included; and a fresh child can always inherit. -/
theorem process_state_isolated {boot : Boot} {m : Machine} {trace : List Event}
    (run : Run boot m trace) :
    (∀ p pr, UserProcess m.scheduler p pr → pr.id = p ∧ Descends boot trace pr ∧
      (∀ buffer, (Environment.listing (contentOf pr).env).length ≤ buffer.length →
        pr.env.writeListingInto buffer = (.ok (Environment.listing (contentOf pr).env).length,
          Environment.listing (contentOf pr).env ++
            buffer.drop (Environment.listing (contentOf pr).env).length)) ∧
      ∀ (silent : Bool) (blank : Process), blank.handles = Vector.replicate _ none →
        ∃ c₁ c₂ child, (if silent then pr.inheritStdioSilentInto else pr.inheritStdioInto) blank =
            .ok () c₁ ∧
          pr.inheritCwdInto c₁ = .ok () c₂ ∧ pr.inheritEnvInto c₂ = .ok () child) ∧
    ∀ call events m', Enabled m call → step boot.rootFs call m = .ok events m' →
      ∀ p pr, UserProcess m.scheduler p pr →
        (∀ t th, m.scheduler.currentThread = some t → m.scheduler.thread? t = some th →
          th.processId ≠ p) → UserProcess m'.scheduler p pr := by
  obtain ⟨c, hsteady, -, hdescends⟩ := run.descends
  constructor
  · intro p pr huser
    obtain ⟨hid, member, hmember, rfl⟩ := hsteady.inv.userProcess_iff.mp huser
    obtain ⟨l, hl, rfl⟩ := List.mem_map.mp hmember
    have hready := hsteady.inv.ok.ready l.process (List.mem_map_of_mem hl)
    refine ⟨hid, hdescends _ hmember, (hready.env.writeListingInto_spec · |>.1), ?_⟩
    intro silent blank hempty
    obtain ⟨c₁, c₂, child, hstdio, hcwd, henv, -⟩ := hready.inherit silent blank hempty
    exact ⟨c₁, c₂, child, hstdio, hcwd, henv⟩
  · intro call events m' henabled hstep p pr huser hother
    exact hsteady.others henabled hstep huser hother

/-- A child, its own calls, and a call of its parent after it is gone. -/
theorem process_state_isolated_after_exit :
    ∃ r, sampleBoot.exec [.yieldNow, sampleSpawn false, .setEnv (strBytes "A") (strBytes "1"),
        .unsetEnv (strBytes "PATH"), .exit 0, .setEnv (strBytes "B") (strBytes "2")] = some r ∧
      ∀ p pr, UserProcess r.1.scheduler p pr → pr.id = p ∧ Descends sampleBoot r.2 pr := by
  obtain ⟨r, hr⟩ := Option.isSome_iff_exists.mp (by decide +kernel :
    (sampleBoot.exec [.yieldNow, sampleSpawn false, .setEnv (strBytes "A") (strBytes "1"),
      .unsetEnv (strBytes "PATH"), .exit 0, .setEnv (strBytes "B") (strBytes "2")]).isSome = true)
  refine ⟨r, hr, fun p pr huser => ?_⟩
  obtain ⟨hid, hdescends, -⟩ := (process_state_isolated (run_of_exec hr)).1 p pr huser
  exact ⟨hid, hdescends⟩

/-! ## Working directories -/

/-- **A good working directory**: stored as text, canonical, and a directory of the
filesystem. -/
structure CwdOk (fs : Fat32) (pr : Process) : Prop where
  stored : used pr.cwdBytes pr.cwdLen = strBytes pr.cwd
  len_le : pr.cwdLen ≤ 256
  canonical : Canonical 47 46 (used pr.cwdBytes pr.cwdLen)
  accepted : fs.Accepts pr.cwd

/-- What the stack keeps about a working directory. -/
structure GoodCwd (rootFs : Option Fat32) (cwd : String) : Prop where
  canonical : Canonical 47 46 (strBytes cwd)
  accepted : ∀ fs, rootFs = some fs → fs.Accepts cwd

theorem goodCwd_root (rootFs : Option Fat32) : GoodCwd rootFs "/" :=
  ⟨by decide, fun fs _ => fs.accepts_root⟩

/-- A call leaves a good working directory. -/
theorem GoodCwd.replay {rootFs : Option Fat32} {content : Content}
    (h : GoodCwd rootFs content.cwd) (call : OwnCall) :
    GoodCwd rootFs (replay rootFs content call).cwd := by
  cases call with
  | setEnv key value =>
    rw [Scheduler.replay]
    split_ifs
    · exact h
    · exact h
  | unsetEnv key => exact h
  | chdir path =>
    rw [Scheduler.replay]
    cases hresolve : resolvePath content.cwd path with
    | error e => exact h
    | ok target =>
      dsimp only
      split_ifs with haccepts
      · obtain ⟨hcanonical, -, -⟩ := resolvePath_spec hresolve
        refine ⟨hcanonical, fun fs hfs => ?_⟩
        obtain ⟨fs', hfs', hdir⟩ := haccepts
        rw [hfs] at hfs'
        cases hfs'
        exact hdir
      · exact h

theorem StackRun.goodCwd {rootFs : Option Fat32} {stack : List Member} {trace : List Event}
    (run : StackRun rootFs stack trace) : ∀ member ∈ stack, GoodCwd rootFs member.process.cwd := by
  induction run with
  | start boots =>
    intro member hmember
    obtain rfl := List.mem_singleton.mp hmember
    have hcwd : member.process.cwd = "/" := congrArg Content.cwd boots.content
    rw [hcwd]
    exact goodCwd_root rootFs
  | step run effect ih =>
    cases effect with
    | quiet => exact ih
    | @spawned parent child rest program inherited silent inherits waits fresh =>
      intro member hmember
      obtain rfl | hmember := List.mem_cons.mp hmember
      · have hcwd : member.process.cwd = parent.process.cwd := by
          rw [waits]
          exact inherits.cwd.cwd_eq
        rw [hcwd]
        exact ih parent List.mem_cons_self
      · exact ih member hmember
    | exited => exact fun member hmember => ih member (List.mem_cons_of_mem _ hmember)
    | @called top rest call result pr own =>
      intro member hmember
      obtain rfl | hmember := List.mem_cons.mp hmember
      · have hcwd : pr.cwd = (replay rootFs (contentOf top.process) call).cwd :=
          congrArg Content.cwd own.content
        dsimp only
        rw [hcwd]
        exact GoodCwd.replay (ih top List.mem_cons_self) call
      · exact ih member (List.mem_cons_of_mem _ hmember)
    | wrote => exact ih

/-- A `chdir` that does not succeed changes nothing. -/
theorem Steady.chdir_failed {rootFs : Option Fat32} {m m' : Machine} {c : Config}
    {path : List UInt8} {fuel : Nat} {events : List Event} (h : Steady m.scheduler c)
    (henabled : Enabled m (.chdir path fuel))
    (hstep : Scheduler.step rootFs (.chdir path fuel) m = .ok events m')
    (hfailed : ∀ p text, .called p (.chdir text) (.ok ()) ∉ events) : m' = m := by
  have hcurrent := h.top_of_enabled henabled (by simp) (by simp)
  rw [Scheduler.step, chdirCall, EStateM.bind_of_ok
    (onScheduler_of_ok (Steady.currentProcess_eq h.inv hcurrent))] at hstep
  cases htext : fromUtf8 path with
  | none =>
    rw [htext] at hstep
    cases hstep
    rfl
  | some text =>
    rw [htext] at hstep
    dsimp only at hstep
    obtain hfuel | ⟨e, hrefused, -⟩ | ⟨pr, hok, -⟩ :=
      Steady.currentProcessChdir_spec rootFs h.inv hcurrent fuel text
    · rw [EStateM.bind_of_ok (onScheduler_of_ok (m := m) hfuel)] at hstep
      cases hstep
    · rw [EStateM.bind_of_ok (onScheduler_of_ok (m := m) hrefused)] at hstep
      cases hstep
      rfl
    · rw [EStateM.bind_of_ok (onScheduler_of_ok (m := m) hok)] at hstep
      cases hstep
      exact absurd List.mem_cons_self (hfailed _ _)

/-- **Working directories over whole runs.** Every live user process has a good one, and a
`chdir` that does not succeed leaves the whole machine as it was. -/
theorem cwd_stays_good {boot : Boot} {m : Machine} {trace : List Event} (run : Run boot m trace)
    {fs : Fat32} (hfs : boot.rootFs = some fs) :
    (∀ p pr, UserProcess m.scheduler p pr → CwdOk fs pr) ∧
    ∀ path fuel events m', Enabled m (.chdir path fuel) →
      step boot.rootFs (.chdir path fuel) m = .ok events m' →
      (∀ p text, .called p (.chdir text) (.ok ()) ∉ events) → m' = m := by
  obtain ⟨c, hsteady, hrun⟩ := run.stackRun
  constructor
  · intro p pr huser
    obtain ⟨-, member, hmember, rfl⟩ := hsteady.inv.userProcess_iff.mp huser
    have hgood := hrun.goodCwd member hmember
    obtain ⟨l, hl, rfl⟩ := List.mem_map.mp hmember
    have hready := hsteady.inv.ok.ready l.process (List.mem_map_of_mem hl)
    refine ⟨hready.cwd.used_eq, hready.cwd.len_le, ?_, hgood.accepted fs hfs⟩
    rw [hready.cwd.used_eq]
    exact hgood.canonical
  · intro path fuel events m' henabled hstep hfailed
    exact hsteady.chdir_failed henabled hstep hfailed

/-- One `chdir` that succeeds and one that does not. -/
theorem cwd_stays_good_in_bin :
    ∃ r, ({ sampleBoot with rootFs := some sampleVolume } : Boot).exec
        [.yieldNow, .chdir (strBytes "/./bin//x/..") 9, .chdir (strBytes "nope") 9] = some r ∧
      ∀ p pr, UserProcess r.1.scheduler p pr → CwdOk sampleVolume pr := by
  obtain ⟨r, hr⟩ := Option.isSome_iff_exists.mp (by decide +kernel :
    (({ sampleBoot with rootFs := some sampleVolume } : Boot).exec
      [.yieldNow, .chdir (strBytes "/./bin//x/..") 9, .chdir (strBytes "nope") 9]).isSome = true)
  exact ⟨r, hr, (cwd_stays_good (run_of_exec hr) rfl).1⟩

end Lazers.Scheduler
