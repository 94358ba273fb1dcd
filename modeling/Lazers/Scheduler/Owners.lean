import Lazers.Scheduler.Config
import Lazers.Scheduler.SpawnChild

/-!
# Who owns which pages, as the scheduler sees it

Of the process table only this matters for memory: which process has which address space
and which pages (`owners`). Of the thread table it is the process of a thread (`ownerOf`),
which says what a switch to the thread activates.

Most calls change neither (`SameOwners`). A spawn adds an owner, an exit removes one and
hands its pages out; and every switch goes to the address space of the thread that is
current from then on (`CurrentSpace`).
-/

namespace Lazers.Scheduler

open Kernel Memory SlotTable SchedulerState

/-- The address space and the pages of each process. -/
def owners (s : SchedulerState) (p : ProcessId) : Option (AddressSpace × OwnedPages) :=
  (s.process? p).map owner

/-- The process of each thread. -/
def ownerOf (s : SchedulerState) (t : ThreadId) : Option ProcessId :=
  (s.thread? t).map Thread.processId

/-- The address space that a switch to thread `t` activates. -/
def SpaceOf (s : SchedulerState) (t : ThreadId) (space : AddressSpace) : Prop :=
  ∃ p pages, ownerOf s t = some p ∧ owners s p = some (space, pages)

/-- The address space of the current thread. -/
def CurrentSpace (s : SchedulerState) (space : AddressSpace) : Prop :=
  ∃ t, s.currentThread = some t ∧ SpaceOf s t space

/-- Nothing that matters for memory is different. -/
structure SameOwners (s s' : SchedulerState) : Prop where
  owners : owners s' = owners s
  threads : ownerOf s' = ownerOf s

namespace SameOwners

variable {s s₁ s₂ : SchedulerState}

theorem refl (s : SchedulerState) : SameOwners s s := ⟨rfl, rfl⟩

theorem trans (h : SameOwners s s₁) (h' : SameOwners s₁ s₂) : SameOwners s s₂ :=
  ⟨h'.owners.trans h.owners, h'.threads.trans h.threads⟩

theorem spaceOf (h : SameOwners s s₁) {t : ThreadId} {space : AddressSpace} :
    SpaceOf s₁ t space ↔ SpaceOf s t space := by
  rw [SpaceOf, SpaceOf, h.owners, h.threads]

theorem currentSpace (h : SameOwners s s₁) (hcurrent : s₁.currentThread = s.currentThread)
    {space : AddressSpace} (hs : CurrentSpace s space) : CurrentSpace s₁ space := by
  obtain ⟨t, ht, hspace⟩ := hs
  exact ⟨t, hcurrent.trans ht, h.spaceOf.mpr hspace⟩

end SameOwners

/-- The same, with the same thread current. -/
structure Unmoved (s s' : SchedulerState) : Prop extends SameOwners s s' where
  current : s'.currentThread = s.currentThread

theorem Unmoved.refl (s : SchedulerState) : Unmoved s s := ⟨.refl s, rfl⟩

/-! ## Writing a slot -/

section

variable {s s' : SchedulerState} {p : ProcessId} {t : ThreadId} {pr pr' : Process} {th th' : Thread}

theorem owners_putThread (x : Option Thread) : owners (s.putThread t x) = owners s := rfl

theorem ownerOf_putProcess (x : Option Process) : ownerOf (s.putProcess p x) = ownerOf s := rfl

theorem owners_putProcess (hlt : p < maxProcesses) (x : Option Process) :
    owners (s.putProcess p x) =
      Function.update (owners s) p (x.map owner) := by
  funext q
  by_cases hq : q = p
  · subst hq
    rw [Function.update_self, owners, process?, putProcess, get_put_self hlt]
  · rw [Function.update_of_ne hq, owners, process?, putProcess, get_put_of_ne (Ne.symm hq)]
    rfl

theorem ownerOf_putThread (hlt : t < maxThreads) (x : Option Thread) :
    ownerOf (s.putThread t x) = Function.update (ownerOf s) t (x.map Thread.processId) := by
  funext q
  by_cases hq : q = t
  · subst hq
    rw [Function.update_self, ownerOf, thread?, putThread, get_put_self hlt]
  · rw [Function.update_of_ne hq, ownerOf, thread?, putThread, get_put_of_ne (Ne.symm hq)]
    rfl

theorem sameOwners_putProcess (h : s.process? p = some pr) (howner : owner pr' = owner pr) :
    SameOwners s (s.putProcess p (some pr')) := by
  refine ⟨?_, rfl⟩
  rw [owners_putProcess (lt_of_get h), Option.map_some, howner]
  refine Function.update_eq_self_iff.mpr ?_
  rw [owners, h]
  rfl

theorem sameOwners_putThread (h : s.thread? t = some th) (howner : th'.processId = th.processId) :
    SameOwners s (s.putThread t (some th')) := by
  refine ⟨rfl, ?_⟩
  rw [ownerOf_putThread (lt_of_get h), Option.map_some, howner]
  refine Function.update_eq_self_iff.mpr ?_
  rw [ownerOf, h]
  rfl

theorem sameOwners_setCurrent (t : Option ThreadId) : SameOwners s (s.setCurrent t) := ⟨rfl, rfl⟩

/-- A call on a thread that leaves it with its process. -/
theorem modifyThread_same {f : Thread → Thread} {u : Unit} (h : modifyThread t f s = .ok u s')
    (hf : ∀ th, (f th).processId = th.processId) : Unmoved s s' := by
  obtain ⟨th, s₁, hget, hput⟩ := EStateM.bind_eq_ok.mp h
  obtain ⟨rfl, hth⟩ := thread_reads hget
  cases hput
  exact ⟨sameOwners_putThread hth (hf th), rfl⟩

end

/-! ## Switches -/

section

variable {s s' : SchedulerState} {t : ThreadId}

theorem activation_space {a : ThreadActivation} (h : activation t s = .ok a s') :
    s' = s ∧ SpaceOf s t a.addressSpace := by
  obtain ⟨th, s₁, hth, h₁⟩ := EStateM.bind_eq_ok.mp h
  obtain ⟨rfl, hthread⟩ := thread_reads hth
  obtain ⟨pr, s₂, hpr, h₂⟩ := EStateM.bind_eq_ok.mp h₁
  obtain ⟨rfl, hprocess⟩ := process_reads hpr
  cases h₂
  refine ⟨rfl, th.processId, pr.ownedPages, ?_, ?_⟩
  · rw [ownerOf, hthread, Option.map_some]
  · rw [owners, hprocess, Option.map_some]
    rfl

theorem nextRunnableThread_reads {current r : Option ThreadId}
    (h : nextRunnableThread current s = .ok r s') : s' = s := by
  rw [nextRunnableThread, EStateM.get_bind] at h
  cases hfound : nextNonIdleRunnableThread s current with
  | some next =>
    rw [hfound] at h
    cases h
    rfl
  | none =>
    rw [hfound] at h
    dsimp only at h
    cases hidle : s.idleThread with
    | none =>
      rw [hidle] at h
      cases h
      rfl
    | some idle =>
      rw [hidle] at h
      dsimp only at h
      obtain ⟨th, s₁, hth, h₁⟩ := EStateM.bind_eq_ok.mp h
      obtain ⟨rfl, -⟩ := thread_reads hth
      cases h₁
      rfl

theorem preparedSwitch_space {current next : ThreadId} {switch : PreparedSwitch}
    (h : preparedSwitch current next s = .ok switch s') :
    s' = s ∧ SpaceOf s next switch.nextSpace := by
  obtain ⟨_, s₁, hcurrent, h₁⟩ := EStateM.bind_eq_ok.mp h
  obtain ⟨rfl, -⟩ := thread_reads hcurrent
  obtain ⟨_, s₂, hnext, h₂⟩ := EStateM.bind_eq_ok.mp h₁
  obtain ⟨rfl, -⟩ := thread_reads hnext
  obtain ⟨a, s₃, hactivation, h₃⟩ := EStateM.bind_eq_ok.mp h₂
  obtain ⟨rfl, hspace⟩ := activation_space hactivation
  cases h₃
  exact ⟨rfl, hspace⟩

/-- The common end of the two functions that prepare a switch. -/
theorem switchTo_space {current next : ThreadId} {switch : Option PreparedSwitch}
    (h : (do
      modifyThread next (·.setState .running)
      modify (setCurrent · (some next))
      return some (← preparedSwitch current next) : SchedM (Option PreparedSwitch)) s =
        .ok switch s') :
    SameOwners s s' ∧ ∃ sw, switch = some sw ∧ CurrentSpace s' sw.nextSpace := by
  obtain ⟨_, s₁, hrunning, h₁⟩ := EStateM.bind_eq_ok.mp h
  have hsame := modifyThread_same hrunning fun _ => rfl
  rw [EStateM.modify_bind] at h₁
  obtain ⟨sw, s₂, hprepared, h₂⟩ := EStateM.bind_eq_ok.mp h₁
  obtain ⟨rfl, hspace⟩ := preparedSwitch_space hprepared
  cases h₂
  exact ⟨hsame.toSameOwners.trans (sameOwners_setCurrent _), sw, rfl, next, rfl, hspace⟩

/-- What a prepared switch is about. -/
structure Prepared (s s' : SchedulerState) (switch : Option PreparedSwitch) : Prop where
  same : SameOwners s s'
  none_current : switch = none → s'.currentThread = s.currentThread
  space : ∀ sw, switch = some sw → CurrentSpace s' sw.nextSpace

theorem prepareSwitch_prepared {block : Bool} {switch : Option PreparedSwitch}
    (h : prepareSwitch block s = .ok switch s') : Prepared s s' switch := by
  rw [prepareSwitch, EStateM.get_bind] at h
  cases hcurrent : s.currentThread with
  | none =>
    rw [hcurrent] at h
    cases h
    exact ⟨.refl s, fun _ => rfl, by rintro _ ⟨⟩⟩
  | some current =>
    rw [hcurrent] at h
    dsimp only at h
    obtain ⟨next, s₁, hnext, h₁⟩ := EStateM.bind_eq_ok.mp h
    obtain rfl := nextRunnableThread_reads hnext
    cases next with
    | none =>
      cases h₁
      exact ⟨.refl _, fun _ => rfl, by rintro _ ⟨⟩⟩
    | some next =>
      dsimp only at h₁
      by_cases hstay : next = current ∧ block = false
      · rw [if_pos hstay] at h₁
        cases h₁
        exact ⟨.refl _, fun _ => rfl, by rintro _ ⟨⟩⟩
      · rw [if_neg hstay] at h₁
        obtain ⟨_, s₂, hstate, h₂⟩ := EStateM.bind_eq_ok.mp h₁
        have hfirst := modifyThread_same hstate fun _ => rfl
        obtain ⟨hsecond, sw, rfl, hspace⟩ := switchTo_space h₂
        refine ⟨hfirst.toSameOwners.trans hsecond, by rintro ⟨⟩, ?_⟩
        rintro _ ⟨⟩
        exact hspace

theorem prepareWaitForChild_prepared {child : ProcessId} {switch : Option PreparedSwitch}
    (h : prepareWaitForChild child s = .ok switch s') : Prepared s s' switch := by
  rw [prepareWaitForChild, EStateM.get_bind] at h
  cases hcurrent : s.currentThread with
  | none =>
    rw [hcurrent] at h
    cases h
    exact ⟨.refl s, fun _ => rfl, by rintro _ ⟨⟩⟩
  | some current =>
    rw [hcurrent] at h
    dsimp only at h
    obtain ⟨_, s₁, hblocked, h₁⟩ := EStateM.bind_eq_ok.mp h
    have hfirst := modifyThread_same hblocked fun _ => rfl
    obtain ⟨next, s₂, hnext, h₂⟩ := EStateM.bind_eq_ok.mp h₁
    obtain rfl := nextRunnableThread_reads hnext
    cases next with
    | none =>
      cases h₂
      exact ⟨hfirst.toSameOwners, fun _ => hfirst.current, by rintro _ ⟨⟩⟩
    | some next =>
      obtain ⟨hsecond, sw, rfl, hspace⟩ := switchTo_space h₂
      refine ⟨hfirst.toSameOwners.trans hsecond, by rintro ⟨⟩, ?_⟩
      rintro _ ⟨⟩
      exact hspace

/-- The second half of a switch: the contexts, and the result of a wait. -/
theorem contextSwitch_unmoved {context : Resume} {u : Unit}
    (h : contextSwitch t context s = .ok u s') : Unmoved s s' :=
  modifyThread_same h fun _ => rfl

theorem finishWait_unmoved {r : Option Nat} (h : finishWait s = .ok r s') : Unmoved s s' := by
  rw [finishWait, EStateM.get_bind] at h
  cases hcurrent : s.currentThread with
  | none =>
    rw [hcurrent] at h
    cases h
    exact .refl s
  | some current =>
    rw [hcurrent] at h
    dsimp only at h
    obtain ⟨th, s₁, hth, h₁⟩ := EStateM.bind_eq_ok.mp h
    obtain ⟨rfl, hthread⟩ := thread_reads hth
    cases h₁
    exact ⟨sameOwners_putThread hthread rfl, rfl⟩

theorem resume_unmoved {events : List Event} (h : resume s = .ok events s') : Unmoved s s' := by
  rw [resume, EStateM.get_bind] at h
  cases hcurrent : s.currentThread with
  | none =>
    rw [hcurrent] at h
    cases h
    exact .refl s
  | some current =>
    rw [hcurrent] at h
    dsimp only at h
    obtain ⟨th, s₁, hth, h₁⟩ := EStateM.bind_eq_ok.mp h
    obtain ⟨rfl, -⟩ := thread_reads hth
    cases hcontext : th.context with
    | entry =>
      rw [hcontext] at h₁
      cases h₁
      exact .refl _
    | afterYield =>
      rw [hcontext] at h₁
      cases h₁
      exact .refl _
    | afterWait =>
      rw [hcontext] at h₁
      dsimp only at h₁
      obtain ⟨r, s₂, hwait, h₂⟩ := EStateM.bind_eq_ok.mp h₁
      cases h₂
      exact finishWait_unmoved hwait

end

/-! ## Spawning -/

section

variable {s s' : SchedulerState} {program : LoadedUserProgram} {slot : ProcessId}

theorem Installed.owners_free (h : Installed s s' program slot) : owners s slot = none := by
  have hnone := (firstFree_eq_some h.free).2
  rw [owners, process?, hnone]
  rfl

theorem Installed.owners_eq (h : Installed s s' program slot) :
    owners s' = Function.update (owners s) slot (some (brings program)) := by
  obtain ⟨child, t, th, hchild, -, -, rfl⟩ := h.state
  rw [owners_putThread, owners_putProcess (firstFree_eq_some h.free).1, Option.map_some, hchild]

theorem Installed.currentSpace (h : Installed s s' program slot) {space : AddressSpace}
    (hs : CurrentSpace s space) : CurrentSpace s' space := by
  obtain ⟨t, hcurrent, p, pages, hthread, howner⟩ := hs
  have howners := h.owners_eq
  have hfree := h.owners_free
  obtain ⟨child, t', th, -, hslot, -, rfl⟩ := h.state
  obtain ⟨hlt, hnone⟩ := firstFree_eq_some hslot
  refine ⟨t, hcurrent, p, pages, ?_, ?_⟩
  · -- the thread of the child has a slot that was free
    have hne : t ≠ t' := by
      rintro rfl
      rw [ownerOf, thread?, hnone] at hthread
      cases hthread
    rw [ownerOf_putThread hlt, Function.update_of_ne hne, ownerOf_putProcess]
    exact hthread
  · have hne : p ≠ slot := by
      rintro rfl
      rw [hfree] at howner
      cases howner
    rw [howners, Function.update_of_ne hne]
    exact howner

end

/-! ## Exiting -/

def ProcessExit.pages : ProcessExit → OwnedPages
  | .switch exited => exited.releasedPages
  | .shutdown releasedPages => releasedPages

section

variable {s s' : SchedulerState}

theorem exitSuccessor_unmoved {current : ThreadId} {status : Nat} {waiting next : Option ThreadId}
    (h : exitSuccessor current status waiting s = .ok next s') : Unmoved s s' := by
  cases waiting with
  | none =>
    obtain rfl := nextRunnableThread_reads h
    exact .refl _
  | some waiting =>
    obtain ⟨_, s₁, hwoken, h₁⟩ := EStateM.bind_eq_ok.mp h
    cases h₁
    exact modifyThread_same hwoken fun _ => rfl

theorem finishExit_owners {t : ThreadId} {status : Nat} {pr : Process} {exit : ProcessExit}
    (h : finishExit t status pr s = .ok (some exit) s') :
    exit.pages = pr.ownedPages ∧ owners s' = owners s ∧
      ∀ exited, exit = .switch exited → CurrentSpace s' exited.nextSpace := by
  rw [finishExit] at h
  cases haction : pr.exitAction with
  | shutdownSystem =>
    rw [haction] at h
    cases h
    exact ⟨rfl, rfl, by rintro _ ⟨⟩⟩
  | «continue» =>
    rw [haction] at h
    dsimp only at h
    obtain ⟨next, s₁, hnext, h₁⟩ := EStateM.bind_eq_ok.mp h
    have hfirst := exitSuccessor_unmoved hnext
    cases next with
    | none => cases h₁
    | some next =>
      dsimp only at h₁
      rw [EStateM.modify_bind] at h₁
      obtain ⟨_, s₂, hrunning, h₂⟩ := EStateM.bind_eq_ok.mp h₁
      have hsecond := modifyThread_same hrunning fun _ => rfl
      obtain ⟨a, s₃, hactivation, h₃⟩ := EStateM.bind_eq_ok.mp h₂
      obtain ⟨rfl, hspace⟩ := activation_space hactivation
      obtain ⟨th, s₄, hth, h₄⟩ := EStateM.bind_eq_ok.mp h₃
      obtain ⟨rfl, -⟩ := thread_reads hth
      cases h₄
      refine ⟨rfl, hsecond.owners.trans hfirst.owners, ?_⟩
      rintro _ ⟨⟩
      exact ⟨next, hsecond.current, hspace⟩

/-- **An exit** takes the process of the current thread out of the table and hands out its
pages; if it does not shut the system down, it goes on in the address space of the thread
that is current then. -/
theorem prepareExit_owners {status : Nat} {exit : ProcessExit}
    (h : prepareExitCurrentProcess status s = .ok (some exit) s') :
    ∃ t p space, s.currentThread = some t ∧ ownerOf s t = some p ∧
      owners s p = some (space, exit.pages) ∧ owners s' = Function.update (owners s) p none ∧
      ∀ exited, exit = .switch exited → CurrentSpace s' exited.nextSpace := by
  have hrun := h
  rw [prepareExitCurrentProcess, EStateM.get_bind] at hrun
  cases hcurrent : s.currentThread with
  | none =>
    rw [hcurrent] at hrun
    cases hrun
  | some t =>
    rw [hcurrent] at hrun
    dsimp only at hrun
    obtain ⟨th, s₁, hth, h₁⟩ := EStateM.bind_eq_ok.mp hrun
    obtain ⟨rfl, hthread⟩ := thread_reads hth
    obtain ⟨_, s₂, hmark, -⟩ := EStateM.bind_eq_ok.mp h₁
    obtain ⟨pr, s₃, hpr, -⟩ := EStateM.bind_eq_ok.mp hmark
    obtain ⟨rfl, hprocess⟩ := process_reads hpr
    rw [prepareExitCurrentProcess_eq hcurrent hthread hprocess] at h
    refine ⟨t, th.processId, pr.addressSpace, rfl, ?_, ?_, ?_, ?_⟩
    · rw [ownerOf, hthread, Option.map_some]
    · obtain ⟨hpages, -, -⟩ := finishExit_owners h
      rw [owners, hprocess, Option.map_some, hpages]
      rfl
    · obtain ⟨-, howners, -⟩ := finishExit_owners h
      rw [howners, owners_putProcess (lt_of_get hprocess), owners_putThread]
      rfl
    · exact (finishExit_owners h).2.2

end

/-! ## The other calls -/

section

variable {s s' : SchedulerState}

theorem currentProcess_reads {r : Option (ProcessId × Process)} (h : currentProcess s = .ok r s') :
    s' = s ∧ ∀ p pr, r = some (p, pr) → s.process? p = some pr := by
  rw [currentProcess, EStateM.get_bind] at h
  cases hcurrent : s.currentThread with
  | none =>
    rw [hcurrent] at h
    cases h
    exact ⟨rfl, by rintro _ _ ⟨⟩⟩
  | some t =>
    rw [hcurrent] at h
    dsimp only at h
    obtain ⟨th, s₁, hth, h₁⟩ := EStateM.bind_eq_ok.mp h
    obtain ⟨rfl, -⟩ := thread_reads hth
    obtain ⟨pr, s₂, hpr, h₂⟩ := EStateM.bind_eq_ok.mp h₁
    obtain ⟨rfl, hprocess⟩ := process_reads hpr
    cases h₂
    refine ⟨rfl, ?_⟩
    rintro _ _ ⟨⟩
    exact hprocess

/-- A process that a call of its own has changed goes back into its slot. -/
theorem putOwn_unmoved {ε α : Type} {x : EStateM ε Process α} (hx : KeepsOwner x) {p : ProcessId}
    {pr : Process} (hprocess : s.process? p = some pr) :
    (∀ a pr', x pr = .ok a pr' → Unmoved s (s.putProcess p (some pr'))) ∧
      ∀ e pr', x pr = .error e pr' → Unmoved s (s.putProcess p (some pr')) := by
  constructor
  · intro a pr' hrun
    exact ⟨sameOwners_putProcess hprocess ((hx (owner pr)).ok rfl hrun), rfl⟩
  · intro e pr' hrun
    exact ⟨sameOwners_putProcess hprocess ((hx (owner pr)).error rfl hrun), rfl⟩

theorem currentProcessSetEnv_unmoved {key value : String}
    {r : Except EnvironmentAccessError Unit} (h : currentProcessSetEnv key value s = .ok r s') :
    Unmoved s s' := by
  obtain ⟨current, s₁, hcurrent, h₁⟩ := EStateM.bind_eq_ok.mp h
  obtain ⟨rfl, hget⟩ := currentProcess_reads hcurrent
  cases current with
  | none =>
    cases h₁
    exact .refl _
  | some found =>
    obtain ⟨p, pr⟩ := found
    have hput := putOwn_unmoved (onEnv_keeps (Environment.set key value)) (hget p pr rfl)
    dsimp only at h₁
    cases hset : Process.setEnv key value pr with
    | ok _ pr' =>
      rw [hset] at h₁
      cases h₁
      exact hput.1 _ pr' hset
    | error e pr' =>
      rw [hset] at h₁
      cases h₁
      exact hput.2 e pr' hset

theorem currentProcessUnsetEnv_unmoved {key : String} {r : Except EnvironmentAccessError Unit}
    (h : currentProcessUnsetEnv key s = .ok r s') : Unmoved s s' := by
  obtain ⟨current, s₁, hcurrent, h₁⟩ := EStateM.bind_eq_ok.mp h
  obtain ⟨rfl, hget⟩ := currentProcess_reads hcurrent
  cases current with
  | none =>
    cases h₁
    exact .refl _
  | some found =>
    obtain ⟨p, pr⟩ := found
    have hput := putOwn_unmoved (onEnv_keeps (Environment.remove key)) (hget p pr rfl)
    dsimp only at h₁
    cases hremove : Process.removeEnv key pr with
    | ok removed pr' =>
      rw [hremove] at h₁
      cases h₁
      exact hput.1 _ pr' hremove
    | error e pr' =>
      rw [hremove] at h₁
      cases h₁
      exact hput.2 e pr' hremove

theorem currentProcessChdir_unmoved {rootFs : Option Storage.Fat32} {fuel : Nat} {path : String}
    {r : Except Storage.Stop Unit} (h : currentProcessChdir rootFs fuel path s = .ok r s') :
    Unmoved s s' := by
  obtain ⟨current, s₁, hcurrent, h₁⟩ := EStateM.bind_eq_ok.mp h
  obtain ⟨rfl, hget⟩ := currentProcess_reads hcurrent
  cases current with
  | none =>
    cases h₁
    exact .refl _
  | some found =>
    obtain ⟨p, pr⟩ := found
    dsimp only at h₁
    cases hpath : resolvePath pr.cwd path with
    | error e =>
      rw [hpath] at h₁
      cases h₁
      exact .refl _
    | ok target =>
      rw [hpath] at h₁
      dsimp only at h₁
      cases hdir : Storage.ensureRootDir rootFs fuel target [] with
      | error stop log =>
        rw [hdir] at h₁
        cases h₁
        exact .refl _
      | ok _ log =>
        rw [hdir] at h₁
        dsimp only at h₁
        have hput := putOwn_unmoved (setCwd_keeps target) (hget p pr rfl)
        cases hset : Process.setCwd target pr with
        | ok _ pr' =>
          rw [hset] at h₁
          cases h₁
          exact hput.1 _ pr' hset
        | error e pr' =>
          rw [hset] at h₁
          cases h₁
          exact hput.2 e pr' hset

end

/-- A call that neither switches nor changes which processes there are. -/
def Call.Stays : Call → Prop
  | .yieldNow | .exit _ | .spawnWait _ _ _ => False
  | _ => True

theorem onScheduler_eq_ok {α : Type} {x : SchedM α} {a : α} {m m' : Machine}
    (h : onScheduler x m = .ok a m') :
    ∃ s, x m.scheduler = .ok a s ∧ m' = { m with scheduler := s } := by
  rw [onScheduler] at h
  cases hx : x m.scheduler with
  | ok b s =>
    rw [hx] at h
    cases h
    exact ⟨s, rfl, rfl⟩
  | error p s =>
    rw [hx] at h
    cases h

theorem setEnvCall_unmoved {s s' : SchedulerState} {key value : List UInt8} {events : List Event}
    (h : setEnvCall key value s = .ok events s') : Unmoved s s' := by
  obtain ⟨current, s₁, hcurrent, h₁⟩ := EStateM.bind_eq_ok.mp h
  obtain ⟨rfl, -⟩ := currentProcess_reads hcurrent
  cases hkey : fromUtf8 key with
  | none =>
    rw [hkey] at h₁
    cases h₁
    exact .refl _
  | some key =>
    cases hvalue : fromUtf8 value with
    | none =>
      rw [hkey, hvalue] at h₁
      cases h₁
      exact .refl _
    | some value =>
      rw [hkey, hvalue] at h₁
      cases current with
      | none =>
        cases h₁
        exact .refl _
      | some found =>
        obtain ⟨r, s₂, hset, h₂⟩ := EStateM.bind_eq_ok.mp h₁
        cases h₂
        exact currentProcessSetEnv_unmoved hset

theorem unsetEnvCall_unmoved {s s' : SchedulerState} {key : List UInt8} {events : List Event}
    (h : unsetEnvCall key s = .ok events s') : Unmoved s s' := by
  obtain ⟨current, s₁, hcurrent, h₁⟩ := EStateM.bind_eq_ok.mp h
  obtain ⟨rfl, -⟩ := currentProcess_reads hcurrent
  cases hkey : fromUtf8 key with
  | none =>
    rw [hkey] at h₁
    cases h₁
    exact .refl _
  | some key =>
    rw [hkey] at h₁
    cases current with
    | none =>
      cases h₁
      exact .refl _
    | some found =>
      obtain ⟨r, s₂, hunset, h₂⟩ := EStateM.bind_eq_ok.mp h₁
      cases h₂
      exact currentProcessUnsetEnv_unmoved hunset

theorem chdirCall_unmoved {rootFs : Option Storage.Fat32} {fuel : Nat} {path : List UInt8}
    {m m' : Machine} {events : List Event} (h : chdirCall rootFs fuel path m = .ok events m') :
    Unmoved m.scheduler m'.scheduler := by
  obtain ⟨current, m₁, hcurrent, h₁⟩ := EStateM.bind_eq_ok.mp h
  obtain ⟨s₁, hreads, rfl⟩ := onScheduler_eq_ok hcurrent
  obtain ⟨rfl, -⟩ := currentProcess_reads hreads
  cases hpath : fromUtf8 path with
  | none =>
    rw [hpath] at h₁
    cases h₁
    exact .refl _
  | some path =>
    rw [hpath] at h₁
    cases current with
    | none =>
      cases h₁
      exact .refl _
    | some found =>
      obtain ⟨r, m₂, hchdir, h₂⟩ := EStateM.bind_eq_ok.mp h₁
      obtain ⟨s₂, hrun, rfl⟩ := onScheduler_eq_ok hchdir
      cases r with
      | ok _ =>
        cases h₂
        exact currentProcessChdir_unmoved hrun
      | error stop =>
        cases stop with
        | storage e =>
          cases h₂
          exact currentProcessChdir_unmoved hrun
        | outOfFuel => cases h₂

theorem currentProcessRead_reads {s s' : SchedulerState} {fd room : Nat} {c : Console}
    {r : List UInt8 × Console} (h : currentProcessRead fd room c s = .ok r s') : s' = s := by
  obtain ⟨current, s₁, hcurrent, h₁⟩ := EStateM.bind_eq_ok.mp h
  obtain ⟨rfl, -⟩ := currentProcess_reads hcurrent
  cases current with
  | none =>
    cases h₁
    rfl
  | some found =>
    cases h₁
    rfl

theorem writeCall_unmoved {fd : Nat} {buffer : List UInt8} {m m' : Machine} {events : List Event}
    (h : writeCall fd buffer m = .ok events m') : Unmoved m.scheduler m'.scheduler := by
  obtain ⟨current, m₁, hcurrent, h₁⟩ := EStateM.bind_eq_ok.mp h
  obtain ⟨s₁, hreads, rfl⟩ := onScheduler_eq_ok hcurrent
  obtain ⟨rfl, -⟩ := currentProcess_reads hreads
  cases current with
  | none =>
    cases h₁
    exact .refl _
  | some found =>
    obtain ⟨m₂, m₃, hget, h₂⟩ := EStateM.bind_eq_ok.mp h₁
    cases hget
    obtain ⟨r, m₄, hwrite, h₃⟩ := EStateM.bind_eq_ok.mp h₂
    obtain ⟨s₂, hrun, rfl⟩ := onScheduler_eq_ok hwrite
    obtain ⟨current', s₃, hcurrent', h₄⟩ := EStateM.bind_eq_ok.mp hrun
    obtain ⟨rfl, -⟩ := currentProcess_reads hcurrent'
    cases current' with
    | none =>
      cases h₄
      cases h₃
      exact .refl _
    | some found' =>
      cases h₄
      cases h₃
      exact .refl _

/-- **The other calls** leave every process its memory. -/
theorem step_unmoved {rootFs : Option Storage.Fat32} {call : Call} {m m' : Machine}
    {events : List Event} (hstays : call.Stays) (h : step rootFs call m = .ok events m') :
    Unmoved m.scheduler m'.scheduler := by
  cases call with
  | yieldNow => exact hstays.elim
  | exit status => exact hstays.elim
  | spawnWait path silent load => exact hstays.elim
  | setEnv key value =>
    obtain ⟨s, hrun, rfl⟩ := onScheduler_eq_ok h
    exact setEnvCall_unmoved hrun
  | unsetEnv key =>
    obtain ⟨s, hrun, rfl⟩ := onScheduler_eq_ok h
    exact unsetEnvCall_unmoved hrun
  | chdir path fuel => exact chdirCall_unmoved h
  | read fd room =>
    obtain ⟨m₁, m₂, hget, h₁⟩ := EStateM.bind_eq_ok.mp h
    cases hget
    obtain ⟨r, m₃, hread, h₂⟩ := EStateM.bind_eq_ok.mp h₁
    obtain ⟨s, hrun, rfl⟩ := onScheduler_eq_ok hread
    obtain rfl := currentProcessRead_reads hrun
    cases h₂
    exact .refl _
  | write fd buffer => exact writeCall_unmoved h
  | service input =>
    cases h
    exact .refl _

/-! ## Boot -/

section

variable {s s' : SchedulerState}

theorem installTerminal_keeps (endpoint : EndpointRef) : KeepsOwner (installTerminal endpoint) := by
  refine (installHandle_keeps _).bind fun stdin => ?_
  refine (installHandle_keeps _).bind fun stdout => ?_
  exact (installHandle_keeps _).bind fun stderr => setStdio_keeps _

theorem createProcess_owners {config : ProcessConfig} {p : ProcessId}
    (h : createProcess config s = .ok p s') :
    owners s p = none ∧
      owners s' = Function.update (owners s) p (some (config.addressSpace, config.ownedPages)) := by
  obtain ⟨r, s₁, hcreate, h₁⟩ := EStateM.bind_eq_ok.mp h
  rw [tryCreateProcess, EStateM.get_bind] at hcreate
  cases hfree : firstFree s.processes with
  | none =>
    rw [hfree] at hcreate
    cases hcreate
    cases h₁
  | some slot =>
    rw [hfree] at hcreate
    dsimp only at hcreate
    obtain ⟨hlt, hnone⟩ := firstFree_eq_some hfree
    have hbefore : owners s slot = none := by
      rw [owners, process?, hnone]
      rfl
    cases hterminal : config.terminalEndpoint with
    | none =>
      rw [hterminal] at hcreate
      cases hcreate
      cases h₁
      exact ⟨hbefore, owners_putProcess hlt _⟩
    | some endpoint =>
      rw [hterminal] at hcreate
      dsimp only at hcreate
      cases hinstall : installTerminal endpoint
          (Process.new slot config.addressSpace config.ownedPages config.exitAction) with
      | error e pr =>
        rw [hinstall] at hcreate
        cases hcreate
        cases h₁
      | ok _ pr =>
        rw [hinstall] at hcreate
        cases hcreate
        cases h₁
        have howner := (installTerminal_keeps endpoint _).ok rfl hinstall
        refine ⟨hbefore, ?_⟩
        rw [owners_putProcess hlt, Option.map_some, howner]
        rfl

theorem createThread_owners {p : ProcessId} {start : ThreadStart} {t : ThreadId}
    (h : createThread p start s = .ok t s') : owners s' = owners s := by
  obtain ⟨r, s₁, hcreate, h₁⟩ := EStateM.bind_eq_ok.mp h
  obtain ⟨-, hnone⟩ | ⟨slot, th, -, -, hsome⟩ := tryCreateThread_cases p start s
  · rw [hnone] at hcreate
    cases hcreate
    cases h₁
  · rw [hsome] at hcreate
    cases hcreate
    cases h₁
    rfl

theorem setProcessEnv_owners {p : ProcessId} {key value : String}
    {r : Except EnvironmentAccessError Unit} (h : setProcessEnv p key value s = .ok r s') :
    owners s' = owners s := by
  obtain ⟨pr, s₁, hpr, h₁⟩ := EStateM.bind_eq_ok.mp h
  obtain ⟨rfl, hprocess⟩ := process_reads hpr
  have hput := putOwn_unmoved (onEnv_keeps (Environment.set key value)) hprocess
  cases hset : Process.setEnv key value pr with
  | ok _ pr' =>
    rw [hset] at h₁
    cases h₁
    exact (hput.1 _ pr' hset).owners
  | error e pr' =>
    rw [hset] at h₁
    cases h₁
    exact (hput.2 e pr' hset).owners

theorem startThread_owners {a : ThreadActivation} (h : startThread s = .ok (some a) s') :
    owners s' = owners s ∧ CurrentSpace s' a.addressSpace := by
  obtain ⟨next, s₁, hnext, h₁⟩ := EStateM.bind_eq_ok.mp h
  obtain rfl := nextRunnableThread_reads hnext
  cases next with
  | none => cases h₁
  | some t =>
    dsimp only at h₁
    rw [EStateM.modify_bind] at h₁
    obtain ⟨_, s₂, hrunning, h₂⟩ := EStateM.bind_eq_ok.mp h₁
    have hsame := modifyThread_same hrunning fun _ => rfl
    obtain ⟨a', s₃, hactivation, h₃⟩ := EStateM.bind_eq_ok.mp h₂
    obtain ⟨rfl, hspace⟩ := activation_space hactivation
    cases h₃
    exact ⟨hsame.owners, t, hsame.current, hspace⟩

/-- **Boot**: the kernel process, which owns no pages, and the bootstrap process. -/
theorem bootScheduler_owners {stacksAddress : Nat} {kernelSpace : AddressSpace}
    {program : LoadedUserProgram} {a : ThreadActivation}
    (h : bootScheduler kernelSpace program (SchedulerState.new stacksAddress) = .ok (some a) s') :
    ∃ kernel user : ProcessId, user ≠ kernel ∧
      owners s' = Function.update (Function.update (fun _ => none) kernel
        (some (kernelSpace, OwnedPages.empty))) user (some (brings program)) ∧
      CurrentSpace s' a.addressSpace := by
  obtain ⟨kernel, s₁, hkernel, h₁⟩ := EStateM.bind_eq_ok.mp h
  obtain ⟨-, howners₁⟩ := createProcess_owners hkernel
  have hempty : owners (SchedulerState.new stacksAddress) = fun _ => none := by
    funext p
    rw [owners, process?, SchedulerState.new, get_replicate_none]
    rfl
  rw [hempty] at howners₁
  obtain ⟨user, s₂, huser, h₂⟩ := EStateM.bind_eq_ok.mp h₁
  obtain ⟨hfree, howners₂⟩ := createProcess_owners huser
  rw [howners₁] at howners₂ hfree
  obtain ⟨seeded, s₃, hseed, h₃⟩ := EStateM.bind_eq_ok.mp h₂
  have howners₃ := setProcessEnv_owners hseed
  cases seeded with
  | error e => cases h₃
  | ok _ =>
    dsimp only at h₃
    obtain ⟨terminal, s₄, hterminal, h₄⟩ := EStateM.bind_eq_ok.mp h₃
    obtain ⟨main, s₅, hmain, h₅⟩ := EStateM.bind_eq_ok.mp h₄
    obtain ⟨idle, s₆, hidle, h₆⟩ := EStateM.bind_eq_ok.mp h₅
    rw [EStateM.modify_bind] at h₆
    obtain ⟨howners₇, hspace⟩ := startThread_owners h₆
    refine ⟨kernel, user, ?_, ?_, hspace⟩
    · rintro rfl
      rw [Function.update_self] at hfree
      cases hfree
    · have hthreads : owners s₆ = owners s₂ :=
        ((createThread_owners hidle).trans ((createThread_owners hmain).trans
          (createThread_owners hterminal))).trans howners₃
      rw [howners₇]
      show owners s₆ = _
      rw [hthreads, howners₂]
      rfl

end

end Lazers.Scheduler
