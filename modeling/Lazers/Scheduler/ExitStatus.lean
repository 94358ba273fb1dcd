import Lazers.Scheduler.Boot

/-!
# Delivery of exit statuses

A status travels from `exit` through the mailbox of the waiting thread to the return of
`wait_for_child`. On the trace of a run this reads:

- each return is the one right after an exit, of the process that the thread spawned and
  that kept its slot since (`Delivered`);
- each exit is followed by the return of its waiter (`Consumed`).

The stack carries the proof: between two neighbours there is an open wait (`OpenWait`),
and no step of the processes above concerns it.
-/

namespace Lazers.Scheduler

open Kernel Storage

/-- Events about the waits of thread `t` or about the process slot `p`. -/
def Event.Concerns (t : ThreadId) (p : ProcessId) : Event → Prop
  | .spawned _ t' p' _ => t' = t ∨ p' = p
  | .exited p' _ => p' = p
  | .waitReturned t' _ => t' = t
  | .called _ _ _ => False
  | .wrote _ _ _ _ _ => False

/-- Thread `t` spawned the process in slot `p`, and neither has come to an end since. -/
def OpenWait (trace : List Event) (t : ThreadId) (p : ProcessId) : Prop :=
  ∃ before parent silent after, trace = before ++ .spawned parent t p silent :: after ∧
    ∀ e ∈ after, ¬ e.Concerns t p

/-- **Each return** of a wait comes right after the exit of the awaited process, with its
status. -/
def Delivered (trace : List Event) : Prop :=
  ∀ before t result after, trace = before ++ .waitReturned t result :: after →
    ∃ earlier parent p silent between status,
      before = earlier ++ .spawned parent t p silent :: (between ++ [.exited p status]) ∧
      result = some status ∧ ∀ e ∈ between, ¬ e.Concerns t p

/-- **Each exit** is what the next return reports. -/
def Consumed (trace : List Event) : Prop :=
  ∀ before p status after, trace = before ++ .exited p status :: after →
    ∃ t rest, after = .waitReturned t (some status) :: rest

theorem OpenWait.append {trace events : List Event} {t : ThreadId} {p : ProcessId}
    (h : OpenWait trace t p) (hevents : ∀ e ∈ events, ¬ e.Concerns t p) :
    OpenWait (trace ++ events) t p := by
  obtain ⟨before, parent, silent, after, rfl, hafter⟩ := h
  refine ⟨before, parent, silent, after ++ events, by simp, fun e he => ?_⟩
  obtain he | he := List.mem_append.mp he
  · exact hafter e he
  · exact hevents e he

/-- An event of a longer trace is in one of its parts. -/
theorem split_append {trace events before after : List Event} {e : Event}
    (h : trace ++ events = before ++ e :: after) :
    (∃ mid, trace = before ++ e :: mid ∧ after = mid ++ events) ∨
    (∃ mid, before = trace ++ mid ∧ events = mid ++ e :: after) := by
  obtain ⟨mid, hbefore, hevents⟩ | ⟨mid, htrace, hafter⟩ := List.append_eq_append_iff.mp h
  · exact .inr ⟨mid, hbefore, hevents⟩
  · cases mid with
    | nil =>
      rw [List.append_nil] at htrace
      rw [List.nil_append] at hafter
      exact .inr ⟨[], by simp [htrace], by simp [hafter]⟩
    | cons e' mid =>
      rw [List.cons_append, List.cons.injEq] at hafter
      obtain ⟨rfl, hafter⟩ := hafter
      exact .inl ⟨mid, htrace, hafter⟩

/-- **The waits of a stack.** -/
structure Waiting (stack : List Member) (trace : List Event) : Prop where
  processes : (stack.map (·.process.id)).Nodup
  threads : (stack.map Member.thread).Nodup
  waits : stack.IsChain fun child parent => OpenWait trace parent.thread child.process.id

namespace Waiting

variable {rootFs : Option Fat32} {stack stack' : List Member} {trace events : List Event}

/-- Waits that the events do not concern stay open. -/
theorem append (h : Waiting stack trace)
    (hevents : ∀ child ∈ stack, ∀ parent ∈ stack.tail, ∀ e ∈ events,
      ¬ e.Concerns parent.thread child.process.id) : Waiting stack (trace ++ events) := by
  refine ⟨h.processes, h.threads, h.waits.imp_of_mem_tail_imp fun child parent hc hp hopen => ?_⟩
  exact hopen.append (hevents child hc parent hp)

/-- The stack under the newest process. -/
theorem tail {top : Member} {rest : List Member} (h : Waiting (top :: rest) trace) :
    Waiting rest trace :=
  ⟨(List.nodup_cons.mp h.processes).2, (List.nodup_cons.mp h.threads).2, h.waits.tail⟩

/-- What happens to the newest process and its parent does not concern the waits below. -/
theorem below {top : Member} {rest : List Member} (h : Waiting (top :: rest) trace) :
    ∀ m ∈ rest, m.process.id ≠ top.process.id ∧ m.thread ≠ top.thread := by
  intro m hm
  constructor
  · intro heq
    exact (List.nodup_cons.mp h.processes).1 (List.mem_map.mpr ⟨m, hm, heq⟩)
  · intro heq
    exact (List.nodup_cons.mp h.threads).1 (List.mem_map.mpr ⟨m, hm, heq⟩)

theorem step (h : Waiting stack trace) (effect : Effect rootFs stack events stack') :
    Waiting stack' (trace ++ events) := by
  cases effect with
  | quiet =>
    rw [List.append_nil]
    exact h
  | @spawned parent child rest program inherited silent inherits waits fresh =>
    have hold : Waiting (parent :: rest) (trace ++
        [.spawned parent.process.id parent.thread child.process.id silent]) := by
      refine h.append fun m hm m' hm' e he => ?_
      obtain rfl := List.mem_singleton.mp he
      rintro (hthread | hprocess)
      · exact (h.below m' hm').2 hthread.symm
      · exact (fresh m hm).1 hprocess.symm
    refine ⟨?_, ?_, List.isChain_cons_cons.mpr ⟨?_, hold.waits⟩⟩
    · rw [List.map_cons, List.nodup_cons]
      refine ⟨fun hmem => ?_, h.processes⟩
      obtain ⟨m, hm, heq⟩ := List.mem_map.mp hmem
      exact (fresh m hm).1 heq
    · rw [List.map_cons, List.nodup_cons]
      refine ⟨fun hmem => ?_, h.threads⟩
      obtain ⟨m, hm, heq⟩ := List.mem_map.mp hmem
      exact (fresh m hm).2 heq
    · exact ⟨trace, _, silent, [], rfl, fun e he => absurd he List.not_mem_nil⟩
  | @exited top parent rest status =>
    refine h.tail.append fun m hm m' hm' e he => ?_
    simp only [List.mem_cons, List.not_mem_nil, or_false] at he
    obtain rfl | rfl := he
    · exact fun heq => (h.below m hm).1 heq.symm
    · exact fun heq => (h.tail.below m' hm').2 heq.symm
  | @called top rest call result pr own =>
    have hid : pr.id = top.process.id := own.id
    have hold : Waiting (top :: rest) (trace ++ [.called top.process.id call result]) := by
      refine h.append fun m hm m' hm' e he => ?_
      obtain rfl := List.mem_singleton.mp he
      exact fun hconcerns => hconcerns
    refine ⟨?_, hold.threads, ?_⟩
    · rw [List.map_cons, hid]
      exact hold.processes
    · cases rest with
      | nil => exact .singleton _
      | cons parent rest =>
        obtain ⟨hopen, hrest⟩ := List.isChain_cons_cons.mp hold.waits
        exact List.isChain_cons_cons.mpr ⟨hid ▸ hopen, hrest⟩
  | @wrote top rest fd buffer written =>
    refine h.append fun m hm m' hm' e he => ?_
    obtain rfl := List.mem_singleton.mp he
    exact fun hconcerns => hconcerns

end Waiting

namespace StackRun

variable {rootFs : Option Fat32} {stack : List Member} {trace : List Event}

theorem waiting (run : StackRun rootFs stack trace) : Waiting stack trace := by
  induction run with
  | start boots => exact ⟨List.nodup_singleton _, List.nodup_singleton _, .singleton _⟩
  | step run effect ih => exact ih.step effect

theorem delivered (run : StackRun rootFs stack trace) : Delivered trace := by
  induction run with
  | start boots =>
    intro before t result after heq
    simp at heq
  | @step stack stack' trace events run effect ih =>
    intro before t result after heq
    obtain ⟨mid, htrace, -⟩ | ⟨mid, rfl, hevents⟩ := split_append heq
    · exact ih before t result mid htrace
    · cases effect with
      | @exited top parent rest status =>
        -- The only step with a return: the exit before it, and the wait that was open.
        obtain ⟨rfl, rfl, rfl⟩ : mid = [.exited top.process.id status] ∧
            parent.thread = t ∧ some status = result := by
          match mid, hevents with
          | [_], hevents =>
            simp only [List.singleton_append, List.cons.injEq, Event.waitReturned.injEq] at hevents
            obtain ⟨rfl, hreturn, -⟩ := hevents
            exact ⟨rfl, hreturn⟩
          | _ :: _ :: _, hevents => simp at hevents
        obtain ⟨hopen, -⟩ := List.isChain_cons_cons.mp run.waiting.waits
        obtain ⟨earlier, pid, silent, between, rfl, hbetween⟩ := hopen
        exact ⟨earlier, pid, top.process.id, silent, between, status, by simp, rfl, hbetween⟩
      | quiet => simp at hevents
      | spawned | called | wrote => cases mid <;> simp at hevents

theorem consumed (run : StackRun rootFs stack trace) : Consumed trace := by
  induction run with
  | start boots =>
    intro before p status after heq
    simp at heq
  | @step stack stack' trace events run effect ih =>
    intro before p status after heq
    obtain ⟨mid, htrace, rfl⟩ | ⟨mid, rfl, hevents⟩ := split_append heq
    · obtain ⟨t, rest, rfl⟩ := ih before p status mid htrace
      exact ⟨t, rest ++ events, rfl⟩
    · cases effect with
      | @exited top parent rest status' =>
        match mid, hevents with
        | [], hevents =>
          simp only [List.nil_append, List.cons.injEq, Event.exited.injEq] at hevents
          obtain ⟨⟨-, rfl⟩, rfl⟩ := hevents
          exact ⟨parent.thread, [], rfl⟩
        | _ :: _ :: _, hevents => simp at hevents
      | quiet => simp at hevents
      | spawned | called | wrote => cases mid <;> simp at hevents

end StackRun

/-- **Exit statuses over whole runs**: every wait that returns gives the status of the child it
was made for, and every exit of a child is read exactly once, by the next return. -/
theorem exit_status_delivered {boot : Boot} {m : Machine} {trace : List Event}
    (run : Run boot m trace) : Delivered trace ∧ Consumed trace := by
  obtain ⟨c, -, hrun⟩ := run.stackRun
  exact ⟨hrun.delivered, hrun.consumed⟩

/-- A grandchild and a child that reuses its slot, each with its own status. -/
theorem exit_status_delivered_nested :
    ∃ r, sampleBoot.exec [.yieldNow, sampleSpawn false, sampleSpawn false, .exit 7,
        sampleSpawn true, .exit 8, .exit 9] = some r ∧
      r.2.length = 9 ∧ Delivered r.2 ∧ Consumed r.2 := by
  obtain ⟨r, hr⟩ := Option.isSome_iff_exists.mp (by decide +kernel :
    (sampleBoot.exec [.yieldNow, sampleSpawn false, sampleSpawn false, .exit 7,
      sampleSpawn true, .exit 8, .exit 9]).isSome = true)
  have hlength : ((sampleBoot.exec [.yieldNow, sampleSpawn false, sampleSpawn false, .exit 7,
      sampleSpawn true, .exit 8, .exit 9]).map fun r => r.2.length) = some 9 := by decide +kernel
  rw [hr] at hlength
  exact ⟨r, hr, Option.some.inj hlength, exit_status_delivered (run_of_exec hr)⟩

end Lazers.Scheduler
