import StoredProgram.Proofs.Cycle

/-!
Undisturbed runs. Between the start of a run and its end a host takes turns with the
processor: it executes with some budget, makes a single step, or switches tracing on or
off. Whatever the turns are, the machine moves by whole cycles, so that what one cycle
keeps is kept by all turns. Once a host is told that nothing runs, this stays so.
-/
namespace StoredProgram

/-- What a cycle keeps is kept by cycles in a row. -/
theorem Cycles.preserves {P : List Event → Machine × State → Prop} {tracing : Bool} {count : Nat}
    {start last : Machine × State} {events before : List Event}
    (h : Cycles tracing count start events last)
    (hcycle : ∀ before m, P before (m, .running) →
      P (before ++ (m.cycle tracing).events) ((m.cycle tracing).machine, (m.cycle tracing).state))
    (hstart : P before start) : P (before ++ events) last := by
  induction h generalizing before with
  | nil start => simpa only [List.append_nil] using hstart
  | @cons count m events last hrest ih =>
    rw [← List.append_assoc]
    exact ih (hcycle before m hstart)

theorem Reply.filterMap_event?_cons (reply : Reply) (rest : List Reply) :
    (reply :: rest).filterMap event? = reply.event?.toList ++ rest.filterMap event? := by
  cases reply <;> rfl

/-- What a host may do in the course of a run without disturbing it. -/
inductive Turn where
  | execute (budget : Nat)
  | step
  | setTracing (tracing : Bool)
deriving DecidableEq

def Turn.isExecute : Turn → Bool
  | execute _ => true
  | step | setTracing _ => false

namespace Processor

/-- Only a turn that executes is replied to. -/
def take (p : Processor) : Turn → Option Reply × Processor
  | .execute budget => (some (p.execute budget).1, (p.execute budget).2)
  | .step => (none, p.step)
  | .setTracing tracing => (none, p.setTracing tracing)

/-- The replies to turns, and the processor after the last of them. -/
def takeAll (p : Processor) : List Turn → List Reply × Processor
  | [] => ([], p)
  | turn :: rest =>
    let replies := (p.take turn).2.takeAll rest
    ((p.take turn).1.toList ++ replies.1, replies.2)

variable {p : Processor}

theorem serves_execute (p : Processor) (budget : Nat) :
    ∃ count, Serves (max budget 1) p count (p.execute budget).1 (p.execute budget).2 :=
  serves_replyWithin (max budget 1) p

theorem takeAll_append (p : Processor) (first second : List Turn) :
    p.takeAll (first ++ second) =
      ((p.takeAll first).1 ++ ((p.takeAll first).2.takeAll second).1,
        ((p.takeAll first).2.takeAll second).2) := by
  induction first generalizing p with
  | nil => rfl
  | cons turn rest ih => simp only [List.cons_append, takeAll, ih, List.append_assoc]

/-- The events that a turn hands over. -/
def received (p : Processor) (turns : List Turn) : List Event :=
  (p.takeAll turns).1.filterMap Reply.event?

theorem received_cons (p : Processor) (turn : Turn) (rest : List Turn) :
    p.received (turn :: rest) =
      (p.take turn).1.toList.filterMap Reply.event? ++ (p.take turn).2.received rest := by
  simp only [received, takeAll, List.filterMap_append]

/-- The events that were handed over and those that wait, together with the machine and
its state, keep whatever a cycle keeps. -/
theorem take_preserves {P : List Event → Machine × State → Prop}
    (hcycle : ∀ before m tracing, P before (m, .running) →
      P (before ++ (m.cycle tracing).events) ((m.cycle tracing).machine, (m.cycle tracing).state))
    (turn : Turn) (before : List Event) (h : P (before ++ p.events) (p.machine, p.state)) :
    P (before ++ ((p.take turn).1.toList.filterMap Reply.event? ++ (p.take turn).2.events))
      ((p.take turn).2.machine, (p.take turn).2.state) := by
  cases turn with
  | setTracing tracing => exact h
  | step =>
    cases hstate : p.state with
    | halted =>
      simpa only [take, step_of_halted hstate, Option.toList_none, List.filterMap_nil,
        List.nil_append] using h
    | running =>
      rw [hstate] at h
      simpa only [take, step_of_running hstate, Option.toList_none, List.filterMap_nil,
        List.nil_append, List.append_assoc] using hcycle _ _ p.tracing h
  | execute budget =>
    obtain ⟨count, hserves⟩ := p.serves_execute budget
    obtain ⟨events, hcycles, hqueue⟩ := hserves.cycles
    have hall := hcycles.preserves (fun before m => hcycle before m p.tracing) h
    rw [List.append_assoc, ← hqueue] at hall
    simpa only [take, Option.toList_some, Reply.filterMap_event?_cons, List.filterMap_nil,
      List.append_nil] using hall

theorem takeAll_preserves {P : List Event → Machine × State → Prop}
    (hcycle : ∀ before m tracing, P before (m, .running) →
      P (before ++ (m.cycle tracing).events) ((m.cycle tracing).machine, (m.cycle tracing).state))
    (turns : List Turn) (before : List Event)
    (h : P (before ++ p.events) (p.machine, p.state)) :
    P (before ++ (p.received turns ++ (p.takeAll turns).2.events))
      ((p.takeAll turns).2.machine, (p.takeAll turns).2.state) := by
  induction turns generalizing p before with
  | nil => exact h
  | cons turn rest ih =>
    have hturn := take_preserves hcycle turn before h
    rw [← List.append_assoc] at hturn
    have hrest := ih _ hturn
    rw [List.append_assoc] at hrest
    simpa only [received_cons, takeAll, List.append_assoc] using hrest

/-- Some number of steps leads to the machine in its state. -/
def Reaches (p : Processor) (now : Machine × State) : Prop :=
  ∃ count, now.1 = (step^[count] p).machine ∧ now.2 = (step^[count] p).state

theorem Reaches.cycle {m : Machine} (h : p.Reaches (m, .running)) (tracing : Bool) :
    p.Reaches ((m.cycle tracing).machine, (m.cycle tracing).state) := by
  obtain ⟨count, rfl, hstate⟩ := h
  refine ⟨count + 1, ?_⟩
  rw [Function.iterate_succ_apply', step_of_running hstate.symm]
  -- the steps may trace where the cycle did not
  have htracing := (step^[count] p).machine.cycle_untraced tracing
  rw [(step^[count] p).machine.cycle_untraced (step^[count] p).tracing] at htracing
  exact ⟨(congrArg Cycle.machine htracing).symm, (congrArg Cycle.state htracing).symm⟩

/-- However turns are taken, they lead to where steps lead. -/
theorem reaches_takeAll (p : Processor) (turns : List Turn) :
    p.Reaches ((p.takeAll turns).2.machine, (p.takeAll turns).2.state) :=
  takeAll_preserves (P := fun _ now => p.Reaches now) (fun _ _ tracing h => h.cycle tracing)
    turns [] ⟨0, rfl, rfl⟩

/-- Nothing runs and no event waits. -/
def Idle (p : Processor) : Prop := p.events = [] ∧ p.state = .halted

theorem execute_of_idle (h : p.Idle) (budget : Nat) : p.execute budget = (.stopped, p) := by
  obtain ⟨hevents, hstate⟩ := h
  unfold execute replyWithin
  simp only [hevents, hstate]

theorem Idle.take (h : p.Idle) (turn : Turn) : (p.take turn).2.Idle := by
  cases turn with
  | execute budget => simpa only [Processor.take, execute_of_idle h] using h
  | step => simpa only [Processor.take, step_of_halted h.2] using h
  | setTracing tracing => exact h

theorem Idle.takeAll (h : p.Idle) (turns : List Turn) : (p.takeAll turns).2.Idle := by
  induction turns generalizing p with
  | nil => exact h
  | cons turn rest ih => exact ih (h.take turn)

theorem idle_of_execute_stopped {budget : Nat} (h : (p.execute budget).1 = .stopped) : p.Idle := by
  obtain ⟨count, hserves⟩ := p.serves_execute budget
  rw [h] at hserves
  exact ⟨hserves.of_stopped.2.1, hserves.of_stopped.2.2⟩

theorem idle_of_take_stopped {turn : Turn} (h : .stopped ∈ (p.take turn).1) : p.Idle := by
  cases turn with
  | execute budget => exact idle_of_execute_stopped (Option.some.inj h)
  | step => simp [take] at h
  | setTracing tracing => simp [take] at h

/-- A host that was told that nothing runs finds the processor so for ever. -/
theorem idle_of_stopped_mem {turns : List Turn} (h : .stopped ∈ (p.takeAll turns).1) :
    (p.takeAll turns).2.Idle := by
  induction turns generalizing p with
  | nil => simp [takeAll] at h
  | cons turn rest ih =>
    rcases List.mem_append.mp h with hfirst | hrest
    · exact ((idle_of_take_stopped (Option.mem_toList.mp hfirst)).take turn).takeAll rest
    · exact ih hrest

end Processor

end StoredProgram
