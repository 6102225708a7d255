import Mathlib.Logic.Function.Iterate
import StoredProgram.Processor

/-!
The processor as its host sees it. Whatever the host asks for, and in whatever order,
the machine only ever moves by whole cycles, and the events of those cycles reach the host
in order and once each, or still wait in the queue. An answer is counted in cycles here,
which shows that none runs while an event waits and that the budget is kept.
-/
namespace StoredProgram

/-- Cycles in a row, each begun by a running machine: how many they are, and all their
events in order. -/
inductive Cycles (tracing : Bool) : Nat → Machine × State → List Event → Machine × State → Prop
  | nil (start : Machine × State) : Cycles tracing 0 start [] start
  | cons {count : Nat} {m : Machine} {events : List Event} {last : Machine × State} :
      Cycles tracing count ((m.cycle tracing).machine, (m.cycle tracing).state) events last →
      Cycles tracing (count + 1) (m, .running) ((m.cycle tracing).events ++ events) last

namespace Cycles

variable {tracing : Bool} {a b : Nat} {start middle last : Machine × State}
variable {first second : List Event}

theorem append (h : Cycles tracing a start first middle)
    (h' : Cycles tracing b middle second last) :
    Cycles tracing (a + b) start (first ++ second) last := by
  induction h with
  | nil start => simpa only [Nat.zero_add, List.nil_append] using h'
  | @cons count m events middle hrest ih =>
    rw [Nat.add_right_comm, List.append_assoc]
    exact Cycles.cons (ih h')

theorem single (tracing : Bool) (m : Machine) :
    Cycles tracing 1 (m, .running) (m.cycle tracing).events
      ((m.cycle tracing).machine, (m.cycle tracing).state) := by
  simpa only [List.append_nil] using Cycles.cons (Cycles.nil ((m.cycle tracing).machine, _))

/-- No cycle starts from a machine that is halted. -/
theorem of_halted {m : Machine} (h : Cycles tracing a (m, .halted) first last) :
    a = 0 ∧ first = [] ∧ last = (m, .halted) := by
  cases h with
  | nil => exact ⟨rfl, rfl, rfl⟩

end Cycles

/-- A cycle that halts says why. -/
theorem Machine.cycle_events_ne_nil_of_halted {tracing : Bool} {m : Machine}
    (h : (m.cycle tracing).state = .halted) : (m.cycle tracing).events ≠ [] := by
  unfold Machine.cycle at h ⊢
  cases hfetch : m.memory.fetch.1 with
  | none => exact List.cons_ne_nil _ _
  | some instruction =>
    simp only [hfetch] at h ⊢
    split at h
    · simp at h
    · simp

namespace Processor

theorem step_of_halted {p : Processor} (h : p.state = .halted) : p.step = p := by
  simp only [step, h]

theorem step_of_running {p : Processor} (h : p.state = .running) :
    p.step =
      { p with
        machine := (p.machine.cycle p.tracing).machine
        state := (p.machine.cycle p.tracing).state
        events := p.events ++ (p.machine.cycle p.tracing).events
        log := p.log ++ (p.machine.cycle p.tracing).log } := by
  simp only [step, h]

theorem interrupt_of_halted {p : Processor} (h : p.state = .halted) : p.interrupt = p := by
  simp only [interrupt, h]

theorem interrupt_of_running {p : Processor} (h : p.state = .running) :
    p.interrupt = { p with state := .halted }.note [.interrupted p.memory.cursor] := by
  simp only [interrupt, h]

/-- The processor `q` comes from `p` by cycles alone, and the events that the host has
received on the way and those that still wait are all that there were and came about.
A host may have halted it in between. -/
structure Refines (p : Processor) (received : List Event) (q : Processor) : Prop where
  tracing_eq : q.tracing = p.tracing
  by_cycles : ∃ (count : Nat) (events : List Event) (state : State),
    Cycles p.tracing count (p.machine, p.state) events (q.machine, state) ∧
      (q.state = state ∨ q.state = .halted) ∧ received ++ q.events = p.events ++ events

namespace Refines

theorem refl (p : Processor) : p.Refines [] p where
  tracing_eq := rfl
  by_cycles := ⟨0, [], p.state, Cycles.nil _, Or.inl rfl, by simp⟩

theorem trans {p q r : Processor} {first second : List Event}
    (h : p.Refines first q) (h' : q.Refines second r) : p.Refines (first ++ second) r where
  tracing_eq := h'.tracing_eq.trans h.tracing_eq
  by_cycles := by
    obtain ⟨a, events, state, hcycles, hstate, hevents⟩ := h.by_cycles
    obtain ⟨b, events', state', hcycles', hstate', hevents'⟩ := h'.by_cycles
    have hall : (first ++ second) ++ r.events = p.events ++ (events ++ events') := by
      rw [List.append_assoc, hevents', ← List.append_assoc, hevents, List.append_assoc]
    rw [h.tracing_eq] at hcycles'
    rcases hstate with hsame | hhalted
    · rw [hsame] at hcycles'
      exact ⟨a + b, events ++ events', state', hcycles.append hcycles', hstate', hall⟩
    · -- the host has halted `q`, so that nothing came after it
      rw [hhalted] at hcycles'
      obtain ⟨-, rfl, hlast⟩ := hcycles'.of_halted
      obtain ⟨hmachine, rfl⟩ := Prod.mk.inj hlast
      rw [List.append_nil] at hall
      rw [← hmachine] at hcycles
      exact ⟨a, events, state, hcycles, Or.inr (by simpa using hstate'), hall⟩

theorem step (p : Processor) : p.Refines [] p.step := by
  cases hstate : p.state with
  | halted =>
    rw [step_of_halted hstate]
    exact refl p
  | running =>
    rw [step_of_running hstate]
    refine ⟨rfl, 1, _, _, ?_, Or.inl rfl, rfl⟩
    rw [hstate]
    exact Cycles.single p.tracing p.machine

theorem interrupt (p : Processor) : p.Refines [] p.interrupt := by
  cases hstate : p.state with
  | halted =>
    rw [interrupt_of_halted hstate]
    exact refl p
  | running =>
    rw [interrupt_of_running hstate]
    exact ⟨rfl, 0, [], p.state, Cycles.nil _, Or.inr rfl, (List.append_nil _).symm⟩

end Refines

/-- Answering a host, rule by rule: the budget, the cycles that run, the reply and the
processor after it. -/
inductive Serves : Nat → Processor → Nat → Reply → Processor → Prop
  | waiting {budget : Nat} {p : Processor} {event : Event} {rest : List Event}
      (hevents : p.events = event :: rest) :
      Serves budget p 0 (.event event) { p with events := rest }
  | halted {budget : Nat} {p : Processor} (hevents : p.events = [])
      (hstate : p.state = .halted) : Serves budget p 0 .stopped p
  | exhausted {p : Processor} (hevents : p.events = []) (hstate : p.state = .running) :
      Serves 0 p 0 .running p
  | cycle {budget count : Nat} {p next : Processor} {reply : Reply} (hevents : p.events = [])
      (hstate : p.state = .running) (hrest : Serves budget p.step count reply next) :
      Serves (budget + 1) p (count + 1) reply next

theorem serves_replyWithin (budget : Nat) (p : Processor) :
    ∃ count, Serves budget p count (p.replyWithin budget).1 (p.replyWithin budget).2 := by
  fun_induction replyWithin budget p with
  | case1 budget p event rest hevents => exact ⟨0, Serves.waiting hevents⟩
  | case2 budget p hevents hstate => exact ⟨0, Serves.halted hevents hstate⟩
  | case3 p hevents hstate => exact ⟨0, Serves.exhausted hevents hstate⟩
  | case4 p hevents budget hstate ih =>
    obtain ⟨count, hrest⟩ := ih
    exact ⟨count + 1, Serves.cycle hevents hstate hrest⟩

end Processor

/-- The event that a reply hands over, if it is not about the state alone. -/
def Reply.event? : Reply → Option Event
  | event e => some e
  | running | stopped => none

namespace Processor.Serves

variable {budget count : Nat} {p next : Processor} {reply : Reply}

theorem count_le (h : Serves budget p count reply next) : count ≤ budget := by
  induction h with
  | waiting | halted | exhausted => exact Nat.zero_le _
  | cycle hevents hstate hrest ih => omega

/-- Every cycle finds the queue empty. -/
theorem idle (h : Serves budget p count reply next) :
    ∀ j < count, (step^[j] p).events = [] ∧ (step^[j] p).state = .running := by
  induction h with
  | waiting | halted | exhausted =>
    intro j hj
    omega
  | cycle hevents hstate hrest ih =>
    intro j hj
    cases j with
    | zero => exact ⟨hevents, hstate⟩
    | succ j =>
      rw [Function.iterate_succ_apply]
      exact ih j (by omega)

theorem tracing_eq (h : Serves budget p count reply next) : next.tracing = p.tracing := by
  induction h with
  | waiting | halted | exhausted => rfl
  | cycle hevents hstate hrest ih => rw [ih, step_of_running hstate]

theorem cycles (h : Serves budget p count reply next) :
    ∃ events, Cycles p.tracing count (p.machine, p.state) events (next.machine, next.state) ∧
      reply.event?.toList ++ next.events = p.events ++ events := by
  induction h with
  | waiting hevents => exact ⟨[], Cycles.nil _, by simp [Reply.event?, hevents]⟩
  | halted hevents hstate => exact ⟨[], Cycles.nil _, by simp [Reply.event?]⟩
  | exhausted hevents hstate => exact ⟨[], Cycles.nil _, by simp [Reply.event?]⟩
  | @cycle _ _ p _ _ hevents hstate hrest ih =>
    obtain ⟨events, hcycles, hqueue⟩ := ih
    rw [step_of_running hstate] at hcycles hqueue
    refine ⟨(p.machine.cycle p.tracing).events ++ events, ?_, ?_⟩
    · rw [hstate]
      exact Cycles.cons hcycles
    · simp only [hqueue, hevents, List.nil_append]

theorem refines (h : Serves budget p count reply next) :
    p.Refines reply.event?.toList next := by
  obtain ⟨events, hcycles, hqueue⟩ := h.cycles
  exact ⟨h.tracing_eq, count, events, next.state, hcycles, Or.inl rfl, hqueue⟩

theorem of_running (h : Serves budget p count .running next) :
    count = budget ∧ next.events = [] ∧ next.state = .running := by
  generalize hreply : Reply.running = reply at h
  induction h with
  | waiting | halted => simp at hreply
  | exhausted hevents hstate => exact ⟨rfl, hevents, hstate⟩
  | cycle hevents hstate hrest ih =>
    obtain ⟨hcount, hnext⟩ := ih hreply
    exact ⟨by omega, hnext⟩

/-- A cycle that halts leaves an event, so that only a processor that was halted at the
start is found to have stopped. -/
theorem of_stopped (h : Serves budget p count .stopped next) :
    count = 0 ∧ p.events = [] ∧ p.state = .halted := by
  generalize hreply : Reply.stopped = reply at h
  induction h with
  | waiting | exhausted => simp at hreply
  | halted hevents hstate => exact ⟨rfl, hevents, hstate⟩
  | cycle hevents hstate hrest ih =>
    obtain ⟨-, hqueue, hhalted⟩ := ih hreply
    rw [step_of_running hstate] at hqueue hhalted
    exact absurd (List.append_eq_nil_iff.mp hqueue).2
      (Machine.cycle_events_ne_nil_of_halted hhalted)

end Processor.Serves

/-- What a host may ask of a processor in the course of a run. -/
inductive Call where
  | execute (budget : Nat)
  | step
  | interrupt
deriving DecidableEq

namespace Processor

/-- Only a call to execute is replied to. -/
def answer (p : Processor) : Call → Option Reply × Processor
  | .execute budget => (some (p.execute budget).1, (p.execute budget).2)
  | .step => (none, p.step)
  | .interrupt => (none, p.interrupt)

/-- The replies to a sequence of calls, and the processor after the last. -/
def answerAll (p : Processor) : List Call → List Reply × Processor
  | [] => ([], p)
  | call :: rest =>
    let replies := (p.answer call).2.answerAll rest
    ((p.answer call).1.toList ++ replies.1, replies.2)

theorem refines_answer (p : Processor) (call : Call) :
    p.Refines ((p.answer call).1.toList.filterMap Reply.event?) (p.answer call).2 := by
  cases call with
  | execute budget =>
    obtain ⟨count, hserves⟩ := serves_replyWithin (max budget 1) p
    have hreply : [(p.execute budget).1].filterMap Reply.event? =
        (p.execute budget).1.event?.toList := by
      cases (p.execute budget).1 <;> rfl
    simp only [answer, Option.toList_some, hreply]
    exact hserves.refines
  | step => exact Refines.step p
  | interrupt => exact Refines.interrupt p

theorem refines_answerAll (p : Processor) (calls : List Call) :
    p.Refines ((p.answerAll calls).1.filterMap Reply.event?) (p.answerAll calls).2 := by
  induction calls generalizing p with
  | nil => exact Refines.refl p
  | cons call rest ih =>
    simp only [answerAll, List.filterMap_append]
    exact (p.refines_answer call).trans (ih (p.answer call).2)

/-- Any sequence of calls runs some number of cycles of the machine as it was at the start,
and loses, repeats or reorders none of their events. Each call to execute starts a cycle
only while no event waits, keeps its budget, says that it is running only after a full
budget of silent cycles, and says that it has stopped only if it found nothing to do. -/
theorem host_calls_refine_cycles (p : Processor) (calls : List Call) :
    (∃ (count : Nat) (events : List Event) (state : State),
      Cycles p.tracing count (p.machine, p.state) events
          ((p.answerAll calls).2.machine, state) ∧
        ((p.answerAll calls).2.state = state ∨ (p.answerAll calls).2.state = .halted) ∧
        (p.answerAll calls).1.filterMap Reply.event? ++ (p.answerAll calls).2.events =
          p.events ++ events) ∧
    ∀ budget, ∃ (count : Nat) (events : List Event),
      Serves (max budget 1) p count (p.execute budget).1 (p.execute budget).2 ∧
        Cycles p.tracing count (p.machine, p.state) events
          ((p.execute budget).2.machine, (p.execute budget).2.state) ∧
        (∀ j < count, (step^[j] p).events = [] ∧ (step^[j] p).state = .running) ∧
        count ≤ max budget 1 ∧
        ((p.execute budget).1 = .running →
          count = max budget 1 ∧ events = [] ∧ (p.execute budget).2.state = .running) ∧
        ((p.execute budget).1 = .stopped →
          count = 0 ∧ p.events = [] ∧ p.state = .halted) := by
  refine ⟨(p.refines_answerAll calls).by_cycles, ?_⟩
  intro budget
  obtain ⟨count, hserves⟩ : ∃ count,
      Serves (max budget 1) p count (p.execute budget).1 (p.execute budget).2 :=
    serves_replyWithin (max budget 1) p
  obtain ⟨events, hcycles, hqueue⟩ := hserves.cycles
  refine ⟨count, events, hserves, hcycles, hserves.idle, hserves.count_le, ?_, ?_⟩
  · intro hreply
    rw [hreply] at hserves hqueue
    obtain ⟨hcount, hempty, hstate⟩ := hserves.of_running
    rw [hempty] at hqueue
    exact ⟨hcount, (List.append_eq_nil_iff.mp hqueue.symm).2, hstate⟩
  · intro hreply
    rw [hreply] at hserves
    exact hserves.of_stopped

/-- A machine that goes round in one slot and reports nothing. -/
def looping : Processor where
  machine := ⟨⟨#[some (.goto 0)], 0⟩, ⟨#[]⟩⟩
  state := .running
  tracing := false
  events := []

theorem host_calls_on_looping :
    ((looping.execute 3).1 = .running ∧
      Cycles false 3 (looping.machine, .running) []
        ((looping.execute 3).2.machine, (looping.execute 3).2.state)) ∧
    ((looping.interrupt.execute 0).1 = .stopped ∧
      Cycles false 0 (looping.machine, .halted) []
        ((looping.interrupt.execute 0).2.machine, (looping.interrupt.execute 0).2.state)) := by
  have hrunning : (looping.execute 3).1 = .running := by decide
  have hstopped : (looping.interrupt.execute 0).1 = .stopped := by decide
  obtain ⟨count, events, -, hcycles, -, -, hsilent, -⟩ :=
    (host_calls_refine_cycles looping []).2 3
  obtain ⟨hcount, hevents, -⟩ := hsilent hrunning
  obtain ⟨count', events', -, hcycles', -, -, -, hidle⟩ :=
    (host_calls_refine_cycles looping.interrupt []).2 0
  obtain ⟨hcount', -, -⟩ := hidle hstopped
  have hevents' : events' = [] := hcycles'.of_halted.2.1
  rw [hcount, hevents] at hcycles
  rw [hcount', hevents'] at hcycles'
  exact ⟨⟨hrunning, hcycles⟩, hstopped, hcycles'⟩

end Processor

end StoredProgram
