import StoredProgram.Proofs.Requests

/-!
The order of events. A fault and the message that there are no more instructions are
terminal: whatever a host does, at most one of them waits, it is the last in the queue,
and nothing runs then. A step reports the instruction if it is traced, a line if one is
printed, and a fault if it fails, in this order, or it only finds that there are no more
instructions. So a host that lets a run go on until it halts receives such bursts, then
one terminal event, and after that it is told for ever that nothing runs.
-/
namespace StoredProgram

/-- No event follows in the same run. -/
def Event.isTerminal : Event → Bool
  | fault _ | finished => true
  | trace _ _ | print _ => false

/-- What a cycle reports before a terminal event: an instruction, then a line, and each of
them at most once. -/
def Burst (events : List Event) : Prop :=
  ∃ (traced : Option (Nat × Instruction)) (printed : Option String),
    events = traced.toList.map (fun shown => .trace shown.1 shown.2) ++ printed.toList.map .print

theorem Burst.isTerminal {events : List Event} (h : Burst events) :
    ∀ event ∈ events, event.isTerminal = false := by
  obtain ⟨traced, printed, rfl⟩ := h
  intro event hevent
  rcases List.mem_append.mp hevent with htrace | hprint
  · obtain ⟨shown, -, rfl⟩ := List.mem_map.mp htrace
    rfl
  · obtain ⟨line, -, rfl⟩ := List.mem_map.mp hprint
    rfl

namespace Machine

theorem burst_reported (m : Machine) (tracing : Bool) (fetched : Instruction) :
    Burst (m.reported tracing fetched) := by
  obtain ⟨line, hprinted⟩ := (m.advanced.outcomeAfter_execute fetched).printed
  refine ⟨if tracing then some (m.memory.cursor, fetched) else none, line, ?_⟩
  rw [reported, hprinted]
  cases tracing <;> rfl

/-- A cycle ends with a terminal event exactly if it halts. -/
theorem cycle_shape (m : Machine) (tracing : Bool) :
    ∃ burst last, (m.cycle tracing).events = burst ++ Option.toList last ∧ Burst burst ∧
      (∀ event ∈ last, event.isTerminal = true) ∧
      (last ≠ none ↔ (m.cycle tracing).state = .halted) := by
  rcases m.exhausted_or_slot with hexhausted | ⟨fetched, hslot⟩
  · have hcycle := cycle_of_exhausted hexhausted tracing
    refine ⟨[], some .finished, ?_, ⟨none, none, rfl⟩, ?_, ?_⟩
    · rw [hcycle]
      rfl
    · simp [Event.isTerminal]
    · simp [hcycle]
  · rcases cycle_of_slot hslot with ⟨_, -, hcycle⟩ | ⟨fault, -, hcycle⟩
    · refine ⟨m.reported tracing fetched, none, ?_, m.burst_reported tracing fetched, ?_, ?_⟩
      · rw [hcycle]
        exact (List.append_nil _).symm
      · simp
      · simp [hcycle]
    · refine ⟨m.reported tracing fetched, some (.fault (fault.locate m.memory.cursor)), ?_,
        m.burst_reported tracing fetched, ?_, ?_⟩
      · rw [hcycle]
        rfl
      · simp [Event.isTerminal]
      · simp [hcycle]

end Machine

/-- Only the last event can be terminal, and nothing runs if it is. -/
def Closed (events : List Event) (state : State) : Prop :=
  ∃ quiet last, events = quiet ++ Option.toList last ∧
    (∀ event ∈ quiet, event.isTerminal = false) ∧ (last ≠ none → state = .halted)

namespace Closed

variable {events first second : List Event} {state : State}

theorem nil (state : State) : Closed [] state := ⟨[], none, rfl, by simp, by simp⟩

theorem halted (h : Closed events state) : Closed events .halted := by
  obtain ⟨quiet, last, hevents, hquiet, -⟩ := h
  exact ⟨quiet, last, hevents, hquiet, fun _ => rfl⟩

theorem suffix (h : Closed (first ++ second) state) : Closed second state := by
  induction first with
  | nil => exact h
  | cons event rest ih =>
    apply ih
    obtain ⟨quiet, last, hevents, hquiet, hlast⟩ := h
    cases quiet with
    | nil =>
      have hrest : rest ++ second = [] := by
        cases last with
        | none => simp at hevents
        | some terminal => exact (List.cons.inj hevents).2
      rw [hrest]
      exact Closed.nil state
    | cons head quiet =>
      exact ⟨quiet, last, (List.cons.inj hevents).2,
        fun event hevent => hquiet event (List.mem_cons_of_mem head hevent), hlast⟩

theorem not_terminal (h : Closed events .running) : ∀ event ∈ events, event.isTerminal = false := by
  obtain ⟨quiet, last, rfl, hquiet, hlast⟩ := h
  cases last with
  | none => simpa using hquiet
  | some terminal => exact absurd (hlast (by simp)) (by simp)

theorem cycle (h : Closed events .running) (m : Machine) (tracing : Bool) :
    Closed (events ++ (m.cycle tracing).events) (m.cycle tracing).state := by
  obtain ⟨burst, last, hevents, hburst, -, hstate⟩ := m.cycle_shape tracing
  refine ⟨events ++ burst, last, ?_, ?_, hstate.mp⟩
  · rw [hevents, List.append_assoc]
  · intro event hevent
    rcases List.mem_append.mp hevent with hold | hnew
    · exact h.not_terminal event hold
    · exact hburst.isTerminal event hnew

theorem terminal_last (h : Closed events state) {before after : List Event} {event : Event}
    (hevents : events = before ++ event :: after) (hterminal : event.isTerminal = true) :
    after = [] ∧ state = .halted := by
  subst hevents
  obtain ⟨quiet, last, hevents, hquiet, hlast⟩ := h.suffix
  cases quiet with
  | nil =>
    cases last with
    | none => simp at hevents
    | some terminal => exact ⟨(List.cons.inj hevents).2, hlast (by simp)⟩
  | cons head quiet =>
    have hhead := hquiet head List.mem_cons_self
    rw [← (List.cons.inj hevents).1, hterminal] at hhead
    cases hhead

theorem count_terminal_le (h : Closed events state) : events.countP Event.isTerminal ≤ 1 := by
  obtain ⟨quiet, last, rfl, hquiet, -⟩ := h
  have hnone : quiet.countP Event.isTerminal = 0 := by
    rw [List.countP_eq_zero]
    intro event hevent
    rw [hquiet event hevent]
    exact Bool.false_ne_true
  have hlength : (Option.toList last).countP Event.isTerminal ≤ (Option.toList last).length :=
    List.countP_le_length
  have hone : (Option.toList last).length ≤ 1 := by cases last <;> simp
  rw [List.countP_append]
  omega

end Closed

namespace Processor

/-- What every request keeps. -/
structure Orderly (p : Processor) : Prop where
  closed : Closed p.events p.state
  wellFormed : p.memory.WellFormed

theorem orderly_new {memory : Memory} (h : memory.WellFormed) (count : Nat) :
    (Processor.new memory count).Orderly := ⟨Closed.nil _, h⟩

theorem closed_run (p : Processor) (entry : Nat) :
    Closed (p.run entry).events (p.run entry).state := by
  rcases Nat.lt_or_ge entry p.memory.capacity with hlt | hge
  · rw [run_of_lt hlt]
    exact Closed.nil _
  · rw [run_of_le hge]
    exact ⟨[], some _, rfl, by simp, fun _ => rfl⟩

/-- What a turn hands over and what waits after it close with at most one terminal event. -/
theorem closed_take {p : Processor} (h : Closed p.events p.state) (turn : Turn) :
    Closed ((p.take turn).1.toList.filterMap Reply.event? ++ (p.take turn).2.events)
      (p.take turn).2.state :=
  take_preserves (P := fun events now => Closed events now.2)
    (fun _ m tracing hnow => hnow.cycle m tracing) turn [] h

theorem Orderly.serve {p : Processor} (h : p.Orderly) (request : Request) :
    (p.serve request).Orderly := by
  refine ⟨?_, wellFormed_serve h.wellFormed request⟩
  cases request with
  | turn turn => exact (closed_take h.closed turn).suffix
  | run entry => exact p.closed_run entry
  | interrupt =>
    cases hstate : p.state with
    | halted =>
      rw [Processor.serve, interrupt_of_halted hstate]
      exact h.closed
    | running =>
      rw [Processor.serve, interrupt_of_running hstate]
      exact h.closed.halted
  | access | load | perform | replace => exact h.closed

theorem Orderly.serveAll {p : Processor} (h : p.Orderly) (requests : List Request) :
    (p.serveAll requests).Orderly := by
  induction requests generalizing p with
  | nil => exact h
  | cons request rest ih => exact ih (h.serve request)

end Processor

/-- The events of an undisturbed run so far: bursts, and a terminal event once it halts. -/
def Streams (events : List Event) (state : State) : Prop :=
  ∃ bursts last, events = List.flatten bursts ++ Option.toList last ∧
    (∀ burst ∈ bursts, Burst burst) ∧ (∀ event ∈ last, event.isTerminal = true) ∧
    (last ≠ none ↔ state = .halted)

theorem Streams.cycle {events : List Event} (h : Streams events .running) (m : Machine)
    (tracing : Bool) : Streams (events ++ (m.cycle tracing).events) (m.cycle tracing).state := by
  obtain ⟨bursts, none | terminal, rfl, hbursts, -, hrunning⟩ := h
  · obtain ⟨burst, last, hevents, hburst, hlast, hstate⟩ := m.cycle_shape tracing
    refine ⟨bursts ++ [burst], last, ?_, ?_, hlast, hstate⟩
    · simp [hevents]
    · intro b hb
      rcases List.mem_append.mp hb with hold | hnew
      · exact hbursts b hold
      · rwa [List.mem_singleton.mp hnew]
  · exact absurd (hrunning.mp (by simp)) (by simp)

/-- A run that has halted has reported one terminal event, as its last. -/
theorem Streams.exists_terminal {events : List Event} (h : Streams events .halted) :
    ∃ quiet last, events = quiet ++ [last] ∧ (∀ event ∈ quiet, event.isTerminal = false) ∧
      last.isTerminal = true := by
  obtain ⟨bursts, _ | last, hevents, hbursts, hlast, hhalted⟩ := h
  · exact absurd rfl (hhalted.mpr rfl)
  · refine ⟨bursts.flatten, last, hevents, fun event hevent => ?_, hlast last rfl⟩
    obtain ⟨burst, hburst, hmem⟩ := List.mem_flatten.mp hevent
    exact (hbursts burst hburst).isTerminal event hmem

namespace Processor

variable {p : Processor}

theorem streams_run (p : Processor) (entry : Nat) :
    Streams (p.run entry).events (p.run entry).state := by
  rcases Nat.lt_or_ge entry p.memory.capacity with hlt | hge
  · rw [run_of_lt hlt]
    exact ⟨[], none, rfl, by simp, by simp, by simp⟩
  · rw [run_of_le hge]
    exact ⟨[], some _, rfl, by simp, by simp [Event.isTerminal], by simp⟩

/-- No turn changes a machine that is halted, or adds to its events. -/
theorem takeAll_of_halted (h : p.state = .halted) (turns : List Turn) :
    p.received turns ++ (p.takeAll turns).2.events = p.events ∧
      ((p.takeAll turns).2.machine, (p.takeAll turns).2.state) = (p.machine, .halted) := by
  refine takeAll_preserves
    (P := fun events now => events = p.events ∧ now = (p.machine, .halted)) ?_ turns [] ?_
  · rintro before m tracing ⟨-, hnow⟩
    simp at hnow
  · exact ⟨rfl, by rw [h]⟩

/-- The replies of turns are the events received, then that nothing runs, and in between
that the processor is running. -/
theorem replies_shape (p : Processor) (turns : List Turn) :
    ∃ stops, (p.takeAll turns).1.filter (· ≠ .running) =
        (p.received turns).map .event ++ List.replicate stops .stopped ∧
      (stops ≠ 0 → (p.takeAll turns).2.Idle) := by
  induction turns generalizing p with
  | nil => exact ⟨0, rfl, fun h => absurd rfl h⟩
  | cons turn rest ih =>
    obtain ⟨stops, hshape, hidle⟩ := ih (p.take turn).2
    rcases hreply : (p.take turn).1 with _ | event | _ | _
    · exact ⟨stops, by simpa [takeAll, received_cons, hreply] using hshape, hidle⟩
    · refine ⟨stops, ?_, hidle⟩
      simpa [takeAll, received_cons, hreply, Reply.filterMap_event?_cons, Reply.event?] using hshape
    · refine ⟨stops, ?_, hidle⟩
      simpa [takeAll, received_cons, hreply, Reply.filterMap_event?_cons, Reply.event?] using hshape
    · -- from here on there is no event to receive
      have hnext : (p.take turn).2.Idle := (idle_of_take_stopped hreply).take turn
      have hnone : (p.take turn).2.received rest = [] := by
        have hall := (takeAll_of_halted hnext.2 rest).1
        rw [hnext.1] at hall
        exact (List.append_eq_nil_iff.mp hall).1
      refine ⟨stops + 1, ?_, fun _ => hnext.takeAll rest⟩
      rw [hnone] at hshape
      simpa [takeAll, received_cons, hreply, Reply.filterMap_event?_cons, Reply.event?, hnone,
        List.replicate_succ] using hshape

/-- Every turn that executes is replied to. -/
theorem length_takeAll (p : Processor) (turns : List Turn) :
    (p.takeAll turns).1.length = turns.countP Turn.isExecute := by
  induction turns generalizing p with
  | nil => rfl
  | cons turn rest ih =>
    cases turn <;> simp [takeAll, take, Turn.isExecute, ih, List.countP_cons]

theorem running_not_mem_of_halted (h : p.state = .halted) (turns : List Turn) :
    .running ∉ (p.takeAll turns).1 := by
  induction turns generalizing p with
  | nil => simp [takeAll]
  | cons turn rest ih =>
    have hnext : (p.take turn).2.state = .halted :=
      (Prod.mk.inj (takeAll_of_halted h [turn]).2).2
    intro hmem
    rcases List.mem_append.mp hmem with hfirst | hrest
    · cases turn with
      | execute budget =>
        obtain ⟨count, hserves⟩ := p.serves_execute budget
        have hreply : (p.execute budget).1 = .running := by simpa [take, eq_comm] using hfirst
        rw [hreply] at hserves
        have hrunning := hserves.of_running.2.2
        have hhalted : (p.execute budget).2.state = .halted := hnext
        rw [hhalted] at hrunning
        cases hrunning
      | step => simp [take] at hfirst
      | setTracing tracing => simp [take] at hfirst
    · exact ih hnext hrest

/-- A run that has halted hands over what it has reported, event by event, and then says
for ever that nothing runs. -/
theorem replies_of_halted {turns : List Turn} (h : (p.takeAll turns).2.state = .halted)
    (later : List Turn) :
    let replies := (p.takeAll (turns ++ later)).1.filter (· ≠ .running)
    replies <+: (p.received turns ++ (p.takeAll turns).2.events).map .event ++
        List.replicate replies.length .stopped ∧
      later.countP Turn.isExecute ≤ replies.length := by
  intro replies
  constructor
  · have hall : p.received (turns ++ later) ++ (p.takeAll (turns ++ later)).2.events =
        p.received turns ++ (p.takeAll turns).2.events := by
      have hlater := (takeAll_of_halted h later).1
      simp only [received, takeAll_append, List.filterMap_append, List.append_assoc] at hlater ⊢
      rw [hlater]
    obtain ⟨stops, hshape, hidle⟩ := p.replies_shape (turns ++ later)
    have hreplies : replies =
        (p.received (turns ++ later)).map .event ++ List.replicate stops .stopped := hshape
    rw [← hall, List.map_append]
    by_cases hstops : stops = 0
    · rw [hstops] at hreplies
      nth_rewrite 1 [hreplies]
      simp
    · have hlength : stops ≤ replies.length := by simp [hreplies]
      rw [(hidle hstops).1]
      nth_rewrite 1 [hreplies]
      simpa [List.prefix_append_right_inj, List.prefix_replicate_iff] using hlength
  · have hrunning := running_not_mem_of_halted h later
    have hkept : ((p.takeAll turns).2.takeAll later).1.filter (· ≠ .running) =
        ((p.takeAll turns).2.takeAll later).1 :=
      List.filter_eq_self.mpr fun reply hreply => by
        simpa using fun heq : reply = .running => hrunning (heq ▸ hreply)
    have hlength := (p.takeAll turns).2.length_takeAll later
    simp only [replies, takeAll_append, List.filter_append, hkept, List.length_append]
    omega

theorem execute_of_events {event : Event} {rest : List Event} (h : p.events = event :: rest)
    (budget : Nat) : p.execute budget = (.event event, { p with events := rest }) := by
  unfold execute replyWithin
  simp only [h]

/-- That the processor is running does not come out of the queue. -/
theorem events_of_execute_running {budget : Nat} (h : (p.execute budget).1 = .running) :
    p.events = [] ∧ (p.execute budget).2.events = [] ∧ (p.execute budget).2.state = .running := by
  refine ⟨?_, ?_⟩
  · cases hevents : p.events with
    | nil => rfl
    | cons event rest =>
      rw [execute_of_events hevents] at h
      cases h
  · obtain ⟨count, hserves⟩ := p.serves_execute budget
    rw [h] at hserves
    exact hserves.of_running.2

/-- Nor does it come out of the queue that nothing runs. -/
theorem events_of_execute_stopped {budget : Nat} (h : (p.execute budget).1 = .stopped) :
    p.events = [] ∧ p.state = .halted ∧ (p.execute budget).2 = p := by
  have hidle := idle_of_execute_stopped h
  exact ⟨hidle.1, hidle.2, congrArg Prod.snd (execute_of_idle hidle budget)⟩

/-- A step that finds an instruction reports the instruction, a line and a fault in this
order, each of them at most once. -/
theorem step_of_slot {fetched : Instruction} (hstate : p.state = .running)
    (hslot : p.memory.slots[p.memory.cursor]? = some (some fetched)) :
    ∃ printed : Option String,
      (p.step.events = p.events ++ ((if p.tracing then [.trace p.memory.cursor fetched] else []) ++
          printed.toList.map .print) ∧ p.step.state = .running) ∨
      ∃ fault, p.step.events =
          p.events ++ ((if p.tracing then [.trace p.memory.cursor fetched] else []) ++
            printed.toList.map .print ++ [.fault fault]) ∧ p.step.state = .halted := by
  obtain ⟨line, hprinted⟩ := (p.machine.advanced.outcomeAfter_execute fetched).printed
  have hreported : p.machine.reported p.tracing fetched =
      (if p.tracing then [.trace p.memory.cursor fetched] else []) ++ line.toList.map .print := by
    rw [Machine.reported, hprinted]
    rfl
  refine ⟨line, ?_⟩
  rw [step_of_running hstate, ← hreported]
  rcases Machine.cycle_of_slot hslot with ⟨_, -, hcycle⟩ | ⟨fault, -, hcycle⟩
  · rw [hcycle]
    exact Or.inl ⟨rfl, rfl⟩
  · rw [hcycle]
    exact Or.inr ⟨_, rfl, rfl⟩

theorem step_of_exhausted (hstate : p.state = .running) (h : p.machine.Exhausted) :
    p.step.events = p.events ++ [.finished] ∧ p.step.state = .halted := by
  rw [step_of_running hstate, Machine.cycle_of_exhausted h]
  exact ⟨rfl, rfl⟩

theorem step_finished_iff (hstate : p.state = .running) :
    (p.step.events = p.events ++ [.finished] ∧ p.step.state = .halted) ↔ p.machine.Exhausted := by
  refine ⟨fun ⟨hevents, hhalted⟩ => ?_, step_of_exhausted hstate⟩
  rcases p.machine.exhausted_or_slot with hexhausted | ⟨fetched, hslot⟩
  · exact hexhausted
  · obtain ⟨printed, ⟨-, hrunning⟩ | ⟨fault, hfault, -⟩⟩ := step_of_slot hstate hslot
    · rw [hhalted] at hrunning
      cases hrunning
    · -- the last event cannot be both
      rw [hevents] at hfault
      have hlast := congrArg List.getLast? hfault
      simp at hlast

theorem Orderly.exhausted_iff (h : p.Orderly) :
    p.machine.Exhausted ↔
      p.memory.cursor = p.memory.capacity ∨ p.memory.slots[p.memory.cursor]? = some none :=
  or_congr_left ⟨fun hge => Nat.le_antisymm h.wellFormed hge, fun heq => Nat.le_of_eq heq.symm⟩

/-- What an undisturbed run that has halted has reported, taken and waiting together. -/
theorem exists_stream_of_halted {entry : Nat} {turns : List Turn}
    (h : ((p.run entry).takeAll turns).2.state = .halted) :
    ∃ (bursts : List (List Event)) (last : Event),
      (∀ burst ∈ bursts, Burst burst) ∧ last.isTerminal = true ∧
      (p.run entry).received turns ++ ((p.run entry).takeAll turns).2.events =
        bursts.flatten ++ [last] := by
  have hstreams := takeAll_preserves (P := fun events now => Streams events now.2)
    (fun _ m tracing hnow => hnow.cycle m tracing) turns [] (p.streams_run entry)
  obtain ⟨bursts, _ | last, hevents, hbursts, hlast, hhalted⟩ := hstreams
  · exact absurd rfl (hhalted.mpr h)
  · exact ⟨bursts, last, hbursts, hlast last rfl, hevents⟩

/-- Whatever a host has done to a processor, its queue holds at most one terminal event,
as the last, and then nothing runs. What waits is handed over in order, and a host is told
that the processor is running, or that nothing runs, only if nothing waits. A step of a
running processor finds no more instructions exactly at the end of the memory or on an empty
slot, and says only that; else it reports the instruction if it is traced, at most one line,
and a fault if it halts. An undisturbed run that has halted hands over such bursts, one
terminal event, and then that nothing runs, for ever. A halted machine is not changed by
turns. -/
theorem events_follow_protocol (memory : Memory) (count : Nat) (requests : List Request)
    (hmemory : memory.cursor ≤ memory.capacity) :
    let p := (Processor.new memory count).serveAll requests
    ((∀ before event after, p.events = before ++ event :: after → event.isTerminal = true →
        after = [] ∧ p.state = .halted) ∧
      p.events.countP Event.isTerminal ≤ 1) ∧
    (∀ budget,
      (∀ event rest, p.events = event :: rest →
        p.execute budget = (.event event, { p with events := rest })) ∧
      ((p.execute budget).1 = .running →
        p.events = [] ∧ (p.execute budget).2.events = [] ∧
          (p.execute budget).2.state = .running) ∧
      ((p.execute budget).1 = .stopped →
        p.events = [] ∧ p.state = .halted ∧ (p.execute budget).2 = p)) ∧
    (p.state = .running →
      ((p.step.events = p.events ++ [.finished] ∧ p.step.state = .halted) ↔
        (p.memory.cursor = p.memory.capacity ∨ p.memory.slots[p.memory.cursor]? = some none)) ∧
      (∀ fetched, p.memory.slots[p.memory.cursor]? = some (some fetched) →
        ∃ printed : Option String,
          (p.step.events =
              p.events ++ ((if p.tracing then [.trace p.memory.cursor fetched] else []) ++
                printed.toList.map .print) ∧ p.step.state = .running) ∨
          ∃ fault, p.step.events =
              p.events ++ ((if p.tracing then [.trace p.memory.cursor fetched] else []) ++
                printed.toList.map .print ++ [.fault fault]) ∧ p.step.state = .halted) ∧
      ((p.memory.cursor = p.memory.capacity ∨ p.memory.slots[p.memory.cursor]? = some none) ∨
        ∃ fetched, p.memory.slots[p.memory.cursor]? = some (some fetched))) ∧
    (∀ (entry : Nat) (turns : List Turn), ((p.run entry).takeAll turns).2.state = .halted →
      ∃ (bursts : List (List Event)) (last : Event),
        (∀ burst ∈ bursts, Burst burst) ∧ last.isTerminal = true ∧
        ∀ later : List Turn,
          let replies := ((p.run entry).takeAll (turns ++ later)).1.filter (· ≠ .running)
          replies <+: (bursts.flatten ++ [last]).map .event ++
              List.replicate replies.length .stopped ∧
            later.countP Turn.isExecute ≤ replies.length) ∧
    (p.state = .halted → ∀ turns : List Turn,
      (p.takeAll turns).2.machine = p.machine ∧ (p.takeAll turns).2.state = .halted) := by
  intro p
  have horderly : p.Orderly := (orderly_new hmemory count).serveAll requests
  refine ⟨⟨?_, ?_⟩, ?_, ?_, ?_, ?_⟩
  · intro before event after hevents hterminal
    exact horderly.closed.terminal_last hevents hterminal
  · exact horderly.closed.count_terminal_le
  · intro budget
    exact ⟨fun event rest hevents => execute_of_events hevents budget,
      events_of_execute_running, events_of_execute_stopped⟩
  · intro hstate
    refine ⟨?_, fun fetched hslot => step_of_slot hstate hslot, ?_⟩
    · rw [step_finished_iff hstate, horderly.exhausted_iff]
    · rw [← horderly.exhausted_iff]
      exact p.machine.exhausted_or_slot
  · intro entry turns hhalted
    obtain ⟨bursts, last, hbursts, hlast, hevents⟩ := exists_stream_of_halted hhalted
    refine ⟨bursts, last, hbursts, hlast, fun later => ?_⟩
    rw [← hevents]
    exact replies_of_halted hhalted later
  · intro hstate turns
    exact Prod.mk.inj (takeAll_of_halted hstate turns).2

/-- Executing the get prints a line before the register of the get turns out not to exist. -/
def lateFault : Memory := ⟨#[some (.get 1 5), some (.print 0 ⟨"x"⟩), none], 0⟩

/-- Two steps pile up events, of which the host takes one, then it interrupts and edits. -/
def pileUp : List Request :=
  [.run 0, .turn .step, .turn .step, .turn (.execute 0), .interrupt, .access (.seek 2)]

theorem protocol_of_lateFault :
    let fault : Fault := (Registers.outOfBounds 5).locate 0
    let piled := (Processor.new lateFault 1).serveAll pileUp
    let restarted := piled.serveAll [.run 0]
    let moved := restarted.serveAll [.access (.seek 2)]
    (lateFault.cursor ≤ lateFault.capacity ∧ piled.events = [.print "x"] ++ [.fault fault] ∧
      piled.state = .halted ∧ (piled.execute 2).1 = .event (.print "x") ∧
      (piled.takeAll [.step, .execute 3]).2.machine = piled.machine) ∧
    (restarted.state = .running ∧ restarted.memory.slots[0]? = some (some (.get 1 5)) ∧
      restarted.step.events = [.trace 0 (.get 1 5), .print "x", .fault fault] ∧
      ∃ printed : Option String,
        (restarted.step.events = [.trace 0 (.get 1 5)] ++ printed.toList.map .print ∧
          restarted.step.state = .running) ∨
        ∃ fault, restarted.step.events =
            [.trace 0 (.get 1 5)] ++ printed.toList.map .print ++ [.fault fault] ∧
          restarted.step.state = .halted) ∧
    (moved.state = .running ∧ moved.memory.slots[2]? = some none ∧
      moved.step.events = [.finished] ∧ moved.step.state = .halted) ∧
    ((restarted.takeAll [.execute 1]).2.state = .halted ∧
      ∃ (bursts : List (List Event)) (last : Event),
        (∀ burst ∈ bursts, Burst burst) ∧ last.isTerminal = true ∧
        [.event (.trace 0 (.get 1 5)), .event (.print "x"), .event (.fault fault), .stopped,
          .stopped] <+:
            (bursts.flatten ++ [last]).map Reply.event ++ List.replicate 5 .stopped) := by
  intro fault piled restarted moved
  obtain ⟨⟨hterminal, -⟩, hanswers, -, hstream, hkept⟩ :=
    events_follow_protocol lateFault 1 pileUp (by decide)
  obtain ⟨-, -, hstep, -⟩ := events_follow_protocol lateFault 1 (pileUp ++ [.run 0]) (by decide)
  obtain ⟨-, -, hfinish, -⟩ :=
    events_follow_protocol lateFault 1 (pileUp ++ [.run 0, .access (.seek 2)]) (by decide)
  have hpiled : piled.events = [.print "x"] ++ [.fault fault] := by decide +kernel
  have hhalted : (restarted.takeAll [.execute 1]).2.state = .halted := by decide +kernel
  have hstate : piled.state = .halted := (hterminal _ _ _ hpiled rfl).2
  have hfirst : (piled.execute 2).1 = .event (.print "x") :=
    congrArg Prod.fst ((hanswers 2).1 _ _ hpiled)
  refine ⟨⟨by decide, hpiled, hstate, hfirst, (hkept hstate _).1⟩, ?_, ?_, hhalted, ?_⟩
  · have hrunning : restarted.state = .running := by decide +kernel
    have hslot : restarted.memory.slots[0]? = some (some (.get 1 5)) := by decide +kernel
    exact ⟨hrunning, hslot, by decide +kernel, (hstep hrunning).2.1 _ hslot⟩
  · have hrunning : moved.state = .running := by decide +kernel
    have hempty : moved.memory.slots[2]? = some none := by decide +kernel
    exact ⟨hrunning, hempty, (hfinish hrunning).1.mpr (Or.inr hempty)⟩
  · obtain ⟨bursts, last, hbursts, hlast, hreplies⟩ := hstream 0 [.execute 1] hhalted
    have hall : (restarted.takeAll (List.replicate 5 (.execute 1))).1.filter (· ≠ .running) =
        [.event (.trace 0 (.get 1 5)), .event (.print "x"), .event (.fault fault), .stopped,
          .stopped] := by
      decide +kernel
    have htaken := (hreplies (List.replicate 4 (.execute 1))).1
    exact ⟨bursts, last, hbursts, hlast, hall ▸ htaken⟩

end Processor

end StoredProgram
