import Mathlib.Data.List.Basic
import StoredProgram.CommandLine.Session
import StoredProgram.Proofs.EventStream

/-!
How a host schedules a run cannot be told from what the program does. Two hosts that
start the same run and go on until nothing runs find the same machine at the end and
have received the same events but for traces, whatever their budgets and whenever they
switched tracing. So a session leaves the same transcript for every cycle budget, and
without tracing its output lacks the lines of the traces and nothing else.
-/
namespace StoredProgram

namespace Cycles

variable {tracing : Bool} {a b : Nat} {start middle last : Machine × State} {m m' : Machine}
variable {events events' first : List Event}

/-- Cycles up to a halt go on from wherever other cycles from the same start have led. -/
theorem split_of_halted (h : Cycles tracing b start first middle)
    (hall : Cycles tracing a start events (m, .halted)) :
    ∃ c rest, a = b + c ∧ events = first ++ rest ∧ Cycles tracing c middle rest (m, .halted) := by
  induction h generalizing a events with
  | nil start => exact ⟨a, events, (Nat.zero_add a).symm, rfl, hall⟩
  | cons hrest ih =>
    cases hall with
    | cons hall =>
      obtain ⟨c, rest, rfl, rfl, hlast⟩ := ih hall
      exact ⟨c, rest, Nat.add_right_comm .., (List.append_assoc ..).symm, hlast⟩

theorem halted_unique (h : Cycles tracing a start events (m, .halted))
    (h' : Cycles tracing b start events' (m', .halted)) : events = events' ∧ m = m' := by
  obtain ⟨c, rest, -, hevents, hrest⟩ := h'.split_of_halted h
  obtain ⟨-, rfl, hlast⟩ := hrest.of_halted
  rw [List.append_nil] at hevents
  exact ⟨hevents, (Prod.mk.inj hlast).1⟩

end Cycles

/-- Untraced cycles lead from the start to where the machine is, and the events so far are
theirs, those before them and traces. -/
def Retraces (start : Machine × State) (before events : List Event) (now : Machine × State) :
    Prop :=
  ∃ count silent, Cycles false count start silent now ∧ visible events = before ++ silent

theorem Retraces.cycle {start : Machine × State} {before events : List Event} {m : Machine}
    (h : Retraces start before events (m, .running)) (tracing : Bool) :
    Retraces start before (events ++ (m.cycle tracing).events)
      ((m.cycle tracing).machine, (m.cycle tracing).state) := by
  obtain ⟨count, silent, hcycles, hvisible⟩ := h
  have hnext := hcycles.append (Cycles.single false m)
  rw [m.cycle_untraced tracing] at hnext
  refine ⟨count + 1, _, hnext, ?_⟩
  rw [visible_append, hvisible, List.append_assoc]

namespace Processor

variable {p p' : Processor}

theorem retraces_takeAll (p : Processor) (turns : List Turn) :
    Retraces (p.machine, p.state) (visible p.events)
      (p.received turns ++ (p.takeAll turns).2.events)
      ((p.takeAll turns).2.machine, (p.takeAll turns).2.state) := by
  have hstart : Retraces (p.machine, p.state) (visible p.events) ([] ++ p.events)
      (p.machine, p.state) := ⟨0, [], Cycles.nil _, (List.append_nil _).symm⟩
  exact takeAll_preserves (fun _ _ tracing h => h.cycle tracing) turns [] hstart

/-- Turns until nothing runs are cycles up to a halt, of which all events were received. -/
theorem cycles_of_stopped {turns : List Turn} (h : .stopped ∈ (p.takeAll turns).1) :
    (p.takeAll turns).2.state = .halted ∧
      ∃ count silent, Cycles false count (p.machine, p.state) silent
          ((p.takeAll turns).2.machine, .halted) ∧
        visible (p.received turns) = visible p.events ++ silent := by
  obtain ⟨hevents, hstate⟩ := idle_of_stopped_mem h
  obtain ⟨count, silent, hcycles, hvisible⟩ := p.retraces_takeAll turns
  rw [hstate] at hcycles
  rw [hevents, List.append_nil] at hvisible
  exact ⟨hstate, count, silent, hcycles, hvisible⟩

theorem run_congr (hmemory : p.memory = p'.memory)
    (hcount : p.registers.count = p'.registers.count) (entry : Nat) :
    (p.run entry).machine = (p'.run entry).machine ∧
      (p.run entry).state = (p'.run entry).state ∧
      (p.run entry).events = (p'.run entry).events := by
  have hcleared : p.registers.cleared = p'.registers.cleared := by
    rw [Registers.cleared, Registers.cleared, hcount]
  rcases Nat.lt_or_ge entry p.memory.capacity with hlt | hge
  · rw [run_of_lt hlt, run_of_lt (hmemory ▸ hlt), hmemory, hcleared]
    exact ⟨rfl, rfl, rfl⟩
  · rw [run_of_le hge, run_of_le (hmemory ▸ hge), hmemory, hcleared]
    exact ⟨rfl, rfl, rfl⟩

theorem run_setTracing (p : Processor) (entry : Nat) (tracing : Bool) :
    (p.setTracing tracing).run entry = (p.run entry).setTracing tracing := by
  rcases Nat.lt_or_ge entry p.memory.capacity with hlt | hge
  · rw [run_of_lt hlt]
    exact run_of_lt hlt
  · rw [run_of_le hge]
    exact run_of_le hge

/-- The processor comes to a halt, and `q` is what it is then if no event was taken. -/
def HaltsAs (p q : Processor) : Prop := q.state = .halted ∧ ∃ count, step^[count] p = q

theorem iterate_step_of_halted (h : p.state = .halted) (count : Nat) : step^[count] p = p :=
  Function.iterate_fixed (step_of_halted h) count

theorem HaltsAs.unique {q q' : Processor} (h : p.HaltsAs q) (h' : p.HaltsAs q') : q = q' := by
  obtain ⟨hhalted, count, rfl⟩ := h
  obtain ⟨hhalted', count', rfl⟩ := h'
  rcases Nat.le_total count count' with hle | hle
  · rw [← Nat.sub_add_cancel hle, Function.iterate_add_apply, iterate_step_of_halted hhalted]
  · rw [← Nat.sub_add_cancel hle, Function.iterate_add_apply, iterate_step_of_halted hhalted']

/-- The processor with events that wait before its own. -/
def queue (before : List Event) (p : Processor) : Processor :=
  { p with events := before ++ p.events }

/-- The processor without tracing and without traces. -/
def untraced (p : Processor) : Processor :=
  { p with tracing := false, events := visible p.events }

/-- Steps add to the queue, whatever waits in it. -/
theorem iterate_step_queue (before : List Event) (p : Processor) (count : Nat) :
    step^[count] (p.queue before) = (step^[count] p).queue before := by
  have hstep : Function.Semiconj (queue before) step step := by
    intro q
    cases hstate : q.state with
    | halted => rw [step_of_halted hstate, step_of_halted (p := q.queue before) hstate]
    | running =>
      rw [step_of_running hstate, step_of_running (p := q.queue before) hstate]
      simp only [queue, List.append_assoc]
  exact ((hstep.iterate_right count).eq p).symm

/-- Without tracing the same steps are made, and all that is missing are the traces. -/
theorem iterate_step_untraced (p : Processor) (count : Nat) :
    step^[count] p.untraced = (step^[count] p).untraced := by
  have hstep : Function.Semiconj untraced step step := by
    intro q
    cases hstate : q.state with
    | halted => rw [step_of_halted hstate, step_of_halted (p := q.untraced) hstate]
    | running =>
      rw [step_of_running hstate, step_of_running (p := q.untraced) hstate]
      simp only [untraced, visible_append, q.machine.cycle_untraced q.tracing]
  exact ((hstep.iterate_right count).eq p).symm

theorem haltsAs_untraced_iff {q : Processor} :
    p.untraced.HaltsAs q ↔ ∃ traced, p.HaltsAs traced ∧ q = traced.untraced := by
  constructor
  · rintro ⟨hhalted, count, rfl⟩
    rw [iterate_step_untraced] at hhalted ⊢
    exact ⟨step^[count] p, ⟨hhalted, count, rfl⟩, rfl⟩
  · rintro ⟨_, ⟨hhalted, count, rfl⟩, rfl⟩
    exact ⟨hhalted, count, p.iterate_step_untraced count⟩

/-- As many steps as there were cycles lead to where a reply leads, with the event that was
handed over still in the queue. -/
theorem Serves.iterate_step {budget count : Nat} {reply : Reply} {next : Processor}
    (h : Serves budget p count reply next) :
    Processor.step^[count] p = next.queue reply.event?.toList := by
  induction h with
  | waiting hevents =>
    simp only [Function.iterate_zero_apply, queue, Reply.event?, Option.toList_some,
      List.singleton_append, ← hevents]
  | halted | exhausted => rfl
  | cycle hevents hstate hrest ih => rw [Function.iterate_succ_apply, ih]

theorem log_prefix_step (p : Processor) : p.log.toList <+: p.step.log.toList := by
  cases hstate : p.state with
  | halted => exact ⟨[], by rw [step_of_halted hstate, List.append_nil]⟩
  | running =>
    rw [step_of_running hstate, Array.toList_appendList]
    exact List.prefix_append _ _

/-- What was logged stays. -/
theorem log_prefix_iterate_step (p : Processor) (count : Nat) :
    p.log.toList <+: (step^[count] p).log.toList := by
  induction count with
  | zero => exact List.prefix_rfl
  | succ count ih =>
    rw [Function.iterate_succ_apply']
    exact ih.trans (step^[count] p).log_prefix_step

theorem log_prefix_execute (p : Processor) (budget : Nat) :
    p.log.toList <+: (p.execute budget).2.log.toList := by
  obtain ⟨count, hserves⟩ := p.serves_execute budget
  have hearlier := p.log_prefix_iterate_step count
  rw [hserves.iterate_step] at hearlier
  exact hearlier

/-- A run that has just started has no traces. -/
theorem setTracing_run (p : Processor) (entry : Nat) :
    (p.run entry).setTracing false = (p.run entry).untraced := by
  rcases Nat.lt_or_ge entry p.memory.capacity with hlt | hge
  · rw [run_of_lt hlt]
    rfl
  · rw [run_of_le hge]
    rfl

theorem collect_of_stopped {cycles : Nat} (h : (p.execute cycles).1 = .stopped) (count : Nat)
    (replies : List Reply) :
    collect cycles (count + 1) replies p =
      ((.stopped :: replies).reverse, (p.execute cycles).2) := by
  rcases hexecute : p.execute cycles with ⟨reply, next⟩
  rw [hexecute] at h
  subst h
  simp only [collect, hexecute]

theorem collect_of_ne_stopped {cycles : Nat} (h : (p.execute cycles).1 ≠ .stopped) (count : Nat)
    (replies : List Reply) :
    collect cycles (count + 1) replies p =
      collect cycles count ((p.execute cycles).1 :: replies) (p.execute cycles).2 := by
  rcases hexecute : p.execute cycles with ⟨_ | _ | _, next⟩
  · simp only [collect, hexecute]
  · simp only [collect, hexecute]
  · simp [hexecute] at h

theorem collect_eq (cycles count : Nat) (replies : List Reply) (p : Processor) :
    collect cycles count replies p =
      (replies.reverse ++ (p.drain cycles count).1, (p.drain cycles count).2) := by
  unfold drain
  induction count generalizing replies p with
  | zero => simp [collect]
  | succ count ih =>
    by_cases hreply : (p.execute cycles).1 = .stopped
    · simp [collect_of_stopped hreply]
    · rw [collect_of_ne_stopped hreply, collect_of_ne_stopped hreply, ih, ih [_]]
      simp

theorem drain_of_stopped {cycles : Nat} (h : (p.execute cycles).1 = .stopped) (count : Nat) :
    p.drain cycles (count + 1) = ([.stopped], (p.execute cycles).2) :=
  collect_of_stopped h count []

theorem drain_of_ne_stopped {cycles : Nat} (h : (p.execute cycles).1 ≠ .stopped) (count : Nat) :
    p.drain cycles (count + 1) =
      ((p.execute cycles).1 :: ((p.execute cycles).2.drain cycles count).1,
        ((p.execute cycles).2.drain cycles count).2) := by
  rw [drain, collect_of_ne_stopped h, collect_eq]
  rfl

theorem getLast?_drain_of_ne_stopped {cycles : Nat} (h : (p.execute cycles).1 ≠ .stopped)
    (count : Nat) :
    (p.drain cycles (count + 1)).1.getLast? = some .stopped ↔
      ((p.execute cycles).2.drain cycles count).1.getLast? = some .stopped := by
  rw [drain_of_ne_stopped h]
  cases ((p.execute cycles).2.drain cycles count).1 with
  | nil => simp [h]
  | cons reply rest => rw [List.getLast?_cons_cons]

/-- A drain that ends because nothing runs has delivered what waited and all that came. -/
theorem haltsAs_of_drain {cycles count : Nat}
    (h : (p.drain cycles count).1.getLast? = some .stopped) :
    ∃ q, p.HaltsAs q ∧ (p.drain cycles count).1.filterMap Reply.event? = q.events ∧
      (p.drain cycles count).2 = { q with events := [] } := by
  induction count generalizing p with
  | zero => simp [drain, collect] at h
  | succ count ih =>
    by_cases hreply : (p.execute cycles).1 = .stopped
    · have hidle := idle_of_execute_stopped hreply
      rw [drain_of_stopped hreply, execute_of_idle hidle, ← hidle.1]
      exact ⟨p, ⟨hidle.2, 0, rfl⟩, hidle.1.symm, rfl⟩
    · obtain ⟨j, hserves⟩ := p.serves_execute cycles
      obtain ⟨q, ⟨hhalted, k, hsteps⟩, hdelivered, hdrained⟩ :=
        ih ((getLast?_drain_of_ne_stopped hreply count).mp h)
      refine ⟨q.queue (p.execute cycles).1.event?.toList, ⟨hhalted, k + j, ?_⟩, ?_, ?_⟩
      · rw [Function.iterate_add_apply, hserves.iterate_step, iterate_step_queue, hsteps]
      · rw [drain_of_ne_stopped hreply, Reply.filterMap_event?_cons, hdelivered]
        rfl
      · rw [drain_of_ne_stopped hreply]
        exact hdrained

/-- Whatever the budget, a processor that comes to a halt is drained some time. Each reply
uses up an event or at least one cycle. -/
theorem drain_of_haltsAs {q : Processor} (h : p.HaltsAs q) (cycles : Nat) :
    ∃ count, (p.drain cycles count).1.getLast? = some .stopped := by
  obtain ⟨hhalted, k, rfl⟩ := h
  induction hsize : k + (step^[k] p).events.length using Nat.strongRecOn generalizing p k with
  | ind size ih =>
    by_cases hreply : (p.execute cycles).1 = .stopped
    · exact ⟨1, by rw [drain_of_stopped hreply]; rfl⟩
    · obtain ⟨j, hserves⟩ := p.serves_execute cycles
      -- the cycles of the reply are among the first of the run
      have hle : j ≤ k := by
        by_contra hlt
        have hrunning := (hserves.idle k (Nat.not_le.mp hlt)).2
        rw [hhalted] at hrunning
        cases hrunning
      have hsteps : step^[k] p =
          (step^[k - j] (p.execute cycles).2).queue (p.execute cycles).1.event?.toList := by
        rw [← iterate_step_queue, ← hserves.iterate_step, ← Function.iterate_add_apply,
          Nat.sub_add_cancel hle]
      rw [hsteps] at hhalted hsize
      simp only [queue, List.length_append] at hsize
      have hless : k - j + (step^[k - j] (p.execute cycles).2).events.length < size := by
        cases hcase : (p.execute cycles).1 with
        | event event =>
          rw [hcase] at hsize
          simp only [Reply.event?, Option.toList_some, List.length_singleton] at hsize
          omega
        | running =>
          rw [hcase] at hserves
          have hbudget := hserves.of_running.1
          omega
        | stopped => exact absurd hcase hreply
      obtain ⟨count, hcount⟩ := ih _ hless (k - j) hhalted rfl
      exact ⟨count + 1, (getLast?_drain_of_ne_stopped hreply count).mpr hcount⟩

end Processor

namespace CommandLine

variable {host : Host} {o : Options} {source : Option ByteArray} {p : Processor}

theorem Host.logText_append (host : Host) (o : Options) (start : Nat) (first second : List Record) :
    host.logText o start (first ++ second) =
      host.logText o start first ++ host.logText o (start + first.length) second := by
  simp only [logText, List.zipIdx_append, List.map_append, String.join_append]

/-- What is logged later comes after a complaint, unless there is no complaint or nothing is
logged later. -/
theorem Host.logText_split (host : Host) (o : Options) {written : Nat} {earlier later : List Record}
    {complaint : String} (hwritten : written ≤ earlier.length) (h : complaint = "" ∨ later = [])
    (rest : String) :
    host.logText o written ((earlier ++ later).drop written) ++ (complaint ++ rest) =
      host.logText o written (earlier.drop written) ++ (complaint ++
        (host.logText o earlier.length ((earlier ++ later).drop earlier.length) ++ rest)) := by
  rw [List.drop_append_of_le_length hwritten, List.drop_left, logText_append, List.length_drop,
    Nat.add_sub_cancel' hwritten]
  rcases h with rfl | rfl
  · simp only [String.empty_append, String.append_assoc]
  · simp only [logText, List.zipIdx_nil, List.map_nil, String.join_nil, String.append_empty,
      String.empty_append]

/-- A session that ends leaves the transcript behind. -/
def Leaves (host : Host) (o : Options) (source : Option ByteArray) (t : Transcript) : Prop :=
  ∃ count, transcript? host o source count = some t

def outLines (events : List Event) : String :=
  String.join (events.map fun event => outText (.event event))

def errLines (events : List Event) : String :=
  String.join (events.map fun event => errText (.event event))

/-- The transcript of a session with a processor that comes to a halt. -/
def Transcript.ofHalted (host : Host) (o : Options) (q : Processor) : Transcript :=
  ⟨0, outLines q.events ++ farewell, host.logText o 0 q.log.toList ++ errLines q.events⟩

/-- A text that only events add to can do without the other replies. -/
theorem join_events (text : Reply → String) (hrunning : text .running = "")
    (hstopped : text .stopped = "") (replies : List Reply) :
    String.join (replies.map text) =
      String.join ((replies.filterMap Reply.event?).map fun event => text (.event event)) := by
  induction replies with
  | nil => rfl
  | cons reply rest ih =>
    rw [Reply.filterMap_event?_cons, List.map_cons, String.join_cons, List.map_append,
      String.join_append, ih]
    cases reply <;> simp [Reply.event?, hrunning, hstopped]

theorem errLines_visible (events : List Event) : errLines (visible events) = errLines events := by
  induction events with
  | nil => rfl
  | cons event rest ih =>
    cases event <;> simp_all [errLines, visible, Event.isTrace, errText]

/-- What is logged while a processor is drained, which is nothing if it is idle. -/
theorem log_of_drain {cycles count : Nat} (h : (p.drain cycles count).1.getLast? = some .stopped) :
    ∃ more, (p.drain cycles count).2.log.toList = p.log.toList ++ more ∧ (p.Idle → more = []) := by
  obtain ⟨q, ⟨-, k, rfl⟩, -, hdrained⟩ := Processor.haltsAs_of_drain h
  obtain ⟨more, hmore⟩ := p.log_prefix_iterate_step k
  refine ⟨more, by rw [hdrained, hmore], fun hidle => ?_⟩
  rw [Processor.iterate_step_of_halted hidle.2] at hmore
  exact List.append_right_eq_self.mp hmore

theorem toList_extract_log (p : Processor) (written : Nat) :
    (p.log.extract written).toList = p.log.toList.drop written := by
  rw [Array.toList_extract, List.extract_eq_take_drop, List.take_of_length_le]
  simp

theorem relay_of_stopped (h : (p.execute o.cycleCount).1 = .stopped) (count written : Nat)
    (t : Transcript) :
    relay host o (count + 1) written t p =
      some { t with
        out := t.out ++ farewell
        err := t.err ++ host.logText o written (p.log.toList.drop written) } := by
  rw [relay, Processor.execute_of_idle (Processor.idle_of_execute_stopped h)]
  simp only [toList_extract_log, outText, errText, String.append_empty]

theorem relay_of_ne_stopped (h : (p.execute o.cycleCount).1 ≠ .stopped) (count written : Nat)
    (t : Transcript) :
    relay host o (count + 1) written t p =
      relay host o count (p.execute o.cycleCount).2.log.size
        { t with
          out := t.out ++ outText (p.execute o.cycleCount).1
          err := t.err ++ host.logText o written
            ((p.execute o.cycleCount).2.log.toList.drop written) ++
              errText (p.execute o.cycleCount).1 }
        (p.execute o.cycleCount).2 := by
  rcases hexecute : p.execute o.cycleCount with ⟨_ | _ | _, next⟩
  · simp only [relay, hexecute, toList_extract_log]
  · simp only [relay, hexecute, toList_extract_log]
  · simp [hexecute] at h

/-- Nothing comes after a reply that is a complaint: it is the last event of its run. -/
theorem errText_eq_empty_or_idle (hclosed : Closed p.events p.state) (budget : Nat) :
    errText (p.execute budget).1 = "" ∨ (p.execute budget).2.Idle := by
  have hafter := Processor.closed_take hclosed (.execute budget)
  simp only [Processor.take, Option.toList_some, Reply.filterMap_event?_cons, List.filterMap_nil,
    List.append_nil] at hafter
  rcases hreply : (p.execute budget).1 with (_ | _ | _ | _) | _ | _
  case event.fault =>
    rw [hreply] at hafter
    exact Or.inr (hafter.terminal_last (List.nil_append _).symm rfl)
  all_goals exact Or.inl rfl

/-- What is relayed are the replies up to the one that nothing runs, and the log as it is then.
A complaint comes after all of the log. -/
theorem relay_eq (hclosed : Closed p.events p.state) {written : Nat}
    (hwritten : written ≤ p.log.size) (count : Nat) (t : Transcript) :
    relay host o count written t p =
      if (p.drain o.cycleCount count).1.getLast? = some .stopped then
        some { t with
          out := t.out ++ String.join ((p.drain o.cycleCount count).1.map outText) ++ farewell
          err := t.err ++
            host.logText o written ((p.drain o.cycleCount count).2.log.toList.drop written) ++
              String.join ((p.drain o.cycleCount count).1.map errText) }
      else none := by
  induction count generalizing p written t with
  | zero => rfl
  | succ count ih =>
    by_cases hreply : (p.execute o.cycleCount).1 = .stopped
    · rw [relay_of_stopped hreply, Processor.drain_of_stopped hreply,
        Processor.execute_of_idle (Processor.idle_of_execute_stopped hreply)]
      simp [outText, errText]
    · have hlength : p.log.size ≤ (p.execute o.cycleCount).2.log.toList.length :=
        (p.log_prefix_execute o.cycleCount).length_le
      have hcomplaint := errText_eq_empty_or_idle hclosed o.cycleCount
      have hlater : Closed (p.execute o.cycleCount).2.events (p.execute o.cycleCount).2.state :=
        (Processor.closed_take hclosed (.execute o.cycleCount)).suffix
      simp only [relay_of_ne_stopped hreply, ih hlater (Nat.le_refl _),
        Processor.getLast?_drain_of_ne_stopped hreply]
      rw [Processor.drain_of_ne_stopped hreply]
      generalize p.execute o.cycleCount = served at hlength hcomplaint ⊢
      obtain ⟨reply, next⟩ := served
      by_cases hstopped : (next.drain o.cycleCount count).1.getLast? = some .stopped
      · obtain ⟨more, hmore, hnothing⟩ := log_of_drain hstopped
        have hbefore : written ≤ next.log.toList.length := hwritten.trans hlength
        have hsplit := host.logText_split o hbefore (hcomplaint.imp_right hnothing)
        rw [if_pos hstopped, if_pos hstopped, hmore, ← Array.length_toList]
        simp only [List.map_cons, String.join_cons, String.append_assoc, hsplit]
      · rw [if_neg hstopped, if_neg hstopped]

theorem transcript?_of_error {t : Transcript} (h : start host o source = .error t) (count : Nat) :
    transcript? host o source count = some t := by
  simp only [transcript?, h]

theorem run_of_start (h : start host o source = .ok p) :
    ∃ (q : Processor) (entry : Nat), p = q.run entry := by
  unfold start at h
  split at h
  · cases h
  · split at h
    · cases h
    · split at h
      · cases h
      · split at h
        · cases h
        · exact ⟨_, _, (Except.ok.inj h).symm⟩

theorem transcript?_of_ok (h : start host o source = .ok p) (count : Nat) :
    transcript? host o source count =
      if (p.drain o.cycleCount count).1.getLast? = some .stopped then
        some ⟨0, outLines ((p.drain o.cycleCount count).1.filterMap Reply.event?) ++ farewell,
          host.logText o 0 (p.drain o.cycleCount count).2.log.toList ++
            errLines ((p.drain o.cycleCount count).1.filterMap Reply.event?)⟩
      else none := by
  have hclosed : Closed p.events p.state := by
    obtain ⟨q, entry, rfl⟩ := run_of_start h
    exact q.closed_run entry
  simp only [transcript?, h, relay_eq hclosed (Nat.zero_le _), List.drop_zero, String.empty_append,
    outLines, errLines, join_events outText rfl rfl, join_events errText rfl rfl]

theorem leaves_of_error {t t' : Transcript} (h : start host o source = .error t) :
    Leaves host o source t' ↔ t' = t := by
  constructor
  · rintro ⟨count, htranscript⟩
    rw [transcript?_of_error h] at htranscript
    exact (Option.some.inj htranscript).symm
  · rintro rfl
    exact ⟨0, transcript?_of_error h 0⟩

/-- What a drained processor leaves is what it leaves when it comes to a halt. -/
theorem transcript?_of_drain {count : Nat} (h : start host o source = .ok p)
    (hstopped : (p.drain o.cycleCount count).1.getLast? = some .stopped) :
    ∃ q, p.HaltsAs q ∧ transcript? host o source count = some (.ofHalted host o q) := by
  obtain ⟨q, hhalts, hdelivered, hdrained⟩ := Processor.haltsAs_of_drain hstopped
  refine ⟨q, hhalts, ?_⟩
  rw [transcript?_of_ok h, if_pos hstopped, hdelivered, hdrained]
  rfl

/-- What a session leaves behind is a matter of the steps up to the halt alone. -/
theorem leaves_of_ok {t : Transcript} (h : start host o source = .ok p) :
    Leaves host o source t ↔ ∃ q, p.HaltsAs q ∧ t = .ofHalted host o q := by
  constructor
  · rintro ⟨count, htranscript⟩
    by_cases hstopped : (p.drain o.cycleCount count).1.getLast? = some .stopped
    · obtain ⟨q, hhalts, heq⟩ := transcript?_of_drain h hstopped
      exact ⟨q, hhalts, Option.some.inj (htranscript.symm.trans heq)⟩
    · rw [transcript?_of_ok h, if_neg hstopped] at htranscript
      cases htranscript
  · rintro ⟨q, hhalts, rfl⟩
    obtain ⟨count, hstopped⟩ := Processor.drain_of_haltsAs hhalts o.cycleCount
    obtain ⟨q', hhalts', heq⟩ := transcript?_of_drain h hstopped
    exact ⟨count, by rw [heq, hhalts.unique hhalts']⟩

theorem start_cycles (host : Host) (o : Options) (source : Option ByteArray)
    (cycles : Option Nat) : start host { o with cycles := cycles } source = start host o source :=
  rfl

theorem start_quiet (host : Host) (o : Options) (source : Option ByteArray) (quiet : Bool) :
    start host { o with quiet := quiet } source =
      (start host o source).map fun p => p.setTracing !quiet := by
  have hsize : ({ o with quiet := quiet } : Options).memorySize = o.memorySize := rfl
  have hcount : ({ o with quiet := quiet } : Options).registerCount = o.registerCount := rfl
  unfold start
  rw [hsize, hcount]
  split
  · rfl
  · split
    · rfl
    · split
      · rfl
      · split
        · rfl
        · next entry memory log _ _ =>
          have hrun := (((Processor.new memory o.registerCount).setTracing !o.quiet).note
            log).run_setTracing entry !quiet
          exact congrArg Except.ok hrun

/-- Every budget leaves what any budget leaves. -/
theorem leaves_cycles {t : Transcript} (h : Leaves host o source t) (cycles : Option Nat)
    (t' : Transcript) : Leaves host { o with cycles := cycles } source t' ↔ t' = t := by
  have hstart := start_cycles host o source cycles
  cases hcase : start host o source with
  | error other =>
    rw [leaves_of_error hcase] at h
    rw [leaves_of_error (hstart.trans hcase), h]
  | ok p =>
    obtain ⟨q, hhalts, rfl⟩ := (leaves_of_ok hcase).mp h
    rw [leaves_of_ok (hstart.trans hcase)]
    constructor
    · rintro ⟨q', hhalts', rfl⟩
      rw [hhalts.unique hhalts']
      rfl
    · rintro rfl
      exact ⟨q, hhalts, rfl⟩

theorem start_of_quiet (h : start host { o with quiet := false } source = .ok p) :
    start host { o with quiet := true } source = .ok p.untraced := by
  obtain ⟨q, entry, rfl⟩ := run_of_start h
  have hstart := start_quiet host { o with quiet := false } source true
  rw [h] at hstart
  exact hstart.trans (congrArg Except.ok (q.setTracing_run entry))

/-- Without tracing the same run comes to a halt, and all that is missing are the traces. -/
theorem leaves_quiet (h : start host { o with quiet := false } source = .ok p) (t : Transcript) :
    Leaves host { o with quiet := true } source t ↔
      ∃ q, p.HaltsAs q ∧ t = .ofHalted host o q.untraced := by
  rw [leaves_of_ok (start_of_quiet h)]
  constructor
  · rintro ⟨_, hhalts, rfl⟩
    obtain ⟨q, htraced, rfl⟩ := Processor.haltsAs_untraced_iff.mp hhalts
    exact ⟨q, htraced, rfl⟩
  · rintro ⟨q, hhalts, rfl⟩
    exact ⟨q.untraced, Processor.haltsAs_untraced_iff.mpr ⟨q, hhalts, rfl⟩, rfl⟩

theorem start_of_quiet_error {t : Transcript}
    (h : start host { o with quiet := false } source = .error t) :
    start host { o with quiet := true } source = .error t := by
  have hstart := start_quiet host { o with quiet := false } source true
  rw [h] at hstart
  exact hstart

theorem exists_leaves_quiet (host : Host) (o : Options) (source : Option ByteArray) :
    (∃ t, Leaves host { o with quiet := true } source t) ↔
      ∃ t, Leaves host { o with quiet := false } source t := by
  cases hstart : start host { o with quiet := false } source with
  | error t =>
    exact ⟨fun _ => ⟨t, (leaves_of_error hstart).mpr rfl⟩,
      fun _ => ⟨t, (leaves_of_error (start_of_quiet_error hstart)).mpr rfl⟩⟩
  | ok p =>
    constructor
    · rintro ⟨t, hleaves⟩
      obtain ⟨q, hhalts, -⟩ := (leaves_quiet hstart t).mp hleaves
      exact ⟨_, (leaves_of_ok hstart).mpr ⟨q, hhalts, rfl⟩⟩
    · rintro ⟨t, hleaves⟩
      obtain ⟨q, hhalts, -⟩ := (leaves_of_ok hstart).mp hleaves
      exact ⟨_, (leaves_quiet hstart _).mpr ⟨q, hhalts, rfl⟩⟩

/-- Budgets and tracing are a matter of the host alone. Hosts that start the same run and
go on until nothing runs end with the same machine and state and have received the same
events but for traces. A session leaves the same transcript whatever its cycle budget,
and a quiet one differs from it in the lines of traces, which are missing. -/
theorem host_schedule_is_unobservable :
    (∀ (p p' : Processor) (entry : Nat) (turns turns' : List Turn),
      p.memory = p'.memory → p.registers.count = p'.registers.count →
      .stopped ∈ ((p.run entry).takeAll turns).1 → .stopped ∈ ((p'.run entry).takeAll turns').1 →
      ((p.run entry).takeAll turns).2.machine = ((p'.run entry).takeAll turns').2.machine ∧
        ((p.run entry).takeAll turns).2.state = ((p'.run entry).takeAll turns').2.state ∧
        visible ((p.run entry).received turns) = visible ((p'.run entry).received turns')) ∧
    ∀ (host : Host) (o : Options) (source : Option ByteArray),
      (∀ t, Leaves host o source t →
        ∀ cycles t', Leaves host { o with cycles := cycles } source t' ↔ t' = t) ∧
      ((∃ t, Leaves host { o with quiet := true } source t) ↔
        ∃ t, Leaves host { o with quiet := false } source t) ∧
      (∀ t, start host { o with quiet := false } source = .error t →
        ∀ t', Leaves host { o with quiet := true } source t' ↔ t' = t) ∧
      ∀ (p : Processor) (count : Nat),
        start host { o with quiet := false } source = .ok p →
        (p.drain o.cycleCount count).1.getLast? = some .stopped →
        let events := (p.drain o.cycleCount count).1.filterMap Reply.event?
        let log := (p.drain o.cycleCount count).2.log.toList
        transcript? host { o with quiet := false } source count =
            some ⟨0, outLines events ++ farewell, host.logText o 0 log ++ errLines events⟩ ∧
          ∀ t', Leaves host { o with quiet := true } source t' ↔
            t' = ⟨0, outLines (visible events) ++ farewell,
              host.logText o 0 log ++ errLines events⟩ := by
  refine ⟨?_, fun host o source => ⟨?_, ?_, ?_, ?_⟩⟩
  · intro p p' entry turns turns' hmemory hcount hstopped hstopped'
    obtain ⟨hmachine, hstate, hevents⟩ := Processor.run_congr hmemory hcount entry
    obtain ⟨hhalted, _, silent, hcycles, hvisible⟩ := Processor.cycles_of_stopped hstopped
    obtain ⟨hhalted', _, silent', hcycles', hvisible'⟩ := Processor.cycles_of_stopped hstopped'
    rw [hmachine, hstate] at hcycles
    obtain ⟨hsilent, hlast⟩ := hcycles.halted_unique hcycles'
    exact ⟨hlast, hhalted.trans hhalted'.symm, by rw [hvisible, hvisible', hevents, hsilent]⟩
  · intro t hleaves
    exact leaves_cycles hleaves
  · exact exists_leaves_quiet host o source
  · intro t hstart t'
    exact leaves_of_error (start_of_quiet_error hstart)
  · intro p count hstart hstopped
    obtain ⟨q, hhalts, hdelivered, hdrained⟩ := Processor.haltsAs_of_drain hstopped
    refine ⟨?_, fun t' => ?_⟩
    · exact (transcript?_of_ok hstart count).trans (if_pos hstopped)
    · have hquiet : Transcript.ofHalted host o q.untraced =
          ⟨0, outLines (visible q.events) ++ farewell,
            host.logText o 0 q.log.toList ++ errLines q.events⟩ := by
        rw [← errLines_visible]
        rfl
      rw [leaves_quiet hstart, hdelivered, hdrained, ← hquiet]
      constructor
      · rintro ⟨q', hhalts', rfl⟩
        rw [hhalts.unique hhalts']
      · rintro rfl
        exact ⟨q, hhalts, rfl⟩

/-- A processor with a program that prints a line, its source, and options and a host that
fit. The host writes out the whole log. -/
def echoing : Processor := .new ⟨#[some (.load .one 0), some (.print 0 ⟨"x"⟩)], 0⟩ 1

def echoSource : ByteArray := "org 0\nload 1 0\nprint 0 \"x\"\n".toUTF8

def echoOptions : Options := { memory := some 2, registers := some 1, cycles := some 3 }

def echoHost : Host where
  slotLimit := 2
  registerLimit := 1
  crashText := "capacity overflow\n"
  wanted := some fun _ => true
  line position _ := s!"record {position}\n"

def echoTrace : String := "0: \tLoad 1 to *0\n1: \tPrint *0 like \"x\"\n"

def echoOutput : String :=
  "x\nCPU: no more instructions, terminating\nGood bye, and thanks for all the fish\n"

/-- The program is loaded, started and exhausted. -/
def echoLog : String := "record 0\nrecord 1\nrecord 2\n"

theorem schedules_of_echoing :
    (.stopped ∈ ((echoing.run 0).takeAll (List.replicate 5 (.execute 1))).1 ∧
      .stopped ∈ ((echoing.run 0).takeAll
        ([.setTracing false, .execute 0, .setTracing true, .step] ++
          List.replicate 4 (.execute 9))).1 ∧
      visible ((echoing.run 0).received (List.replicate 5 (.execute 1))) =
        visible ((echoing.run 0).received
          ([.setTracing false, .execute 0, .setTracing true, .step] ++
            List.replicate 4 (.execute 9)))) ∧
    (Leaves echoHost echoOptions (some echoSource) ⟨0, echoTrace ++ echoOutput, echoLog⟩ ∧
      Leaves echoHost { echoOptions with cycles := some 0 } (some echoSource)
        ⟨0, echoTrace ++ echoOutput, echoLog⟩) ∧
    (start echoHost { echoOptions with memory := some 1 } (some echoSource) =
        .error ⟨254, "", faultLine { cause := .outOfSpace, address := some 1 }⟩ ∧
      Leaves echoHost { echoOptions with memory := some 1, quiet := true } (some echoSource)
        ⟨254, "", faultLine { cause := .outOfSpace, address := some 1 }⟩) ∧
    (start echoHost echoOptions (some echoSource) = .ok ((echoing.note [.loaded 0 2]).run 0) ∧
      (((echoing.note [.loaded 0 2]).run 0).drain 3 9).1.getLast? = some .stopped ∧
      Leaves echoHost { echoOptions with quiet := true } (some echoSource)
        ⟨0, echoOutput, echoLog⟩) := by
  obtain ⟨hturns, hsession⟩ := host_schedule_is_unobservable
  have hfirst : .stopped ∈ ((echoing.run 0).takeAll (List.replicate 5 (.execute 1))).1 := by
    decide +kernel
  have hsecond : .stopped ∈ ((echoing.run 0).takeAll
      ([.setTracing false, .execute 0, .setTracing true, .step] ++
        List.replicate 4 (.execute 9))).1 := by
    decide +kernel
  have hleaves :
      Leaves echoHost echoOptions (some echoSource) ⟨0, echoTrace ++ echoOutput, echoLog⟩ :=
    ⟨9, by decide +kernel⟩
  have hsmall : start echoHost { echoOptions with memory := some 1 } (some echoSource) =
      .error ⟨254, "", faultLine { cause := .outOfSpace, address := some 1 }⟩ := by
    decide +kernel
  have hstart : start echoHost echoOptions (some echoSource) =
      .ok ((echoing.note [.loaded 0 2]).run 0) := by
    decide +kernel
  have hdrain : (((echoing.note [.loaded 0 2]).run 0).drain 3 9).1.getLast? = some .stopped := by
    decide +kernel
  obtain ⟨hcycles, -, -, hquiet⟩ := hsession echoHost echoOptions (some echoSource)
  obtain ⟨-, -, herror, -⟩ :=
    hsession echoHost { echoOptions with memory := some 1 } (some echoSource)
  exact ⟨⟨hfirst, hsecond, (hturns echoing echoing 0 _ _ rfl rfl hfirst hsecond).2.2⟩,
    ⟨hleaves, (hcycles _ hleaves (some 0) _).mpr rfl⟩,
    ⟨hsmall, (herror _ hsmall _).mpr rfl⟩,
    hstart, hdrain, ((hquiet _ 9 hstart hdrain).2 _).mpr (by decide +kernel)⟩

end CommandLine

end StoredProgram
