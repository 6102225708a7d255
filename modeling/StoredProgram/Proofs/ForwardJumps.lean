import Mathlib.Tactic.IntervalCases
import StoredProgram.Proofs.EventStream
import StoredProgram.Proofs.Failures

/-!
Programs that only jump forward halt. The condition is on the memory as it is when a run
starts, and the program may overwrite itself as it goes. It overwrites slots with numbers
alone, and a chain of gets that comes to a number comes to no jump. So no jump is ever added,
a step that does not halt moves the cursor forward, and the end of the memory bounds the
number of steps.
-/
namespace StoredProgram

/-- Every jump goes to a later slot: the one in a slot itself, and the one that the gets of a
slot lead to. Chains beyond the nesting limit do not count, as they fail. -/
def Memory.JumpsForward (memory : Memory) : Prop :=
  ∀ (position : Nat) (fetched : Instruction) (dests : List Nat) (leaf : Instruction)
    (target : Nat), memory.slots[position]? = some (some fetched) →
    Leads memory fetched dests leaf → dests.length ≤ Machine.nestingLimit →
    leaf.isJump = true → leaf.address? = some target → position < target

/-- Every slot of the later memory holds what it held in the earlier one, or a number. -/
def Memory.Rewrites (earlier later : Memory) : Prop :=
  ∀ address : Nat, later.slots[address]? = earlier.slots[address]? ∨
    ∃ value, later.slots[address]? = some (some (.data value))

namespace Memory.Rewrites

variable {earlier later : Memory}

/-- A chain that does not come to a number was there before. -/
theorem leads (h : earlier.Rewrites later) {first last : Instruction} {dests : List Nat}
    (hleads : Leads later first dests last) (hlast : ∀ value, last ≠ .data value) :
    Leads earlier first dests last := by
  induction hleads with
  | here instruction => exact Leads.here instruction
  | @link address dest dests found last hslot hrest ih =>
    rcases h address with hkept | ⟨value, hdata⟩
    · exact Leads.link (hkept.symm.trans hslot) (ih hlast)
    · -- a number ends the chain where it stands
      obtain rfl : Instruction.data value = found :=
        Option.some.inj (Option.some.inj (hdata.symm.trans hslot))
      cases hrest with
      | here => exact absurd rfl (hlast value)

theorem jumpsForward (h : earlier.Rewrites later) (hforward : earlier.JumpsForward) :
    later.JumpsForward := by
  intro position fetched dests leaf target hslot hleads hlength hjump htarget
  have hleaf : ∀ value, leaf ≠ .data value := by
    rintro value rfl
    cases hjump
  have hbefore := h.leads hleads hleaf
  rcases h position with hkept | ⟨value, hdata⟩
  · exact hforward position fetched dests leaf target (hkept.symm.trans hslot) hbefore hlength
      hjump htarget
  · obtain rfl : Instruction.data value = fetched :=
      Option.some.inj (Option.some.inj (hdata.symm.trans hslot))
    cases hbefore with
    | here => exact absurd rfl (hleaf value)

end Memory.Rewrites

/-- A cycle that does not halt moves the cursor forward, by a jump or to the next slot. -/
theorem Machine.cursor_lt_cycle {m : Machine} {tracing : Bool}
    (hforward : m.memory.JumpsForward) (h : (m.cycle tracing).state = .running) :
    m.memory.cursor < (m.cycle tracing).machine.memory.cursor := by
  obtain ⟨fetched, dests, leaf, hslot, hleads, hlength, -, htaken, hpassed⟩ := cursor_cycle h
  by_cases hjumps : ∃ address, Jumps m.registers leaf address
  · obtain ⟨address, hjumps⟩ := hjumps
    rw [(htaken address hjumps).1]
    exact hforward _ fetched dests leaf address hslot hleads hlength hjumps.isJump hjumps.address?
  · rw [hpassed fun address htarget => hjumps ⟨address, htarget⟩]
    exact Nat.lt_succ_self _

namespace Processor

variable {p : Processor} {entry count : Nat}

theorem rewrites_afterSteps (p : Processor) (entry count : Nat) :
    p.memory.Rewrites (p.afterSteps entry count).memory := by
  intro address
  have hcases := slot_kept_or_data (p.run entry) address (Nat.zero_le count)
  rw [Function.iterate_zero_apply, slots_run] at hcases
  exact hcases

theorem afterSteps_add_one (p : Processor) (entry count : Nat) :
    p.afterSteps entry (count + 1) = (p.afterSteps entry count).step :=
  Function.iterate_succ_apply' step count (p.run entry)

/-- As long as a run goes on, each step has brought the cursor further. -/
theorem entry_add_le_cursor (hentry : entry < p.memory.capacity)
    (hforward : p.memory.JumpsForward) (h : (p.afterSteps entry count).state = .running) :
    entry + count ≤ (p.afterSteps entry count).memory.cursor := by
  induction count with
  | zero =>
    rw [afterSteps, Function.iterate_zero_apply, run_of_lt hentry]
    exact Nat.le_refl entry
  | succ count ih =>
    cases hbefore : (p.afterSteps entry count).state with
    | halted =>
      rw [afterSteps_add_one, step_of_halted hbefore, hbefore] at h
      cases h
    | running =>
      obtain ⟨hmachine, hstate⟩ := afterSteps_succ hbefore
      rw [hstate] at h
      have hearlier := ih hbefore
      have hlater := Machine.cursor_lt_cycle
        ((p.rewrites_afterSteps entry count).jumpsForward hforward) h
      simp only [memory] at hearlier ⊢
      rw [hmachine]
      omega

theorem streams_afterSteps (p : Processor) (entry count : Nat) :
    Streams (p.afterSteps entry count).events (p.afterSteps entry count).state := by
  induction count with
  | zero => exact p.streams_run entry
  | succ count ih =>
    cases hstate : (p.afterSteps entry count).state with
    | halted =>
      rwa [afterSteps_add_one, step_of_halted hstate]
    | running =>
      rw [hstate] at ih
      rw [afterSteps_add_one, step_of_running hstate]
      exact ih.cycle _ _

end Processor

theorem Streams.count_terminal {events : List Event} (h : Streams events .halted) :
    events.countP Event.isTerminal = 1 := by
  obtain ⟨quiet, last, rfl, hquiet, hlast⟩ := h.exists_terminal
  have hnone : quiet.countP Event.isTerminal = 0 := by
    rw [List.countP_eq_zero]
    intro event hevent
    rw [hquiet event hevent]
    exact Bool.false_ne_true
  rw [List.countP_append, hnone, List.countP_singleton, if_pos hlast]

namespace Processor

/-- If every jump of a program goes forward when it starts, its run is over after as many
steps as there are slots from the entry on, and one: it has halted then, and one terminal
event has been reported, whatever the program has overwritten. -/
theorem forward_jumping_runs_halt (p : Processor) (entry : Nat)
    (hentry : entry < p.memory.capacity) (hforward : p.memory.JumpsForward) (count : Nat)
    (hcount : p.memory.capacity - entry + 1 ≤ count) :
    (p.afterSteps entry count).state = .halted ∧
      (p.afterSteps entry count).events.countP Event.isTerminal = 1 := by
  have hhalted : (p.afterSteps entry count).state = .halted := by
    cases hstate : (p.afterSteps entry count).state with
    | halted => rfl
    | running =>
      have hcursor := entry_add_le_cursor hentry hforward hstate
      have hbound : (p.afterSteps entry count).memory.cursor ≤ _ :=
        wellFormed_afterSteps hentry count
      rw [p.capacity_afterSteps entry count] at hbound
      omega
  have hstreams := p.streams_afterSteps entry count
  rw [hhalted] at hstreams
  exact ⟨hhalted, hstreams.count_terminal⟩

/-- A get leads to a jump, which is overwritten later on, and another jump is taken. -/
def leaping : Processor :=
  .new ⟨#[some (.get 2 0), none, some (.goto 3), some (.put 0 2), some (.nzgoto 0 5), none], 0⟩ 1

theorem leaping_halts :
    0 < leaping.memory.capacity ∧ leaping.memory.JumpsForward ∧
      leaping.memory.capacity - 0 + 1 = 7 ∧
      (leaping.afterSteps 0 3).memory.slots[2]? = some (some (.data .one)) ∧
      (leaping.afterSteps 0 7).state = .halted ∧
      (leaping.afterSteps 0 7).events.countP Event.isTerminal = 1 := by
  have hforward : leaping.memory.JumpsForward := by
    intro position fetched dests leaf target hslot hleads _ hjump htarget
    have hlt : position < 6 := (Array.getElem?_eq_some_iff.mp hslot).1
    interval_cases position
    · obtain rfl : Instruction.get 2 0 = fetched := Option.some.inj (Option.some.inj hslot)
      rcases hleads with _ | ⟨hfound, hrest⟩
      · cases hjump
      · obtain rfl : Instruction.goto 3 = _ := Option.some.inj (Option.some.inj hfound)
        cases hrest
        obtain rfl : 3 = target := Option.some.inj htarget
        decide
    · cases hslot
    · obtain rfl : Instruction.goto 3 = fetched := Option.some.inj (Option.some.inj hslot)
      cases hleads
      obtain rfl : 3 = target := Option.some.inj htarget
      decide
    · obtain rfl : Instruction.put 0 2 = fetched := Option.some.inj (Option.some.inj hslot)
      cases hleads
      cases hjump
    · obtain rfl : Instruction.nzgoto 0 5 = fetched := Option.some.inj (Option.some.inj hslot)
      cases hleads
      obtain rfl : 5 = target := Option.some.inj htarget
      decide
    · cases hslot
  refine ⟨by decide, hforward, by decide, by decide, ?_⟩
  exact forward_jumping_runs_halt leaping 0 (by decide) hforward 7 (by decide)

end Processor

end StoredProgram
