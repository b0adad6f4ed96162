import MiniRisc.Proofs.Runs

/-!
# Runs within a limit

The loop of a run is stated here without fuel: it goes on from what a retired instruction leaves
and ends with a halt or a trap. A machine with a limit always comes to such an end, and the fuel
that it is given is enough. A higher limit changes nothing before the lower one is reached, so a
run that ends by itself ends in the same way under the higher limit, and a run that is cut is the
beginning of the longer one.
-/

namespace MiniRisc

/-- The processor does not know of a limit. -/
theorem State.step_ne_stepLimit {program : Program} {state after : State} {trap : Trap}
    (h : state.step program = (after, .error trap)) (limit : Nat) : trap ≠ .stepLimit limit := by
  cases does_of_step h with
  | lost | unrecognized | refused => nofun

namespace Machine

/-- What is kept about a step. -/
def visit (machine : Machine) (step : Step) (after : Machine) : Visit :=
  ⟨machine.state.cpu, step, after.state.cpu, after.steps⟩

/-- Retired instructions lead from one machine to another. -/
inductive Path : Machine → List Visit → Machine → Prop
  /-- Nothing has been done. -/
  | here (machine : Machine) : Path machine [] machine
  /-- An instruction is retired first. -/
  | retired {machine after last : Machine} {instruction : Instruction} {visits : List Visit}
      (hs : machine.step = (after, .ok (.retired instruction))) (hp : Path after visits last) :
    Path machine (machine.visit (.retired instruction) after :: visits) last

/-- A machine runs to an end. -/
inductive Runs : Machine → List Visit → Machine → Ending → Prop
  /-- A step traps; nothing is kept about it. -/
  | trapped {machine after : Machine} {trap : Trap} (hs : machine.step = (after, .error trap)) :
    Runs machine [] after (.trapped trap)
  /-- A step halts; it is kept. -/
  | halted {machine after : Machine} {kind : Halt}
      (hs : machine.step = (after, .ok (.halted kind))) :
    Runs machine [machine.visit (.halted kind) after] after (.halted kind)
  /-- An instruction is retired and the run goes on. -/
  | retired {machine after last : Machine} {instruction : Instruction} {visits : List Visit}
      {ending : Ending} (hs : machine.step = (after, .ok (.retired instruction)))
      (hr : Runs after visits last ending) :
    Runs machine (machine.visit (.retired instruction) after :: visits) last ending

variable {machine after last : Machine} {visits : List Visit} {ending : Ending}
  {bound limit : Nat}

/-- A run comes to one end only. -/
theorem Runs.unique {last' : Machine} {visits' : List Visit} {ending' : Ending}
    (h : machine.Runs visits last ending) (h' : machine.Runs visits' last' ending') :
    visits = visits' ∧ last = last' ∧ ending = ending' := by
  induction h generalizing visits' with
  | trapped hs =>
    cases h' with
    | trapped hs' => cases hs.symm.trans hs'; exact ⟨rfl, rfl, rfl⟩
    | halted hs' | retired hs' => cases hs.symm.trans hs'
  | halted hs =>
    cases h' with
    | halted hs' => cases hs.symm.trans hs'; exact ⟨rfl, rfl, rfl⟩
    | trapped hs' | retired hs' => cases hs.symm.trans hs'
  | retired hs _ ih =>
    cases h' with
    | retired hs' hr' =>
      cases hs.symm.trans hs'
      obtain ⟨rfl, rfl, rfl⟩ := ih hr'
      exact ⟨rfl, rfl, rfl⟩
    | trapped hs' | halted hs' => cases hs.symm.trans hs'

/-- A run ends by a halt or a trap. -/
theorem Runs.ne_endless (h : machine.Runs visits last ending) : ending ≠ .endless := by
  induction h with
  | trapped | halted => nofun
  | retired _ _ ih => exact ih

/-- A run goes on from where a path leads. -/
theorem Path.runs {middle : Machine} {further : List Visit} (hp : machine.Path visits middle)
    (hr : middle.Runs further last ending) : machine.Runs (visits ++ further) last ending := by
  induction hp with
  | here => exact hr
  | retired hs _ ih => exact .retired hs (ih hr)

/-- A run that traps is a path to a machine that traps. -/
theorem Runs.path_of_trapped {trap : Trap} (h : machine.Runs visits last (.trapped trap)) :
    machine.Path visits last ∧ last.step = (last, .error trap) := by
  generalize he : Ending.trapped trap = ending at h
  induction h with
  | trapped hs =>
    cases he
    cases does_of_step hs with
    | refused | trapped => exact ⟨.here _, hs⟩
  | halted => cases he
  | retired hs _ ih =>
    obtain ⟨hp, hl⟩ := ih he
    exact ⟨.retired hs hp, hl⟩

/-- A path is as many steps as it keeps visits. -/
theorem Path.after_eq (h : machine.Path visits last) :
    Stepper.after step machine visits.length = last := by
  induction h with
  | here => rfl
  | retired hs _ ih => rw [List.length_cons, Stepper.after_succ, hs, ih]

/-! ### The count and the limit -/

/-- A step that does not trap is counted, and below the limit. -/
theorem steps_of_ok {outcome : Step} (h : machine.step = (after, .ok outcome)) :
    after.steps = machine.steps + 1 ∧ after.limit = machine.limit ∧
      ∀ limit, machine.limit = some limit → machine.steps < limit := by
  cases does_of_step h with
  | halted hl | retired hl => exact ⟨rfl, rfl, limitReached?_eq_none_iff.1 hl⟩

/-- A run counts the visits that it keeps. -/
theorem Runs.steps_eq (h : machine.Runs visits last ending) :
    last.steps = machine.steps + visits.length := by
  induction h with
  | trapped hs =>
    cases does_of_step hs with
    | refused | trapped => rfl
  | halted hs => exact (steps_of_ok hs).1
  | retired hs _ ih =>
    have hn := (steps_of_ok hs).1
    rw [List.length_cons]
    omega

/-- A run does not go beyond the limit. -/
theorem Runs.steps_le (h : machine.Runs visits last ending) (hl : machine.limit = some limit)
    (hn : machine.steps ≤ limit) : last.steps ≤ limit := by
  induction h with
  | trapped hs =>
    cases does_of_step hs with
    | refused | trapped => exact hn
  | halted hs =>
    obtain ⟨hs, -, hlt⟩ := steps_of_ok hs
    exact hs ▸ hlt limit hl
  | retired hs _ ih =>
    obtain ⟨hs, hl', hlt⟩ := steps_of_ok hs
    exact ih (hl'.trans hl) (hs ▸ hlt limit hl)

/-! ### The loop and its fuel -/

/-- A machine with a limit runs to an end, which fuel beyond the steps that are left finds. -/
theorem runs_runFor {fuel : Nat} (kept : Array Visit)
    (hl : machine.limit = some limit) (hf : limit - machine.steps < fuel) :
    ∃ visits last ending, machine.Runs visits last ending ∧
      runFor fuel machine kept = ⟨kept ++ visits, last, ending⟩ := by
  induction fuel generalizing machine kept with
  | zero => omega
  | succ fuel ih =>
    rw [runFor]
    split
    case h_1 after trap hs => exact ⟨_, _, _, .trapped hs, by simp⟩
    case h_2 after outcome hs =>
      cases outcome with
      | halted kind => exact ⟨_, _, _, .halted hs, by simp [visit]⟩
      | retired instruction =>
        obtain ⟨hn, hl', hlt⟩ := steps_of_ok hs
        have hlt := hlt limit hl
        obtain ⟨visits, last, ending, hr, he⟩ :=
          ih (kept.push (machine.visit (.retired instruction) after)) (hl'.trans hl) (by omega)
        exact ⟨_, _, _, .retired hs hr, he.trans (by simp)⟩

/-- A machine with a limit runs to an end. -/
theorem runs_run (hl : machine.limit = some limit) :
    machine.Runs machine.run.visits.toList machine.run.machine machine.run.ending := by
  have hb : limit - machine.steps < machine.runBound := by
    rw [runBound, hl]
    exact Nat.lt_succ_self _
  obtain ⟨visits, last, ending, hr, he⟩ := runs_runFor #[] hl hb
  rw [run, he]
  simpa using hr

/-- The end of a run is what the loop gives. -/
theorem run_eq_of_runs (hl : machine.limit = some limit) (h : machine.Runs visits last ending) :
    machine.run = ⟨visits.toArray, last, ending⟩ := by
  obtain ⟨hv, hm, he⟩ := (runs_run hl).unique h
  calc machine.run
      = ⟨machine.run.visits.toList.toArray, machine.run.machine, machine.run.ending⟩ := rfl
    _ = ⟨visits.toArray, last, ending⟩ := by rw [hv, hm, he]

/-! ### A higher limit -/

/-- What is kept about a step does not name the limit. -/
theorem visit_withLimit (machine : Machine) (outcome : Step) (after : Machine) (limit : Nat) :
    (machine.withLimit limit).visit outcome (after.withLimit limit) =
      machine.visit outcome after := rfl

/-- A step that the limit does not refuse is the same under a higher limit. -/
theorem step_withLimit {outcome : Except Trap Step} (hb : machine.limit = some bound)
    (hle : bound ≤ limit) (hn : ∀ count, outcome ≠ .error (.stepLimit count))
    (h : machine.step = (after, outcome)) :
    (machine.withLimit limit).step = (after.withLimit limit, outcome) := by
  have hlimit : machine.limitReached? = none → (machine.withLimit limit).limitReached? = none := by
    intro hl
    refine limitReached?_eq_none_iff.2 fun _ hw => ?_
    obtain rfl := Option.some.inj hw
    exact Nat.lt_of_lt_of_le (limitReached?_eq_none_iff.1 hl bound hb) hle
  cases does_of_step h with
  | refused => exact absurd rfl (hn _)
  | trapped hl hs => exact step_of_error (hlimit hl) hs
  | halted hl hs | retired hl hs => exact step_of_ok (hlimit hl) hs

/-- A path is a path under a higher limit. -/
theorem Path.withLimit (h : machine.Path visits last) (hb : machine.limit = some bound)
    (hle : bound ≤ limit) :
    (machine.withLimit limit).Path visits (last.withLimit limit) := by
  induction h with
  | here => exact .here _
  | retired hs _ ih =>
    have hb' := (steps_of_ok hs).2.1.trans hb
    rw [← visit_withLimit _ _ _ limit]
    exact .retired (step_withLimit hb hle (by nofun) hs) (ih hb')

/-- A run that ends by itself ends in the same way under a higher limit. -/
theorem Runs.withLimit (h : machine.Runs visits last ending) (hb : machine.limit = some bound)
    (hle : bound ≤ limit) (hn : ∀ count, ending ≠ .trapped (.stepLimit count)) :
    (machine.withLimit limit).Runs visits (last.withLimit limit) ending := by
  induction h with
  | trapped hs =>
    refine .trapped (step_withLimit hb hle (fun count hc => ?_) hs)
    cases hc
    exact hn count rfl
  | halted hs =>
    rw [← visit_withLimit _ _ _ limit]
    exact .halted (step_withLimit hb hle (by nofun) hs)
  | retired hs _ ih =>
    have hb' := (steps_of_ok hs).2.1.trans hb
    rw [← visit_withLimit _ _ _ limit]
    exact .retired (step_withLimit hb hle (by nofun) hs) (ih hb' hn)

/-- Only its own limit refuses a machine, and only once it is reached. -/
theorem limit_of_refused {count : Nat} (h : machine.step = (after, .error (.stepLimit count))) :
    machine.limit = some count ∧ count ≤ machine.steps := by
  cases does_of_step h with
  | refused hl => exact limitReached?_eq_some_iff.1 hl
  | trapped _ hs => exact absurd rfl (State.step_ne_stepLimit hs count)

/-- The limit is the same at the end of a path. -/
theorem Path.limit_eq (h : machine.Path visits last) : last.limit = machine.limit := by
  induction h with
  | here => rfl
  | retired hs _ ih => exact ih.trans (steps_of_ok hs).2.1

/-- A run that is cut has used up its limit, and is the beginning of the run under a higher
limit. -/
theorem Runs.withLimit_of_cut {count : Nat}
    (h : machine.Runs visits last (.trapped (.stepLimit count)))
    (hb : machine.limit = some bound) (hn : machine.steps ≤ bound) (hle : bound ≤ limit) :
    count = bound ∧ last.steps = bound ∧
      (machine.withLimit limit).Path visits (last.withLimit limit) := by
  obtain ⟨hp, hs⟩ := h.path_of_trapped
  obtain ⟨hl, hc⟩ := limit_of_refused hs
  have hcount : count = bound := Option.some.inj (hl.symm.trans (hp.limit_eq.trans hb))
  have hsteps := h.steps_le hb hn
  exact ⟨hcount, by omega, hp.withLimit hb hle⟩

/-! ### What the limit changes -/

/-- The run of a machine comes to an end within a limit, and counts what it keeps. -/
structure EndsWithin (machine : Machine) (limit : Nat) : Prop where
  /-- The loop ends, and with this. -/
  runs : machine.Runs machine.run.visits.toList machine.run.machine machine.run.ending
  /-- The run is not given up as endless. -/
  ended : machine.run.ending ≠ .endless
  /-- There are no more visits than the limit allows. -/
  size_le : machine.run.visits.size ≤ limit
  /-- The steps that are counted are the visits. -/
  steps_eq : machine.run.machine.steps = machine.run.visits.size

/-- A machine with a limit that has not taken a step ends within its limit. -/
theorem endsWithin (hl : machine.limit = some limit) (h : machine.steps = 0) :
    machine.EndsWithin limit := by
  have hr := runs_run hl
  have hs := hr.steps_eq
  have hle := hr.steps_le hl (by omega)
  rw [h, Nat.zero_add, Array.length_toList] at hs
  exact ⟨hr, hr.ne_endless, hs ▸ hle, hs⟩

/-- The limit only cuts a run short. A run under a limit comes to an end, has at most as many
visits as the limit allows and counts them. If it ends by itself, the run under a higher limit is
the same but for the limit. If it is cut, it has used up its limit, its visits are the first ones
of the run under the higher limit, and it leaves what these steps leave. -/
theorem run_withLimit (program : Program) (config : Config) {bound limit : Nat}
    (h : bound ≤ limit) :
    let short := (start program config).withLimit bound
    let long := (start program config).withLimit limit
    short.EndsWithin bound ∧ long.EndsWithin limit ∧
    ((∀ count, short.run.ending ≠ .trapped (.stepLimit count)) →
      long.run = { short.run with machine := short.run.machine.withLimit limit }) ∧
    ∀ count, short.run.ending = .trapped (.stepLimit count) →
      count = bound ∧ short.run.machine.steps = bound ∧ short.run.visits.size = bound ∧
      short.run.visits = long.run.visits.take bound ∧
      short.run.machine.withLimit limit = Stepper.after step long bound := by
  intro short long
  have hshort : short.EndsWithin bound := endsWithin rfl rfl
  have hlong : long.EndsWithin limit := endsWithin rfl rfl
  refine ⟨hshort, hlong, fun hn => ?_, fun count hcut => ?_⟩
  · exact run_eq_of_runs rfl (hshort.runs.withLimit rfl h hn)
  · have hruns := hshort.runs
    rw [hcut] at hruns
    obtain ⟨hcount, hsteps, hp⟩ := hruns.withLimit_of_cut rfl (Nat.zero_le _) h
    have hsize : short.run.visits.size = bound := hshort.steps_eq.symm.trans hsteps
    have hlen : short.run.visits.toList.length = bound := hsize
    refine ⟨hcount, hsteps, hsize, ?_, ?_⟩
    · -- the longer run is this path and what the machine at its end goes on to do
      let further := (short.run.machine.withLimit limit).run
      have hfurther : (short.run.machine.withLimit limit).Runs further.visits.toList
          further.machine further.ending := runs_run rfl
      have hall : long.run = _ := run_eq_of_runs rfl (hp.runs hfurther)
      rw [hall]
      apply Array.toList_inj.1
      rw [List.take_toArray, List.take_left' hlen]
    · rw [← hlen]
      exact hp.after_eq.symm

/-- A halt in the last step that the limit allows is the end under every higher limit. A program
counter that leaves the program after that step is noticed under a higher limit only. -/
theorem run_withLimit_last_step :
    (1 ≤ 3 ∧
      let halting := (start ⟨#[Word.virtualHalt]⟩ {}).withLimit 1
      halting.run.ending = .halted .virtual ∧
        (halting.withLimit 3).run =
          { halting.run with machine := halting.run.machine.withLimit 3 }) ∧
    1 ≤ 2 ∧
      let leaving := (start ⟨#[0x00000013]⟩ {}).withLimit 1
      leaving.run.ending = .trapped (.stepLimit 1) ∧
        (leaving.withLimit 2).run.ending = .trapped (.noInstruction 4) ∧
        leaving.run.visits = (leaving.withLimit 2).run.visits.take 1 := by
  refine ⟨⟨by decide, rfl, ?_⟩, by decide, rfl, rfl, ?_⟩
  · obtain ⟨-, -, hsame, -⟩ := run_withLimit ⟨#[Word.virtualHalt]⟩ {} (by decide : 1 ≤ 3)
    refine hsame fun count => ?_
    have hhalt : ((start ⟨#[Word.virtualHalt]⟩ {}).withLimit 1).run.ending = .halted .virtual := rfl
    rw [hhalt]
    nofun
  · obtain ⟨-, -, -, hcut⟩ := run_withLimit ⟨#[0x00000013]⟩ {} (by decide : 1 ≤ 2)
    exact (hcut 1 rfl).2.2.2.1

end Machine

end MiniRisc
