import MiniRisc.Proofs.Attempts
import MiniRisc.Proofs.Directories
import MiniRisc.Proofs.EndlessRuns
import MiniRisc.Proofs.StateText
import MiniRisc.Tool.Runner

/-!
# What the runner leaves behind

The runner reads its set-up and its program, makes a machine if there can be memory for its data,
runs it to its end, and then saves the final state if it is asked to, whatever the run came to. The
trace is written last, of runs that halt. It gives up at the first failure, so there are seven ways
to end, and what is left is told from these. A machine that goes on forever is the only reason for
which the runner comes to no end.
-/

namespace MiniRisc

variable {platform : Platform} {store after : Store} {attempts : List WriteAttempt}
  {outcome : Outcome}

/-- A run is what a machine does up to its end. -/
def Run.IsOf (run : Run) (machine : Machine) : Prop :=
  machine.Runs run.visits.toList run.machine run.ending

/-- A machine has one run at most. -/
theorem Run.IsOf.unique {first second : Run} {machine : Machine} (hf : first.IsOf machine)
    (hs : second.IsOf machine) : first = second := by
  obtain ⟨hvisits, hmachine, hending⟩ := Machine.Runs.unique hf hs
  obtain ⟨visits, last, ending⟩ := first
  obtain ⟨visits', last', ending'⟩ := second
  rw [Run.mk.injEq]
  exact ⟨Array.toList_inj.1 hvisits, hmachine, hending⟩

/-- A run that has ended has no failure exactly if it halts. -/
theorem Run.IsOf.failure?_eq_none_iff {run : Run} {machine : Machine} (h : run.IsOf machine) :
    run.failure? = none ↔ ∃ kind, run.ending = .halted kind := by
  unfold failure?
  split
  case h_1 trap ht => simp [ht]
  case h_2 kind hk => exact ⟨fun _ => ⟨kind, hk⟩, fun _ => rfl⟩
  case h_3 he => exact absurd he h.ne_endless

/-- Another error makes no difference to a result. -/
theorem mapError_eq_ok {ε ε' α : Type} {first : Except ε α} {f : ε → ε'} {result : α} :
    first.mapError f = .ok result ↔ first = .ok result := by
  cases first <;> simp [Except.mapError]

namespace RunnerOptions

/-- A store has a set-up: the standard one if there is no path, else what the file says. -/
def LoadsConfig (platform : Platform) (store : Store) : Option String → Config → Prop
  | none, config => config = {}
  | some path, config =>
    ∃ text, store.read path = .ok text ∧ platform.config? text = some config

/-- A store has a program at a path. -/
def LoadsProgram (store : Store) (path : String) (program : Program) : Prop :=
  ∃ text, store.read path = .ok text ∧ Program.ofText text = .ok program

/-- A store has a program and a set-up. -/
def Loads (options : RunnerOptions) (platform : Platform) (store : Store) (program : Program)
    (config : Config) : Prop :=
  LoadsConfig platform store options.config config ∧ LoadsProgram store options.input program

/-- A store has a program and a set-up for a machine, and this is its run. -/
def Loaded (options : RunnerOptions) (platform : Platform) (store : Store) (run : Run) : Prop :=
  ∃ program config machine, options.Loads platform store program config ∧
    options.machine? program config = some machine ∧ run.IsOf machine

/-- Reading the set-up changes nothing and gives it exactly if the store has it. -/
theorem loadsConfig_of_performs {path : Option String} {result : Except Failure Config}
    (h : (readConfig platform path).Performs store attempts result after) :
    after = store ∧ attempts = [] ∧
      ∀ config, result = .ok config ↔ LoadsConfig platform store path config := by
  cases path with
  | none =>
    obtain ⟨rfl, rfl, rfl⟩ := Script.performs_pure_iff.1 h
    refine ⟨rfl, rfl, fun config => ?_⟩
    rw [Except.ok.injEq]
    exact eq_comm
  | some path =>
    replace h := h.of_readText
    split at h
    case h_1 error he =>
      obtain ⟨rfl, rfl, rfl⟩ := Script.performs_pure_iff.1 h
      refine ⟨rfl, rfl, fun config => ⟨nofun, ?_⟩⟩
      rintro ⟨text, ht, -⟩
      cases he.symm.trans ht
    case h_2 text ht =>
      split at h
      case h_1 hn =>
        obtain ⟨rfl, rfl, rfl⟩ := Script.performs_pure_iff.1 h
        refine ⟨rfl, rfl, fun config => ⟨nofun, ?_⟩⟩
        rintro ⟨other, ho, hc⟩
        obtain rfl := Except.ok.inj (ht.symm.trans ho)
        cases hn.symm.trans hc
      case h_2 config hc =>
        obtain ⟨rfl, rfl, rfl⟩ := Script.performs_pure_iff.1 h
        refine ⟨rfl, rfl, fun known => ⟨?_, ?_⟩⟩
        · intro hk
          obtain rfl := Except.ok.inj hk
          exact ⟨text, ht, hc⟩
        · rintro ⟨other, ho, hk⟩
          obtain rfl := Except.ok.inj (ht.symm.trans ho)
          exact congrArg _ (Option.some.inj (hc.symm.trans hk))

/-- Reading the program changes nothing and gives it exactly if the store has it. -/
theorem loadsProgram_of_performs {path : String} {result : Except Failure Program}
    (h : (readProgram path).Performs store attempts result after) :
    after = store ∧ attempts = [] ∧
      ∀ program, result = .ok program ↔ LoadsProgram store path program := by
  replace h := h.of_readText
  split at h
  case h_1 error he =>
    obtain ⟨rfl, rfl, rfl⟩ := Script.performs_pure_iff.1 h
    refine ⟨rfl, rfl, fun program => ⟨nofun, ?_⟩⟩
    rintro ⟨text, ht, -⟩
    cases he.symm.trans ht
  case h_2 text ht =>
    obtain ⟨rfl, rfl, rfl⟩ := Script.performs_pure_iff.1 h
    refine ⟨rfl, rfl, fun program => ?_⟩
    rw [mapError_eq_ok]
    constructor
    · exact fun hp => ⟨text, ht, hp⟩
    · rintro ⟨other, ho, hp⟩
      obtain rfl := Except.ok.inj (ht.symm.trans ho)
      exact hp

variable {options : RunnerOptions} {program : Program} {config : Config} {machine : Machine}
  {run : Run}

/-- A store has one program and one set-up at most. -/
theorem Loads.unique {program' : Program} {config' : Config}
    (h : options.Loads platform store program config)
    (h' : options.Loads platform store program' config') :
    program = program' ∧ config = config' := by
  obtain ⟨hc, text, ht, hp⟩ := h
  obtain ⟨hc', text', ht', hp'⟩ := h'
  obtain rfl := Except.ok.inj (ht.symm.trans ht')
  refine ⟨Except.ok.inj (hp.symm.trans hp'), ?_⟩
  cases hpath : options.config with
  | none =>
    rw [hpath] at hc hc'
    exact hc.trans hc'.symm
  | some path =>
    rw [hpath] at hc hc'
    obtain ⟨known, hk, hc⟩ := hc
    obtain ⟨known', hk', hc'⟩ := hc'
    obtain rfl := Except.ok.inj (hk.symm.trans hk')
    exact Option.some.inj (hc.symm.trans hc')

/-- A store has one run at most. -/
theorem Loaded.unique {first second : Run} (hf : options.Loaded platform store first)
    (hs : options.Loaded platform store second) : first = second := by
  obtain ⟨program, config, machine, hl, hm, hr⟩ := hf
  obtain ⟨program', config', machine', hl', hm', hr'⟩ := hs
  obtain ⟨rfl, rfl⟩ := hl.unique hl'
  obtain rfl := Option.some.inj (hm.symm.trans hm')
  exact hr.unique hr'

/-- There is no machine if its data do not fit into one piece of memory. -/
theorem machine?_eq_none_iff (options : RunnerOptions) (program : Program) (config : Config) :
    options.machine? program config = none ↔ DataMemory.byteLimit < 4 * config.dataWords := by
  rw [machine?, Option.map_eq_none_iff, Machine.start?, Option.map_eq_none_iff,
    DataMemory.allocate?]
  split
  case isTrue h => exact ⟨nofun, fun hlt => absurd h (Nat.not_le.2 hlt)⟩
  case isFalse h => exact ⟨fun _ => Nat.not_le.1 h, fun _ => rfl⟩

/-- A machine has the set-up that it is made with. -/
theorem config_of_machine? (h : options.machine? program config = some machine) :
    machine.state.cpu.config = config := by
  obtain ⟨start, hs, rfl⟩ := Option.map_eq_some_iff.1 h
  obtain ⟨data, -, rfl⟩ := Option.map_eq_some_iff.1 hs
  split <;> rfl

/-- The number of data words has 64 bits at the end of a run too. -/
theorem Loaded.dataWords_lt (h : options.Loaded platform store run) :
    run.machine.state.cpu.config.dataWords < Nat.pow 2 64 := by
  obtain ⟨program, config, machine, -, hm, hr⟩ := h
  have hfits : ¬ DataMemory.byteLimit < 4 * config.dataWords := by
    rw [← machine?_eq_none_iff options program, hm]
    nofun
  rw [Machine.Runs.alike hr |>.config, config_of_machine? hm]
  have hlimit : DataMemory.byteLimit < Nat.pow 2 64 := by decide
  omega

/-- Waiting for a run changes nothing and gives the run. -/
theorem run_of_performs (h : (await machine).Performs store attempts run after) :
    after = store ∧ attempts = [] ∧ run.IsOf machine := by
  unfold await at h
  dsimp only at h
  split at h
  case h_1 => cases h
  case h_2 hne =>
    obtain ⟨rfl, rfl, rfl⟩ := Script.performs_pure_iff.1 h
    rcases machine.goesOn_or_runs_run with ⟨-, he⟩ | hr
    · exact absurd he hne
    · exact ⟨rfl, rfl, hr⟩

/-- The final state of a run is saved, if that is asked for, with these attempts. -/
def Saves (options : RunnerOptions) (platform : Platform) (run : Run) (store : Store)
    (attempts : List WriteAttempt) (after : Store) : Prop :=
  match options.dumpState with
  | none => attempts = [] ∧ after = store
  | some path =>
    attempts = [⟨path, platform.stateText run.machine.state.cpu, .ok ()⟩] ∧
      store.write path (platform.stateText run.machine.state.cpu) = .ok after

/-- How the runner can end: where it gives up, or that it does all. -/
inductive Ends (options : RunnerOptions) (platform : Platform) (store : Store) :
    List WriteAttempt → Outcome → Store → Prop
  /-- There is no set-up or no program. -/
  | unloaded (failure : Failure)
    (hn : ∀ program config, ¬ options.Loads platform store program config) :
    Ends options platform store [] (.failed failure "") store
  /-- There cannot be memory for the data. -/
  | unheld {program : Program} {config : Config} (hl : options.Loads platform store program config)
    (hm : options.machine? program config = none) :
    Ends options platform store [] (.stopped .capacity) store
  /-- The state cannot be saved. -/
  | unsaved {run : Run} {path : String} (error : FileError) (failure : Failure)
    (hl : options.Loaded platform store run) (hd : options.dumpState = some path) :
    Ends options platform store
      [⟨path, platform.stateText run.machine.state.cpu, .error error⟩] (.failed failure "") store
  /-- The run does not halt. -/
  | unhalted {run : Run} {attempts : List WriteAttempt} {after : Store} {failure : Failure}
    (hl : options.Loaded platform store run)
    (hs : options.Saves platform run store attempts after) (hf : run.failure? = some failure) :
    Ends options platform store attempts (.failed failure "") after
  /-- The addresses of the data cannot be computed. -/
  | unlisted {run : Run} {attempts : List WriteAttempt} {after : Store}
    (hl : options.Loaded platform store run)
    (hs : options.Saves platform run store attempts after) (hf : run.failure? = none)
    (hc : platform.refusesRow run.machine.state.data.words.size = true) :
    Ends options platform store attempts (.stopped .product) after
  /-- The trace cannot be written. -/
  | untraced {run : Run} {attempts : List WriteAttempt} {after : Store} (error : FileError)
    (failure : Failure) (hl : options.Loaded platform store run)
    (hs : options.Saves platform run store attempts after) (hf : run.failure? = none) :
    Ends options platform store (attempts ++ [⟨options.output, run.trace, .error error⟩])
      (.failed failure "") after
  /-- The trace is written. -/
  | finished {run : Run} {attempts : List WriteAttempt} {middle after : Store}
    (hl : options.Loaded platform store run)
    (hs : options.Saves platform run store attempts middle) (hf : run.failure? = none)
    (hw : middle.write options.output run.trace = .ok after) :
    Ends options platform store (attempts ++ [⟨options.output, run.trace, .ok ()⟩]) {} after

/-- Saving the state is one attempt, if it is asked for. -/
theorem saves_of_performs {result : Except Failure Unit}
    (h : (writeState platform run.machine.state.cpu options.dumpState).Performs store attempts
      result after) :
    (result = .ok () ∧ options.Saves platform run store attempts after) ∨
      ∃ path error failure, options.dumpState = some path ∧ result = .error failure ∧
        attempts = [⟨path, platform.stateText run.machine.state.cpu, .error error⟩] ∧
        after = store := by
  unfold Saves
  cases hd : options.dumpState with
  | none =>
    rw [hd] at h
    obtain ⟨rfl, rfl, rfl⟩ := Script.performs_pure_iff.1 h
    exact .inl ⟨rfl, rfl, rfl⟩
  | some path =>
    rw [hd] at h
    obtain ⟨written, middle, rest, rfl, hn, hw⟩ := Script.Performs.of_writeText h
    obtain ⟨rfl, rfl, rfl⟩ := Script.performs_pure_iff.1 hn
    rcases hw with ⟨rfl, hw⟩ | ⟨⟨error, rfl⟩, rfl⟩
    · exact .inl ⟨rfl, rfl, hw⟩
    · exact .inr ⟨path, error, _, rfl, rfl, rfl, rfl⟩

/-- The runner ends in one of these ways when the state is saved. -/
theorem ends_of_writeTrace {front : List WriteAttempt} {middle : Store}
    (hl : options.Loaded platform store run) (hs : options.Saves platform run store front middle)
    (h : (writeTrace platform run options.output).Performs middle attempts outcome after) :
    options.Ends platform store (front ++ attempts) outcome after := by
  unfold writeTrace at h
  split at h
  case h_1 failure hf =>
    obtain ⟨rfl, rfl, rfl⟩ := Script.performs_pure_iff.1 h
    rw [List.append_nil]
    exact .unhalted hl hs hf
  case h_2 hf =>
    split at h
    case isTrue hc =>
      obtain ⟨rfl, rfl, rfl⟩ := Script.performs_pure_iff.1 h
      rw [List.append_nil]
      exact .unlisted hl hs hf hc
    case isFalse =>
      obtain ⟨written, _, _, rfl, hn, hw⟩ := Script.Performs.of_writeText h
      rcases hw with ⟨rfl, hw⟩ | ⟨⟨error, rfl⟩, rfl⟩
      · obtain ⟨rfl, rfl, rfl⟩ := Script.performs_pure_iff.1 hn
        exact .finished hl hs hf hw
      · obtain ⟨rfl, rfl, rfl⟩ := Script.performs_pure_iff.1 hn
        exact .untraced error _ hl hs hf

/-- The runner ends in one of these ways when there is a run. -/
theorem ends_of_report (hl : options.Loaded platform store run)
    (h : (options.report platform run).Performs store attempts outcome after) :
    options.Ends platform store attempts outcome after := by
  obtain ⟨_, _, _, _, hsave, hn, rfl⟩ := Script.Performs.of_bind h
  rcases saves_of_performs hsave with ⟨rfl, hs⟩ | ⟨path, error, failure, hd, rfl, rfl, rfl⟩
  case inl => exact ends_of_writeTrace hl hs hn
  case inr =>
    obtain ⟨rfl, rfl, rfl⟩ := Script.performs_pure_iff.1 hn
    exact .unsaved error failure hl hd

/-- The runner ends in one of these ways. -/
theorem ends_of_performs
    (h : (options.script platform).Performs store attempts outcome after) :
    options.Ends platform store attempts outcome after := by
  obtain ⟨_, _, _, _, hread, hn, rfl⟩ := Script.Performs.of_bind h
  obtain ⟨rfl, rfl, hconfig⟩ := loadsConfig_of_performs hread
  rw [List.nil_append]
  split at hn
  case h_1 failure =>
    obtain ⟨rfl, rfl, rfl⟩ := Script.performs_pure_iff.1 hn
    refine .unloaded failure fun program config => ?_
    rintro ⟨hc, -⟩
    cases (hconfig config).2 hc
  case h_2 config =>
    obtain ⟨_, _, _, _, hread', hn', rfl⟩ := Script.Performs.of_bind hn
    obtain ⟨rfl, rfl, hprogram⟩ := loadsProgram_of_performs hread'
    rw [List.nil_append]
    split at hn'
    case h_1 failure =>
      obtain ⟨rfl, rfl, rfl⟩ := Script.performs_pure_iff.1 hn'
      refine .unloaded failure fun program config => ?_
      rintro ⟨-, hp⟩
      cases (hprogram program).2 hp
    case h_2 program =>
      have hl : options.Loads platform _ program config :=
        ⟨(hconfig config).1 rfl, (hprogram program).1 rfl⟩
      split at hn'
      case h_1 hm =>
        obtain ⟨rfl, rfl, rfl⟩ := Script.performs_pure_iff.1 hn'
        exact .unheld hl hm
      case h_2 machine hm =>
        obtain ⟨_, run, _, _, hrun, hreport, rfl⟩ := Script.Performs.of_bind hn'
        obtain ⟨rfl, rfl, hr⟩ := run_of_performs hrun
        exact ends_of_report ⟨program, config, machine, hl, hm, hr⟩ hreport

/-- What the runner leaves behind. -/
structure Leaves (options : RunnerOptions) (platform : Platform) (store : Store)
    (attempts : List WriteAttempt) (outcome : Outcome) (after : Store) : Prop where
  /-- If it fails, everything is as before, or all but the file for the final state of the run. -/
  failed : outcome.code ≠ 0 → after = store ∨ ∃ run path text, options.Loaded platform store run ∧
    options.dumpState = some path ∧ run.machine.state.cpu.ShownBy text ∧
    store.Wrote path text after
  /-- Whenever program and set-up are there and there can be memory for the data, the program is
  run to an end, and the final state is the first text that is tried, if it is asked for, however
  the run ends. If the attempt succeeds but the tool fails, that is all; if the attempt fails, so
  does the tool, and everything is as before. -/
  saved : ∀ program config, options.Loads platform store program config →
    4 * config.dataWords ≤ DataMemory.byteLimit → ∃ run, options.Loaded platform store run ∧
      ∀ path, options.dumpState = some path → ∃ text written rest,
        run.machine.state.cpu.ShownBy text ∧ attempts = ⟨path, text, written⟩ :: rest ∧
        (written = .ok () → outcome.code ≠ 0 → store.Wrote path text after) ∧
        (written ≠ .ok () → outcome.code ≠ 0 ∧ after = store)
  /-- If there cannot be memory for the data, nothing is run and everything is as before. -/
  unheld : ∀ program config, options.Loads platform store program config →
    DataMemory.byteLimit < 4 * config.dataWords →
      outcome = .stopped .capacity ∧ attempts = [] ∧ after = store
  /-- If it succeeds, the program has halted, the trace is written, the final state is too unless
  both go to one file, and no other file has changed. -/
  succeeded : outcome.code = 0 → ∃ run kind text, options.Loaded platform store run ∧
    run.ending = .halted kind ∧ run.machine.state.cpu.ShownBy text ∧
    ∀ name, (store.Reaches options.output name → after.content? name = some run.trace.toUTF8) ∧
      (¬ store.Reaches options.output name →
        (∀ path, options.dumpState = some path → store.Reaches path name →
          after.content? name = some text.toUTF8) ∧
        ((∀ path, options.dumpState = some path → ¬ store.Reaches path name) →
          after.content? name = store.content? name))
  /-- With a run that halts it fails only if its last attempt is refused, or if the platform stops
  it because the data have more words than addresses. -/
  refused : outcome.code ≠ 0 → ∀ run kind, options.Loaded platform store run →
    run.ending = .halted kind →
      (∃ front path content error, attempts = front ++ [⟨path, content, .error error⟩]) ∨
        platform.checked = true ∧ Word.rowLimit < run.machine.state.data.words.size

/-- Nothing is saved if no path is given, else only the file of the path changes. -/
theorem Saves.none_or_some (h : options.Saves platform run store attempts after) :
    (options.dumpState = none ∧ attempts = [] ∧ after = store) ∨
      ∃ path, options.dumpState = some path ∧
        attempts = [⟨path, platform.stateText run.machine.state.cpu, .ok ()⟩] ∧
        store.Wrote path (platform.stateText run.machine.state.cpu) after := by
  unfold Saves at h
  split at h
  case h_1 hd => exact .inl ⟨hd, h⟩
  case h_2 path hd => exact .inr ⟨path, hd, h.1, Store.wrote_of_write h.2⟩

/-- There is no run without memory for the data. -/
theorem Loaded.fits (h : options.Loaded platform store run)
    (hl : options.Loads platform store program config) :
    ¬ DataMemory.byteLimit < 4 * config.dataWords := by
  obtain ⟨program', config', machine, hl', hm, -⟩ := h
  obtain ⟨rfl, rfl⟩ := hl.unique hl'
  rw [← machine?_eq_none_iff options program, hm]
  nofun

/-- A platform that shows states shows the final one of a run. -/
theorem Loaded.shownBy (hshows : platform.ShowsStates) (h : options.Loaded platform store run) :
    run.machine.state.cpu.ShownBy (platform.stateText run.machine.state.cpu) :=
  hshows _ h.dataWords_lt

/-- A tool that fails after the run leaves what was saved. -/
theorem leaves_of_saved (hshows : platform.ShowsStates) {rest : List WriteAttempt}
    (hl : options.Loaded platform store run) (hs : options.Saves platform run store attempts after)
    (hc : outcome.code ≠ 0)
    (hr : run.failure? = none → (∃ path content error, rest = [⟨path, content, .error error⟩]) ∨
      platform.refusesRow run.machine.state.data.words.size = true) :
    options.Leaves platform store (attempts ++ rest) outcome after := by
  have hshown := hl.shownBy hshows
  have hrefused : ∀ other kind, options.Loaded platform store other →
      other.ending = .halted kind →
      (∃ front path content error, attempts ++ rest = front ++ [⟨path, content, .error error⟩]) ∨
        platform.checked = true ∧ Word.rowLimit < other.machine.state.data.words.size := by
    intro other kind ho hk
    obtain rfl := hl.unique ho
    obtain ⟨_, _, _, -, -, hrun⟩ := hl
    rcases hr (hrun.failure?_eq_none_iff.2 ⟨kind, hk⟩) with ⟨path, content, error, rfl⟩ | hc
    · exact .inl ⟨attempts, path, content, error, rfl⟩
    · rw [Platform.refusesRow, Bool.and_eq_true, decide_eq_true_iff] at hc
      exact .inr hc
  rcases hs.none_or_some with ⟨hd, -, rfl⟩ | ⟨path, hd, rfl, hw⟩
  case inl =>
    exact {
      failed := fun _ => .inl rfl
      saved := fun _ _ _ _ => ⟨run, hl, fun path hp => nomatch hd.symm.trans hp⟩
      unheld := fun _ _ hloads hlt => absurd hlt (hl.fits hloads)
      succeeded := fun hz => absurd hz hc
      refused := fun _ => hrefused }
  case inr =>
    exact {
      failed := fun _ => .inr ⟨run, path, _, hl, hd, hshown, hw⟩
      saved := by
        refine fun _ _ _ _ => ⟨run, hl, fun known hp => ⟨_, .ok (), rest, hshown, ?_⟩⟩
        obtain rfl := Option.some.inj (hd.symm.trans hp)
        exact ⟨rfl, fun _ _ => hw, fun hn => absurd rfl hn⟩
      unheld := fun _ _ hloads hlt => absurd hlt (hl.fits hloads)
      succeeded := fun hz => absurd hz hc
      refused := fun _ => hrefused }

/-- A tool that succeeds leaves what was saved, and the trace. -/
theorem leaves_of_traced (hshows : platform.ShowsStates) {middle : Store}
    {rest : List WriteAttempt} (hl : options.Loaded platform store run)
    (hs : options.Saves platform run store attempts middle) (hf : run.failure? = none)
    (hw : middle.Wrote options.output run.trace after) :
    options.Leaves platform store (attempts ++ rest) {} after := by
  have hshown := hl.shownBy hshows
  obtain ⟨kind, hk⟩ : ∃ kind, run.ending = .halted kind := by
    obtain ⟨_, _, _, -, -, hrun⟩ := hl
    exact hrun.failure?_eq_none_iff.1 hf
  have hzero : ∀ {P : Prop}, ({} : Outcome).code ≠ 0 → P := fun hc => absurd rfl hc
  rcases hs.none_or_some with ⟨hd, -, rfl⟩ | ⟨path, hd, rfl, hsaved⟩
  case inl =>
    exact {
      failed := hzero
      saved := fun _ _ _ _ => ⟨run, hl, fun path hp => nomatch hd.symm.trans hp⟩
      unheld := fun _ _ hloads hlt => absurd hlt (hl.fits hloads)
      succeeded := by
        refine fun _ => ⟨run, kind, _, hl, hk, hshown, fun name => ⟨hw.content name, fun hn => ?_⟩⟩
        exact ⟨fun path hp => (nomatch hd.symm.trans hp), fun _ => hw.others name hn⟩
      refused := hzero }
  case inr =>
    exact {
      failed := hzero
      saved := by
        refine fun _ _ _ _ => ⟨run, hl, fun known hp => ⟨_, .ok (), rest, hshown, ?_⟩⟩
        obtain rfl := Option.some.inj (hd.symm.trans hp)
        exact ⟨rfl, fun _ hc => hzero hc, fun hn => absurd rfl hn⟩
      unheld := fun _ _ hloads hlt => absurd hlt (hl.fits hloads)
      succeeded := by
        refine fun _ => ⟨run, kind, _, hl, hk, hshown, fun name => ⟨fun hr => ?_, fun hr => ?_⟩⟩
        · exact hw.content name ((hsaved.reaches _ _).2 hr)
        · have hkept := hw.others name fun hm => hr ((hsaved.reaches _ _).1 hm)
          refine ⟨fun known hp hreach => ?_, fun hnone => ?_⟩
          · obtain rfl := Option.some.inj (hd.symm.trans hp)
            exact hkept.trans (hsaved.content name hreach)
          · exact hkept.trans (hsaved.others name (hnone path hd))
      refused := hzero }

/-- However the runner ends, it leaves what it should. -/
theorem leaves_of_ends (hshows : platform.ShowsStates)
    (h : options.Ends platform store attempts outcome after) :
    options.Leaves platform store attempts outcome after := by
  cases h with
  | unloaded failure hn =>
    exact {
      failed := fun _ => .inl rfl
      saved := fun program config hl => absurd hl (hn program config)
      unheld := fun program config hl => absurd hl (hn program config)
      succeeded := nofun
      refused := fun _ run _ ⟨program, config, _, hl, _⟩ => absurd hl (hn program config) }
  | @unheld program config hl hm =>
    have hlt := (machine?_eq_none_iff _ _ _).1 hm
    exact {
      failed := fun _ => .inl rfl
      saved := by
        intro program' config' hl' hle
        obtain ⟨rfl, rfl⟩ := hl.unique hl'
        exact absurd hlt (Nat.not_lt.2 hle)
      unheld := fun _ _ _ _ => ⟨rfl, rfl, rfl⟩
      succeeded := nofun
      refused := fun _ run _ hloaded => absurd hlt (hloaded.fits hl) }
  | unsaved error failure hl hd =>
    have hshown := hl.shownBy hshows
    exact {
      failed := fun _ => .inl rfl
      saved := by
        refine fun _ _ _ _ => ⟨_, hl, fun known hp => ⟨_, .error error, [], hshown, ?_⟩⟩
        obtain rfl := Option.some.inj (hd.symm.trans hp)
        exact ⟨rfl, nofun, fun _ => ⟨Nat.one_ne_zero, rfl⟩⟩
      unheld := fun _ _ hloads hlt => absurd hlt (hl.fits hloads)
      succeeded := nofun
      refused := fun _ _ _ _ _ => .inl ⟨[], _, _, error, rfl⟩ }
  | unhalted hl hs hf =>
    refine List.append_nil attempts ▸ leaves_of_saved hshows hl hs Nat.one_ne_zero fun hnone => ?_
    cases hf.symm.trans hnone
  | unlisted hl hs hf hc =>
    exact List.append_nil attempts ▸ leaves_of_saved hshows hl hs (by decide) fun _ => .inr hc
  | untraced error failure hl hs hf =>
    exact leaves_of_saved hshows hl hs Nat.one_ne_zero fun _ =>
      .inl ⟨options.output, _, error, rfl⟩
  | finished hl hs hf hw => exact leaves_of_traced hshows hl hs hf (Store.wrote_of_write hw)

/-! ### Coming to an end -/

/-- Reading the set-up ends. -/
theorem ends_readConfig (platform : Platform) (path : Option String) :
    (readConfig platform path).Ends := by
  cases path with
  | none => trivial
  | some path =>
    refine Script.ends_readText fun content => ?_
    split
    · trivial
    · split <;> trivial

/-- Reading the program ends. -/
theorem ends_readProgram (path : String) : (readProgram path).Ends := by
  refine Script.ends_readText fun content => ?_
  split <;> trivial

/-- Saving the state ends. -/
theorem ends_writeState (cpu : Cpu) (path : Option String) :
    (writeState platform cpu path).Ends := by
  cases path with
  | none => trivial
  | some path => exact Script.ends_writeText fun _ => trivial

/-- Writing the trace ends. -/
theorem ends_writeTrace (run : Run) (path : String) : (writeTrace platform run path).Ends := by
  unfold writeTrace
  split
  · trivial
  · split
    · trivial
    · refine Script.ends_writeText fun written => ?_
      split <;> trivial

/-- Reporting a run ends. -/
theorem ends_report (options : RunnerOptions) (run : Run) :
    (options.report platform run).Ends := by
  refine (ends_writeState _ _).bind fun saved => ?_
  split
  · trivial
  · exact ends_writeTrace run options.output

/-- Reading the set-up comes to what the store has. -/
theorem runOn?_readConfig (platform : Platform) (path : Option String) (store : Store) :
    ∃ result, (readConfig platform path).runOn? store = some (result, store) ∧
      ∀ config, result = .ok config ↔ LoadsConfig platform store path config := by
  obtain ⟨result, after, hr⟩ := (ends_readConfig platform path).runOn? store
  obtain ⟨_, hp⟩ := Script.performs_of_runOn? hr
  obtain ⟨rfl, -, hspec⟩ := loadsConfig_of_performs hp
  exact ⟨result, hr, hspec⟩

/-- Reading the program comes to what the store has. -/
theorem runOn?_readProgram (path : String) (store : Store) :
    ∃ result, (readProgram path).runOn? store = some (result, store) ∧
      ∀ program, result = .ok program ↔ LoadsProgram store path program := by
  obtain ⟨result, after, hr⟩ := (ends_readProgram path).runOn? store
  obtain ⟨_, hp⟩ := Script.performs_of_runOn? hr
  obtain ⟨rfl, -, hspec⟩ := loadsProgram_of_performs hp
  exact ⟨result, hr, hspec⟩

/-- Waiting for a run comes to it, unless the machine goes on forever. -/
theorem runOn?_await (machine : Machine) (store : Store) :
    (machine.GoesOn ∧ (await machine).runOn? store = none) ∨
      (¬ machine.GoesOn ∧ (await machine).runOn? store = some (machine.run, store)) := by
  rcases machine.goesOn_or_runs_run with ⟨hg, he⟩ | hr
  · refine .inl ⟨hg, ?_⟩
    rw [await, he]
    rfl
  · refine .inr ⟨hr.not_goesOn, ?_⟩
    unfold await
    dsimp only
    split
    case h_1 he => exact absurd he hr.ne_endless
    case h_2 => rfl

/-- The runner comes to no end exactly if there is a machine and it goes on forever. -/
theorem runOn?_eq_none_iff :
    (options.script platform).runOn? store = none ↔
      ∃ program config machine, options.Loads platform store program config ∧
        options.machine? program config = some machine ∧ machine.GoesOn := by
  obtain ⟨config?, hreads, hconfig⟩ := runOn?_readConfig platform options.config store
  obtain ⟨program?, hreads', hprogram⟩ := runOn?_readProgram options.input store
  rw [script, Script.runOn?_bind, hreads]
  cases config? with
  | error failure =>
    refine ⟨nofun, ?_⟩
    rintro ⟨program, config, _, ⟨hc, -⟩, -⟩
    cases (hconfig config).2 hc
  | ok config =>
    have hc := (hconfig config).1 rfl
    change ((readProgram options.input >>= _).runOn? store) = none ↔ _
    rw [Script.runOn?_bind, hreads']
    cases program? with
    | error failure =>
      refine ⟨nofun, ?_⟩
      rintro ⟨program, _, _, ⟨-, hp⟩, -⟩
      cases (hprogram program).2 hp
    | ok program =>
      have hl : options.Loads platform store program config := ⟨hc, (hprogram program).1 rfl⟩
      dsimp only [Option.bind_some]
      split
      case h_1 hm =>
        refine ⟨nofun, ?_⟩
        rintro ⟨program', config', machine, hl', hm', -⟩
        obtain ⟨rfl, rfl⟩ := hl.unique hl'
        cases hm.symm.trans hm'
      case h_2 machine hm =>
        rw [Script.runOn?_bind]
        rcases runOn?_await machine store with ⟨hg, hr⟩ | ⟨hg, hr⟩
        · rw [hr]
          exact ⟨fun _ => ⟨program, config, machine, hl, hm, hg⟩, fun _ => rfl⟩
        · obtain ⟨outcome, after, hreport⟩ := (ends_report options machine.run).runOn? store
          rw [hr]
          constructor
          · intro hnone
            cases hreport.symm.trans hnone
          · rintro ⟨program', config', machine', hl', hm', hg'⟩
            obtain ⟨rfl, rfl⟩ := hl.unique hl'
            obtain rfl := Option.some.inj (hm.symm.trans hm')
            exact absurd hg' hg

end RunnerOptions

end MiniRisc
