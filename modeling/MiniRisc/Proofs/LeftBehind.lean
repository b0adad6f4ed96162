import MiniRisc.Proofs.SavedState
import MiniRisc.Tool

/-!
# What a tool leaves behind

The tools read all that they need before they write, and give up at the first failure. So a tool
that fails leaves every file as it was, but for the final state that the runner was asked to save,
and a tool that succeeds changes no file but those that it was asked to write. This holds whichever
attempts at writing are refused, however arguments are read, and on every platform that shows states
as it should.
-/

namespace MiniRisc

variable {platform : Platform} {store after : Store} {attempts : List WriteAttempt}
  {outcome : Outcome}

namespace AssemblerOptions

/-- What the assembler leaves behind. -/
structure Leaves (options : AssemblerOptions) (store : Store) (attempts : List WriteAttempt)
    (outcome : Outcome) (after : Store) : Prop where
  /-- If it fails, everything is as before. -/
  failed : outcome.code ≠ 0 → after = store
  /-- Else the words of the source are written, and nothing else. -/
  succeeded : outcome.code = 0 → ∃ source assembly, store.read options.input = .ok source ∧
    Assembly.ofSource source = .ok assembly ∧ store.Wrote options.output assembly.text after
  /-- With an accepted source it fails only if its one attempt is refused. -/
  refused : outcome.code ≠ 0 → ∀ source assembly, store.read options.input = .ok source →
    Assembly.ofSource source = .ok assembly →
      ∃ error, attempts = [⟨options.output, assembly.text, .error error⟩]

/-- The assembler ends. -/
theorem ends_script (options : AssemblerOptions) : options.script.Ends := by
  refine Script.ends_readText fun content => ?_
  split
  · trivial
  · split
    · trivial
    · refine Script.ends_writeText fun written => ?_
      split <;> trivial

/-- The assembler writes once, when nothing else can fail any more. -/
theorem leaves_of_performs {options : AssemblerOptions}
    (h : options.script.Performs store attempts outcome after) :
    options.Leaves store attempts outcome after := by
  replace h := h.of_readText
  split at h
  case h_1 error he =>
    obtain ⟨rfl, rfl, rfl⟩ := Script.performs_pure_iff.1 h
    refine ⟨fun _ => rfl, fun hc => absurd hc Nat.one_ne_zero, fun _ source assembly hs _ => ?_⟩
    cases he.symm.trans hs
  case h_2 source hs =>
    split at h
    case h_1 error he =>
      obtain ⟨rfl, rfl, rfl⟩ := Script.performs_pure_iff.1 h
      refine ⟨fun _ => rfl, fun hc => absurd hc Nat.one_ne_zero, fun _ other assembly ho ha => ?_⟩
      obtain rfl := Except.ok.inj (hs.symm.trans ho)
      cases he.symm.trans ha
    case h_2 assembly ha =>
      obtain ⟨written, middle, rest, rfl, hn, hw⟩ := h.of_writeText
      obtain ⟨rfl, hw⟩ | ⟨⟨error, rfl⟩, rfl⟩ := hw
      · obtain ⟨rfl, rfl, rfl⟩ := Script.performs_pure_iff.1 hn
        exact ⟨fun hc => absurd rfl hc,
          fun _ => ⟨source, assembly, hs, ha, Store.wrote_of_write hw⟩, fun hc => absurd rfl hc⟩
      · obtain ⟨rfl, rfl, rfl⟩ := Script.performs_pure_iff.1 hn
        refine ⟨fun _ => rfl, fun hc => absurd hc Nat.one_ne_zero,
          fun _ other known ho hk => ⟨error, ?_⟩⟩
        obtain rfl := Except.ok.inj (hs.symm.trans ho)
        obtain rfl := Except.ok.inj (ha.symm.trans hk)
        rfl

end AssemblerOptions

namespace NamedProgram

/-- A store has a program at a path, with its name. -/
def Loads (store : Store) (path : String) (source : NamedProgram) : Prop :=
  ∃ text program, store.read path = .ok text ∧ Program.ofText text = .ok program ∧
    source = ⟨fileName path, program⟩

/-- Loading ends. -/
theorem ends_load (path : String) : (load path).Ends := by
  refine Script.ends_readText fun content => ?_
  split
  · trivial
  · split <;> trivial

/-- Loading changes nothing and gives the program exactly if the store has it. -/
theorem loads_of_performs {path : String} {result : Except Failure NamedProgram}
    (h : (load path).Performs store attempts result after) :
    after = store ∧ attempts = [] ∧ ∀ source, result = .ok source ↔ Loads store path source := by
  replace h := h.of_readText
  split at h
  case h_1 error he =>
    obtain ⟨rfl, rfl, rfl⟩ := Script.performs_pure_iff.1 h
    refine ⟨rfl, rfl, fun source => ⟨nofun, ?_⟩⟩
    rintro ⟨text, program, ht, -, -⟩
    cases he.symm.trans ht
  case h_2 text ht =>
    split at h
    case h_1 error he =>
      obtain ⟨rfl, rfl, rfl⟩ := Script.performs_pure_iff.1 h
      refine ⟨rfl, rfl, fun source => ⟨nofun, ?_⟩⟩
      rintro ⟨other, program, ho, hp, -⟩
      obtain rfl := Except.ok.inj (ht.symm.trans ho)
      cases he.symm.trans hp
    case h_2 program hp =>
      obtain ⟨rfl, rfl, rfl⟩ := Script.performs_pure_iff.1 h
      refine ⟨rfl, rfl, fun source => ⟨fun hs => ?_, ?_⟩⟩
      · exact ⟨text, program, ht, hp, (Except.ok.inj hs).symm⟩
      · rintro ⟨other, known, ho, hk, rfl⟩
        obtain rfl := Except.ok.inj (ht.symm.trans ho)
        obtain rfl := Except.ok.inj (hp.symm.trans hk)
        rfl

end NamedProgram

namespace ListerOptions

/-- The text that the lister shows or writes. -/
def shown (options : ListerOptions) (platform : Platform) (source : NamedProgram)
    (entries : List Word) : String :=
  options.render platform
    (Listing.ofProgram source entries options.maxInstructions options.labels)

/-- What the lister leaves behind. -/
structure Leaves (options : ListerOptions) (platform : Platform) (store : Store)
    (attempts : List WriteAttempt) (outcome : Outcome) (after : Store) : Prop where
  /-- If it fails, everything is as before. -/
  failed : outcome.code ≠ 0 → after = store
  /-- Else the listing is shown, or written where it is asked for, and nothing else. -/
  succeeded : outcome.code = 0 → ∃ source entries, NamedProgram.Loads store options.input source ∧
    options.startAddresses = .ok entries ∧
    match options.out with
    | none => outcome.output = options.shown platform source entries ∧ after = store
    | some path => store.Wrote path (options.shown platform source entries) after
  /-- With a program and addresses it fails only if its one attempt is refused, or if the platform
  stops it because the program has more words than addresses. -/
  refused : outcome.code ≠ 0 → ∀ source entries, NamedProgram.Loads store options.input source →
    options.startAddresses = .ok entries →
      (∃ path error, options.out = some path ∧
        attempts = [⟨path, options.shown platform source entries, .error error⟩]) ∨
      platform.checked = true ∧ Word.rowLimit < source.program.words.size

/-- The lister ends. -/
theorem ends_script (options : ListerOptions) (platform : Platform) :
    (options.script platform).Ends := by
  refine (NamedProgram.ends_load _).bind fun loaded => ?_
  split
  · trivial
  · split
    · trivial
    · split
      · trivial
      · dsimp only
        split
        · trivial
        · refine Script.ends_writeText fun written => ?_
          split <;> trivial

/-- The lister writes once at most, when nothing else can fail any more. -/
theorem leaves_of_performs {options : ListerOptions}
    (h : (options.script platform).Performs store attempts outcome after) :
    options.Leaves platform store attempts outcome after := by
  obtain ⟨_, _, _, _, hload, hn, rfl⟩ := h.of_bind
  obtain ⟨rfl, rfl, hloads⟩ := NamedProgram.loads_of_performs hload
  rw [List.nil_append]
  split at hn
  case h_1 failure =>
    obtain ⟨rfl, rfl, rfl⟩ := Script.performs_pure_iff.1 hn
    refine ⟨fun _ => rfl, fun hc => absurd hc Nat.one_ne_zero, fun _ source entries hl _ => ?_⟩
    cases (hloads source).2 hl
  case h_2 source =>
    have hl := (hloads source).1 rfl
    split at hn
    case h_1 error he =>
      obtain ⟨rfl, rfl, rfl⟩ := Script.performs_pure_iff.1 hn
      refine ⟨fun _ => rfl, fun hc => absurd hc Nat.one_ne_zero, fun _ source entries _ hs => ?_⟩
      cases he.symm.trans hs
    case h_2 entries he =>
      split at hn
      case isTrue hc =>
        obtain ⟨rfl, rfl, rfl⟩ := Script.performs_pure_iff.1 hn
        refine ⟨fun _ => rfl, fun hc => absurd hc (Nat.succ_ne_zero 100),
          fun _ other _ hother _ => .inr ?_⟩
        obtain rfl := Except.ok.inj ((hloads other).2 hother)
        rwa [Platform.refusesRow, Bool.and_eq_true, decide_eq_true_iff] at hc
      case isFalse =>
        dsimp only at hn
        split at hn
        case h_1 ho =>
          obtain ⟨rfl, rfl, rfl⟩ := Script.performs_pure_iff.1 hn
          refine ⟨fun _ => rfl, fun _ => ⟨source, entries, hl, he, ?_⟩, fun hc => absurd rfl hc⟩
          rw [ho]
          exact ⟨rfl, rfl⟩
        case h_2 path ho =>
          obtain ⟨written, _, _, rfl, hr, hw⟩ := hn.of_writeText
          obtain ⟨rfl, hw⟩ | ⟨⟨error, rfl⟩, rfl⟩ := hw
          · obtain ⟨rfl, rfl, rfl⟩ := Script.performs_pure_iff.1 hr
            refine ⟨fun hc => absurd rfl hc, fun _ => ⟨source, entries, hl, he, ?_⟩,
              fun hc => absurd rfl hc⟩
            rw [ho]
            exact Store.wrote_of_write hw
          · obtain ⟨rfl, rfl, rfl⟩ := Script.performs_pure_iff.1 hr
            refine ⟨fun _ => rfl, fun hc => absurd hc Nat.one_ne_zero,
              fun _ other addresses hother ha => .inl ⟨path, error, ho, ?_⟩⟩
            obtain rfl := Except.ok.inj ((hloads other).2 hother)
            obtain rfl := Except.ok.inj (he.symm.trans ha)
            rfl

end ListerOptions

namespace Tool

variable {readers : ArgumentReaders}

/-- What a tool leaves behind that was called with arguments. -/
def Leaves (tool : Tool) (readers : ArgumentReaders) (platform : Platform)
    (arguments : List String) (store : Store) (attempts : List WriteAttempt) (outcome : Outcome)
    (after : Store) : Prop :=
  match tool with
  | assembler => ∃ options, readers.assembler? arguments = some options ∧
    options.Leaves store attempts outcome after
  | runner => ∃ options, readers.runner? arguments = some options ∧
    options.Leaves platform store attempts outcome after
  | lister => ∃ options, readers.lister? arguments = some options ∧
    options.Leaves platform store attempts outcome after

/-- The runner was called for a machine that goes on forever. -/
def RunsForever (tool : Tool) (readers : ArgumentReaders) (platform : Platform)
    (arguments : List String) (store : Store) : Prop :=
  tool = runner ∧ ∃ options program config machine, readers.runner? arguments = some options ∧
    options.Loads platform store program config ∧
    options.machine? program config = some machine ∧ machine.GoesOn

/-- A program of one word, which adds zero to register zero, as text. -/
def idleText : String := "00000000000000000000000000010011"

/-- A store with that program and nothing else. -/
def idleStore : Store := Store.put {} "p" idleText.toUTF8

/-- What the runner is asked to do: a limit of one step, and the final state saved. -/
def idleOptions : RunnerOptions := ⟨"p", "t", none, some 1, some "s"⟩

/-- The machine with the program and the limit. -/
def idleMachine : Machine := (Machine.start ⟨#[0x00000013]⟩ {}).withLimit 1

/-- The text that is saved. -/
def idleState : String := Platform.standard.stateText idleMachine.run.machine.state.cpu

/-- The store has the text. -/
theorem idleStore_read : idleStore.read "p" = .ok idleText :=
  Store.read_put (by rfl : Store.target {} "p" = .ok ⟨.here, ["p"]⟩) idleText

/-- The text is that of the program. -/
theorem ofText_idleText : Program.ofText idleText = .ok ⟨#[0x00000013]⟩ := by decide +kernel

/-- The run hits its limit. -/
theorem failure?_idleRun :
    idleMachine.run.failure? = some ⟨"after 1 steps", [(Trap.stepLimit 1).message]⟩ := by rfl

/-- The runner can save the final state and then fail. -/
theorem performs_idle (hw : idleStore.write "s" idleState = .ok after) :
    (idleOptions.script .standard).Performs idleStore [⟨"s", idleState, .ok ()⟩]
      (.failed ⟨"after 1 steps", [(Trap.stepLimit 1).message]⟩ "") after := by
  have hread : (RunnerOptions.readProgram "p").Performs idleStore [] (.ok ⟨#[0x00000013]⟩)
      idleStore := by
    refine .read ?_
    rw [idleStore_read]
    change (pure ((Program.ofText idleText).mapError _) : Script _).Performs _ _ _ _
    rw [ofText_idleText]
    exact .done
  have hawait : (RunnerOptions.await idleMachine).Performs idleStore [] idleMachine.run
      idleStore := .done
  have hsave : (RunnerOptions.writeState .standard idleMachine.run.machine.state.cpu
      (some "s")).Performs idleStore [⟨"s", idleState, .ok ()⟩] (.ok ()) after := .written hw .done
  have htrace : (RunnerOptions.writeTrace .standard idleMachine.run "t").Performs after []
      (.failed ⟨"after 1 steps", [(Trap.stepLimit 1).message]⟩ "") after := by
    rw [RunnerOptions.writeTrace, failure?_idleRun]
    exact .done
  exact hread.bind (hawait.bind (hsave.bind htrace))

end Tool

end MiniRisc
