import MiniRisc.Tool.Store

/-!
# Attempts at writing

A script is carried out on a store, and makes attempts at writing files one after the other. Each
stores the whole text or fails, for whatever reason, without a trace. So a script can end in several
ways on one store, or in none; what it reads is always what the store has at that time.
-/

namespace MiniRisc

/-- An attempt to write a file. -/
structure WriteAttempt where
  /-- The path. -/
  path : String
  /-- The text. -/
  content : String
  /-- Whether the text was written, or why not. -/
  written : Except FileError Unit

namespace Script

/-- A script makes these attempts on a store, gives the result and leaves another store. What is
read is what the store has. An attempt is made as the store allows it, or is refused for any reason
and changes nothing. -/
inductive Performs {α : Type} :
    Script α → Store → List WriteAttempt → α → Store → Prop
  /-- The result. -/
  | done {result : α} {store : Store} : Performs (.done result) store [] result store
  /-- A file is read. -/
  | read {path : String} {next : Except FileError String → Script α} {store after : Store}
    {attempts : List WriteAttempt} {result : α}
    (h : Performs (next (store.read path)) store attempts result after) :
    Performs (.read path next) store attempts result after
  /-- A file is written. -/
  | written {path content : String} {next : Except FileError Unit → Script α}
    {store middle after : Store} {attempts : List WriteAttempt} {result : α}
    (hw : store.write path content = .ok middle)
    (h : Performs (next (.ok ())) middle attempts result after) :
    Performs (.write path content next) store (⟨path, content, .ok ()⟩ :: attempts) result after
  /-- A file cannot be written. -/
  | refused {path content : String} {next : Except FileError Unit → Script α}
    {store after : Store} {attempts : List WriteAttempt} {result : α} (error : FileError)
    (h : Performs (next (.error error)) store attempts result after) :
    Performs (.write path content next) store (⟨path, content, .error error⟩ :: attempts) result
      after

/-- A script comes to an end, whatever it reads and whichever attempts are refused. -/
def Ends {α : Type} : Script α → Prop
  | .done _ => True
  | .read _ next => ∀ content, (next content).Ends
  | .write _ _ next => ∀ written, (next written).Ends
  | .endless => False

variable {α β : Type} {store after : Store} {attempts : List WriteAttempt}

/-- What a script comes to on a directory is one of the things that it may do. -/
theorem performs_of_runOn? {script : Script α} {result : α}
    (h : script.runOn? store = some (result, after)) :
    ∃ attempts, script.Performs store attempts result after := by
  induction script generalizing store with
  | done value =>
    cases h
    exact ⟨[], .done⟩
  | read path next ih =>
    obtain ⟨attempts, hp⟩ := ih _ h
    exact ⟨attempts, .read hp⟩
  | write path content next ih =>
    rw [runOn?] at h
    split at h
    case h_1 middle hw =>
      obtain ⟨attempts, hp⟩ := ih _ h
      exact ⟨_, .written hw hp⟩
    case h_2 error _ =>
      obtain ⟨attempts, hp⟩ := ih _ h
      exact ⟨_, .refused error hp⟩
  | endless => cases h

/-- Two scripts in a row come to what the second comes to with the result of the first. -/
theorem runOn?_bind (script : Script α) (next : α → Script β) (store : Store) :
    (script >>= next).runOn? store =
      (script.runOn? store).bind fun (value, middle) => (next value).runOn? middle := by
  induction script generalizing store with
  | done value => rfl
  | read path rest ih => exact ih _ _
  | write path content rest ih =>
    change runOn? (write path content fun written => (rest written) >>= next) store = _
    rw [runOn?, runOn?]
    split
    case h_1 middle _ => exact ih _ _
    case h_2 error _ => exact ih _ _
  | endless => rfl

/-- Two scripts in a row end if both do. -/
theorem Ends.bind {script : Script α} {next : α → Script β} (h : script.Ends)
    (hn : ∀ value, (next value).Ends) : (script >>= next).Ends := by
  induction script with
  | done value => exact hn value
  | read path rest ih => exact fun content => ih content (h content)
  | write path content rest ih => exact fun written => ih written (h written)
  | endless => exact h.elim

/-- A script that reads a file ends if what follows does, whatever is read. -/
theorem ends_readText {path : String} {next : Except FileError String → Script β}
    (h : ∀ content, (next content).Ends) : (readText path >>= next).Ends := h

/-- A script that writes a file ends if what follows does, written or refused. -/
theorem ends_writeText {path content : String} {next : Except FileError Unit → Script β}
    (h : ∀ written, (next written).Ends) : (writeText path content >>= next).Ends := h

/-- A script that ends comes to something on every directory. -/
theorem Ends.runOn? {script : Script α} (h : script.Ends) (store : Store) :
    ∃ result after, script.runOn? store = some (result, after) := by
  induction script generalizing store with
  | done value => exact ⟨value, store, rfl⟩
  | read path next ih => exact ih _ (h _) store
  | write path content next ih =>
    rw [Script.runOn?]
    split
    case h_1 middle _ => exact ih _ (h _) middle
    case h_2 error _ => exact ih _ (h _) store
  | endless => exact h.elim

/-- A script that only gives a result makes no attempt. -/
theorem performs_pure_iff {value result : α} :
    (pure value : Script α).Performs store attempts result after ↔
      result = value ∧ after = store ∧ attempts = [] := by
  constructor
  · intro h
    cases h
    exact ⟨rfl, rfl, rfl⟩
  · rintro ⟨rfl, rfl, rfl⟩
    exact .done

/-- Two scripts in a row make the attempts of both, the second where the first ended. -/
theorem Performs.of_bind {script : Script α} {next : α → Script β} {result : β}
    (h : (script >>= next).Performs store attempts result after) :
    ∃ first value middle rest, script.Performs store first value middle ∧
      (next value).Performs middle rest result after ∧ attempts = first ++ rest := by
  induction script generalizing store attempts with
  | done value => exact ⟨[], value, store, attempts, .done, h, rfl⟩
  | read path rest ih =>
    cases h with
    | read h =>
      obtain ⟨first, value, middle, others, hf, hn, he⟩ := ih _ h
      exact ⟨first, value, middle, others, .read hf, hn, he⟩
  | write path content rest ih =>
    cases h with
    | written hw h =>
      obtain ⟨first, value, middle, others, hf, hn, rfl⟩ := ih _ h
      exact ⟨_ :: first, value, middle, others, .written hw hf, hn, rfl⟩
    | refused error h =>
      obtain ⟨first, value, middle, others, hf, hn, rfl⟩ := ih _ h
      exact ⟨_ :: first, value, middle, others, .refused error hf, hn, rfl⟩
  | endless => cases h

/-- The attempts of one script and those of what follows are attempts of both in a row. -/
theorem Performs.bind {script : Script α} {next : α → Script β} {first rest : List WriteAttempt}
    {value : α} {middle : Store} {result : β} (hf : script.Performs store first value middle)
    (hn : (next value).Performs middle rest result after) :
    (script >>= next).Performs store (first ++ rest) result after := by
  induction hf with
  | done => exact hn
  | read _ ih => exact .read (ih hn)
  | written hw _ ih => exact .written hw (ih hn)
  | refused error _ ih => exact .refused error (ih hn)

/-- What follows the reading of a file gets what the store has. -/
theorem Performs.of_readText {path : String} {next : Except FileError String → Script β}
    {result : β} (h : (readText path >>= next).Performs store attempts result after) :
    (next (store.read path)).Performs store attempts result after := by
  cases h with
  | read h => exact h

/-- What follows an attempt learns of it, and goes on with the store that it left. -/
theorem Performs.of_writeText {path content : String} {next : Except FileError Unit → Script β}
    {result : β} (h : (writeText path content >>= next).Performs store attempts result after) :
    ∃ written middle rest, attempts = ⟨path, content, written⟩ :: rest ∧
      (next written).Performs middle rest result after ∧
      ((written = .ok () ∧ store.write path content = .ok middle) ∨
        ((∃ error, written = .error error) ∧ middle = store)) := by
  cases h with
  | written hw h => exact ⟨.ok (), _, _, rfl, h, .inl ⟨rfl, hw⟩⟩
  | refused error h => exact ⟨.error error, _, _, rfl, h, .inr ⟨⟨error, rfl⟩, rfl⟩⟩

end Script

end MiniRisc
