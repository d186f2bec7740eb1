import Transmux.CommandLine.Commands
import Transmux.CommandLine.Workspace

/-! What the steps of a command come to in a workspace. All steps before the first write are quiet:
what they leave behind is a longer log. -/

namespace Transmux.Workspace

variable {α β : Type} {w w' : Workspace}

/-- What a step comes to, and the state after it. -/
def perform (w : Workspace) (step : ExceptT Failure (StateM Workspace) α) :
    Except Failure α × Workspace :=
  step.run.run w

theorem perform_bind_ok {step : ExceptT Failure (StateM Workspace) α} {a : α}
    (next : α → ExceptT Failure (StateM Workspace) β) (h : w.perform step = (.ok a, w')) :
    w.perform (step >>= next) = w'.perform (next a) := by
  rw [perform, ExceptT.run_bind, StateT.run_bind, show step.run.run w = (Except.ok a, w') from h]
  rfl

theorem perform_bind_error {step : ExceptT Failure (StateM Workspace) α} {f : Failure}
    (next : α → ExceptT Failure (StateM Workspace) β) (h : w.perform step = (.error f, w')) :
    w.perform (step >>= next) = (.error f, w') := by
  rw [perform, ExceptT.run_bind, StateT.run_bind,
    show step.run.run w = (Except.error f, w') from h]
  rfl

theorem perform_attempt {ε : Type} (failure : ε → Failure) {step : StateM Workspace (Except ε α)}
    {x : Except ε α} (h : step.run w = (x, w')) :
    w.perform (attempt failure step) = (x.mapError failure, w') := by
  rw [perform, attempt, ExceptT.run_mk, StateT.run_bind, h]
  cases x <;> rfl

/-- A state whose log tells more. -/
def noted (w : Workspace) (notices : List Notice) : Workspace :=
  { w with notices := w.notices ++ notices }

@[simp]
theorem noted_nil (w : Workspace) : w.noted [] = w := by
  rw [noted, List.append_nil]

@[simp]
theorem noted_noted (w : Workspace) (notices more : List Notice) :
    (w.noted notices).noted more = w.noted (notices ++ more) := by
  rw [noted, noted, noted, List.append_assoc]

/-- A step that comes to something and only adds to the log. -/
def Quiet (w : Workspace) (step : ExceptT Failure (StateM Workspace) α) (x : Except Failure α) :
    Prop :=
  ∃ notices, w.perform step = (x, w.noted notices)

theorem Quiet.followed {step : ExceptT Failure (StateM Workspace) α} {a : α}
    {next : α → ExceptT Failure (StateM Workspace) β} {y : Except Failure β}
    (h : Quiet w step (.ok a)) (hnext : ∀ notices, Quiet (w.noted notices) (next a) y) :
    Quiet w (step >>= next) y := by
  obtain ⟨notices, hstep⟩ := h
  obtain ⟨more, hmore⟩ := hnext notices
  refine ⟨notices ++ more, ?_⟩
  rw [perform_bind_ok next hstep, hmore, noted_noted]

theorem Quiet.bind {step : ExceptT Failure (StateM Workspace) α} {x : Except Failure α}
    {next : α → ExceptT Failure (StateM Workspace) β} {y : α → Except Failure β}
    (h : Quiet w step x) (hnext : ∀ a notices, Quiet (w.noted notices) (next a) (y a)) :
    Quiet w (step >>= next) (x >>= y) := by
  obtain ⟨notices, hstep⟩ := h
  cases x with
  | error f => exact ⟨notices, perform_bind_error next hstep⟩
  | ok a => exact Quiet.followed ⟨notices, hstep⟩ (hnext a)

theorem Quiet.kept {step : ExceptT Failure (StateM Workspace) α} {x : Except Failure α}
    {next : α → ExceptT Failure (StateM Workspace) α} (h : Quiet w step x)
    (hnext : ∀ a notices, Quiet (w.noted notices) (next a) (.ok a)) :
    Quiet w (step >>= next) x := by
  have hsame : x >>= Except.ok = x := bind_pure x
  have hbind := h.bind hnext
  rwa [hsame] at hbind

theorem quiet_of_unchanged {step : ExceptT Failure (StateM Workspace) α} {x : Except Failure α}
    (h : w.perform step = (x, w)) : Quiet w step x :=
  ⟨[], by rw [h, noted_nil]⟩

theorem quiet_pure (w : Workspace) (a : α) : Quiet w (pure a) (.ok a) :=
  quiet_of_unchanged rfl

theorem quiet_attempt {ε : Type} (failure : ε → Failure) {step : StateM Workspace (Except ε α)}
    {x : Except ε α} (h : step.run w = (x, w)) :
    Quiet w (attempt failure step) (x.mapError failure) :=
  quiet_of_unchanged (perform_attempt failure h)

/-- A choice that is made without a look at the workspace. -/
theorem quiet_choice (w : Workspace) (x : Except Failure α) : Quiet w (attempt id (pure x)) x := by
  have hsame : x.mapError id = x := by
    cases x <;> rfl
  have hquiet : Quiet w (attempt id (pure x)) (x.mapError id) := quiet_attempt id rfl
  rwa [hsame] at hquiet

theorem quiet_note (w : Workspace) (n : Notice) :
    Quiet w (liftM (Host.note n : StateM Workspace Unit)) (.ok ()) :=
  ⟨[n], rfl⟩

theorem quiet_notes (w : Workspace) (notices : List Notice) :
    Quiet w (forIn notices PUnit.unit fun n _ => do
      liftM (Host.note n : StateM Workspace Unit)
      pure (ForInStep.yield PUnit.unit)) (.ok PUnit.unit) := by
  induction notices generalizing w with
  | nil => exact quiet_pure w PUnit.unit
  | cons n notices ih =>
    rw [List.forIn_cons, bind_assoc]
    refine (quiet_note w n).followed fun told => ?_
    rw [pure_bind]
    exact ih _

/-- The options that a command reads. -/
def options (w : Workspace) (formats : OptionFormats) :
    Option String → Except OptionsError Options
  | none => .ok {}
  | some path => do formats.readFile path (← (w.readFile path).mapError .unreadable)

theorem quiet_loadOptions (w : Workspace) (formats : OptionFormats) (config : Option String) :
    Quiet w (loadOptions formats config) ((w.options formats config).mapError .options) := by
  cases config with
  | none => exact quiet_pure w _
  | some path =>
    have hread : Quiet w (attempt (.options ∘ .unreadable) (Host.readFile path))
        ((w.readFile path).mapError (.options ∘ .unreadable)) :=
      quiet_attempt _ rfl
    have hload := hread.bind fun data notices =>
      quiet_attempt Failure.options (x := formats.readFile path data) rfl
    rw [loadOptions, options]
    cases hdata : w.readFile path with
    | error e =>
      rw [hdata] at hload
      exact hload
    | ok data =>
      rw [hdata] at hload
      exact hload

/-- What a command has for its input. -/
def source (w : Workspace) (path : String) : Except FileError Bytes :=
  if path = standardStream then w.receive .input else w.readFile path

/-- The failure of a command that cannot have its input. -/
def sourceFailure (path : String) (e : FileError) : Failure :=
  if path = standardStream then .readInput e else .read path e

theorem quiet_readSource (w : Workspace) (path : String) :
    Quiet w (readSource path) ((w.source path).mapError (sourceFailure path)) := by
  by_cases hpath : path = standardStream
  · have hfailure : sourceFailure path = .readInput := by
      funext e
      rw [sourceFailure, if_pos hpath]
    rw [readSource, source, if_pos hpath, if_pos hpath, hfailure]
    exact quiet_attempt _ rfl
  · have hfailure : sourceFailure path = .read path := by
      funext e
      rw [sourceFailure, if_neg hpath]
    rw [readSource, source, if_neg hpath, if_neg hpath, hfailure]
    exact quiet_attempt _ rfl

theorem quiet_remuxSource (w : Workspace) (o : Options) (path : String) (input : Bytes) :
    Quiet w (remuxSource o path input)
      ((remux o w.drawn input).result.orFailure path) := by
  have hdraw : w.perform (liftM (Host.drawSerial : StateM Workspace (Except String UInt32)))
      = (.ok w.drawn, w) :=
    rfl
  obtain ⟨notices, htold⟩ := quiet_notes w (remux o w.drawn input).notices
  obtain ⟨more, hresult⟩ := quiet_choice (w.noted notices)
    ((remux o w.drawn input).result.orFailure path)
  refine ⟨notices ++ more, ?_⟩
  rw [remuxSource, perform_bind_ok _ hdraw]
  dsimp only
  rw [perform_bind_ok _ htold, hresult, noted_noted]

end Transmux.Workspace
