import Transmux.Proofs.CommandSteps
import Transmux.Proofs.WorkspaceFiles

/-! What a conversion changes in a workspace: one destination if all goes well, and nothing that
holds data if anything fails. -/

namespace Transmux

namespace FilePath

/-- A name with an extension is never the one that stands for a standard stream. -/
theorem withExtension_ne_standardStream (path : String) :
    withExtension path "ogg" ≠ standardStream := by
  intro h
  rw [withExtension, addExtension] at h
  split at h
  · next hname =>
    rw [h] at hname
    revert hname
    decide
  · next hname =>
    have hlength := congrArg String.length h
    simp only [standardStream, String.length_append] at hlength
    change _ + 1 + 3 = 1 at hlength
    omega

end FilePath

theorem RemuxResult.orFailure_eq_ok_iff {x : RemuxResult} {input : String} {out : RemuxOutput} :
    x.orFailure input = .ok out ↔ x = .ok out := by
  cases x <;> simp [orFailure]

namespace ConvertCommand

variable {formats : OptionFormats} {c : ConvertCommand} {config : Option String}
  {loaded o : Options} {w : Workspace} {path : String} {out : RemuxOutput}

/-- Options of a command next to those that it loaded: what it gives itself is in their place, and
the rest is kept. -/
structure Overrides (c : ConvertCommand) (loaded o : Options) : Prop where
  serial_given : ∀ n, c.serial = some n → o.serial = some n
  serial_kept : c.serial = none → o.serial = loaded.serial
  maxPackets_given : ∀ n, c.maxPackets = some n → o.maxPacketsPerPage = n
  maxPackets_kept : c.maxPackets = none → o.maxPacketsPerPage = loaded.maxPacketsPerPage
  strict_given : c.strict = true → o.parsePolicy = .strict
  strict_kept : c.strict = false → o.parsePolicy = loaded.parsePolicy
  allTracks_given : c.allTracks = true → o.filterAudioTrack = false
  allTracks_kept : c.allTracks = false → o.filterAudioTrack = loaded.filterAudioTrack
  maxSegmentsPerPage_eq : o.maxSegmentsPerPage = loaded.maxSegmentsPerPage
  defaultPreSkip_eq : o.defaultPreSkip = loaded.defaultPreSkip
  vendor_eq : o.vendor = loaded.vendor

theorem overrides_apply (c : ConvertCommand) (loaded : Options) :
    c.Overrides loaded (c.apply loaded) where
  serial_given n h := by simp [apply, h]
  serial_kept h := by simp [apply, h]
  maxPackets_given n h := by simp [apply, h]
  maxPackets_kept h := by simp [apply, h]
  strict_given h := by simp [apply, h]
  strict_kept h := by simp [apply, h]
  allTracks_given h := by simp [apply, h]
  allTracks_kept h := by simp [apply, h]
  maxSegmentsPerPage_eq := rfl
  defaultPreSkip_eq := rfl
  vendor_eq := rfl

theorem Overrides.eq_apply (h : c.Overrides loaded o) : o = c.apply loaded := by
  have happly := overrides_apply c loaded
  have hserial : o.serial = (c.apply loaded).serial := by
    cases hc : c.serial with
    | none => rw [h.serial_kept hc, happly.serial_kept hc]
    | some n => rw [h.serial_given n hc, happly.serial_given n hc]
  have hpackets : o.maxPacketsPerPage = (c.apply loaded).maxPacketsPerPage := by
    cases hc : c.maxPackets with
    | none => rw [h.maxPackets_kept hc, happly.maxPackets_kept hc]
    | some n => rw [h.maxPackets_given n hc, happly.maxPackets_given n hc]
  have hpolicy : o.parsePolicy = (c.apply loaded).parsePolicy := by
    cases hc : c.strict with
    | false => rw [h.strict_kept hc, happly.strict_kept hc]
    | true => rw [h.strict_given hc, happly.strict_given hc]
  have hfilter : o.filterAudioTrack = (c.apply loaded).filterAudioTrack := by
    cases hc : c.allTracks with
    | false => rw [h.allTracks_kept hc, happly.allTracks_kept hc]
    | true => rw [h.allTracks_given hc, happly.allTracks_given hc]
  have hrest := And.intro h.maxSegmentsPerPage_eq (And.intro h.defaultPreSkip_eq h.vendor_eq)
  obtain ⟨packets, segments, preSkip, vendor, serial, policy, filter⟩ := o
  simp only at hserial hpackets hpolicy hfilter hrest
  rw [hserial, hpackets, hpolicy, hfilter, hrest.1, hrest.2.1, hrest.2.2]
  rfl

/-- The path that a command writes to. One that it does not give is not that of its input. -/
structure Targets (c : ConvertCommand) (path : String) : Prop where
  given : ∀ output, c.output = some output → path = output
  standard : c.output = none → c.input = standardStream → path = standardStream
  beside : c.output = none → c.input ≠ standardStream →
    path = FilePath.withExtension c.input "ogg" ∧ path ≠ standardStream
  apart : c.output = none → c.input ≠ standardStream →
    FilePath.steps path ≠ FilePath.steps c.input

theorem destination_eq_ok_iff : c.destination = .ok path ↔ c.Targets path := by
  rw [destination]
  cases houtput : c.output with
  | some output =>
    constructor
    · intro h
      cases h
      constructor <;> simp [houtput]
    · intro h
      rw [h.given output houtput]
  | none =>
    by_cases hinput : c.input = standardStream
    · rw [if_pos hinput]
      constructor
      · intro h
        cases h
        constructor <;> simp [houtput, hinput]
      · intro h
        rw [h.standard houtput hinput]
    · rw [if_neg hinput]
      by_cases hsame : FilePath.steps (FilePath.withExtension c.input "ogg")
          = FilePath.steps c.input
      · refine ⟨fun h => by simp [hsame] at h, fun h => ?_⟩
        have hapart := h.apart houtput hinput
        rw [(h.beside houtput hinput).1] at hapart
        exact absurd hsame hapart
      · constructor
        · intro h
          simp only [hsame, if_false, Except.ok.injEq] at h
          subst h
          exact ⟨by simp [houtput], fun _ h => absurd h hinput,
            fun _ _ => ⟨rfl, FilePath.withExtension_ne_standardStream _⟩, fun _ _ => hsame⟩
        · intro h
          simp [hsame, (h.beside houtput hinput).1]

/-- A command comes from its files and its input to a path and to what is to be written there. -/
structure Makes (formats : OptionFormats) (c : ConvertCommand) (config : Option String)
    (w : Workspace) (path : String) (out : RemuxOutput) : Prop where
  targets : c.Targets path
  remuxed : ∃ loaded o input, w.options formats config = .ok loaded ∧ c.Overrides loaded o
    ∧ w.source c.input = .ok input ∧ (remux o w.drawn input).result = .ok out

/-- All of a command before it writes anything. -/
def plan (formats : OptionFormats) (c : ConvertCommand) (config : Option String) (w : Workspace) :
    Except Failure (String × RemuxOutput) := do
  let loaded ← (w.options formats config).mapError .options
  let path ← c.destination
  let input ← (w.source c.input).mapError (Workspace.sourceFailure c.input)
  let out ← (remux (c.apply loaded) w.drawn input).result.orFailure c.input
  return (path, out)

theorem plan_eq_ok_iff :
    plan formats c config w = .ok (path, out) ↔ Makes formats c config w path out := by
  constructor
  · intro h
    obtain ⟨loaded, hloaded, h⟩ := bind_eq_ok_iff.1 h
    obtain ⟨target, htarget, h⟩ := bind_eq_ok_iff.1 h
    obtain ⟨input, hinput, h⟩ := bind_eq_ok_iff.1 h
    obtain ⟨made, hmade, h⟩ := bind_eq_ok_iff.1 h
    cases h
    exact ⟨destination_eq_ok_iff.1 htarget, loaded, _, input, mapError_eq_ok_iff.1 hloaded,
      overrides_apply c loaded, mapError_eq_ok_iff.1 hinput,
      RemuxResult.orFailure_eq_ok_iff.1 hmade⟩
  · rintro ⟨htarget, loaded, o, input, hloaded, ho, hinput, hmade⟩
    rw [ho.eq_apply] at hmade
    refine bind_eq_ok_iff.2 ⟨loaded, mapError_eq_ok_iff.2 hloaded, ?_⟩
    refine bind_eq_ok_iff.2 ⟨path, destination_eq_ok_iff.2 htarget, ?_⟩
    refine bind_eq_ok_iff.2 ⟨input, mapError_eq_ok_iff.2 hinput, ?_⟩
    exact bind_eq_ok_iff.2 ⟨out, RemuxResult.orFailure_eq_ok_iff.2 hmade, rfl⟩

section
variable {m : Type → Type} [Monad m] [Host m]

/-- The steps that `plan` tells the outcome of. -/
def prepare (formats : OptionFormats) (c : ConvertCommand) (config : Option String) :
    ExceptT Failure m (String × RemuxOutput) := do
  let options := c.apply (← loadOptions formats config)
  let output ← attempt id (pure c.destination)
  let input ← readSource c.input
  Host.note (m := m) (.converting c.input output input.length options)
  let out ← remuxSource options c.input input
  Host.note (m := m) (.converted out.passedThrough out.pages out.granule)
  return (output, out)

/-- The steps after those. -/
def deliver (c : ConvertCommand) (made : String × RemuxOutput) : ExceptT Failure m Unit := do
  writeData made.1 made.2.data
  attempt .ofTelling (Host.tell (summary c.input made.1 made.2))

end

theorem run_eq (formats : OptionFormats) (c : ConvertCommand) (config : Option String) :
    (run formats c config : ExceptT Failure (StateM Workspace) Unit)
      = prepare formats c config >>= c.deliver := by
  simp only [run, prepare, deliver, bind_assoc, pure_bind]

theorem quiet_prepare (formats : OptionFormats) (c : ConvertCommand) (config : Option String)
    (w : Workspace) : w.Quiet (prepare formats c config) (plan formats c config w) := by
  refine (w.quiet_loadOptions formats config).bind fun loaded n₁ => ?_
  refine (Workspace.quiet_choice _ c.destination).bind fun path n₂ => ?_
  refine (Workspace.quiet_readSource _ c.input).bind fun input n₃ => ?_
  refine (Workspace.quiet_note _ _).followed fun n₄ => ?_
  refine (Workspace.quiet_remuxSource _ (c.apply loaded) c.input input).bind fun out n₅ => ?_
  exact (Workspace.quiet_note _ _).followed fun n₆ => Workspace.quiet_pure _ (path, out)

end ConvertCommand

namespace Workspace

variable {w w' : Workspace} {path : String} {data : Bytes}

/-- Whether data can be written to a path, or to the standard output where one stands for it. -/
def Takes (w : Workspace) (path : String) (data : Bytes) : Prop :=
  if path = standardStream then w.Accepts data .output else w.Writable path data

/-- The states before and after data went to one destination and nothing else changed. -/
inductive Received (w w' : Workspace) (path : String) (data : Bytes) : Prop where
  | standard (path_eq : path = standardStream) (files_eq : w'.files = w.files)
      (output_eq : w'.output = w.output ++ data)
  | place (path_ne : path ≠ standardStream) (written : w.Written w' path data)

theorem run_writeOutput_of_accepts (h : w.Accepts data .output) :
    (Host.writeOutput data : StateM Workspace _).run w = (.ok (), w.passed data .output) := by
  simp only [Host.writeOutput, StateT.run_bind, StateT.run_get, pure_bind,
    send_eq_ok_iff.2 ⟨h, rfl⟩]
  rfl

theorem run_writeOutput_of_error {e : FileError} (h : w.send data .output = .error e) :
    ∃ error : OutputError, error.cause = e
      ∧ (Host.writeOutput data : StateM Workspace _).run w = (.error error, w) := by
  refine ⟨if waits data then .unflushed e else .unwritten e, ?_, ?_⟩
  · split <;> rfl
  · simp only [Host.writeOutput, StateT.run_bind, StateT.run_get, pure_bind, h]
    rfl

theorem run_writeFile_of_ok (h : w.writeFile path data = .ok w') :
    (Host.writeFile path data : StateM Workspace _).run w = (.ok (), w') := by
  simp only [Host.writeFile, StateT.run_bind, StateT.run_get, pure_bind, h]
  rfl

theorem run_writeFile_of_error {e : FileError} (h : w.writeFile path data = .error e) :
    (Host.writeFile path data : StateM Workspace _).run w = (.error e, w) := by
  simp only [Host.writeFile, StateT.run_bind, StateT.run_get, pure_bind, h]
  rfl

theorem perform_writeData (w : Workspace) (path : String) (data : Bytes) :
    (w.Takes path data ∧ ∃ w', w.perform (writeData path data) = (.ok (), w')
      ∧ w.Received w' path data ∧ w'.errorsFailure = w.errorsFailure)
      ∨ (¬ w.Takes path data ∧ ∃ f, w.perform (writeData path data) = (.error f, w)) := by
  by_cases hpath : path = standardStream
  · rw [writeData, if_pos hpath, Takes, if_pos hpath]
    by_cases haccepts : w.Accepts data .output
    · exact .inl ⟨haccepts, _, perform_attempt _ (run_writeOutput_of_accepts haccepts),
        .standard hpath rfl rfl, rfl⟩
    · obtain ⟨e, hsend⟩ := send_of_not_accepts haccepts
      obtain ⟨error, -, hrun⟩ := run_writeOutput_of_error hsend
      exact .inr ⟨haccepts, _, perform_attempt _ hrun⟩
  · rw [writeData, if_neg hpath, Takes, if_neg hpath, ← exists_writeFile_iff]
    cases hwrite : w.writeFile path data with
    | ok w' =>
      exact .inl ⟨⟨w', rfl⟩, w', perform_attempt _ (run_writeFile_of_ok hwrite),
        .place hpath (written_of_writeFile hwrite), errorsFailure_of_writeFile hwrite⟩
    | error e => exact .inr ⟨by simp, _, perform_attempt _ (run_writeFile_of_error hwrite)⟩

theorem encode_line_ne_nil (line : String) : Utf8.encode (line ++ "\n") ≠ [] := by
  have hend : Utf8.encodeChar '\n' ≠ [] := by decide
  simp [Utf8.encode, hend]

/-- A line is told unless the standard error fails. -/
theorem perform_tell (w : Workspace) (line : String) :
    (w.errorsFailure = none ∧ ∃ errors,
      w.perform (attempt .ofTelling (Host.tell line)) = (.ok (), { w with errors := errors }))
      ∨ ∃ e, w.errorsFailure = some e
        ∧ w.perform (attempt .ofTelling (Host.tell line)) = (.error (.ofTelling e), w) := by
  by_cases herrors : w.errorsFailure = none
  · have hsend : w.send (Utf8.encode (line ++ "\n")) .errors = .ok _ :=
      send_eq_ok_iff.2 ⟨.inl herrors, rfl⟩
    refine .inl ⟨herrors, w.errors ++ Utf8.encode (line ++ "\n"),
      perform_attempt _ (x := .ok ()) ?_⟩
    simp only [Host.tell, StateT.run_bind, StateT.run_get, pure_bind, hsend]
    rfl
  · obtain ⟨e, he⟩ := Option.ne_none_iff_exists'.1 herrors
    have hsend : w.send (Utf8.encode (line ++ "\n")) .errors = .error e := by
      simp [send, refusal?, encode_line_ne_nil, he]
    refine .inr ⟨e, he, perform_attempt _ (x := .error e) ?_⟩
    simp only [Host.tell, StateT.run_bind, StateT.run_get, pure_bind, hsend]
    rfl

/-- Neither what the log tells before nor what the user is told after takes part in this. -/
theorem Received.around {notices : List Notice} (h : (w.noted notices).Received w' path data)
    (errors : Bytes) : w.Received { w' with errors := errors } path data := by
  cases h with
  | standard path_eq files_eq output_eq => exact .standard path_eq files_eq output_eq
  | place path_ne written =>
    refine .place path_ne ?_
    cases written with
    | file t place_eq device?_eq file?_eq others output_eq readFile_eq =>
      exact .file t place_eq device?_eq file?_eq others output_eq readFile_eq
    | device t d place_eq device?_eq files_eq output_eq =>
      exact .device t d place_eq device?_eq files_eq output_eq

end Workspace

namespace ConvertCommand

theorem perform_deliver_cases (c : ConvertCommand) (w : Workspace) (notices : List Notice)
    (path : String) (out : RemuxOutput) :
    (w.Takes path out.data ∧ ∃ result w', (w.noted notices).perform (c.deliver (path, out))
        = (result, w') ∧ w.Received w' path out.data
      ∧ (result = .ok () ∧ w.errorsFailure = none
        ∨ ∃ e, result = .error (.ofTelling e) ∧ w.errorsFailure = some e))
      ∨ (¬ w.Takes path out.data ∧ ∃ f,
        (w.noted notices).perform (c.deliver (path, out)) = (.error f, w.noted notices)) := by
  rw [deliver]
  rcases (w.noted notices).perform_writeData path out.data with
    ⟨htakes, w', hwrite, hreceived, herrors⟩ | ⟨hrefuses, f, hwrite⟩
  · refine .inl ⟨htakes, ?_⟩
    rw [Workspace.perform_bind_ok _ hwrite]
    rcases w'.perform_tell (summary c.input path out) with ⟨htold, errors, htell⟩ | ⟨e, he, htell⟩
    · exact ⟨_, _, htell, hreceived.around errors, .inl ⟨rfl, herrors.symm.trans htold⟩⟩
    · exact ⟨_, _, htell, hreceived.around w'.errors, .inr ⟨e, rfl, herrors.symm.trans he⟩⟩
  · exact .inr ⟨hrefuses, f, Workspace.perform_bind_error _ hwrite⟩

theorem perform_run_cases (formats : OptionFormats) (c : ConvertCommand) (config : Option String)
    (w : Workspace) :
    (∃ path out result w', Makes formats c config w path out ∧ w.Takes path out.data
        ∧ w.perform (run formats c config) = (result, w') ∧ w.Received w' path out.data
        ∧ (result = .ok () ∧ w.errorsFailure = none
          ∨ ∃ e, result = .error (.ofTelling e) ∧ w.errorsFailure = some e))
      ∨ ∃ f w', (∀ path out, Makes formats c config w path out → ¬ w.Takes path out.data)
        ∧ w.perform (run formats c config) = (.error f, w') ∧ w'.files = w.files
        ∧ w'.output = w.output := by
  obtain ⟨notices, hprepare⟩ := quiet_prepare formats c config w
  rw [run_eq]
  cases hplan : plan formats c config w with
  | error f =>
    rw [hplan] at hprepare
    refine .inr ⟨f, w.noted notices, ?_, Workspace.perform_bind_error _ hprepare, rfl, rfl⟩
    intro path out hmakes
    rw [plan_eq_ok_iff.2 hmakes] at hplan
    cases hplan
  | ok made =>
    obtain ⟨path, out⟩ := made
    rw [hplan] at hprepare
    rw [Workspace.perform_bind_ok _ hprepare]
    rcases c.perform_deliver_cases w notices path out with
      ⟨htakes, result, w', hdeliver, hreceived, hends⟩ | ⟨hrefuses, f, hdeliver⟩
    · exact .inl ⟨path, out, result, w', plan_eq_ok_iff.1 hplan, htakes, hdeliver, hreceived,
        hends⟩
    · refine .inr ⟨f, w.noted notices, ?_, hdeliver, rfl, rfl⟩
      intro other made hmakes
      have hsame := (plan_eq_ok_iff.2 hmakes).symm.trans hplan
      cases hsame
      exact hrefuses

/-- However option files are read, a conversion succeeds just if all that comes before the write
does, its destination, which without a choice is never the input, takes the data, and the user can
be told. The destination is then the only place that changed. If anything fails, all files and the
standard output are as before, unless all is done and only the user could not be told. -/
theorem run_changes_destination (formats : OptionFormats) (c : ConvertCommand)
    (config : Option String) (w : Workspace) :
    ∃ result w', w.perform (run formats c config) = (result, w')
      ∧ (result = .ok () ↔ w.errorsFailure = none
        ∧ ∃ path out, Makes formats c config w path out ∧ w.Takes path out.data)
      ∧ (result = .ok () →
        ∃ path out, Makes formats c config w path out ∧ w.Received w' path out.data)
      ∧ (∀ failure, result = .error failure → w'.files = w.files ∧ w'.output = w.output
        ∨ (∃ e, w.errorsFailure = some e ∧ failure = .panicked (.unprinted "stderr" e))
          ∧ ∃ path out, Makes formats c config w path out ∧ w.Received w' path out.data) := by
  rcases perform_run_cases formats c config w with
    ⟨path, out, result, w', hmakes, htakes, hrun, hreceived, hends⟩
      | ⟨f, w', hrefuses, hrun, hfiles, houtput⟩
  · refine ⟨result, w', hrun, ?_, fun _ => ⟨path, out, hmakes, hreceived⟩, ?_⟩
    · rcases hends with ⟨rfl, htold⟩ | ⟨e, rfl, he⟩
      · exact iff_of_true rfl ⟨htold, path, out, hmakes, htakes⟩
      · simp [he]
    · rcases hends with ⟨rfl, -⟩ | ⟨e, rfl, he⟩
      · intro failure h
        cases h
      · rintro failure ⟨rfl⟩
        exact .inr ⟨⟨e, he, rfl⟩, path, out, hmakes, hreceived⟩
  · refine ⟨.error f, w', hrun, ?_, ?_, fun _ _ => .inl ⟨hfiles, houtput⟩⟩
    · constructor
      · intro h
        cases h
      · rintro ⟨-, path, out, hmakes, htakes⟩
        exact absurd htakes (hrefuses path out hmakes)
    · intro h
      cases h

end ConvertCommand

end Transmux
