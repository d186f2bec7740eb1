import Transmux.CommandLine.Invocation
import Transmux.Proofs.ConvertEffects
import Transmux.Proofs.StreamReports

/-! Inspections of recordings and of the streams made of them. The report on a recording tells what
its conversion writes, and the report on what was written is the same. -/

namespace Transmux

namespace InspectCommand

variable {formats : OptionFormats} {c : InspectCommand} {config : Option String} {w : Workspace}
  {report : Report} {o : Options} {input : Bytes} {out : RemuxOutput}

/-- The text that an inspection shows. -/
def text (c : InspectCommand) (report : Report) : String :=
  if c.json then report.data.json else report.data.yaml

/-- All of a command before it shows anything. -/
def plan (formats : OptionFormats) (c : InspectCommand) (config : Option String) (w : Workspace) :
    Except Failure Report := do
  let options ← (w.options formats config).mapError .options
  let input ← (w.source c.input).mapError (Workspace.sourceFailure c.input)
  let out ← (remux options w.drawn input).result.orFailure c.input
  (Report.ofBytes (!out.passedThrough) out.data).mapError .readPages

section
variable {m : Type → Type} [Monad m] [Host m]

/-- The steps that `plan` tells the outcome of. -/
def prepare (formats : OptionFormats) (c : InspectCommand) (config : Option String) :
    ExceptT Failure m Report := do
  let options ← loadOptions formats config
  let input ← readSource c.input
  let out ← remuxSource options c.input input
  let report ← attempt .readPages (pure (Report.ofBytes (!out.passedThrough) out.data))
  Host.note (m := m) (.inspected c.input report.pages.length report.remuxed)
  return report

/-- The steps after those. -/
def deliver (c : InspectCommand) (report : Report) : ExceptT Failure m Unit :=
  match c.output with
  | some path => do
    attempt (.create path) (Host.writeFile path [])
    attempt .writeReport (Host.writeFile path (Utf8.encode (c.text report)))
  | none => attempt .ofPrinting (Host.writeOutput (Utf8.encode (c.text report ++ "\n")))

end

theorem run_eq (formats : OptionFormats) (c : InspectCommand) (config : Option String) :
    (run formats c config : ExceptT Failure (StateM Workspace) Unit)
      = prepare formats c config >>= c.deliver := by
  simp only [run, prepare, bind_assoc, pure_bind]
  rfl

theorem quiet_prepare (formats : OptionFormats) (c : InspectCommand) (config : Option String)
    (w : Workspace) : w.Quiet (prepare formats c config) (plan formats c config w) := by
  refine (w.quiet_loadOptions formats config).bind fun options n₁ => ?_
  refine (Workspace.quiet_readSource _ c.input).bind fun input n₂ => ?_
  refine (Workspace.quiet_remuxSource _ options c.input input).bind fun out n₃ => ?_
  refine (Workspace.quiet_attempt Failure.readPages
    (x := Report.ofBytes (!out.passedThrough) out.data) rfl).kept fun report n₄ => ?_
  exact (Workspace.quiet_note _ _).followed fun n₅ => Workspace.quiet_pure _ report

theorem plan_eq_ok (hoptions : w.options formats config = .ok o)
    (hsource : w.source c.input = .ok input) (hout : (remux o w.drawn input).result = .ok out)
    (hreport : Report.ofBytes (!out.passedThrough) out.data = .ok report) :
    plan formats c config w = .ok report := by
  refine bind_eq_ok_iff.2 ⟨o, mapError_eq_ok_iff.2 hoptions, ?_⟩
  refine bind_eq_ok_iff.2 ⟨input, mapError_eq_ok_iff.2 hsource, ?_⟩
  refine bind_eq_ok_iff.2 ⟨out, RemuxResult.orFailure_eq_ok_iff.2 hout, ?_⟩
  exact mapError_eq_ok_iff.2 hreport

/-- An inspection shows a report on the standard output, and goes well, unless that takes
nothing. -/
def Prints (formats : OptionFormats) (c : InspectCommand) (config : Option String) (w : Workspace)
    (report : Report) : Prop :=
  ∃ result w', w.perform (run formats c config) = (result, w') ∧ w'.files = w.files
    ∧ (w.outputFailure = none → result = .ok ()
      ∧ w'.output = w.output ++ Utf8.encode (c.text report ++ "\n"))
    ∧ ∀ e, w.outputFailure = some e →
      result = .error (.panicked (.unprinted "stdout" e)) ∧ w'.output = w.output

theorem prints_of_plan (houtput : c.output = none) (h : plan formats c config w = .ok report) :
    Prints formats c config w report := by
  obtain ⟨notices, hprepare⟩ := quiet_prepare formats c config w
  rw [h] at hprepare
  have hdeliver (x : Except OutputError Unit) (w' : Workspace)
      (hrun : (Host.writeOutput (Utf8.encode (c.text report ++ "\n")) : StateM Workspace _).run
        (w.noted notices) = (x, w')) :
      w.perform (run formats c config) = (x.mapError .ofPrinting, w') := by
    rw [run_eq, Workspace.perform_bind_ok _ hprepare, deliver, houtput]
    exact Workspace.perform_attempt _ hrun
  cases hfailure : w.outputFailure with
  | none =>
    have haccepts : (w.noted notices).Accepts (Utf8.encode (c.text report ++ "\n")) .output :=
      .inl hfailure
    refine ⟨_, _, hdeliver _ _ (Workspace.run_writeOutput_of_accepts haccepts), rfl,
      fun _ => ⟨rfl, rfl⟩, ?_⟩
    intro e he
    cases hfailure.symm.trans he
  | some e =>
    have hsend : (w.noted notices).send (Utf8.encode (c.text report ++ "\n")) .output
        = .error e := by
      simp [Workspace.send, Workspace.refusal?, Workspace.encode_line_ne_nil, Workspace.noted,
        hfailure]
    obtain ⟨error, hcause, hrun⟩ := Workspace.run_writeOutput_of_error hsend
    refine ⟨_, _, hdeliver _ _ hrun, rfl, ?_, ?_⟩
    · intro hnone
      cases hfailure.symm.trans hnone
    · rintro e' he'
      obtain rfl : e = e' := Option.some.inj (hfailure.symm.trans he')
      rw [← hcause]
      exact ⟨rfl, rfl⟩

end InspectCommand

namespace Remux

variable {o : Options}

theorem remux_of_serial {serial : UInt32} (h : o.serial = some serial)
    (drawn drawn' : Except String UInt32) (input : Bytes) :
    (remux o drawn input).result = (remux o drawn' input).result := by
  simp only [remux, convert, h, Option.elim_some]

theorem startsWith_output (o : Options) (r : Recording) (serial : UInt32) :
    Bytes.startsWith (output o r serial).data Ogg.Page.capture = true := rfl

end Remux

namespace ConvertCommand

variable {formats : OptionFormats} {c : ConvertCommand} {config : Option String}
  {w w' : Workspace} {path : String} {o : Options} {input : Bytes} {out : RemuxOutput}

/-- A conversion of an input with these options that went well and wrote to a file. -/
structure Wrote (formats : OptionFormats) (c : ConvertCommand) (config : Option String)
    (w w' : Workspace) (o : Options) (input : Bytes) (path : String) : Prop where
  run_eq : w.perform (run formats c config) = (.ok (), w')
  options_eq : ∃ loaded, w.options formats config = .ok loaded ∧ c.Overrides loaded o
  source_eq : w.source c.input = .ok input
  targets : c.Targets path
  path_ne : path ≠ standardStream
  place_eq : ∃ t, w.place path = .ok t ∧ Workspace.device? t = none

theorem Wrote.makes_eq (h : Wrote formats c config w w' o input path) {made : String}
    (hmakes : Makes formats c config w made out) :
    made = path ∧ (remux o w.drawn input).result = .ok out := by
  obtain ⟨htargets, loaded, o', input', hloaded, ho', hinput', hout⟩ := hmakes
  obtain ⟨loaded', hloaded', ho⟩ := h.options_eq
  obtain rfl : loaded' = loaded := Except.ok.inj (hloaded'.symm.trans hloaded)
  obtain rfl : input = input' := Except.ok.inj (h.source_eq.symm.trans hinput')
  obtain rfl : o = o' := ho.eq_apply.trans ho'.eq_apply.symm
  refine ⟨?_, hout⟩
  exact Except.ok.inj ((destination_eq_ok_iff.2 htargets).symm.trans
    (destination_eq_ok_iff.2 h.targets))

theorem Wrote.source (h : Wrote formats c config w w' o input path)
    (hout : (remux o w.drawn input).result = .ok out) : w'.source path = .ok out.data := by
  rcases perform_run_cases formats c config w with
    ⟨made, out', result, w'', hmakes, -, hrun, hreceived, -⟩ | ⟨f, w'', -, hrun, -⟩
  · obtain ⟨rfl, hout'⟩ := h.makes_eq hmakes
    obtain rfl : out = out' := RemuxResult.ok.inj (hout.symm.trans hout')
    obtain rfl : w' = w'' := congrArg Prod.snd (h.run_eq.symm.trans hrun)
    obtain ⟨t, hplace, hdevice⟩ := h.place_eq
    rw [Workspace.source, if_neg h.path_ne]
    cases hreceived with
    | standard path_eq => exact absurd path_eq h.path_ne
    | place path_ne written =>
      cases written with
      | file t' place_eq device?_eq file?_eq others output_eq readFile_eq => exact readFile_eq
      | device t' d place_eq device?_eq files_eq output_eq =>
        obtain rfl : t = t' := Except.ok.inj (hplace.symm.trans place_eq)
        rw [hdevice] at device?_eq
        cases device?_eq
  · have hfailed := congrArg Prod.fst (h.run_eq.symm.trans hrun)
    cases hfailed

end ConvertCommand

namespace Remux

variable {o : Options} {serial : UInt32} {drawn : Except String UInt32} {input : Bytes}
  {out : RemuxOutput}

/-- The report on the stream that a conversion makes tells what the conversion put there, and is
what an inspection of the input shows. The stream passes through a second time, and an inspection of
it, also where a conversion command has written it, shows the same report but for that. -/
theorem report_of_remux (hserial : o.serial = some serial)
    (hinput : Bytes.startsWith input Ogg.Page.capture = false)
    (hvendor : (Utf8.encode o.vendor).length ≤ 65008)
    (hcount : (Recording.ofBytes o.filterAudioTrack input).frames.length < 2 ^ 32 - 2)
    (hout : (remux o drawn input).result = .ok out) :
    ∃ report, Report.ofBytes true out.data = .ok report
      ∧ report.Describes o (Recording.ofBytes o.filterAudioTrack input) out
      ∧ (∀ formats (c : InspectCommand) config w, c.output = none →
        w.options formats config = .ok o → w.source c.input = .ok input →
        c.Prints formats config w report)
      ∧ (∀ o' drawn', (remux o' drawn' out.data).result = .ok ⟨out.data, true, 0, 0⟩)
      ∧ Report.ofBytes false out.data = .ok { report with remuxed := false }
      ∧ (∀ formats (c : InspectCommand) config w o', c.output = none →
        w.options formats config = .ok o' → w.source c.input = .ok out.data →
        c.Prints formats config w { report with remuxed := false })
      ∧ ∀ formats (c : ConvertCommand) config w w' path,
        c.Wrote formats config w w' o input path → w'.source path = .ok out.data := by
  have hconvert := hout
  rw [remux_result hinput, convert_eq_ok_iff] at hconvert
  obtain ⟨hrefusal, serial, -, -, hsize, rfl⟩ := hconvert
  have hr := frames_ne_nil_of_refusal? hrefusal
  have hsame (drawn' : Except String UInt32) :
      (remux o drawn' input).result = .ok (output o _ serial) :=
    (remux_of_serial hserial drawn' drawn input).trans hout
  have hpassed := remux_of_startsWith
    (startsWith_output o (Recording.ofBytes o.filterAudioTrack input) serial)
  have hreport := ofBytes_output serial hvendor hr hsize true
  have hagain := ofBytes_output serial hvendor hr hsize false
  rw [Report.ofPages_passedThrough] at hagain
  refine ⟨_, hreport, describes_streamPages hvendor hr hcount hsize, ?_, hpassed, hagain, ?_, ?_⟩
  · intro formats c config w houtput hoptions hsource
    exact InspectCommand.prints_of_plan houtput
      (InspectCommand.plan_eq_ok hoptions hsource (hsame w.drawn) hreport)
  · intro formats c config w o' houtput hoptions hsource
    exact InspectCommand.prints_of_plan houtput
      (InspectCommand.plan_eq_ok hoptions hsource (hpassed o' w.drawn) hagain)
  · intro formats c config w w' path hwrote
    exact hwrote.source (hsame w.drawn)

/-- A file of two blocks, and one with options that set the serial to 7. -/
def blocksAndOptions : Workspace where
  files := [(["a"], twoBlocks), (["c.json"], [0x7B, 0x22, 0x73, 0x65, 0x72, 0x69, 0x61, 0x6C, 0x22,
    0x3A, 0x37, 0x7D])]

def convertBlocks : ConvertCommand :=
  { input := "a" }

open CommandLine (optionFormats)

theorem options_blocksAndOptions :
    blocksAndOptions.options optionFormats (some "c.json") = .ok withSerial := by
  decide +kernel

theorem remux_twoBlocks_withSerial : (remux withSerial (.ok 0) twoBlocks).result
    = .ok (output withSerial (Recording.ofBytes true twoBlocks) 7) :=
  remux_eq_output (by decide) (by decide +kernel) rfl (by decide) (by decide +kernel)

theorem wrote_convertBlocks : ∃ w', convertBlocks.Wrote optionFormats (some "c.json")
    blocksAndOptions w' withSerial twoBlocks "a.ogg" := by
  have htargets : convertBlocks.Targets "a.ogg" :=
    ConvertCommand.destination_eq_ok_iff.1 (by decide +kernel)
  have hsource : blocksAndOptions.source "a" = .ok twoBlocks := by decide +kernel
  have hplace : blocksAndOptions.place "a.ogg" = .ok ["a.ogg"] := by decide +kernel
  have hoverrides : convertBlocks.Overrides withSerial withSerial :=
    ConvertCommand.overrides_apply convertBlocks withSerial
  have hmakes : convertBlocks.Makes optionFormats (some "c.json") blocksAndOptions "a.ogg" _ :=
    ⟨htargets, withSerial, withSerial, twoBlocks, options_blocksAndOptions, hoverrides, hsource,
      remux_twoBlocks_withSerial⟩
  rcases convertBlocks.perform_run_cases optionFormats (some "c.json") blocksAndOptions with
    ⟨path, out, result, w', -, -, hrun, -, hends⟩ | ⟨f, w', hrefuses, -⟩
  · rcases hends with ⟨rfl, -⟩ | ⟨e, -, he⟩
    · exact ⟨w', hrun, ⟨withSerial, options_blocksAndOptions, hoverrides⟩, hsource, htargets,
        by decide, _, hplace, rfl⟩
    · cases he
  · have hwritable : blocksAndOptions.Writable "a.ogg"
        (output withSerial (Recording.ofBytes true twoBlocks) 7).data :=
      ⟨_, hplace, by decide +kernel, by decide +kernel, fun d hd => by cases hd⟩
    exact absurd hwritable (hrefuses _ _ hmakes)

theorem output_twoBlocks_played :
    (output withSerial (Recording.ofBytes true twoBlocks) 7).granule
      - (preSkip withSerial (Recording.ofBytes true twoBlocks)).toNat = 1608 := by
  decide +kernel

/-- The blocks inspected, then converted to another file and inspected there. -/
theorem report_of_remux_twoBlocks :
    ∃ w' report, convertBlocks.Wrote optionFormats (some "c.json") blocksAndOptions w' withSerial
        twoBlocks "a.ogg"
      ∧ report.vendor = some "giztoy-remux"
      ∧ ((report.pages.drop 2).map PageReport.packets).sum = 2
      ∧ Decimal.text report.durationSeconds = "0.0335"
      ∧ InspectCommand.Prints optionFormats { input := "a" } (some "c.json") blocksAndOptions report
      ∧ InspectCommand.Prints optionFormats { input := "a.ogg" } none w'
        { report with remuxed := false } := by
  obtain ⟨w', hwrote⟩ := wrote_convertBlocks
  obtain ⟨report, -, hdescribes, hshown, -, -, hagain, hsource⟩ :=
    report_of_remux (o := withSerial) rfl (by decide) (by decide +kernel) (by decide +kernel)
      remux_twoBlocks_withSerial
  have hpackets := hdescribes.packets_eq
  have hfilter : withSerial.filterAudioTrack = true := rfl
  rw [hfilter, frames_twoBlocks] at hpackets
  have hduration := hdescribes.duration_isNearest
  rw [hfilter, output_twoBlocks_played] at hduration
  have hseconds : report.durationSeconds = Report.seconds 1608 :=
    hduration.eq (Report.seconds_isNearest (by decide))
  have htext : Decimal.text (Report.seconds 1608) = "0.0335" := by decide +kernel
  exact ⟨w', report, hwrote, hdescribes.vendor_eq, hpackets, hseconds ▸ htext,
    hshown _ _ _ _ rfl options_blocksAndOptions hwrote.source_eq,
    hagain _ _ _ _ {} rfl rfl (hsource _ _ _ _ _ _ hwrote)⟩

end Remux

end Transmux
