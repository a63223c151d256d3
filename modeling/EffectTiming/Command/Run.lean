import EffectTiming.Command.Help
import EffectTiming.Command.Job
import EffectTiming.Report.Samples
import EffectTiming.Report.Timing
import EffectTiming.Sampling.Flags

/-!
# Running commands

Each command is a job on its arguments. `run` picks the job, logs what went wrong, and gives what
the program leaves behind.
-/

namespace EffectTiming.Command

open Job

/-! ### Check -/

/-- Shows the timing of an effect and what is derived from it. -/
def runCheck : List String → Job Unit
  | [path] => do
    let s ← load path
    say ("File: " ++ path ++ " (schema " ++ s.version.text ++ ")\n\nSpecified:\n")
    say (Report.timingLines s.timing)
    if s.progressBased then
      say ("\nNormalized (progress timeline of " ++ s.timeline.text ++ "):\n")
      say (Report.timingLines (← orCrash (s.normalized.mapError .broken)))
    say "\nOK\n"
  | _ => refuse "exactly one file is required\n\nUsage: animtiming check <file>"

/-! ### Sample -/

/-- Samples an effect at one written time after the other. -/
def sampleTimes (s : Setup) : Effect Owner → List String → Job (List SampleSummary)
  | _, [] => pure []
  | e, arg :: args => do
    let localTime ← orFail (s.readTime arg)
    let (e, computed) := s.sampleEffect e localTime
    let c ← orCrash computed
    let (e, normalized) := e.normalized id
    let summary := c.summary ((← orCrash normalized).getD s.timing) localTime
    return summary :: (← sampleTimes s e args)

/-- Shows samples as a document. -/
def runSample : List String → Job Unit
  | path :: arg :: args => do
    let s ← load path
    say (Report.sampleRecords (← sampleTimes s s.effect (arg :: args)))
  | _ =>
    refuse "file and at least one time are required\n\nUsage: animtiming sample <file> <time>..."

/-! ### Table -/

/-- Applies range flags; no other arguments may be left. -/
def readRange (s : Setup) (args : List String) (r : SampleRange) : Job SampleRange := do
  let read := r.readFlags s (args.map RawText.ofString)
  match read.fault with
  | some e => fail e.failure
  | none =>
    if read.rest.isEmpty then return read.range
    refuse ("unexpected arguments: [" ++ String.intercalate " " (read.rest.map RawText.text) ++ "]")

/-- Shows a row for each time. -/
def sayRows (s : Setup) : Effect Owner → List Span → Job Unit
  | _, [] => pure ()
  | e, t :: ts => do
    let (e, computed) := s.sampleEffect e (.resolved t)
    say (Report.sampleRow (.resolved t) (← orCrash computed))
    sayRows s e ts

/-- Shows samples as a table. -/
def runTable : List String → Job Unit
  | [] => refuse "file is required\n\nUsage: animtiming table <file>"
  | path :: args => do
    let s ← load path
    let (e, normalized) := s.effect.normalized id
    let timing := (← orCrash normalized).getD s.timing
    let r ← readRange s args (.ofTiming timing 10)
    say Report.tableHead
    sayRows s e r.times

/-! ### Plot -/

/-- Where a plot goes and how large it is. -/
structure PlotOptions where
  path : String := ""
  width : Nat := 640
  height : Nat := 320

/-- Reads a size in pixels. -/
def readSize? (text : String) : Option Nat :=
  match Binary64.wholeNumber? text with
  | some n => if 4 * Plot.margin ≤ n ∧ n ≤ 8192 then some n.toNat else none
  | none => none

/-- Reads the options of a plot and gives the arguments that are left. -/
def readPlotOptions (o : PlotOptions) : List String → Except Failure (PlotOptions × List String)
  | [] => .ok (o, [])
  | arg :: args =>
    if arg = "-o" ∨ arg = "--output" then
      match args with
      | [] => .error (.plain (arg ++ " requires a file"))
      | path :: args => readPlotOptions { o with path } args
    else if arg = "--width" ∨ arg = "--height" then
      match args with
      | [] => .error (.plain (arg ++ " requires a value"))
      | value :: args =>
        match readSize? value with
        | none => .error (.plain ("invalid " ++ arg ++ " " ++ Text.quoted value))
        | some n =>
          readPlotOptions (if arg = "--width" then { o with width := n }
            else { o with height := n }) args
    else (readPlotOptions o args).map fun (o, rest) => (o, arg :: rest)

/-- The time at a column of a plot with `columns` columns. -/
def columnTime (r : SampleRange) (columns column : Nat) : Span :=
  r.first.add ((r.last.sub r.first).scale (Float.ofNat column / Float.ofNat (columns - 1)))

/-- The samples of a plot, one to a column. -/
def columnSamples (s : Setup) (normalized : TimingParams) (r : SampleRange) (columns : Nat) :
    Except Broken (List ComputedTiming) :=
  (List.range columns).mapM fun column =>
    s.sampleAt normalized (.resolved (columnTime r columns column))

/-- Draws the progress of an effect. -/
def runPlot : List String → Job Unit
  | [] => refuse "file is required\n\nUsage: animtiming plot <file> -o <png>"
  | path :: args => do
    let s ← load path
    let timing ← orCrash (s.normalized.mapError .broken)
    let (o, rest) ← orFail (readPlotOptions {} args)
    if o.path = "" then refuse "-o is required"
    let r ← readRange s rest { SampleRange.ofTiming timing o.width with step := .forever }
    let samples ← orCrash ((columnSamples s timing r (o.width - 2 * Plot.margin)).mapError .broken)
    draw o.path (.ofSamples o.width o.height samples)
    say ("Wrote " ++ o.path ++ " (" ++ toString o.width ++ "x" ++ toString o.height ++ ", " ++
      r.first.text ++ " to " ++ r.last.text ++ ")\n")

/-! ### All commands -/

/-- The job of a command. -/
def job : Command → List String → Job Unit
  | .check => runCheck
  | .plot => runPlot
  | .sample => runSample
  | .table => runTable

/-- The job that a request asks for. -/
def requested : Request → Job Unit
  | .help => say programHelp
  | .version => say versionText
  | .command word args =>
    match ofName? word with
    | none => do
      modify fun d =>
        { d with errors := d.errors ++ "Error: unknown command " ++ Text.quoted word ++ "\n\n" }
      say programHelp
      refuse ("unknown command: " ++ word)
    | some c => if args.any asksHelp then say c.help else c.job args

/-- The log of a job that stopped. A verbose log also reports the outermost failed step of the
engine. -/
def stopLog (verbose : Bool) : Stop → String
  | .failed failure =>
    if verbose then
      match failure.layers.find? (·.asTiming?.isSome) with
      | some step => ((Handler.log true .errors).report { failure := step }).errors
      | none => ""
    else ""
  | .crashed crash =>
    let handler : Handler := if verbose then .log true .errors else .standard
    let broken :=
      match crash with
      | .effect (.broken cause) => (handler.assert false cause.op cause.text).1.errors
      | _ => ""
    broken ++ (handler.recover "animtiming" (some (.text crash.message))).1.errors

/-- The failure that a stopped job ends with. -/
def stopFailure : Stop → Failure
  | .failed failure => failure
  | .crashed crash => .plain ("internal error: " ++ crash.message)

/-- Runs the program with the given arguments. -/
def run (args : List String) (desk : Desk) : Desk × Option Failure :=
  let i := Invocation.read args
  match (requested i.request).run desk with
  | (.ok (), desk) => (desk, none)
  | (.error stop, desk) =>
    ({ desk with errors := desk.errors ++ stopLog i.verbose stop }, some (stopFailure stop))

end EffectTiming.Command
