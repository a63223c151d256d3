import EffectTiming.Text.Column

/-!
# Commands and their help

What the program can be asked to do, and what it says about itself.
-/

namespace EffectTiming

/-- What the program can do with a description. -/
inductive Command where
  | check
  | plot
  | sample
  | table
  deriving DecidableEq, Repr

namespace Command

/-- The commands in the order in which they are listed. -/
def all : List Command := [.check, .plot, .sample, .table]

/-- The word for a command. -/
def name : Command → String
  | .check => "check"
  | .plot => "plot"
  | .sample => "sample"
  | .table => "table"

/-- The command with the given word. -/
def ofName? (s : String) : Option Command := all.find? (·.name == s)

/-- A command in one line. -/
def summary : Command → String
  | .check => "Validate an effect and print derived timing"
  | .plot => "Render the progress curve as a PNG"
  | .sample => "Sample an effect at given local times"
  | .table => "Print a table of samples over a time range"

/-- How a command is called. -/
def usage : Command → String
  | .check => "animtiming check <file>"
  | .plot => "animtiming plot <file> -o <png> [--width PX] [--height PX] [--from TIME] [--to TIME]"
  | .sample => "animtiming sample <file> <time>..."
  | .table => "animtiming table <file> [--from TIME] [--to TIME] [--step TIME]"

/-- A command at length, line by line. -/
def description : Command → List String
  | .check =>
    [ "Validate an effect description and print the quantities derived from it:",
      "active duration, end time and the phase boundaries. For progress-based",
      "timelines the normalized timing is shown as well.",
      "",
      "Usage:",
      "  animtiming check fade.yaml" ]
  | .plot =>
    [ "Render the eased progress of an effect over a range of local times.",
      "",
      "The background is shaded by phase: before (blue), active (white) and",
      "after (green). Gaps in the curve are times where the effect does not",
      "apply.",
      "",
      "Flags:",
      "  -o, --output FILE   Output file (required)",
      "  --width PX          Image width (default: 640)",
      "  --height PX         Image height (default: 320)",
      "  --from, --to        Range, as for the table command",
      "",
      "Usage:",
      "  animtiming plot fade.yaml -o fade.png",
      "  animtiming plot fade.yaml -o fade.png --width 1024 --to 3s" ]
  | .sample =>
    [ "Sample an effect at one or more local times and print the computed",
      "timing as YAML.",
      "",
      "Times are Go durations (250ms, 1.5s, -1s), \"forever\", or \"unresolved\".",
      "Effects on progress-based timelines also accept percentages of the",
      "timeline (25%).",
      "",
      "Usage:",
      "  animtiming sample fade.yaml 0s 500ms 1s",
      "  animtiming sample scroll.yaml 0% 50% 100%" ]
  | .table =>
    [ "Print phase, iteration and progress over a range of local times.",
      "",
      "The range defaults to the effect's whole lifetime in ten steps.",
      "",
      "Flags:",
      "  --from TIME   First sample (default: 0s)",
      "  --to TIME     Last sample (default: the end time)",
      "  --step TIME   Distance between samples",
      "",
      "Usage:",
      "  animtiming table fade.yaml",
      "  animtiming table fade.yaml --from 0s --to 2s --step 100ms" ]

/-- Each line with its end. -/
def linesText (lines : List String) : String := String.join (lines.map (· ++ "\n"))

/-- The help for a command. -/
def help (c : Command) : String :=
  linesText (c.description ++ ["", "Usage:", "  " ++ c.usage])

/-- The help for the whole program. -/
def programHelp : String :=
  linesText <|
    [ "animtiming evaluates animation effect timing described in YAML files.",
      "It reports phases, iterations and eased progress the way a browser",
      "engine computes them, for time-based and progress-based timelines.",
      "",
      "Use \"animtiming <command> --help\" for more information about a command.",
      "",
      "Usage:",
      "  animtiming <command> [flags]",
      "",
      "Commands:" ] ++
    all.map (fun c => "  " ++ Text.column 14 c.name ++ " " ++ c.summary) ++
    [ "",
      "Flags:",
      "  -h, --help           Show help for a command",
      "  -v, --version        Show version information",
      "  --verbose            Log errors with kinds, fields and stack traces",
      "",
      "Examples:",
      "  animtiming check fade.yaml               Validate an effect",
      "  animtiming sample fade.yaml 0s 250ms 1s  Sample at three local times",
      "  animtiming plot fade.yaml -o fade.png    Draw the progress curve" ]

/-- The version of the program. -/
def versionText : String := "animtiming version 0.1.0-dev (built unknown)\n"

/-- The argument asks for help. -/
def asksHelp (arg : String) : Bool := ["-h", "--help", "help"].contains arg

/-- The argument asks for the version. -/
def asksVersion (arg : String) : Bool := ["-v", "--version", "version"].contains arg

end Command

/-- What the program is asked for. -/
inductive Request where
  | help
  | version
  /-- A command by its word, with its arguments. -/
  | command (word : String) (args : List String)
  deriving DecidableEq, Repr

/-- What the program is asked for, and whether its log is to be verbose. -/
structure Invocation where
  verbose : Bool
  request : Request
  deriving DecidableEq, Repr

namespace Invocation

/-- Reads the arguments behind those in `earlier`, which come latest first. The flags for help and
for the version count in front of a command only, the one for a verbose log anywhere. -/
def readFrom (verbose : Bool) (earlier : List String) : List String → Invocation
  | [] =>
    match earlier.reverse with
    | [] => ⟨verbose, .help⟩
    | word :: args => ⟨verbose, .command word args⟩
  | arg :: args =>
    if arg = "--verbose" then readFrom true earlier args
    else if earlier.isEmpty && Command.asksHelp arg then ⟨verbose, .help⟩
    else if earlier.isEmpty && Command.asksVersion arg then ⟨verbose, .version⟩
    else readFrom verbose (arg :: earlier) args

/-- Reads the arguments of the program. -/
def read (args : List String) : Invocation := readFrom false [] args

end Invocation

end EffectTiming
