import EffectTiming.Document.Printer
import EffectTiming.Text.Column
import EffectTiming.Time.LocalTime
import EffectTiming.Timing.Summary

/-!
# Samples in words

Samples are written as the records of a document, or as the rows of a table.
-/

namespace EffectTiming.Report

open Document

/-- A number that may be missing. -/
def writtenNumber : Option Float → Written
  | none => .null
  | some x => .number x

/-- The fields of a sample. -/
def sampleFields (s : SampleSummary) : List (String × Written) :=
  [ ("delay", .number s.timing.delay),
    ("endDelay", .number s.timing.endDelay),
    ("duration", writtenNumber s.timing.duration),
    ("iterations", .number s.timing.iterations),
    ("iterationStart", .number s.timing.iterationStart),
    ("direction", .text s.timing.direction),
    ("fill", .text s.timing.fill),
    ("easing", .text s.timing.easing),
    ("activeDuration", .number s.activeDuration),
    ("endTime", .number s.endTime),
    ("phase", .text s.phase),
    ("localTime", writtenNumber s.localTime),
    ("progress", writtenNumber s.progress),
    ("currentIteration", writtenNumber s.currentIteration) ]

/-- Samples as a document. -/
def sampleRecords (samples : List SampleSummary) : String :=
  sequenceDocument 2 (samples.map sampleFields)

/-! ### Tables -/

/-- A row of a table. -/
def row (time phase iteration simple progress before : String) : String :=
  Text.column 14 time ++ " " ++ Text.column 7 phase ++ " " ++ Text.column 10 iteration ++ " " ++
    Text.column 10 simple ++ " " ++ Text.column 10 progress ++ " " ++ before ++ "\n"

/-- The names of the columns. -/
def tableHead : String := row "TIME" "PHASE" "ITERATION" "SIMPLE" "PROGRESS" "BEFORE"

/-- A progress to four places, or a dash. -/
def progressText : Option Float → String
  | none => "-"
  | some x => Binary64.fixed 4 x

/-- The row of a sample. -/
def sampleRow (localTime : LocalTime) (c : ComputedTiming) : String :=
  row localTime.text c.phase.text (if c.inEffect then c.iteration.text else "-")
    (progressText c.simple) (progressText c.progress) (if c.beforeFlag then "true" else "false")

end EffectTiming.Report
