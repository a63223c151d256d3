import EffectTiming.Binary64.Text
import EffectTiming.Text.Column
import EffectTiming.Time.Literal
import EffectTiming.Timing.Params

/-!
# Timing in words

A timing and the quantities derived from it, one to a line.
-/

namespace EffectTiming.Report

/-- A labelled line. -/
def labelled (label value : String) : String :=
  "  " ++ Text.column 18 (label ++ ":") ++ " " ++ value ++ "\n"

/-- A count of iterations. -/
def iterationsText (x : Float) : String :=
  if x.isInf && x > 0 then "infinite" else Binary64.general.text x

/-- The lines of a timing. -/
def timingLines (p : TimingParams) : String :=
  String.join
    [ labelled "delay" p.delay.text,
      labelled "duration" (p.duration.elim "auto" Span.text),
      labelled "end delay" p.endDelay.text,
      labelled "iterations"
        (iterationsText p.iterations ++ " (start " ++
          Binary64.general.text p.iterationStart ++ ")"),
      labelled "direction" p.direction.text,
      labelled "fill" p.fill.text,
      labelled "easing" p.easing.text,
      labelled "active duration" p.activeDuration.text,
      labelled "end time" p.endTime.text,
      labelled "active interval" (p.beforeActive.text ++ " .. " ++ p.activeAfter.text) ]

end EffectTiming.Report
