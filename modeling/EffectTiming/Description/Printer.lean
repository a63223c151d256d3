import EffectTiming.Description.Basic
import EffectTiming.Document.Printer

/-!
# Writing descriptions

Fields that have their default are left out; the timing is always there.
-/

namespace EffectTiming

open Document

/-- A text field, unless it is empty. -/
def writtenText (key : String) (value : RawText) : List (String × Written) :=
  if value.isEmpty then [] else [(key, .text value)]

/-- A truth value, unless it is false. -/
def writtenFlag (key : String) (value : Bool) : List (String × Written) :=
  if value then [(key, .flag true)] else []

/-- A record, unless it is empty. -/
def writtenRecord (key : String) (fields : List (String × Written)) : List (String × Written) :=
  if fields.isEmpty then [] else [(key, .record fields)]

/-- The fields of a written timing. -/
def TimingText.written (t : TimingText) : List (String × Written) :=
  writtenText "delay" t.delay ++ writtenText "endDelay" t.endDelay ++
    writtenText "duration" t.duration ++
    (match t.iterations with
      | none => []
      | some x =>
        [("iterations", if x.isInf && x > 0 then .text "infinite" else .number x)]) ++
    (if t.iterationStart == 0 then [] else [("iterationStart", .number t.iterationStart)]) ++
    writtenText "direction" t.direction ++ writtenText "fill" t.fill ++
      writtenText "easing" t.easing

/-- The fields of a written timeline. -/
def TimelineText.written (t : TimelineText) : List (String × Written) :=
  writtenFlag "progress" t.progress ++ writtenText "duration" t.duration

/-- The fields of a written animation. -/
def PlaybackText.written (p : PlaybackText) : List (String × Written) :=
  (match p.rate with
    | none => []
    | some x => [("rate", .number x)]) ++
    writtenText "endpoint" p.endpoint ++ writtenFlag "boundary" p.boundary ++
    writtenFlag "finished" p.finished

/-- The written form of a description. -/
def Description.text (d : Description) : String :=
  recordDocument 4
    (writtenText "version" d.version ++ [("timing", .record d.timing.written)] ++
      writtenRecord "timeline" d.timeline.written ++ writtenRecord "playback" d.playback.written)

end EffectTiming
