import EffectTiming.Description.Basic
import EffectTiming.Description.Version
import EffectTiming.Easing.Reader
import EffectTiming.Owner
import EffectTiming.Time.Literal
import EffectTiming.Timing.Normalize

/-!
# From descriptions to setups

A setup is a description whose texts have been read and whose values have been checked. The fields
are looked at in a fixed order, and the first one at fault is reported.
-/

namespace EffectTiming

/-- A checked description. -/
structure Setup where
  version : Version
  /-- The timing as specified. -/
  timing : TimingParams
  /-- The duration of a progress-based timeline, else zero. -/
  timeline : Span
  rate : Float
  endpoint : Endpoint
  boundary : Bool
  finished : Bool

/-- What is wrong with a description. -/
inductive SetupFault where
  | notVersion (text : RawText)
  | unsupportedMajor (major : String)
  | delay (cause : Span.LiteralError)
  | endDelay (cause : Span.LiteralError)
  | duration (cause : Span.LiteralError)
  | direction (cause : Failure)
  | fill (cause : Failure)
  | easing (cause : Failure)
  | timing (cause : Failure)
  | timelineDuration (cause : Span.LiteralError)
  | timelineNotPositive (duration : Span)
  | timelineWithoutProgress
  | rateNotFinite
  | unknownEndpoint (text : RawText)

namespace SetupFault

/-- The field at fault. -/
def field : SetupFault → String
  | .notVersion _ | .unsupportedMajor _ => "version"
  | .delay _ => "timing.delay"
  | .endDelay _ => "timing.endDelay"
  | .duration _ => "timing.duration"
  | .direction _ => "timing.direction"
  | .fill _ => "timing.fill"
  | .easing _ => "timing.easing"
  | .timing _ => "timing"
  | .timelineDuration _ | .timelineNotPositive _ | .timelineWithoutProgress => "timeline.duration"
  | .rateNotFinite => "playback.rate"
  | .unknownEndpoint _ => "playback.endpoint"

/-- Why the field is at fault. -/
def cause : SetupFault → Failure
  | .notVersion s => .plain (s.quoted ++ " is not a semantic version")
  | .unsupportedMajor m => .plain ("unsupported major version v" ++ m ++ " (want v1)")
  | .delay e | .endDelay e | .duration e | .timelineDuration e => .plain e.message
  | .direction f | .fill f | .easing f | .timing f => f
  | .timelineNotPositive d => .plain ("must be positive, got " ++ d.literal)
  | .timelineWithoutProgress => .plain "only valid with progress: true"
  | .rateNotFinite => .plain "must be finite"
  | .unknownEndpoint s => .plain ("unknown endpoint behavior " ++ s.quoted)

/-- The failure that a fault is reported as. -/
def failure (f : SetupFault) : Failure := .timing "config.Resolve" .config f.field f.cause

end SetupFault

namespace Description

/-- The version that an unversioned description has, and the only major version there is. -/
def currentVersion : Version := { major := "1" }

/-- Reads the version, whose form is for `read?` to say; the letter in front may be left out. -/
def readVersion (read? : RawText → Option Version) (text : RawText) : Except SetupFault Version :=
  let text := text.trim
  if text.isEmpty then .ok currentVersion
  else
    let text : RawText :=
      if text.glyphs.head? = some (.char 'v') then text else ⟨.char 'v' :: text.glyphs⟩
    match read? text with
    | none => .error (.notVersion text)
    | some v => if v.major = currentVersion.major then .ok v else .error (.unsupportedMajor v.major)

/-- Reads a duration; nothing stands for zero. -/
def readSpan (fault : Span.LiteralError → SetupFault) (text : RawText) : Except SetupFault Span :=
  let text := text.trim
  if text.isEmpty then .ok .zero else (Span.read text).mapError fault

/-- Reads the duration of an iteration; nothing and `auto` stand for none. -/
def readDuration (text : RawText) : Except SetupFault (Option Span) :=
  let text := text.trim
  if text.isEmpty || Text.sameWord text.text "auto" then .ok none
  else (readSpan .duration text).map some

/-- Reads a text unless it is empty. -/
def readUnlessEmpty {α : Type} (fault : Failure → SetupFault) (read : RawText → Except Failure α)
    (absent : α) (text : RawText) : Except SetupFault α :=
  if text.isEmpty then .ok absent else (read text).mapError fault

/-- Reads and checks the timing. -/
def readTiming (t : TimingText) : Except SetupFault TimingParams := do
  let delay ← readSpan .delay t.delay
  let endDelay ← readSpan .endDelay t.endDelay
  let duration ← readDuration t.duration
  let direction ← readUnlessEmpty .direction Direction.read .normal t.direction
  let fill ← readUnlessEmpty .fill FillMode.read .auto t.fill
  let easing ← readUnlessEmpty .easing Easing.read .linear t.easing
  (TimingParams.ofOptions
    { delay, endDelay, duration, iterations := t.iterations.getD 1,
      iterationStart := t.iterationStart
      direction := .known direction, fill := .known fill, easing }).mapError .timing

/-- Reads the duration of the timeline; zero if it is not progress-based. -/
def readTimeline (t : TimelineText) : Except SetupFault Span :=
  if t.progress then
    if t.duration.isEmpty then .ok progressTimeline
    else
      match readSpan .timelineDuration t.duration with
      | .error e => .error e
      | .ok d => if Span.zero < d then .ok d else .error (.timelineNotPositive d)
  else if t.duration.isEmpty then .ok .zero
  else .error .timelineWithoutProgress

/-- Checks the playback rate. -/
def readRate : Option Float → Except SetupFault Float
  | none => .ok 1
  | some x => if Binary64.isFinite x then .ok x else .error .rateNotFinite

/-- Reads whether the ends of the active interval belong to it. -/
def readEndpoint (text : RawText) : Except SetupFault Endpoint :=
  if text.trim.isEmpty then .ok .inclusive
  else
    match Keyword.read? Endpoint text.text with
    | some e => .ok e
    | none => .error (.unknownEndpoint text)

/-- Reads and checks all fields. -/
def check (d : Description) (read? : RawText → Option Version) : Except SetupFault Setup := do
  let version ← readVersion read? d.version
  let timing ← readTiming d.timing
  let timeline ← readTimeline d.timeline
  let rate ← readRate d.playback.rate
  let endpoint ← readEndpoint d.playback.endpoint
  return { version, timing, timeline, rate, endpoint
           boundary := d.playback.boundary, finished := d.playback.finished }

/-- The setup of a description, given a reader of versions. -/
def resolve (d : Description) (read? : RawText → Option Version) : Except Failure Setup :=
  (d.check read?).mapError SetupFault.failure

end Description

namespace Setup

/-- The timeline measures progress. -/
def progressBased (s : Setup) : Bool := s.timeline != .zero

/-- The timing in the unit of the timeline. -/
def normalized (s : Setup) : Except Broken TimingParams :=
  if s.progressBased then s.timing.normalize s.timeline else .ok s.timing

/-- The timeline stands at one of its ends: by declaration, or because the time is the first or the
last of a progress-based timeline. -/
def atBoundary (s : Setup) (localTime : LocalTime) : Bool :=
  s.boundary ||
    (s.progressBased &&
      match localTime with
      | .unresolved => false
      | .resolved t => t == .zero || t == s.timeline)

/-- How the effect is sampled at a time. -/
def sampleOptions (s : Setup) (localTime : LocalTime) : SampleOptions :=
  { rate := s.rate, atBoundary := s.atBoundary localTime, endpoint := .known s.endpoint }

/-- The animation at a time. -/
def owner (s : Setup) (localTime : LocalTime) : Owner :=
  { time := localTime, rate := s.rate, boundary := s.atBoundary localTime
    timeline := s.timeline, finished := s.finished }

/-- Why a text is not a sample time. -/
inductive TimeFault where
  | percentWithoutProgress
  | invalidPercentage
  | notDuration

/-- The wording of a fault. -/
def TimeFault.reason : TimeFault → String
  | .percentWithoutProgress => "percentages need a progress-based timeline"
  | .invalidPercentage => "invalid percentage"
  | .notDuration => ""

/-- Reads a share of the timeline, without its percent sign. -/
def readShare (s : Setup) (share : RawText) : Except TimeFault LocalTime :=
  if !s.progressBased then .error .percentWithoutProgress
  else
    match Binary64.ofText? share.text with
    | some x =>
      if Binary64.isFinite x then .ok (.resolved (s.timeline.scale (x / 100)))
      else .error .invalidPercentage
    | none => .error .invalidPercentage

/-- Reads a sample time from a text without blanks around it: a duration, `unresolved`, `forever`,
or a percentage of the timeline. -/
def parseTime (s : Setup) (text : RawText) : Except TimeFault LocalTime :=
  if Text.sameWord text.text "unresolved" then .ok .unresolved
  else if Text.sameWord text.text "forever" then .ok (.resolved .forever)
  else if text.glyphs.getLast? = some (.char '%') then s.readShare ⟨text.glyphs.dropLast⟩
  else
    match Span.read text with
    | .ok d => .ok (.resolved d)
    | .error _ => .error .notDuration

/-- Reads a sample time. -/
def readTime (s : Setup) (text : RawText) : Except Failure LocalTime :=
  let text := text.trim
  (s.parseTime text).mapError fun f =>
    .unreadable "config.ParseLocalTime" "local time" text f.reason

end Setup

end EffectTiming
