import EffectTiming.Binary64.Text
import EffectTiming.Failure
import EffectTiming.Time.Literal
import EffectTiming.Timing.Params

/-!
# Ranges of sample times

A range starts at one time, goes on in equal steps and always ends with its last time.
-/

namespace EffectTiming

/-- The times that a table or a plot covers. -/
structure SampleRange where
  first : Span
  last : Span
  step : Span

/-- What is wrong with a range. -/
inductive RangeFault where
  | stepNotPositive (step : Span)
  | backwards (first last : Span)
  | endless
  | tooLong (samples : Float)

namespace SampleRange

/-- The number of steps that a range must stay below. -/
def limit : Nat := 100000

/-- The least time that a range or an iteration is given. -/
def millisecond : Span := ⟨1000000, by decide, by decide⟩

/-- The last time of interest. An effect without end shows its delay and four iterations. -/
def endOf (p : TimingParams) : Span :=
  let ending :=
    if p.endTime.isForever then p.delay.add ((p.iterationDuration.max millisecond).scale 4)
    else p.endTime
  ending.max .zero

/-- The range from zero to the end of an effect in a number of steps. -/
def ofTiming (p : TimingParams) (steps : Nat) : SampleRange :=
  let ending := endOf p
  let step := ending.scale (1 / Float.ofNat steps)
  { first := .zero, last := ending, step := if step ≤ Span.zero then millisecond else step }

/-- Checks that the times of a range can be listed. -/
def validate (r : SampleRange) : Except RangeFault Unit :=
  if r.step ≤ Span.zero then .error (.stepNotPositive r.step)
  else if r.last < r.first then .error (.backwards r.first r.last)
  else if r.first.isForever || r.last.isForever then .error .endless
  else
    let samples := (r.last.sub r.first).ratio r.step
    if samples ≥ Float.ofNat limit then .error (.tooLong samples) else .ok ()

/-- The times from `t` on, behind those in `earlier`, which come latest first. -/
def timesFrom (r : SampleRange) (t : Span) (earlier : List Span) : List Span :=
  if t < r.last ∧ t < t.add r.step then r.timesFrom (t.add r.step) (t :: earlier)
  else (r.last :: earlier).reverse
termination_by (r.last.ns - t.ns).toNat
decreasing_by
  rename_i h
  have h₁ : t.ns < r.last.ns := h.1
  have h₂ : t.ns < (t.add r.step).ns := h.2
  omega

/-- The times of a range. -/
def times (r : SampleRange) : List Span := r.timesFrom r.first []

end SampleRange

/-- The wording of a fault. -/
def RangeFault.message : RangeFault → String
  | .stepNotPositive step => "--step must be positive, got " ++ step.text
  | .backwards first last => "--to (" ++ last.text ++ ") precedes --from (" ++ first.text ++ ")"
  | .endless => "range must be finite"
  | .tooLong samples =>
    "range produces " ++ Binary64.fixed 0 samples ++ " samples, limit is " ++
    toString SampleRange.limit

end EffectTiming
