import EffectTiming.Binary64.Numeral
import EffectTiming.Easing.Basic
import EffectTiming.Failure
import EffectTiming.Text.Split

/-!
# Reading easings

An easing is a keyword, `cubic-bezier(x1, y1, x2, y2)` or `steps(n[, position])`, in any case and
with blanks around the parts.
-/

namespace EffectTiming.Easing

/-- Why a text is not an easing. -/
inductive ReadError where
  | unknownKeyword
  | unknownFunction (name : String)
  | curveArity
  | badNumber (argument : String)
  | stepsArity
  | badCount (argument : String)
  | unusable (fault : EasingFault)
  deriving DecidableEq, Repr

/-- The wording of the reason. -/
def ReadError.reason : ReadError → String
  | .unknownKeyword => "unknown keyword"
  | .unknownFunction name => "unknown function " ++ Text.quoted name
  | .curveArity => "cubic-bezier takes four numbers"
  | .badNumber a => "invalid number " ++ Text.quoted a
  | .stepsArity => "steps takes a count and an optional position"
  | .badCount a => "invalid step count " ++ Text.quoted a
  | .unusable f => f.text

/-- The easing of a bare word. -/
def ofWord? (w : String) : Option Easing :=
  if w = "linear" then some .linear
  else if w = "ease" then some NamedCurve.ease.easing
  else if w = "ease-in" then some NamedCurve.easeIn.easing
  else if w = "ease-out" then some NamedCurve.easeOut.easing
  else if w = "ease-in-out" then some NamedCurve.easeInOut.easing
  else if w = "step-start" then some (.steps { count := 1, position := .known .start })
  else if w = "step-end" then some (.steps { count := 1, position := .known .finish })
  else none

/-- A function call: the name and the arguments, all without blanks around them. -/
structure Call where
  name : String
  arguments : List String

/-- Reads `name(a, b, …)`; the name must not be empty, though it may be blank. -/
def call? (cs : List Char) : Option Call :=
  let name := cs.takeWhile (· != '(')
  match cs.dropWhile (· != '(') with
  | [] => none
  | _ :: rest =>
    if name.isEmpty || rest.getLast? != some ')' then none
    else
      some ⟨String.ofList (Text.trimChars name),
        (Text.split ',' rest.dropLast).map fun a => String.ofList (Text.trimChars a)⟩

/-- Reads every number of a list, or names the first that is none. -/
def readNumbers : List String → Except ReadError (List Float)
  | [] => .ok []
  | a :: rest =>
    match Binary64.ofText? a with
    | none => .error (.badNumber a)
    | some x =>
      match readNumbers rest with
      | .error e => .error e
      | .ok xs => .ok (x :: xs)

/-- Keeps an easing that can be used. -/
def checked (e : Easing) : Except ReadError Easing :=
  match e.fault? with
  | some f => .error (.unusable f)
  | none => .ok e

/-- The curve with the given arguments. -/
def ofCurveArguments (arguments : List String) : Except ReadError Easing :=
  if arguments.length ≠ 4 then .error .curveArity
  else
    match readNumbers arguments with
    | .error e => .error e
    | .ok [x1, y1, x2, y2] => checked (.bezier ⟨x1, y1, x2, y2⟩)
    | .ok _ => .error .curveArity

/-- The step position with exactly the given word. -/
def position (w : String) : Coded StepPosition :=
  match (Keyword.all : List StepPosition).find? (fun p => Keyword.word p == w) with
  | some p => .known p
  | none => .unknown (-1)

/-- The step function with the given count and position. -/
def ofCount (count : String) (p : Coded StepPosition) : Except ReadError Easing :=
  match Binary64.wholeNumber? count with
  | none => .error (.badCount count)
  | some n => checked (.steps (.ofCount n p))

/-- The step function with the given arguments. -/
def ofStepArguments : List String → Except ReadError Easing
  | [count] => ofCount count (.known .finish)
  | [count, p] => ofCount count (position p)
  | _ => .error .stepsArity

/-- Reads an easing, and says why a text is none. -/
def parse (s : String) : Except ReadError Easing :=
  let word := Text.lower (Text.trim s)
  match ofWord? word with
  | some e => .ok e
  | none =>
    match call? word.toList with
    | none => .error .unknownKeyword
    | some c =>
      if c.name = "cubic-bezier" then ofCurveArguments c.arguments
      else if c.name = "steps" then ofStepArguments c.arguments
      else .error (.unknownFunction c.name)

/-- Reads an easing; a failure names the text as it was given. -/
def read (s : RawText) : Except Failure Easing :=
  match parse s.text with
  | .ok e => .ok e
  | .error e => .error (.unreadable "animation.ParseEasing" "easing" s e.reason)

/-- The step function with `n` intervals, if it can be used. -/
def ofSteps (n : Int) (p : Coded StepPosition) : Except Failure Easing :=
  let s := Staircase.ofCount n p
  match s.fault? with
  | some f => .error (.unreadable "animation.Steps" "easing" s.text f.text)
  | none => .ok (.steps s)

end EffectTiming.Easing
