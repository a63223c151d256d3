import EffectTiming.Failure

/-!
# Incidents

A failure that is reported becomes an incident: it has a time and perhaps a call stack. Handlers
receive incidents and log them, keep them or drop them.
-/

namespace EffectTiming

/-- When an incident happened. -/
inductive Stamp where
  | unset
  | now
  | second (n : Int)
  deriving DecidableEq, Repr

/-- The first second of the first year, counted from the start of 1970. -/
def Stamp.firstSecond : Int := -62135596800

/-- The stamp of a second, counted from the start of 1970. A clock that was never set shows the
first second of the first year. -/
def Stamp.ofSecond (n : Int) : Stamp := if n = firstSecond then .unset else .second n

/-- The calls that led to an incident. -/
inductive Backtrace where
  | none
  | given (text : String)
  /-- Taken from the running program; its frames are not told apart. -/
  | captured
  deriving DecidableEq, Repr

namespace Backtrace

/-- The text of a call stack. -/
def text : Backtrace → String
  | .none => ""
  | .given text => text
  | .captured => "<stack>\n"

/-- The part of a log entry that shows a call stack. -/
def logged (b : Backtrace) : String :=
  if b.text = "" then "" else "Stack trace:\n" ++ b.text ++ "\n"

end Backtrace

/-- A reported failure. -/
structure Incident where
  failure : Failure
  stamp : Stamp := .unset
  backtrace : Backtrace := .none

namespace Incident

/-- The first line of a log entry without its end. -/
def headline (verbose : Bool) : Failure → String
  | .timing op kind field cause =>
    "[timing error] " ++
      (if verbose then (Failure.timing op kind field cause).message
        else op ++ ": " ++ cause.message)
  | .aborted op payload =>
    "[timing panic] " ++ (if op = "" then "" else op ++ ": ") ++ payload.shown
  | .invariant op text => "[timing invariant] " ++ (Failure.invariant op text).message
  | f => f.message

/-- The log entry of an incident; a verbose one shows the category and the call stack. -/
def logged (verbose : Bool) (i : Incident) : String :=
  headline verbose i.failure ++ "\n" ++ (if verbose then i.backtrace.logged else "")

end Incident

/-- Where a handler logs to. -/
inductive Sink where
  | out
  | errors
  deriving DecidableEq, Repr

/-- Who receives incidents. -/
inductive Handler where
  /-- They are dropped. -/
  | ignore
  /-- They are logged. -/
  | log (verbose : Bool) (sink : Sink)
  /-- They are kept. -/
  | keep
  deriving DecidableEq, Repr

/-- What came of handling incidents. -/
structure Handled where
  out : String := ""
  errors : String := ""
  kept : List Incident := []

namespace Handled

/-- First the one and then the other. -/
def append (a b : Handled) : Handled :=
  { out := a.out ++ b.out, errors := a.errors ++ b.errors, kept := a.kept ++ b.kept }

end Handled

namespace Handler

/-- The handler that is used until another one is chosen. -/
def standard : Handler := .log false .errors

/-- Handles an incident. -/
def handle (h : Handler) (i : Incident) : Handled :=
  match h with
  | .ignore => {}
  | .log verbose .out => { out := i.logged verbose }
  | .log verbose .errors => { errors := i.logged verbose }
  | .keep => { kept := [i] }

/-- Reports a failed step; one without a time happened now. -/
def report (h : Handler) (i : Incident) : Handled :=
  h.handle { i with stamp := if i.stamp = .unset then .now else i.stamp }

/-- Checks a condition that the engine relies on. If it does not hold, that is reported and the
operation fails. -/
def assert (h : Handler) (condition : Bool) (op text : String) : Handled × Except Failure Unit :=
  if condition then ({}, .ok ())
  else
    let failure := Failure.invariant op text
    (h.handle ⟨failure, .now, .captured⟩, .error failure)

/-- What an operation that was broken off without a reason carries. -/
def carried : Payload → Payload
  | .nothing => .text "runtime error: panic called with nil argument"
  | payload => payload

/-- Takes up an operation that was broken off, reports it, and gives what it carried. -/
def recover (h : Handler) (op : String) : Option Payload → Handled × Option Payload
  | none => ({}, none)
  | some payload =>
    (h.handle ⟨.aborted op (carried payload), .now, .captured⟩, some (carried payload))

end Handler

end EffectTiming
