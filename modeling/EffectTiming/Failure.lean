import EffectTiming.Text.Raw

/-!
# Failures

A failure is a tree of causes: what went wrong at the bottom, and around it what was being done.
Each kind of failure has one wording, given by `Failure.message`; `Failure.chain` lists the wordings
from the outermost cause inwards.
-/

namespace EffectTiming

/-- The categories of failures. -/
inductive FailureKind where
  | unknown | validation | parsing | config | invariant | panic
  deriving DecidableEq, Repr

namespace FailureKind

/-- The name of a category. -/
def text : FailureKind → String
  | .unknown => "unknown"
  | .validation => "validation"
  | .parsing => "parsing"
  | .config => "config"
  | .invariant => "invariant"
  | .panic => "panic"

/-- The category with a number; every number without one of its own is unknown. -/
def ofCode (n : Int) : FailureKind :=
  if n = 1 then .validation
  else if n = 2 then .parsing
  else if n = 3 then .config
  else if n = 4 then .invariant
  else if n = 5 then .panic
  else .unknown

end FailureKind

/-- What an operation carried when it was broken off. -/
inductive Payload where
  | text (s : String)
  | flag (b : Bool)
  | whole (n : Int)
  | nothing
  deriving DecidableEq, Repr

/-- The printed form of a payload. -/
def Payload.shown : Payload → String
  | .text s => s
  | .flag b => if b then "true" else "false"
  | .whole n => toString n
  | .nothing => "<nil>"

/-- What went wrong. -/
inductive Failure where
  /-- A step of the engine failed: the operation, the category, the field at fault if there is one
  (else the empty text), and the cause. -/
  | timing (op : String) (kind : FailureKind) (field : String) (cause : Failure)
  /-- A text could not be read as a value of the named type. -/
  | parse (dataType : String) (input : RawText) (reason : String)
  /-- An operation was broken off. -/
  | aborted (op : String) (payload : Payload)
  /-- A condition that the engine relies on does not hold. -/
  | invariant (op text : String)
  /-- A failure that is no more than its wording. -/
  | plain (text : String)
  /-- A failure seen from a wider context. -/
  | within (context : String) (cause : Failure)
  /-- No cause was given. -/
  | absent
  deriving DecidableEq, Repr

namespace Failure

/-- The wording of a failure. -/
def message : Failure → String
  | .timing op kind field cause =>
    op ++ " [" ++ kind.text ++ "]" ++ (if field = "" then "" else " field=" ++ field) ++ ": " ++
      cause.message
  | .parse dataType input reason =>
    "failed to parse " ++ dataType ++ " from " ++ input.quoted ++
      (if reason = "" then "" else ": " ++ reason)
  | .aborted op payload =>
    (if op = "" then "panic: " else "panic in " ++ op ++ ": ") ++ payload.shown
  | .invariant op text => "invariant violated in " ++ op ++ ": " ++ text
  | .plain text => text
  | .within context cause => context ++ ": " ++ cause.message
  | .absent => "<nil>"

/-- The failures from the outermost one inwards. -/
def layers : Failure → List Failure
  | .timing op kind field cause => .timing op kind field cause :: cause.layers
  | .within context cause => .within context cause :: cause.layers
  | .absent => []
  | f => [f]

/-- The wordings from the outermost one inwards. -/
def chain (f : Failure) : List String := f.layers.map message

/-- A failed step of the engine, with its category and field. -/
def asTiming? : Failure → Option (FailureKind × String)
  | .timing _ kind field _ => some (kind, field)
  | _ => none

/-- The category and field of the outermost failed step. -/
def outermostTiming? (f : Failure) : Option (FailureKind × String) := f.layers.findSome? asTiming?

/-- Some layer is a failed step of the engine. -/
def isTiming (f : Failure) : Bool := f.outermostTiming?.isSome

/-- Some layer is a text that could not be read. -/
def isParse (f : Failure) : Bool :=
  f.layers.any fun
    | .parse .. => true
    | _ => false

/-- A text that an operation could not read. -/
def unreadable (op dataType : String) (input : RawText) (reason : String) : Failure :=
  .timing op .parsing "" (.parse dataType input reason)

end Failure

end EffectTiming
