import EffectTiming.Store
import EffectTiming.Trace.Diff

/-!
# Golden files

A trace is compared with one that was kept in a file, or kept there itself.
-/

namespace EffectTiming

/-- Why a trace could not be kept or loaded. -/
inductive GoldenFault where
  | file (error : FileError)
  | unwritable (number : UnwritableNumber)
  | unreadable (error : Trace.ReadError)

/-- The wording of a fault. -/
def GoldenFault.message : GoldenFault → String
  | .file e => e.message
  | .unwritable u => u.message
  | .unreadable e => "invalid snapshot JSON: " ++ e.message

/-- What a comparison has to say. -/
inductive Complaint where
  | fatal (text : String)
  | error (text : String)
  deriving DecidableEq, Repr

namespace Trace

/-- Keeps a trace in a file and makes the folders for it. They stay even if the trace cannot be
written. -/
def keep (t : Trace) (s : Store) (path : String) : Store × Except GoldenFault Unit :=
  match s.makeFoldersFor path with
  | .error e => (s, .error (.file e))
  | .ok s =>
    match t.text with
    | .error u => (s, .error (.unwritable u))
    | .ok text =>
      match s.write path text with
      | .error e => (s, .error (.file e))
      | .ok s => (s, .ok ())

/-- Loads a trace from a file. -/
def load (s : Store) (path : String) : Except GoldenFault Trace :=
  match s.read path with
  | .error e => .error (.file e)
  | .ok text => (read text).mapError .unreadable

/-- How to make the files anew. -/
def updateCommand (test : String) : String := "TIMING_UPDATE_SNAPSHOTS=1 go test -run " ++ test

/-- Compares a trace with the one in a file, on behalf of a named test. -/
def compareWith (t : Trace) (s : Store) (path test : String) : List Complaint :=
  match load s path with
  | .error (.file ⟨_, _, .missing⟩) =>
    [.fatal ("snapshot file missing: " ++ path ++ "\n\nTo create: " ++ updateCommand test)]
  | .error f => [.fatal ("failed to load snapshot: " ++ f.message)]
  | .ok expected =>
    let difference := t.diff expected
    if difference = "" then []
    else
      [.error ("snapshot mismatch: " ++ path ++ "\n" ++ difference ++ "\n\nTo update: " ++
        updateCommand test)]

/-- Compares a trace with the one in a file, or keeps it there if the files are to be made anew. -/
def matchFile (t : Trace) (s : Store) (path test : String) (update : Bool) :
    Store × List Complaint :=
  if update then
    match t.keep s path with
    | (s, .ok ()) => (s, [])
    | (s, .error f) => (s, [.fatal ("failed to update snapshot: " ++ f.message)])
  else (s, t.compareWith s path test)

end Trace

end EffectTiming
