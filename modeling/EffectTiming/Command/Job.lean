import EffectTiming.Description.Reader
import EffectTiming.Incident
import EffectTiming.Plot.Picture
import EffectTiming.Sampling.Setup
import EffectTiming.Store

/-!
# Jobs

A job is what a command does: it reads from files, shows text, and may draw a picture into a file. A
job that stops early keeps what it has shown so far.
-/

namespace EffectTiming

/-- A picture and where it goes. -/
structure Drawing where
  location : Location
  path : String
  picture : Plot.Picture

/-- What a job sees and what it has done. -/
structure Desk where
  store : Store := {}
  /-- What can be read from the standard input. -/
  input : String := ""
  out : String := ""
  errors : String := ""
  drawing : Option Drawing := none

/-- Why the program is broken off. -/
inductive Crash where
  /-- An effect gives no answer. -/
  | effect (fault : EffectFault)
  /-- A description cannot be read, and there is no way to go on. -/
  | description (error : Description.ReadError)

/-- The wording of a crash. -/
def Crash.message : Crash → String
  | .effect fault => fault.message
  | .description error => error.message

/-- Why a job stops early. -/
inductive Stop where
  | failed (failure : Failure)
  | crashed (crash : Crash)

/-- A step of a command. -/
abbrev Job := ExceptT Stop (StateM Desk)

namespace Job

/-- Shows a text. -/
def say (text : String) : Job Unit := modify fun d => { d with out := d.out ++ text }

/-- Stops with a failure. -/
def fail {α : Type} (failure : Failure) : Job α := throw (.failed failure)

/-- Stops with a wording. -/
def refuse {α : Type} (text : String) : Job α := fail (.plain text)

/-- Goes on with a result, or stops with its failure. -/
def orFail {α : Type} : Except Failure α → Job α
  | .ok a => pure a
  | .error f => fail f

/-- Goes on with an answer of an effect, or crashes. -/
def orCrash {α : Type} : Except EffectFault α → Job α
  | .ok a => pure a
  | .error f => throw (.crashed (.effect f))

/-- Reads a file, or the standard input in place of a dash. -/
def readSource (path : String) : Job String := do
  let d ← get
  if path = "-" then return d.input
  match d.store.read path with
  | .ok text => return text
  | .error e => fail (.within ("failed to read " ++ path) (.plain e.message))

/-- Reads the description in a file and resolves it. -/
def load (path : String) : Job Setup := do
  let text ← readSource path
  let description ←
    match Description.parse text with
    | .ok d => pure d
    | .error e =>
      if e.isCrash then throw (.crashed (.description e))
      else fail (.within ("failed to parse " ++ path) e.failure)
  orFail ((description.resolve Version.read?).mapError (.within ("invalid effect " ++ path)))

/-- Draws a picture into a file. -/
def draw (path : String) (picture : Plot.Picture) : Job Unit := do
  let d ← get
  match d.store.put path "" with
  | .ok (store, location) => set { d with store, drawing := some ⟨location, path, picture⟩ }
  | .error e => fail (.within ("failed to create " ++ path) (.plain e.message))

end Job

end EffectTiming
