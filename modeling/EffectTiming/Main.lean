import EffectTiming.Command.Run
import EffectTiming.Plot.Png
import EffectTiming.Text.Raw

/-!
# The program

Reads what a command needs, runs it, and prints and writes what it leaves behind.
-/

namespace EffectTiming

/-- Reads a stream to its end. -/
partial def readAll (stream : IO.FS.Stream) (bytes : ByteArray) : IO ByteArray := do
  let more ← stream.read 4096
  if more.isEmpty then return bytes
  readAll stream (bytes ++ more)

/-- The text of bytes. -/
def textOf (bytes : ByteArray) : String := (RawText.ofBytes (bytes.toList.map UInt8.toNat)).text

/-- The store with the folders that a path needs. -/
def withFolders (store : Store) (path : String) : Store :=
  (store.makeFoldersFor path).toOption.getD store

/-- What stands at a path outside, if anything does. -/
def entryAt (path : String) : IO (Option Entry) := do
  try
    return some (.file (textOf (← IO.FS.readBinFile path)) {})
  catch
    | .inappropriateType .. => return some .folder
    | _ => return none

/-- Puts what stands at a path outside into a store. -/
def fetch (store : Store) (path : String) : IO Store := do
  let store := withFolders store path
  match ← entryAt path with
  | some .folder => return withFolders store (path ++ "/")
  | some (.file text _) => return (store.write path text).toOption.getD store
  | _ => return store

/-- What the arguments of a command refer to: its first argument is read, the others may be
written. -/
def gather : Request → IO Desk
  | .command _ (path :: args) => do
    let input ← if path = "-" then textOf <$> readAll (← IO.getStdin) ByteArray.empty else pure ""
    return { store := ← fetch (args.foldl withFolders {}) path, input }
  | _ => return {}

end EffectTiming

open EffectTiming

/-- Runs the program. -/
def main (args : List String) : IO UInt32 := do
  let (desk, failure) := Command.run args (← gather (Invocation.read args).request)
  if let some drawing := desk.drawing then
    IO.FS.writeBinFile drawing.path (Plot.Png.encode drawing.picture)
  IO.print desk.out
  IO.eprint desk.errors
  match failure with
  | none => return 0
  | some f =>
    IO.eprintln ("Error: " ++ f.message)
    return 1
