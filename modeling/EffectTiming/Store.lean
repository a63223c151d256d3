import EffectTiming.Text.Bytes
import EffectTiming.Text.Split

/-!
# Files

A tree of folders and files below one working folder. Paths are texts with slashes; looking one up
passes through folders only. A path may also leave the working folder: what lies outside is not
known, except for the folders around it, the root with a few folders that are always there, and some
devices.

A regular file keeps what is written to it, but it may be closed to readers or to writers. A device
keeps nothing.
-/

namespace EffectTiming

/-- Why a file cannot be used. -/
inductive FileCause where
  | missing
  | notFolder
  | isFolder
  | present
  | longName
  | invalid
  | denied
  | full
  /-- What is read has no end. -/
  | endless
  deriving DecidableEq, Repr

/-- The wording of a cause. -/
def FileCause.text : FileCause → String
  | .missing => "no such file or directory"
  | .notFolder => "not a directory"
  | .isFolder => "is a directory"
  | .present => "file exists"
  | .longName => "file name too long"
  | .invalid => "invalid argument"
  | .denied => "permission denied"
  | .full => "no space left on device"
  | .endless => "no end of file"

/-- What may be done with a regular file. -/
structure Access where
  readable : Bool := true
  writable : Bool := true
  deriving DecidableEq, Repr

/-- A file that keeps nothing of what is written to it. -/
structure Device where
  /-- Why nothing can be written. -/
  refusal : Option FileCause := none
  /-- Why nothing can be read. -/
  silence : Option FileCause := none
  /-- What is read otherwise. -/
  text : String := ""
  deriving DecidableEq, Repr

/-- What a name stands for. -/
inductive Entry where
  | file (text : String) (access : Access)
  | folder
  | device (device : Device)
  deriving DecidableEq, Repr

/-- The names from the working folder to an entry. Outside the working folder they start with steps
upwards or with the root. -/
abbrev Location := List String

namespace Location

/-- The folder around a location; the root has none. -/
def parent (loc : Location) : Location :=
  if loc = ["/"] then loc else if loc.all (· = "..") then loc ++ [".."] else loc.dropLast

/-- The path of a location. -/
def path : Location → String
  | "/" :: names => "/" ++ String.intercalate "/" names
  | names => String.intercalate "/" names

end Location

/-- The entries below the working folder, and those outside that are not as usual. -/
structure Store where
  entries : List (Location × Entry) := []
  /-- What may be done with a file that is created. -/
  newAccess : Access := {}
  deriving Repr

/-- A failed step on a file. -/
structure FileError where
  step : String
  path : String
  cause : FileCause
  deriving DecidableEq, Repr

/-- The wording of a failed step. -/
def FileError.message (e : FileError) : String := e.step ++ " " ++ e.path ++ ": " ++ e.cause.text

/-- The names of a path. A path from the root starts with a name of its own. -/
def pathNames (path : String) : List String :=
  match (Text.split '/' path.toList).map String.ofList with
  | "" :: rest => if rest.isEmpty then [] else "/" :: rest
  | names => names

/-- The folder in which a path lies, with needless steps taken out. -/
def folderNames (path : String) : List String :=
  let step (done : List String) (name : String) : List String :=
    if name = "" ∨ name = "." then done
    else if name = ".." then Location.parent done
    else done ++ [name]
  (pathNames path).dropLast.foldl step []

/-- The length of a text in bytes exceeds a bound. -/
def exceeds (bound : Nat) (text : String) : Bool := bound < text.utf8ByteSize

/-- What is wrong with a path as a whole: no zero character may stand in it, and it has at most 4095
bytes. -/
def pathCause? (path : String) : Option FileCause :=
  if path.toList.contains '\x00' then some .invalid
  else if exceeds 4095 path then some .longName
  else none

/-- A name has more than 255 bytes. -/
def isLongName (name : String) : Bool := exceeds 255 name

/-- What usually lies outside the working folder, apart from the folders around it. -/
def outside : List (Location × Entry) :=
  [(["/"], .folder), (["/", "dev"], .folder), (["/", "dev", "null"], .device {}),
    (["/", "dev", "zero"], .device { silence := some .endless }),
    (["/", "dev", "full"], .device { refusal := some .full, silence := some .endless }),
    (["/", "tmp"], .folder)]

namespace Store

/-- The entry at a location. -/
def get? (s : Store) (loc : Location) : Option Entry :=
  if loc.all (· = "..") then some .folder else (s.entries.lookup loc).or (outside.lookup loc)

/-- Puts an entry at a location. -/
def set (s : Store) (loc : Location) (entry : Entry) : Store :=
  { s with entries := (loc, entry) :: s.entries.filter (·.1 ≠ loc) }

/-- A location can be passed through. -/
def pass (s : Store) (loc : Location) : Except FileCause Unit :=
  match s.get? loc with
  | some .folder => .ok ()
  | some _ => .error .notFolder
  | none => .error .missing

/-- The location of a path, which need not hold anything. -/
def locate (s : Store) : Location → List String → Except FileCause Location
  | here, [] => .ok here
  | here, name :: names =>
    match s.pass here with
    | .error e => .error e
    | .ok () =>
      if name = "" ∨ name = "." then s.locate here names
      else if name = ".." then s.locate (Location.parent here) names
      else if isLongName name then .error .longName
      else s.locate (here ++ [name]) names

/-- The location of a path, which must not be empty. -/
def locatePath (s : Store) (path : String) : Except FileCause Location :=
  match pathCause? path with
  | some cause => .error cause
  | none => if path = "" then .error .missing else s.locate [] (pathNames path)

/-- The text of a file. -/
def read (s : Store) (path : String) : Except FileError String :=
  match s.locatePath path with
  | .error e => .error ⟨"open", path, e⟩
  | .ok loc =>
    match s.get? loc with
    | some (.file text access) =>
      if access.readable then .ok text else .error ⟨"open", path, .denied⟩
    | some .folder => .error ⟨"read", path, .isFolder⟩
    | some (.device d) =>
      match d.silence with
      | none => .ok d.text
      | some cause => .error ⟨"read", path, cause⟩
    | none => .error ⟨"open", path, .missing⟩

/-- The location at which a path lets a file be put. A path that ends with a slash names a folder,
whether it is there or not, as long as the folders in front of it are. -/
def locateNew (s : Store) (path : String) : Except FileCause Location := do
  if path.endsWith "/" then
    if let some cause := pathCause? path then throw cause
    let names := ((pathNames path).reverse.dropWhile (· = "")).reverse
    s.pass (← s.locate [] names.dropLast)
    throw .isFolder
  let loc ← s.locatePath path
  if s.get? loc = some .folder then throw .isFolder
  return loc

/-- Puts a text into a file, which is created or replaced, and gives the location of the file. What
may be done with a file that is there already stays as it is. -/
def put (s : Store) (path text : String) : Except FileError (Store × Location) :=
  match s.locateNew path with
  | .error e => .error ⟨"open", path, e⟩
  | .ok loc =>
    match s.get? loc with
    | some (.file _ access) =>
      if access.writable then .ok (s.set loc (.file text access), loc)
      else .error ⟨"open", path, .denied⟩
    | some (.device d) =>
      match d.refusal with
      | none => .ok (s, loc)
      | some cause => .error ⟨"write", path, cause⟩
    | _ => .ok (s.set loc (.file text s.newAccess), loc)

/-- Writes a file, which is created or replaced. -/
def write (s : Store) (path text : String) : Except FileError Store := (s.put path text).map (·.1)

/-- Makes folders one inside the other, as far as they are not there. -/
def makeFolders (s : Store) : Location → List String → Except FileError Store
  | _, [] => .ok s
  | here, ".." :: names => s.makeFolders (Location.parent here) names
  | here, name :: names =>
    let next := here ++ [name]
    let path := Location.path next ++ (if names.isEmpty then "" else "/")
    match s.get? next, pathCause? path with
    | some .folder, _ => s.makeFolders next names
    | some _, _ => .error ⟨"mkdir", path, if names.isEmpty then .notFolder else .present⟩
    | none, some cause => .error ⟨"mkdir", path, cause⟩
    | none, none =>
      if isLongName name then .error ⟨"mkdir", path, .longName⟩
      else (s.set next .folder).makeFolders next names

/-- Makes the folders in which a path lies. -/
def makeFoldersFor (s : Store) (path : String) : Except FileError Store :=
  s.makeFolders [] (folderNames path)

end Store

end EffectTiming
