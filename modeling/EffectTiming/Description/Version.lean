import EffectTiming.Text.Raw

/-!
# Versions

Semantic versions with a leading `v`. Minor and patch number may be left out at the end; build data
does not count.
-/

namespace EffectTiming

/-- A semantic version. -/
structure Version where
  major : String
  minor : String := "0"
  patch : String := "0"
  /-- The part from a dash on, or nothing. -/
  prerelease : String := ""
  deriving DecidableEq, Repr

namespace Version

/-- The written form of a version. -/
def text (v : Version) : String :=
  "v" ++ v.major ++ "." ++ v.minor ++ "." ++ v.patch ++ v.prerelease

/-- Takes a number without needless zeros. -/
def takeNumber (cs : List Char) : Option (String × List Char) :=
  let digits := cs.takeWhile Char.isDigit
  if digits.isEmpty || (digits.head? == some '0' && digits.length != 1) then none
  else some (String.ofList digits, cs.dropWhile Char.isDigit)

/-- A character of an identifier. -/
def isIdentifierChar (c : Char) : Bool := c.isAlphanum || c == '-'

/-- An identifier: letters, digits and dashes. -/
def isIdentifier (cs : List Char) : Bool := !cs.isEmpty && cs.all isIdentifierChar

/-- An identifier of a release: if it is a number, it has no needless zeros. -/
def isReleaseIdentifier (cs : List Char) : Bool :=
  isIdentifier cs && !(cs.all Char.isDigit && cs.head? == some '0' && cs.length != 1)

/-- Reads what follows the numbers: perhaps a release, and perhaps build data. -/
def readRelease (cs : List Char) : Option String :=
  let release := cs.takeWhile (· != '+')
  let build := cs.dropWhile (· != '+')
  let goodRelease :=
    match release with
    | [] => true
    | c :: rest => c == '-' && (Text.split '.' rest).all isReleaseIdentifier
  let goodBuild :=
    match build with
    | [] => true
    | _ :: rest => (Text.split '.' rest).all isIdentifier
  if goodRelease && goodBuild then some (String.ofList release) else none

/-- Reads the number behind a point. -/
def takePart : List Char → Option (String × List Char)
  | '.' :: cs => takeNumber cs
  | _ => none

/-- Reads a version behind its `v`. -/
def readNumbers (cs : List Char) : Option Version := do
  let (major, cs) ← takeNumber cs
  if cs.isEmpty then return { major }
  let (minor, cs) ← takePart cs
  if cs.isEmpty then return { major, minor }
  let (patch, cs) ← takePart cs
  return { major, minor, patch, prerelease := ← readRelease cs }

/-- Reads a version. No stray byte may stand in it. -/
def read? (s : RawText) : Option Version :=
  match s.text.toList with
  | 'v' :: cs => readNumbers cs
  | _ => none

end Version

end EffectTiming
