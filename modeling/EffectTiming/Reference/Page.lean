import EffectTiming.Text.Raw

/-!
# Reference pages

A generated package description becomes a page of the reference: its heading, its index, its import
block and the wrappers around its examples are taken out, and a header is put in front.

The work is done line by line. What happens to a line depends on whether an index or an import block
is open, on the line itself and, for the start of an import block, on the next line.
-/

namespace EffectTiming.Reference

/-- A line of a page, which may hold stray bytes. -/
abbrev Line := List Glyph

/-- A line that is a text. -/
def lineOf (s : String) : Line := (RawText.ofString s).glyphs

/-- What is open before a line. -/
structure Open where
  /-- The lines of an index are dropped up to the next section. -/
  index : Bool := false
  /-- The lines of an import block are dropped up to its end. -/
  imports : Bool := false
  deriving DecidableEq, Repr

/-- The line starts a section. -/
def startsSection (line : Line) : Bool := Text.startsWith (lineOf "## ") line

/-- The line is the heading of the index. -/
def isIndex (line : Line) : Bool := line == lineOf "## Index"

/-- The line ends a block of code. -/
def closesFence (line : Line) : Bool := line == lineOf "```"

/-- The line starts a block of code that holds the import. -/
def opensImports (line : Line) (next : Option Line) : Bool :=
  Text.startsWith (lineOf "```go") line &&
    match next with
    | some l => Text.startsWith (lineOf "import ") l
    | none => false

/-- The title of an example, if the line opens one. -/
def exampleTitle? (line : Line) : Option Line :=
  (Text.dropStart? (lineOf "<details><summary>") line).bind (Text.dropEnd? (lineOf "</summary>"))

/-- The line is a wrapper around an example. -/
def isWrapper (line : Line) : Bool :=
  line == lineOf "</details>" || line == lineOf "<p>" || line == lineOf "</p>"

/-- A line outside an index and an import block. -/
def plainLine (line : Line) : List Line :=
  match exampleTitle? line with
  | some title => [[], lineOf "**" ++ title ++ lineOf ":**", []]
  | none => if isWrapper line then [] else [line]

/-- What is open after a line, and the lines that it turns into. -/
def processLine (o : Open) (line : Line) (next : Option Line) : Open × List Line :=
  if isIndex line then ({ o with index := true }, [])
  else if o.index && !startsSection line then (o, [])
  else if o.imports || opensImports line next then (⟨false, !closesFence line⟩, [])
  else (⟨false, false⟩, plainLine line)

/-- The lines of a page after the first one. -/
def processLines : Open → List Line → List Line
  | _, [] => []
  | o, line :: rest =>
    let (o, out) := processLine o line rest.head?
    out ++ processLines o rest

/-- The line is the heading of the package. -/
def isHeading (line : Line) : Bool := Text.startsWith (lineOf "# ") line

/-- The lines of a page: a heading counts only on the first line. -/
def process : List Line → List Line
  | [] => []
  | line :: rest => processLines {} (if isHeading line then rest else line :: rest)

/-- The text of a page without its header. -/
def body (text : RawText) : RawText := ⟨Text.join (.char '\n') (process text.lines)⟩

/-- What the header of a page says. -/
structure PageInfo where
  name : String
  title : String
  position : Int

/-- The pages of the reference in the order of the sidebar. -/
def pages : List PageInfo :=
  [⟨"animation", "Animation Timing", 1⟩, ⟨"errors", "Errors", 2⟩, ⟨"testing", "Testing Helpers", 3⟩]

/-- The header of a page. -/
def PageInfo.header (p : PageInfo) : String :=
  "---\nid: " ++ p.name ++ "\ntitle: " ++ p.title ++ "\nsidebar_position: " ++
    toString p.position ++
    "\n---\n\n"

/-- A page of the reference. -/
def page (p : PageInfo) (text : RawText) : RawText := ⟨lineOf p.header ++ (body text).glyphs⟩

end EffectTiming.Reference
