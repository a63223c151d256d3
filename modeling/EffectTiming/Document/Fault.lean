import EffectTiming.Document.Mark

/-!
# Faulty documents

What can be wrong with the text of a document, and how it is reported. A report names a line only if
that line is not the first one.
-/

namespace EffectTiming.Document

/-- What is wrong. -/
inductive Problem where
  | cannotStartToken
  | tooDeep
  | entryNotAllowed
  | keyNotAllowed
  | valueNotAllowed
  | missingColon
  | directiveName
  | directiveCharacter
  | unknownDirective
  | longVersion
  | versionNumber
  | versionPoint
  | directiveEnd
  | tagMark
  | tagUri
  | tagEscape
  | tagEscapeStart
  | tagEscapeTrail
  | tagClose
  | tagEnd
  | tagSpace
  | anchorName
  | zeroIndentation
  | blockHeaderEnd
  | tabInBlock
  | tabInPlain
  | documentMarkInQuotes
  | unclosedQuote
  | unknownEscape
  | hexEscape
  | invalidEscape
  | documentStart
  | duplicateVersion
  | incompatible
  | duplicateTag
  | undefinedHandle
  | nodeContent
  | dash
  | key
  | sequenceComma
  | mappingComma
  deriving DecidableEq, Repr

/-- The wording of a problem. -/
def Problem.text : Problem → String
  | .cannotStartToken => "found character that cannot start any token"
  | .tooDeep => "exceeded max depth of 10000"
  | .entryNotAllowed => "block sequence entries are not allowed in this context"
  | .keyNotAllowed => "mapping keys are not allowed in this context"
  | .valueNotAllowed => "mapping values are not allowed in this context"
  | .missingColon => "could not find expected ':'"
  | .directiveName => "could not find expected directive name"
  | .directiveCharacter => "found unexpected non-alphabetical character"
  | .unknownDirective => "found unknown directive name"
  | .longVersion => "found extremely long version number"
  | .versionNumber => "did not find expected version number"
  | .versionPoint => "did not find expected digit or '.' character"
  | .directiveEnd => "did not find expected comment or line break"
  | .tagMark => "did not find expected '!'"
  | .tagUri => "did not find expected tag URI"
  | .tagEscape => "did not find URI escaped octet"
  | .tagEscapeStart => "found an incorrect leading UTF-8 octet"
  | .tagEscapeTrail => "found an incorrect trailing UTF-8 octet"
  | .tagClose => "did not find the expected '>'"
  | .tagEnd => "did not find expected whitespace or line break"
  | .tagSpace => "did not find expected whitespace"
  | .anchorName => "did not find expected alphabetic or numeric character"
  | .zeroIndentation => "found an indentation indicator equal to 0"
  | .blockHeaderEnd => "did not find expected comment or line break"
  | .tabInBlock => "found a tab character where an indentation space is expected"
  | .tabInPlain => "found a tab character that violates indentation"
  | .documentMarkInQuotes => "found unexpected document indicator"
  | .unclosedQuote => "found unexpected end of stream"
  | .unknownEscape => "found unknown escape character"
  | .hexEscape => "did not find expected hexdecimal number"
  | .invalidEscape => "found invalid Unicode character escape code"
  | .documentStart => "did not find expected <document start>"
  | .duplicateVersion => "found duplicate %YAML directive"
  | .incompatible => "found incompatible YAML document"
  | .duplicateTag => "found duplicate %TAG directive"
  | .undefinedHandle => "found undefined tag handle"
  | .nodeContent => "did not find expected node content"
  | .dash => "did not find expected '-' indicator"
  | .key => "did not find expected key"
  | .sequenceComma => "did not find expected ',' or ']'"
  | .mappingComma => "did not find expected ',' or '\x7d'"

/-- A fault of a document. -/
inductive Fault where
  /-- A character is not allowed. It is reported at the place of the fault that was met before it,
  if there was one. -/
  | unreadable (start stop : Mark)
  /-- The characters form no token: where the construct started, and where reading stopped. -/
  | lexical (start stop : Mark) (problem : Problem)
  /-- The tokens form no node: where the construct started, and the token at fault. -/
  | grammatical (start stop : Mark) (problem : Problem)
  /-- An alias without its anchor. -/
  | unknownAnchor (name : String)
  /-- An alias inside the node that it stands for. -/
  | selfContained (name : String)
  /-- Nearly all of a large document comes from aliases. -/
  | excessiveAliasing
  /-- A key that is to be compared with others, but is a collection of the given type. There is no
  way to go on from here. -/
  | uncomparableKey (type : String)
  /-- A collection that is to be a key of a table. -/
  | invalidKey (shown : String)
  /-- A merge of something that is not a mapping. -/
  | mergeWantsMap
  /-- A scalar that is not what its tag says. -/
  | mistagged (found value wanted : String)
  /-- A scalar tagged as bytes that holds none. -/
  | invalidBase64
  /-- A node that is not what its field asks for. -/
  | refused (line : Nat) (wanted : String)
  deriving DecidableEq, Repr

/-- A character that is not allowed, behind the fault that was met before it. -/
def Fault.unreadableAfter : Option Fault → Fault
  | some (.unreadable start stop) | some (.lexical start stop _) => .unreadable start stop
  | _ => .unreadable {} {}

/-- The line named by a report: that of the start, or that of the stop if the start lies on the
first line. Places between tokens are counted from one. -/
def reportedLine (start stop : Mark) (offset : Nat) : String :=
  let line := if start.line ≠ 0 then start.line else stop.line
  if line = 0 then "" else "line " ++ toString (line + offset) ++ ": "

/-- The report of a fault. -/
def Fault.message : Fault → String
  | .unreadable start stop =>
    "yaml: " ++ reportedLine start stop 0 ++ "control characters are not allowed"
  | .lexical start stop p => "yaml: " ++ reportedLine start stop 1 ++ p.text
  | .grammatical start stop p => "yaml: " ++ reportedLine start stop 0 ++ p.text
  | .unknownAnchor name => "yaml: unknown anchor '" ++ name ++ "' referenced"
  | .selfContained name => "yaml: anchor '" ++ name ++ "' value contains itself"
  | .excessiveAliasing => "yaml: document contains excessive aliasing"
  | .uncomparableKey type => "runtime error: hash of unhashable type " ++ type
  | .invalidKey shown => "yaml: invalid map key: " ++ shown
  | .mergeWantsMap => "yaml: map merge requires map or sequence of maps as the value"
  | .mistagged found value wanted =>
    "yaml: cannot decode " ++ found ++ " `" ++ value ++ "` as a " ++ wanted
  | .invalidBase64 => "yaml: !!binary value contains invalid base64 data"
  | .refused line wanted => "line " ++ toString line ++ ": " ++ wanted

end EffectTiming.Document
