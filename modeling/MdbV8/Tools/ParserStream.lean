import Mathlib.Data.List.DropRight

/-!
# The parser of printed values

`ParserStream`, of the tool that compares what two versions of the module print. It gets the lines that
have been printed, one by one, and collects them until a value is complete; then it pushes a row for the
value, with its address and its lines, or a warning. A value is taken to be complete at a line that begins
with a closing bracket, or one that looks like an empty object or array.
-/

namespace MdbV8.Tools

/-- A string without line breaks. -/
abbrev Line := List Char

/-- The characters that `trim` takes away. -/
def isJsSpace (c : Char) : Bool :=
  c ∈ [' ', '\t', '\n', '\x0b', '\x0c', '\r', '\u00a0', '\u1680', '\u2028', '\u2029', '\u202f', '\u205f',
    '\u3000', '\ufeff'] || ('\u2000' ≤ c && c ≤ '\u200a')

/-- `trim`. -/
def trim (chunk : Line) : Line := (chunk.dropWhile isJsSpace).rdropWhile isJsSpace

/-- `[0-9a-fA-F]`. -/
def isHexDigit (c : Char) : Bool :=
  ('0' ≤ c && c ≤ '9') || ('a' ≤ c && c ≤ 'f') || ('A' ≤ c && c ≤ 'F')

/-- The regular expression that matches the beginning of a line with an address and an empty object or
array. -/
def emptyValue (chunk : Line) : Bool :=
  match chunk.span isHexDigit with
  | (_ :: _, ':' :: ' ' :: opener :: closer :: _) =>
    (opener == '\x7b' || opener == '[') && (closer == '\x7d' || closer == ']')
  | _ => false

/-- The type of a value that has been parsed. -/
inductive ValueType where
  | object
  | array
  deriving DecidableEq, Repr

/-- What is pushed for a value, with its address. -/
structure Parsed where
  addr : Line
  type : ValueType
  lines : List Line
  deriving DecidableEq, Repr

/-- What comes out of the stream: a row, or a warning. -/
inductive ParserEvent where
  | push (addr : Line) (parsed : Parsed)
  | warn (kind : String)
  deriving DecidableEq, Repr

/-- `valueDone`, with the lines that have been collected. There is at least one. -/
def valueDone (lines : List Line) : ParserEvent :=
  let line := lines.getLastD []
  if line ≠ [']'] ∧ line ≠ ['\x7d'] then .warn "unrecognized value"
  else
    let line := lines.headD []
    let colon := line.idxOf ':'
    if colon = line.length then .warn "value has no address"
    else
      let addr := line.take colon
      let opener := (line)[colon + 2]?
      if opener = some '\x7b' then .push addr { addr, type := .object, lines := lines.tail }
      else if opener = some '[' then .push addr { addr, type := .array, lines := lines.tail }
      else .warn "unknown type"

/-- A value is complete after the line. -/
def endsValue (chunk : Line) : Bool :=
  chunk.head? == some '\x7d' || chunk.head? == some ']' || emptyValue chunk

/-- `_transform`: the lines that are collected, and what comes out. -/
def parserTransform (accum : List Line) (chunk : Line) : List Line × List ParserEvent :=
  let accum := accum ++ [trim chunk]
  if endsValue chunk then ([], [valueDone accum]) else (accum, [])

/-- `_flush`. -/
def parserFlush (accum : List Line) : List ParserEvent :=
  if accum.length > 0 then [valueDone accum] else []

/-- A `ParserStream` that gets some lines, and the end of them. -/
def parserRun : List Line → List Line → List ParserEvent
  | accum, [] => parserFlush accum
  | accum, chunk :: chunks =>
    (parserTransform accum chunk).2 ++ parserRun (parserTransform accum chunk).1 chunks

end MdbV8.Tools
