import Stencil.Error
import Stencil.Token.Clause
import Stencil.Token.Marker

/-!
# Tokens of a text with their places

A flattened template holds the texts of several files. Markers say where a file begins and where it
ends, and the scan keeps a stack of frames, one for each file it is inside of, to give every token
its place in the file it comes from.

* A frame knows its file, the offset reached in it, and how many bytes of indentation were put
  behind each of its line feeds: those bytes belong to no file and are skipped.
* Bytes of markers belong to no file either, whatever the marker holds.

`Scan.step` takes one lexeme. It is in one of two modes: in raw text, or between the delimiters of
an enclosure.
-/

namespace Stencil

open Text

/-- The most tokens a compilation produces unless it is told otherwise. -/
def defaultTokenLimit : Nat := 10000

/-- How far the scan has come in one file. -/
structure Frame where
  file : String
  /-- Offset into the text of the file itself. -/
  offset : Nat := 0
  /-- Bytes of indentation behind every line feed. -/
  indent : Nat := 0
  /-- Bytes of indentation still to be skipped on this line. -/
  skip : Nat := 0
  /-- Length of the directive that the file replaces in the file around it. -/
  resume : Nat := 0
  deriving DecidableEq, Repr

namespace Frame

/-- The place reached. -/
def pos (f : Frame) : Pos := ⟨f.file, f.offset⟩

/-- Move over one character. -/
def past (f : Frame) (c : Char) : Frame :=
  if c.utf8Size ≤ f.skip then { f with skip := f.skip - c.utf8Size }
  else
    { f with
      offset := f.offset + (c.utf8Size - f.skip)
      skip := if c == '\n' then f.indent else 0 }

/-- Move over a text. -/
def pastAll (f : Frame) (cs : List Char) : Frame := cs.foldl past f

end Frame

/-- What the scan is reading. -/
inductive Scan.Mode where
  /-- Raw text, with the characters read since the last token, latest first. -/
  | raw (read : List Char)
  /-- An enclosure, its start, and the characters behind its opener, latest first. -/
  | enclosed (e : Enclosure) (start : Pos) (read : List Char)
  deriving DecidableEq, Repr

/-- The state of a scan. -/
structure Scan where
  /-- The file being read. -/
  frame : Frame
  /-- The files around it, innermost first. -/
  outer : List Frame := []
  mode : Scan.Mode := .raw []
  /-- The tokens found, latest first. -/
  found : List Token := []
  /-- How many tokens were found. -/
  count : Nat := 0
  deriving Repr

namespace Scan

/-- Keep a token unless the limit is reached. -/
def push (files : Files) (limit : Nat) (s : Scan) (token : Token) : Except Error Scan :=
  if s.count < limit then .ok { s with found := token :: s.found, count := s.count + 1 }
  else .error (.atPos (.tokenLimit limit) files token.pos)

/-- End the raw text read so far. -/
def flush (files : Files) (limit : Nat) (s : Scan) (read : List Char) : Except Error Scan :=
  if read.isEmpty then .ok s
  else
    let text := read.reverse
    push files limit { s with frame := s.frame.pastAll text } (.raw (.ofList text) s.frame.pos)

/-- Enter or leave a file as a marker says. -/
def mark (files : Files) (s : Scan) (start : Pos) (content : List Char) : Except Error Scan :=
  let content := trim content
  match Marker.ofContent content with
  | .begin resume indent file =>
    .ok { s with
      frame := { file, resume, indent := s.frame.indent + indent }
      outer := s.frame :: s.outer }
  | .finish =>
    match s.outer with
    | parent :: outer =>
      .ok { s with frame := { parent with offset := parent.offset + s.frame.resume }, outer }
    | [] => .error (.atPos (.malformedToken .strayEnd) files start)
  | .bad => .error (.atPos (.malformedToken (.badMarker (.ofList content))) files start)
  | .other => .ok s

/-- Finish an enclosure. -/
def close (files : Files) (limit : Nat) (s : Scan) (e : Enclosure) (start : Pos)
    (content : List Char) : Except Error Scan :=
  let s := { s with mode := .raw [] }
  let source := e.opener ++ content ++ e.closer
  let moved := { s with frame := s.frame.pastAll source }
  match e with
  | .marker => mark files s start content
  | .tag => push files limit moved (.tag (.ofContent content source start))
  | .object => push files limit moved (.objectOfContent content source start)

/-- Take one lexeme. -/
def step (files : Files) (limit : Nat) (s : Scan) (lexeme : Lexeme) : Except Error Scan :=
  match s.mode with
  | .raw read =>
    match lexeme with
    | .open e => do
      let s ← flush files limit s read
      return { s with mode := .enclosed e s.frame.pos [] }
    | lexeme => .ok { s with mode := .raw (lexeme.text.reverse ++ read) }
  | .enclosed e start read =>
    match lexeme with
    | .open other => .error (.atPos (.malformedToken (.interrupted e other)) files start)
    | lexeme =>
      if lexeme = .close e then close files limit s e start read.reverse
      else .ok { s with mode := .enclosed e start (lexeme.text.reverse ++ read) }

/-- The tokens, once all lexemes are read. -/
def finish (files : Files) (limit : Nat) (s : Scan) : Except Error (List Token) :=
  match s.mode with
  | .enclosed e start _ => .error (.atPos (.malformedToken (.unclosed e)) files start)
  | .raw read => do
    let s ← flush files limit s read
    if s.outer.isEmpty then return s.found.reverse
    else .error (.atPos (.malformedToken (.openFile s.frame.file)) files s.frame.pos)

end Scan

/-- The tokens of a flattened text that starts in the file `root`. -/
def tokenize (text root : String) (files : Files) (limit : Nat) : Except Error (List Token) := do
  let s ← (lexemes text.toList).foldlM (Scan.step files limit) { frame := { file := root } }
  s.finish files limit

end Stencil
