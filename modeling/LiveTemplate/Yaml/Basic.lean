/-!
YAML text before its layout is known: characters with the places where they stand, and the tokens
that they make up. Every line end but the two separators of Unicode is read as a plain one.
-/

namespace LiveTemplate.Yaml

/-- A character and where it stands. -/
structure Glyph where
  char : Char
  line : Nat
  column : Nat
  deriving Repr, DecidableEq

inductive Token where
  | version (major minor : Nat)
  | tagHandle (handle meaning : String)
  | documentStart
  | documentEnd
  | blockSequence
  | blockMapping
  | blockEnd
  | flowSequence
  | flowSequenceEnd
  | flowMapping
  | flowMappingEnd
  | item
  | separator
  | key
  | value
  | reference (anchor : String)
  | anchor (name : String)
  | tag (handle suffix : String)
  | scalar (plain : Bool) (text : String)
  deriving Repr, DecidableEq

def isBreak (c : Char) : Bool := c = '\n' || c = '\u2028' || c = '\u2029'

def isBlank (c : Char) : Bool := c = ' ' || c = '\t'

def isSolid (c : Char) : Bool := !isBlank c && !isBreak c

/-- The characters of names: letters, digits, the hyphen and the low line. -/
def isWord (c : Char) : Bool := c.isAlphanum || c = '-' || c = '_'

/-- The characters that a text may hold. -/
def isPrintable (c : Char) : Bool :=
  let n := c.toNat
  c = '\t' || c = '\n' || c = '\r' || (0x20 ≤ n && n ≤ 0x7e) || n = 0x85 ||
    (0xa0 ≤ n && n ≤ 0xfffd) || 0x10000 ≤ n

def unifyBreaks : List Char → List Char
  | [] => []
  | '\r' :: '\n' :: rest => '\n' :: unifyBreaks rest
  | c :: rest => (if c = '\r' || c = '\u0085' then '\n' else c) :: unifyBreaks rest

def place (line column : Nat) : List Char → List Glyph
  | [] => []
  | c :: rest =>
    ⟨c, line, column⟩ :: if isBreak c then place (line + 1) 0 rest else place line (column + 1) rest

/-- The characters of a source, unless there is one that no text may hold. A byte order mark in
front does not count. -/
def glyphs? (source : String) : Option (List Glyph) :=
  let cs := match source.toList with
    | '\ufeff' :: cs => cs
    | cs => cs
  if cs.all isPrintable then some (place 0 0 (unifyBreaks cs)) else none

def text (glyphs : List Glyph) : String := String.ofList (glyphs.map Glyph.char)

/-- The column of what comes next. At the end no column is asked for. -/
def column (glyphs : List Glyph) : Nat := (glyphs.head?.map Glyph.column).getD 0

/-- Whether the next character satisfies a test. -/
def comes (test : Char → Bool) (glyphs : List Glyph) : Bool :=
  (glyphs.head?.map fun glyph => test glyph.char).getD false

/-- Whether there is a blank, a line end, or nothing more. -/
def ends (glyphs : List Glyph) : Bool :=
  glyphs.isEmpty || !comes isSolid glyphs

def lineEnds (glyphs : List Glyph) : Bool := glyphs.isEmpty || comes isBreak glyphs

def span (test : Char → Bool) (glyphs : List Glyph) : List Glyph × List Glyph :=
  glyphs.span fun glyph => test glyph.char

def skipBlanks (glyphs : List Glyph) : List Glyph := (span isBlank glyphs).2

def skipLine (glyphs : List Glyph) : List Glyph := (span (!isBreak ·) glyphs).2

/-- Skips blanks and a comment, after which the line has to end. -/
def restOfLine? (glyphs : List Glyph) : Option (List Glyph) :=
  let glyphs := skipBlanks glyphs
  let glyphs := if comes (· = '#') glyphs then skipLine glyphs else glyphs
  if lineEnds glyphs then some glyphs else none

/-- The mark at the start of a line that begins or ends a document. -/
def documentMark? (glyphs : List Glyph) : Option Token :=
  if column glyphs ≠ 0 || !ends (glyphs.drop 3) then none
  else match (glyphs.take 3).map Glyph.char with
    | ['-', '-', '-'] => some .documentStart
    | ['.', '.', '.'] => some .documentEnd
    | _ => none

def digit? (base : Nat) (c : Char) : Option Nat :=
  let digit :=
    if c.isDigit then c.toNat - '0'.toNat
    else if 'a' ≤ c && c ≤ 'f' then c.toNat - 'a'.toNat + 10
    else if 'A' ≤ c && c ≤ 'F' then c.toNat - 'A'.toNat + 10
    else base
  if digit < base then some digit else none

/-- The number with these digits, of which there must be one. -/
def digits? (base : Nat) (cs : List Char) : Option Nat :=
  if cs.isEmpty then none
  else cs.foldlM (fun total c => (digit? base c).map (base * total + ·)) 0

end LiveTemplate.Yaml
