import LiveTemplate.Yaml.Basic

/-!
The scalars of YAML: plain, in quotes of either kind, and in blocks. Line ends inside a scalar are
folded: one alone stands for a space, and of several the first is dropped. A reader takes the
characters after what marks the scalar, and returns its text and the characters that follow.
-/

namespace LiveTemplate.Yaml

/-- The blanks and line ends in front of the rest. Blanks count only before the first line end.
After it a tab may not stand where indentation is expected. -/
def gap? (indentation : Nat) (blanks breaks : List Char) :
    List Glyph → Option (List Char × List Char × List Glyph)
  | [] => some (blanks.reverse, breaks.reverse, [])
  | glyph :: rest =>
    if isBreak glyph.char then gap? indentation blanks (glyph.char :: breaks) rest
    else if !isBlank glyph.char then some (blanks.reverse, breaks.reverse, glyph :: rest)
    else if breaks.isEmpty then gap? indentation (glyph.char :: blanks) breaks rest
    else if glyph.char = '\t' && glyph.column < indentation then none
    else gap? indentation blanks breaks rest

/-- What a gap inside of a scalar stands for. -/
def fold (blanks : List Char) : List Char → List Char
  | [] => blanks
  | ['\n'] => [' ']
  | '\n' :: breaks => breaks
  | breaks => breaks

/-! Quoted scalars -/

/-- The characters that have an escape of one letter, by their code points. -/
def escapes : List (Char × Nat) :=
  [('0', 0), ('a', 7), ('b', 8), ('t', 9), ('\t', 9), ('n', 10), ('v', 11), ('f', 12), ('r', 13),
    ('e', 27), (' ', 32), ('"', 34), ('/', 47), ('\\', 92), ('N', 0x85), ('_', 0xa0), ('L', 0x2028),
    ('P', 0x2029)]

/-- How many digits an escape by code point has. -/
def escapeWidths : List (Char × Nat) := [('x', 2), ('u', 4), ('U', 8)]

/-- The character written by the escape after a backslash. -/
def escaped? : List Glyph → Option (Char × List Glyph)
  | [] => none
  | glyph :: rest =>
    match escapes.lookup glyph.char, escapeWidths.lookup glyph.char with
    | some code, _ => some (Char.ofNat code, rest)
    | none, none => none
    | none, some width => do
      let code ← digits? 16 ((rest.take width).map Glyph.char)
      if (rest.take width).length = width && code.isValidChar then
        return (Char.ofNat code, rest.drop width)
      else none

/-- The rest of a scalar in quotes, up to the closing one. -/
def quoted? (double : Bool) : Nat → (reversed : List Char) → List Glyph →
    Option (String × List Glyph)
  | 0, _, _ => none
  | _, _, [] => none
  | fuel + 1, reversed, glyph :: rest => do
    let next : Char := (rest.head?.map Glyph.char).getD '\n'
    if (documentMark? (glyph :: rest)).isSome then none
    else if ends (glyph :: rest) then
      let (blanks, breaks, rest) ← gap? 0 [] [] (glyph :: rest)
      quoted? double fuel ((fold blanks breaks).reverse ++ reversed) rest
    else if glyph.char = (if double then '"' else '\x27') then
      if !double && next = '\x27' then quoted? double fuel ('\x27' :: reversed) (rest.drop 1)
      else return (String.ofList reversed.reverse, rest)
    else if !double || glyph.char ≠ '\\' then quoted? double fuel (glyph.char :: reversed) rest
    else if isBreak next then
      let (_, breaks, rest) ← gap? 0 [] [] (rest.drop 1)
      quoted? double fuel (breaks.reverse ++ reversed) rest
    else
      let (c, rest) ← escaped? rest
      quoted? double fuel (c :: reversed) rest

/-! Plain scalars -/

def isFlowMark (c : Char) : Bool := c ∈ [',', '[', ']', '{', '}']

/-- The marks that no plain scalar begins with, unless they stand alone and more follows. -/
def isMark (c : Char) : Bool :=
  isFlowMark c ||
    c ∈ ['-', '?', ':', '#', '&', '*', '!', '|', '>', '\x27', '"', '%', '@', '\x60']

/-- A part of a plain scalar without blanks. It ends at a colon before a blank, and inside of a flow
collection at a mark of that. -/
def word? (inFlow : Bool) : List Glyph → Option (List Char × List Glyph)
  | [] => some ([], [])
  | glyph :: rest =>
    if ends (glyph :: rest) then some ([], glyph :: rest)
    else if inFlow && glyph.char = ':' && comes (fun c => c = '?' || isFlowMark c) rest then none
    else if (glyph.char = ':' && ends rest) || (inFlow && isFlowMark glyph.char) then
      some ([], glyph :: rest)
    else (word? inFlow rest).map fun (cs, rest) => (glyph.char :: cs, rest)

/-- A plain scalar, and whether a line ended after it. Outside of flow collections every line of it
has to be indented. -/
def plain? (inFlow : Bool) (indentation : Nat) : Nat → (cs between : List Char) → (broken : Bool) →
    List Glyph → Option (String × Bool × List Glyph)
  | 0, _, _, _, _ => none
  | fuel + 1, cs, between, broken, glyphs => do
    if (documentMark? glyphs).isSome || comes (· = '#') glyphs then
      return (String.ofList cs, broken, glyphs)
    else
      let (more, glyphs) ← word? inFlow glyphs
      let cs := if more.isEmpty then cs else cs ++ between ++ more
      let broken := broken && more.isEmpty
      if glyphs.isEmpty || !ends glyphs then return (String.ofList cs, broken, glyphs)
      else
        let (blanks, breaks, glyphs) ← gap? indentation [] [] glyphs
        if !inFlow && column glyphs < indentation then
          return (String.ofList cs, !breaks.isEmpty, glyphs)
        else plain? inFlow indentation fuel cs (fold blanks breaks) (!breaks.isEmpty) glyphs

/-! Block scalars -/

/-- What becomes of the line ends behind a block scalar: all are dropped, one stays, or all do. -/
inductive Chomping where
  | strip
  | clip
  | keep
  deriving Repr, DecidableEq

def chomping? : List Glyph → Option (Chomping × List Glyph)
  | glyph :: rest =>
    if glyph.char = '-' then some (.strip, rest)
    else if glyph.char = '+' then some (.keep, rest)
    else none
  | [] => none

/-- How far the lines of a block scalar are indented, zero if that is not given. -/
def increment? : List Glyph → Option (Nat × List Glyph)
  | glyph :: rest =>
    if glyph.char = '0' then none
    else match digit? 10 glyph.char with
      | some digit => some (digit, rest)
      | none => some (0, glyph :: rest)
  | [] => some (0, [])

def blockHeader? (glyphs : List Glyph) : Option (Chomping × Nat × List Glyph) := do
  match chomping? glyphs with
  | some (chomping, glyphs) =>
    let (increment, glyphs) ← increment? glyphs
    return (chomping, increment, ← restOfLine? glyphs)
  | none =>
    let (increment, glyphs) ← increment? glyphs
    let (chomping, glyphs) :=
      if increment = 0 then (.clip, glyphs) else (chomping? glyphs).getD (.clip, glyphs)
    return (chomping, increment, ← restOfLine? glyphs)

/-- The empty lines in front of a line of a block scalar, and the column of the deepest line start
among them. An indentation of zero is not known yet. -/
def emptyLines? (indentation : Nat) (breaks : List Char) (deepest : Nat) :
    List Glyph → Option (List Char × Nat × List Glyph)
  | [] => some (breaks.reverse, deepest, [])
  | glyph :: rest =>
    let outside := indentation = 0 || glyph.column < indentation
    if outside && glyph.char = ' ' then emptyLines? indentation breaks deepest rest
    else if outside && glyph.char = '\t' then none
    else
      let deepest := max deepest glyph.column
      if isBreak glyph.char then emptyLines? indentation (glyph.char :: breaks) deepest rest
      else some (breaks.reverse, deepest, glyph :: rest)

/-- The lines of a block scalar. `ending` is the line end before, and `blank` says whether the line
before it begins with a blank. -/
def blockLines? (literal : Bool) (chomping : Chomping) (indentation : Nat) : Nat →
    (cs ending breaks : List Char) → (blank : Bool) → List Glyph → Option (String × List Glyph)
  | 0, _, _, _, _, _ => none
  | fuel + 1, cs, ending, breaks, blank, glyphs =>
    if glyphs.isEmpty || column glyphs ≠ indentation then
      let tail := match chomping with
        | .strip => []
        | .clip => ending
        | .keep => ending ++ breaks
      some (String.ofList (cs ++ tail), glyphs)
    else do
      let indented := comes isBlank glyphs
      let between :=
        if literal || blank || indented || ending.isEmpty then ending ++ breaks
        else fold [] (ending ++ breaks)
      let (line, glyphs) := span (!isBreak ·) glyphs
      let ending := (glyphs.take 1).map Glyph.char
      let (breaks, _, glyphs) ← emptyLines? indentation [] 0 (glyphs.drop 1)
      let cs := cs ++ between ++ line.map Glyph.char
      blockLines? literal chomping indentation fuel cs ending breaks indented glyphs

/-- A block scalar inside of a block with the given indentation. -/
def block? (literal : Bool) (parent : Option Nat) (glyphs : List Glyph) :
    Option (String × List Glyph) := do
  let (chomping, increment, glyphs) ← blockHeader? glyphs
  let given := if increment = 0 then 0 else parent.getD 0 + increment
  let (breaks, deepest, glyphs) ← emptyLines? given [] 0 (glyphs.drop 1)
  let least := max 1 ((parent.map (· + 1)).getD 0)
  let indentation := if given = 0 then max deepest least else given
  blockLines? literal chomping indentation (glyphs.length + 1) [] [] breaks false glyphs

end LiveTemplate.Yaml
