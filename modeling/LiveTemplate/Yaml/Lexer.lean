import LiveTemplate.Yaml.Scalar

/-!
The tokens of a YAML text. Blocks are told by their indentation: a token that stands deeper than the
block around it may open a block, and one that stands less deep closes blocks. Whether a scalar is a
key shows only at the colon behind it, so the token before a key is put in afterwards.
-/

namespace LiveTemplate.Yaml

/-- A place where a key may have begun. It is `required` if nothing else can stand there. -/
structure KeyStart where
  /-- The number of tokens in front. -/
  tokens : Nat
  line : Nat
  column : Nat
  required : Bool
  deriving Repr, DecidableEq

/-- The length up to which a key is told from other scalars. -/
def keyLimit : Nat := 1024

structure Lexer where
  rest : List Glyph
  tokens : List Token := []
  /-- The columns of the open blocks, the innermost first. -/
  blocks : List Nat := []
  keyStart : Option KeyStart := none
  /-- The key starts around the open flow collections, the innermost first. -/
  outer : List (Option KeyStart) := []
  keyAllowed : Bool := true

namespace Lexer

def inFlow (l : Lexer) : Bool := !l.outer.isEmpty

/-- The column at which the next deeper block begins at the earliest. -/
def indentation (l : Lexer) : Nat := (l.blocks.head?.map (· + 1)).getD 0

def emit (token : Token) (rest : List Glyph) (l : Lexer) : Lexer :=
  { l with tokens := l.tokens ++ [token], rest }

/-! Keys -/

def KeyStart.isPast (start : KeyStart) (glyphs : List Glyph) : Bool :=
  match glyphs with
  | [] => false
  | glyph :: _ => start.line ≠ glyph.line || start.column + keyLimit < glyph.column

/-- Gives up a key start from which no key has come. -/
def giveUp (start : Option KeyStart) : Option (Option KeyStart) :=
  if start.any (·.required) then none else some none

def dropKey (l : Lexer) : Option Lexer := do
  return { l with keyStart := ← giveUp l.keyStart }

/-- Gives up the key starts that are too far behind. -/
def dropPastKeys (l : Lexer) : Option Lexer := do
  let check (start : Option KeyStart) : Option (Option KeyStart) :=
    if start.any (KeyStart.isPast · l.rest) then giveUp start else some start
  return { l with keyStart := ← check l.keyStart, outer := ← l.outer.mapM check }

/-- Remembers that a key may begin here. -/
def markKey (l : Lexer) : Option Lexer :=
  match l.rest with
  | [] => none
  | glyph :: _ =>
    if !l.keyAllowed then some l
    else do
      let l ← l.dropKey
      let required := !l.inFlow && l.blocks.head? = some glyph.column
      return { l with keyStart := some ⟨l.tokens.length, glyph.line, glyph.column, required⟩ }

/-! Blocks -/

/-- Opens a block at a column if that is deeper than the block around it. Its token goes behind the
given number of tokens. -/
def openBlock (column : Nat) (before : Nat) (token : Token) (l : Lexer) : Lexer :=
  if l.inFlow || column < l.indentation then l
  else
    let tokens := l.tokens.take before ++ token :: l.tokens.drop before
    { l with tokens, blocks := column :: l.blocks }

/-- Closes the blocks that begin behind a column, or all of them. -/
def closeBlocks (column : Option Nat) (l : Lexer) : Lexer :=
  if l.inFlow then l
  else
    let (closed, blocks) := l.blocks.span fun block => column.all (· < block)
    { l with tokens := l.tokens ++ closed.map fun _ => .blockEnd, blocks }

/-! Tokens by their marks -/

def directive? (l : Lexer) (rest : List Glyph) : Option Lexer := do
  let l ← (l.closeBlocks none).dropKey
  let (name, rest) := span isWord rest
  let values := skipBlanks rest
  if !ends rest then none
  else match text name with
    | "YAML" =>
      let (major, rest) := span Char.isDigit values
      if !comes (· = '.') rest then none
      else
        let (minor, rest) := span Char.isDigit (rest.drop 1)
        let token := .version (← digits? 10 (major.map Glyph.char))
          (← digits? 10 (minor.map Glyph.char))
        return { l.emit token (← restOfLine? rest) with keyAllowed := false }
    | "TAG" =>
      let (handle, rest) := span isSolid values
      let (meaning, rest) := span isSolid (skipBlanks rest)
      if handle.isEmpty || meaning.isEmpty then none
      else
        let token := .tagHandle (text handle) (text meaning)
        return { l.emit token (← restOfLine? rest) with keyAllowed := false }
    | _ => none

def documentMark (token : Token) (l : Lexer) : Option Lexer := do
  let l ← (l.closeBlocks none).dropKey
  return { l.emit token (l.rest.drop 3) with keyAllowed := false }

def openFlow (token : Token) (rest : List Glyph) (l : Lexer) : Option Lexer := do
  let l ← l.markKey
  return { l.emit token rest with
    outer := l.keyStart :: l.outer, keyStart := none, keyAllowed := true }

def closeFlow (token : Token) (rest : List Glyph) (l : Lexer) : Option Lexer := do
  let l ← l.dropKey
  return { l.emit token rest with
    keyStart := l.outer.head?.getD none, outer := l.outer.tail, keyAllowed := false }

def separator (rest : List Glyph) (l : Lexer) : Option Lexer := do
  return { (← l.dropKey).emit .separator rest with keyAllowed := true }

def item (column : Nat) (rest : List Glyph) (l : Lexer) : Option Lexer := do
  if !l.inFlow && !l.keyAllowed then none
  else
    let l ← (l.openBlock column l.tokens.length .blockSequence).dropKey
    return { l.emit .item rest with keyAllowed := true }

def keyMark (column : Nat) (rest : List Glyph) (l : Lexer) : Option Lexer := do
  if !l.inFlow && !l.keyAllowed then none
  else
    let l ← (l.openBlock column l.tokens.length .blockMapping).dropKey
    return { l.emit .key rest with keyAllowed := !l.inFlow }

/-- A colon makes a key of what stands in front of it. Without that it belongs to a key that was
marked as one. -/
def valueMark (column : Nat) (rest : List Glyph) (l : Lexer) : Option Lexer :=
  match l.keyStart with
  | some start =>
    let tokens := l.tokens.take start.tokens ++ .key :: l.tokens.drop start.tokens
    let l := { l with tokens, keyStart := none, keyAllowed := false }
    some ((l.openBlock start.column start.tokens .blockMapping).emit .value rest)
  | none =>
    if !l.inFlow && !l.keyAllowed then none
    else
      let l := l.openBlock column l.tokens.length .blockMapping
      some { l.emit .value rest with keyAllowed := !l.inFlow }

/-- The name of an anchor, which a blank or some marks end. -/
def anchor? (rest : List Glyph) : Option (String × List Glyph) :=
  let (name, rest) := span isWord rest
  let isEnd (c : Char) : Bool := c ∈ ['?', ':', ',', ']', '}', '%', '@', '\x60']
  if !name.isEmpty && (ends rest || comes isEnd rest) then some (text name, rest) else none

def isTagChar (c : Char) : Bool :=
  isWord c ||
    c ∈ [';', '/', '?', ':', '@', '&', '=', '+', '$', '.', '%', '!', '~', '*', '\x27', '(', ')']

/-- The handle and the suffix of a tag. One in angle brackets has no handle. -/
def tag? (inFlow : Bool) (rest : List Glyph) : Option (Token × List Glyph) := do
  let (token, rest) ←
    if comes (· = '<') rest then
      let (suffix, rest) :=
        span (fun c => isTagChar c || c = ',' || c = '[' || c = ']') (rest.drop 1)
      if suffix.isEmpty || !comes (· = '>') rest then none
      else some (Token.tag "" (text suffix), rest.drop 1)
    else
      let (name, rest) := span isWord rest
      if comes (· = '!') rest then
        let (suffix, rest) := span isTagChar (rest.drop 1)
        if suffix.isEmpty then none
        else some (Token.tag ("!" ++ text name ++ "!") (text suffix), rest)
      else
        let (more, rest) := span isTagChar rest
        let suffix := text (name ++ more)
        some (if suffix.isEmpty then Token.tag "" "!" else Token.tag "!" suffix, rest)
  if ends rest || (inFlow && comes (· = ',') rest) then some (token, rest) else none

/-- A token at which a key may begin. -/
def atKey (token : Token) (rest : List Glyph) (l : Lexer) : Option Lexer := do
  return { (← l.markKey).emit token rest with keyAllowed := false }

def block (literal : Bool) (rest : List Glyph) (l : Lexer) : Option Lexer := do
  let l ← l.dropKey
  let (content, rest) ← block? literal l.blocks.head? rest
  return { l.emit (.scalar false content) rest with keyAllowed := true }

def plain (l : Lexer) : Option Lexer := do
  let l ← l.markKey
  let (content, broken, rest) ←
    plain? l.inFlow l.indentation (l.rest.length + 1) [] [] false l.rest
  return { l.emit (.scalar true content) rest with keyAllowed := broken }

/-- Whether a plain scalar begins with `c`. -/
def beginsPlain (inFlow : Bool) (c : Char) (rest : List Glyph) : Bool :=
  !isBlank c && (!isMark c || (c = '-' && !ends rest) ||
    (!inFlow && (c = '?' || c = ':') && !ends rest))

/-- Takes the next token, in front of which there is no gap. -/
def next (l : Lexer) : Option Lexer := do
  let l ← l.dropPastKeys
  match l.rest with
  | [] => none
  | glyph :: rest =>
    let c := glyph.char
    let l := l.closeBlocks (some glyph.column)
    if glyph.column = 0 && c = '%' then l.directive? rest
    else if let some token := documentMark? l.rest then l.documentMark token
    else if c = '[' then l.openFlow .flowSequence rest
    else if c = '{' then l.openFlow .flowMapping rest
    else if c = ']' then l.closeFlow .flowSequenceEnd rest
    else if c = '}' then l.closeFlow .flowMappingEnd rest
    else if c = ',' then l.separator rest
    else if c = '-' && ends rest then l.item glyph.column rest
    else if c = '?' && (l.inFlow || ends rest) then l.keyMark glyph.column rest
    else if c = ':' && (l.inFlow || ends rest) then l.valueMark glyph.column rest
    else if c = '*' then (anchor? rest).bind fun (name, rest) => l.atKey (.reference name) rest
    else if c = '&' then (anchor? rest).bind fun (name, rest) => l.atKey (.anchor name) rest
    else if c = '!' then (tag? l.inFlow rest).bind fun (token, rest) => l.atKey token rest
    else if (c = '|' || c = '>') && !l.inFlow then l.block (c = '|') rest
    else if c = '"' || c = '\x27' then
      (quoted? (c = '"') (rest.length + 1) [] rest).bind fun (content, rest) =>
        l.atKey (.scalar false content) rest
    else if beginsPlain l.inFlow c rest then l.plain
    else none

/-- Skips blanks, line ends and comments. After a line end a key may begin, unless that is inside of
a flow collection. A tab may not stand where a key may begin. -/
def skipGap (inFlow : Bool) : (keyAllowed inComment : Bool) → List Glyph → Bool × List Glyph
  | keyAllowed, _, [] => (keyAllowed, [])
  | keyAllowed, inComment, glyph :: rest =>
    let c := glyph.char
    if isBreak c then skipGap inFlow (keyAllowed || !inFlow) false rest
    else if inComment || c = ' ' || (c = '\t' && (inFlow || !keyAllowed)) then
      skipGap inFlow keyAllowed inComment rest
    else if c = '#' then skipGap inFlow keyAllowed true rest
    else (keyAllowed, glyph :: rest)

/-- Takes all tokens. Each takes a character at least. -/
def run : (fuel : Nat) → Lexer → Option (List Token)
  | 0, _ => none
  | fuel + 1, l =>
    let (keyAllowed, rest) := skipGap l.inFlow l.keyAllowed false l.rest
    let l := { l with keyAllowed, rest }
    if rest.isEmpty then (l.closeBlocks none).dropKey.map Lexer.tokens
    else l.next.bind (run fuel)

end Lexer

def tokens? (source : String) : Option (List Token) := do
  let glyphs ← glyphs? source
  Lexer.run (glyphs.length + 1) { rest := glyphs }

end LiveTemplate.Yaml
