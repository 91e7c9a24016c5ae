import LiveTemplate.Text.Ranges

/-!
Texts in double quotes, as diagnostics show them. Every character appears as itself unless it would
be invisible, would merge with the character before it, or has a meaning inside the quotes.
-/

namespace LiveTemplate.Quoted

/-- The hexadecimal digits of a number, without leading zeros. -/
def hexadecimal (n : Nat) : String := String.ofList (Nat.toDigits 16 n)

/-- Hexadecimal digits, at least `width` of them. -/
def hexadecimalPadded (width n : Nat) : String :=
  let digits := hexadecimal n
  String.ofList (List.replicate (width - digits.length) '0') ++ digits

def escape (c : Char) : String :=
  match c with
  | '\x00' => "\\0"
  | '\t' => "\\t"
  | '\r' => "\\r"
  | '\n' => "\\n"
  | '"' => "\\\""
  | '\\' => "\\\\"
  | _ =>
    if c.toNat < 0x7f && 0x20 ≤ c.toNat then c.toString
    else if Ranges.contains Ranges.extending c || Ranges.contains Ranges.hidden c then
      "\\u\x7b" ++ hexadecimal c.toNat ++ "\x7d"
    else c.toString

def quote (text : String) : String :=
  "\"" ++ String.join (text.toList.map escape) ++ "\""

end LiveTemplate.Quoted
