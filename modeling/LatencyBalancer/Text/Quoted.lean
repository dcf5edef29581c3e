import LatencyBalancer.Text.Printable

/-!
Text in quotes, so that every character can be told apart.

Quotes and backslashes are escaped, the common controls have letters, and whatever does not show
by itself is written as its code point in lower-case hexadecimal digits.
-/

namespace LatencyBalancer.Text

/-- The letter or sign after the backslash, for characters that have one. -/
def escapeLetter? : Char → Option Char
  | '\x00' => some '0'
  | '\t' => some 't'
  | '\n' => some 'n'
  | '\r' => some 'r'
  | '"' => some '"'
  | '\\' => some '\\'
  | _ => none

def codePoint (character : Char) : List Char :=
  ['\\', 'u', '\x7b'] ++ Nat.toDigits 16 character.toNat ++ ['\x7d']

def escape (character : Char) : List Char :=
  match escapeLetter? character with
  | some letter => ['\\', letter]
  | none => if Printable character then [character] else codePoint character

def quoted (text : List Char) : String :=
  String.ofList (['"'] ++ text.flatMap escape ++ ['"'])

example : quoted ['a', '"', '\x01'] = "\"a\\\"\\u\x7b1\x7d\"" := by decide +kernel

end LatencyBalancer.Text
