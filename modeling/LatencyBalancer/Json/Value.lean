import LatencyBalancer.Json.Number

/-!
JSON values as far as a flat document needs them: scalars are read in full, while a list or an
object is only recognised by its opening bracket.
-/

namespace LatencyBalancer.Json

inductive Value where
  | null
  | boolean (value : Bool)
  | number (value : Number)
  | string (characters : List Char)
  | list
  | object
deriving DecidableEq, Repr

/-- The rest of a word that was recognised by its first letter. -/
def readWord (word : String) (value : Value) (text : List Char) : Reading Value :=
  (expect word.toList text).map fun rest => (value, rest)

def readValue (text : List Char) : Reading Value :=
  match text with
  | [] => .error .truncated
  | character :: rest =>
      match character with
      | 'n' => readWord "ull" .null rest
      | 't' => readWord "rue" (.boolean true) rest
      | 'f' => readWord "alse" (.boolean false) rest
      | '"' => (readString rest).map fun (characters, rest) => (.string characters, rest)
      | '[' => .ok (.list, rest)
      | '\x7b' => .ok (.object, rest)
      | _ =>
          if character = '-' ∨ character.isDigit then
            (readNumber text).map fun (number, rest) => (.number number, rest)
          else .error .malformed

end LatencyBalancer.Json
