import LatencyBalancer.Config.Setting
import LatencyBalancer.Json.Value
import LatencyBalancer.Numeric.Decimal
import LatencyBalancer.Text.Quoted

/-!
What can be wrong with a configuration document, and how it is said.

A text that is not JSON has no message of its own; every other fault names the value or the key
that was found and what was due in its place.
-/

namespace LatencyBalancer

inductive DocumentFault where
  | json (fault : Json.Fault)
  | notSettings (found : Json.Value)
  | unknownKey (key : List Char)
  | repeatedKey (setting : Setting)
  | wrongKind (setting : Setting) (found : Json.Value)
  /-- The value is an integer that the setting cannot take. -/
  | outOfRange (setting : Setting) (found : Json.Value)
deriving DecidableEq, Repr

namespace DocumentFault

/-- Fractions in messages keep a point in small numbers and have an exponent in large ones. -/
def numberLayout : Layout where
  tie := .even
  positional power := -5 ≤ power ∧ power < 16
  pointZero := true
  plusSign := true

example : numberLayout.write (Floating.ofFraction Format.double 1 100000) = "0.00001" := by
  decide +kernel

example : numberLayout.write (Floating.ofNat Format.double (15 * powerOfTen 15)) = "1.5e+16" := by
  decide +kernel

def describe : Json.Value → String
  | .null => "null"
  | .boolean value => s!"boolean `{value}`"
  | .number (.natural value) => s!"integer `{value}`"
  | .number (.negative magnitude) => s!"integer `-{magnitude}`"
  | .number (.floating value) => "floating point `" ++ numberLayout.write value ++ "`"
  | .string characters => "string " ++ Text.quoted characters
  | .list => "sequence"
  | .object => "map"

def knownKeys : String :=
  ", ".intercalate (Setting.all.map fun setting => "`" ++ setting.key ++ "`")

/-- A text that is not JSON has no message. -/
def message? : DocumentFault → Option String
  | json _ => none
  | notSettings found =>
      some ("invalid type: " ++ describe found ++ ", expected struct FairConfig")
  | unknownKey key =>
      some ("unknown field `" ++ String.ofList key ++ "`, expected one of " ++ knownKeys)
  | repeatedKey setting => some ("duplicate field `" ++ setting.key ++ "`")
  | wrongKind setting found =>
      some ("invalid type: " ++ describe found ++ ", expected " ++ setting.kind)
  | outOfRange setting found =>
      some ("invalid value: " ++ describe found ++ ", expected " ++ setting.kind)

end DocumentFault

end LatencyBalancer
