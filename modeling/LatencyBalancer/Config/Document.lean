import LatencyBalancer.Config.Basic
import LatencyBalancer.Config.DocumentFault

/-!
Configuration documents.

A document is a JSON object that names some of the settings, or a JSON list of settings in their
order; what it leaves out keeps its default.  It is read from left to right up to the first
fault.  Every setting is a number: one with a fraction, an exponent or a sign is never taken for
an integer, and the ratio takes any number.
-/

namespace LatencyBalancer

namespace Config

open Json (Value skipBlanks readValue readString)

/-- An integer below a bound, in which a setting of that size is written. -/
def integer (setting : Setting) (bound : Nat) (found : Value) : Except DocumentFault Nat :=
  match found with
  | .number (.natural value) =>
      if value < bound then .ok value else .error (.outOfRange setting found)
  | .number (.negative _) => .error (.outOfRange setting found)
  | _ => .error (.wrongKind setting found)

/-- Integers are rounded once, all other numbers a second time. -/
def ratio (setting : Setting) (found : Value) : Except DocumentFault Single :=
  match found with
  | .number (.natural value) => .ok (Floating.ofNat Format.single value)
  | .number (.negative magnitude) =>
      .ok { Floating.ofNat Format.single magnitude with negative := true }
  | .number (.floating value) => .ok (value.convert Format.single)
  | _ => .error (.wrongKind setting found)

def assign (config : Config) (setting : Setting) (found : Value) :
    Except DocumentFault Config :=
  match setting with
  | .windowSize =>
      (integer setting UInt64.size found).map fun value => { config with windowSize := value }
  | .minRatio => (ratio setting found).map fun value => { config with minRatio := value }
  | .minEligible =>
      (integer setting UInt64.size found).map fun value => { config with minEligible := value }
  | .readTimeout =>
      (integer setting UInt32.size found).map fun value =>
        { config with readTimeout := UInt32.ofNat value }
  | .rebuildInterval =>
      (integer setting UInt64.size found).map fun value =>
        { config with rebuildInterval := value }
  | .maxAttempts =>
      (integer setting UInt32.size found).map fun value => { config with maxAttempts := value }

abbrev Reading (Result : Type) := Except DocumentFault (Result × List Char)

def truncated {Result : Type} : Except DocumentFault Result := .error (.json .truncated)

def malformed {Result : Type} : Except DocumentFault Result := .error (.json .malformed)

def readSetting (config : Config) (setting : Setting) (text : List Char) : Reading Config :=
  match readValue (skipBlanks text) with
  | .error fault => .error (.json fault)
  | .ok (found, rest) => (config.assign setting found).map fun config => (config, rest)

/-- The elements of a list from one on, for the settings that are still to come. -/
def readElements (config : Config) : List Setting → List Char → Reading Config
  | [], _ => malformed
  | setting :: settings, text =>
      match config.readSetting setting text with
      | .error fault => .error fault
      | .ok (config, rest) =>
          match skipBlanks rest with
          | [] => truncated
          | ']' :: rest => .ok (config, rest)
          | ',' :: rest =>
              match settings, skipBlanks rest with
              | [], _ => malformed
              | _, [] => truncated
              | _, ']' :: _ => malformed
              | settings, rest => config.readElements settings rest
          | _ => malformed

def readList (config : Config) (text : List Char) : Reading Config :=
  match skipBlanks text with
  | [] => truncated
  | ']' :: rest => .ok (config, rest)
  | rest => config.readElements Setting.all rest

/-- The key of a member, among the settings that were not given yet. -/
def readKey (pending : List Setting) (text : List Char) :
    Reading { setting : Setting // setting ∈ pending } :=
  match text with
  | [] => truncated
  | '"' :: text =>
      match readString text with
      | .error fault => .error (.json fault)
      | .ok (key, rest) =>
          match Setting.ofKey? key with
          | none => .error (.unknownKey key)
          | some setting =>
              if fresh : setting ∈ pending then .ok (⟨setting, fresh⟩, rest)
              else .error (.repeatedKey setting)
  | _ => malformed

def readBinding (config : Config) (setting : Setting) (text : List Char) : Reading Config :=
  match skipBlanks text with
  | [] => truncated
  | ':' :: rest => config.readSetting setting rest
  | _ => malformed

def readMembers (config : Config) (pending : List Setting) (text : List Char) :
    Reading Config :=
  match readKey pending text with
  | .error fault => .error fault
  | .ok (⟨setting, _⟩, rest) =>
      match config.readBinding setting rest with
      | .error fault => .error fault
      | .ok (config, rest) =>
          match skipBlanks rest with
          | [] => truncated
          | '\x7d' :: rest => .ok (config, rest)
          | ',' :: rest => config.readMembers (pending.erase setting) (skipBlanks rest)
          | _ => malformed
termination_by pending.length
decreasing_by
  have positive := List.length_pos_of_mem ‹setting ∈ pending›
  rw [List.length_erase_of_mem ‹setting ∈ pending›]
  omega

def readObject (config : Config) (text : List Char) : Reading Config :=
  match skipBlanks text with
  | '\x7d' :: rest => .ok (config, rest)
  | rest => config.readMembers Setting.all rest

def readSettings (config : Config) (text : List Char) : Reading Config :=
  match text with
  | '[' :: rest => config.readList rest
  | '\x7b' :: rest => config.readObject rest
  | text =>
      match readValue text with
      | .error fault => .error (.json fault)
      | .ok (found, _) => .error (.notSettings found)

def ofDocument (text : List Char) : Except DocumentFault Config :=
  match readSettings { } (skipBlanks text) with
  | .error fault => .error fault
  | .ok (config, rest) => if skipBlanks rest = [] then .ok config else malformed

end Config

inductive ConfigError where
  | invalid (fault : ConfigFault)
  | unreadable (fault : DocumentFault)
deriving DecidableEq, Repr

namespace ConfigError

def message? : ConfigError → Option String
  | invalid fault => some fault.message
  | unreadable fault =>
      fault.message?.map fun message => "failed to parse configuration: " ++ message

end ConfigError

/-- The configuration that a text gives, when its settings make sense. -/
def Config.ofText (text : String) : Except ConfigError Config :=
  match Config.ofDocument text.toList with
  | .error fault => .error (.unreadable fault)
  | .ok config =>
      match config.fault? with
      | some fault => .error (.invalid fault)
      | none => .ok config

end LatencyBalancer
