import LingoSource.Settings.Basic
import LingoSource.Toml.Document

set_option autoImplicit false

namespace LingoSource

namespace Toml

def asText : Toml → Option String
  | .text s => some s
  | _ => none

def asNatural : Toml → Option Nat
  | .integer (.ofNat n) => some n
  | _ => none

/-- Whether a value has no content of its own: an array or table that is empty. -/
def isVoid : Toml → Bool
  | .array [] | .tables [] | .table _ [] => true
  | _ => false

/-- The word for one of several choices: a string, or the only key of a table, without content. -/
def asChoice : Toml → Option String
  | .text s => some s
  | .table _ [(key, v)] => if v.isVoid then some key else none
  | _ => none

def asTarget (v : Toml) : Option Target :=
  match v.asChoice with
  | some "lingo" => some .lingo
  | some "js" => some .javaScript
  | _ => none

/-- The value of a key, `fallback` if it is not set, and nothing if it cannot be read. -/
def Entries.setting {α : Type} (entries : Entries) (key : String) (read : Toml → Option α)
    (fallback : α) : Option α :=
  match entries.lookup key with
  | some v => read v
  | none => some fallback

end Toml

namespace Settings

def ofEntries (entries : Toml.Entries) : Option Settings := do
  let defaults : Settings := {}
  return {
    indentWidth := ← entries.setting "indent_width" Toml.asNatural defaults.indentWidth
    target := ← entries.setting "target" Toml.asTarget defaults.target
    factory := ← entries.setting "factory" (fun v => some <$> v.asText) defaults.factory
    logLevel := ← entries.setting "log_level" (fun v => some <$> v.asText) defaults.logLevel }

def ofToml (document : String) : Option Settings :=
  Toml.read document >>= ofEntries

end Settings

end LingoSource
