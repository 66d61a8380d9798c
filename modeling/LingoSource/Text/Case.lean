import LingoSource.Text.CaseTable

set_option autoImplicit false

namespace LingoSource

def caseImage (sequences : List (Nat × List Nat)) (runs : List CaseRun) (c : Char) : List Char :=
  match sequences.lookup c.toNat with
  | some image => image.map Char.ofNat
  | none =>
    match runs.findSome? (·.image? c.toNat) with
    | some n => [Char.ofNat n]
    | none => [c]

def upperCase (c : Char) : List Char :=
  caseImage upperSequences upperRuns c

def lowerCase (c : Char) : List Char :=
  caseImage lowerSequences lowerRuns c

/-- A word with its first character in upper case and the others in lower case. -/
def capitalized (s : String) : String :=
  match s.toList with
  | [] => ""
  | c :: rest => String.ofList (upperCase c ++ rest.flatMap lowerCase)

def asciiLower (s : String) : String :=
  String.ofList (s.toList.map Char.toLower)

end LingoSource
