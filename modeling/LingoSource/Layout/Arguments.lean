import LingoSource.Text.Case
import LingoSource.Tree.Basic
import LingoSource.Vocabulary

set_option autoImplicit false

namespace LingoSource

def commas (texts : List String) : String :=
  String.intercalate ", " texts

/-- Whether a call takes its first symbol for the name of a global. Case does not matter, and no
letter outside ASCII has the lower case of a letter in these names. -/
def isListFunction (name : String) : Bool :=
  asciiLower name ∈ Vocabulary.listFunctions

def argumentTexts (name : String) (args : List Node) (texts : List String) : List String :=
  match args, texts with
  | .leaf .symbol symbol _ :: _, text :: texts =>
    (if isListFunction name then symbol else text) :: texts
  | _, texts => texts

end LingoSource
