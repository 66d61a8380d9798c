set_option autoImplicit false

namespace LingoSource

structure Frame where
  unit : String
  level : Nat
  deriving DecidableEq, Repr

namespace Frame

def defaultUnit : String := "    "

def plain : Frame := ⟨defaultUnit, 0⟩

def deeper (f : Frame) : Frame :=
  { f with level := f.level + 1 }

def shallower (f : Frame) : Frame :=
  { f with level := f.level - 1 }

def indentation (f : Frame) : String :=
  String.join (List.replicate f.level f.unit)

def line (f : Frame) (text : String) : String :=
  (if text.isEmpty then "" else f.indentation ++ text) ++ "\n"

end Frame

end LingoSource
