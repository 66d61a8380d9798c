import LingoSource.Text.Hexadecimal

set_option autoImplicit false

namespace LingoSource

def Escaped.isCoded (c : Char) : Bool :=
  c.toNat < 0x20 || (0x7f ≤ c.toNat && c.toNat ≤ 0xff)

def Escaped.encode (c : Char) : List Char :=
  if c = '\\' then ['\\', '\\']
  else if c = '\t' then ['\\', 't']
  else if c = '\n' then ['\\', 'n']
  else if c = '\r' then ['\\', 'r']
  else if Escaped.isCoded c then '\\' :: 'x' :: hexPair c.toNat
  else [c]

def escaped (s : String) : String :=
  String.ofList ('"' :: s.toList.flatMap Escaped.encode ++ ['"'])

end LingoSource
