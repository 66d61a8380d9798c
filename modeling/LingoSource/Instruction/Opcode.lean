set_option autoImplicit false

namespace LingoSource

inductive Opcode
  | exit
  | pushZero
  | mul
  | add
  | sub
  | div
  | mod
  | inv
  | joinStr
  | joinPadStr
  | lt
  | ltEq
  | ntEq
  | eq
  | gt
  | gtEq
  | and
  | or
  | not
  | containsStr
  | contains0Str
  | getChunk
  | hiliteChunk
  | ontoSpr
  | intoSpr
  | getField
  | startTell
  | endTell
  | pushList
  | pushPropList
  | pushInt8
  | pushArgListNoRet
  | pushArgList
  | pushCons
  | pushSymb
  | pushVarRef
  | getGlobal2
  | getGlobal
  | getProp
  | getParam
  | getLocal
  | setGlobal2
  | setGlobal
  | setProp
  | setParam
  | setLocal
  | endRepeat
  | localCall
  | extCall
  | extGlobalCall
  | assignMode
  | putChunk
  | deleteChunk
  | get
  | set
  | getMovieProp
  | setMovieProp
  | getObjProp
  | setObjProp
  | tellCall
  | peek
  | pop
  | theBuiltin
  | objCall
  | pushPropName
  | pushInt16
  | pushArgListNoRet16
  | pushArgList16
  | pushCons16
  | jmp
  | jmpIfZ
  deriving DecidableEq, Repr

namespace Opcode

def byte : Opcode → UInt8
  | .exit => 0x01
  | .pushZero => 0x03
  | .mul => 0x04
  | .add => 0x05
  | .sub => 0x06
  | .div => 0x07
  | .mod => 0x08
  | .inv => 0x09
  | .joinStr => 0x0a
  | .joinPadStr => 0x0b
  | .lt => 0x0c
  | .ltEq => 0x0d
  | .ntEq => 0x0e
  | .eq => 0x0f
  | .gt => 0x10
  | .gtEq => 0x11
  | .and => 0x12
  | .or => 0x13
  | .not => 0x14
  | .containsStr => 0x15
  | .contains0Str => 0x16
  | .getChunk => 0x17
  | .hiliteChunk => 0x18
  | .ontoSpr => 0x19
  | .intoSpr => 0x1a
  | .getField => 0x1b
  | .startTell => 0x1c
  | .endTell => 0x1d
  | .pushList => 0x1e
  | .pushPropList => 0x1f
  | .pushInt8 => 0x41
  | .pushArgListNoRet => 0x42
  | .pushArgList => 0x43
  | .pushCons => 0x44
  | .pushSymb => 0x45
  | .pushVarRef => 0x46
  | .getGlobal2 => 0x48
  | .getGlobal => 0x49
  | .getProp => 0x4a
  | .getParam => 0x4b
  | .getLocal => 0x4c
  | .setGlobal2 => 0x4e
  | .setGlobal => 0x4f
  | .setProp => 0x50
  | .setParam => 0x51
  | .setLocal => 0x52
  | .endRepeat => 0x54
  | .localCall => 0x56
  | .extCall => 0x57
  | .extGlobalCall => 0x58
  | .assignMode => 0x59
  | .putChunk => 0x5a
  | .deleteChunk => 0x5b
  | .get => 0x5c
  | .set => 0x5d
  | .getMovieProp => 0x5f
  | .setMovieProp => 0x60
  | .getObjProp => 0x61
  | .setObjProp => 0x62
  | .tellCall => 0x63
  | .peek => 0x64
  | .pop => 0x65
  | .theBuiltin => 0x66
  | .objCall => 0x67
  | .pushPropName => 0x99
  | .pushInt16 => 0x81
  | .pushArgListNoRet16 => 0x82
  | .pushArgList16 => 0x83
  | .pushCons16 => 0x84
  | .jmp => 0x93
  | .jmpIfZ => 0x95

def name : Opcode → String
  | .exit => "exit"
  | .pushZero => "pushzero"
  | .mul => "mul"
  | .add => "add"
  | .sub => "sub"
  | .div => "div"
  | .mod => "mod"
  | .inv => "inv"
  | .joinStr => "joinstr"
  | .joinPadStr => "joinpadstr"
  | .lt => "lt"
  | .ltEq => "lteq"
  | .ntEq => "nteq"
  | .eq => "eq"
  | .gt => "gt"
  | .gtEq => "gteq"
  | .and => "and"
  | .or => "or"
  | .not => "not"
  | .containsStr => "containsstr"
  | .contains0Str => "contains0str"
  | .getChunk => "getchunk"
  | .hiliteChunk => "hilitechunk"
  | .ontoSpr => "ontospr"
  | .intoSpr => "intospr"
  | .getField => "getfield"
  | .startTell => "starttell"
  | .endTell => "endtell"
  | .pushList => "pushlist"
  | .pushPropList => "pushproplist"
  | .pushInt8 => "pushint8"
  | .pushArgListNoRet => "pusharglistnoret"
  | .pushArgList => "pusharglist"
  | .pushCons => "pushcons"
  | .pushSymb => "pushsymb"
  | .pushVarRef => "pushvarref"
  | .getGlobal2 => "getglobal2"
  | .getGlobal => "getglobal"
  | .getProp => "getprop"
  | .getParam => "getparam"
  | .getLocal => "getlocal"
  | .setGlobal2 => "setglobal2"
  | .setGlobal => "setglobal"
  | .setProp => "setprop"
  | .setParam => "setparam"
  | .setLocal => "setlocal"
  | .endRepeat => "endrepeat"
  | .localCall => "localcall"
  | .extCall => "extcall"
  | .extGlobalCall => "extglobalcall"
  | .assignMode => "assignmode"
  | .putChunk => "putchunk"
  | .deleteChunk => "deletechunk"
  | .get => "get"
  | .set => "set"
  | .getMovieProp => "getmovieprop"
  | .setMovieProp => "setmovieprop"
  | .getObjProp => "getobjprop"
  | .setObjProp => "setobjprop"
  | .tellCall => "tellcall"
  | .peek => "peek"
  | .pop => "pop"
  | .theBuiltin => "thebuiltin"
  | .objCall => "objcall"
  | .pushPropName => "pushpropname"
  | .pushInt16 => "pushint16"
  | .pushArgListNoRet16 => "pusharglistnoret16"
  | .pushArgList16 => "pusharglist16"
  | .pushCons16 => "pushcons16"
  | .jmp => "jmp"
  | .jmpIfZ => "jmpifz"

def all : List Opcode :=
  [.exit, .pushZero, .mul, .add, .sub, .div, .mod, .inv, .joinStr, .joinPadStr, .lt, .ltEq, .ntEq,
    .eq, .gt, .gtEq, .and, .or, .not, .containsStr, .contains0Str, .getChunk, .hiliteChunk,
    .ontoSpr, .intoSpr, .getField, .startTell, .endTell, .pushList, .pushPropList, .pushInt8,
    .pushArgListNoRet, .pushArgList, .pushCons, .pushSymb, .pushVarRef, .getGlobal2, .getGlobal,
    .getProp, .getParam, .getLocal, .setGlobal2, .setGlobal, .setProp, .setParam, .setLocal,
    .endRepeat, .localCall, .extCall, .extGlobalCall, .assignMode, .putChunk, .deleteChunk, .get,
    .set, .getMovieProp, .setMovieProp, .getObjProp, .setObjProp, .tellCall, .peek, .pop,
    .theBuiltin, .objCall, .pushPropName, .pushInt16, .pushArgListNoRet16, .pushArgList16,
    .pushCons16, .jmp, .jmpIfZ]

def ofByte? (b : UInt8) : Option Opcode :=
  all.find? (·.byte = b)

def operandWidth (op : Opcode) : Nat :=
  if op.byte < 0x40 then 0
  else if (0x81 ≤ op.byte ∧ op.byte ≤ 0x84) ∨ op.byte = 0x93 ∨ op.byte = 0x95 then 2
  else 1

def isPairPrefix : Opcode → Bool
  | .assignMode | .putChunk | .deleteChunk | .get | .set => true
  | _ => false

theorem ofByte?_byte (op : Opcode) : ofByte? op.byte = some op := by
  cases op <;> rfl

theorem byte_of_ofByte? {b : UInt8} {op : Opcode} (h : ofByte? b = some op) : op.byte = b := by
  simpa using List.find?_some h

end Opcode

end LingoSource
