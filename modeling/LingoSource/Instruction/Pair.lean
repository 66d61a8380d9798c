import LingoSource.Instruction.Opcode

set_option autoImplicit false

namespace LingoSource

inductive PairOpcode
  | assignIntoLocal
  | assignIntoField
  | assignAfterLocal
  | assignAfterField
  | assignBeforeLocal
  | assignBeforeField
  | putIntoField
  | putIntoVar
  | putIntoLocal
  | putIntoFieldChunk
  | putAfterVar
  | putAfterLocal
  | putAfterField
  | putBeforeVar
  | putBeforeLocal
  | putBeforeField
  | deleteVar
  | deleteLocal
  | deleteField
  | getSpecial
  | getNumberOf
  | getMenu
  | getMenuItem
  | getSound
  | getSprite
  | getSystem
  | getCastCount
  | getCast
  | getFieldProp
  | getVideo
  | setSpecial
  | setMenuItem
  | setSound
  | setSprite
  | setSystem
  | setCast
  | setFieldProp
  | setVideo
  deriving DecidableEq, Repr

namespace PairOpcode

def bytes : PairOpcode → UInt8 × UInt8
  | .assignIntoLocal => (0x59, 0x15)
  | .assignIntoField => (0x59, 0x16)
  | .assignAfterLocal => (0x59, 0x25)
  | .assignAfterField => (0x59, 0x26)
  | .assignBeforeLocal => (0x59, 0x35)
  | .assignBeforeField => (0x59, 0x36)
  | .putIntoField => (0x5a, 0x06)
  | .putIntoVar => (0x5a, 0x12)
  | .putIntoLocal => (0x5a, 0x15)
  | .putIntoFieldChunk => (0x5a, 0x16)
  | .putAfterVar => (0x5a, 0x22)
  | .putAfterLocal => (0x5a, 0x25)
  | .putAfterField => (0x5a, 0x26)
  | .putBeforeVar => (0x5a, 0x32)
  | .putBeforeLocal => (0x5a, 0x35)
  | .putBeforeField => (0x5a, 0x36)
  | .deleteVar => (0x5b, 0x02)
  | .deleteLocal => (0x5b, 0x05)
  | .deleteField => (0x5b, 0x06)
  | .getSpecial => (0x5c, 0x00)
  | .getNumberOf => (0x5c, 0x01)
  | .getMenu => (0x5c, 0x02)
  | .getMenuItem => (0x5c, 0x03)
  | .getSound => (0x5c, 0x04)
  | .getSprite => (0x5c, 0x06)
  | .getSystem => (0x5c, 0x07)
  | .getCastCount => (0x5c, 0x08)
  | .getCast => (0x5c, 0x09)
  | .getFieldProp => (0x5c, 0x0b)
  | .getVideo => (0x5c, 0x0d)
  | .setSpecial => (0x5d, 0x00)
  | .setMenuItem => (0x5d, 0x03)
  | .setSound => (0x5d, 0x04)
  | .setSprite => (0x5d, 0x06)
  | .setSystem => (0x5d, 0x07)
  | .setCast => (0x5d, 0x09)
  | .setFieldProp => (0x5d, 0x0b)
  | .setVideo => (0x5d, 0x0d)

def all : List PairOpcode :=
  [.assignIntoLocal, .assignIntoField, .assignAfterLocal, .assignAfterField, .assignBeforeLocal,
    .assignBeforeField, .putIntoField, .putIntoVar, .putIntoLocal, .putIntoFieldChunk, .putAfterVar,
    .putAfterLocal, .putAfterField, .putBeforeVar, .putBeforeLocal, .putBeforeField, .deleteVar,
    .deleteLocal, .deleteField, .getSpecial, .getNumberOf, .getMenu, .getMenuItem, .getSound,
    .getSprite, .getSystem, .getCastCount, .getCast, .getFieldProp, .getVideo, .setSpecial,
    .setMenuItem, .setSound, .setSprite, .setSystem, .setCast, .setFieldProp, .setVideo]

def ofBytes? (first second : UInt8) : Option PairOpcode :=
  all.find? (·.bytes = (first, second))

end PairOpcode

end LingoSource
