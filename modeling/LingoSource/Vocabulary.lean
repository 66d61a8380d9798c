set_option autoImplicit false

namespace LingoSource

namespace Vocabulary

def specialProperties : List String :=
  ["floatPrecision", "mouseDownScript", "mouseUpScript", "keyDownScript", "keyUpScript",
    "timeoutScript"]

def dateTimeFunctions : List String :=
  ["short time", "abbr time", "long time", "short date", "abbr date", "long date"]

def textParts : List String :=
  ["UNKNOWN", "char", "word", "item", "line"]

def menuItemProperties : List String :=
  ["UNKNOWN0", "name", "checkMark", "enabled", "script"]

def movieCounts : List String :=
  ["UNKNOWN0", "perFrameHook", "castMembers", "menus"]

def soundProperties : List String :=
  ["UNKNOWN0", "volume"]

def spriteProperties : List String :=
  ["UNKNOWN0", "type", "backColor", "bottom", "castNum", "constraint", "cursor", "foreColor",
    "height", "UNKNOWN1", "ink", "left", "lineSize", "locH", "locV", "movieRate", "movieTime",
    "UNKNOWN2", "puppet", "right", "startTime", "stopTime", "stretch", "top", "trails", "visible",
    "volume", "width", "blend", "scriptNum", "moveableSprite", "editabletext", "scoreColor", "loc",
    "rect"]

def castProperties : List String :=
  ["UNKNOWN0", "name", "text", "textStyle", "textFont", "textHeight", "textAlign", "textSize",
    "picture", "hilite", "number", "size", "UNKNOWN8", "UNKNOWN9", "UNKNOWNA", "UNKNOWNB",
    "UNKNOWNC", "foreColor", "backColor"]

def videoProperties : List String :=
  ["UNKNOWN0", "UNKNOWN1", "UNKNOWN2", "UNKNOWN3", "UNKNOWN4", "UNKNOWN5", "UNKNOWN6", "UNKNOWN7",
    "UNKNOWN8", "UNKNOWN9", "UNKNOWNA", "UNKNOWNB", "loop", "duration", "controller",
    "directToStage", "sound"]

def systemProperties : List (String × String) :=
  [("UNKNOWN_SYSTEM_PROPERTY_00", "UNKNOWN"), ("beepOn", "_movie"), ("buttonStyle", "_movie"),
    ("centerStage", "_movie"), ("checkBoxAccess", "_system"), ("checkBoxType", "_system"),
    ("colorDepth", "_system"), ("UNKNOWN_SYSTEM_PROPERTY_07", "UNKNOWN"), ("exitLock", "_movie"),
    ("fixStageSize", "_movie"), ("UNKNOWN_SYSTEM_PROPERTY_0A", "UNKNOWN"),
    ("UNKNOWN_SYSTEM_PROPERTY_0B", "UNKNOWN"), ("UNKNOWN_SYSTEM_PROPERTY_0C", "UNKNOWN"),
    ("UNKNOWN_SYSTEM_PROPERTY_0D", "UNKNOWN"), ("UNKNOWN_SYSTEM_PROPERTY_0E", "UNKNOWN"),
    ("UNKNOWN_SYSTEM_PROPERTY_0F", "UNKNOWN"), ("UNKNOWN_SYSTEM_PROPERTY_10", "UNKNOWN"),
    ("UNKNOWN_SYSTEM_PROPERTY_11", "UNKNOWN"), ("UNKNOWN_SYSTEM_PROPERTY_12", "UNKNOWN"),
    ("timeoutLapsed", "_system"), ("UNKNOWN_SYSTEM_PROPERTY_14", "UNKNOWN"),
    ("UNKNOWN_SYSTEM_PROPERTY_15", "UNKNOWN"), ("UNKNOWN_SYSTEM_PROPERTY_16", "UNKNOWN"),
    ("selEnd", "_movie"), ("selStart", "_movie"), ("soundEnabled", "_sound"),
    ("soundLevel", "_sound"), ("stageColor", "_movie"), ("UNKNOWN_SYSTEM_PROPERTY_1C", "UNKNOWN"),
    ("switchColorDepth", "_player"), ("timeoutKeyDown", "_system"), ("timeoutLength", "_system"),
    ("timeoutMouse", "_system"), ("timeoutPlay", "_system"), ("timer", "_system")]

/-- The symbols that source code writes without a mark. -/
def plainSymbols : List String :=
  ["loop", "next", "previous", "playFile", "fadeIn", "fadeOut", "stop", "close"]

/-- The list operations whose first argument, if it is a symbol, names a global variable. -/
def listFunctions : List String :=
  ["findpos", "findposnear", "getaprop", "getone", "getpos", "getpropat", "getprop"]

def moviePropertyOwners : List (String × String) :=
  [("updateMovieEnabled", "_movie")]

/-- The objects that properties belong to in JavaScript; all others belong to `me`. -/
def propertyOwners : List (String × String) :=
  [("actorList", "_movie"), ("ancestor", "me"), ("floatPrecision", "_system"),
    ("itemDelimiter", "_player"), ("keyDownScript", "_system"), ("keyUpScript", "_system"),
    ("mouseDownScript", "_system"), ("mouseUpScript", "_system"), ("timeoutScript", "_system")]

def namedLiterals : List (String × String) :=
  [("\"\"", "EMPTY"), ("\"\"\"", "QUOTE"), ("\"\\r\"", "RETURN"), ("\"\\t\"", "TAB"),
   ("\"\\x03\"", "ENTER"), ("\"\\x08\"", "BACKSPACE")]

end Vocabulary

end LingoSource
