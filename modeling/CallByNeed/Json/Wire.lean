import CallByNeed.Json.Reader
import CallByNeed.Long.Unsigned

set_option autoImplicit false

/-!
The wire forms of integers: words as signed numbers, least significant first,
with the fill word as sign; and the two words of a 64-bit integer. Any words and
any sign are taken, and the integer is then made canonical. A writer and a
reader of wire forms give texts for integers, and JSON is one such pair.
-/

namespace CallByNeed

namespace Json

def writeWord (w : Int32) : String := toString w.toInt

/-- An object of two fields whose values are already written. -/
def writeFields (firstName first secondName second : String) : String :=
  "\x7b\"" ++ firstName ++ "\":" ++ first ++ ",\"" ++ secondName ++ "\":" ++ second ++ "\x7d"

end Json

namespace Integer

structure Wire where
  words : List Int32
  sign : Int32
  deriving DecidableEq

def toWire (a : Integer) : Wire := ⟨a.words.map UInt32.toInt32, a.fill.toInt32⟩

/-- A negative sign stands for all ones, any other for zeros. -/
def ofWire (words : List Int32) (sign : Int32) : Integer :=
  make (words.map Int32.toUInt32) (sign < 0)

/-- The text that a writer makes of the wire form. -/
def serialize (write : Wire → String) (a : Integer) : String := write a.toWire

/-- The integer of the wire form that a reader finds in a text. -/
def deserialize? (read : String → Option Wire) (text : String) : Option Integer :=
  (read text).map fun wire => ofWire wire.words wire.sign

def wireFields : Json.Fields (List Int32) Int32 :=
  ⟨"words", "sign", Json.readArray Json.readInt32, Json.readInt32⟩

def Wire.toJson (wire : Wire) : String :=
  Json.writeFields "words" ("[" ++ ",".intercalate (wire.words.map Json.writeWord) ++ "]")
    "sign" (Json.writeWord wire.sign)

def Wire.ofJson? (text : String) : Option Wire :=
  (Json.ofText? wireFields.read text).map fun (words, sign) => ⟨words, sign⟩

def toJson (a : Integer) : String := a.serialize Wire.toJson

def ofJson? (text : String) : Option Integer := deserialize? Wire.ofJson? text

end Integer

namespace Long

def wireFields : Json.Fields Int32 Int32 := ⟨"low", "high", Json.readInt32, Json.readInt32⟩

def toJson (x : Long) : String :=
  Json.writeFields "low" (Json.writeWord x.low.toInt32) "high" (Json.writeWord x.high.toInt32)

def ofJson? (text : String) : Option Long :=
  (Json.ofText? wireFields.read text).map fun (low, high) => ⟨low.toUInt32, high.toUInt32⟩

end Long

namespace ULong

def toJson (x : ULong) : String := x.toLong.toJson

def ofJson? (text : String) : Option ULong := (Long.ofJson? text).map ofLong

end ULong

end CallByNeed
