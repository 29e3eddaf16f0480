import DeclarativeMdp.Decimal.Layout

set_option autoImplicit false

namespace DeclarativeMdp.Json

def hexDigit (n : Nat) : Char := Nat.digitChar (n % 16)

def writeChar (c : Char) : List Char :=
  if c = '"' then ['\\', '"']
  else if c = '\\' then ['\\', '\\']
  else if c.toNat = 0x08 then ['\\', 'b']
  else if c.toNat = 0x0C then ['\\', 'f']
  else if c = '\n' then ['\\', 'n']
  else if c = '\r' then ['\\', 'r']
  else if c = '\t' then ['\\', 't']
  else if c.toNat < 0x20 then
    ['\\', 'u', '0', '0', hexDigit (c.toNat / 16), hexDigit c.toNat]
  else [c]

def writeString (text : String) : String :=
  String.ofList ('"' :: text.toList.flatMap writeChar ++ ['"'])

def writeFloat (x : Float) : String :=
  if x.isFinite then Decimal.Layout.data.write x else "null"

def writeBool (value : Bool) : String := if value then "true" else "false"

def writeOption {α : Type} (write : α → String) : Option α → String
  | none => "null"
  | some value => write value

def writeArray (items : List String) : String := "[" ++ ",".intercalate items ++ "]"

def writeMember (member : String × String) : String :=
  writeString member.1 ++ ":" ++ member.2

def writeObject (members : List (String × String)) : String :=
  "\x7b" ++ ",".intercalate (members.map writeMember) ++ "\x7d"

end DeclarativeMdp.Json
