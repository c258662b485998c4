import HeaderReflect.Template.Value
import HeaderReflect.Text.Bytes

/-!
A value as JSON without blanks. Fields stand in their own order; only quotes, backslashes and
control characters are escaped.
-/

namespace HeaderReflect.Json

open Template (Value)

def escape (c : Char) : List Char :=
  if c = '"' then ['\\', '"']
  else if c = '\\' then ['\\', '\\']
  else if c = '\x08' then ['\\', 'b']
  else if c = '\t' then ['\\', 't']
  else if c = '\n' then ['\\', 'n']
  else if c = '\x0c' then ['\\', 'f']
  else if c = '\r' then ['\\', 'r']
  else if c.toNat < 0x20 then
    ['\\', 'u', '0', '0', Text.hexDigit (c.toNat / 16), Text.hexDigit (c.toNat % 16)]
  else [c]

def quoted (s : String) : String :=
  String.ofList ('"' :: s.toList.flatMap escape ++ ['"'])

mutual

def compact : Value → String
  | .null => "null"
  | .bool b => if b then "true" else "false"
  | .int n => toString n
  | .text s => quoted s
  | .list items => "[" ++ compactList true items ++ "]"
  | .object fields => "\x7b" ++ compactFields true fields ++ "\x7d"

def compactList (first : Bool) : List Value → String
  | [] => ""
  | v :: rest => (if first then "" else ",") ++ compact v ++ compactList false rest

def compactFields (first : Bool) : List (String × Value) → String
  | [] => ""
  | (k, v) :: rest =>
    (if first then "" else ",") ++ quoted k ++ ":" ++ compact v ++ compactFields false rest

end

end HeaderReflect.Json
