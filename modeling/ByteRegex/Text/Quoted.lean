import ByteRegex.Text.Digits
import ByteRegex.Unicode.DefaultIgnorable
import ByteRegex.Unicode.ExtendingMark
import ByteRegex.Unicode.Printable

/-!
Text between double quotes. Characters that do not print or show nothing, and marks that would print
on the quote or on the character before them, are written by number.
-/

namespace ByteRegex.Text

/-- Whether a character can be read when it is written as itself. -/
def isLegible (char : Char) : Bool :=
  Unicode.printable.contains char && !Unicode.defaultIgnorable.contains char
    && !Unicode.extendingMark.contains char

def quoteChar (char : Char) : String :=
  if char.toNat = 0 then "\\0"
  else if char = '\t' then "\\t"
  else if char = '\n' then "\\n"
  else if char = '\r' then "\\r"
  else if char = '"' then "\\\""
  else if char = '\\' then "\\\\"
  else if isLegible char then String.singleton char
  else "\\u\x7b" ++ hexDigits char.toNat ++ "\x7d"

def quote (text : String) : String :=
  text.toList.foldl (fun quoted char => quoted ++ quoteChar char) "\"" ++ "\""

end ByteRegex.Text
