import ByteRegex.Text.Digits

/-!
Bytes as printable ASCII. The tab, the line ends, the quotes and the backslash have a letter of
their own behind a backslash; every other byte that does not print is written in hexadecimal.
-/

namespace ByteRegex.Text

def escapeByte (byte : UInt8) : String :=
  if byte = 9 then "\\t"
  else if byte = 10 then "\\n"
  else if byte = 13 then "\\r"
  else if byte = 34 then "\\\""
  else if byte = 39 then "\\'"
  else if byte = 92 then "\\\\"
  else if 32 ≤ byte && byte ≤ 126 then String.singleton (Char.ofNat byte.toNat)
  else "\\x" ++ hexByte byte

def escapeBytes (bytes : List UInt8) : String :=
  bytes.foldl (fun text byte => text ++ escapeByte byte) ""

end ByteRegex.Text
