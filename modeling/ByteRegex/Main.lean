import ByteRegex.Command

/-!
The program: its arguments in, its output, error text and exit status out.
-/

def main (arguments : List String) : IO UInt32 := do
  let result := ByteRegex.Command.run arguments
  IO.print result.output
  IO.eprint result.errors
  return UInt32.ofNat result.status
