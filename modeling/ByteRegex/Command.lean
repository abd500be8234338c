import ByteRegex.Bytecode.Listing
import ByteRegex.Regex
import ByteRegex.Text.Quoted

/-!
The command line: print the listing of a pattern and try it on subjects. The first argument is the
pattern, the second a string of flag letters, and the rest are subjects.
-/

namespace ByteRegex.Command

structure Result where
  status : Nat
  output : String
  errors : String
deriving DecidableEq, Repr

def failure (message : String) : Result := ⟨1, "", message ++ "\n"⟩

/-- Capturing is on unless it is switched off; hyphens mean nothing. -/
def flags? (letters : String) : Option Flags :=
  letters.toList.foldlM
    (fun flags letter =>
      if letter = '-' then some flags
      else if letter = 'i' then some { flags with caseless := true }
      else if letter = 'n' then some { flags with newline := true }
      else if letter = 'v' then some { flags with verbatim := true }
      else if letter = 'e' then some { flags with notEmpty := true }
      else if letter = 'x' then some { flags with capturing := false }
      else none)
    Flags.default

def slot (index : Nat) (span : Option Span) : String :=
  " " ++ toString index ++ ":" ++
    match span with
    | some span => toString span.start ++ ".." ++ toString span.stop
    | none => "-"

/-- The line of a subject: the spans of the whole match and of every group of the pattern. -/
def trial (regex : Regex) (subject : String) : String :=
  "  " ++ Text.quote subject ++ " ->" ++
    (match regex.captures? subject.toUTF8.data .default with
      | some captures =>
          String.join
            (((captures.toList.take (regex.groupCount + 1)).zipIdx).map fun (span, index) =>
              slot index span)
      | none => " no match") ++
    "\n"

def describe (pattern : String) (regex : Regex) (subjects : List String) : String :=
  "Pattern: " ++ pattern ++ "\nGroups: " ++ toString regex.groupCount ++ "\nBytecode length: "
    ++ toString regex.program.code.size ++ "\n" ++ regex.program.code.listing
    ++ String.join (subjects.map (trial regex))

def runWith (pattern letters : String) (subjects : List String) : Result :=
  match flags? letters with
  | none => failure ("unknown flag in " ++ Text.quote letters)
  | some flags =>
      match Regex.compile pattern.toUTF8.toList flags with
      | .error error => failure (pattern ++ ": " ++ error.message)
      | .ok regex => ⟨0, describe pattern regex subjects, ""⟩

def run : List String → Result
  | [] => failure "usage: disasm PATTERN [FLAGS] [SUBJECT...]"
  | [pattern] => runWith pattern "" []
  | pattern :: letters :: subjects => runWith pattern letters subjects

end ByteRegex.Command
