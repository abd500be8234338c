import ByteRegex.Search

/-!
Compiled regular expressions and the questions they answer.
-/

namespace ByteRegex

structure Regex where
  program : Program
deriving DecidableEq

namespace Regex

/-- Matches nothing. -/
def never : Regex := ⟨.never⟩

instance : Inhabited Regex := ⟨never⟩

def compile (pattern : List UInt8) (flags : Flags) : Except CompileError Regex :=
  (Program.compile pattern flags).map Regex.mk

/-- A pattern given as text, with the default flags. -/
def ofString (pattern : String) : Except CompileError Regex :=
  compile pattern.toUTF8.toList .default

/-- What remains of a regex after an attempt to compile another pattern in its place: the new one,
or one that never matches if the pattern is refused. -/
def recompile (pattern : List UInt8) (flags : Flags) : Except CompileError Unit × Regex :=
  match compile pattern flags with
  | .ok regex => (.ok (), regex)
  | .error error => (.error error, never)

def groupCount (regex : Regex) : Nat := regex.program.groups

/-- The first match with a start in the window. It may reach past the window, and assertions see the
whole subject. -/
def findIn? (regex : Regex) (subject : Array UInt8) (window : Window) (limits : Limits) :
    Option Captures :=
  regex.program.search subject window limits

def captures? (regex : Regex) (subject : Array UInt8) (limits : Limits) : Option Captures :=
  regex.findIn? subject (.whole subject) limits

def find? (regex : Regex) (subject : Array UInt8) (limits : Limits) : Option Span :=
  (regex.captures? subject limits).bind (·.get? 0)

def isMatch (regex : Regex) (subject : Array UInt8) (limits : Limits) : Bool :=
  (regex.captures? subject limits).isSome

/-- Replaces captures by those of a match, if there is one. -/
def capturesInto (regex : Regex) (subject : Array UInt8) (window : Window) (old : Captures) :
    Bool × Captures :=
  match regex.findIn? subject window .default with
  | some found => (true, found)
  | none => (false, old)

end Regex

end ByteRegex
