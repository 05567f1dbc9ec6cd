import Literate.Error

/-!
# Reports and logs

A run that succeeds answers with a report: what was read, what was found, and what was written. On
the way it leaves lines in a log.
-/

namespace Literate

/-- Which outputs a run produces after checking. -/
structure Stages where
  tangle : Bool
  weave : Bool

namespace Stages

/-- Only checking. -/
def check : Stages := ⟨false, false⟩

/-- Files only. -/
def tangleOnly : Stages := ⟨true, false⟩

/-- Pages only. -/
def weaveOnly : Stages := ⟨false, true⟩

/-- Files and pages. -/
def build : Stages := ⟨true, true⟩

end Stages

/-- What a run read, found and wrote. -/
structure Report where
  inputs : List Path
  /-- Number of chunks. -/
  chunks : Nat
  roots : List ChunkName
  warnings : List Warning
  tangled : List ChunkName
  woven : List Path

/-- How much a log line matters. -/
inductive LogLevel where
  | debug
  | info
  | warn
  deriving DecidableEq

/-- A line of the log. -/
structure LogLine where
  level : LogLevel
  message : String

namespace LogLine

/-- A character as the log spells it. The characters that could steer a terminal (bell, backspace,
form feed, escape, delete and the second set of controls) are spelled by their numbers. -/
def spell (c : Char) : Text :=
  let n := c.toNat
  let digits := Nat.toDigits 16 n
  if n == 0x07 || n == 0x08 || n == 0x0C || n == 0x1B || n == 0x7F then
    "\\x".toList ++ List.replicate (2 - digits.length) '0' ++ digits
  else if 0x80 ≤ n && n ≤ 0x9F then "\\u\x7b".toList ++ digits ++ "\x7d".toList
  else [c]

/-- The line with its message as the log spells it. -/
def spelled (line : LogLine) : LogLine :=
  { line with message := String.ofList (line.message.toList.flatMap spell) }

end LogLine

/-- What came of a run. -/
structure Outcome where
  log : List LogLine
  result : Except Error Report

end Literate
