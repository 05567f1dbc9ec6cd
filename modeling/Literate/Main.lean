import Literate.Command.Run

/-!
# The program

The command line on the machine at hand. The log and complaints go to the standard error, what a
command prints goes to the standard output, and the status is that of the command.
-/

namespace Literate.Machine

/-- The fault behind an input or output error. -/
def faultOf : IO.Error → Fault
  | .noFileOrDirectory .. => .noSuchFile
  | .alreadyExists .. => .fileExists
  | .inappropriateType _ code details =>
    if code == 20 then .notDirectory else if code == 21 then .isDirectory else .other details
  | .invalidArgument _ code details => if code == 36 then .nameTooLong else .other details
  | e => .other (toString e)

/-- An action with its error as a fault. -/
def attempt {α : Type} (action : IO α) : IO (Except Fault α) := do
  try return .ok (← action)
  catch e => return .error (faultOf e)

/-- An action on a path with its error as a fault. No path holds the character zero. -/
def attemptAt {α : Type} (p : Path) (action : IO α) : IO (Except Fault α) :=
  if p.spelling.contains '\x00' then return .error .nulInName else attempt action

/-- Whether there is something under a path. -/
def present (p : Path) : IO Bool := do
  match ← attemptAt p (IO.FS.Handle.mk (toString p) .read) with
  | .error .noSuchFile | .error .notDirectory | .error .nameTooLong | .error .nulInName =>
    return false
  | _ => return true

/-- The text of a file. -/
def read (p : Path) : IO (Except Fault Text) := do
  let reading : IO ByteArray := do (← IO.FS.Handle.mk (toString p) .read).readBinToEnd
  return (← attemptAt p reading).bind Disk.decode

/-- All bytes of a stream that are still to come. -/
partial def remaining (stream : IO.FS.Stream) (bytes : ByteArray) : IO ByteArray := do
  let block ← stream.read 65536
  if block.isEmpty then return bytes else remaining stream (bytes ++ block)

/-- The text of the standard input. -/
def input : IO (Except Fault Text) := do
  return (← attempt (do remaining (← IO.getStdin) .empty)).bind Disk.decode

/-- Writes a file, with the directories it stands in. -/
def put (w : Write) : IO (Option Error) := do
  let writing : IO (Option Error) := do
    if let some dir := w.target.parent? then
      unless dir.spelling.isEmpty do IO.FS.createDirAll (toString dir)
    let handle ← IO.FS.Handle.mk (toString w.target) .write
    let failure ← w.blocks.feed fun block => handle.write (Disk.encode block)
    handle.flush
    return failure
  match ← attemptAt w.target writing with
  | .ok failure => return failure
  | .error fault => return some (.io fault)

/-- The machine as a host. -/
def host : Host IO where
  workingDirectory := return .ofString (← IO.currentDir).toString
  present := present
  read := read
  input := input
  put := put

/-- A line of the log as it is shown. -/
def logText (line : LogLine) : String :=
  let level := match line.level with
    | .debug => "DEBUG "
    | .info => " INFO "
    | .warn => " WARN "
  level ++ line.message

end Literate.Machine

open Literate in
/-- Runs the command that the arguments spell. -/
def main (arguments : List String) : IO UInt32 := do
  match Command.parse (arguments.map String.toList) with
  | .error e =>
    IO.eprintln ("error: " ++ e.message)
    return Execution.usageStatus.toUInt32
  | .ok command =>
    let execution ← command.run Machine.host
    for line in execution.log do IO.eprintln (Machine.logText line)
    IO.print execution.output
    unless execution.complaint.isEmpty do IO.eprintln execution.complaint
    return execution.status.toUInt32
