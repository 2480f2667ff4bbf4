import NameRecovery.Command.Run

/-!
# The program

The command line on the host the program runs on.
-/

namespace NameRecovery

/-- The cause of a refusal by the operating system. -/
def causeOf : IO.Error → File.Cause
  | .noFileOrDirectory .. => .notFound
  | .alreadyExists .. => .occupied
  | .inappropriateType .. => .isDirectory
  | .invalidArgument _ code _ => if code = 36 then .tooLong else .notDirectory
  | _ => .notDirectory

/-- An operation on a file that may be refused. -/
def attempt {α : Type} (location : File.Location) (action : IO α) : IO (Except File.Error α) := do
  if location.hasNull then return .error ⟨.nullCharacter, location.toText⟩
  else
    try
      return .ok (← action)
    catch e =>
      return .error ⟨causeOf e, location.toText⟩

/-- Can something at the location be opened? -/
def opens (location : File.Location) : IO Bool := do
  return (← attempt location (IO.FS.Handle.mk location.toText .read)).isOk

/-- Is there a file at the location?  A directory can be opened, but not read from. -/
def isFileAt (location : File.Location) : IO (Except File.Error Bool) := do
  match ← attempt location do (← IO.FS.Handle.mk location.toText .read).read 1 with
  | .ok _ => return .ok true
  | .error e => if e.cause = .tooLong then return .error e else return .ok false

/-- Is there a directory at the location? -/
def isDirectoryAt (location : File.Location) : IO Bool := do
  match ← isFileAt location with
  | .ok false => opens location
  | _ => return false

/-- The host the program runs on; the trace, once started, is kept in `trace`. -/
def systemHost (trace : IO.Ref (Option IO.FS.Handle)) : File.Host IO where
  isFile := isFileAt
  isDirectory := isDirectoryAt
  read location := attempt location (IO.FS.readBinFile location.toText)
  makeDirectory location := attempt location (IO.FS.createDir location.toText)
  write location text := attempt location (IO.FS.writeFile location.toText text)
  move origin target := attempt target (IO.FS.rename origin.toText target.toText)
  openTrace location := attempt location do
    trace.set (some (← IO.FS.Handle.mk location.toText .write))
  remark remarks := do
    if let some handle ← trace.get then
      for remark in remarks do
        handle.putStr remark.line
      handle.flush
  print text := do
    let stdout ← IO.getStdout
    stdout.putStr text
    stdout.flush
  complain text := do
    (← IO.getStderr).putStr text

/-- Answer the requests that come in, line by line. -/
partial def answerLines (host : File.Host IO) (config : Config) (stdin : IO.FS.Stream)
    (handled : Nat) : IO (Except Failure Unit) := do
  let line ← stdin.getLine
  if line.isEmpty then
    host.remark [Requests.closingRemark handled]
    return .ok ()
  else
    match Requests.answer? config line with
    | none => answerLines host config stdin handled
    | some (.error e) => return .error (.trouble e)
    | some (.ok (reply, remarks)) =>
      host.remark remarks
      host.print reply.line
      answerLines host config stdin (handled + 1)

end NameRecovery

open NameRecovery in
/-- Run the program with the words of its command line. -/
def main (words : List String) : IO UInt32 := do
  let host := systemHost (← IO.mkRef none)
  let serve := fun config => do answerLines host config (← IO.getStdin) 0
  match ← Command.run host serve words with
  | .ok status => return UInt32.ofNat status
  | .error failure =>
    host.complain (failure.message ++ "\n")
    return 1
