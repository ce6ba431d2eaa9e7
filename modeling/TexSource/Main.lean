import TexSource.CommandLine.Session
import TexSource.FileSystem.Survey

/-!
# The program

Calls the program with the arguments of the process and writes what it leaves behind.
The call is repeated until all files that it asks for were looked at.
-/

namespace TexSource

namespace CommandLine

/-- The line that is shown when no subcommand is given. -/
def usage : Text :=
  "usage: texloom [-h] \x7bcheck,deps,expand,highlight,format,parse\x7d ..."

/-- The file that was not looked at before a call failed, if that is the cause. -/
def Failure.unseen? : Failure → Option Path
  | file (.system .noSuchFile path) => some path
  | document (.file (.system .noSuchFile path)) => some path
  | dependencies (.file (.system .noSuchFile path)) => some path
  | _ => none

/-- The message of a failure. -/
def Failure.message : Failure → Text
  | file error => error.message
  | encoding fault => "no UTF-8 at byte " ++ Text.ofNat fault.offset ++ " of the configuration"
  | document (.file error) => error.message
  | document (.number error) => error.message
  | document .missingLimit => "a macro is called, but a limit on calls is blank"
  | dependencies (.file error) => error.message
  | dependencies .noSuchArgument => "a rule names no argument"
  | blankCategory => "a category is blank"
  | blankIndent => "code is to be indented, but the indentation unit is blank"

/-- The fault that an error of the system stands for. -/
def faultOf : IO.Error → FileFault
  | .permissionDenied .. => .permissionDenied
  | .inappropriateType .. => .isDirectory
  | _ => .noSuchFile

/-- What is found at a path. -/
def look (path : Path) : IO (Except FileFault (List UInt8)) := do
  try
    let contents ← IO.FS.readBinFile (path.toText.toString?.getD "")
    return .ok contents.toList
  catch error => return .error (faultOf error)

/-- Adds to a survey what lies at paths and at their canonical forms. -/
def explore (survey : FileSystem.Survey) (paths : List Path) : IO FileSystem.Survey :=
  paths.foldlM (fun survey path => do
    let canonical := path.canonical survey.currentDirectory
    return (survey.add path (← look path)).add canonical (← look canonical)) survey

/-- Calls the program until it asks for no file that was not looked at. -/
partial def callWith (survey : FileSystem.Survey) (standardInput : List UInt8)
    (arguments : List Text) : IO (Except Stop Outcome) := do
  let answer := call survey.toFileSystem standardInput arguments
  match answer with
  | .error (.failed failure) =>
    match failure.unseen? with
    | some path => callWith (← explore survey [path]) standardInput arguments
    | none => return answer
  | _ => return answer

/-- The bytes of a stream behind those already read. -/
partial def readAll (stream : IO.FS.Stream) (read : ByteArray) : IO (List UInt8) := do
  let more ← stream.read 65536
  if more.isEmpty then return read.toList else readAll stream (read ++ more)

/-- Writes a text as bytes. -/
def writeTo (stream : IO.FS.Stream) (text : Text) : IO Unit :=
  stream.write ⟨text.encode.toArray⟩

/-- Writes what a call put out, and answers with its exit code. -/
def writeOutcome (outcome : Outcome) : IO UInt32 := do
  writeTo (← IO.getStdout) outcome.output
  writeTo (← IO.getStderr) outcome.errors
  return UInt32.ofNat outcome.exitCode

/-- Runs the program on the files of the system. -/
def program (words : List String) : IO UInt32 := do
  let arguments := words.map Text.ofString
  let inputs := match readArguments arguments with
    | .ok request => Configuration.inputs request
    | .error _ => []
  let unread ←
    if inputs.contains standardInput then readAll (← IO.getStdin) ByteArray.empty else pure []
  let currentDirectory := Path.ofText (Text.ofString (← IO.currentDir).toString)
  let survey ← explore ⟨currentDirectory, []⟩ (inputs.map Path.ofText)
  match ← callWith survey unread arguments with
  | .ok outcome => writeOutcome outcome
  | .error (.dismissed .help) => writeOutcome ⟨0, Session.line usage, []⟩
  | .error (.dismissed _) => writeOutcome ⟨2, [], Session.line usage⟩
  | .error (.failed failure) =>
    writeOutcome ⟨1, [], Session.line ("error: " ++ failure.message)⟩

end CommandLine

end TexSource

/-- The program. -/
def main (words : List String) : IO UInt32 :=
  TexSource.CommandLine.program words
