import RequestRouter.CommandLine.Program
import RequestRouter.Regex.Engine

/-
  The executable: it reads the file of a command, runs it
  and prints the transcript.
-/

------------------------------------------------------------
-- Input and Output
------------------------------------------------------------

namespace RequestRouter

namespace Executable

/- What the program can be asked for. -/
def usage : String :=
  "Usage: switchyard [OPTIONS] <COMMAND>\n\n" ++
    "Commands:\n" ++
    "  match   -r FILE -p PATH [-m METHOD] [--format FORMAT]\n" ++
    "  check   -r FILE\n" ++
    "  routes  -r FILE\n\n" ++
    "Options:\n" ++
    "  --log-level LEVEL    which events are logged\n" ++
    "  --log-format FORMAT  json or pretty\n" ++
    "  -h, --help           print this text\n" ++
    "  -V, --version        print the version\n"

/-
  The reason that the number of a system error tells. Some
  calls give the number with the opposite sign.
-/
def ofCode
    (code : UInt32)
    (details : String) : ReadError :=
  let number := if code < 0x80000000 then code else 0 - code
  if number = 20 then .notDirectory
  else if number = 21 then .isDirectory
  else .other details

/- The reason behind a failed system call. -/
def readError : IO.Error → ReadError
  | .noFileOrDirectory _ _ _ => .notFound
  | .inappropriateType _ code details => ofCode code details
  | error => .other (toString error)

/- The text of a file. -/
def readContent
    (file : Text) : IO FileContent := do
  try
    let bytes ← IO.FS.readBinFile (String.ofList file)
    match String.fromUTF8? bytes with
    | some text => return .ok text.toList
    | none => return .error .invalidText
  catch error =>
    return .error (readError error)

/- Print a transcript: the log before the outcome. -/
def report
    (transcript : Transcript) : IO UInt32 := do
  for line in transcript.notices ++ transcript.logLines do
    IO.eprintln line
  IO.print transcript.outcome.stdout
  IO.eprint transcript.outcome.stderr
  return UInt32.ofNat transcript.outcome.code

end Executable

end RequestRouter

------------------------------------------------------------
-- Entry Point
------------------------------------------------------------

open RequestRouter Executable

/- Run the program on its arguments. -/
def main
    (arguments : List String) : IO UInt32 := do
  match Request.ofArguments (arguments.map (·.toList)) with
  | .misuse =>
      IO.eprint usage
      return 2
  | .help =>
      IO.print usage
      return 0
  | .version => report Invocation.versionTranscript
  | .run invocation =>
      let content ← readContent invocation.command.file
      report (invocation.run Regex.engine content)
