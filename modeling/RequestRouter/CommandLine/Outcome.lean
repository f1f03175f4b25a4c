import RequestRouter.CommandLine.Directory
import RequestRouter.RouteTable.Basic

/-
  What a command leaves behind, and why it may fail.

  Key definitions include:
    * `CommandError`
    * `CommandError.report`
    * `Outcome`
-/

------------------------------------------------------------
-- Errors
------------------------------------------------------------

namespace RequestRouter

/- Why a command cannot be carried out. -/
inductive CommandError where
  | read (file : Text) (error : ReadError)
  | decode (file : Text) (reason : String)
  | build (error : BuildError)
  | serve (file : Text) (error : RouteError)
  deriving DecidableEq, Repr

namespace CommandError

/-
  The report of an error with all its causes. Where the
  report of an error ends in its cause, that is told twice.
-/
def report : CommandError → String
  | .read file error =>
      "failed to read " ++ String.ofList file ++ ": " ++
        error.message ++ ": " ++ error.message
  | .decode file reason =>
      "failed to parse " ++ String.ofList file ++ ": " ++
        reason ++ ": " ++ reason
  | .build error => error.message ++ ": " ++ error.cause
  | .serve file error =>
      String.ofList file ++ " can not be served: " ++
        error.message

end CommandError

end RequestRouter

------------------------------------------------------------
-- Outcomes
------------------------------------------------------------

namespace RequestRouter

/- The exit code of a command and what it prints. -/
structure Outcome where
  code : Nat := 0
  stdout : String := ""
  stderr : String := ""
  deriving DecidableEq, Repr

namespace Outcome

/- The outcome of a failure. -/
def failure
    (report : String) : Outcome :=
  { code := 1, stderr := "error: " ++ report ++ "\n" }

end Outcome

end RequestRouter
