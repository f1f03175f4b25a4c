import RequestRouter.Text

/-
  Files and why they cannot be read.

  Key definitions include:
    * `ReadError`
    * `Directory`
    * `Directory.read`
-/

------------------------------------------------------------
-- Errors
------------------------------------------------------------

namespace RequestRouter

/- Why there is no text at a path. -/
inductive ReadError where
  | notFound
  | notDirectory
  | isDirectory
  | invalidText
  | other (reason : String)
  deriving DecidableEq, Repr

namespace ReadError

/- The report of an error. -/
def message : ReadError → String
  | .notFound => "No such file or directory (os error 2)"
  | .notDirectory => "Not a directory (os error 20)"
  | .isDirectory => "Is a directory (os error 21)"
  | .invalidText => "stream did not contain valid UTF-8"
  | .other reason => reason

end ReadError

end RequestRouter

------------------------------------------------------------
-- Directories
------------------------------------------------------------

namespace RequestRouter

/- The working directory, which holds files only. -/
structure Directory where
  files : List (Text × Text)
  deriving DecidableEq, Repr

namespace Directory

/-
  The names that a path goes through. Empty names and single
  dots stay where they are.
-/
def steps
    (path : Text) : List Text :=
  (path.splitOn '/').filter fun name =>
    !name.isEmpty && name != ['.']

/- Whether a path can only be a directory's. -/
def wantsDirectory
    (path : Text) : Bool :=
  match (path.splitOn '/').getLast? with
  | some name => name.isEmpty || name == ['.']
  | none => false

/-
  Read the text at a path. A path that leaves the directory
  leads to other directories, of which nothing is known.
-/
def read
    (directory : Directory)
    (path : Text) : Except ReadError Text :=
  match steps path with
  | [] =>
      if path.isEmpty then .error .notFound
      else .error .isDirectory
  | name :: rest =>
      if name = ['.', '.'] then
        if rest.all (· == ['.', '.']) then
          .error .isDirectory
        else .error .notFound
      else if path.head? = some '/' then .error .notFound
      else
        match directory.files.lookup name with
        | none => .error .notFound
        | some text =>
            if rest.isEmpty && !wantsDirectory path then
              .ok text
            else .error .notDirectory

end Directory

end RequestRouter
