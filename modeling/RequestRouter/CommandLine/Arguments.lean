import RequestRouter.Text

/-
  The arguments of the program.

  Options of the log may stand before and behind the name of
  a command, and the latter win. An option takes the rest of
  its argument or the next argument as its value, and may be
  given once. A value of its own argument does not start
  with a dash, unless it is nothing else.

  Key definitions include:
    * `Command`
    * `Invocation`
    * `Request`
    * `Request.ofArguments`
-/

------------------------------------------------------------
-- Requests
------------------------------------------------------------

namespace RequestRouter

/- What to do with the route table of a file. -/
inductive Command where
  | find (routes method path format : Text)
  | check (routes : Text)
  | list (routes : Text)
  deriving DecidableEq, Repr

/- A command with the options of the log. -/
structure Invocation where
  logLevel : Text
  logFormat : Text
  command : Command
  deriving DecidableEq, Repr

/- What arguments ask for; `misuse` is for wrong ones. -/
inductive Request where
  | misuse
  | help
  | version
  | run (invocation : Invocation)
  deriving DecidableEq, Repr

end RequestRouter

------------------------------------------------------------
-- Options
------------------------------------------------------------

namespace RequestRouter

/- The options that take a value. -/
inductive OptionName where
  | logLevel
  | logFormat
  | routes
  | method
  | path
  | format
  deriving DecidableEq, Repr

/- An option, or a flag that asks for information. -/
inductive Switch where
  | value (name : OptionName)
  | help
  | version
  deriving DecidableEq, Repr

/-
  What can be given at one level: its switches by long name,
  and by letter.
-/
structure Grammar where
  long : List (Text × Switch)
  short : List (Char × Switch)

namespace Grammar

/- The switches of every level. -/
def common : List (Text × Switch) :=
  [("log-level".toList, .value .logLevel),
    ("log-format".toList, .value .logFormat),
    ("help".toList, .help)]

/- The switches before the command. -/
def top : Grammar :=
  { long := ("version".toList, .version) :: common
    short := [('h', .help), ('V', .version)] }

/- The switches of the commands that take a file only. -/
def file : Grammar :=
  { long := ("routes".toList, .value .routes) :: common
    short := [('h', .help), ('r', .value .routes)] }

/- The switches of the command that matches a request. -/
def find : Grammar :=
  { long :=
      [("method".toList, .value .method),
        ("path".toList, .value .path),
        ("format".toList, .value .format)] ++ file.long
    short :=
      [('m', .value .method), ('p', .value .path)] ++
        file.short }

end Grammar

/- The values of options. -/
abbrev OptionValues :=
  List (OptionName × Text)

/- What one argument says. -/
inductive ArgumentReading where
  | word (text : Text)
  | separator
  | misuse
  | help
  | version
  | option (name : OptionName) (value : Option Text)
  deriving DecidableEq, Repr

namespace ArgumentReading

/- A switch with the value in its argument, if any. -/
def ofSwitch
    (value : Option Text) : Switch → ArgumentReading
  | .value name => .option name value
  | .help => if value.isSome then .misuse else .help
  | .version => if value.isSome then .misuse else .version

/- The reading of a long option behind its dashes. -/
def ofLong
    (grammar : Grammar)
    (text : Text) : ArgumentReading :=
  let name := text.takeWhile (· != '=')
  let value :=
    if text.contains '=' then
      some (text.dropWhile (· != '=')).tail
    else none
  match grammar.long.lookup name with
  | some switch => ofSwitch value switch
  | none => .misuse

/- The reading of short options behind their dash. -/
def ofShort
    (grammar : Grammar) : Text → ArgumentReading
  | [] => .word ['-']
  | c :: rest =>
      match grammar.short.lookup c, rest with
      | some (.value name), [] => .option name none
      | some (.value name), '=' :: value =>
          .option name (some value)
      | some (.value name), value =>
          .option name (some value)
      | some .help, _ => .help
      | some .version, _ => .version
      | none, _ => .misuse

/- The reading of an argument. -/
def ofArgument
    (grammar : Grammar) : Text → ArgumentReading
  | ['-', '-'] => .separator
  | '-' :: '-' :: text => ofLong grammar text
  | '-' :: text => ofShort grammar text
  | text => .word text

end ArgumentReading

end RequestRouter

------------------------------------------------------------
-- Levels
------------------------------------------------------------

namespace RequestRouter

/-
  How the arguments of a level end: in a word with the
  arguments behind it, or without one.
-/
inductive LevelEnd where
  | misuse
  | help
  | version
  | word (values : OptionValues) (text : Text)
      (rest : List Text)
  | last (values : OptionValues)

/- Add a value, unless the option or file name is refused. -/
def addValue
    (values : OptionValues)
    (name : OptionName)
    (value : Text) : Option OptionValues :=
  if values.any (·.1 == name) then none
  else if name = .routes ∧ value = [] then none
  else some (values ++ [(name, value)])

/- Whether an argument can be the value of an option. -/
def isValue : Text → Bool
  | ['-'] => true
  | '-' :: _ => false
  | _ => true

/-
  Read the arguments of a level, up to the first word.
  Behind a separator there may not be anything.
-/
def readLevel
    (grammar : Grammar)
    (values : OptionValues) : List Text → LevelEnd
  | [] => .last values
  | argument :: rest =>
      match ArgumentReading.ofArgument grammar argument with
      | .word text => .word values text rest
      | .separator =>
          if rest.isEmpty then .last values else .misuse
      | .misuse => .misuse
      | .help => .help
      | .version => .version
      | .option name (some value) =>
          match addValue values name value with
          | some values => readLevel grammar values rest
          | none => .misuse
      | .option name none =>
          match rest with
          | [] => .misuse
          | value :: rest =>
              if !isValue value then .misuse
              else
                match addValue values name value with
                | some values => readLevel grammar values rest
                | none => .misuse

end RequestRouter

------------------------------------------------------------
-- Commands
------------------------------------------------------------

namespace RequestRouter

/- The commands by what they do. -/
inductive CommandName where
  | find
  | check
  | list
  deriving DecidableEq, Repr

namespace CommandName

/- The command of a word. -/
def ofWord?
    (word : Text) : Option CommandName :=
  [("match".toList, find), ("check".toList, check),
    ("routes".toList, list)].lookup word

/- The switches of a command. -/
def grammar : CommandName → Grammar
  | .find => Grammar.find
  | .check => Grammar.file
  | .list => Grammar.file

/- The command with the values of its options, if enough. -/
def withValues?
    (name : CommandName)
    (values : OptionValues) : Option Command := do
  let routes ← values.lookup .routes
  match name with
  | .check => some (.check routes)
  | .list => some (.list routes)
  | .find =>
      let path ← values.lookup .path
      let method :=
        (values.lookup .method).getD "GET".toList
      let format :=
        (values.lookup .format).getD "text".toList
      some (.find routes method path format)

end CommandName

/- The value of an option, from the inner level first. -/
def valueOr
    (inner outer : OptionValues)
    (name : OptionName)
    (initial : String) : Text :=
  ((inner ++ outer).lookup name).getD initial.toList

namespace Request

/- What the arguments behind the name of a command ask for. -/
def ofCommand
    (outer : OptionValues)
    (name : CommandName)
    (arguments : List Text) : Request :=
  match readLevel name.grammar [] arguments with
  | .misuse => .misuse
  | .help => .help
  | .version => .version
  | .word _ _ _ => .misuse
  | .last inner =>
      match name.withValues? inner with
      | some command =>
          .run
            { logLevel := valueOr inner outer .logLevel "warn"
              logFormat :=
                valueOr inner outer .logFormat "json"
              command }
      | none => .misuse

/- What the arguments behind the word for help ask for. -/
def ofHelp : List Text → Request
  | [] => .help
  | [word] =>
      if (CommandName.ofWord? word).isSome ||
          word == "help".toList then .help
      else .misuse
  | _ => .misuse

/- What arguments ask for. -/
def ofArguments
    (arguments : List Text) : Request :=
  match readLevel Grammar.top [] arguments with
  | .misuse => .misuse
  | .help => .help
  | .version => .version
  | .last _ => .misuse
  | .word outer word rest =>
      if word = "help".toList then ofHelp rest
      else
        match CommandName.ofWord? word with
        | some name => ofCommand outer name rest
        | none => .misuse

end Request

end RequestRouter
