import RequestRouter.Event
import RequestRouter.Text.Alphabetic
import RequestRouter.Text.Blank

/-
  Filters that decide which events are logged.

  A filter is a list of directives with commas between them.
  A directive sets a threshold for all events, or for those
  whose target starts with a text.

  Key definitions include:
    * `Threshold`
    * `Directive.parse`
    * `LogFilter.parse`
    * `LogFilter.allows`

  Main statement:
    * `Threshold.ofWord?_word`
-/

------------------------------------------------------------
-- Thresholds
------------------------------------------------------------

namespace RequestRouter

/- The least important events that pass, few to many. -/
inductive Threshold where
  | off
  | error
  | warn
  | info
  | debug
  | trace
  deriving DecidableEq, Repr

namespace Threshold

/- The least rank of a level that passes. -/
def leastRank : Threshold → Nat
  | .off => 5
  | .error => 4
  | .warn => 3
  | .info => 2
  | .debug => 1
  | .trace => 0

/- Whether events of a level pass. -/
def admits
    (threshold : Threshold)
    (level : Level) : Bool :=
  threshold.leastRank ≤ level.rank

/- The threshold of a number, more events for higher ones. -/
def ofNumber? : Nat → Option Threshold
  | 0 => some .off
  | 1 => some .error
  | 2 => some .warn
  | 3 => some .info
  | 4 => some .debug
  | 5 => some .trace
  | _ => none

/- The number that a text of digits stands for. -/
def number?
    (text : Text) : Option Nat :=
  let digits :=
    match text with
    | '+' :: digits => digits
    | digits => digits
  if !digits.isEmpty && digits.all (·.isDigit) then
    some (digits.foldl
      (fun n c => 10 * n + (c.toNat - '0'.toNat)) 0)
  else none

/- The word for a threshold. -/
def word : Threshold → String
  | .off => "off"
  | .error => "error"
  | .warn => "warn"
  | .info => "info"
  | .debug => "debug"
  | .trace => "trace"

/- The threshold of a word in any case. -/
def ofWord?
    (word : Text) : Option Threshold :=
  let lower := word.map Char.toLower
  [off, error, warn, info, debug, trace].find? fun t =>
    t.word.toList == lower

/- A threshold is found by its word. -/
theorem ofWord?_word
    (threshold : Threshold) :
    ofWord? threshold.word.toList = some threshold := by
  cases threshold <;> rfl

/- The threshold of a number or word. -/
def parse?
    (text : Text) : Option Threshold :=
  match (number? text).bind ofNumber? with
  | some threshold => some threshold
  | none =>
      if text.isEmpty then some .error
      else ofWord? text

end Threshold

end RequestRouter

------------------------------------------------------------
-- Directives
------------------------------------------------------------

namespace RequestRouter

/-
  A directive. There are no spans in this program, so what
  is said about them concerns no event.
-/
inductive Directive where
  | all (threshold : Threshold)
  | target (stem : Text) (threshold : Threshold)
  | span
  deriving DecidableEq, Repr

/- Why a text is not a directive. -/
inductive DirectiveFault where
  | malformed
  | threshold
  deriving DecidableEq, Repr

namespace DirectiveFault

/- The report of a fault. -/
def message : DirectiveFault → String
  | .malformed => "invalid filter directive"
  | .threshold =>
      "error parsing level filter: expected one of " ++
        "\"off\", \"error\", \"warn\", \"info\", " ++
        "\"debug\", \"trace\", or a number 0-5"

end DirectiveFault

namespace Directive

/- Whether a character may start a directive. -/
def starts
    (c : Char) : Bool :=
  c == '-' || c == ':' || c == '_' || Text.isAlphanumeric c

/- The threshold behind a target and an equals sign. -/
def thresholdOf
    (text : Text) : Except DirectiveFault Threshold :=
  if text.isEmpty then .ok .trace
  else
    match Threshold.parse? text with
    | some threshold => .ok threshold
    | none => .error .threshold

/-
  Read a directive. Blanks around it are not looked at when
  its form is told, but they belong to its parts.
-/
def parse
    (text : Text) : Except DirectiveFault Directive :=
  match text.dropWhile Text.isBlank with
  | [] => .error .malformed
  | first :: _ =>
      if text.contains '[' then
        if text.contains ']' then .ok .span
        else .error .malformed
      else if !starts first then .error .malformed
      else if text.contains '=' then do
        let stem := text.takeWhile (· != '=')
        let behind := (text.dropWhile (· != '=')).tail
        let threshold ← thresholdOf behind
        .ok (.target stem threshold)
      else
        match Threshold.parse? text with
        | some threshold => .ok (.all threshold)
        | none => .ok (.target text .trace)

/- The target of a directive, and its threshold. -/
def rule? : Directive → Option (Text × Threshold)
  | .all threshold => some ([], threshold)
  | .target stem threshold => some (stem, threshold)
  | .span => none

end Directive

end RequestRouter

------------------------------------------------------------
-- Filters
------------------------------------------------------------

namespace RequestRouter

/-
  The thresholds for events by how their targets start, in
  order of their directives.
-/
structure LogFilter where
  rules : List (Text × Threshold)
  deriving DecidableEq, Repr

namespace LogFilter

/- The texts between commas that are not empty. -/
def splitDirectives
    (text : Text) : List Text :=
  (text.splitOn ',').filter (!·.isEmpty)

/- The filter of directives: errors only, without any. -/
def ofDirectives
    (directives : List Directive) : LogFilter :=
  match directives with
  | [] => ⟨[([], .error)]⟩
  | directives => ⟨directives.filterMap (·.rule?)⟩

/- The notice of a directive that is left out. -/
def notice
    (text : Text)
    (fault : DirectiveFault) : String :=
  "ignoring `" ++ String.ofList text ++ "`: " ++
    fault.message

/-
  Read a filter. Texts that are no directives are left out,
  each with a notice.
-/
def parse
    (text : Text) : LogFilter × List String :=
  let parts := (splitDirectives text).map fun part =>
    (part, Directive.parse part)
  let directives := parts.filterMap fun (_, read) =>
    read.toOption
  let notices := parts.filterMap fun (part, read) =>
    match read with
    | .ok _ => none
    | .error fault => some (notice part fault)
  (ofDirectives directives, notices)

/-
  The threshold for a target: that of its longest stem, and
  the last one given for it.
-/
def thresholdFor
    (filter : LogFilter)
    (target : Text) : Option Threshold :=
  let matching := filter.rules.filter
    (·.1.isPrefixOf target)
  (matching.foldl
    (fun best rule =>
      match best with
      | some (stem, threshold) =>
          if stem.length ≤ rule.1.length then some rule
          else some (stem, threshold)
      | none => some rule)
    none).map (·.2)

/- Whether an event is logged. -/
def allows
    (filter : LogFilter)
    (event : Event) : Bool :=
  match filter.thresholdFor event.target.toList with
  | some threshold => threshold.admits event.level
  | none => false

end LogFilter

end RequestRouter
