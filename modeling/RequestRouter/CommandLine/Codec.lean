import RequestRouter.CommandLine.JsonValue
import RequestRouter.RouteTable.Decode

/-
  What reads route tables and prints JSON.

  The commands use a codec as a parameter: they rest on no
  property of a reader or a printer.

  Key definitions include:
    * `Codec`
    * `Codec.standard`
-/

namespace RequestRouter

/-
  A codec: how a text becomes a route table, or the report
  why it does not, and how a JSON value is printed.
-/
structure Codec where
  decode : Text → Except String RouteTable
  pretty : JsonValue → String

/- The codec of this library, for tables in YAML. -/
def Codec.standard : Codec where
  decode text :=
    (RouteTable.parse text).mapError DecodeError.message
  pretty := JsonValue.pretty

end RequestRouter
