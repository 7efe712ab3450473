import UmlSchema.Text.Basic

/-! Log records. Each part of the generator writes under a name of its own. -/
namespace UmlSchema

inductive LogLevel where
  | debug
  | warning
  deriving DecidableEq, Repr

def LogLevel.label : LogLevel → Text
  | debug => "DEBUG"
  | warning => "WARNING"

inductive LogSource where
  | reading
  | types
  | fields
  | declarations
  | documents
  | warnings
  deriving DecidableEq, Repr

def LogSource.label : LogSource → Text
  | reading => "gql_idlgen.core.reader"
  | types => "gql_idlgen.core.cardinality"
  | fields => "gql_idlgen.core.flattener"
  | declarations => "gql_idlgen.core.emitters"
  | documents => "gql_idlgen.core.generator"
  | warnings => "gql_idlgen.core.diagnostics"

structure LogRecord where
  level : LogLevel
  source : LogSource
  message : Text
  deriving DecidableEq, Repr

def LogRecord.render (r : LogRecord) : Text :=
  r.level.label ++ " " ++ r.source.label ++ ": " ++ r.message

end UmlSchema
