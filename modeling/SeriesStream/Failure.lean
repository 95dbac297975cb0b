import SeriesStream.Settings
import SeriesStream.Text.Quoted

namespace SeriesStream

/-- Why the text of a file is not to be had. -/
inductive FileError
  | missing
  /-- Its bytes encode no text. -/
  | notText
  deriving DecidableEq, Repr

def FileError.message : FileError → String
  | missing => "No such file or directory (os error 2)"
  | notText => "stream did not contain valid UTF-8"

/-- Why the program gives up. -/
inductive Failure
  | query (e : QueryError)
  | settings (e : SettingsError)
  | file (e : FileError)
  /-- A number is too large to be written down. -/
  | unwritable
  deriving DecidableEq, Repr

namespace Failure

def name : Failure → String
  | query _ => "Query"
  | settings _ => "Configuration"
  | file _ => "Io"
  | unwritable => "Serialization"

/-- The failure as a sentence. -/
def render : Failure → String
  | query e => "Query error: " ++ e.render
  | settings e => "Configuration error: " ++ e.message
  | file e => "IO error: " ++ e.message
  | unwritable => "Serialization error: the number is out of range"

/-- The failure as the last line of a run. -/
def report : Failure → String
  | settings e => "Configuration(" ++ Text.quoted e.message ++ ")"
  | f => f.name

end Failure

end SeriesStream
