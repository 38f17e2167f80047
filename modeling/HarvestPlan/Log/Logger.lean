import HarvestPlan.Log.Level
import HarvestPlan.Log.Secret
import HarvestPlan.Log.Template
import HarvestPlan.Log.Timestamp
import HarvestPlan.Text.Segments

namespace HarvestPlan

open Json (Value)

structure LogRecord where
  level : Quantity
  message : Value
  arguments : Value
  created : Quantity

/-- The handler, once there is one, has a level of its own. -/
structure Logger where
  name : String
  level : Int
  handlerLevel : Option Int
deriving Repr, DecidableEq

structure Loggers where
  known : List Logger
deriving Repr, DecidableEq

namespace Loggers

def bare : Loggers := ⟨[]⟩

def rootName : String := "root"

def canonicalName (name : String) : String := if name.isEmpty then rootName else name

def find? (loggers : Loggers) (name : String) : Option Logger :=
  loggers.known.find? fun logger => logger.name == name

def rootLevel (loggers : Loggers) : Int :=
  ((loggers.find? rootName).map (·.level)).getD Level.standard

def freshLogger (name : String) : Logger :=
  ⟨name, if name = rootName then Level.standard else Level.unset, none⟩

def put (loggers : Loggers) (logger : Logger) : Loggers :=
  ⟨logger :: loggers.known.filter fun other => other.name ≠ logger.name⟩

/-- The names that the dotted segments of a name lead to, the longest first. -/
def namesUp (segments : List (List Char)) : List String :=
  (List.range segments.length).map fun n =>
    String.ofList (Text.join '.' (segments.take (segments.length - n)))

def effectiveLevel (loggers : Loggers) (name : String) : Int :=
  let levels := (namesUp (Text.cut '.' name.toList)).filterMap fun name =>
    (loggers.find? name).map (·.level)
  if name = rootName then loggers.rootLevel
  else (levels.find? (· ≠ Level.unset)).getD loggers.rootLevel

def programName : String := "metadata_splitter"

def chosenLevel (given environment : Option String) : String :=
  (given.orElse fun _ => environment).getD (Level.name (.int Level.standard))

def setUp (loggers : Loggers) (name levelName : String) : Except Failure (Logger × Loggers) := do
  let level ← Level.ofName levelName
  let name := canonicalName name
  let logger := (loggers.find? name).getD (freshLogger name)
  let ready := { logger with
    level := level
    handlerLevel := some (logger.handlerLevel.getD level) }
  pure (ready, loggers.put ready)

end Loggers

namespace LogRecord

/-- One object alone gives its values by name, unless it is empty. -/
def supplied : Value → Value
  | .arr [.obj (field :: fields)] => .obj (field :: fields)
  | arguments => arguments

/-- The message with its arguments, after secrets in either have been masked. A template without
    arguments is not filled. -/
def message? (record : LogRecord) : Option String :=
  let message := (Secret.maskValue record.message).text
  let arguments := supplied record.arguments
  if arguments.isEmpty then some message
  else Template.fill? message (Secret.maskArguments arguments)

def line? (record : LogRecord) (name : String) : Option String := do
  let time ← Timestamp.text? record.created
  let message ← record.message?
  pure (time ++ " - " ++ name ++ " - " ++ Level.name record.level ++ " - " ++ message ++ "\n")

/-- What a logger's handler writes of a record: nothing for one below either level, or one whose
    message cannot be made. -/
def written (record : LogRecord) (logger : Logger) (effective : Int) : String :=
  let reaches (level : Int) : Bool := (Quantity.int level).atMost record.level
  let passes := (Quantity.int Level.unset).less record.level && reaches effective &&
    logger.handlerLevel.any reaches
  if passes then (record.line? logger.name).getD "" else ""

end LogRecord
end HarvestPlan
