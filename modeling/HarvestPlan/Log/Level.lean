import HarvestPlan.Failure
import HarvestPlan.Text.Case

namespace HarvestPlan.Level

/-- A second name for a level comes after the one that is printed. -/
def named : List (String × Int) :=
  [("CRITICAL", 50), ("FATAL", 50), ("ERROR", 40), ("WARNING", 30), ("WARN", 30), ("INFO", 20),
    ("DEBUG", 10), ("NOTSET", 0)]

def standard : Int := 30

def unset : Int := 0

def name (level : Quantity) : String :=
  match named.find? fun entry => (Quantity.int entry.2).same level with
  | some (name, _) => name
  | none => "Level " ++ level.text

/-- A name that is taken by a text, which names no level. -/
def layoutName : String := "BASIC_FORMAT"

def layout : String := "%(levelname)s:%(name)s:%(message)s"

/-- A name that is taken by something which is no name at all. -/
def stylesName : String := "_STYLES"

/-- The level that a name in any case stands for. An unknown name stands for the standard one. -/
def ofName (name : String) : Except Failure Int :=
  let upper := Text.upperAscii name
  if upper = layoutName then .error (.refused (.unknownLevel layout))
  else if upper = stylesName then .error .wrongKind
  else .ok ((named.lookup upper).getD standard)

end HarvestPlan.Level
