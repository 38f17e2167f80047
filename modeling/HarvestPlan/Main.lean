import HarvestPlan.Command.Run
import HarvestPlan.Storage.Survey
import HarvestPlan.Store.Archive

namespace HarvestPlan.Command

open Json (Value)

def surroundingsOf (line : String) : Surroundings :=
  match Json.read line with
  | .ok (.obj survey) =>
    Survey.surroundings (Json.Fields.findOrNull survey "vfs") (Json.Fields.findOrNull survey "s3")
  | _ => Survey.surroundings .null .null

def request? (arguments : List String) : Option Request :=
  (Invocation.ofArguments arguments).toOption.map (·.request)

def Request.storePath? : Request → Option String
  | .plan request => some (filePath request.file)
  | .emit request => some (filePath request.file)
  | .schema _ => none

def filesOf (path : String) : List Octets :=
  let printed := Octets.ofText (Path.printed path)
  match Location.ofName path with
  | .ok (.file opening) => match Folder.fileAt? [] opening.path with
    | some file =>
      [printed, file, Folder.journalOf file, Folder.logOf file, Folder.indexOf file,
        Folder.markOf file] ++ opening.model.toList
    | none => [printed]
  | _ => [printed]

def fileNames (request : Request) : List String :=
  ((request.storePath?.toList.flatMap filesOf).filterMap Octets.text?).eraseDups

def readFolder (names : List String) : IO Folder := do
  let mut folder : Folder := []
  for name in names do
    try
      let text ← IO.FS.readFile name
      folder := folder.put (Octets.ofText name) (.ofText text)
    catch _ => pure ()
  return folder

def writeFolder (names : List String) (before kept : Folder) : IO Unit := do
  for name in names do
    let file := Octets.ofText name
    match kept.content? file with
    | some content =>
      if before.content? file ≠ some content then IO.FS.writeFile name content.toText
    | none => if before.isFile file then IO.FS.removeFile name

def readSurvey (request : Option Request) : IO Surroundings := do
  match request with
  | some (.plan _) => return surroundingsOf (← (← IO.getStdin).getLine)
  | _ => return surroundingsOf ""

def report (outcome : Outcome) : IO UInt32 := do
  for text in outcome.out do
    IO.println text
  for text in outcome.err do
    IO.eprintln text
  match outcome.ending with
  | .status code => return code.toUInt32
  | .brokenOff failure =>
    IO.eprintln failure.message
    return 1

def start (arguments : List String) : IO UInt32 := do
  let request := request? arguments
  let names := (request.map fileNames).getD []
  let folder ← readFolder names
  let survey ← readSurvey request
  let (kept, outcome) := run survey (← IO.getEnv "LOG_LEVEL") folder arguments
  writeFolder names folder kept
  report outcome

end HarvestPlan.Command

def main (arguments : List String) : IO UInt32 := HarvestPlan.Command.start arguments
