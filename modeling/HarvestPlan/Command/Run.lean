import HarvestPlan.Command.Request
import HarvestPlan.Log.Logger
import HarvestPlan.Planning
import HarvestPlan.SizeText
import HarvestPlan.SplitReader
import HarvestPlan.Store.Load
import HarvestPlan.Store.Opening

namespace HarvestPlan.Command

open Json (Value)

inductive Ending where
  | status (code : Nat)
  | brokenOff (failure : Failure)
deriving Repr

structure Outcome where
  out : List String
  err : List String
  ending : Ending
deriving Repr

namespace Outcome

def printed (out err : List String) : Outcome := ⟨out, err, .status 0⟩

def refused (text : String) : Outcome := ⟨[], [text], .status 1⟩

def interruptedText : String := "\n\nInterrupted! No plan was written."

/-- A failure is reported, an interrupt acknowledged, and anything else not caught. -/
def ofFailure (failure : Failure) : Outcome :=
  match failure with
  | .interrupted => refused interruptedText
  | failure =>
    if failure.isReported then refused ("Error: " ++ failure.message)
    else ⟨[], [], .brokenOff failure⟩

def usageStatus : Nat := 2

def ofStop : Stop → Outcome
  | .help _ => printed [] []
  | .misuse program fault => ⟨[], [usageMessage program fault], .status usageStatus⟩

def ofResult (result : Except Failure Outcome) : Outcome :=
  match result with
  | .ok outcome => outcome
  | .error failure => ofFailure failure

end Outcome

def ruler : String := String.ofList (repeated 60 '=')

def splitLines (splits : List Split) : Except Failure (List String) :=
  splits.zipIdx.mapM fun (split, i) => do
    let size ← SizeText.ofQuantity split.totalBytes
    pure ("  [" ++ toString i ++ "] " ++ split.load.text ++ " entries, " ++ size)

def shownWarnings : Nat := 10

def warningLines (warning : Warning) : List String :=
  ["  [" ++ warning.kind.name ++ "] " ++ warning.path, "    " ++ warning.text]

def warningBlock (warnings : List Warning) : List String :=
  let count := warnings.length
  let rest :=
    if shownWarnings < count then
      ["  ... and " ++ toString (count - shownWarnings) ++ " more warnings"]
    else []
  if count = 0 then []
  else ["\n--- Warnings (" ++ toString count ++ ") ---"] ++
    (warnings.take shownWarnings).flatMap warningLines ++ rest

def planReport (planned : Planned) (cap : Int) (file : String) : Except Failure (List String) := do
  let size ← planned.result.totalBytes >>= SizeText.ofQuantity
  let splits ← splitLines planned.plan.splits
  pure ([ruler, "SPLIT PLAN", ruler,
      "Entries harvested: " ++ toString planned.result.entries.length ++ " (" ++ size ++ ")",
      "Splits: " ++ toString planned.plan.size ++ " (max " ++ toString cap ++ " entries each)"] ++
    splits ++ warningBlock planned.result.warnings ++ ["\nPlan written to: " ++ file])

/-- The path of a file; a blank one is named as it is shown. -/
def filePath (file : Setting String) : String := (file.toValue .str).text

def publish (surroundings : Surroundings) (config : Config) (store : Store) (file : String) :
    Store × Outcome :=
  match Planned.publish surroundings config .never store with
  | (store, .error stopped) => (store, .ofFailure stopped.cause)
  | (store, .ok planned) => (store, .ofResult do
    let report ← planReport planned config.cap file
    pure (.printed report []))

/-- The file is there after the store has been opened, whatever becomes of the plan. -/
def runPlan (surroundings : Surroundings) (folder : Folder) (request : PlanRequest) :
    Folder × Outcome :=
  match request.toConfig with
  | .error failure => (folder, .ofFailure failure)
  | .ok config => match folder.openStore (filePath request.file) with
    | (folder, .error failure) => (folder, .ofFailure failure)
    | (folder, .ok opened) =>
      let (store, outcome) := publish surroundings config opened.store (filePath request.file)
      (folder.keep opened.backing store, outcome)

def errorLine (error : RecordError) : String :=
  "Warning: entry " ++ toString error.position ++ " (" ++ error.fullPath.text ++ "): " ++
    error.text.text

def emitSplit (split : Split) : Except Failure Outcome := do
  let reader ← SplitReader.ofSplit split
  let (records, ended) := reader.drain
  pure (.printed (records.map fun record => Json.write (.obj record))
    (ended.errors.map errorLine))

def emitStored (folder : Folder) (file : String) (split : Value) : Folder × Outcome :=
  match folder.openStore file with
  | (folder, .error failure) => (folder, .ofFailure failure)
  | (folder, .ok opened) => (folder, .ofResult do emitSplit (← opened.store.split split))

def runEmit (folder : Folder) (request : EmitRequest) : Folder × Outcome :=
  match request.file with
  | .blank => (folder, .ofFailure .lacksOperation)
  | .given file => match folder.holds file with
    | .error failure => (folder, .ofFailure failure)
    | .ok false => (folder, .refused ("Error: Plan database does not exist: " ++ file))
    | .ok true => emitStored folder file (request.split.toValue .int)

def runSchema (backend : Setting BackendType) : Outcome :=
  match Entry.recordSchema (backend.toValue fun backend => .str backend.tag) with
  | .ok fields => .printed (fields.map fun (name, type) => name ++ "\t" ++ type) []
  | .error fault => .ofFailure (.entry fault)

def runRequest (surroundings : Surroundings) (folder : Folder) : Request → Folder × Outcome
  | .plan request => runPlan surroundings folder request
  | .emit request => runEmit folder request
  | .schema backend => (folder, runSchema backend)

def levelName (given : OptionalText) (environment : Option String) : Except Failure String :=
  match given with
  | none => .ok (Loggers.chosenLevel none environment)
  | some (.given level) => .ok (Loggers.chosenLevel (some level) environment)
  | some .blank => .error .lacksOperation

/-- The log is set up before the request is run; a level that cannot be set breaks off. -/
def run (surroundings : Surroundings) (environmentLevel : Option String) (folder : Folder)
    (arguments : List String) : Folder × Outcome :=
  match Invocation.ofArguments arguments with
  | .error stop => (folder, .ofStop stop)
  | .ok invocation =>
    let ready := do
      Loggers.bare.setUp Loggers.programName (← levelName invocation.logLevel environmentLevel)
    match ready with
    | .error failure => (folder, ⟨[], [], .brokenOff failure⟩)
    | .ok _ => runRequest surroundings folder invocation.request

end HarvestPlan.Command
