import HarvestPlan.Command.Reading
import HarvestPlan.Config
import HarvestPlan.Path.Local

namespace HarvestPlan.Command

open Json (Value)

def program : String := "metadata-splitter"

def defaultFile : String := "split_plan.db"

abbrev OptionalText := Option (Setting String)

namespace OptionalText

def toValue : OptionalText → Value
  | none => .null
  | some text => text.toValue .str

end OptionalText

/-- Paths of database files are kept as they are printed. -/
structure PlanRequest where
  sourcePaths : List String
  file : Setting String
  recursive : Bool
  cap : Setting Int
  backend : Setting BackendType
  fsUri : Setting String
  bucket : OptionalText
  accessKey : OptionalText
  secretKey : OptionalText
  region : OptionalText
  endpointUrl : OptionalText
  progress : Bool
deriving Repr, DecidableEq

structure EmitRequest where
  file : Setting String
  split : Setting Int
deriving Repr, DecidableEq

inductive Request where
  | plan (request : PlanRequest)
  | emit (request : EmitRequest)
  | schema (backend : Setting BackendType)
deriving Repr, DecidableEq

structure Invocation where
  logLevel : OptionalText
  request : Request
deriving Repr, DecidableEq

def integerValue (text : String) : Except ArgumentFault Int :=
  match Text.integer? text with
  | some n => .ok n
  | none => .error (.notInteger text)

def choiceValue {α : Type} (choices : List (String × α)) (text : String) :
    Except ArgumentFault α :=
  match choices.lookup text with
  | some choice => .ok choice
  | none => .error (.notAChoice text (choices.map (·.1)))

def storageNames : List (String × BackendType) := [("local", .localFiles), ("s3", .amazonS3)]

def storageName : BackendType → String
  | .localFiles => "local"
  | .amazonS3 => "s3"

def tagNames : List (String × BackendType) := BackendType.all.map fun backend =>
  (backend.tag, backend)

variable {σ : Type}

def valueOption {α : Type} (names : List String) (read : String → Except ArgumentFault α)
    (set : Setting α → σ → σ) : OptionSpec σ :=
  ⟨names, .value fun text state => do
    let value ← text.convert read
    pure (set value state)⟩

def textOption (name : String) (set : Setting String → σ → σ) : OptionSpec σ :=
  valueOption [name] .ok set

def flagOption (name : String) (set : σ → σ) : OptionSpec σ := ⟨[name], .flag set⟩

def helpOption : OptionSpec σ := ⟨["-h", "--help"], .help⟩

def fileOption (set : Setting String → σ → σ) : OptionSpec σ :=
  valueOption ["--db", "-d"] (fun text => .ok (Path.printed text)) set

def PlanRequest.start : PlanRequest where
  sourcePaths := []
  file := .given defaultFile
  recursive := true
  cap := .given Balance.defaultCap
  backend := .given .localFiles
  fsUri := .given Connection.defaultUri
  bucket := none
  accessKey := none
  secretKey := none
  region := none
  endpointUrl := none
  progress := false

def planGrammar : Grammar PlanRequest where
  program := program ++ " plan"
  options :=
    [helpOption,
      fileOption fun file request => { request with file := file },
      flagOption "--no-recursive" fun request => { request with recursive := false },
      valueOption ["--max-per-split"] integerValue fun cap request => { request with cap := cap },
      valueOption ["--backend"] (choiceValue storageNames) fun backend request =>
        { request with backend := backend },
      textOption "--fs-uri" fun uri request => { request with fsUri := uri },
      textOption "--bucket" fun name request => { request with bucket := some name },
      textOption "--access-key" fun key request => { request with accessKey := some key },
      textOption "--secret-key" fun key request => { request with secretKey := some key },
      textOption "--region" fun region request => { request with region := some region },
      textOption "--endpoint-url" fun url request => { request with endpointUrl := some url },
      flagOption "--progress" fun request => { request with progress := true }]
  positional := some ("source_paths", .one fun text request =>
    .ok { request with sourcePaths := SourcePaths.parse text })

structure EmitDraft where
  file : Setting String
  split : Option (Setting Int)

def splitLabels : List String := ["--split", "-s"]

def emitGrammar : Grammar EmitDraft where
  program := program ++ " emit"
  options :=
    [helpOption,
      fileOption fun file draft => { draft with file := file },
      valueOption splitLabels integerValue fun split draft => { draft with split := some split }]
  positional := none

def schemaGrammar : Grammar (Setting BackendType) where
  program := program ++ " schema"
  options :=
    [helpOption,
      valueOption ["--backend"] (choiceValue tagNames) fun backend _ => backend]
  positional := none

abbrev Understood := Request × List String

def readPlan (arguments : List String) : Except Stop Understood := do
  let (request, leftOver) ← planGrammar.read arguments .start
  pure (.plan request, leftOver)

def readEmit (arguments : List String) : Except Stop Understood := do
  let (draft, leftOver) ← emitGrammar.read arguments ⟨.given defaultFile, none⟩
  match draft.split with
  | some split => pure (.emit ⟨draft.file, split⟩, leftOver)
  | none => throw (.misuse emitGrammar.program (.required ["/".intercalate splitLabels]))

def readSchema (arguments : List String) : Except Stop Understood := do
  let (backend, leftOver) ← schemaGrammar.read arguments (.given .localFiles)
  pure (.schema backend, leftOver)

def commands : List (String × (List String → Except Stop Understood)) :=
  [("plan", readPlan), ("emit", readEmit), ("schema", readSchema)]

structure InvocationDraft where
  logLevel : OptionalText
  understood : Option Understood

def readCommand : List String → InvocationDraft → Except Stop InvocationDraft
  | [], draft => .ok draft
  | name :: arguments, draft =>
    match choiceValue commands name with
    | .error fault => .error (.misuse program (.argument "command" fault))
    | .ok read => do
      let understood ← read arguments
      pure { draft with understood := some understood }

def mainGrammar : Grammar InvocationDraft where
  program := program
  options :=
    [helpOption,
      textOption "--log-level" fun level draft => { draft with logLevel := some level }]
  positional := some ("command", .everything readCommand)

def Invocation.ofArguments (arguments : List String) : Except Stop Invocation := do
  let (draft, leftOver) ← mainGrammar.read arguments ⟨none, none⟩
  match draft.understood with
  | none => throw (.misuse program (.required ["command"]))
  | some (request, others) => match leftOver ++ others with
    | [] => pure ⟨draft.logLevel, request⟩
    | arguments => throw (.misuse program (.unrecognized arguments))

/-- An empty or a blank text counts as none. -/
def isGiven (text : OptionalText) : Bool := !text.toValue.isEmpty

namespace PlanRequest

def missingFlags (request : PlanRequest) : List String :=
  ([("--bucket", request.bucket), ("--access-key", request.accessKey),
    ("--secret-key", request.secretKey)].filter fun flag => !isGiven flag.2).map (·.1)

def connection (request : PlanRequest) : Except Failure Connection :=
  match request.backend with
  | .given .localFiles | .blank => .ok (.localFiles (request.fsUri.toValue .str))
  | .given .amazonS3 => match request.missingFlags with
    | [] => .ok (.amazonS3 request.accessKey.toValue request.secretKey.toValue
        request.bucket.toValue request.region.toValue request.endpointUrl.toValue)
    | flags => .error (.refused (.missingS3Options flags))

def toConfig (request : PlanRequest) : Except Failure Config := do
  let connection ← request.connection
  Config.ofValues (.ofStrings request.sourcePaths) connection (.bool request.recursive)
    (request.cap.toValue .int)

end PlanRequest
end HarvestPlan.Command
