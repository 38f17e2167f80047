import HarvestPlan.Store.Folder
import HarvestPlan.Json.Writer

/-!
The files of stores as texts. A blank file is the empty text, tables are an object with an array of
rows for each table, and any other text is no store.
-/
namespace HarvestPlan.Tables

open Json (Value Fields)

def metadataValue (row : String × Option String) : Value := .arr [.str row.1, .ofString? row.2]

def splitValue (row : SplitRow) : Value :=
  .arr [.int row.index, row.load, row.total, .str row.fingerprint]

def entryValue (row : EntryRow) : Value :=
  .arr [row.split.toValue, row.position.toValue, .str row.text]

def toValue (tables : Tables) : Value :=
  .obj [("metadata", .arr (tables.metadata.map metadataValue)),
    ("splits", .arr (tables.splits.map splitValue)),
    ("entries", .arr (tables.entries.map entryValue))]

def metadataRow? : Value → Option (String × Option String)
  | .arr [.str key, .null] => some (key, none)
  | .arr [.str key, .str value] => some (key, some value)
  | _ => none

def splitRow? : Value → Option SplitRow
  | .arr [.int index, load, total, .str fingerprint] => some ⟨index, load, total, fingerprint⟩
  | _ => none

def entryRow? : Value → Option EntryRow
  | .arr [split, position, .str text] => do
    let split ← Cell.ofValue? split
    let position ← Cell.ofValue? position
    pure ⟨split, position, text⟩
  | _ => none

def rows? {α : Type} (row? : Value → Option α) (object : Fields) (name : String) :
    Option (List α) :=
  match object.findOrNull name with
  | .arr rows => rows.mapM row?
  | _ => none

def ofValue? : Value → Option Tables
  | .obj object => do
    let metadata ← rows? metadataRow? object "metadata"
    let splits ← rows? splitRow? object "splits"
    let entries ← rows? entryRow? object "entries"
    pure ⟨metadata, splits, entries⟩
  | _ => none

end HarvestPlan.Tables

namespace HarvestPlan.Content

open Json (Value)

def loggedField : String := "logged"

def toText : Content → String
  | .blank => ""
  | .foreign => "\n"
  | .database tables logged =>
    Json.write (.obj [(loggedField, .bool logged), ("tables", tables.toValue)])

def ofText (text : String) : Content :=
  if text.isEmpty then .blank
  else match Json.read text with
    | .ok (.obj [(_, .bool logged), (_, tables)]) => match Tables.ofValue? tables with
      | some tables => .database tables logged
      | none => .foreign
    | _ => .foreign

end HarvestPlan.Content
