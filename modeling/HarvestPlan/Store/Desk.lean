import HarvestPlan.Store.Opening

namespace HarvestPlan

open Json (Value)

/-- One store at a time on the files of a folder, under the path that it was asked for by. -/
structure Desk where
  folder : Folder
  path : String
  backing : Option Backing
  store : Store
deriving Repr

namespace Desk

def fresh (name : String) : Desk :=
  let file := Octets.ofText name
  ⟨[(file, .database .empty true)], name, some ⟨file, false⟩, .ofTables .empty⟩

def ofOpened (folder : Folder) (path : String) (opened : Opened) : Desk :=
  ⟨folder, path, opened.backing, opened.store⟩

def withStore (desk : Desk) (store : Store) : Desk :=
  { desk with folder := desk.folder.keep desk.backing store, store := store }

def close (desk : Desk) : Desk := { desk with store := desk.store.close }

def clear (desk : Desk) : Desk × Except Failure Unit :=
  match desk.folder.removeAt (Path.printed desk.path) with
  | .ok folder => ({ desk.close with folder := folder }, .ok ())
  | .error failure => (desk.close, .error failure)

/-- Closes the store and opens another; if that fails the old store stays, closed. -/
def reopen (desk : Desk) (path : Value) : Desk × Except Failure Unit :=
  match path with
  | .str path => match desk.folder.openStore path with
    | (folder, .ok opened) => (ofOpened folder path opened, .ok ())
    | (folder, .error failure) => ({ desk.close with folder := folder }, .error failure)
  | _ => (desk.close, .error .wrongKind)

end Desk
end HarvestPlan
