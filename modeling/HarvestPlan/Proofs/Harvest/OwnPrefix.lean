import HarvestPlan.Proofs.Harvest.Plain
import HarvestPlan.Proofs.Storage.KeyPath
import HarvestPlan.Proofs.Storage.Textual

namespace HarvestPlan

open Json (Value)

namespace Bucket

inductive Shows (name : Value) : Status → Prop
  | folder (key : String) : Shows name (folderStatus name key)
  | object {key : String} {size modified owner : Value} {status : Status}
      (known : objectStatus name key size modified owner = .ok status) : Shows name status

variable {bucket : Bucket} {name : Value}

theorem statFolder_shows {key : String} {status : Status}
    (known : bucket.statFolder name key = .ok status) : Shows name status := by
  unfold statFolder at known
  simp only at known
  split at known
  · cases known
  · cases known
    exact .folder _
  · cases known

theorem statKey_shows {key : String} {status : Status}
    (known : bucket.statKey name key = .ok status) : Shows name status := by
  unfold statKey at known
  split at known
  · cases known
    exact .folder _
  · split at known
    · exact statFolder_shows known
    · split at known
      · split at known
        · exact .object known
        · cases known
      · obtain ⟨missing, -, known⟩ := Outcome.bind_ok known
        cases missing with
        | true => exact statFolder_shows known
        | false => cases known

theorem listedStatus_shows {folder : String} {object : ListedObject} {status : Status}
    (known : listedStatus name folder object = .ok (some status)) : Shows name status := by
  unfold listedStatus at known
  split at known
  · cases known
  · obtain ⟨owner, -, known⟩ := Outcome.bind_ok known
    split at known
    · obtain ⟨made, made_eq, same⟩ := Outcome.map_ok known
      cases same
      exact .object made_eq
    · cases known

theorem pagesStatuses_shows {folder : String} {pages : List (Except RequestFault Page)}
    {statuses : List Status} (listed : pagesStatuses name folder pages = .ok statuses) :
    ∀ status ∈ statuses, Shows name status := by
  intro status present
  obtain ⟨page, shown, -, read, present⟩ := mem_pagesStatuses listed present
  rcases mem_pageStatuses read present with ⟨key, -, rfl⟩ | ⟨object, -, known⟩
  · exact .folder key
  · exact listedStatus_shows known

theorem shows_of_given {status : Status} (gives : (bucket.backend name).Gives status) :
    Shows name status := by
  cases gives with
  | looked looking =>
    obtain ⟨key, -, known⟩ := Outcome.bind_ok looking
    exact statKey_shows known
  | listed listing present =>
    obtain ⟨key, -, listed⟩ := Outcome.bind_ok listing
    obtain ⟨statuses, read, sorted⟩ := Outcome.bind_ok listed
    exact pagesStatuses_shows read _ (sortByName_mem sorted present)

/-- The path is that of a key. It leads back to the key just if the key has no slash in front and loses
    no character; so a directory with its prefix for a key is listed by that prefix just if no
    character is lost, and by another one otherwise. -/
def LeadsBack (name : String) (path : String) (isDirectory : Bool) : Prop :=
  ∃ key, path = pathOf (.str name) key ∧
    (keyOf path = .ok key ↔ IsKept key ∧ key.toList.head? ≠ some '/') ∧
    (isDirectory = true → IsKey key → IsPrefix key → (listedPrefix path = .ok key ↔ IsKept key))

theorem pathOf_leadsBack {name : String} (ordinary : IsOrdinary name) (key : String)
    (isDirectory : Bool) : LeadsBack name (pathOf (.str name) key) isDirectory :=
  ⟨key, rfl, keyOf_pathOf_eq_iff ordinary key,
    fun _ proper folder => listedPrefix_pathOf_eq_iff ordinary proper folder⟩

theorem Shows.leadsBack {name : String} (ordinary : IsOrdinary name) {status : Status}
    (shows : Shows (.str name) status) : LeadsBack name status.path status.isDirectory := by
  cases shows with
  | folder key => exact pathOf_leadsBack ordinary key true
  | object known =>
    obtain ⟨modified, -, known⟩ := Outcome.bind_ok known
    cases known
    exact pathOf_leadsBack ordinary _ false

end Bucket

namespace Harvest

open Bucket

/-- A listing of a bucket reads the pages of the prefix that its path leads to. Every path that the
    bucket gives in a status, and so the full path of every entry of a harvest, leads back to its own
    key, and to its own prefix if it is a directory, just as far as the key loses no character. -/
theorem bucketHarvest_leadsBack (surroundings : Surroundings)
    (accessKeyId secretKeyId region endpointUrl : Value) {name : String}
    (ordinary : IsOrdinary name) (given : Option Credentials) (roots : List String)
    (recursive : Bool) (cancel : Cancel) :
    let bucket := surroundings.bucket
    let backend := bucket.backend (.str name)
    let connection : Connection :=
      .amazonS3 accessKeyId secretKeyId (.str name) region endpointUrl
    (∀ path, backend.list path = ⟨[], do
      let folder ← listedPrefix path
      sortByName (← pagesStatuses (.str name) folder (bucket.pages folder))⟩) ∧
    (∀ status, backend.Gives status → LeadsBack name status.path status.isDirectory) ∧
    ∀ entry ∈ (run surroundings connection given roots recursive cancel).noted,
      ∃ path isDirectory, entry.fullPath = .str path ∧ entry.isFolder = .bool isDirectory ∧
        LeadsBack name path isDirectory := by
  intro bucket backend connection
  refine ⟨backend_list bucket (.str name), ?_, ?_⟩
  · intro status gives
    exact (shows_of_given gives).leadsBack ordinary
  · intro entry present
    obtain ⟨opened, base, status, opening, gives, made⟩ :=
      run_made surroundings connection given roots recursive cancel entry present
    obtain rfl := Connection.openBucket_ok opening
    obtain ⟨-, size, basePath, -, rfl⟩ := entryOf_ok made
    exact ⟨status.path, status.isDirectory, rfl, rfl,
      (shows_of_given gives).leadsBack ordinary⟩

def siblingPage (key : String) : Page := ⟨[], [.ok ⟨.str key, .int 1, .null, .ok (.str "")⟩]⟩

def siblings : Bucket where
  connectFault := none
  headFault := none
  heads := []
  probes := [("d/", .ok true), ("d/a/", .ok true), ("d/a?b/", .ok true)]
  listings :=
    [("d/", [.ok ⟨[.ok "d/a/", .ok "d/a?b/"], []⟩]),
      ("d/a/", [.ok (siblingPage "d/a/x")]), ("d/a?b/", [.ok (siblingPage "d/a?b/y")])]

theorem bucketHarvest_leadsBack_siblings : IsOrdinary "b" ∧
    (siblings.backend (.str "b")).Gives (folderStatus (.str "b") "d/a?b/") ∧
    LeadsBack "b" "s3a://b/d/a?b/" true := by
  have ordinary : IsOrdinary "b" := by decide +kernel
  have looking : (siblings.backend (.str "b")).stat "d/a?b/" =
      .ok (folderStatus (.str "b") "d/a?b/") := by decide +kernel
  have gives : (siblings.backend (.str "b")).Gives (folderStatus (.str "b") "d/a?b/") :=
    .looked looking
  have leads := (bucketHarvest_leadsBack ⟨⟨[], "/", [], false⟩, siblings⟩ .null .null .null .null
    ordinary none ["d/"] true .never).2.1 _ gives
  exact ⟨ordinary, gives, leads⟩

/-- The path of the second folder leads to the first, and a listing of it shows what is in the
    first. -/
theorem sibling_listed : IsOrdinary "b" ∧ IsKey "d/a?b/" ∧ IsPrefix "d/a?b/" ∧
    keyOf (pathOf (.str "b") "d/a?b/") = .ok "d/a" ∧
    listedPrefix (pathOf (.str "b") "d/a?b/") = .ok "d/a/" ∧
    (siblings.backend (.str "b")).list (pathOf (.str "b") "d/a?b/") =
      ⟨[], .ok [⟨"s3a://b/d/a/x", .str "x", .int 1, 0, .str "", false, 0o666⟩]⟩ := by
  have listed : listedPrefix (pathOf (.str "b") "d/a?b/") = .ok "d/a/" := by decide +kernel
  have read : pagesStatuses (.str "b") "d/a/" (siblings.pages "d/a/") =
      .ok [⟨"s3a://b/d/a/x", .str "x", .int 1, 0, .str "", false, 0o666⟩] := by decide +kernel
  refine ⟨by decide +kernel, by decide +kernel, by decide +kernel, by decide +kernel, listed, ?_⟩
  rw [backend_list, listed]
  simp [read, sortByName, byName, Value.text?, bind, Except.bind]

end Harvest
end HarvestPlan
