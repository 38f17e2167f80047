import HarvestPlan.Failure
import HarvestPlan.Path.Local
import HarvestPlan.Text.Octets

/-!
Where a store is kept. A name is the path of a file, or it starts with `file:` and is a path with
escapes, followed by options after a question mark. A store without a file is kept in memory and is
empty whenever it is opened.
-/
namespace HarvestPlan

inductive Access where
  | readOnly
  | existing
  | creating
deriving DecidableEq, Repr

/-- How other stores are kept from a file: by locks on parts of it, by one lock on all of it, by a
    file beside it, or not at all. -/
inductive Locking where
  | shared
  | exclusive
  | lockFile
  | absent
deriving DecidableEq, Repr

/-- How the file at a path is to be opened. One that is frozen is taken to change no more, and a
    model is a path that must be there too. -/
structure Opening where
  path : Octets
  access : Access
  locking : Locking
  unlocked : Bool
  frozen : Bool
  model : Option Octets
deriving DecidableEq, Repr

inductive Location where
  | memory
  | file (opening : Opening)
deriving DecidableEq, Repr

namespace Location

open Text (cut cutFirst?)

def part (cs : List Char) : Octets := (Octets.unescaped cs).takeWhile (· ≠ 0)

def cutAt (c : Char) (cs : List Char) : List Char × List Char := (cutFirst? c cs).getD (cs, [])

abbrev Options := List (Octets × Octets)

def options (query : List Char) : Options :=
  (cut '&' query).filterMap fun option =>
    let (name, value) := cutAt '=' option
    if part name = [] then none else some (part name, part value)

namespace Options

def first? (options : Options) (name : String) : Option Octets :=
  List.lookup (Octets.ofText name) options

def every (options : Options) (name : String) : List Octets :=
  (List.filter (fun option => option.1 = Octets.ofText name) options).map (·.2)

end Options

def yesWords : List String := ["on", "yes", "true"]

def longestHex : Nat := 8

def integerLimit : Nat := twoTo 31

def withoutZeros (cs : List Char) : List Char := cs.dropWhile (· == '0')

def hexNumber (cs : List Char) : Nat :=
  let digits := (withoutZeros cs).takeWhile fun c => (Text.hexValue? c).isSome
  let number := digits.foldl (fun n c => 16 * n + (Text.hexValue? c).getD 0) 0
  if longestHex < digits.length ∨ integerLimit ≤ number then 0 else number

def decimalNumber (cs : List Char) : Nat :=
  let number := Text.decimalValue (cs.takeWhile Char.isDigit)
  if integerLimit ≤ number then 0 else number

def leadingNumber : List Char → Nat
  | '0' :: x :: c :: cs =>
    if (x == 'x' || x == 'X') && (Text.hexValue? c).isSome then hexNumber (c :: cs)
    else decimalNumber ('0' :: x :: c :: cs)
  | cs => decimalNumber cs

/-- A word for yes in any case, or a number that is not a multiple of 256. -/
def isYes (value : Octets) : Bool :=
  let cs := value.map fun octet => Char.ofNat octet.toNat
  if cs.head?.any Char.isDigit then leadingNumber cs % 256 ≠ 0
  else yesWords.contains (String.ofList (cs.map Char.toLower))

def Options.ask (options : Options) (name : String) : Bool := (options.first? name).any isYes

inductive Mode where
  | readOnly
  | existing
  | creating
  | memory
deriving DecidableEq, Repr

namespace Mode

def words : List (Octets × Mode) :=
  [(Octets.ofText "ro", readOnly), (Octets.ofText "rw", existing),
    (Octets.ofText "rwc", creating), (Octets.ofText "memory", memory)]

def rank : Mode → Nat
  | readOnly => 1
  | existing => 2
  | creating => 3
  | memory => 4

/-- The mode after one more option: none that allows more than the one before it, except that a
    store in memory is always allowed. -/
def narrowed? (mode : Mode) (word : Octets) : Option Mode := do
  let next ← words.lookup word
  if next = memory ∨ next.rank ≤ mode.rank then pure next else none

def access : Mode → Access
  | readOnly => .readOnly
  | existing => .existing
  | creating | memory => .creating

end Mode

def cacheWords : List Octets := [Octets.ofText "shared", Octets.ofText "private"]

inductive Medium where
  | files (locking : Locking)
  | memory
deriving DecidableEq, Repr

def media : List (Octets × Medium) :=
  [(Octets.ofText "unix", .files .shared), (Octets.ofText "unix-excl", .files .exclusive),
    (Octets.ofText "unix-dotfile", .files .lockFile), (Octets.ofText "unix-none", .files .absent),
    (Octets.ofText "memdb", .memory)]

def medium? (options : Options) : Option Medium :=
  match (options.every "vfs").getLast? with
  | none => some (.files .shared)
  | some word => media.lookup word

def mode? (options : Options) : Option Mode := do
  if !(options.every "cache").all cacheWords.contains then failure
  (options.every "mode").foldlM Mode.narrowed? .creating

def memoryName : Octets := Octets.ofText ":memory:"

def longestMemoryPath : Nat := 1016

def inMemory? (mode : Mode) : Option Location :=
  if mode = .readOnly then none else some .memory

def ofParts? (path : Octets) (mode : Mode) (medium : Medium) (options : Options) :
    Option Location :=
  if mode = .memory ∨ path = [] ∨ path = memoryName then inMemory? mode
  else match medium with
    | .memory =>
      if options.ask "immutable" ∨ longestMemoryPath < path.length then none else inMemory? mode
    | .files locking =>
      some (.file
        { path := path
          access := mode.access
          locking := locking
          unlocked := options.ask "nolock"
          frozen := options.ask "immutable"
          model := options.first? "modeof" })

/-- The location of a name with escapes; what follows a number sign is passed over. -/
def ofUri? (cs : List Char) : Option Location := do
  let (path, query) := cutAt '?' (cutAt '#' cs).1
  let options := options query
  ofParts? (part path) (← mode? options) (← medium? options) options

def uriMark : String := "file:"

def ofPrinted? (path : String) : Option Location :=
  if Text.startsWith path uriMark then ofUri? (path.toList.drop uriMark.length)
  else ofParts? (Octets.ofText path) .creating (.files .shared) []

def ofName (name : String) : Except Failure Location :=
  let path := Path.printed name
  if path.toList.contains '\x00' then .error (.refused .endsInside)
  else match ofPrinted? path with
    | some location => .ok location
    | none => .error .storeUnavailable

end Location
end HarvestPlan
