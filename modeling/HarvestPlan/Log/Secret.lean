import HarvestPlan.Json.Shown
import HarvestPlan.Text.Blank
import HarvestPlan.Text.Case

/-!
Secrets in log texts. A secret follows its name and a colon or an equals sign, possibly in quotes,
and reaches up to the next quote, brace, comma or blank; it is masked.
-/
namespace HarvestPlan.Secret

open Json (Value)

inductive NamePart where
  | letters (word : String)
  | optionalLetters (word : String)
  | optionalMark (marks : String)

namespace NamePart

def afterLetters? : List Char → List Char → Option (List Char)
  | [], cs => some cs
  | _ :: _, [] => none
  | letter :: word, c :: cs =>
    if Text.fold letter = Text.fold c then afterLetters? word cs else none

def after? : NamePart → List Char → Option (List Char)
  | letters word, cs => afterLetters? word.toList cs
  | optionalLetters word, cs => some ((afterLetters? word.toList cs).getD cs)
  | optionalMark _, [] => some []
  | optionalMark marks, c :: cs => some (if marks.toList.contains c then cs else c :: cs)

end NamePart

abbrev Name := List NamePart

/-- The names that announce a secret, in the order in which they are looked for. -/
def names : List Name :=
  [[.letters "secret", .optionalMark "_-", .letters "key", .optionalMark "_-",
      .optionalLetters "id"],
    [.letters "secretKeyId"],
    [.letters "aws_secret_access_key"],
    [.letters "password"]]

def isQuote (c : Char) : Bool := c == '"' || c == '\''

def isAssignment (c : Char) : Bool := c == ':' || c == '='

def isSecretChar (c : Char) : Bool :=
  !(isQuote c || c == '\x7d' || c == ',' || Text.isBlank c)

def afterQuote : List Char → List Char
  | [] => []
  | c :: cs => if isQuote c then cs else c :: cs

def afterBlanks (cs : List Char) : List Char := cs.dropWhile Text.isBlank

def afterName? (name : Name) (cs : List Char) : Option (List Char) := do
  let rest ← name.foldlM (fun cs part => part.after? cs) cs
  match afterBlanks (afterQuote rest) with
  | [] => none
  | c :: rest => if isAssignment c then some (afterQuote (afterBlanks rest)) else none

def mark : List Char := "***MASKED***".toList

/-- At a name with a secret: the text up to the secret, and the text after it. -/
def announced? (name : Name) (cs : List Char) : Option (List Char × List Char) := do
  let rest ← afterName? name cs
  match rest.takeWhile isSecretChar with
  | [] => none
  | _ :: _ => some (cs.take (cs.length - rest.length), rest.dropWhile isSecretChar)

/-- Masks the secrets of one name from left to right, in as many steps as there are characters at
    most. -/
def maskFrom (name : Name) : (steps : Nat) → List Char → List Char
  | 0, cs => cs
  | _, [] => []
  | steps + 1, c :: cs => match announced? name (c :: cs) with
    | some (before, rest) => before ++ mark ++ maskFrom name steps rest
    | none => c :: maskFrom name steps cs

def maskName (cs : List Char) (name : Name) : List Char := maskFrom name cs.length cs

def mask (s : String) : String := String.ofList (names.foldl maskName s.toList)

def maskValue : Value → Value
  | .str s => .str (mask s)
  | value => value

def maskArguments : Value → Value
  | .arr items => .arr (items.map maskValue)
  | .obj fields => .obj (fields.map fun (name, value) => (name, maskValue value))
  | value => value

end HarvestPlan.Secret
