import HarvestPlan.Command.Usage
import HarvestPlan.Text.Digit
import HarvestPlan.Text.Segments

/-!
Grammars of arguments. A grammar has options, each with a long name or a short one of one letter,
and at most one positional argument. A long name may be cut short as long as it is the only one
that starts so, and its value may follow an equals sign; the value of a short one may follow at
once.
-/
namespace HarvestPlan.Command

open Json (Value)

/-- The value of an option. Two minuses right behind the name leave it blank. -/
inductive Setting (α : Type) where
  | given (value : α)
  | blank
deriving DecidableEq, Repr

namespace Setting

def blankValue : Value := .arr []

def toValue {α : Type} (write : α → Value) : Setting α → Value
  | given value => write value
  | blank => blankValue

/-- A blank value is not converted, and so never refused. -/
def convert {α β : Type} (read : α → Except ArgumentFault β) :
    Setting α → Except ArgumentFault (Setting β)
  | given value => given <$> read value
  | blank => .ok blank

end Setting

inductive Action (σ : Type) where
  | help
  | flag (set : σ → σ)
  | value (set : Setting String → σ → Except ArgumentFault σ)

structure OptionSpec (σ : Type) where
  names : List String
  action : Action σ

/-- A positional argument is one argument, or one and everything after it. -/
inductive Positional (σ : Type) where
  | one (set : String → σ → Except ArgumentFault σ)
  | everything (take : List String → σ → Except Stop σ)

/-- A positional argument is required. -/
structure Grammar (σ : Type) where
  program : String
  options : List (OptionSpec σ)
  positional : Option (String × Positional σ)

structure Occurrence (σ : Type) where
  option : Option (OptionSpec σ)
  isLong : Bool
  attached : Option (List Char)

inductive Token (σ : Type) where
  | plain (text : String)
  | divider
  | option (text : String) (occurrence : Occurrence σ)

variable {σ : Type}

namespace OptionSpec

def label (option : OptionSpec σ) : String := "/".intercalate option.names

def takesValue (option : OptionSpec σ) : Bool :=
  match option.action with
  | .value _ => true
  | .help | .flag _ => false

end OptionSpec

namespace Grammar

def named (g : Grammar σ) : List (String × OptionSpec σ) :=
  g.options.flatMap fun option => option.names.map (·, option)

def find? (g : Grammar σ) (name : String) : Option (OptionSpec σ) := g.named.lookup name

def assignment (cs : List Char) : List Char × Option (List Char) :=
  match Text.cutFirst? '=' cs with
  | some (name, value) => (name, some value)
  | none => (cs, none)

def isLongName (cs : List Char) : Bool := ['-', '-'].isPrefixOf cs

def assigned? (g : Grammar σ) (cs : List Char) : Option (Occurrence σ) :=
  match assignment cs with
  | (name, some value) =>
    (g.find? (String.ofList name)).map fun option => ⟨some option, isLongName name, some value⟩
  | (_, none) => none

def candidates (g : Grammar σ) (cs : List Char) : List (String × Occurrence σ) :=
  if isLongName cs then
    let (start, value) := assignment cs
    (g.named.filter fun entry => start.isPrefixOf entry.1.toList).map fun (name, option) =>
      (name, ⟨some option, true, value⟩)
  else
    (g.named.filter fun entry => entry.1.toList == cs.take 2).map fun (name, option) =>
      (name, ⟨some option, false, some (cs.drop 2)⟩)

/-- Digits, or digits after a point, behind a minus. One line break may follow. -/
def isNegativeNumber (cs : List Char) : Bool :=
  let line := if cs.getLast? = some '\n' then cs.dropLast else cs
  match line with
  | '-' :: rest =>
    let whole := rest.takeWhile Text.isDigit
    match rest.dropWhile Text.isDigit with
    | [] => !whole.isEmpty
    | '.' :: fraction => !fraction.isEmpty && fraction.all Text.isDigit
    | _ => false
  | _ => false

/-- The option that an argument is, if it is one. A text with a minus in front that is no number and
    has no space is an option even if no name fits. -/
def interpret (g : Grammar σ) (text : String) : Except UsageFault (Option (Occurrence σ)) :=
  match text.toList with
  | '-' :: second :: rest =>
    let cs := '-' :: second :: rest
    match g.find? text, g.assigned? cs with
    | some option, _ => .ok (some ⟨some option, isLongName cs, none⟩)
    | none, some occurrence => .ok (some occurrence)
    | none, none => match g.candidates cs with
      | [] =>
        if isNegativeNumber cs || cs.contains ' ' then .ok none
        else .ok (some ⟨none, isLongName cs, none⟩)
      | [(_, occurrence)] => .ok (some occurrence)
      | several => .error (.ambiguous text (several.map (·.1)))
  | _ => .ok none

/-- After two minuses no argument is an option. -/
def dividerText : String := "--"

def settingOf (text : String) : Setting String :=
  if text = dividerText then .blank else .given text

def tokens (g : Grammar σ) : List String → Except UsageFault (List (Token σ))
  | [] => .ok []
  | text :: rest =>
    if text = dividerText then .ok (.divider :: rest.map .plain)
    else do
      let occurrence ← g.interpret text
      let others ← g.tokens rest
      match occurrence with
      | some occurrence => pure (.option text occurrence :: others)
      | none => pure (.plain text :: others)

end Grammar

namespace Token

def text : Token σ → String
  | plain text => text
  | divider => Grammar.dividerText
  | option text _ => text

def isOption : Token σ → Bool
  | option .. => true
  | plain _ | divider => false

end Token
end HarvestPlan.Command
