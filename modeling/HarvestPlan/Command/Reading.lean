import HarvestPlan.Command.Grammar

namespace HarvestPlan.Command

variable {σ : Type}

/-- How far a reading is: whether the positional argument is still awaited, and what is left
    over. -/
structure Reading (σ : Type) where
  state : σ
  awaits : Bool
  leftOver : List String

namespace Reading

def start (state : σ) : Reading σ := ⟨state, true, []⟩

def leave (reading : Reading σ) (tokens : List (Token σ)) : Reading σ :=
  { reading with leftOver := reading.leftOver ++ tokens.map Token.text }

end Reading

namespace Grammar

def misuse {α : Type} (g : Grammar σ) (result : Except UsageFault α) : Except Stop α :=
  result.mapError (.misuse g.program)

def argument {α : Type} (g : Grammar σ) (name : String) (result : Except ArgumentFault α) :
    Except Stop α :=
  g.misuse (result.mapError (.argument name))

def afterDivider : List (Token σ) → List (Token σ)
  | .divider :: rest => rest
  | tokens => tokens

/-- The positional argument at the front, if it is awaited and there is one. A divider next to it
    belongs to it. -/
def takePositional (g : Grammar σ) (reading : Reading σ) (tokens : List (Token σ)) :
    Except Stop (Option (Reading σ × List (Token σ))) :=
  match reading.awaits, g.positional, afterDivider tokens with
  | true, some (name, .one set), .plain text :: rest => do
    let state ← g.argument name (set text reading.state)
    pure (some (⟨state, false, reading.leftOver⟩, afterDivider rest))
  | true, some (_, .everything take), .plain _ :: _ => do
    let state ← take (tokens.map Token.text) reading.state
    pure (some (⟨state, false, reading.leftOver⟩, []))
  | _, _, _ => pure none

abbrev Given (σ : Type) := OptionSpec σ × Option String

def notWanted (option : OptionSpec σ) (attached : List Char) : UsageFault :=
  .argument option.label (.notWanted (String.ofList attached))

/-- The options in a text of short names, the first of which is known. The text after an option
    with a value is its value; the last option may take its value from the next argument. -/
def spread (g : Grammar σ) : (isLong : Bool) → OptionSpec σ → (attached : List Char) →
    Except UsageFault (List (Given σ) × Option (OptionSpec σ))
  | _, option, [] =>
    if option.takesValue then .ok ([(option, some "")], none) else .error (notWanted option [])
  | isLong, option, c :: rest =>
    if option.takesValue then .ok ([(option, some (String.ofList (c :: rest)))], none)
    else if isLong then .error (notWanted option (c :: rest))
    else match g.find? (String.ofList ['-', c]) with
      | none => .error (notWanted option (c :: rest))
      | some next =>
        if rest.isEmpty then .ok ([(option, none)], some next)
        else do
          let (given, last) ← g.spread false next rest
          pure ((option, none) :: given, last)

def settle (option : OptionSpec σ) (tokens : List (Token σ)) :
    Except UsageFault (Given σ × List (Token σ)) :=
  if !option.takesValue then .ok ((option, none), tokens)
  else match tokens with
    | .plain text :: rest => .ok ((option, some text), rest)
    | _ => .error (.argument option.label .absent)

def givenBy (g : Grammar σ) (option : OptionSpec σ) (occurrence : Occurrence σ)
    (tokens : List (Token σ)) : Except UsageFault (List (Given σ) × List (Token σ)) := do
  match occurrence.attached with
  | none =>
    let (given, rest) ← settle option tokens
    pure ([given], rest)
  | some attached =>
    let (given, last) ← g.spread occurrence.isLong option attached
    match last with
    | none => pure (given, tokens)
    | some option =>
      let (lastGiven, rest) ← settle option tokens
      pure (given ++ [lastGiven], rest)

def apply (g : Grammar σ) (state : σ) (given : Given σ) : Except Stop σ :=
  match given.1.action, given.2 with
  | .help, _ => .error (.help g.program)
  | .flag set, _ => .ok (set state)
  | .value set, some text => g.argument given.1.label (set (settingOf text) state)
  | .value _, none => g.argument given.1.label (.error .absent)

def takeOption (g : Grammar σ) (reading : Reading σ) (text : String) (occurrence : Occurrence σ)
    (tokens : List (Token σ)) : Except Stop (Reading σ × List (Token σ)) :=
  match occurrence.option with
  | none => .ok (reading.leave [.plain text], tokens)
  | some option => do
    let (given, rest) ← g.misuse (g.givenBy option occurrence tokens)
    let state ← given.foldlM g.apply reading.state
    pure ({ reading with state := state }, rest)

def finish (g : Grammar σ) (reading : Reading σ) (tokens : List (Token σ)) :
    Except Stop (Reading σ) := do
  match ← g.takePositional reading tokens with
  | some (reading, rest) => pure (reading.leave rest)
  | none => pure (reading.leave tokens)

/-- Every step takes at least one token, up to the last option. -/
def readTokens (g : Grammar σ) : (steps : Nat) → Reading σ → List (Token σ) →
    Except Stop (Reading σ)
  | 0, reading, tokens => g.finish reading tokens
  | steps + 1, reading, tokens =>
    if !tokens.any Token.isOption then g.finish reading tokens
    else match tokens with
      | .option text occurrence :: rest => do
        let (reading, rest) ← g.takeOption reading text occurrence rest
        g.readTokens steps reading rest
      | tokens => do
        match ← g.takePositional reading tokens with
        | some (reading, rest) => g.readTokens steps reading rest
        | none =>
          let skipped := tokens.takeWhile fun token => !token.isOption
          let rest := tokens.dropWhile fun token => !token.isOption
          g.readTokens steps (reading.leave skipped) rest

def absent (g : Grammar σ) (reading : Reading σ) : List String :=
  if reading.awaits then (g.positional.map (·.1)).toList else []

def read (g : Grammar σ) (arguments : List String) (state : σ) :
    Except Stop (σ × List String) := do
  let tokens ← g.misuse (g.tokens arguments)
  let reading ← g.readTokens tokens.length (.start state) tokens
  match g.absent reading with
  | [] => pure (reading.state, reading.leftOver)
  | names => throw (.misuse g.program (.required names))

end Grammar
end HarvestPlan.Command
