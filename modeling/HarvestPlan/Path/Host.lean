import HarvestPlan.Text.Digit
import HarvestPlan.Text.Quoted
import HarvestPlan.Text.Segments

/-!
The host in the authority of a URI. Brackets may hold an address of eight groups, in which one run
of zero groups may be left out and the last two groups may be four octets, or an address of a later
version. Nothing else may stand in brackets, and only a colon with a number may follow them.
-/
namespace HarvestPlan

inductive AuthorityFault where
  | badBrackets
  | badVersion
  | bracketedOctets
  | notAnAddress (host : String)
  | otherSeparators (authority : String)
deriving Repr, DecidableEq

def AuthorityFault.message : AuthorityFault → String
  | badBrackets => "Invalid IPv6 URL"
  | badVersion => "IPvFuture address is invalid"
  | bracketedOctets => "An IPv4 address cannot be in brackets"
  | notAnAddress host => Text.quoted host ++ " does not appear to be an IPv4 or IPv6 address"
  | otherSeparators authority =>
    "netloc '" ++ authority ++ "' contains invalid characters under NFKC normalization"

namespace Host

open Text (cut cutFirst? cutLast?)

def isHexDigit (c : Char) : Bool := (Text.hexValue? c).isSome

def greatestOctet : Nat := 255

def isOctet (cs : List Char) : Bool :=
  match cs with
  | [] => false
  | [c] => c.isDigit
  | '0' :: _ => false
  | cs => cs.length ≤ 3 && cs.all Char.isDigit && Text.decimalValue cs ≤ greatestOctet

def isOctets (cs : List Char) : Bool :=
  let octets := cut '.' cs
  octets.length == 4 && octets.all isOctet

def isGroup (cs : List Char) : Bool := !cs.isEmpty && cs.length ≤ 4 && cs.all isHexDigit

/-- A last part of four octets stands for two groups. -/
def withoutOctets (parts : List (List Char)) : Option (List (List Char)) :=
  match parts.getLast? with
  | some last =>
    if !last.contains '.' then some parts
    else if isOctets last then some (parts.dropLast ++ [['0'], ['0']])
    else none
  | none => some parts

def groupCount : Nat := 8

/-- What stands on one side of the groups that are left out: groups, or nothing between two
    colons. -/
def isSide (parts : List (List Char)) : Bool := parts == [[]] || parts.all isGroup

def sideGroups (parts : List (List Char)) : Nat := (parts.filter fun part => !part.isEmpty).length

/-- The parts before the first empty one, and those after it; the outermost parts are not looked
    at. -/
def cutAtGap : List (List Char) → Option (List (List Char) × List (List Char))
  | first :: [] :: last :: rest => some ([first], last :: rest)
  | first :: part :: rest => (cutAtGap (part :: rest)).map fun (before, after) =>
    (first :: before, after)
  | _ => none

def areGroups (parts : List (List Char)) : Bool :=
  match cutAtGap parts with
  | none => parts.length == groupCount && parts.all isGroup
  | some (before, after) =>
    isSide before && isSide after && sideGroups before + sideGroups after < groupCount

def withoutZone (cs : List Char) : Option (List Char) :=
  match cutFirst? '%' cs with
  | none => some cs
  | some (address, zone) => if zone.isEmpty || zone.contains '%' then none else some address

def isGroups (cs : List Char) : Bool :=
  match withoutZone cs with
  | none => false
  | some address => match withoutOctets (cut ':' address) with
    | some parts => areGroups parts
    | none => false

def isVersioned (cs : List Char) : Bool :=
  match cutFirst? '.' cs with
  | some ('v' :: version, address) =>
    !version.isEmpty && version.all isHexDigit && !address.isEmpty
  | _ => false

def check (host : List Char) : Except AuthorityFault Unit :=
  if host.head? = some 'v' then
    if isVersioned host then .ok () else .error .badVersion
  else if isOctets host then .error .bracketedOctets
  else if isGroups host then .ok ()
  else .error (.notAnAddress (String.ofList host))

def withoutUser (authority : List Char) : List Char :=
  match cutLast? '@' authority with
  | some (_, host) => host
  | none => authority

def ofBracketed (authority : List Char) : Except AuthorityFault (List Char) :=
  let host := withoutUser authority
  match cutFirst? '[' host with
  | none => .ok (host.takeWhile (· ≠ ':'))
  | some (_ :: _, _) => .error .badBrackets
  | some ([], bracketed) => match cutFirst? ']' bracketed with
    | none => .ok bracketed
    | some (inside, rest) =>
      if rest.isEmpty || rest.head? = some ':' then .ok inside else .error .badBrackets

/-- An authority without brackets has any host; of brackets there must be both kinds. -/
def checkAuthority (authority : List Char) : Except AuthorityFault Unit :=
  match authority.contains '[', authority.contains ']' with
  | false, false => .ok ()
  | true, true => ofBracketed authority >>= check
  | _, _ => .error .badBrackets

end Host
end HarvestPlan
