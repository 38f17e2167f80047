import HarvestPlan.Text.Blank
import HarvestPlan.Text.Segments
import HarvestPlan.Failure

/-!
The scheme and the path of a URI. Leading controls and blanks are dropped, and so is every tab and
line end; nothing is decoded. The authority is checked and dropped.
-/
namespace HarvestPlan

structure Uri where
  scheme : String
  path : String
deriving Repr, DecidableEq

namespace Uri

/-- The schemes whose last path segment may carry parameters after a semicolon; a path without a
    scheme may as well. -/
def parameterSchemes : List String :=
  ["", "ftp", "hdl", "prospero", "http", "imap", "https", "shttp", "rtsp", "rtspu", "sip", "sips",
    "mms", "sftp", "tel"]

def isSchemeChar (c : Char) : Bool :=
  c.isAlpha || c.isDigit || c == '+' || c == '-' || c == '.'

def cleaned (text : List Char) : List Char :=
  (text.dropWhile fun c => c ≤ ' ').filter fun c => c != '\t' && c != '\n' && c != '\r'

def takeScheme (text : List Char) : String × List Char :=
  match Text.cutFirst? ':' text with
  | some (first :: scheme, rest) =>
    if first.isAlpha && scheme.all isSchemeChar then
      (String.ofList ((first :: scheme).map Char.toLower), rest)
    else ("", text)
  | _ => ("", text)

def endsAuthority (c : Char) : Bool := c == '/' || c == '?' || c == '#'

def takeAuthority : List Char → List Char × List Char
  | '/' :: '/' :: rest =>
    (rest.takeWhile fun c => !endsAuthority c, rest.dropWhile fun c => !endsAuthority c)
  | text => ([], text)

def separatorForms : List Char :=
  ['\u2047', '\u2048', '\u2049', '\u2100', '\u2101', '\u2105', '\u2106', '\u2a74', '\ufe13',
    '\ufe16', '\ufe55', '\ufe56', '\ufe5f', '\ufe6b', '\uff03', '\uff0f', '\uff1a', '\uff1f',
    '\uff20']

def before (c : Char) (text : List Char) : List Char := text.takeWhile (· != c)

def dropParameters (path : List Char) : List Char :=
  match Text.cutLast? '/' path with
  | some (parents, last) => parents ++ '/' :: before ';' last
  | none => before ';' path

def checkAuthority (authority : List Char) : Except AuthorityFault Unit := do
  Host.checkAuthority authority
  if authority.any separatorForms.contains then
    throw (.otherSeparators (String.ofList authority))

def parse (text : String) : Except Failure Uri := do
  let (scheme, rest) := takeScheme (cleaned text.toList)
  let (authority, rest) := takeAuthority rest
  (checkAuthority authority).mapError fun fault => .refused (.badAuthority fault)
  let path := before '?' (before '#' rest)
  pure ⟨scheme, String.ofList
    (if parameterSchemes.contains scheme then dropParameters path else path)⟩

end Uri
end HarvestPlan
