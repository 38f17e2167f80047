import HarvestPlan.Text.Digit

namespace HarvestPlan

abbrev Octets := List UInt8

namespace Octets

def ofChars (cs : List Char) : Octets := cs.flatMap String.utf8EncodeChar

def ofText (s : String) : Octets := ofChars s.toList

def text? (octets : Octets) : Option String := String.fromUTF8? ⟨octets.toArray⟩

/-- The octets of a text with escapes: a percent sign and two hexadecimal digits stand for one. -/
def unescaped : List Char → Octets
  | [] => []
  | '%' :: a :: b :: cs => match Text.hexValue? a, Text.hexValue? b with
    | some high, some low => UInt8.ofNat (16 * high + low) :: unescaped cs
    | _, _ => String.utf8EncodeChar '%' ++ unescaped (a :: b :: cs)
  | c :: cs => String.utf8EncodeChar c ++ unescaped cs

end Octets
end HarvestPlan
