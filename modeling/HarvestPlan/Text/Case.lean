namespace HarvestPlan.Text

/-- The characters beyond ASCII whose upper case is in ASCII. -/
def foreignUpper : List (Char × List Char) :=
  [('\u00df', ['S', 'S']), ('\u0131', ['I']), ('\u017f', ['S']), ('\ufb00', ['F', 'F']),
    ('\ufb01', ['F', 'I']), ('\ufb02', ['F', 'L']), ('\ufb03', ['F', 'F', 'I']),
    ('\ufb04', ['F', 'F', 'L']), ('\ufb05', ['S', 'T']), ('\ufb06', ['S', 'T'])]

def upperAscii (s : String) : String :=
  String.ofList <| s.toList.flatMap fun c => (foreignUpper.lookup c).getD [c.toUpper]

/-- The characters beyond ASCII that count as a lower-case ASCII letter when case does not
    matter. -/
def foreignFolds : List (Char × Char) :=
  [('\u0130', 'i'), ('\u0131', 'i'), ('\u017f', 's'), ('\u212a', 'k')]

def fold (c : Char) : Char := (foreignFolds.lookup c).getD c.toLower

end HarvestPlan.Text
