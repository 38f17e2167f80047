import HarvestPlan.Number.Quantity

namespace HarvestPlan.Timestamp

def cycleDays : Int := 146097

/-- Days from the first of March of the year 0 to the first of January 1970. -/
def daysToEpoch : Int := 719468

/-- Year, month and day of a day counted from the start of 1970. Within a cycle years begin in
    March, so that the leap day is the last of its year. -/
def dateOf (day : Int) : Int × Int × Int :=
  let shifted := day + daysToEpoch
  let cycle := Int.fdiv shifted cycleDays
  let dayOfCycle := Int.fmod shifted cycleDays
  let year := (dayOfCycle - dayOfCycle / 1460 + dayOfCycle / 36524 - dayOfCycle / 146096) / 365
  let dayOfYear := dayOfCycle - (365 * year + year / 4 - year / 100)
  let month := (5 * dayOfYear + 2) / 153
  let dayOfMonth := dayOfYear - (153 * month + 2) / 5 + 1
  let calendarMonth := if month < 10 then month + 3 else month - 9
  let calendarYear := year + cycle * 400 + (if calendarMonth ≤ 2 then 1 else 0)
  (calendarYear, calendarMonth, dayOfMonth)

def twoDigits (n : Int) : String := String.ofList (paddedDigits 2 n.toNat)

/-- The first year that a date can have; years count from 1900 and have 32 bits. -/
def firstYear : Int := 1900 - twoTo 31

def lastYear : Int := twoTo 31 - 1

def ofSeconds (seconds : Int) : Option String :=
  let (year, month, day) := dateOf (Int.fdiv seconds 86400)
  let second := Int.fmod seconds 86400
  if year < firstYear ∨ lastYear < year then none
  else some (toString year ++ "-" ++ twoDigits month ++ "-" ++ twoDigits day ++ " " ++
    twoDigits (second / 3600) ++ ":" ++ twoDigits (second / 60 % 60) ++ ":" ++
    twoDigits (second % 60))

def floor? : Quantity → Option Int
  | .int n => some n
  | .flag b => some (Quantity.ofBool b)
  | .float x => x.truncate?.map fun n =>
    if (Quantity.float x).less (.int n) then n - 1 else n

def text? (created : Quantity) : Option String := floor? created >>= ofSeconds

end HarvestPlan.Timestamp
