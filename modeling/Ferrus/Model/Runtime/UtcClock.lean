import Ferrus.Model.Runtime.Clock

/-! # A concrete clock

The calendar behind the lease texts, for the whole seconds of UTC that the claim code prints. Years
from 0 to 9999 print with four digits. A later year prints with a sign and more digits, which the
RFC 3339 parser does not accept.
-/

namespace Ferrus.Runtime.UtcClock

/-- The civil date of a day count from 1970-01-01, in the proleptic Gregorian calendar. -/
def civilFromDays (days : Int) : Int × Int × Int :=
  let shifted := days + 719468
  let era := shifted / 146097
  let dayOfEra := shifted % 146097
  let yearOfEra := (dayOfEra - dayOfEra / 1460 + dayOfEra / 36524 - dayOfEra / 146096) / 365
  let dayOfYear := dayOfEra - (365 * yearOfEra + yearOfEra / 4 - yearOfEra / 100)
  let monthFromMarch := (5 * dayOfYear + 2) / 153
  let day := dayOfYear - (153 * monthFromMarch + 2) / 5 + 1
  let month := if monthFromMarch < 10 then monthFromMarch + 3 else monthFromMarch - 9
  (yearOfEra + era * 400 + (if month ≤ 2 then 1 else 0), month, day)

/-- The day count of a civil date. -/
def daysFromCivil (year month day : Int) : Int :=
  let shifted := if month ≤ 2 then year - 1 else year
  let era := shifted / 400
  let yearOfEra := shifted % 400
  let monthFromMarch := (month + 9) % 12
  let dayOfYear := (153 * monthFromMarch + 2) / 5 + day - 1
  era * 146097 + (yearOfEra * 365 + yearOfEra / 4 - yearOfEra / 100 + dayOfYear) - 719468

def nanosPerSecond : Int := 1000000000

def digit (value : Nat) : Char := Char.ofNat (48 + value % 10)

def twoDigits (value : Nat) : List Char := [digit (value / 10), digit value]

def fourDigits (value : Nat) : List Char := twoDigits (value / 100) ++ twoDigits value

/-- A year outside of the four-digit range carries its sign. -/
def yearText (year : Int) : List Char :=
  if 0 ≤ year ∧ year ≤ 9999 then fourDigits year.toNat
  else
    let digits := (Nat.toDigits 10 year.natAbs)
    (if year < 0 then '-' else '+') :: (List.replicate (4 - digits.length) '0' ++ digits)

/-- Print the second an instant lies in. -/
def toRfc3339Secs (instant : Int) : String :=
  let seconds := instant / nanosPerSecond
  let (year, month, day) := civilFromDays (seconds / 86400)
  let second := (seconds % 86400).toNat
  String.ofList (yearText year ++ ['-'] ++ twoDigits month.toNat ++ ['-'] ++ twoDigits day.toNat ++ ['T'] ++
    twoDigits (second / 3600) ++ [':'] ++ twoDigits (second / 60 % 60) ++ [':'] ++
    twoDigits (second % 60) ++ ['Z'])

/-- A number of decimal digits. -/
def number? (digits : List Char) : Option Int :=
  if digits.all (·.isDigit) then
    some (digits.foldl (fun value char => 10 * value + ((char.toNat : Int) - 48)) 0)
  else none

/-- Read a whole second of UTC in the four-digit form. -/
def parseFromRfc3339 (text : String) : Option Int :=
  match text.toList with
  | [y₁, y₂, y₃, y₄, '-', m₁, m₂, '-', d₁, d₂, 'T', h₁, h₂, ':', n₁, n₂, ':', s₁, s₂, 'Z'] => do
      let year ← number? [y₁, y₂, y₃, y₄]
      let month ← number? [m₁, m₂]
      let day ← number? [d₁, d₂]
      let hour ← number? [h₁, h₂]
      let minute ← number? [n₁, n₂]
      let second ← number? [s₁, s₂]
      let days := daysFromCivil year month day
      if civilFromDays days = (year, month, day) ∧ hour ≤ 23 ∧ minute ≤ 59 ∧ second ≤ 59 then
        some ((days * 86400 + hour * 3600 + minute * 60 + second) * nanosPerSecond)
      else none
  | _ => none

/-- Durations are bounded by `i64` milliseconds. -/
def maxDuration : Int := 9223372036854775807 * 1000000

def trySeconds (seconds : Int) : Option Int :=
  if -maxDuration ≤ seconds * nanosPerSecond ∧ seconds * nanosPerSecond ≤ maxDuration then
    some (seconds * nanosPerSecond)
  else none

def add (instant duration : Int) : Option Int :=
  if InCalendar (instant + duration) then some (instant + duration) else none

end Ferrus.Runtime.UtcClock

namespace Ferrus.Runtime

/-- `chrono` on the whole seconds of UTC. -/
def utcChrono : Chrono where
  toRfc3339Secs := UtcClock.toRfc3339Secs
  parseFromRfc3339 := UtcClock.parseFromRfc3339
  trySeconds := UtcClock.trySeconds
  maxDuration := UtcClock.maxDuration
  add := UtcClock.add

/-- Some seconds after 2026-01-01T00:00:00Z. -/
def newYear (seconds : Int) : Instant := (1767225600 + seconds) * 1000000000

end Ferrus.Runtime
