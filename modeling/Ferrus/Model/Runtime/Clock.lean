import Ferrus.Model.Runtime.Database
import Mathlib.Data.Int.Basic

/-! # Lease deadlines as text

A lease deadline is computed with `chrono`, stored as RFC 3339 text and parsed again by every later
reader. What the claim code uses of `chrono` is a parameter of the model. A text that the parser
refuses is no deadline at all, so the code treats the lease as expired.
-/

namespace Ferrus.Runtime

/-- Nanoseconds since the Unix epoch. -/
abbrev Instant := Int

/-- The second an instant lies in, which is all that a printed deadline keeps. -/
def wholeSecond (instant : Int) : Int := instant - instant % 1000000000

/-- From 0000-01-01T00:00:00Z up to 10000-01-01T00:00:00Z. -/
def FourDigitYear (instant : Int) : Prop :=
  -62167219200000000000 ≤ instant ∧ instant < 253402300800000000000

instance (instant : Int) : Decidable (FourDigitYear instant) :=
  inferInstanceAs (Decidable (_ ∧ _))

/-- From the year -262143 to the end of the year 262142, the dates of `chrono`. -/
def InCalendar (instant : Int) : Prop :=
  -8334601228800000000000 ≤ instant ∧ instant < 8210266876800000000000

instance (instant : Int) : Decidable (InCalendar instant) :=
  inferInstanceAs (Decidable (_ ∧ _))

/-- The calls into `chrono`. -/
structure Chrono where
  /-- `DateTime::to_rfc3339_opts(SecondsFormat::Secs, true)` -/
  toRfc3339Secs : Instant → String
  /-- `DateTime::parse_from_rfc3339`, as an instant -/
  parseFromRfc3339 : String → Option Instant
  /-- `Duration::try_seconds` -/
  trySeconds : Int → Option Int
  /-- `Duration::MAX` -/
  maxDuration : Int
  /-- `DateTime + Duration`, `none` where the addition panics -/
  add : Instant → Int → Option Instant

/-- `ttl_secs as i64`. -/
def asI64 (value : Nat) : Int := (value : Int).bmod (2 ^ 64)

namespace Chrono

variable (chrono : Chrono)

/-- The deadline of a lease taken now. -/
def leaseDeadline (now : Instant) (ttlSecs : Nat) : Option Instant :=
  chrono.add now ((chrono.trySeconds (asI64 ttlSecs)).getD chrono.maxDuration)

def parseLeaseUntil (leaseUntil : Option String) : Option Instant :=
  leaseUntil.bind chrono.parseFromRfc3339

/-- The liveness test of every claim and renewal. -/
def leaseActive (now : Instant) (leaseUntil : Option String) : Bool :=
  (chrono.parseLeaseUntil leaseUntil).any fun deadline => now < deadline

/-- RFC 3339 texts of a year with four digits are read back. -/
def ReadsBack : Prop :=
  ∀ instant, FourDigitYear instant →
    chrono.parseFromRfc3339 (chrono.toRfc3339Secs instant) = some (wholeSecond instant)

/-- RFC 3339 has no other years. -/
def ReadsFourDigits : Prop :=
  ∀ instant, (chrono.parseFromRfc3339 (chrono.toRfc3339Secs instant)).isSome = true → FourDigitYear instant

/-- The bounds of durations, in `i64` milliseconds, and of dates. -/
structure Bounded : Prop where
  maxDuration : chrono.maxDuration = 9223372036854775807 * 1000000
  trySeconds : ∀ seconds, chrono.trySeconds seconds =
    if -chrono.maxDuration ≤ seconds * 1000000000 ∧ seconds * 1000000000 ≤ chrono.maxDuration then
      some (seconds * 1000000000) else none
  add : ∀ instant duration, chrono.add instant duration =
    if InCalendar (instant + duration) then some (instant + duration) else none

theorem leaseActive_iff {now : Instant} {leaseUntil : Option String} : chrono.leaseActive now leaseUntil = true ↔
      ∃ deadline, chrono.parseLeaseUntil leaseUntil = some deadline ∧ now < deadline := by
  simp only [leaseActive, Option.any_eq_true, decide_eq_true_eq]

end Chrono

end Ferrus.Runtime
