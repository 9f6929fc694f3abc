/-!
Days and instants of the proleptic Gregorian calendar, and their texts. A year outside 0 to 9999
has a sign and at least four digits. An instant counts seconds from 1970 in UTC; nanoseconds of a
thousand million or more say that it lies in a leap second, which is written as second 60.
-/

namespace ResourceApi

structure Date where
  year : Int
  month : Nat
  day : Nat
  deriving DecidableEq, Repr

structure Instant where
  seconds : Int
  nanos : Nat
  deriving DecidableEq, Repr

namespace Calendar

/-- A number with zeros in front, up to a width. -/
def padded (width n : Nat) : List Char :=
  let ds := Nat.toDigits 10 n
  List.replicate (width - ds.length) '0' ++ ds

def yearText (y : Int) : List Char :=
  if 0 ≤ y ∧ y ≤ 9999 then padded 4 y.toNat
  else (if y < 0 then '-' else '+') :: padded 4 y.natAbs

/-- The date so many days after 1 January 1970. Years are counted from March, so that the leap day
is the last of its year, in cycles of 400 years. -/
def ofDays (days : Int) : Date :=
  let z := days + 719468
  let cycle := z.fdiv 146097
  let doe := (z - cycle * 146097).toNat
  let yoe := (doe - doe / 1460 + doe / 36524 - doe / 146096) / 365
  let doy := doe - (365 * yoe + yoe / 4 - yoe / 100)
  let mp := (5 * doy + 2) / 153
  let month := if mp < 10 then mp + 3 else mp - 9
  let year := (yoe : Int) + cycle * 400 + (if month ≤ 2 then 1 else 0)
  ⟨year, month, doy - (153 * mp + 2) / 5 + 1⟩

end Calendar

open Calendar

def Date.text (d : Date) : List Char :=
  yearText d.year ++ '-' :: padded 2 d.month ++ '-' :: padded 2 d.day

/-- Date and time to the second, with the mark of UTC. -/
def Instant.text (t : Instant) : List Char :=
  let days := t.seconds.fdiv 86400
  let second := (t.seconds - days * 86400).toNat
  let leap := if 1000000000 ≤ t.nanos then 1 else 0
  (ofDays days).text ++ 'T' :: padded 2 (second / 3600) ++ ':' :: padded 2 (second / 60 % 60)
    ++ ':' :: padded 2 (second % 60 + leap) ++ ['Z']

end ResourceApi
