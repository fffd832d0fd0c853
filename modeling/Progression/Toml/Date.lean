import Progression.Toml.Number

/-!
Days and times in TOML: a day, a time, or both with or without a zone.
-/

namespace Progression.Toml

/-- The word has digits where the picture has zeros, and else its characters. -/
def hasShape (picture : String) (cs : List Char) : Bool :=
  picture.toList.length == cs.length
    && (picture.toList.zip cs).all fun (p, c) => if p = '0' then c.isDigit else p == c

/-- The number in so many digits, from a place on. -/
def numberAt (start count : Nat) (cs : List Char) : Nat :=
  valueOf 10 ((cs.drop start).take count)

def isLeapYear (year : Nat) : Bool :=
  year % 4 == 0 && (year % 100 != 0 || year % 400 == 0)

def daysInMonth (year month : Nat) : Nat :=
  if month = 2 then if isLeapYear year then 29 else 28
  else if [4, 6, 9, 11].contains month then 30
  else if 1 ≤ month ∧ month ≤ 12 then 31
  else 0

/-- A day that the calendar has. -/
def isDay (cs : List Char) : Bool :=
  let day := numberAt 8 2 cs
  hasShape "0000-00-00" cs && 1 ≤ day && day ≤ daysInMonth (numberAt 0 4 cs) (numberAt 5 2 cs)

/-- The time of a day, with or without seconds and a fraction of them. A minute may have one
second more than usual. -/
def isTime (cs : List Char) : Bool :=
  (hasShape "00:00" cs || hasShape "00:00:00" cs
      || (hasShape "00:00:00." (cs.take 9) && 9 < cs.length && (cs.drop 9).all Char.isDigit))
    && numberAt 0 2 cs < 24 && numberAt 3 2 cs < 60 && numberAt 6 2 cs ≤ 60

/-- The distance from the time of the zero meridian. -/
def isZone (cs : List Char) : Bool :=
  (hasShape "+00:00" cs || hasShape "-00:00" cs) && numberAt 1 2 cs < 24 && numberAt 4 2 cs < 60

/-- A time, perhaps with its zone. -/
def isZonedTime (cs : List Char) : Bool :=
  isTime cs
    || ((cs.getLast? == some 'Z' || cs.getLast? == some 'z') && isTime cs.dropLast)
    || (isZone (cs.drop (cs.length - 6)) && isTime (cs.take (cs.length - 6)))

def isDate (cs : List Char) : Bool :=
  isDay cs || isTime cs
    || (isDay (cs.take 10) && (cs.drop 10).head?.any ['T', 't', ' '].contains
      && isZonedTime (cs.drop 11))

end Progression.Toml
