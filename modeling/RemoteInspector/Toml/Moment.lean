import RemoteInspector.Toml.Numeral

/-!
Dates and times. Nothing of a moment is kept, but its form and the ranges of its parts are checked.
-/

namespace RemoteInspector.Toml

open Reader

def fixedDigits (count : Nat) : Reader Nat := do
  let ds := ((← get).takeWhile Char.isDigit).take count
  if ds.length = count then
    word ds
    return numberOfDigits 10 ds
  else throw {}

def twoDigits (least greatest : Nat) : Reader Nat := do
  let n ← fixedDigits 2
  if least ≤ n ∧ n ≤ greatest then return n else object .outOfRange

def daysOfMonth (year month : Nat) : Nat :=
  if month = 2 then
    if year % 4 = 0 ∧ (year % 100 ≠ 0 ∨ year % 400 = 0) then 29 else 28
  else if month = 4 ∨ month = 6 ∨ month = 9 ∨ month = 11 then 30
  else 31

def date : Reader Unit := do
  let year ← fixedDigits 4
  let _ ← char '-'
  let month ← firmly (twoDigits 1 12)
  let _ ← firmly (char '-')
  let day ← firmly (twoDigits 1 31)
  if daysOfMonth year month < day then firmly (object .outOfRange)

/-- A time of the day; a minute may have a sixty-first second. -/
def timeOfDay : Reader Unit := do
  let _ ← twoDigits 0 23
  let _ ← char ':'
  firmly do
    let _ ← twoDigits 0 59
    let _ ← char ':'
    let _ ← twoDigits 0 60
    let _ ← optional do
      let _ ← char '.'
      takingSome Char.isDigit

def offset : Reader Unit :=
  naming "time offset" <| orElse (do let _ ← satisfying fun c => c == 'Z' || c == 'z') do
    let _ ← satisfying isSign
    firmly do
      let _ ← twoDigits 0 23
      let _ ← char ':'
      let _ ← twoDigits 0 59

def moment : Reader Item := do
  orElse
    (naming "date-time" do
      date
      let _ ← optional do
        let _ ← satisfying fun c => c == 'T' || c == 't' || c == ' '
        timeOfDay
        optional offset)
    (naming "time" timeOfDay)
  return .moment

end RemoteInspector.Toml
