import DocStore.Calendar.Date

/-!
Instants: whole seconds since 1970-01-01T00:00:00Z and the nanoseconds after them.

A leap second is the second after the last one of a minute; it is kept as that last second with 10⁹
added to the nanoseconds. Nothing keeps an instant from having as many nanoseconds after any other
second, but none is made so from seconds and nanoseconds or read so (`Instant.ofEpoch?`). The text form
is UTC with 3, 6 or 9 digits after the point, as many as the nanoseconds need (`Instant.text`). Reading
takes any offset from UTC (`Instant.ofText?`).
-/

namespace DocStore.Calendar

/-- The first second of the year -262143. -/
def firstSecond : Int := 86400 * Date.dayNumber ⟨-262143, 1, 1⟩

/-- The last second of the year 262142. -/
def lastSecond : Int := 86400 * Date.dayNumber ⟨262143, 1, 1⟩ - 1

/-- The seconds lie in the years -262143 to 262142, and the nanoseconds in two seconds. -/
def Representable (seconds : Int) (nanos : Nat) : Prop :=
  firstSecond ≤ seconds ∧ seconds ≤ lastSecond ∧ nanos < 2000000000

instance (seconds : Int) (nanos : Nat) : Decidable (Representable seconds nanos) :=
  inferInstanceAs (Decidable (_ ∧ _ ∧ _))

/-- Only the last second of a minute is followed by a leap second. -/
def LeapInPlace (seconds : Int) (nanos : Nat) : Prop :=
  1000000000 ≤ nanos → seconds % 60 = 59

instance (seconds : Int) (nanos : Nat) : Decidable (LeapInPlace seconds nanos) :=
  inferInstanceAs (Decidable (_ → _))

/-- A point in time. -/
structure Instant where
  seconds : Int
  nanos : Nat
  representable : Representable seconds nanos
deriving DecidableEq

/-- A time of day; second 60 is a leap second. -/
structure TimeOfDay where
  hour : Nat
  minute : Nat
  second : Nat
  nanos : Nat
deriving DecidableEq, Repr

namespace Instant

instance : Repr Instant where
  reprPrec instant _ := repr (instant.seconds, instant.nanos)

/-- The instant with these seconds and nanoseconds, if there is one and any leap second is in its place. -/
def ofEpoch? (seconds : Int) (nanos : Nat) : Option Instant :=
  if h : Representable seconds nanos ∧ LeapInPlace seconds nanos then some ⟨seconds, nanos, h.1⟩ else none

/-- The instant that many milliseconds after the epoch. -/
def ofMillis? (millis : Int) : Option Instant :=
  ofEpoch? (millis / 1000) ((millis % 1000).toNat * 1000000)

/-- Milliseconds since the epoch; in a leap second they run on. -/
def toMillis (instant : Instant) : Int :=
  instant.seconds * 1000 + (instant.nanos / 1000000 : Nat)

/-- The day in UTC. -/
def date (instant : Instant) : Date :=
  Date.ofDayNumber (instant.seconds / 86400)

/-- The time of day in UTC. -/
def timeOfDay (instant : Instant) : TimeOfDay :=
  let daySecond := (instant.seconds % 86400).toNat
  let leap := instant.nanos / 1000000000
  ⟨daySecond / 3600, daySecond / 60 % 60, daySecond % 60 + leap, instant.nanos % 1000000000⟩

/-- The fraction of a second: 3, 6 or 9 digits, the fewest that show all nanoseconds. -/
def fractionText (nanos : Nat) : String :=
  if nanos % 1000000 = 0 then Decimal.padded 3 (nanos / 1000000)
  else if nanos % 1000 = 0 then Decimal.padded 6 (nanos / 1000)
  else Decimal.padded 9 nanos

/-- The day and the time down to the second. -/
def secondText (instant : Instant) : String :=
  let time := instant.timeOfDay
  instant.date.text ++ "T" ++ Decimal.padded 2 time.hour ++ ":" ++ Decimal.padded 2 time.minute ++
    ":" ++ Decimal.padded 2 time.second

/-- The text form in UTC, such as `2024-02-29T12:30:00.250Z`. -/
def text (instant : Instant) : String :=
  instant.secondText ++ "." ++ fractionText instant.timeOfDay.nanos ++ "Z"

/-- The short form shown in messages: no fraction for a whole second. -/
def shortText (instant : Instant) : String :=
  let nanos := instant.timeOfDay.nanos
  if nanos = 0 then instant.secondText ++ "Z"
  else instant.secondText ++ "." ++ fractionText nanos ++ "Z"

/-! ### Reading -/

/-- Takes `count` digits from the front. -/
def takeDigits? (count : Nat) (cs : List Char) : Option (Nat × List Char) :=
  let ds := cs.take count
  if ds.length = count then
    (Decimal.nat? ds).map fun n => (n, cs.drop count)
  else none

/-- Takes one given character from the front. -/
def takeChar? (c : Char) : List Char → Option (List Char)
  | d :: rest => if d = c then some rest else none
  | [] => none

/-- Takes `YYYY-MM-DD`, a day of the calendar. -/
def takeDate? (cs : List Char) : Option (Date × List Char) := do
  let (year, cs) ← takeDigits? 4 cs
  let cs ← takeChar? '-' cs
  let (month, cs) ← takeDigits? 2 cs
  let cs ← takeChar? '-' cs
  let (day, cs) ← takeDigits? 2 cs
  let date : Date := ⟨year, month, day⟩
  if date.inCalendar then some (date, cs) else none

/-- Takes a point and at least one digit, if a point comes next: the nanoseconds. Digits after the
ninth are dropped. -/
def takeFraction? : List Char → Option (Nat × List Char)
  | '.' :: cs =>
    let ds := cs.takeWhile Decimal.isDigit
    (Decimal.nat? ((ds ++ List.replicate 9 '0').take 9)).bind fun nanos =>
      if ds.isEmpty then none else some (nanos, cs.dropWhile Decimal.isDigit)
  | cs => some (0, cs)

/-- Takes `hh:mm:ss` with an optional fraction. -/
def takeTime? (cs : List Char) : Option (TimeOfDay × List Char) := do
  let (hour, cs) ← takeDigits? 2 cs
  let cs ← takeChar? ':' cs
  let (minute, cs) ← takeDigits? 2 cs
  let cs ← takeChar? ':' cs
  let (second, cs) ← takeDigits? 2 cs
  let (nanos, cs) ← takeFraction? cs
  if hour < 24 ∧ minute < 60 ∧ second ≤ 60 then some (⟨hour, minute, second, nanos⟩, cs) else none

/-- The seconds that a local time is ahead of UTC: `Z` or `z`, or a sign and `hh:mm` up to the end. -/
def offset? : List Char → Option Int
  | [] => none
  | sign :: cs =>
    if sign = 'Z' ∨ sign = 'z' then
      if cs.isEmpty then some 0 else none
    else if sign = '+' ∨ sign = '-' ∨ sign = '\u2212' then do
      let (hours, cs) ← takeDigits? 2 cs
      let cs ← takeChar? ':' cs
      let (minutes, cs) ← takeDigits? 2 cs
      if hours < 24 ∧ minutes < 60 ∧ cs.isEmpty then
        let ahead : Int := hours * 3600 + minutes * 60
        some (if sign = '+' then ahead else -ahead)
      else none
    else none

/-- The instant of a local day and time that is `offset` seconds ahead of UTC. -/
def ofLocal? (date : Date) (time : TimeOfDay) (offset : Int) : Option Instant :=
  let leap := time.second / 60
  let seconds := date.dayNumber * 86400 + (time.hour * 3600 + time.minute * 60 : Nat) +
    (time.second - leap : Nat) - offset
  ofEpoch? seconds (time.nanos + leap * 1000000000)

/-- Reads `YYYY-MM-DDThh:mm:ss`, an optional fraction and an offset; a small `t` or a blank may stand
for the `T`. -/
def ofText? (text : String) : Option Instant := do
  let (date, cs) ← takeDate? text.toList
  match cs with
  | [] => none
  | separator :: cs =>
    if separator = 'T' ∨ separator = 't' ∨ separator = ' ' then do
      let (time, cs) ← takeTime? cs
      let offset ← offset? cs
      ofLocal? date time offset
    else none

end Instant

end DocStore.Calendar
