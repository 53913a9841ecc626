import Spooled.Lib.Text

/-!
# Cron expressions

`CronSchedule` of `models/schedule.rs`: the six fields, the parser with its
errors, and the two questions the search for the next run asks of them. Numbers
are `u8` in the source; here they are naturals, and the parser of a number
refuses what a `u8` cannot hold.
-/

namespace Spooled.Cron

/-- `CronField`. -/
inductive CronField where
  | any
  | value (v : Nat)
  | range (start stop : Nat)
  | step (step min : Nat)
  | list (values : List Nat)
  deriving DecidableEq, Repr

namespace CronField

/-- `field_matches`. -/
def matchesValue : CronField → Nat → Bool
  | any, _ => true
  | value v, n => v == n
  | range start stop, n => start ≤ n && n ≤ stop
  | step k min, n => min ≤ n && (n - min) % k == 0
  | list values, n => values.contains n

/-- A field that does not start with a star. -/
def restricted : CronField → Bool
  | any => false
  | step _ _ => false
  | _ => true

end CronField

/-- `CronSchedule`. -/
structure CronSchedule where
  second : CronField
  minute : CronField
  hour : CronField
  dayOfMonth : CronField
  month : CronField
  dayOfWeek : CronField
  deriving DecidableEq, Repr

namespace CronSchedule

/-- Minute `*` or `*/N`, or hour `*`: defined by real time, not by the wall clock. -/
def intervalLike (cron : CronSchedule) : Bool := !cron.minute.restricted || cron.hour == .any

def daysInMonth : List Nat := [31, 29, 31, 30, 31, 30, 31, 31, 30, 31, 30, 31]

/-- `has_reachable_date`. -/
def hasReachableDate (cron : CronSchedule) : Bool :=
  if !cron.dayOfMonth.restricted || cron.dayOfWeek.restricted then true
  else ((List.range' 1 12).filter cron.month.matchesValue).any fun month =>
    (List.range' 1 (daysInMonth.getD (month - 1) 0)).any cron.dayOfMonth.matchesValue

end CronSchedule

/-! ## The parser -/

/-- Unicode white space, which `split_whitespace` and `trim` go by. -/
def isWhitespace (c : Char) : Bool :=
  let n := c.toNat
  (9 ≤ n && n ≤ 13) || (8192 ≤ n && n ≤ 8202) ||
    [32, 133, 160, 5760, 8232, 8233, 8239, 8287, 12288].contains n

/-- `split_whitespace`. -/
def splitWhitespace (t : Text) : List Text := (t.splitOnP isWhitespace).filter (· ≠ [])

/-- `parse::<u8>`: an optional plus sign and decimal digits, up to 255. -/
def parseU8 (t : Text) : Option Nat :=
  let digits := if t.head? = some '+' then t.tail else t
  if digits = [] || !digits.all Char.isDigit then none
  else
    let n := digits.foldl (fun acc c => 10 * acc + (c.toNat - '0'.toNat)) 0
    if n ≤ 255 then some n else none

/-- `map_err` of a number that does not parse. -/
def parseOr (t error : Text) : Except Text Nat := (parseU8 t).elim (.error error) .ok

def digitsOf (n : Nat) : Text := (toString n).toList

/-- `parse_field`. -/
def parseField (field : Text) (min max : Nat) : Except Text CronField :=
  if field = ['*'] then .ok .any
  else if field.take 2 = ['*', '/'] then do
    let step ← parseOr (field.drop 2) ("Invalid step value: ".toList ++ field.drop 2)
    if step = 0 then .error "Step value cannot be 0 - would cause infinite loop".toList
    else if max < step then
      .error ("Step value ".toList ++ digitsOf step ++ " exceeds maximum ".toList ++ digitsOf max ++
        " for this field".toList)
    else .ok (.step step min)
  else if '-' ∈ field then
    match field.splitOn '-' with
    | [a, b] => do
      let start ← parseOr a ("Invalid range start: ".toList ++ a)
      let stop ← parseOr b ("Invalid range end: ".toList ++ b)
      if stop < start || start < min || max < stop then
        .error ("Range out of bounds: ".toList ++ digitsOf start ++ ['-'] ++ digitsOf stop)
      else .ok (.range start stop)
    | _ => .error ("Invalid range: ".toList ++ field)
  else if ',' ∈ field then
    match (field.splitOn ',').mapM parseU8 with
    | none => .error ("Invalid list value in: ".toList ++ field)
    | some values =>
      match values.find? fun v => v < min || max < v with
      | some v => .error ("List value out of bounds: ".toList ++ digitsOf v)
      | none => .ok (.list values)
  else do
    let value ← parseOr field ("Invalid field value: ".toList ++ field)
    if value < min || max < value then .error ("Value out of bounds: ".toList ++ digitsOf value)
    else .ok (.value value)

/-- The fields of an expression; five of them get a second of zero in front. -/
def fieldsOf (expression : Text) : List Text :=
  let parts := splitWhitespace expression
  if parts.length = 5 then ['0'] :: parts else parts

/-- The last check of the parser: fields in bounds may still name a day that never is. -/
def reachable (cron : CronSchedule) : Except Text CronSchedule :=
  if cron.hasReachableDate then .ok cron
  else .error ("day-of-month never occurs in the selected month(s) (e.g. February 30), " ++
    "so the schedule would never run").toList

/-- `CronSchedule::parse`. -/
def parse (expression : Text) : Except Text CronSchedule :=
  match fieldsOf expression with
  | [second, minute, hour, dayOfMonth, month, dayOfWeek] => do
    let second ← parseField second 0 59
    let minute ← parseField minute 0 59
    let hour ← parseField hour 0 23
    let dayOfMonth ← parseField dayOfMonth 1 31
    let month ← parseField month 1 12
    let dayOfWeek ← parseField dayOfWeek 0 7
    reachable ⟨second, minute, hour, dayOfMonth, month, dayOfWeek⟩
  | parts => .error (("expected 5 fields (min hour dom mon dow) or 6 fields " ++
      "(with leading seconds), got ").toList ++ digitsOf parts.length)

end Spooled.Cron
