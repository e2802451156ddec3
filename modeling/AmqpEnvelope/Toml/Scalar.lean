import AmqpEnvelope.Toml.Text

/-!
# TOML numbers, dates and times

An integer is decimal with an optional sign, or has a base mark and no sign; it has to fit
64 bits with sign.  Digits may be grouped by single underscores.  A number with a fraction or
an exponent is refused when it is too large to be represented; one that is too small is not,
nor is a negative one.  Dates have to exist in the calendar.
-/

namespace AmqpEnvelope.Toml

open Reader

/-! ## Numbers -/

/-- Digits, in which single underscores may stand between two. -/
def groupedDigits (isDigit : Char → Bool) : Reader (List Char) := do
  let first ← satisfying isDigit
  return first :: (← many (satisfying isDigit <|> (char '_' *> satisfying isDigit)))

/-- The sign of a number; the result tells whether it is a minus. -/
def sign : Reader Bool := do
  match ← maybe (satisfying fun c => c == '+' || c == '-') with
  | some c => return c == '-'
  | none => return false

/-- Decimal digits without a leading zero, unless there is only that. -/
def wholeDigits : Reader (List Char) :=
  (char '0' *> pure ['0']) <|> groupedDigits Char.isDigit

/-- A number behind its base mark. -/
def basedNumber : Reader Nat :=
  (do word "0x"; return numberOf 16 (← groupedDigits isHexDigit))
    <|> (do word "0o"; return numberOf 8 (← groupedDigits fun c => '0' ≤ c && c ≤ '7'))
    <|> (do word "0b"; return numberOf 2 (← groupedDigits fun c => c == '0' || c == '1'))

/-- An integer. -/
def integer : Reader Int := do
  let value ← (do return (← basedNumber : Int))
    <|> (do
      let negative ← sign
      let magnitude := numberOf 10 (← wholeDigits)
      return if negative then -(magnitude : Int) else magnitude)
  if Int64.minValue.toInt ≤ value && value ≤ Int64.maxValue.toInt then return value else failure

/-- The exponent of a number. -/
def exponent : Reader Int := do
  let _ ← satisfying fun c => c == 'e' || c == 'E'
  let negative ← sign
  let magnitude := numberOf 10 (← groupedDigits Char.isDigit)
  return if negative then -(magnitude : Int) else magnitude

/-- The digits of a fraction. -/
def fraction : Reader (List Char) := char '.' *> groupedDigits Char.isDigit

/-- The decimal `digits · 10 ^ power` is too large for a number in double precision: it lies
at or past the middle between the largest one and the next power of two. -/
def overflows (digits : List Char) (power : Int) : Bool :=
  let significant := digits.dropWhile (· == '0')
  let magnitude : Int := significant.length + power
  if significant.isEmpty || magnitude < 300 then false
  else if 320 < magnitude then true
  else
    let value := numberOf 10 significant
    let limit := Nat.pow 2 1024 - Nat.pow 2 970
    if 0 ≤ power then limit ≤ value * Nat.pow 10 power.toNat
    else limit * Nat.pow 10 (-power).toNat ≤ value

/-- A number with a fraction, an exponent or both. -/
def decimalFloat : Reader Unit := do
  let negative ← sign
  let whole ← wholeDigits
  let digits ← maybe fraction
  let power ← if digits.isNone then some <$> exponent else maybe exponent
  let behind := digits.getD []
  if !negative && overflows (whole ++ behind) (power.getD 0 - behind.length) then failure

/-- An infinity or no number, with an optional sign. -/
def specialFloat : Reader Unit := do
  let _ ← sign
  word "inf" <|> word "nan"

/-! ## Dates and times -/

/-- A number of two digits between bounds. -/
def twoDigits (low high : Nat) : Reader Nat := do
  let value := numberOf 10 (← times 2 Char.isDigit)
  if low ≤ value && value ≤ high then return value else failure

/-- The number of days in a month. -/
def daysIn (year month : Nat) : Nat :=
  let leap := year % 4 == 0 && (year % 100 != 0 || year % 400 == 0)
  if month = 2 then if leap then 29 else 28
  else if month = 4 || month = 6 || month = 9 || month = 11 then 30
  else 31

/-- A date. -/
def date : Reader Unit := do
  let year := numberOf 10 (← times 4 Char.isDigit)
  char '-'
  let month ← twoDigits 1 12
  char '-'
  let day ← twoDigits 1 31
  if daysIn year month < day then failure

/-- A time of day; the sixtieth second is the leap second. -/
def timeOfDay : Reader Unit := do
  let _ ← twoDigits 0 23
  char ':'
  let _ ← twoDigits 0 59
  char ':'
  let _ ← twoDigits 0 60
  let _ ← maybe (char '.' *> run1 Char.isDigit)

/-- The offset from universal time. -/
def zone : Reader Unit :=
  (do let _ ← satisfying fun c => c == 'Z' || c == 'z')
    <|> (do
      let _ ← satisfying fun c => c == '+' || c == '-'
      let _ ← twoDigits 0 23
      char ':'
      let _ ← twoDigits 0 59)

/-- A date, a date with a time, or a time. -/
def moment : Reader Unit :=
  (do
    date
    let _ ← maybe (do
      let _ ← satisfying fun c => c == 'T' || c == 't' || c == ' '
      timeOfDay
      let _ ← maybe zone))
    <|> timeOfDay

/-! ## Every scalar -/

/-- A value that is neither an array nor a table. -/
def scalar : Reader Value :=
  (do return .string (← anyString))
    <|> (do word "true"; return .boolean true)
    <|> (do word "false"; return .boolean false)
    <|> (do moment; return .moment)
    <|> (do decimalFloat <|> specialFloat; return .float)
    <|> (do return .integer (← integer))

end AmqpEnvelope.Toml
