import HttpServer.Objects.Raw
import HttpServer.Library.Calendar

open Calendar

namespace Http

-- The members of `std::tm` that are printed. Months and days of the week are counted from 0, years
-- from 1900.
structure Tm where
  sec  : Nat := 0
  min  : Nat := 0
  hour : Nat := 0
  mday : Nat := 0
  mon  : Nat := 0
  year : Nat := 0
  wday : Nat := 0
  deriving DecidableEq, Repr

-- What `gmtime_r` makes of a `tm` of zeros. It fails and leaves it alone if the year does not fit an
-- `int`. The first day of 1970 was a Thursday.
def gmtimeR (now : Nat) : Tm :=
  let date := Date.ofDayNumber (yearStart 1970 + now / 86400)
  if date.year - 1900 ≥ 2 ^ 31 then {}
  else {
    sec  := now % 60
    min  := now / 60 % 60
    hour := now / 3600 % 24
    mday := date.day
    mon  := date.month
    year := date.year - 1900
    wday := (now / 86400 + 4) % 7 }

def dayNames : List String :=
  ["Sun", "Mon", "Tue", "Wed", "Thu", "Fri", "Sat"]

def monthNames : List String :=
  ["Jan", "Feb", "Mar", "Apr", "May", "Jun", "Jul", "Aug", "Sep", "Oct", "Nov", "Dec"]

-- The conversions `%d`, `%H`, `%M` and `%S`.
def twoDigits (n : Nat) : Bytes :=
  [(n / 10).digitChar.toUInt8, (n % 10).digitChar.toUInt8]

-- The format "%a, %d %b %Y %H:%M:%S GMT" in the C locale.
def Tm.text (tm : Tm) : Bytes :=
  ascii (dayNames.getD tm.wday "?") ++ ascii ", " ++
  twoDigits tm.mday ++ ascii " " ++
  ascii (monthNames.getD tm.mon "?") ++ ascii " " ++
  decimal (1900 + tm.year) ++ ascii " " ++
  twoDigits tm.hour ++ ascii ":" ++ twoDigits tm.min ++ ascii ":" ++ twoDigits tm.sec ++
  ascii " GMT"

-- The variables of `http_date_now` that outlive a call.
structure DateCache where
  cached : Nat := 0
  text   : Bytes := []
  deriving DecidableEq, Repr

def kEpoch : Bytes := ascii "Thu, 01 Jan 1970 00:00:00 GMT"

-- `strftime` fails if the text does not fit the buffer.
def httpDateNow (c : DateCache) (now : Nat) : Bytes × DateCache :=
  if now = c.cached && !c.text.isEmpty then (c.text, c)
  else
    let c := { c with cached := now }
    match printed 64 (gmtimeR now).text with
    | none      => (kEpoch, c)
    | some text => (text, { c with text := text })

end Http
