import Netlist.Decimal.Reading
import Netlist.Toml.Value

/-!
Values that are written without quotes or brackets: truth values, numbers, dates and times. Every
one of them is a run of letters, digits and a few marks, and `scalar?` decides what the run means.
-/
namespace Netlist.Toml

/-- The digits of a number, in which single underscores may stand between digits. `afterDigit`
says whether a digit stands before the text. -/
def digits? (isDigit : Char → Bool) (afterDigit : Bool) : Text → Option Text
  | [] => if afterDigit then some [] else none
  | c :: rest =>
    if isDigit c then (digits? isDigit true rest).map (c :: ·)
    else if c = '_' && afterDigit then digits? isDigit false rest
    else none

def digitValue (c : Char) : Nat :=
  if c.isDigit then c.toNat - '0'.toNat else c.toLower.toNat - 'a'.toNat + 10

def isDigitOf (base : Nat) (c : Char) : Bool :=
  (c.isDigit || ('a' ≤ c.toLower && c.toLower ≤ 'f')) && decide (digitValue c < base)

def numeral (base : Nat) (digits : Text) : Nat := digits.foldl (fun n c => base * n + digitValue c) 0

/-- Integers have at most 128 bits. -/
def integer? (n : Int) : Option Value :=
  if 0 ≤ n + Nat.pow 2 127 ∧ n < Nat.pow 2 128 then some (.integer n) else none

def float? (x : Float) : Option Value := if x.isInf then none else some (.float x)

/-- The digits behind a mark for an exponent, with their sign. -/
def exponent? : Text → Option (Bool × Text)
  | [] => some (false, [])
  | mark :: rest =>
    let (negative, rest) := Decimal.splitSign rest
    if mark = 'e' || mark = 'E' then (digits? Char.isDigit false rest).map (negative, ·) else none

/-- A decimal number without its sign: an integer, or a float with a fraction, an exponent or both.
Integer parts do not start with zeros. -/
def decimal? (negative : Bool) (t : Text) : Option Value := do
  let inNumber (c : Char) : Bool := c.isDigit || c == '_'
  let whole ← digits? Char.isDigit false (t.takeWhile inNumber)
  if whole.head? = some '0' ∧ 1 < whole.length then none
  else
    let rest := t.dropWhile inNumber
    if rest.isEmpty then integer? (if negative then -(numeral 10 whole : Int) else numeral 10 whole)
    else
      let (fraction, rest) ← match rest with
        | '.' :: rest => do
          let fraction ← digits? Char.isDigit false (rest.takeWhile inNumber)
          pure (fraction, rest.dropWhile inNumber)
        | _ => pure ([], rest)
      let (negativeExponent, exponent) ← exponent? rest
      let magnitude := Decimal.assemble whole fraction negativeExponent exponent
      float? (if negative then -magnitude else magnitude)

def based? (base : Nat) (t : Text) : Option Value := do
  integer? (numeral base (← digits? (isDigitOf base) false t))

/-- A number. Only decimal numbers have a sign. -/
def number? (t : Text) : Option Value :=
  match afterOpening? (chars "0x") t, afterOpening? (chars "0o") t, afterOpening? (chars "0b") t with
  | some rest, _, _ => based? 16 rest
  | _, some rest, _ => based? 8 rest
  | _, _, some rest => based? 2 rest
  | _, _, _ =>
    let (negative, unsigned) := Decimal.splitSign t
    if unsigned == chars "inf" then
      some (.float (Float.ofBits (if negative then 0xfff0000000000000 else 0x7ff0000000000000)))
    else if unsigned == chars "nan" then some (.float (Float.ofBits 0x7ff8000000000000))
    else decimal? negative unsigned

/-- A number of exactly `count` digits at the start of a text, and the rest. -/
def fixed? (count : Nat) (t : Text) : Option (Nat × Text) :=
  let digits := t.take count
  if digits.length = count ∧ digits.all Char.isDigit then some (Decimal.digitsValue digits, t.drop count) else none

def daysIn (year month : Nat) : Nat :=
  if month = 2 then if year % 4 = 0 ∧ (year % 100 ≠ 0 ∨ year % 400 = 0) then 29 else 28
  else if month = 4 ∨ month = 6 ∨ month = 9 ∨ month = 11 then 30
  else 31

def afterDate? (t : Text) : Option Text := do
  let (year, rest) ← fixed? 4 t
  let (month, rest) ← fixed? 2 (← afterOpening? ['-'] rest)
  let (day, rest) ← fixed? 2 (← afterOpening? ['-'] rest)
  if 1 ≤ month ∧ month ≤ 12 ∧ 1 ≤ day ∧ day ≤ daysIn year month then some rest else none

def afterMinutes? (t : Text) : Option Text := do
  let (hour, rest) ← fixed? 2 t
  let (minute, rest) ← fixed? 2 (← afterOpening? [':'] rest)
  if hour ≤ 23 ∧ minute ≤ 59 then some rest else none

/-- The text behind a time. Seconds may be left out, and may have a fraction; a minute may have a
leap second. -/
def afterTime? (t : Text) : Option Text := do
  let rest ← afterMinutes? t
  match rest with
  | ':' :: rest =>
    let (second, rest) ← fixed? 2 rest
    if 60 < second then none
    else
      match rest with
      | '.' :: fraction =>
        if fraction.head?.any Char.isDigit then some (fraction.dropWhile Char.isDigit) else none
      | _ => some rest
  | _ => some rest

def isOffset : Text → Bool
  | [c] => c == 'Z' || c == 'z'
  | '+' :: rest | '-' :: rest => afterMinutes? rest == some []
  | _ => false

/-- Whether a text is a date, a time, or both with or without an offset. -/
def isMoment (t : Text) : Bool :=
  match afterDate? t with
  | some [] => true
  | some (mark :: rest) =>
    (mark == 'T' || mark == 't' || mark == ' ') && (afterTime? rest).any fun rest => rest.isEmpty || isOffset rest
  | none => afterTime? t == some []

/-- The value of a run of characters without quotes. -/
def scalar? (t : Text) : Option Value :=
  if t == chars "true" then some (.boolean true)
  else if t == chars "false" then some (.boolean false)
  else if isMoment t then some (.moment t)
  else number? t

end Netlist.Toml
