import Netlist.Decimal.Reading

/-!
Numeric literals: a mantissa with an optional exponent, an optional engineering suffix and any
ASCII letters behind it, which name a unit and are ignored (`10kOhm`, `1.5uF`). Suffixes ignore
letter case, so `M` is milli and mega is spelled `MEG`. `literal` reads one from the start of a
text, `number` decides whether a whole text, up to a sign and white space, is one.
-/
namespace Netlist.Number

/-- The outcome of reading something from the start of a text. `torn` says that a match would
end inside the encoding of a character, so that no rest can be given. -/
inductive Scan (α : Type) where
  | found (value : α) (rest : Text)
  | absent
  | torn
  deriving Repr

/-- Suffixes with their scales, in the order in which they are tried. -/
def suffixes : List (Text × Float) := [
  (chars "meg", 1e6), (chars "mil", 25.4e-6), (chars "t", 1e12), (chars "g", 1e9), (chars "k", 1e3),
  (chars "m", 1e-3), (chars "u", 1e-6), (chars "n", 1e-9), (chars "p", 1e-12), (chars "f", 1e-15)]

/-- The lower case of a letter, as far as suffixes can tell: ASCII letters have one, and that of
the Kelvin sign is `k`. -/
def suffixLetter (c : Char) : Char := if c = '\u212a' then 'k' else c.toLower

/-- Whether a text starts with the given suffix in any letter case. -/
def startsWithSuffix (name t : Text) : Bool :=
  decide (name.length ≤ t.length) && (t.take name.length).map suffixLetter == name

/-- The scale of the suffix at the start of a text. A suffix is as many bytes long as its name;
the Kelvin sign matches `k` and is longer, so its match is torn. -/
def suffix (t : Text) : Scan Float :=
  match suffixes.find? fun (name, _) => startsWithSuffix name t with
  | none => .absent
  | some (name, scale) =>
    if byteSize (t.take name.length) = byteSize name then .found scale (t.drop name.length) else .torn

/-- The digits of the fraction and the rest, if there is a fraction: a point and any digits, or,
where the comma is a decimal mark too, a comma and at least one digit. -/
def fraction (comma : Bool) (t : Text) : Option (Text × Text) :=
  match t with
  | '.' :: rest => some (rest.takeWhile Char.isDigit, rest.dropWhile Char.isDigit)
  | ',' :: rest =>
    let digits := rest.takeWhile Char.isDigit
    if comma && !digits.isEmpty then some (digits, rest.dropWhile Char.isDigit) else none
  | _ => none

/-- The sign and digits of the exponent, and the rest. A mark without digits is no exponent. -/
def exponent (t : Text) : Option (Bool × Text × Text) :=
  match t with
  | mark :: rest =>
    let (negative, more) := Decimal.splitSign rest
    let digits := more.takeWhile Char.isDigit
    if (mark == 'e' || mark == 'E') && !digits.isEmpty then
      some (negative, digits, more.dropWhile Char.isDigit) else none
  | [] => none

def literal (comma : Bool) (t : Text) : Scan Float :=
  let whole := t.takeWhile Char.isDigit
  let afterWhole := t.dropWhile Char.isDigit
  let (digits, afterFraction) := (fraction comma afterWhole).getD ([], afterWhole)
  if whole.isEmpty && digits.isEmpty then .absent
  else
    let (negative, power, afterExponent) := (exponent afterFraction).getD (false, [], afterFraction)
    let mantissa := Decimal.assemble whole digits negative power
    match suffix afterExponent with
    | .torn => .torn
    | .absent => .found mantissa (afterExponent.dropWhile Char.isAlpha)
    | .found scale rest => .found (mantissa * scale) (rest.dropWhile Char.isAlpha)

/-- The value of a text that is a literal from end to end, with an optional sign and white space
around it; it has no rest. -/
def number (t : Text) : Scan Float :=
  let (negative, unsigned) := Decimal.splitSign (trim t)
  match literal false unsigned with
  | .found value [] => .found ((if negative then -1 else 1) * value) []
  | .torn => .torn
  | _ => .absent

end Netlist.Number
