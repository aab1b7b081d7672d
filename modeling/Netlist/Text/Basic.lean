/-!
Text is a list of characters. Positions that a caller sees are counted in the bytes of the
UTF-8 encoding, lengths used inside the library in characters; `byteSize` joins the two and
adds over `++`.
-/
namespace Netlist

/-- Text as the list of its characters. -/
abbrev Text := List Char

/-- The characters of a string. -/
def chars (s : String) : Text := s.toList

/-- The number of bytes of the UTF-8 encoding. -/
def byteSize : Text → Nat
  | [] => 0
  | c :: rest => c.utf8Size + byteSize rest

@[simp] theorem byteSize_nil : byteSize [] = 0 := rfl

@[simp] theorem byteSize_cons (c : Char) (rest : Text) :
    byteSize (c :: rest) = c.utf8Size + byteSize rest := rfl

@[simp] theorem byteSize_append (left right : Text) :
    byteSize (left ++ right) = byteSize left + byteSize right := by
  induction left with
  | nil => simp
  | cons c rest ih => simp [ih, Nat.add_assoc]

theorem byteSize_pos {t : Text} (nonempty : t ≠ []) : 0 < byteSize t := by
  cases t with
  | nil => exact absurd rfl nonempty
  | cons c rest =>
    have := c.utf8Size_pos
    rw [byteSize_cons]
    omega

/-- The text from a byte offset on; an offset inside a character skips that character. -/
def dropBytes : Nat → Text → Text
  | _, [] => []
  | 0, t => t
  | n + 1, c :: rest => dropBytes (n + 1 - c.utf8Size) rest

/-- What follows the given opening, if the text starts with it. -/
def afterOpening? : Text → Text → Option Text
  | [], t => some t
  | _ :: _, [] => none
  | o :: opening, c :: rest => if o = c then afterOpening? opening rest else none

theorem eq_append_of_afterOpening? {opening t rest : Text} (read : afterOpening? opening t = some rest) :
    t = opening ++ rest := by
  induction opening generalizing t with
  | nil =>
    cases read
    rfl
  | cons o opening ih =>
    cases t with
    | nil => simp [afterOpening?] at read
    | cons c t =>
      simp only [afterOpening?] at read
      split at read
      · next same => rw [same, ih read, List.cons_append]
      · cases read

/-- What precedes the given closing, if the text ends with it. -/
def beforeClosing? (closing t : Text) : Option Text :=
  (afterOpening? closing.reverse t.reverse).map List.reverse

/-- ASCII letters in lower case, all other characters unchanged. -/
def asciiLower (t : Text) : Text := t.map Char.toLower

theorem toLower_of_le {c : Char} (beyond : 128 ≤ c.toNat) : c.toLower = c := by
  unfold Char.toLower
  rw [dif_neg]
  rintro ⟨-, upper⟩
  have bound : c.toNat ≤ 90 := UInt32.le_iff_toNat_le.mp upper
  omega

/-- What the first 128 characters have in common, every ASCII character has. -/
theorem forall_ascii {P : Char → Prop} (first : ∀ n < 128, P (Char.ofNat n)) (c : Char) (ascii : c.toNat < 128) : P c :=
  Char.ofNat_toNat c ▸ first c.toNat ascii

/-- Equality up to the case of ASCII letters. -/
def equalIgnoringCase (a b : Text) : Bool := asciiLower a == asciiLower b

/-- Ordered by code points, which for UTF-8 is the order of the bytes. -/
def before : Text → Text → Bool
  | [], [] => false
  | [], _ :: _ => true
  | _ :: _, [] => false
  | a :: as, b :: bs => if a = b then before as bs else decide (a.val < b.val)

def joined (separator : Text) : List Text → Text
  | [] => []
  | [item] => item
  | item :: next :: rest => item ++ separator ++ joined separator (next :: rest)

end Netlist
