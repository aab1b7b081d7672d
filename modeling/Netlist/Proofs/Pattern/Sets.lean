import Netlist.Pattern.CharSet

/-!
Which characters sets have. To a set of ASCII characters in either case the Kelvin sign and the long s belong
where `k` and `s` do, and nothing else beyond ASCII does.
-/
namespace Netlist.Pattern

@[simp] theorem contains_single (c x : Char) : (CharSet.single c).contains x = (x == c) := by
  rw [Bool.eq_iff_iff, beq_iff_eq]
  simp only [CharSet.single, CharSet.contains, Bool.and_eq_true, decide_eq_true_eq]
  exact ⟨fun inside => Char.ext (UInt32.le_antisymm inside.2 inside.1), fun same => by simp [same]⟩

theorem eq_of_contains_single {c x : Char} (inside : (CharSet.single c).contains x = true) : x = c := by
  simpa using inside

theorem contains_single_self (c : Char) : (CharSet.single c).contains c = true := by simp

@[simp] theorem contains_ofList (cs : List Char) (x : Char) : (CharSet.ofList cs).contains x = cs.contains x := by
  induction cs with
  | nil => rfl
  | cons c cs ih =>
    rw [List.contains_cons, ← ih, ← contains_single]
    rfl

def CharSet.isAscii : CharSet → Bool
  | none => true
  | range first last => decide (0 < first.toNat ∧ last.toNat < 128)
  | union left right => left.isAscii && right.isAscii
  | _ => false

variable {s : CharSet} {c x : Char}

theorem CharSet.ascii_of_contains (ascii : s.isAscii = true) (inside : s.contains c = true) : 0 < c.toNat ∧ c.toNat < 128 := by
  induction s with
  | none => cases inside
  | range first last =>
    simp only [contains, Bool.and_eq_true, decide_eq_true_eq, UInt32.le_iff_toNat_le] at inside
    have bounds : 0 < first.toNat ∧ last.toNat < 128 := of_decide_eq_true ascii
    exact ⟨Nat.lt_of_lt_of_le bounds.1 inside.1, Nat.lt_of_le_of_lt inside.2 bounds.2⟩
  | union left right ih ih' =>
    obtain ⟨here, there⟩ := Bool.and_eq_true_iff.mp ascii
    exact (Bool.or_eq_true_iff.mp inside).elim (ih here) (ih' there)
  | word | digit | space | inter | complement | ignoringCase => cases ascii

/-- Beyond ASCII only the Kelvin sign and the long s are forms of ASCII letters. -/
theorem CharSet.not_contains_of_beyond (ascii : s.isAscii = true) (beyond : 128 ≤ x.toNat) (kelvin : x ≠ '\u212a')
    (long : x ≠ '\u017f') : (ignoringCase s).contains x = false := by
  rw [Bool.eq_false_iff]
  intro inside
  obtain ⟨c, form, member⟩ := List.any_eq_true.mp inside
  obtain ⟨positive, low⟩ := ascii_of_contains ascii member
  have lowered : ∀ c : Char, c.toNat < 128 → 0 < c.toNat → c.toLower.toNat < 128 ∧ c.toLower ≠ '\x00' ∧ c ≠ '\x00' :=
    forall_ascii (by decide +kernel)
  obtain ⟨low', notNull', notNull⟩ := lowered c low positive
  rcases (foldCharacter_eq_iff low' notNull').mp ((mem_letterForms low notNull).mp form) with lower | ⟨_, same⟩ | ⟨_, same⟩
  · rw [toLower_of_le beyond] at lower
    rw [lower] at beyond
    omega
  · exact kelvin same
  · exact long same

theorem eq_toLower_or_toUpper : ∀ c : Char, c.toNat < 128 → c = c.toLower ∨ c = c.toLower.toUpper :=
  forall_ascii (by decide +kernel)

theorem CharSet.contains_of_ascii (ascii : s.isAscii = true) (low : x.toNat < 128) :
    (ignoringCase s).contains x = (s.contains x.toLower || s.contains x.toLower.toUpper) := by
  have image : foldCharacter x = x.toLower := if_pos low
  have nonzero : ∀ c : Char, c.toNat < 128 → 0 < c.toNat → c ≠ '\x00' := forall_ascii (by decide +kernel)
  have twice : ∀ c : Char, c.toNat < 128 → c.toLower.toLower = c.toLower ∧ c.toLower.toUpper.toLower = c.toLower :=
    forall_ascii (by decide +kernel)
  have found {c : Char} (member : s.contains c = true) (same : c.toLower = x.toLower) : (ignoringCase s).contains x = true := by
    obtain ⟨positive, low'⟩ := ascii_of_contains ascii member
    exact List.any_eq_true.mpr ⟨c, (mem_letterForms low' (nonzero c low' positive)).mpr (image.trans same.symm), member⟩
  rw [Bool.eq_iff_iff, Bool.or_eq_true]
  constructor
  · intro inside
    obtain ⟨c, form, member⟩ := List.any_eq_true.mp inside
    obtain ⟨positive, low'⟩ := ascii_of_contains ascii member
    rw [← image, (mem_letterForms low' (nonzero c low' positive)).mp form]
    rcases eq_toLower_or_toUpper c low' with same | same
    · exact .inl (same ▸ member)
    · exact .inr (same ▸ member)
  · rintro (lower | upper)
    · exact found lower (twice x low).1
    · exact found upper (twice x low).2

/-- The characters of a set of ASCII characters in either case are found among the ASCII characters and these two. -/
theorem CharSet.contains_eq_of_ascii {f : Char → Bool} (ascii : s.isAscii = true)
    (same : ∀ n < 128, (s.contains (Char.ofNat n).toLower || s.contains (Char.ofNat n).toLower.toUpper) = f (Char.ofNat n))
    (kelvin : (ignoringCase s).contains '\u212a' = f '\u212a') (long : (ignoringCase s).contains '\u017f' = f '\u017f')
    (beyond : ∀ x, 128 ≤ x.toNat → x ≠ '\u212a' → x ≠ '\u017f' → f x = false) (x : Char) :
    (ignoringCase s).contains x = f x := by
  rcases Nat.lt_or_ge x.toNat 128 with inside | outside
  · rw [contains_of_ascii ascii inside]
    simpa using same x.toNat inside
  · by_cases first : x = '\u212a'
    · rw [first, kelvin]
    · by_cases second : x = '\u017f'
      · rw [second, long]
      · rw [not_contains_of_beyond ascii outside first second, beyond x outside first second]

abbrev Caseless (c : Char) : Prop := c.toNat < 128 ∧ c ≠ '\x00' ∧ c.toLower = c ∧ c.toUpper = c

theorem CharSet.contains_caseless {c : Char} (caseless : Caseless c) (x : Char) :
    (ignoringCase (.single c)).contains x = (x == c) := by
  obtain ⟨low, notNull, lower, upper⟩ := caseless
  have alone : c ≠ 'k' ∧ c ≠ 's' := by
    constructor <;> rintro rfl <;> exact absurd upper (by decide)
  rw [Bool.eq_iff_iff, beq_iff_eq, contains, List.any_eq_true]
  simp only [contains_single, beq_iff_eq, exists_eq_right]
  rw [mem_letterForms_iff low notNull lower alone]
  constructor
  · intro same
    rcases Nat.lt_or_ge x.toNat 128 with ascii | beyond
    · have own := eq_toLower_or_toUpper x ascii
      rw [same, upper] at own
      exact own.elim id id
    · rwa [toLower_of_le beyond] at same
  · rintro rfl
    exact lower

theorem CharSet.contains_none (x : Char) : (ignoringCase none).contains x = false := List.any_eq_false.mpr fun _ _ => nofun

theorem CharSet.contains_union (s t : CharSet) (x : Char) : (ignoringCase (union s t)).contains x =
    ((ignoringCase s).contains x || (ignoringCase t).contains x) := by
  rw [Bool.eq_iff_iff, Bool.or_eq_true]
  simp only [contains, List.any_eq_true, Bool.or_eq_true, and_or_left, exists_or]

theorem CharSet.contains_ofRanges (range : Char × Char) (ranges : List (Char × Char)) (x : Char) :
    (ignoringCase (.ofRanges (range :: ranges))).contains x =
      ((ignoringCase (.ofRanges [range])).contains x || (ignoringCase (.ofRanges ranges)).contains x) := by
  have alone : (ignoringCase (.ofRanges [range])).contains x = (ignoringCase (.range range.1 range.2)).contains x := by
    rw [show ofRanges [range] = union (.range range.1 range.2) none from rfl, contains_union, contains_none, Bool.or_false]
  rw [alone]
  exact contains_union _ _ x

theorem CharSet.contains_caseless_list {cs : List Char} (caseless : cs.all (decide <| Caseless ·) = true) (x : Char) :
    (ignoringCase (.ofList cs)).contains x = cs.contains x := by
  induction cs with
  | nil => exact contains_none x
  | cons c cs ih =>
    obtain ⟨here, later⟩ := Bool.and_eq_true_iff.mp caseless
    rw [List.contains_cons, ← ih later, ← contains_caseless (of_decide_eq_true here)]
    exact contains_union _ _ x

end Netlist.Pattern
