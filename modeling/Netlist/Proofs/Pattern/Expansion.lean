import Mathlib.Data.List.Lex
import Netlist.Proofs.Pattern.Referring

/-!
Expansion of the references of a pattern. The references that are met while a text is expanded have
paths, one place for each text that leads to them. Expansion succeeds when all of them are defined and
no path is longer than the nesting allows, and it fails with the fault whose path comes first.
-/
namespace Netlist.Pattern

variable {definitions : Definitions}

/-- The text with every reference replaced by the expansion of its definition, in a group. -/
inductive Expansion (definitions : Definitions) : Text → Text → Prop
  | plain {t : Text} (plain : Plain t) : Expansion definitions t t
  | reference {front name back body inner rest : Text} (plain : Plain front) (named : IsName name)
      (defined : definitions.get? name = some body) (expanded : Expansion definitions body inner)
      (behind : Expansion definitions back rest) :
      Expansion definitions (front ++ (referenceTo name ++ back)) (front ++ (chars "(?:" ++ (inner ++ (chars ")" ++ rest))))

/-- A reference to `name` that is reached from the text. The path has its place in the text, or the
place of a reference to a definition from which it is reached and the path from there. -/
inductive Site (definitions : Definitions) : Text → List Nat → Text → Prop
  | here {t front name back : Text} (refers : Refers t front name back) : Site definitions t [front.length] name
  | inside {t front name back body : Text} {path : List Nat} {last : Text} (refers : Refers t front name back)
      (defined : definitions.get? name = some body) (site : Site definitions body path last) :
      Site definitions t (front.length :: path) last

/-- What is wrong with the references that are reached from the text when `nesting` of them may be
nested: one is not defined, or one is defined but nested in too many. -/
inductive Flaw (definitions : Definitions) (nesting : Nat) (t : Text) : List Nat → ExpansionError → Prop
  | unknown {path : List Nat} {name : Text} (site : Site definitions t path name) (met : path.length ≤ nesting + 1)
      (missing : definitions.get? name = none) : Flaw definitions nesting t path (.unknown name)
  | tooDeep {path : List Nat} {name body : Text} (site : Site definitions t path name) (met : path.length = nesting + 1)
      (defined : definitions.get? name = some body) : Flaw definitions nesting t path .tooDeep

def Sound (definitions : Definitions) (nesting : Nat) (t : Text) : Prop :=
  ∀ path name, Site definitions t path name → (definitions.get? name).isSome ∧ path.length ≤ nesting

theorem Refers.unique {t front name back front' name' back' : Text} (first : Refers t front name back)
    (second : Refers t front' name' back') (place : front.length = front'.length) : name = name' := by
  obtain ⟨_, same⟩ := List.append_inj (first.stands.symm.trans second.stands) place
  exact (referenceTo_append_inj first.named second.named same).1

theorem Site.unique {t last last' : Text} {path : List Nat} (first : Site definitions t path last)
    (second : Site definitions t path last') : last = last' := by
  induction first generalizing last' with
  | @here t front name back refers =>
    generalize place : front.length = n at second
    cases second with
    | here refers' => exact refers.unique refers' place
    | inside _ _ site => cases site
  | @inside t front name back body path last refers defined site ih =>
    generalize place : front.length = n at second
    cases second with
    | here refers' => cases site
    | inside refers' defined' site' =>
      obtain rfl := refers.unique refers' place
      obtain rfl := Option.some.inj (defined.symm.trans defined')
      exact ih site'

theorem Flaw.unique {nesting : Nat} {t : Text} {path : List Nat} {e e' : ExpansionError}
    (first : Flaw definitions nesting t path e) (second : Flaw definitions nesting t path e') : e = e' := by
  cases first with
  | unknown site _ missing =>
    cases second with
    | unknown site' _ _ => rw [site.unique site']
    | tooDeep site' _ defined =>
      obtain rfl := site.unique site'
      cases missing.symm.trans defined
  | tooDeep site _ defined =>
    cases second with
    | unknown site' _ missing =>
      obtain rfl := site.unique site'
      cases missing.symm.trans defined
    | tooDeep _ _ _ => rfl

/-! The sites of a text by its first reference. -/

theorem Site.not_plain {t last : Text} {path : List Nat} (site : Site definitions t path last) : ¬ Plain t := by
  intro plain
  cases site with
  | here refers => exact plain _ _ _ refers
  | inside refers => exact plain _ _ _ refers

theorem Site.ne_nil {t last : Text} {path : List Nat} (site : Site definitions t path last) : path ≠ [] := by
  cases site <;> exact List.cons_ne_nil _ _

def later (n : Nat) : List Nat → List Nat
  | [] => []
  | place :: path => (n + place) :: path

@[simp] theorem length_later (n : Nat) (path : List Nat) : (later n path).length = path.length := by
  cases path <;> rfl

theorem cons_le_cons_iff {place place' : Nat} {path path' : List Nat} :
    place :: path ≤ place' :: path' ↔ place < place' ∨ place = place' ∧ path ≤ path' := by
  simp only [le_iff_lt_or_eq, List.cons_lt_cons_iff, List.cons.injEq]
  grind

theorem nil_le (path : List Nat) : [] ≤ path := by
  cases path with
  | nil => exact le_refl _
  | cons place path => exact le_of_lt .nil

theorem later_le_later {path path' : List Nat} (le : path ≤ path') (n : Nat) : later n path ≤ later n path' := by
  cases path with
  | nil => exact nil_le _
  | cons place path =>
    cases path' with
    | nil => exact absurd le (by simp)
    | cons place' path' =>
      rw [later, later, cons_le_cons_iff]
      rcases cons_le_cons_iff.mp le with less | ⟨rfl, tail⟩
      · exact .inl (by omega)
      · exact .inr ⟨rfl, tail⟩

section First

variable {front name back : Text}

def behind (front name : Text) : Nat := (front ++ referenceTo name).length

theorem length_lt_behind (front name : Text) : front.length < behind front name := by
  simp [behind, referenceTo]

theorem Site.later {last : Text} {path : List Nat} (site : Site definitions back path last) :
    Site definitions (front ++ (referenceTo name ++ back)) (later (behind front name) path) last := by
  have prepended {f n b : Text} (refers : Refers back f n b) :
      Refers (front ++ (referenceTo name ++ back)) (front ++ (referenceTo name ++ f)) n b :=
    (refers.prepend (referenceTo name)).prepend front
  have place (f : Text) : behind front name + f.length = (front ++ (referenceTo name ++ f)).length := by
    simp [behind]
    omega
  cases site with
  | here refers =>
    rw [Pattern.later, place]
    exact .here (prepended refers)
  | inside refers defined site =>
    rw [Pattern.later, place]
    exact .inside (prepended refers) defined site

/-- A site is the first reference, or reached from its definition, or behind it. -/
theorem site_cases (plain : Plain front) (named : IsName name) {path : List Nat} {last : Text}
    (site : Site definitions (front ++ (referenceTo name ++ back)) path last) :
    (path = [front.length] ∧ last = name) ∨
    (∃ body path', definitions.get? name = some body ∧ path = front.length :: path' ∧ Site definitions body path' last) ∨
    ∃ path', path = later (behind front name) path' ∧ Site definitions back path' last := by
  have place (f : Text) : (front ++ (referenceTo name ++ f)).length = behind front name + f.length := by
    simp [behind]
    omega
  cases site with
  | here refers =>
    rcases (refers_first_iff plain named).mp refers with ⟨rfl, rfl, _⟩ | ⟨between, rfl, refersBehind⟩
    · exact .inl ⟨rfl, rfl⟩
    · exact .inr (.inr ⟨[between.length], by rw [place]; rfl, .here refersBehind⟩)
  | inside refers defined site =>
    rcases (refers_first_iff plain named).mp refers with ⟨rfl, rfl, _⟩ | ⟨between, rfl, refersBehind⟩
    · exact .inr (.inl ⟨_, _, defined, rfl, site⟩)
    · exact .inr (.inr ⟨between.length :: _, by rw [place]; rfl, .inside refersBehind defined site⟩)

end First

/-! Expansion by the first reference. -/

theorem expandPieces_plains (expandBody : Text → Except ExpansionError Text) (plains : List Text) (rest : List Piece) :
    expandPieces definitions expandBody (plains.map .plain ++ rest) =
      (plains.flatten ++ ·) <$> expandPieces definitions expandBody rest := by
  induction plains with
  | nil =>
    show expandPieces definitions expandBody rest = _
    cases expandPieces definitions expandBody rest <;> rfl
  | cons t plains ih =>
    rw [List.map_cons, List.cons_append, expandPieces, ih]
    cases expandPieces definitions expandBody rest with
    | error e => rfl
    | ok u => exact congrArg Except.ok (List.append_assoc _ _ _).symm

theorem expandWithin_plain {t : Text} (plain : Plain t) (levels : Nat) : expandWithin definitions (levels + 1) t = .ok t := by
  obtain ⟨plains, eq, text⟩ := pieces_plain plain
  rw [expandWithin, eq, ← List.append_nil (plains.map _), expandPieces_plains, text]
  exact congrArg Except.ok (List.append_nil t)

section First

variable {front name back : Text}

theorem expandWithin_missing (plain : Plain front) (named : IsName name) (missing : definitions.get? name = none) (levels : Nat) :
    expandWithin definitions (levels + 1) (front ++ (referenceTo name ++ back)) = .error (.unknown name) := by
  obtain ⟨plains, _, eq⟩ := pieces_reference plain named back
  rw [expandWithin, eq, expandPieces_plains, expandPieces, missing]
  rfl

theorem expandWithin_defined {body : Text} (plain : Plain front) (named : IsName name)
    (defined : definitions.get? name = some body) (levels : Nat) :
    expandWithin definitions (levels + 1) (front ++ (referenceTo name ++ back)) = do
      let inner ← expandWithin definitions levels body
      let rest ← expandWithin definitions (levels + 1) back
      return front ++ (chars "(?:" ++ (inner ++ (chars ")" ++ rest))) := by
  obtain ⟨plains, text, eq⟩ := pieces_reference plain named back
  rw [expandWithin, eq, expandPieces_plains, expandPieces, defined, text]
  simp only [expandWithin]
  cases expandWithin definitions levels body with
  | error e => rfl
  | ok inner =>
    cases expandPieces definitions (expandWithin definitions levels) (pieces back) with
    | error e => rfl
    | ok rest => exact congrArg Except.ok (by simp only [List.append_assoc])

theorem expandWithin_defined_ok {body u : Text} {levels : Nat} (plain : Plain front) (named : IsName name)
    (defined : definitions.get? name = some body)
    (ok : expandWithin definitions (levels + 1) (front ++ (referenceTo name ++ back)) = .ok u) :
    ∃ inner rest, expandWithin definitions levels body = .ok inner ∧ expandWithin definitions (levels + 1) back = .ok rest ∧
      u = front ++ (chars "(?:" ++ (inner ++ (chars ")" ++ rest))) := by
  rw [expandWithin_defined plain named defined] at ok
  cases expandedBody : expandWithin definitions levels body with
  | error e =>
    rw [expandedBody] at ok
    cases ok
  | ok inner =>
    cases expandedRest : expandWithin definitions (levels + 1) back with
    | error e =>
      rw [expandedBody, expandedRest] at ok
      cases ok
    | ok rest =>
      rw [expandedBody, expandedRest] at ok
      exact ⟨inner, rest, rfl, rfl, (Except.ok.inj ok).symm⟩

theorem expandWithin_defined_error {body : Text} {levels : Nat} {e : ExpansionError} (plain : Plain front) (named : IsName name)
    (defined : definitions.get? name = some body)
    (error : expandWithin definitions (levels + 1) (front ++ (referenceTo name ++ back)) = .error e) :
    expandWithin definitions levels body = .error e ∨
      ∃ inner, expandWithin definitions levels body = .ok inner ∧ expandWithin definitions (levels + 1) back = .error e := by
  rw [expandWithin_defined plain named defined] at error
  cases expandedBody : expandWithin definitions levels body with
  | error f =>
    rw [expandedBody] at error
    exact .inl error
  | ok inner =>
    refine .inr ⟨inner, rfl, ?_⟩
    cases expandedRest : expandWithin definitions (levels + 1) back with
    | error f =>
      rw [expandedBody, expandedRest] at error
      exact error
    | ok rest =>
      rw [expandedBody, expandedRest] at error
      cases error

end First

/-! What an expansion says about the sites. -/

theorem Sound.not_flaw {nesting : Nat} {t : Text} {path : List Nat} {e : ExpansionError} (sound : Sound definitions nesting t) :
    ¬ Flaw definitions nesting t path e := by
  intro flaw
  cases flaw with
  | unknown site met missing => simpa [missing] using (sound _ _ site).1
  | tooDeep site met defined =>
    have short := (sound _ _ site).2
    omega

theorem sound_of_plain {nesting : Nat} {t : Text} (plain : Plain t) : Sound definitions nesting t :=
  fun _ _ site => absurd plain site.not_plain

section First

variable {front name back body : Text} {nesting : Nat}

theorem sound_first (plain : Plain front) (named : IsName name) (defined : definitions.get? name = some body)
    (inner : Sound definitions nesting body) (rest : Sound definitions (nesting + 1) back) :
    Sound definitions (nesting + 1) (front ++ (referenceTo name ++ back)) := by
  intro path last site
  rcases site_cases plain named site with ⟨rfl, rfl⟩ | ⟨body', path', defined', rfl, siteBody⟩ | ⟨path', rfl, siteBehind⟩
  · exact ⟨by simp [defined], by simp⟩
  · obtain rfl : body = body' := Option.some.inj (defined.symm.trans defined')
    obtain ⟨found, short⟩ := inner path' last siteBody
    exact ⟨found, Nat.succ_le_succ short⟩
  · rw [length_later]
    exact rest path' last siteBehind

theorem flaw_inside {path : List Nat} {e : ExpansionError} (named : IsName name) (defined : definitions.get? name = some body)
    (flaw : Flaw definitions nesting body path e) :
    Flaw definitions (nesting + 1) (front ++ (referenceTo name ++ back)) (front.length :: path) e := by
  have refers : Refers (front ++ (referenceTo name ++ back)) front name back := ⟨named, rfl⟩
  cases flaw with
  | unknown site met missing => exact .unknown (.inside refers defined site) (Nat.succ_le_succ met) missing
  | tooDeep site met defined' => exact .tooDeep (.inside refers defined site) (congrArg Nat.succ met) defined'

theorem flaw_later {path : List Nat} {e : ExpansionError} (flaw : Flaw definitions nesting back path e) :
    Flaw definitions nesting (front ++ (referenceTo name ++ back)) (later (behind front name) path) e := by
  cases flaw with
  | unknown site met missing => exact .unknown site.later (by rwa [length_later]) missing
  | tooDeep site met defined => exact .tooDeep site.later (by rwa [length_later]) defined

/-- A flaw is in the first reference, or in its definition, or behind it. -/
theorem flaw_cases (plain : Plain front) (named : IsName name) {path : List Nat} {e : ExpansionError}
    (flaw : Flaw definitions nesting (front ++ (referenceTo name ++ back)) path e) :
    (path = [front.length] ∧ (definitions.get? name = none ∨ nesting = 0)) ∨
    (∃ body nesting' path', definitions.get? name = some body ∧ nesting = nesting' + 1 ∧ path = front.length :: path' ∧
      Flaw definitions nesting' body path' e) ∨
    ∃ path', path = later (behind front name) path' ∧ Flaw definitions nesting back path' e := by
  have nested {path' : List Nat} {t last : Text} {place : Nat} (site : Site definitions t path' last)
      (met : (place :: path').length ≤ nesting + 1) : ∃ nesting', nesting = nesting' + 1 := by
    have := List.length_pos_iff.mpr site.ne_nil
    rw [List.length_cons] at met
    exact ⟨nesting - 1, by omega⟩
  cases flaw with
  | unknown site met missing =>
    rcases site_cases plain named site with ⟨rfl, rfl⟩ | ⟨body, path', defined, rfl, siteBody⟩ | ⟨path', rfl, siteBehind⟩
    · exact .inl ⟨rfl, .inl missing⟩
    · obtain ⟨nesting', rfl⟩ := nested siteBody met
      exact .inr (.inl ⟨body, nesting', path', defined, rfl, rfl, .unknown siteBody (Nat.le_of_succ_le_succ met) missing⟩)
    · exact .inr (.inr ⟨path', rfl, .unknown siteBehind (by rwa [length_later] at met) missing⟩)
  | tooDeep site met defined =>
    rcases site_cases plain named site with ⟨rfl, rfl⟩ | ⟨body, path', defined', rfl, siteBody⟩ | ⟨path', rfl, siteBehind⟩
    · exact .inl ⟨rfl, .inr (Nat.succ.inj met).symm⟩
    · obtain ⟨nesting', rfl⟩ := nested siteBody (Nat.le_of_eq met)
      exact .inr (.inl ⟨body, nesting', path', defined', rfl, rfl, .tooDeep siteBody (Nat.succ.inj met) defined⟩)
    · exact .inr (.inr ⟨path', rfl, .tooDeep siteBehind (by rwa [length_later] at met) defined⟩)

theorem le_later {path' : List Nat} (path : List Nat) (nonempty : path' ≠ []) :
    front.length :: path ≤ later (behind front name) path' := by
  obtain ⟨place, path', rfl⟩ := List.exists_cons_of_ne_nil nonempty
  apply cons_le_cons_iff.mpr
  left
  have := length_lt_behind front name
  omega

end First

theorem Flaw.ne_nil {nesting : Nat} {t : Text} {path : List Nat} {e : ExpansionError} (flaw : Flaw definitions nesting t path e) :
    path ≠ [] := by
  cases flaw with
  | unknown site => exact site.ne_nil
  | tooDeep site => exact site.ne_nil

/-- An expansion that succeeds is the one described, of a text without flaws. -/
theorem expandWithin_ok {levels : Nat} {t u : Text} (ok : expandWithin definitions levels t = .ok u) :
    Expansion definitions t u ∧ ∃ nesting, levels = nesting + 1 ∧ Sound definitions nesting t := by
  induction levels generalizing t u with
  | zero => cases ok
  | succ levels inner =>
    induction t using text_induction generalizing u with
    | plain t plain =>
      rw [expandWithin_plain plain] at ok
      obtain rfl := Except.ok.inj ok
      exact ⟨.plain plain, levels, rfl, sound_of_plain plain⟩
    | reference front name back plain named rest =>
      cases defined : definitions.get? name with
      | none =>
        rw [expandWithin_missing plain named defined] at ok
        cases ok
      | some body =>
        obtain ⟨v, w, expandedBody, expandedRest, rfl⟩ := expandWithin_defined_ok plain named defined ok
        obtain ⟨expansion, nesting, rfl, sound⟩ := inner expandedBody
        obtain ⟨expansion', _, ⟨⟩, sound'⟩ := rest expandedRest
        exact ⟨.reference plain named defined expansion expansion', nesting + 1, rfl, sound_first plain named defined sound sound'⟩

/-! Which flaw comes first. -/

/-- A flaw of the text that comes before all others. Paths in dictionary order are in the order in which
expansion meets them, from left to right and a definition before what follows the reference to it. -/
structure FirstFlaw (definitions : Definitions) (nesting : Nat) (t : Text) (path : List Nat) (e : ExpansionError) : Prop where
  flaw : Flaw definitions nesting t path e
  first : ∀ path' e', Flaw definitions nesting t path' e' → path ≤ path'

namespace FirstFlaw

variable {front name back body : Text} {nesting : Nat} {path : List Nat} {e : ExpansionError}

theorem here (plain : Plain front) (named : IsName name)
    (flaw : Flaw definitions nesting (front ++ (referenceTo name ++ back)) [front.length] e) :
    FirstFlaw definitions nesting (front ++ (referenceTo name ++ back)) [front.length] e := by
  refine ⟨flaw, fun path' e' other => ?_⟩
  rcases flaw_cases plain named other with ⟨rfl, _⟩ | ⟨_, _, path', _, _, rfl, _⟩ | ⟨path', rfl, flaw'⟩
  · exact le_refl _
  · exact cons_le_cons_iff.mpr (.inr ⟨rfl, nil_le _⟩)
  · exact le_later [] flaw'.ne_nil

theorem inside (plain : Plain front) (named : IsName name) (defined : definitions.get? name = some body)
    (least : FirstFlaw definitions nesting body path e) :
    FirstFlaw definitions (nesting + 1) (front ++ (referenceTo name ++ back)) (front.length :: path) e := by
  refine ⟨flaw_inside named defined least.flaw, fun path' e' other => ?_⟩
  rcases flaw_cases plain named other with ⟨_, missing | none⟩ | ⟨body', _, path', defined', ⟨⟩, rfl, flaw'⟩ | ⟨path', rfl, flaw'⟩
  · cases missing.symm.trans defined
  · cases none
  · obtain rfl : body = body' := Option.some.inj (defined.symm.trans defined')
    exact cons_le_cons_iff.mpr (.inr ⟨rfl, least.first path' e' flaw'⟩)
  · exact le_later path flaw'.ne_nil

theorem later (plain : Plain front) (named : IsName name) (defined : definitions.get? name = some body)
    (sound : Sound definitions nesting body) (least : FirstFlaw definitions (nesting + 1) back path e) :
    FirstFlaw definitions (nesting + 1) (front ++ (referenceTo name ++ back)) (later (behind front name) path) e := by
  refine ⟨flaw_later least.flaw, fun path' e' other => ?_⟩
  rcases flaw_cases plain named other with ⟨_, missing | none⟩ | ⟨body', _, path', defined', ⟨⟩, rfl, flaw'⟩ | ⟨path', rfl, flaw'⟩
  · cases missing.symm.trans defined
  · cases none
  · obtain rfl : body = body' := Option.some.inj (defined.symm.trans defined')
    exact absurd flaw' sound.not_flaw
  · exact later_le_later (least.first path' e' flaw') _

theorem unique {t : Text} {path' : List Nat} {e' : ExpansionError} (one : FirstFlaw definitions nesting t path e)
    (other : FirstFlaw definitions nesting t path' e') : e = e' := by
  obtain rfl : path = path' := le_antisymm (one.first path' e' other.flaw) (other.first path e one.flaw)
  exact one.flaw.unique other.flaw

end FirstFlaw

/-- An expansion that fails has met the flaw that comes first. -/
theorem expandWithin_error {levels : Nat} {t : Text} {e : ExpansionError} (error : expandWithin definitions levels t = .error e) :
    levels = 0 ∧ e = .tooDeep ∨ ∃ nesting path, levels = nesting + 1 ∧ FirstFlaw definitions nesting t path e := by
  induction levels generalizing t e with
  | zero => exact .inl ⟨rfl, (Except.error.inj error).symm⟩
  | succ levels inner =>
    right
    refine ⟨levels, ?_⟩
    induction t using text_induction generalizing e with
    | plain t plain => cases (expandWithin_plain plain levels).symm.trans error
    | reference front name back plain named rest =>
      have refers : Refers (front ++ (referenceTo name ++ back)) front name back := ⟨named, rfl⟩
      cases defined : definitions.get? name with
      | none =>
        obtain rfl := Except.error.inj ((expandWithin_missing plain named defined levels).symm.trans error)
        exact ⟨_, rfl, .here plain named (.unknown (.here refers) (by simp) defined)⟩
      | some body =>
        rcases expandWithin_defined_error plain named defined error with first | ⟨v, ok, second⟩
        · rcases inner first with ⟨rfl, rfl⟩ | ⟨nesting, path, rfl, least⟩
          · exact ⟨_, rfl, .here plain named (.tooDeep (.here refers) rfl defined)⟩
          · exact ⟨_, rfl, least.inside plain named defined⟩
        · obtain ⟨_, nesting, rfl, sound⟩ := expandWithin_ok ok
          obtain ⟨path, _, least⟩ := rest second
          exact ⟨_, rfl, least.later plain named defined sound⟩

/-! The text of an expansion. -/

theorem Expansion.plain_result {t u : Text} (expansion : Expansion definitions t u) : Plain u := by
  induction expansion with
  | plain plain => exact plain
  | @reference front name back body inner rest plain named defined expanded behind plainInner plainRest =>
    have closed : Plain (inner ++ ')' :: rest) := plainInner.append_cons plainRest (by decide) (by decide) (by decide)
    have opened : Plain (['?'] ++ ':' :: (inner ++ ')' :: rest)) := by
      refine Plain.append_cons ?_ closed (by decide) (by decide) (by decide)
      exact plain_nil.append_cons plain_nil (by decide) (by decide) (by decide)
    exact plain.append_cons opened (by decide) (by decide) (by decide)

theorem Expansion.unique {t u u' : Text} (first : Expansion definitions t u) (second : Expansion definitions t u') : u = u' := by
  induction first generalizing u' with
  | plain plain =>
    cases second with
    | plain _ => rfl
    | reference _ named _ _ _ => exact absurd ⟨named, rfl⟩ (plain _ _ _)
  | @reference front name back body inner rest plain named defined expanded behind ihInner ihRest =>
    generalize eq : front ++ (referenceTo name ++ back) = t at second
    cases second with
    | plain none => exact absurd ⟨named, eq.symm⟩ (none front name back)
    | @reference front' name' back' body' inner' rest' plain' named' defined' expanded' behind' =>
      rcases (refers_first_iff plain named).mp ⟨named', eq⟩ with ⟨rfl, rfl, rfl⟩ | ⟨between, rfl, _⟩
      · obtain rfl : body = body' := Option.some.inj (defined.symm.trans defined')
        rw [ihInner expanded', ihRest behind']
      · exact absurd ⟨named, rfl⟩ (plain' front name between)

/-- Expansion succeeds exactly when every reference that is reached is defined and none is nested too
deep. The result is the text with its references replaced, without any reference, so that it expands
to itself. The error otherwise is the flaw that comes first. -/
theorem expand_exact (definitions : Definitions) (t : Text) :
    ((∃ u, expand definitions t = .ok u) ↔ Sound definitions maxNesting t) ∧
    (∀ u, expand definitions t = .ok u ↔ Sound definitions maxNesting t ∧ Expansion definitions t u) ∧
    (∀ u, expand definitions t = .ok u → Plain u ∧ expand definitions u = .ok u) ∧
    (∀ e, expand definitions t = .error e ↔ ∃ path, FirstFlaw definitions maxNesting t path e) := by
  have succeeding (u : Text) (ok : expand definitions t = .ok u) : Sound definitions maxNesting t ∧ Expansion definitions t u := by
    obtain ⟨expansion, _, ⟨⟩, sound⟩ := expandWithin_ok ok
    exact ⟨sound, expansion⟩
  have failing (e : ExpansionError) (error : expand definitions t = .error e) : ∃ path, FirstFlaw definitions maxNesting t path e := by
    rcases expandWithin_error error with ⟨zero, _⟩ | ⟨_, path, ⟨⟩, least⟩
    · cases zero
    · exact ⟨path, least⟩
  have sound_ok (sound : Sound definitions maxNesting t) : ∃ u, expand definitions t = .ok u := by
    cases result : expand definitions t with
    | ok u => exact ⟨u, rfl⟩
    | error e =>
      obtain ⟨path, least⟩ := failing e result
      exact absurd least.flaw sound.not_flaw
  refine ⟨⟨?_, sound_ok⟩, ?_, ?_, ?_⟩
  · intro ⟨u, ok⟩
    exact (succeeding u ok).1
  · intro u
    refine ⟨succeeding u, fun ⟨sound, expansion⟩ => ?_⟩
    obtain ⟨u', ok⟩ := sound_ok sound
    rw [expansion.unique (succeeding u' ok).2, ok]
  · intro u ok
    have plain := (succeeding u ok).2.plain_result
    exact ⟨plain, expandWithin_plain plain maxNesting⟩
  · intro e
    refine ⟨failing e, fun ⟨path, least⟩ => ?_⟩
    cases result : expand definitions t with
    | ok u => exact absurd least.flaw (succeeding u result).1.not_flaw
    | error e' =>
      obtain ⟨path', least'⟩ := failing e' result
      rw [least.unique least']

example : expand [(chars "A", chars "a<A>")] (chars "<A><B>") = .error .tooDeep := by rfl

end Netlist.Pattern
