import Netlist.Text.Basic

/-!
Balanced groups and first occurrences, as lengths of the text that they end.
-/
namespace Netlist.Lexer

/-- The length of the shortest beginning of a text in which a closing character brings the depth
back to zero, given the depth before it. A closing character at depth zero does so too. -/
def balancedLength? (opening closing : Char) : Nat → Text → Option Nat
  | _, [] => none
  | depth, c :: rest =>
    if c = opening then (balancedLength? opening closing (depth + 1) rest).map (· + 1)
    else if c = closing then
      if depth ≤ 1 then some 1 else (balancedLength? opening closing (depth - 1) rest).map (· + 1)
    else (balancedLength? opening closing depth rest).map (· + 1)

/-- The length of a text up to and including the first occurrence of another. -/
def throughFirst? (target : Text) : Text → Option Nat
  | [] => if target.isEmpty then some 0 else none
  | c :: rest =>
    if (afterOpening? target (c :: rest)).isSome then some target.length
    else (throughFirst? target rest).map (· + 1)

theorem balancedLength?_le {opening closing : Char} {t : Text} {depth length : Nat}
    (h : balancedLength? opening closing depth t = some length) : 0 < length ∧ length ≤ t.length := by
  induction t generalizing depth length with
  | nil => simp [balancedLength?] at h
  | cons c rest ih =>
    unfold balancedLength? at h
    have step {d : Nat} (found : (balancedLength? opening closing d rest).map (· + 1) = some length) :
        0 < length ∧ length ≤ (c :: rest).length := by
      obtain ⟨n, hn, rfl⟩ := Option.map_eq_some_iff.1 found
      have := ih hn
      simp only [List.length_cons]
      omega
    split at h
    · exact step h
    · split at h
      · split at h
        · simp only [Option.some.injEq] at h
          simp [← h]
        · exact step h
      · exact step h

end Netlist.Lexer
