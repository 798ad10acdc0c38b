import IonLang.Proofs.Token.Coverage

/-!
# Integers of a source text

The text of an integer token is a string of digits (`isNumeral_of_mem_scan`), so it fails to be a
machine word only by its size (`size_le_of_wordOf?_eq_none`).
-/

namespace IonLang

theorem Text.size_le_of_wordOf?_eq_none {text : String} (numeral : IsNumeral text.toList)
    (fails : wordOf? text = none) : UInt64.size ≤ decimalFrom 0 text.toList := by
  obtain ⟨nonempty, digits⟩ := numeral
  have noSign : numeralDigits text.toList = text.toList := by
    unfold numeralDigits
    split
    · next rest found =>
      have plus := digits '+' (found ▸ List.mem_cons_self)
      exact absurd plus (by decide)
    · rfl
  have accepted : (text.toList.isEmpty || !text.toList.all isDigit) = false := by
    rw [List.all_eq_true.mpr digits]
    simpa using nonempty
  unfold wordOf? at fails
  simp only [noSign, accepted, Bool.false_eq_true, ↓reduceIte] at fails
  split at fails
  · cases fails
  · next large => exact Nat.le_of_not_lt large

namespace Token

def integers (tokens : List Token) : List String :=
  tokens.filterMap fun token =>
    match token.kind with
    | .integer text => some text
    | _ => none

theorem mem_integers {tokens : List Token} {text : String} :
    text ∈ integers tokens ↔ ∃ token ∈ tokens, token.kind = .integer text := by
  unfold integers
  rw [List.mem_filterMap]
  refine exists_congr fun token => and_congr_right fun _ => ?_
  split
  · next kind => simp [kind]
  · next other => exact iff_of_false nofun (other text)

theorem isNumeral_of_mem_scan {file source text : String}
    (member : text ∈ integers (scan file source).tokens) : Text.IsNumeral text.toList := by
  obtain ⟨token, scanned, kind⟩ := mem_integers.mp member
  obtain ⟨i, line, _, found⟩ := exists_scanLine_of_mem token scanned (by simp [kind])
  obtain ⟨before, lexeme, after, stands⟩ := (scanned_scanLine file (1 + i) line).stands token found
  have spells := stands.lexeme
  rw [kind] at spells
  cases spells with
  | integer numeral => exact numeral

end Token

end IonLang
