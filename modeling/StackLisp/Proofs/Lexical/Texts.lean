import Mathlib.Data.Set.Insert
import StackLisp.Proofs.Lexical.Standard

/-!
# The texts of the standard entries

Each entry of the standard table describes a set of texts, whatever the other entries are. In
these sets the digits are among the characters of symbols, so the numerals without a point are
symbols too. What a text of an entry begins with tells the entry, but for numerals and symbols.
-/

namespace StackLisp.Lexical

open Numeral (IsSign IsDigits)
open Pattern

/-- The texts of the entry of a kind. -/
def texts : Kind → Set (List Char)
  | .openParen => {['(']}
  | .closeParen => {[')']}
  | .float => {a | ∃ sign whole part, IsSign sign ∧ IsDigits whole ∧ IsDigits part ∧
      a = sign ++ whole ++ '.' :: part}
  | .integer => {a | ∃ sign ds, IsSign sign ∧ IsDigits ds ∧ a = sign ++ ds}
  | .string => {a | ∃ body, '\x22' ∉ body ∧ a = '\x22' :: body ++ ['\x22']}
  | .symbol => {a | a ≠ [] ∧ ∀ c ∈ a, isSymbolChar c = true}

variable {k : Kind} {a behind cs rest : List Char} {c : Char}

theorem valid_float : Valid .float a ↔ a ∈ texts .float := by
  constructor
  · intro h
    cases h with
    | float hs hw hp => exact ⟨_, _, _, hs, hw, hp, rfl⟩
  · rintro ⟨sign, whole, part, hs, hw, hp, rfl⟩
    exact .float hs hw hp

theorem valid_integer : Valid .integer a ↔ a ∈ texts .integer := by
  constructor
  · intro h
    cases h with
    | integer hs hd => exact ⟨_, _, hs, hd, rfl⟩
  · rintro ⟨sign, ds, hs, hd, rfl⟩
    exact .integer hs hd

theorem valid_string : Valid .string a ↔ a ∈ texts .string := by
  constructor
  · intro h
    cases h with
    | string hb => exact ⟨_, hb, rfl⟩
  · rintro ⟨body, hb, rfl⟩
    exact .string hb

/-- The patterns of the standard table generate these texts and no others. -/
theorem generates_pattern : Generates (pattern k).pieces a ↔ a ∈ texts k := by
  cases k with
  | openParen | closeParen => exact generates_singleton
  | float => exact generates_float.trans valid_float
  | integer => exact generates_integer.trans valid_integer
  | string => exact generates_string.trans valid_string
  | symbol => exact generates_symbol

theorem ne_nil_of_mem_texts (h : a ∈ texts k) : a ≠ [] := by
  rintro rfl
  cases k with
  | openParen | closeParen => cases h
  | float =>
    obtain ⟨sign, whole, part, -, -, -, h⟩ := h
    simp at h
  | integer =>
    obtain ⟨sign, ds, -, hd, h⟩ := h
    exact hd.1 (List.append_eq_nil_iff.mp h.symm).2
  | string =>
    obtain ⟨body, -, h⟩ := h
    cases h
  | symbol => exact h.1 rfl

/-! ## First characters -/

/-- The kinds whose texts may begin with a character. -/
def kindsAt (c : Char) : List Kind :=
  if c = '(' then [.openParen]
  else if c = ')' then [.closeParen]
  else if c = '\x22' then [.string]
  else if isSymbolChar c then [.float, .integer, .symbol]
  else []

theorem kindsAt_of_isSymbolChar (h : isSymbolChar c = true) :
    kindsAt c = [.float, .integer, .symbol] := by
  have hne : ∀ a, isSymbolChar a = false → c ≠ a := by
    rintro a ha rfl
    rw [h] at ha
    contradiction
  rw [kindsAt, if_neg (hne '(' (by decide)), if_neg (hne ')' (by decide)),
    if_neg (hne '\x22' (by decide)), if_pos h]

theorem mem_kindsAt (h : c :: a ∈ texts k) : k ∈ kindsAt c := by
  have numeral : Valid k (c :: a) → (k = .float ∨ k = .integer ∨ k = .symbol) →
      isSymbolChar c = true := by
    intro hv hk
    obtain ⟨d, ds, heq, hd⟩ := hv.symbolChar_head hk
    rwa [(List.cons.inj heq).1]
  cases k with
  | openParen =>
    cases h
    decide
  | closeParen =>
    cases h
    decide
  | string =>
    obtain ⟨body, -, h⟩ := h
    rw [(List.cons.inj h).1]
    decide
  | float =>
    rw [kindsAt_of_isSymbolChar (numeral (valid_float.mpr h) (.inl rfl))]
    decide
  | integer =>
    rw [kindsAt_of_isSymbolChar (numeral (valid_integer.mpr h) (.inr (.inl rfl)))]
    decide
  | symbol =>
    rw [kindsAt_of_isSymbolChar (h.2 c List.mem_cons_self)]
    decide

/-- An entry matches only where its first characters allow it. -/
theorem lexeme?_eq_none_of_kindsAt (h : k ∉ kindsAt c) :
    (entry k).lexeme? behind (c :: cs) = none := by
  refine lexeme?_eq_none fun a rest ha heq => ?_
  have hmem := generates_pattern.mp ha
  obtain ⟨d, ds, rfl⟩ := List.exists_cons_of_ne_nil (ne_nil_of_mem_texts hmem)
  rw [(List.cons.inj heq).1] at h
  exact h (mem_kindsAt hmem)

end StackLisp.Lexical
