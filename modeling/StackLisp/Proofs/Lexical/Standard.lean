import StackLisp.Proofs.Lexical.Valid

/-!
# The tokens of the standard table

A text of a kind is taken as a whole by the standard table, provided that what follows it
cannot prolong it, and whatever the standard table takes is a text of its kind. Names are
the only texts that need the precedence of the table: they are made of the characters of
numerals too, and must not start like one.
-/

namespace StackLisp.Lexical

open Numeral (IsSign IsDigits)
open Pattern

/-! ## One entry of the table -/

variable {k : Kind} {p : Pattern} {behind cs : List Char}

theorem generates_of_lexeme? {l : Lexeme}
    (h : TokenPattern.lexeme? ⟨k, p⟩ behind cs = some l) :
    l.kind = k ∧ Generates p.pieces l.text := by
  unfold TokenPattern.lexeme? at h
  split at h
  next hm =>
    cases h
    exact ⟨rfl, generates_of_matchPieces hm⟩
  next => contradiction

theorem lexeme?_eq_none (h : ∀ a rest, Generates p.pieces a → cs ≠ a ++ rest) :
    TokenPattern.lexeme? ⟨k, p⟩ behind cs = none := by
  cases hl : TokenPattern.lexeme? ⟨k, p⟩ behind cs with
  | none => rfl
  | some l =>
    have happ := (TokenPattern.append_of_lexeme? hl).2
    exact absurd happ.symm (h l.text l.rest (generates_of_lexeme? hl).2)

theorem lexeme?_of_greedy {a rest : List Char} (hne : a ≠ []) (h : Greedy p.pieces a rest) :
    TokenPattern.lexeme? ⟨k, p⟩ behind (a ++ rest) = some ⟨k, a, rest⟩ := by
  obtain ⟨c, cs, rfl⟩ := List.exists_cons_of_ne_nil hne
  have hm : p.recognizer.divide? behind (c :: cs ++ rest) = some (c :: cs, rest) :=
    matchPieces_of_greedy h
  rw [TokenPattern.lexeme?, hm]

/-- The pattern of a kind. -/
def pattern : Kind → Pattern
  | .openParen => Table.openParen
  | .closeParen => Table.closeParen
  | .float => Table.float
  | .integer => Table.integer
  | .string => Table.string
  | .symbol => Table.symbol

/-- The entry of a kind in the standard table. -/
def entry (k : Kind) : TokenPattern := ⟨k, pattern k⟩

theorem standard_eq_map : Table.standard = Kind.all.map entry := rfl

theorem lexeme?_eq_none_of_head {a c : Char} {ps : List Piece}
    (hp : (pattern k).pieces = ⟨singleton a, .once⟩ :: ps) (h : c ≠ a) :
    (entry k).lexeme? behind (c :: cs) = none := by
  apply lexeme?_eq_none
  intro b rest hb heq
  have hb' : Generates (⟨singleton a, .once⟩ :: ps) b := hp ▸ hb
  obtain ⟨x, y, rfl, hx, _⟩ := generates_cons_iff.mp hb'
  rw [admits_singleton.mp hx] at heq
  exact h (List.cons.inj heq).1

theorem lexeme?_integer_eq_none (h : startsNumeral cs = false) :
    (entry .integer).lexeme? behind cs = none := by
  apply lexeme?_eq_none
  intro a rest ha heq
  cases generates_integer.mp ha with
  | integer hs hd =>
    rw [heq, startsNumeral_append hs hd] at h
    contradiction

theorem lexeme?_float_eq_none (h : startsNumeral cs = false) :
    (entry .float).lexeme? behind cs = none := by
  apply lexeme?_eq_none
  intro a rest ha heq
  cases generates_float.mp ha with
  | float hs hw _ =>
    rw [heq, List.append_assoc, startsNumeral_append hs hw] at h
    contradiction

/-- An integer is no fraction, unless a point follows. -/
theorem lexeme?_float_of_integer {sign ds rest : List Char} (hs : IsSign sign)
    (hd : IsDigits ds) (hr : Terminal rest) (behind : List Char) :
    (entry .float).lexeme? behind (sign ++ ds ++ rest) = none := by
  apply lexeme?_eq_none
  intro a rest' ha heq
  cases generates_float.mp ha with
  | @float sign' whole part hs' hw _ =>
    have heq' : sign ++ (ds ++ rest) = sign' ++ (whole ++ '.' :: (part ++ rest')) := by
      simpa using heq
    obtain ⟨_, _, rfl⟩ := numeral_append_inj hs hs' hd hw hr.noDigit (by simp) heq'
    exact (hr '.' rfl).2 rfl

/-- Parentheses and strings do not start with a character of names. -/
theorem lexeme?_eq_none_of_isSymbolChar {c : Char} (h : isSymbolChar c = true) :
    (entry .openParen).lexeme? behind (c :: cs) = none ∧
      (entry .closeParen).lexeme? behind (c :: cs) = none ∧
      (entry .string).lexeme? behind (c :: cs) = none := by
  have hne : ∀ a, isSymbolChar a = false → c ≠ a := by
    rintro a ha rfl
    rw [h] at ha
    contradiction
  exact ⟨lexeme?_eq_none_of_head rfl (hne '(' (by decide)),
    lexeme?_eq_none_of_head rfl (hne ')' (by decide)),
    lexeme?_eq_none_of_head rfl (hne '\x22' (by decide))⟩

theorem greedy_numeral {ps : List Piece} {sign ds a rest : List Char} (hs : IsSign sign)
    (hd : IsDigits ds) (ha : ∀ c ∈ (a ++ rest).head?, c.isDigit = false)
    (hg : Greedy ps a rest) :
    Greedy (Table.minus? :: ⟨⟨false, Table.digits⟩, .plus⟩ :: ps) (sign ++ (ds ++ a)) rest := by
  have hds : Greedy (⟨⟨false, Table.digits⟩, .plus⟩ :: ps) (ds ++ a) rest := by
    refine .plus hd.1 ?_ ?_ hg
    · simpa only [contains_digits] using hd.2
    · simpa only [CharSet.EndsAt, contains_digits] using ha
  rcases hs with rfl | rfl
  · obtain ⟨d, es, rfl⟩ := List.exists_cons_of_ne_nil hd.1
    have hdigit := hd.2 d List.mem_cons_self
    refine .absent ?_ hds
    refine CharSet.endsAt_cons.mpr (contains_singleton_of_ne ?_)
    intro heq
    subst heq
    contradiction
  · exact .present (contains_singleton.mpr rfl) hds

/-! ## The whole table -/

theorem greedy_of_valid {k : Kind} {a rest : List Char} (h : Valid k a) (hr : Ends k rest) :
    Greedy (pattern k).pieces a rest := by
  cases h with
  | openParen => exact .once (contains_singleton.mpr rfl) .nil
  | closeParen => exact .once (contains_singleton.mpr rfl) .nil
  | @float sign whole part hs hw hp =>
    have hpart : Greedy [⟨⟨false, Table.digits⟩, .plus⟩] (part ++ []) rest := by
      refine .plus hp.1 ?_ ?_ .nil
      · simpa only [contains_digits] using hp.2
      · simpa only [CharSet.EndsAt, contains_digits, List.nil_append] using hr.noDigit
    rw [List.append_nil] at hpart
    rw [List.append_assoc]
    exact greedy_numeral hs hw (by simp) (.once (contains_singleton.mpr rfl) hpart)
  | @integer sign ds hs hd =>
    have h : Greedy Table.integer.pieces (sign ++ (ds ++ [])) rest :=
      greedy_numeral hs hd (by simpa only [List.nil_append] using hr.noDigit) .nil
    rwa [List.append_nil] at h
  | @string body hb =>
    refine .once (contains_singleton.mpr rfl) (.star ?_ ?_ ?_)
    · intro c hc
      apply contains_unquoted.mpr
      intro heq
      subst heq
      exact hb hc
    · exact CharSet.endsAt_cons.mpr (Bool.eq_false_iff.mpr fun h => contains_unquoted.mp h rfl)
    · exact .once (contains_singleton.mpr rfl) .nil
  | symbol hn =>
    have h : Greedy [⟨symbolSet, .plus⟩] (a ++ []) rest := by
      refine .plus hn.nonempty ?_ ?_ .nil
      · simpa only [contains_symbolSet] using hn.symbolChars
      · simpa only [CharSet.EndsAt, contains_symbolSet, List.nil_append] using
          fun c hc => (hr c hc).1
    rwa [List.append_nil] at h

/-- A text of a kind is a token as a whole, unless what follows prolongs it. -/
theorem lexeme?_of_valid {a rest : List Char} (h : Valid k a) (hr : Ends k rest)
    (behind : List Char) : Table.standard.lexeme? behind (a ++ rest) = some ⟨k, a, rest⟩ := by
  have own : (entry k).lexeme? behind (a ++ rest) = some ⟨k, a, rest⟩ :=
    lexeme?_of_greedy h.ne_nil (greedy_of_valid h hr)
  have head : (k = .float ∨ k = .integer ∨ k = .symbol) →
      (entry .openParen).lexeme? behind (a ++ rest) = none ∧
        (entry .closeParen).lexeme? behind (a ++ rest) = none ∧
        (entry .string).lexeme? behind (a ++ rest) = none := by
    intro hk
    obtain ⟨c, cs, rfl, hc⟩ := h.symbolChar_head hk
    exact lexeme?_eq_none_of_isSymbolChar hc
  rw [Table.lexeme?, standard_eq_map, Kind.all]
  cases h with
  | openParen => simp only [List.map_cons, List.findSome?_cons, own]
  | closeParen =>
    have h1 : (entry .openParen).lexeme? behind ([')'] ++ rest) = none :=
      lexeme?_eq_none_of_head rfl (by decide)
    simp only [List.map_cons, List.findSome?_cons, h1, own]
  | float hs hw hp =>
    obtain ⟨h1, h2, _⟩ := head (.inl rfl)
    simp only [List.map_cons, List.findSome?_cons, h1, h2, own]
  | integer hs hd =>
    obtain ⟨h1, h2, _⟩ := head (.inr (.inl rfl))
    have h3 := lexeme?_float_of_integer hs hd hr behind
    simp only [List.map_cons, List.findSome?_cons, h1, h2, h3, own]
  | string hb =>
    have h1 : ∀ cs, (entry .openParen).lexeme? behind ('\x22' :: cs) = none := fun cs =>
      lexeme?_eq_none_of_head rfl (by decide)
    have h2 : ∀ cs, (entry .closeParen).lexeme? behind ('\x22' :: cs) = none := fun cs =>
      lexeme?_eq_none_of_head rfl (by decide)
    have h3 : ∀ cs, (entry .float).lexeme? behind ('\x22' :: cs) = none := fun cs =>
      lexeme?_float_eq_none rfl
    have h4 : ∀ cs, (entry .integer).lexeme? behind ('\x22' :: cs) = none := fun cs =>
      lexeme?_integer_eq_none rfl
    simp only [List.cons_append] at own ⊢
    simp only [List.map_cons, List.findSome?_cons, h1, h2, h3, h4, own]
  | symbol hn =>
    obtain ⟨h1, h2, h5⟩ := head (.inr (.inr rfl))
    have hstart := hn.startsNumeral_append hr
    have h3 : (entry .float).lexeme? behind (a ++ rest) = none := lexeme?_float_eq_none hstart
    have h4 : (entry .integer).lexeme? behind (a ++ rest) = none := lexeme?_integer_eq_none hstart
    simp only [List.map_cons, List.findSome?_cons, h1, h2, h3, h4, h5, own]

/-- Wherever a numeral starts, an integer can be taken. -/
theorem exists_lexeme?_integer (h : startsNumeral cs = true) (behind : List Char) :
    ∃ l, (entry .integer).lexeme? behind cs = some l := by
  obtain ⟨sign, d, rest, rfl, hs, hd⟩ := exists_of_startsNumeral h
  have hv : Valid .integer (sign ++ [d]) := .integer hs ⟨by simp, by simpa using hd⟩
  have hm := matchPieces_isSome_of_generates (generates_integer.mpr hv) rest
  obtain ⟨⟨a, rest'⟩, ha⟩ := Option.isSome_iff_exists.mp hm
  have hne := (generates_integer.mp (generates_of_matchPieces ha)).ne_nil
  obtain ⟨c, cs, rfl⟩ := List.exists_cons_of_ne_nil hne
  refine ⟨⟨.integer, c :: cs, rest'⟩, ?_⟩
  have hf : Table.integer.recognizer.divide? behind (sign ++ [d] ++ rest) =
      some (c :: cs, rest') := ha
  rw [TokenPattern.lexeme?, entry, pattern, hf]

/-- Kinds other than symbols need no precedence. -/
theorem valid_of_generates {k : Kind} {a : List Char} (hk : k ≠ .symbol)
    (h : Generates (pattern k).pieces a) : Valid k a := by
  cases k with
  | openParen => exact generates_singleton.mp h ▸ .openParen
  | closeParen => exact generates_singleton.mp h ▸ .closeParen
  | float => exact generates_float.mp h
  | integer => exact generates_integer.mp h
  | string => exact generates_string.mp h
  | symbol => contradiction

/-- What the standard table takes is a text of its kind. -/
theorem valid_of_lexeme? {l : Lexeme} (h : Table.standard.lexeme? behind cs = some l) :
    Valid l.kind l.text := by
  obtain ⟨_, happ⟩ := Table.append_of_lexeme? h
  have other : ∀ {k}, k ≠ .symbol → (entry k).lexeme? behind cs = some l → Valid l.kind l.text := by
    intro k hk hl
    obtain ⟨hkind, hg⟩ := generates_of_lexeme? hl
    rw [hkind]
    exact valid_of_generates hk hg
  rw [Table.lexeme?, standard_eq_map, Kind.all] at h
  simp only [List.map_cons, List.map_nil, List.findSome?_cons, List.findSome?_nil] at h
  split at h
  next hl => exact other (by decide) (hl.trans h)
  split at h
  next hl => exact other (by decide) (hl.trans h)
  split at h
  next hl => exact other (by decide) (hl.trans h)
  split at h
  next hl => exact other (by decide) (hl.trans h)
  next hnone =>
    split at h
    next hl => exact other (by decide) (hl.trans h)
    split at h
    next hl =>
      obtain ⟨hkind, hg⟩ := generates_of_lexeme? (hl.trans h)
      obtain ⟨hne, hc⟩ := generates_symbol.mp hg
      rw [hkind]
      refine .symbol ⟨hne, hc, Bool.eq_false_iff.mpr fun hstart => ?_⟩
      obtain ⟨sign, d, rest, htext, hs, hd⟩ := exists_of_startsNumeral hstart
      have hcs : startsNumeral cs = true := by
        rw [← happ, htext, List.append_assoc]
        exact startsNumeral_append hs ⟨by simp, by simpa using hd⟩
      obtain ⟨l', hl'⟩ := exists_lexeme?_integer hcs behind
      rw [hl'] at hnone
      contradiction
    next => contradiction

end StackLisp.Lexical
