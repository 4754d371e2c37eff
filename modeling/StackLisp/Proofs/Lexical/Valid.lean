import StackLisp.Token.Table
import StackLisp.Proofs.Lexical.Greedy
import StackLisp.Proofs.Numeral.Digits

/-!
# The texts of a kind of tokens

What each kind of token looks like is said here without patterns. The texts of a kind are
those of its pattern, with one exception: a name may not start like a numeral, although the
pattern of symbols would allow it. It remains to be seen that the table takes such a text
as a whole.
-/

namespace StackLisp.Lexical

open Numeral (IsSign IsDigits)

/-- Letters, digits and operator signs. -/
def isSymbolChar (c : Char) : Bool := c.isAlphanum || "+=!^%*/<>-".toList.contains c

/-- Whether a digit, or a minus and a digit, stand at the front. -/
def startsNumeral : List Char → Bool
  | [] => false
  | '-' :: c :: _ => c.isDigit
  | c :: _ => c.isDigit

/-- The names of symbols. -/
structure IsName (cs : List Char) : Prop where
  nonempty : cs ≠ []
  symbolChars : ∀ c ∈ cs, isSymbolChar c = true
  noNumeral : startsNumeral cs = false

theorem isName_iff {cs : List Char} :
    (!cs.isEmpty && cs.all isSymbolChar && !startsNumeral cs) = true ↔ IsName cs := by
  simp only [Bool.and_eq_true, Bool.not_eq_true', List.isEmpty_eq_false_iff, List.all_eq_true]
  exact ⟨fun h => ⟨h.1.1, h.1.2, h.2⟩, fun h => ⟨⟨h.nonempty, h.symbolChars⟩, h.noNumeral⟩⟩

instance (cs : List Char) : Decidable (IsName cs) := decidable_of_iff _ isName_iff

/-- The texts of a kind of tokens. -/
inductive Valid : Kind → List Char → Prop
  | openParen : Valid .openParen ['(']
  | closeParen : Valid .closeParen [')']
  | float {sign whole part : List Char} : IsSign sign → IsDigits whole → IsDigits part →
      Valid .float (sign ++ whole ++ '.' :: part)
  | integer {sign ds : List Char} : IsSign sign → IsDigits ds → Valid .integer (sign ++ ds)
  | string {body : List Char} : '\x22' ∉ body → Valid .string ('\x22' :: body ++ ['\x22'])
  | symbol {name : List Char} : IsName name → Valid .symbol name

/-- A text that starts with no character of names or numerals. -/
def Terminal (cs : List Char) : Prop := ∀ c ∈ cs.head?, isSymbolChar c = false ∧ c ≠ '.'

/-- Parentheses and strings end by themselves, numerals and names before a terminal text. -/
def Ends : Kind → List Char → Prop
  | .openParen, _ | .closeParen, _ | .string, _ => True
  | .float, rest | .integer, rest | .symbol, rest => Terminal rest

theorem Terminal.ends {rest : List Char} (h : Terminal rest) (k : Kind) : Ends k rest := by
  cases k with
  | openParen | closeParen | string => trivial
  | float | integer | symbol => exact h

theorem ends_nil (k : Kind) : Ends k [] := Terminal.ends (by simp [Terminal]) k

/-! ## The sets of characters -/

theorem contains_singleton {a c : Char} : (Pattern.singleton a).contains c = true ↔ c = a := by
  simp [Pattern.singleton, CharSet.contains, Text.inRanges, Text.CharRange.contains_single,
    -Text.CharRange.contains_iff]

theorem contains_singleton_of_ne {a c : Char} (h : c ≠ a) :
    (Pattern.singleton a).contains c = false :=
  Bool.eq_false_iff.mpr fun hc => h (contains_singleton.mp hc)

theorem contains_digits {c : Char} :
    (CharSet.mk false Table.digits).contains c = c.isDigit := by
  simp only [CharSet.contains, Table.digits, Text.inRanges, List.any_cons, List.any_nil,
    Text.CharRange.contains, Char.isDigit, Char.toNat, UInt32.le_iff_toNat_le, ge_iff_le,
    Bool.or_false, Bool.bne_false, ← Bool.decide_and]
  rfl

theorem contains_unquoted {c : Char} :
    (CharSet.mk true [.single '\x22']).contains c = true ↔ c ≠ '\x22' := by
  rw [CharSet.contains, Text.inRanges_cons, Text.inRanges_nil, Bool.or_false, bne_iff_ne, ne_eq,
    Text.CharRange.contains_single]

/-- The set of the only piece of the pattern of symbols. -/
def symbolSet : CharSet :=
  ⟨false, [⟨0x41, 0x5a⟩, ⟨0x61, 0x7a⟩, ⟨0x30, 0x39⟩] ++ "+=!^%*/<>-".toList.map .single⟩

theorem inRanges_map_single (as : List Char) (c : Char) :
    Text.inRanges (as.map .single) c = as.contains c := by
  induction as with
  | nil => rfl
  | cons a as ih =>
    have h : (Text.CharRange.single a).contains c = (c == a) := by
      rw [Bool.eq_iff_iff, Text.CharRange.contains_single, beq_iff_eq]
    rw [List.map_cons, Text.inRanges_cons, ih, h, List.contains_cons]

theorem contains_symbolSet {c : Char} : symbolSet.contains c = isSymbolChar c := by
  have h : Text.inRanges symbolSet.ranges c =
      (Text.inRanges [⟨0x41, 0x5a⟩, ⟨0x61, 0x7a⟩, ⟨0x30, 0x39⟩] c ||
        Text.inRanges ("+=!^%*/<>-".toList.map .single) c) := List.any_append
  have hletters : c.isAlphanum = (decide (c.val ≥ 'A'.val ∧ c.val ≤ 'Z'.val) ||
      (decide (c.val ≥ 'a'.val) && decide (c.val ≤ 'z'.val)) ||
      (decide (c.val ≥ '0'.val) && decide (c.val ≤ '9'.val))) := rfl
  rw [CharSet.contains, h, inRanges_map_single, isSymbolChar, symbolSet, Bool.bne_false, hletters]
  congr 1
  simp only [Text.inRanges_cons, Text.inRanges_nil, Text.CharRange.contains, Char.toNat,
    UInt32.le_iff_toNat_le, ge_iff_le, Bool.or_false, Bool.or_assoc, Bool.decide_and]
  rfl

theorem isSpace_of_isSymbolChar {c : Char} (h : isSymbolChar c = true) :
    Text.isSpace c = false := by
  have hbounds : 0x20 < c.toNat ∧ c.toNat < 0x85 := by
    rw [← contains_symbolSet] at h
    simp only [CharSet.contains, symbolSet, String.reduceToList, List.map_cons, List.map_nil,
      Text.CharRange.single, Char.reduceToNat, List.cons_append, List.nil_append,
      Text.inRanges_cons, Text.inRanges_nil, Bool.or_false, Bool.bne_false, Bool.or_eq_true,
      Text.CharRange.contains_iff] at h
    omega
  exact Text.isSpace_eq_false hbounds.1 hbounds.2

/-! ## The texts of the patterns -/

open Pattern

theorem generates_nil_iff {a : List Char} : Generates [] a ↔ a = [] := by
  constructor
  · intro h
    cases h
    rfl
  · intro heq
    subst heq
    exact .nil

theorem generates_cons_iff {p : Piece} {ps : List Piece} {a : List Char} :
    Generates (p :: ps) a ↔ ∃ x b, a = x ++ b ∧ p.Admits x ∧ Generates ps b := by
  constructor
  · intro h
    cases h with
    | cons hx hb => exact ⟨_, _, rfl, hx, hb⟩
  · intro h
    rcases h with ⟨x, b, rfl, hx, hb⟩
    exact .cons hx hb

theorem admits_singleton {c : Char} {a : List Char} :
    Piece.Admits ⟨singleton c, .once⟩ a ↔ a = [c] := by
  constructor
  · intro h
    rcases h with ⟨hs, ht⟩
    obtain ⟨d, rfl⟩ := List.length_eq_one_iff.mp ht
    rw [contains_singleton.mp (hs d List.mem_cons_self)]
  · intro heq
    subst heq
    exact ⟨fun d hd => contains_singleton.mpr (List.mem_singleton.mp hd), rfl⟩

theorem generates_singleton {c : Char} {a : List Char} :
    Generates [⟨singleton c, .once⟩] a ↔ a = [c] := by
  rw [generates_cons_iff]
  constructor
  · intro h
    rcases h with ⟨x, b, rfl, hx, hb⟩
    rw [admits_singleton.mp hx, generates_nil_iff.mp hb]
    rfl
  · intro heq
    subst heq
    exact ⟨[c], [], rfl, admits_singleton.mpr rfl, .nil⟩

theorem admits_minus? {a : List Char} : Table.minus?.Admits a ↔ IsSign a := by
  constructor
  · intro h
    rcases h with ⟨hs, ht⟩
    cases a with
    | nil => exact .inl rfl
    | cons c a =>
      obtain rfl := List.length_eq_zero_iff.mp (Nat.le_zero.mp (Nat.le_of_succ_le_succ ht))
      rw [contains_singleton.mp (hs c List.mem_cons_self)]
      exact .inr rfl
  · intro h
    rcases h with rfl | rfl
    · exact ⟨by simp, Nat.zero_le 1⟩
    · exact ⟨fun d hd => contains_singleton.mpr (List.mem_singleton.mp hd), Nat.le_refl 1⟩

theorem admits_digits {a : List Char} :
    Piece.Admits ⟨⟨false, Table.digits⟩, .plus⟩ a ↔ IsDigits a := by
  simp only [Piece.Admits, Times.Admits, contains_digits, IsDigits, Nat.succ_le_iff,
    List.length_pos_iff]
  exact and_comm

theorem admits_unquoted {a : List Char} :
    Piece.Admits ⟨⟨true, [.single '\x22']⟩, .star⟩ a ↔ '\x22' ∉ a := by
  simp only [Piece.Admits, Times.Admits, contains_unquoted, and_true]
  constructor
  · intro h hm
    exact h _ hm rfl
  · rintro h c hc rfl
    exact h hc

theorem generates_float {a : List Char} :
    Generates Table.float.pieces a ↔ Valid .float a := by
  simp only [Table.float, generates_cons_iff, generates_nil_iff, admits_minus?, admits_digits,
    admits_singleton]
  constructor
  · intro h
    rcases h with ⟨sign, _, rfl, hs, whole, _, rfl, hw, _, _, rfl, rfl, part, _, rfl, hp, rfl⟩
    rw [List.append_nil, ← List.append_assoc]
    exact .float hs hw hp
  · intro h
    cases h with
    | @float sign whole part hs hw hp =>
      refine ⟨sign, whole ++ '.' :: part, List.append_assoc .., hs, whole, '.' :: part, rfl, hw,
        ['.'], part, rfl, rfl, part, [], ?_, hp, rfl⟩
      rw [List.append_nil]

theorem generates_integer {a : List Char} :
    Generates Table.integer.pieces a ↔ Valid .integer a := by
  simp only [Table.integer, generates_cons_iff, generates_nil_iff, admits_minus?, admits_digits]
  constructor
  · intro h
    rcases h with ⟨sign, _, rfl, hs, ds, _, rfl, hd, rfl⟩
    rw [List.append_nil]
    exact .integer hs hd
  · intro h
    cases h with
    | @integer sign ds hs hd => exact ⟨sign, ds, rfl, hs, ds, [], by rw [List.append_nil], hd, rfl⟩

theorem generates_string {a : List Char} :
    Generates Table.string.pieces a ↔ Valid .string a := by
  simp only [Table.string, generates_cons_iff, generates_nil_iff, admits_singleton,
    admits_unquoted]
  constructor
  · intro h
    rcases h with ⟨_, _, rfl, rfl, body, _, rfl, hb, _, _, rfl, rfl, rfl⟩
    exact .string hb
  · intro h
    cases h with
    | @string body hb =>
      exact ⟨['\x22'], body ++ ['\x22'], rfl, rfl, body, ['\x22'], rfl, hb, ['\x22'], [], rfl, rfl,
        rfl⟩

theorem generates_symbol {a : List Char} :
    Generates Table.symbol.pieces a ↔ a ≠ [] ∧ ∀ c ∈ a, isSymbolChar c = true := by
  have hp : Table.symbol.pieces = [⟨symbolSet, .plus⟩] := rfl
  simp only [hp, generates_cons_iff, generates_nil_iff, Piece.Admits, Times.Admits,
    contains_symbolSet, Nat.succ_le_iff, List.length_pos_iff]
  constructor
  · intro h
    rcases h with ⟨x, _, rfl, ⟨hc, hne⟩, rfl⟩
    rw [List.append_nil]
    exact ⟨hne, hc⟩
  · intro h
    rcases h with ⟨hne, hc⟩
    exact ⟨a, [], (List.append_nil a).symm, ⟨hc, hne⟩, rfl⟩

/-! ## First characters -/

theorem isSymbolChar_of_isDigit {c : Char} (h : c.isDigit = true) : isSymbolChar c = true := by
  simp [isSymbolChar, Char.isAlphanum, h]

theorem Terminal.noDigit {rest : List Char} (h : Terminal rest) :
    ∀ c ∈ rest.head?, c.isDigit = false := by
  intro c hc
  apply Bool.eq_false_iff.mpr
  intro hdigit
  have hsym := isSymbolChar_of_isDigit hdigit
  rw [(h c hc).1] at hsym
  contradiction

theorem startsNumeral_append {sign ds rest : List Char} (hs : IsSign sign) (hd : IsDigits ds) :
    startsNumeral (sign ++ ds ++ rest) = true := by
  rcases hd with ⟨hne, hc⟩
  obtain ⟨d, ds, rfl⟩ := List.exists_cons_of_ne_nil hne
  have hdigit : d.isDigit = true := hc d List.mem_cons_self
  rcases hs with rfl | rfl
  · rw [List.nil_append, List.cons_append]
    unfold startsNumeral
    split
    · contradiction
    next h => simp [(List.cons.inj h).1, Char.isDigit] at hdigit
    next h => rw [← (List.cons.inj h).1, hdigit]
  · exact hdigit

theorem exists_of_startsNumeral {cs : List Char} (h : startsNumeral cs = true) :
    ∃ sign d rest, cs = sign ++ [d] ++ rest ∧ IsSign sign ∧ d.isDigit = true := by
  unfold startsNumeral at h
  split at h
  · contradiction
  next c rest => exact ⟨['-'], c, rest, rfl, .inr rfl, h⟩
  next c rest _ => exact ⟨[], c, rest, rfl, .inl rfl, h⟩

theorem IsName.startsNumeral_append {name rest : List Char} (hn : IsName name)
    (hr : Terminal rest) : startsNumeral (name ++ rest) = false := by
  obtain ⟨c, cs, rfl⟩ := List.exists_cons_of_ne_nil hn.nonempty
  have hs := hn.noNumeral
  cases cs with
  | nil =>
    cases rest with
    | nil => rwa [List.append_nil]
    | cons d rest =>
      have hd : d.isDigit = false := hr.noDigit d rfl
      by_cases hc : c = '-'
      · rw [hc]
        exact hd
      · simpa [startsNumeral, hc] using hs
  | cons d cs =>
    by_cases hc : c = '-'
    · rw [hc] at hs ⊢
      exact hs
    · simpa [startsNumeral, hc] using hs

/-- Two divisions of a text behind a run of digits are the same. -/
theorem digits_append_inj {ds es x y : List Char} (hd : ∀ c ∈ ds, c.isDigit = true)
    (he : ∀ c ∈ es, c.isDigit = true) (hx : ∀ c ∈ x.head?, c.isDigit = false)
    (hy : ∀ c ∈ y.head?, c.isDigit = false) (h : ds ++ x = es ++ y) : ds = es ∧ x = y := by
  induction ds generalizing es with
  | nil =>
    cases es with
    | nil => exact ⟨rfl, h⟩
    | cons e es =>
      rw [List.nil_append] at h
      rw [h] at hx
      have h1 := he e List.mem_cons_self
      rw [hx e rfl] at h1
      exact absurd h1 Bool.false_ne_true
  | cons d ds ih =>
    have hd1 := hd d List.mem_cons_self
    cases es with
    | nil =>
      rw [List.nil_append] at h
      rw [← h] at hy
      rw [hy d rfl] at hd1
      exact absurd hd1 Bool.false_ne_true
    | cons e es =>
      obtain ⟨rfl, ht⟩ := List.cons.inj h
      obtain ⟨rfl, hxy⟩ := ih (fun c hc => hd c (List.mem_cons_of_mem _ hc))
        (fun c hc => he c (List.mem_cons_of_mem _ hc)) ht
      exact ⟨rfl, hxy⟩

theorem numeral_append_inj {sign sign' ds es x y : List Char} (hs : IsSign sign)
    (hs' : IsSign sign') (hd : IsDigits ds) (he : IsDigits es)
    (hx : ∀ c ∈ x.head?, c.isDigit = false) (hy : ∀ c ∈ y.head?, c.isDigit = false)
    (h : sign ++ (ds ++ x) = sign' ++ (es ++ y)) : sign = sign' ∧ ds = es ∧ x = y := by
  have noMinus : ∀ {ds : List Char}, IsDigits ds → ∀ x z, ds ++ x ≠ '-' :: z := by
    rintro ds ⟨hne, hd⟩ x z heq
    obtain ⟨d, ds, rfl⟩ := List.exists_cons_of_ne_nil hne
    have hdigit := hd d List.mem_cons_self
    rw [(List.cons.inj heq).1] at hdigit
    contradiction
  rcases hs with rfl | rfl
  · rcases hs' with rfl | rfl
    · exact ⟨rfl, digits_append_inj hd.2 he.2 hx hy h⟩
    · exact absurd h (noMinus hd x _)
  · rcases hs' with rfl | rfl
    · exact absurd h.symm (noMinus he y _)
    · exact ⟨rfl, digits_append_inj hd.2 he.2 hx hy (List.cons.inj h).2⟩

theorem Valid.ne_nil {k : Kind} {a : List Char} (h : Valid k a) : a ≠ [] := by
  cases h with
  | float _ hw _ => simp
  | integer _ hd => simp [hd.1]
  | symbol hn => exact hn.nonempty
  | _ => simp

/-- Numerals and names start with a character of names. -/
theorem Valid.symbolChar_head {k : Kind} {a : List Char} (h : Valid k a)
    (hk : k = .float ∨ k = .integer ∨ k = .symbol) :
    ∃ c cs, a = c :: cs ∧ isSymbolChar c = true := by
  have numeral : ∀ {sign ds : List Char}, IsSign sign → IsDigits ds →
      ∃ c cs, sign ++ ds = c :: cs ∧ isSymbolChar c = true := by
    rintro sign ds (rfl | rfl) ⟨hne, hd⟩
    · obtain ⟨d, ds, rfl⟩ := List.exists_cons_of_ne_nil hne
      exact ⟨d, ds, rfl, isSymbolChar_of_isDigit (hd d List.mem_cons_self)⟩
    · exact ⟨'-', ds, rfl, by decide⟩
  cases h with
  | float hs hw _ =>
    obtain ⟨c, cs, h, hc⟩ := numeral hs hw
    exact ⟨c, cs ++ '.' :: _, by rw [h]; rfl, hc⟩
  | integer hs hd => exact numeral hs hd
  | @symbol name hn =>
    obtain ⟨c, cs, rfl⟩ := List.exists_cons_of_ne_nil hn.nonempty
    exact ⟨c, cs, rfl, hn.symbolChars c List.mem_cons_self⟩
  | _ => simp at hk

end StackLisp.Lexical
