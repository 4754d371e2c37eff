import StackLisp.Proofs.Numeral.Digits
import StackLisp.Proofs.Numeral.Shortest

/-!
# Fractions in the plain layout

The plain layout has digits on both sides of a point, and denotes exactly the decimal that
it was laid out from. So the text of a finite number is read back as this number, the sign
of zero included.
-/

namespace StackLisp.Numeral

open Text (isMargin trim)

/-- Digits on the two sides of a point that denote a decimal. -/
structure Denotes (whole part : List Char) (x : Decimal) : Prop where
  wholeDigits : IsDigits whole
  partDigits : IsDigits part
  ratio : x.IsRatio (Nat.ofDigitChars 10 (whole ++ part) 0) (10 ^ part.length)

theorem isDigit_of_mem_zeros {k : Nat} {c : Char} (h : c ∈ List.replicate k '0') :
    c.isDigit = true := by
  rw [List.eq_of_mem_replicate h]
  rfl

section Layout
variable {ds : List Char}

/-- A positive exponent is written as zeros. -/
theorem denotes_of_zeros_after (h : IsDigits ds) (e : Nat) :
    Denotes (ds ++ List.replicate e '0') ['0'] ⟨Nat.ofDigitChars 10 ds 0, .ofNat e⟩ where
  wholeDigits := isDigits_append h fun _ hc => isDigit_of_mem_zeros hc
  partDigits := ⟨by simp, by simp⟩
  ratio := by
    rw [Decimal.IsRatio, Nat.ofDigitChars_append, Nat.ofDigitChars_append,
      Nat.ofDigitChars_replicate_zero, Nat.ofDigitChars_cons, Nat.ofDigitChars_nil, Nat.sub_self,
      Nat.add_zero, List.length_singleton]
    ring

/-- A point may stand between the digits. -/
theorem denotes_of_point_inside (h : IsDigits ds) {e : Nat} (he : e + 1 < ds.length) :
    Denotes (ds.take (ds.length - (e + 1))) (ds.drop (ds.length - (e + 1)))
      ⟨Nat.ofDigitChars 10 ds 0, .negSucc e⟩ := by
  have hlen : (ds.drop (ds.length - (e + 1))).length = e + 1 := by
    rw [List.length_drop]
    omega
  constructor
  · refine ⟨?_, fun c hc => h.2 c (List.mem_of_mem_take hc)⟩
    rw [ne_eq, ← List.length_eq_zero_iff, List.length_take]
    omega
  · refine ⟨?_, fun c hc => h.2 c (List.mem_of_mem_drop hc)⟩
    rw [ne_eq, ← List.length_eq_zero_iff, hlen]
    omega
  · rw [Decimal.IsRatio, hlen, List.take_append_drop]

/-- A point before all digits needs zeros between. -/
theorem denotes_of_zeros_before (h : IsDigits ds) {e : Nat} (he : ds.length ≤ e + 1) :
    Denotes ['0'] (List.replicate (e + 1 - ds.length) '0' ++ ds)
      ⟨Nat.ofDigitChars 10 ds 0, .negSucc e⟩ := by
  have hlen : (List.replicate (e + 1 - ds.length) '0' ++ ds).length = e + 1 := by
    rw [List.length_append, List.length_replicate]
    omega
  constructor
  · exact ⟨by simp, by simp⟩
  · refine ⟨by simp [h.1], ?_⟩
    intro c hc
    rcases List.mem_append.mp hc with hc | hc
    · exact isDigit_of_mem_zeros hc
    · exact h.2 c hc
  · rw [Decimal.IsRatio, hlen, List.singleton_append, Nat.ofDigitChars_cons,
      Nat.ofDigitChars_append, Nat.mul_zero, Nat.sub_self, Nat.zero_add,
      Nat.ofDigitChars_replicate_zero, Nat.mul_zero]

/-- The plain layout denotes the decimal that is laid out. -/
theorem exists_plainLayout (h : IsDigits ds) (e : Int) :
    ∃ whole part, plainLayout ds e = whole ++ '.' :: part ∧
      Denotes whole part ⟨Nat.ofDigitChars 10 ds 0, e⟩ := by
  cases e with
  | ofNat e => exact ⟨_, _, rfl, denotes_of_zeros_after h e⟩
  | negSucc e =>
    rw [plainLayout]
    split
    next hlt => exact ⟨_, _, rfl, denotes_of_point_inside h hlt⟩
    next hge => exact ⟨_, _, by simp, denotes_of_zeros_before h (Nat.le_of_not_lt hge)⟩

end Layout

/-! ## Reading -/

section Reading
variable {whole part rest : List Char}

/-- There is no margin around a numeral that ends with digits. -/
theorem trim_isMargin {last : List Char} (negative : Bool) (hw : IsDigits whole)
    (hl : IsDigits last) :
    trim isMargin (signChars negative ++ (whole ++ (rest ++ last))) =
      signChars negative ++ (whole ++ (rest ++ last)) := by
  obtain ⟨d, es, hlast⟩ := List.exists_cons_of_ne_nil (List.reverse_ne_nil_iff.mpr hl.1)
  have hd : d.isDigit = true := by
    refine hl.2 d (List.mem_reverse.mp ?_)
    rw [hlast]
    exact List.mem_cons_self
  have hrev : (signChars negative ++ (whole ++ (rest ++ last))).reverse =
      d :: (es ++ (rest.reverse ++ (whole.reverse ++ (signChars negative).reverse))) := by
    simp [hlast]
  rw [trim, dropWhile_isMargin negative hw, hrev,
    List.dropWhile_cons_of_neg (by simp [isMargin_of_isDigit hd]), ← hrev, List.reverse_reverse]

theorem named?_eq_none (negative : Bool) (hw : IsDigits whole) :
    named? negative (whole ++ rest) = none := by
  rcases hw with ⟨hne, hd⟩
  obtain ⟨d, ds, rfl⟩ := List.exists_cons_of_ne_nil hne
  have hdigit := hd d List.mem_cons_self
  have hlower : d.toLower = d := by
    obtain ⟨_, hhigh⟩ := isDigit_iff.mp hdigit
    apply dif_neg
    intro hupper
    have hlow : 65 ≤ d.toNat := UInt32.le_iff_toNat_le.mp hupper.1
    omega
  have hname : ∀ c cs, c.isDigit = false → (d :: ds ++ rest).map Char.toLower ≠ c :: cs := by
    intro c cs hc h
    rw [List.cons_append, List.map_cons, hlower] at h
    rw [(List.cons.inj h).1, hc] at hdigit
    contradiction
  rw [named?, if_neg, if_neg]
  · exact hname 'n' _ rfl
  · exact fun h => h.elim (hname 'i' _ rfl) (hname 'i' _ rfl)

/-- What reading takes apart is read by its value. -/
theorem readFraction_of_ofChars? {text : String} {negative : Bool} {last : List Char}
    {f : Fraction} (h : text.toList = signChars negative ++ (whole ++ (rest ++ last)))
    (hw : IsDigits whole) (hl : IsDigits last)
    (hf : Fraction.ofChars? (whole ++ (rest ++ last)) = some f) :
    readFraction text = .ok (f.value negative) := by
  rw [readFraction, h, trim_isMargin negative hw hl, signed_append negative hw]
  dsimp only
  rw [named?_eq_none negative hw, hf]

/-- Digits after a point, which is left out if there are none. -/
def pointed : List Char → List Char
  | [] => []
  | c :: cs => '.' :: c :: cs

theorem group?_of_isDigit {ds : List Char} (h : ∀ c ∈ ds, c.isDigit = true) :
    Fraction.group? ds = some (ds.map digitValue) := by
  cases ds with
  | nil => rfl
  | cons c cs => exact digits?_of_isDigits ⟨List.cons_ne_nil c cs, h⟩

/-- Digits, and those after the point if there are any, are taken as they are. -/
theorem ofChars?_pointed {exponent : Int} (hw : IsDigits whole)
    (hp : ∀ c ∈ part, c.isDigit = true)
    (hr : ∀ c ∈ rest.head?, isDigit c = false ∧ c ≠ '_' ∧ c ≠ '.')
    (he : Fraction.exponent? rest = some exponent) :
    Fraction.ofChars? (whole ++ (pointed part ++ rest)) =
      some ⟨whole.map digitValue, part.map digitValue, exponent⟩ := by
  have hends : ∀ c ∈ rest.head?, isDigit c = false ∧ c ≠ '_' := fun c hc =>
    ⟨(hr c hc).1, (hr c hc).2.1⟩
  rw [Fraction.ofChars?]
  cases part with
  | nil =>
    have hspan : digitSpan (whole ++ rest) = (whole, rest) := digitSpan_append hw.2 hends
    have hnopoint : ∀ cs, rest ≠ '.' :: cs := by
      rintro cs rfl
      exact (hr '.' rfl).2.2 rfl
    rw [pointed, List.nil_append, hspan]
    simp [group?_of_isDigit hw.2, group?_of_isDigit hp, hw.1, he]
  | cons d ds =>
    have hpoint : digitSpan (whole ++ '.' :: (d :: ds ++ rest)) =
        (whole, '.' :: (d :: ds ++ rest)) := digitSpan_append hw.2 (by simp; decide)
    have hspan : digitSpan (d :: ds ++ rest) = (d :: ds, rest) := digitSpan_append hp hends
    rw [pointed, List.cons_append, hpoint]
    simp only [hspan, group?_of_isDigit hw.2, group?_of_isDigit hp, he]
    simp

theorem ofChars?_digits (hw : IsDigits whole) (hp : IsDigits part) :
    Fraction.ofChars? (whole ++ '.' :: part) =
      some ⟨whole.map digitValue, part.map digitValue, 0⟩ := by
  have hpointed : pointed part ++ [] = '.' :: part := by
    obtain ⟨d, ds, rfl⟩ := List.exists_cons_of_ne_nil hp.1
    rw [List.append_nil, pointed]
  rw [← hpointed]
  exact ofChars?_pointed hw hp.2 (by simp) rfl

/-- Digits on both sides of a point denote a ratio with a power of ten below. -/
theorem readFraction_digits {text : String} {negative : Bool}
    (h : text.toList = signChars negative ++ (whole ++ '.' :: part)) (hw : IsDigits whole)
    (hp : IsDigits part) :
    readFraction text = .ok (Binary64.ofRatio negative (Nat.ofDigitChars 10 (whole ++ part) 0)
      (10 ^ part.length)) := by
  have hvalue : Fraction.value negative ⟨whole.map digitValue, part.map digitValue, 0⟩ =
      Binary64.ofRatio negative (Nat.ofDigitChars 10 (whole ++ part) 0) (10 ^ part.length) := by
    have hlen : part.length = part.length - 1 + 1 :=
      (Nat.sub_add_cancel (List.length_pos_iff.mpr hp.1)).symm
    have hexp : ∀ bound : Nat, max (-(bound : Int)) (min 0 bound) - part.length =
        Int.negSucc (part.length - 1) := by
      intro bound
      omega
    rw [Fraction.value, ← List.map_append, ofDigits_map_digitValue]
    dsimp only
    rw [List.length_map, hexp, Binary64.ofDecimal, ← hlen, Nat.pow_eq]
  have htext : text.toList = signChars negative ++ (whole ++ (['.'] ++ part)) := h
  rw [← hvalue]
  exact readFraction_of_ofChars? htext hw hp (ofChars?_digits hw hp)

end Reading

open Binary64

theorem toList_write (layout : Decimal → List Char) (nameEnd : List Char) (negative : Bool)
    (rank : Fin rankLimit) : (write layout nameEnd (.finite negative rank)).toList =
      signChars negative ++ layout (shortest rank) := by
  have hwrite : write layout nameEnd (.finite negative rank) =
      String.ofList (signChars negative ++ layout (shortest rank)) := rfl
  rw [hwrite, String.toList_ofList]

/-- The text of a finite number is a fraction, with the sign of the number and the value of
its shortest decimal. -/
theorem exists_plainText (negative : Bool) (rank : Fin rankLimit) :
    ∃ whole part, (plainText (.finite negative rank)).toList =
        signChars negative ++ (whole ++ '.' :: part) ∧ Denotes whole part (shortest rank) := by
  obtain ⟨whole, part, hplain, hdenotes⟩ :=
    exists_plainLayout (isDigits_toDigits (shortest rank).digits) (shortest rank).exponent
  refine ⟨whole, part, ?_, ?_⟩
  · rw [plainText, toList_write, Decimal.plain, Decimal.digitChars, hplain]
  · rwa [Nat.ofDigitChars_ten_toDigits] at hdenotes

/-- The text of a finite number is read as this number. -/
theorem readFraction_plainText {x : Binary64} (h : x.isFinite = true) :
    readFraction x.plainText = .ok x := by
  cases x with
  | finite negative rank =>
    obtain ⟨whole, part, htext, hdenotes⟩ := exists_plainText negative rank
    have hread := readFraction_digits htext hdenotes.wholeDigits hdenotes.partDigits
    rwa [ofRatio_of_isRatio negative (Nat.pow_pos (by decide)) hdenotes.ratio] at hread
  | infinite negative => contradiction
  | nan => contradiction

end StackLisp.Numeral
