import StackLisp.Proofs.Printing.RoundTrip
import StackLisp.Proofs.Stages.Total

/-!
# Reading lowered code

The text of lowered code has no marks that tell numbers from names, and nothing is escaped. Yet
the fields can be told from it, if the names are those of a source: they hold no comma, they are
not empty, and none of them starts like a numeral, since the standard table would have taken it
for one. So dividing the text at its commas gives back the texts of the fields, and the first
characters of each tell what it is. Names of trees that were put together by hand need not have
this property.
-/

namespace StackLisp

open Grammar Lexical
open Numeral (IsWritable)

/-- The field that a text stands for. -/
def Field.ofText (cs : List Char) : Field :=
  if startsNumeral cs then
    match Numeral.readInteger (String.ofList cs) with
    | .ok n => .number n
    | .error _ => .name (String.ofList cs)
  else .name (String.ofList cs)

namespace Code

/-- Divides a text at each comma that a space follows. -/
def divide : List Char → List (List Char)
  | [] => [[]]
  | ',' :: ' ' :: cs => [] :: divide cs
  | c :: cs =>
    match divide cs with
    | [] => [[c]]
    | part :: parts => (c :: part) :: parts

/-- The fields that a text of lowered code stands for. -/
def fieldsOfText (text : String) : List Field :=
  if text = "" then [] else (divide text.toList).map Field.ofText

/-! ## Dividing a text -/

theorem divide_cons {c : Char} {cs part : List Char} {parts : List (List Char)} (hc : c ≠ ',')
    (h : divide cs = part :: parts) : divide (c :: cs) = (c :: part) :: parts := by
  rw [divide, h]
  rintro cs rfl
  exact absurd rfl hc

theorem divide_of_not_mem {cs : List Char} (h : ',' ∉ cs) : divide cs = [cs] := by
  induction cs with
  | nil => rfl
  | cons c cs ih =>
    rw [List.mem_cons, not_or] at h
    exact divide_cons (Ne.symm h.1) (ih h.2)

theorem divide_append {cs : List Char} (h : ',' ∉ cs) (rest : List Char) :
    divide (cs ++ ',' :: ' ' :: rest) = cs :: divide rest := by
  induction cs with
  | nil => rw [List.nil_append, divide]
  | cons c cs ih =>
    rw [List.mem_cons, not_or] at h
    exact divide_cons (Ne.symm h.1) (ih h.2)

/-- Texts without commas are found again in the text that joins them. -/
theorem divide_intercalate {texts : List String} (hne : texts ≠ [])
    (h : ∀ text ∈ texts, ',' ∉ text.toList) :
    divide (", ".intercalate texts).toList = texts.map String.toList := by
  induction texts with
  | nil => contradiction
  | cons text texts ih =>
    rw [List.forall_mem_cons] at h
    cases texts with
    | nil =>
      rw [String.intercalate_singleton]
      exact divide_of_not_mem h.1
    | cons next texts =>
      have hrest := ih (List.cons_ne_nil next texts) h.2
      have hcomma : ", ".toList = [',', ' '] := by
        decide
      rw [String.intercalate_cons_of_ne_nil (List.cons_ne_nil next texts), String.toList_append,
        String.toList_append, List.append_assoc, hcomma]
      exact (divide_append h.1 _).trans (congrArg (text.toList :: ·) hrest)

/-! ## The texts of fields -/

/-- The field is written as the text, and can be told from it. -/
structure IsText (field : Field) (text : String) : Prop where
  written : fieldText field = .ok text
  nonempty : text ≠ ""
  noComma : ',' ∉ text.toList
  ofText : Field.ofText text.toList = field

section Texts
variable {field : Field} {fields : List Field} {text : String} {texts : List String}

theorem comma_not_mem {cs : List Char} (h : ∀ c ∈ cs, isSymbolChar c = true) : ',' ∉ cs := by
  intro hm
  exact absurd (h ',' hm) (by decide)

theorem isText_number {k : Int} (h : IsWritable k) :
    IsText (.number k) (Numeral.integerText k) := by
  have hwrite := Numeral.writeInteger_of_isWritable h
  have hsign := Numeral.isSign_signChars (decide (k < 0))
  have hdigits := Numeral.isDigits_toDigits k.natAbs
  have htext := Numeral.toList_integerText k
  constructor
  · rw [fieldText, hwrite]
    rfl
  · rw [ne_eq, ← String.toList_eq_nil_iff, htext]
    exact List.append_ne_nil_of_right_ne_nil _ hdigits.1
  · apply comma_not_mem
    rw [htext]
    intro c hc
    rcases List.mem_append.mp hc with hc | hc
    · rcases hsign with hnil | hminus
      · rw [hnil] at hc
        contradiction
      · rw [hminus] at hc
        rw [List.mem_singleton.mp hc]
        decide
    · exact isSymbolChar_of_isDigit (hdigits.2 c hc)
  · have hstart : startsNumeral (Numeral.integerText k).toList = true := by
      rw [htext, ← List.append_nil (_ ++ _)]
      exact startsNumeral_append hsign hdigits
    rw [Field.ofText, if_pos hstart, String.ofList_toList,
      Numeral.readInteger_of_writeInteger hwrite]

theorem isText_name (h : IsName text.toList) : IsText (.name text) text := by
  constructor
  · rfl
  · rw [ne_eq, ← String.toList_eq_nil_iff]
    exact h.nonempty
  · exact comma_not_mem h.symbolChars
  · rw [Field.ofText, h.noNumeral, if_neg Bool.false_ne_true, String.ofList_toList]

theorem exists_texts (h : ∀ field ∈ fields, ∃ text, IsText field text) :
    ∃ texts, List.Forall₂ IsText fields texts := by
  induction fields with
  | nil => exact ⟨[], .nil⟩
  | cons field fields ih =>
    rw [List.forall_mem_cons] at h
    obtain ⟨text, htext⟩ := h.1
    obtain ⟨texts, htexts⟩ := ih h.2
    exact ⟨text :: texts, .cons htext htexts⟩

theorem mapM_fieldText (h : List.Forall₂ IsText fields texts) :
    fields.mapM fieldText = .ok texts := by
  induction h with
  | nil => rfl
  | cons htext _ ih =>
    rw [List.mapM_cons, htext.written, ih]
    rfl

theorem map_ofText (h : List.Forall₂ IsText fields texts) :
    (texts.map String.toList).map Field.ofText = fields := by
  induction h with
  | nil => rfl
  | cons htext _ ih => rw [List.map_cons, List.map_cons, htext.ofText, ih]

theorem forall_noComma (h : List.Forall₂ IsText fields texts) :
    ∀ text ∈ texts, ',' ∉ text.toList := by
  induction h with
  | nil => nofun
  | cons htext _ ih => exact List.forall_mem_cons.mpr ⟨htext.noComma, ih⟩

theorem intercalate_ne_empty (h : text ≠ "") (texts : List String) :
    ", ".intercalate (text :: texts) ≠ "" := by
  cases texts with
  | nil => rwa [String.intercalate_singleton]
  | cons next texts =>
    rw [String.intercalate_cons_of_ne_nil (List.cons_ne_nil next texts)]
    simp [h]

/-- The fields are found again in the text that joins theirs. -/
theorem fieldsOfText_intercalate (h : List.Forall₂ IsText fields texts) :
    fieldsOfText (", ".intercalate texts) = fields := by
  have hcommas := forall_noComma h
  have htexts := map_ofText h
  cases h with
  | nil => rfl
  | @cons field text fields texts htext _ =>
    have hne : ", ".intercalate (text :: texts) ≠ "" := intercalate_ne_empty htext.nonempty texts
    rw [fieldsOfText, if_neg hne, divide_intercalate (List.cons_ne_nil text texts) hcommas, htexts]

theorem IsText.fieldsOfText_eq (h : IsText field text) : fieldsOfText text = [field] := by
  have hread := fieldsOfText_intercalate (.cons h .nil)
  rwa [String.intercalate_singleton] at hread

theorem intercalate_eq_empty_iff (h : List.Forall₂ IsText fields texts) :
    ", ".intercalate texts = "" ↔ fields = [] := by
  constructor
  · intro htext
    rw [← fieldsOfText_intercalate h, htext]
    rfl
  · rintro rfl
    cases h
    rfl

/-- Different texts have different fields, and different fields have different texts. -/
theorem intercalate_inj {fields' : List Field} {texts' : List String}
    (h : List.Forall₂ IsText fields texts) (h' : List.Forall₂ IsText fields' texts') :
    ", ".intercalate texts = ", ".intercalate texts' ↔ fields = fields' := by
  constructor
  · intro htext
    rw [← fieldsOfText_intercalate h, htext, fieldsOfText_intercalate h']
  · rintro rfl
    have hwritten := (mapM_fieldText h).symm.trans (mapM_fieldText h')
    rw [Except.ok.inj hwritten]

end Texts

example : fieldsOfText "10, -5, -, -f" = [.number 10, .number (-5), .name "-", .name "-f"] := by
  decide

end Code

/-! ## Fields of a source -/

/-- A symbol is spelled by a token with its name. -/
theorem Grammar.Spells.exists_token {mode : Mode} {ts : List Token} {name : String}
    (h : Spells mode ts (.symbol name)) : ∃ t ∈ ts, t.kind = .symbol ∧ t.text = name := by
  have hatom : ∀ {t : Token}, IsAtom mode t (.symbol name) → t.kind = .symbol ∧ t.text = name := by
    intro t ha
    cases ha with
    | symbol hk => exact ⟨hk, rfl⟩
  cases mode with
  | code =>
    cases h with
    | atom ha => exact ⟨_, List.mem_cons_self, hatom ha⟩
  | data =>
    cases h with
    | atom ha => exact ⟨_, List.mem_cons_self, hatom ha⟩

namespace Code

section Sources
variable {source : String} {n : Node} {opcodes : Opcodes} {fields : List Field}

/-- A symbol of a tree that was read is a name as the scanner makes them. -/
theorem isName_of_inside (h : parseSource Table.standard source = .ok n) {inner : Mode}
    {name : String} (hi : Node.Inside .code n inner (.symbol name)) : IsName name.toList := by
  obtain ⟨ts, hscan, hexpr⟩ := exists_tokens_of_parseSource h
  have hspells : Spells .code ts n := hexpr
  obtain ⟨us, hus, hsymbol⟩ := hspells.inside hi
  obtain ⟨t, ht, hkind, rfl⟩ := hsymbol.exists_token
  have hlexical : t.IsLexical := isLexical_of_scanFrom hscan t (hus ht)
  rw [Token.IsLexical, hkind] at hlexical
  cases hlexical with
  | symbol hname => exact hname

theorem sound_of_parseSource (h : parseSource Table.standard source = .ok n) :
    n.Sound .code := by
  obtain ⟨ts, -, hexpr⟩ := exists_tokens_of_parseSource h
  exact sound_of_parse (parse_eq_ok_iff_isExpr.mpr hexpr)

/-- Every field of a tree that was read is told from its text. -/
theorem exists_isText (h : parseSource Table.standard source = .ok n)
    (ho : ∀ name k, opcodes.lookup name = some k → IsWritable k)
    (hemit : emit opcodes n = .ok fields) : ∀ field ∈ fields, ∃ text, IsText field text := by
  intro field hfield
  cases field with
  | number k =>
    have horigin := origin_of_emit .code n hemit hfield
    exact ⟨_, isText_number (horigin.isWritable (sound_of_parseSource h) ho)⟩
  | name text =>
    obtain ⟨inner, hi⟩ := exists_symbol_of_emit .code n hemit hfield
    exact ⟨text, isText_name (isName_of_inside h hi)⟩

/-- A tree that was read is lowered to a text from which its fields are found again. -/
theorem exists_lower (h : parseSource Table.standard source = .ok n)
    (ho : ∀ name k, opcodes.lookup name = some k → IsWritable k) :
    ∃ fields texts, emit opcodes n = .ok fields ∧ List.Forall₂ IsText fields texts ∧
      lower opcodes n = .ok (", ".intercalate texts) := by
  obtain ⟨fields, hemit⟩ := returns_emit (sound_of_parseSource h) opcodes
  obtain ⟨texts, htexts⟩ := exists_texts (exists_isText h ho hemit)
  refine ⟨fields, texts, hemit, htexts, ?_⟩
  rw [lower, hemit]
  exact congrArg (· >>= fun texts => pure (", ".intercalate texts)) (mapM_fieldText htexts)

end Sources

/-- Trees that were read are lowered to the same text just if they emit the same fields, with
numbers and names told apart. The text is that of no fields just if it is empty, and it is read
as the fields that were emitted; so is the text of each field by itself. -/
theorem lower_eq_iff_emit_eq {source₁ source₂ : String} {n₁ n₂ : Node} {opcodes₁ opcodes₂ : Opcodes}
    (h₁ : parseSource Table.standard source₁ = .ok n₁)
    (h₂ : parseSource Table.standard source₂ = .ok n₂)
    (ho₁ : ∀ name k, opcodes₁.lookup name = some k → IsWritable k)
    (ho₂ : ∀ name k, opcodes₂.lookup name = some k → IsWritable k) :
    ∃ fields₁ fields₂ text₁ text₂,
      emit opcodes₁ n₁ = .ok fields₁ ∧ lower opcodes₁ n₁ = .ok text₁ ∧
      emit opcodes₂ n₂ = .ok fields₂ ∧ lower opcodes₂ n₂ = .ok text₂ ∧
      (text₁ = text₂ ↔ fields₁ = fields₂) ∧
      (text₁ = "" ↔ fields₁ = []) ∧
      fieldsOfText text₁ = fields₁ ∧
      ∀ field ∈ fields₁, ∃ text, fieldText field = .ok text ∧ text ≠ "" ∧
        fieldsOfText text = [field] := by
  obtain ⟨fields₁, texts₁, hemit₁, htexts₁, hlower₁⟩ := exists_lower h₁ ho₁
  obtain ⟨fields₂, texts₂, hemit₂, htexts₂, hlower₂⟩ := exists_lower h₂ ho₂
  refine ⟨fields₁, fields₂, _, _, hemit₁, hlower₁, hemit₂, hlower₂, intercalate_inj htexts₁ htexts₂,
    intercalate_eq_empty_iff htexts₁, fieldsOfText_intercalate htexts₁, ?_⟩
  intro field hfield
  obtain ⟨text, htext⟩ := exists_isText h₁ ho₁ hemit₁ field hfield
  exact ⟨text, htext.written, htext.nonempty, htext.fieldsOfText_eq⟩

/-- Opcodes that make `(f x y)` push a one. -/
def pushingOpcodes : Opcodes := [("y", pushLiteral), ("x", 1)]

theorem lower_eq_iff_emit_eq_pushingOpcodes :
    parseSource Table.standard "(f 1)" = .ok (.application (.symbol "f") [.integer 1]) ∧
    parseSource Table.standard "(f x y)" =
      .ok (.application (.symbol "f") [.symbol "x", .symbol "y"]) ∧
    ∃ text, lower [] (.application (.symbol "f") [.integer 1]) = .ok text ∧
      lower pushingOpcodes (.application (.symbol "f") [.symbol "x", .symbol "y"]) = .ok text ∧
      fieldsOfText text = [.number 10, .number 1, .name "f"] := by
  have hscan₁ : scan Table.standard "(f 1)" = .ok [⟨.openParen, "(", 1, 0, 0⟩,
      ⟨.symbol, "f", 1, 1, 1⟩, ⟨.integer, "1", 1, 3, 3⟩, ⟨.closeParen, ")", 1, 4, 4⟩] := by
    decide +kernel
  have hscan₂ : scan Table.standard "(f x y)" = .ok [⟨.openParen, "(", 1, 0, 0⟩,
      ⟨.symbol, "f", 1, 1, 1⟩, ⟨.symbol, "x", 1, 3, 3⟩, ⟨.symbol, "y", 1, 5, 5⟩,
      ⟨.closeParen, ")", 1, 6, 6⟩] := by
    decide +kernel
  have h₁ : parseSource Table.standard "(f 1)" =
      .ok (.application (.symbol "f") [.integer 1]) := by
    rw [parseSource, hscan₁]
    rfl
  have h₂ : parseSource Table.standard "(f x y)" =
      .ok (.application (.symbol "f") [.symbol "x", .symbol "y"]) := by
    rw [parseSource, hscan₂]
    rfl
  have hnone : ∀ name k, List.lookup name ([] : Opcodes) = some k → IsWritable k :=
    isWritable_of_lookup (by decide)
  have hpushing : ∀ name k, pushingOpcodes.lookup name = some k → IsWritable k :=
    isWritable_of_lookup (by decide)
  obtain ⟨fields₁, fields₂, text₁, text₂, hemit₁, hlower₁, hemit₂, hlower₂, hiff, -, hread, -⟩ :=
    lower_eq_iff_emit_eq h₁ h₂ hnone hpushing
  have hfields : fields₁ = [.number 10, .number 1, .name "f"] :=
    (Except.ok.inj hemit₁).symm
  have hsame : text₁ = text₂ := hiff.mpr (hfields.trans (Except.ok.inj hemit₂))
  refine ⟨h₁, h₂, text₁, hlower₁, ?_, hread.trans hfields⟩
  rw [hsame]
  exact hlower₂

end Code

end StackLisp
