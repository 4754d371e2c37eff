import StackLisp.Proofs.Grammar.Acceptance
import StackLisp.Proofs.Grammar.ViablePrefix
import StackLisp.Proofs.Lexical.Layout
import StackLisp.Proofs.Numeral.Plain

/-!
# Numerals that cannot be converted

A source is refused with a syntax error, of the scanner or of the reader, with one exception.
Numerals are converted before anything is asked about their range, and the error of a
conversion comes out as it is, from code as well as from inside a quote. Fractions of the
standard table can always be converted, and so can integers up to a number of digits. Beyond
that number an integer in a source brings about an error that is no syntax error.
-/

namespace StackLisp

open Grammar Lexical
open Numeral (IsSign IsDigits signChars readInteger readFraction)

/-- What the scanner and the reader say about a source that is no program. -/
inductive SourceFailure.IsSyntaxError : SourceFailure → Prop
  | lex (error : LexError) : IsSyntaxError (.lex error)
  | parse (error : ParseError) : IsSyntaxError (.read (.parse error))

namespace Token

/-- The numeral of a token cannot be converted. -/
inductive Unconvertible (t : Token) (e : NumeralError) : Prop
  | integer : t.kind = .integer → readInteger t.text = .error e → Unconvertible t e
  | float : t.kind = .float → readFraction t.text = .error e → Unconvertible t e

/-- An integer has more digits than are converted. -/
structure Oversized (t : Token) (count : Nat) : Prop where
  kind : t.kind = .integer
  digits : t.text.toList.countP Char.isDigit = count
  limit : NumeralError.digitLimit < count

end Token

theorem Numeral.IsSign.exists_eq {sign : List Char} (h : IsSign sign) :
    ∃ negative, sign = signChars negative := by
  rcases h with rfl | rfl
  · exact ⟨false, rfl⟩
  · exact ⟨true, rfl⟩

theorem Numeral.countP_isDigit {sign ds : List Char} (hs : IsSign sign) (hd : IsDigits ds) :
    (sign ++ ds).countP Char.isDigit = ds.length := by
  have hsign : sign.countP Char.isDigit = 0 := by
    rcases hs with rfl | rfl
    · rfl
    · rfl
  rw [List.countP_append, hsign, List.countP_eq_length.mpr hd.2, Nat.zero_add]

/-- Among the texts of the standard table it is the long integers that cannot be converted. -/
theorem Token.IsLexical.unconvertible_iff {t : Token} {e : NumeralError} (h : t.IsLexical) :
    t.Unconvertible e ↔ ∃ count, t.Oversized count ∧ e = .tooManyDigits count := by
  unfold Token.IsLexical at h
  constructor
  · intro hu
    cases hu with
    | integer hk he =>
      rw [hk] at h
      generalize htext : t.text.toList = a at h
      cases h with
      | @integer sign ds hs hd =>
        have hcount := Numeral.countP_isDigit hs hd
        obtain ⟨negative, rfl⟩ := hs.exists_eq
        rw [Numeral.readInteger_digits htext hd] at he
        split at he
        next hlimit =>
          cases he
          exact ⟨ds.length, ⟨hk, htext ▸ hcount, hlimit⟩, rfl⟩
        next => contradiction
    | float hk he =>
      rw [hk] at h
      generalize htext : t.text.toList = a at h
      cases h with
      | float hs hw hp =>
        obtain ⟨negative, rfl⟩ := hs.exists_eq
        rw [List.append_assoc] at htext
        rw [Numeral.readFraction_digits htext hw hp] at he
        contradiction
  · intro ho
    obtain ⟨count, ho, rfl⟩ := ho
    have hcount := ho.digits
    rw [ho.kind] at h
    generalize htext : t.text.toList = a at h hcount
    cases h with
    | @integer sign ds hs hd =>
      rw [Numeral.countP_isDigit hs hd] at hcount
      obtain ⟨negative, rfl⟩ := hs.exists_eq
      refine .integer ho.kind ?_
      rw [Numeral.readInteger_digits htext hd, hcount, if_pos ho.limit]

/-! ## The reader -/

theorem Node.unconvertible_of_ofAtom {mode : Mode} {t : Token} {e : NumeralError}
    (h : Node.ofAtom mode t = .error (.numeral e)) : t.Unconvertible e := by
  unfold Node.ofAtom at h
  split at h
  next hk =>
    split at h
    next hr =>
      cases h
      exact .integer hk hr
    next => split at h <;> cases h
  next hk =>
    split at h
    next hr =>
      cases h
      exact .float hk hr
    next => split at h <;> cases h
  all_goals cases h

theorem Node.ofAtom_of_unconvertible {t : Token} {e : NumeralError} (h : t.Unconvertible e)
    (mode : Mode) : Node.ofAtom mode t = .error (.numeral e) := by
  cases h with
  | integer hk hr => simp only [Node.ofAtom, hk, hr]
  | float hk hr => simp only [Node.ofAtom, hk, hr]

section Reading
variable {ts : List Token} {e : NumeralError}

/-- A step fails over a numeral only if the numeral of its token cannot be converted. -/
theorem State.unconvertible_of_step {s : State} {t : Token}
    (h : s.step t = .error (.numeral e)) : t.Unconvertible e := by
  cases refused_of_step h with
  | numeral hn => exact Node.unconvertible_of_ofAtom hn

theorem State.exists_unconvertible_of_run {s : State} {f : Failure}
    (h : s.run ts = .error f) (hf : f.cause = .numeral e) : ∃ t ∈ ts, t.Unconvertible e := by
  induction ts generalizing s with
  | nil =>
    cases h
    contradiction
  | cons t ts ih =>
    cases ho : s.step t with
    | error r =>
      rw [run_cons_of_refused ho] at h
      cases h
      cases r with
      | before reason => contradiction
      | after reason => contradiction
      | numeral e' =>
        cases hf
        exact ⟨t, List.mem_cons_self, unconvertible_of_step ho⟩
    | ok o =>
      rw [run_cons_of_step ho] at h
      cases o with
      | next s' =>
        obtain ⟨u, hu, he⟩ := ih h
        exact ⟨u, List.mem_cons_of_mem t hu, he⟩
      | done n => contradiction

theorem Reading.exists_unconvertible_of_all {f : Failure} (h : Reading.all ts = .error f)
    (hf : f.cause = .numeral e) : ∃ t ∈ ts, t.Unconvertible e := by
  fun_induction Reading.all ts generalizing f with
  | case1 => contradiction
  | case2 ts _ f' hform =>
    cases h
    exact State.exists_unconvertible_of_run hform hf
  | case3 ts _ n rest hform ih =>
    obtain ⟨used, rfl, _⟩ := Reading.form_eq_ok_iff.mp hform
    cases hall : Reading.all rest with
    | error f' =>
      rw [hall] at h
      cases h
      obtain ⟨t, ht, he⟩ := ih hall hf
      exact ⟨t, List.mem_append_right used ht, he⟩
    | ok p => simp [hall, bind, Except.bind, pure, Except.pure] at h

theorem Cause.eq_numeral {c : Cause} {last : Option Token} (h : c.error last = .numeral e) :
    c = .numeral e := by
  cases c with
  | incomplete reason => contradiction
  | refused reason t => contradiction
  | numeral e' =>
    cases h
    rfl

theorem exists_unconvertible_of_parse (h : parse ts = .error (.numeral e)) :
    ∃ t ∈ ts, t.Unconvertible e := by
  unfold parse at h
  split at h
  next f hform =>
    exact State.exists_unconvertible_of_run hform (Cause.eq_numeral (Except.error.inj h))
  next => contradiction
  next => cases h

theorem exists_unconvertible_of_readForms (h : readForms ts = .error (.numeral e)) :
    ∃ t ∈ ts, t.Unconvertible e := by
  unfold readForms at h
  split at h
  next f hall =>
    exact Reading.exists_unconvertible_of_all hall (Cause.eq_numeral (Except.error.inj h))
  next => contradiction

end Reading

/-! ## Sources -/

/-- The failure is a syntax error, or it comes from an integer of the source that has too many
digits. -/
def SourceFailure.Explained (source : String) (f : SourceFailure) : Prop :=
  f.IsSyntaxError ∨ ∃ ts t count, scan Table.standard source = .ok ts ∧ t ∈ ts ∧
    t.Oversized count ∧ f = .read (.numeral (.tooManyDigits count))

/-- Reading a source in any way fails as is explained, if only the numerals of its tokens can
bring about other errors than those of the reader. -/
theorem explained_of_error {α : Type} {reading : List Token → Except ReadError α}
    (hreading : ∀ ts e, reading ts = .error (.numeral e) → ∃ t ∈ ts, t.Unconvertible e)
    {source : String} {f : SourceFailure}
    (h : (do
      let ts ← (scan Table.standard source).mapError SourceFailure.lex
      (reading ts).mapError SourceFailure.read) = .error f) : f.Explained source := by
  cases hscan : scan Table.standard source with
  | error e =>
    rw [hscan] at h
    cases h
    exact .inl (.lex e)
  | ok ts =>
    rw [hscan] at h
    cases hr : reading ts with
    | ok value => simp [hr, Except.mapError, bind, Except.bind] at h
    | error e =>
      simp only [hr, Except.mapError, bind, Except.bind] at h
      cases h
      cases e with
      | parse e => exact .inl (.parse e)
      | numeral e =>
        obtain ⟨t, ht, hu⟩ := hreading ts e hr
        obtain ⟨count, ho, rfl⟩ :=
          (isLexical_of_scanFrom hscan t ht).unconvertible_iff.mp hu
        exact .inr ⟨ts, t, count, hscan, ht, ho, rfl⟩

/-- Parsing a source, or reading all of it, succeeds, or fails with a syntax error or at an
integer with too many digits. -/
theorem source_succeeds_or_failure_explained (source : String) :
    ((∃ n, parseSource Table.standard source = .ok n) ∨
      ∃ f, parseSource Table.standard source = .error f ∧ f.Explained source) ∧
    ((∃ ns, readSource Table.standard source = .ok ns) ∨
      ∃ f, readSource Table.standard source = .error f ∧ f.Explained source) := by
  constructor
  · cases h : parseSource Table.standard source with
    | ok n => exact .inl ⟨n, rfl⟩
    | error f =>
      exact .inr ⟨f, rfl, explained_of_error (fun _ _ => exists_unconvertible_of_parse) h⟩
  · cases h : readSource Table.standard source with
    | ok ns => exact .inl ⟨ns, rfl⟩
    | error f =>
      exact .inr ⟨f, rfl, explained_of_error (fun _ _ => exists_unconvertible_of_readForms) h⟩

/-- A source of too many digits is refused, but not with a syntax error. -/
theorem parseSource_digits {ds : List Char} (hd : IsDigits ds)
    (hlimit : NumeralError.digitLimit < ds.length) :
    parseSource Table.standard (String.ofList ds) =
      .error (.read (.numeral (.tooManyDigits ds.length))) := by
  have hchars : (String.ofList ds).toList = signChars false ++ ds := String.toList_ofList
  have hvalid : Valid .integer (String.ofList ds).toList := by
    rw [hchars]
    exact .integer (Numeral.isSign_signChars false) hd
  have hscan := scan_of_valid hvalid
  have hread : (Token.mk .integer (String.ofList ds) 1 0 0).Unconvertible
      (.tooManyDigits ds.length) := by
    refine .integer rfl ?_
    rw [Numeral.readInteger_digits hchars hd, if_pos hlimit]
  have hparse : parse [⟨.integer, String.ofList ds, 1, 0, 0⟩] =
      .error (.numeral (.tooManyDigits ds.length)) := by
    have hstep : State.start.step ⟨.integer, String.ofList ds, 1, 0, 0⟩ =
        .error (.numeral (.tooManyDigits ds.length)) := by
      have hatom := Node.ofAtom_of_unconvertible hread .code
      simp [State.start, State.step, State.form, hatom, bind, Except.bind]
    exact parse_of_steps_refused .nil hstep []
  rw [parseSource_of_scan hscan, hparse]
  rfl

/-- One digit more than are converted. -/
theorem long_integer_no_syntax_error :
    ∃ f, parseSource Table.standard (String.ofList (List.replicate 4301 '1')) = .error f ∧
      ¬ f.IsSyntaxError := by
  have hlimit : NumeralError.digitLimit < (List.replicate 4301 '1').length := by
    rw [List.length_replicate]
    decide
  have hd : IsDigits (List.replicate 4301 '1') := by
    refine ⟨List.ne_nil_of_length_pos (Nat.zero_lt_of_lt hlimit), fun c hc => ?_⟩
    rw [List.eq_of_mem_replicate hc]
    decide
  refine ⟨_, parseSource_digits hd hlimit, ?_⟩
  intro h
  cases h

end StackLisp
