import StackLisp.Proofs.Stages.Total
import StackLisp.Report

/-!
# Reports of sources

A report scans and parses a source, and then describes, renders and lowers the tree. Only the
first two can refuse the source, because what they let through is sound. So a report is made
exactly if the source can be parsed, and it fails with the error of parsing. It is written
after it was made, so a text that reports are appended to stays as it was if there is none.
-/

namespace StackLisp

variable {table : Table} {source : String} {n : Node} {f : SourceFailure}

theorem Code.isWritable_of_builtin {name : String} {k : Int}
    (h : Code.builtin.lookup name = some k) : Numeral.IsWritable k :=
  isWritable_of_lookup (by decide) name k h

namespace Report

theorem returns_ofSource (h : parseSource table source = .ok n) :
    Returns (ofSource table source) := by
  obtain ⟨ts, hscan, hparse⟩ := exists_of_bind_eq_ok h
  have hsound : n.Sound .code := sound_of_parse (eq_ok_of_mapError hparse)
  have hdisplay := hsound.display
  have hrender := hsound.render
  have hlower := Code.returns_lower hsound fun _ _ => Code.isWritable_of_builtin
  have htree : (parse ts).mapError (StageError.source ∘ .read) = .ok n := by
    rw [eq_ok_of_mapError hparse]
    rfl
  rw [ofSource, eq_ok_of_mapError hscan]
  change Returns ((parse ts).mapError (StageError.source ∘ .read) >>= _)
  rw [htree]
  exact (hdisplay.mapError _).bind fun _ _ => (hrender.mapError _).bind fun _ _ =>
    (hlower.mapError _).bind fun _ _ => returns_ok _

/-- A source that cannot be parsed has no report, for the same reason. -/
theorem ofSource_eq_error (h : parseSource table source = .error f) :
    ofSource table source = .error (.source f) := by
  rw [parseSource] at h
  rw [ofSource]
  cases hscan : scan table source with
  | error e =>
    rw [hscan] at h
    cases h
    rfl
  | ok ts =>
    rw [hscan] at h
    cases hparse : parse ts with
    | ok n => simp [hparse, Except.mapError, bind, Except.bind] at h
    | error e =>
      simp only [hparse, Except.mapError, bind, Except.bind] at h
      cases h
      simp [hparse, Except.mapError, bind, Except.bind]

theorem write_of_ok {report : String} (h : ofSource table source = .ok report)
    (out : Option String) :
    write table source out = (.ok report, out.map (· ++ report)) := by
  rw [write, h]

theorem write_of_error {e : StageError} (h : ofSource table source = .error e)
    (out : Option String) : write table source out = (.error e, out) := by
  rw [write, h]

end Report

/-- What was parsed from any tokens is rendered and lowered without an error, under all opcodes
that can be written. So a report fails only where parsing fails, with the same error and before
anything is written; otherwise it is written as it is returned. -/
theorem later_stages_never_fail :
    (∀ ts n opcodes, parse ts = .ok n →
      (∀ name k, opcodes.lookup name = some k → Numeral.IsWritable k) →
      (∃ text, n.render = .ok text) ∧ (∃ fields, Code.emit opcodes n = .ok fields) ∧
        ∃ text, Code.lower opcodes n = .ok text) ∧
    ∀ table source,
      (∃ n report, parseSource table source = .ok n ∧ ∀ out,
        Report.write table source out = (.ok report, out.map (· ++ report))) ∨
      ∃ f, parseSource table source = .error f ∧ ∀ out,
        Report.write table source out = (.error (.source f), out) := by
  constructor
  · intro ts n opcodes hparse hopcodes
    have hsound : n.Sound .code := sound_of_parse hparse
    exact ⟨hsound.render, Code.returns_emit hsound opcodes, Code.returns_lower hsound hopcodes⟩
  · intro table source
    cases hparse : parseSource table source with
    | ok n =>
      obtain ⟨report, hreport⟩ := Report.returns_ofSource hparse
      exact .inl ⟨n, report, rfl, Report.write_of_ok hreport⟩
    | error f => exact .inr ⟨f, rfl, Report.write_of_error (Report.ofSource_eq_error hparse)⟩

/-- A quoted fraction that is no number and a quoted integer beyond the range of code, next to a
symbol with an opcode. -/
def extremeTokens : List Token :=
  [⟨.openParen, "(", 1, 0, 0⟩, ⟨.symbol, "f", 1, 1, 1⟩, ⟨.openParen, "(", 1, 3, 3⟩,
    ⟨.symbol, "quote", 1, 4, 4⟩, ⟨.float, "nan", 1, 10, 10⟩,
    ⟨.integer, "9223372036854775808", 1, 14, 14⟩, ⟨.closeParen, ")", 1, 33, 33⟩,
    ⟨.closeParen, ")", 1, 34, 34⟩]

theorem later_stages_never_fail_extremeTokens :
    ∃ n, parse extremeTokens = .ok n ∧ (∃ text, n.render = .ok text) ∧
      (∃ fields, Code.emit [("f", -1)] n = .ok fields) ∧
      ∃ text, Code.lower [("f", -1)] n = .ok text := by
  have hparse : parse extremeTokens = .ok (.application (.symbol "f")
      [.quote "nan 9223372036854775808" [.float .nan, .integer 9223372036854775808]]) := by
    rfl
  have hopcodes : ∀ name k, List.lookup name [("f", (-1 : Int))] = some k →
      Numeral.IsWritable k := by
    intro name k hk
    have hentry : k = -1 := by
      rw [List.lookup_cons] at hk
      split at hk
      · exact (Option.some.inj hk).symm
      · contradiction
    subst hentry
    decide
  exact ⟨_, hparse, later_stages_never_fail.1 _ _ _ hparse hopcodes⟩

end StackLisp
