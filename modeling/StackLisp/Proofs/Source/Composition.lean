import StackLisp.Proofs.Grammar.Unplaced
import StackLisp.Proofs.Grammar.Window
import StackLisp.Proofs.Lexical.Boundary

/-!
# Sources in a row

Two sources with blanks between them are scanned and read like the one and then the other. No
token reaches from the first into the second, and no form does if the first can be read alone.
What is wrong with the second is wrong with both in a row, only further behind.
-/

namespace StackLisp

open Text (isBlank)

/-- What sort of error it is that a source is refused with. -/
inductive ErrorSort where
  /-- At some character no token starts. -/
  | lex
  /-- The tokens do not form an expression. -/
  | parse
  /-- A numeral cannot be converted. -/
  | numeral
  deriving DecidableEq, Repr

def ReadError.sort : ReadError → ErrorSort
  | .parse _ => .parse
  | .numeral _ => .numeral

def SourceFailure.sort : SourceFailure → ErrorSort
  | .lex _ => .lex
  | .read error => error.sort

/-- The sort of an error is told neither by a place nor by the last of all tokens. -/
theorem Cause.sort_error_unplaced (c : Cause) (last last' : Option Token) :
    (c.unplaced.error last).sort = (c.error last').sort := by
  cases c with
  | incomplete _ | refused _ _ | numeral _ => rfl

theorem readForms_eq_error_iff {ts : List Token} {e : ReadError} :
    readForms ts = .error e ↔
      ∃ failure, Reading.all ts = .error failure ∧ e = failure.cause.error ts.getLast? := by
  rw [readForms]
  cases Reading.all ts with
  | ok p => simp
  | error failure => simp [eq_comm]

/-- Behind tokens that can be read, an error of the tokens that follow keeps its sort. -/
theorem readForms_append_error {ts us vs : List Token} {ms : List Node} {e : ReadError}
    (ht : readForms ts = .ok ms) (hs : us.map Token.shape = vs.map Token.shape)
    (hv : readForms vs = .error e) :
    ∃ e', readForms (ts ++ us) = .error e' ∧ e'.sort = e.sort := by
  rcases readForms_eq_error_iff.mp hv with ⟨failure, hall, rfl⟩
  rcases Reading.exists_all_eq_error_of_shape hs hall with ⟨failure', hall', hunplaced⟩
  have happend : Reading.all (ts ++ us) = .error failure' := by
    rw [Reading.all_append (readForms_eq_ok_iff_each.mp ht), hall']
    rfl
  refine ⟨_, readForms_eq_error_iff.mpr ⟨failure', happend, rfl⟩, ?_⟩
  have hcause : failure'.cause.unplaced = failure.cause.unplaced :=
    congrArg Failure.cause hunplaced
  rw [← Cause.sort_error_unplaced _ none, hcause, Cause.sort_error_unplaced]

theorem Token.map_shape_of_cut_later {distance : Nat} {us vs : List Token}
    (h : us.map Token.cut = (vs.map (Token.later distance)).map Token.cut) :
    us.map Token.shape = vs.map Token.shape := by
  have hshape := congrArg (List.map fun p : Kind × String × Int => (p.1, p.2.1)) h
  rw [List.map_map, List.map_map, List.map_map] at hshape
  exact hshape

section Sources
variable {a w b : String} {ms ns : List Node} {f : SourceFailure}

theorem exists_of_readSource_ok (h : readSource Table.standard a = .ok ms) :
    ∃ ts, scan Table.standard a = .ok ts ∧ readForms ts = .ok ms := by
  cases hscan : scan Table.standard a with
  | error e =>
    rw [readSource_of_scan_error hscan] at h
    contradiction
  | ok ts =>
    rw [readSource_of_scan hscan] at h
    exact ⟨ts, rfl, eq_ok_of_mapError h⟩

theorem readSource_behind_ok (ha : readSource Table.standard a = .ok ms) (hne : w ≠ "")
    (hw : ∀ c ∈ w.toList, isBlank c = true) (hb : readSource Table.standard b = .ok ns) :
    readSource Table.standard (a ++ w ++ b) = .ok (ms ++ ns) := by
  rcases exists_of_readSource_ok ha with ⟨ts, hts, hms⟩
  rcases exists_of_readSource_ok hb with ⟨vs, hvs, hns⟩
  rcases scan_behind_ok hts hne hw hvs with ⟨us, hscan, hcut⟩
  have hus : readForms us = .ok ns := by
    rw [readForms_eq_ok_iff_each] at hns ⊢
    exact (hns.imp fun _ _ he => he.of_shape).of_shape (Token.map_shape_of_cut_later hcut)
  rw [readSource_of_scan hscan, readForms_append hms hus]
  rfl

/-- The second of two sources is refused with an error of the same sort. -/
theorem readSource_behind_error (ha : readSource Table.standard a = .ok ms) (hne : w ≠ "")
    (hw : ∀ c ∈ w.toList, isBlank c = true) (hb : readSource Table.standard b = .error f) :
    ∃ f', readSource Table.standard (a ++ w ++ b) = .error f' ∧ f'.sort = f.sort := by
  rcases exists_of_readSource_ok ha with ⟨ts, hts, hms⟩
  cases hvs : scan Table.standard b with
  | error e =>
    rcases scan_behind_error hts hne hw hvs with ⟨e', hscan, -, -⟩
    rw [readSource_of_scan_error hvs] at hb
    cases hb
    exact ⟨.lex e', readSource_of_scan_error hscan, rfl⟩
  | ok vs =>
    rcases scan_behind_ok hts hne hw hvs with ⟨us, hscan, hcut⟩
    rw [readSource_of_scan hvs] at hb
    cases hread : readForms vs with
    | ok ns =>
      rw [hread] at hb
      contradiction
    | error e =>
      rw [hread] at hb
      cases hb
      have hshape := Token.map_shape_of_cut_later hcut
      rcases readForms_append_error hms hshape hread with ⟨e', herror, hsort⟩
      refine ⟨.read e', ?_, hsort⟩
      rw [readSource_of_scan hscan, herror]
      rfl

end Sources

/-- Two sources with blanks between them are scanned like the one and then the other, further
behind, and they are read like the one and then the other. Where the second alone is refused,
both in a row are: by scanning, at the same character; by reading, with an error of the same
sort. -/
theorem sources_compose (a w b : String) (hne : w ≠ "")
    (hw : ∀ c ∈ w.toList, isBlank c = true) :
    (∀ ts, scan Table.standard a = .ok ts →
      ((∃ us, scan Table.standard (a ++ w ++ b) = .ok us) ↔
        ∃ vs, scan Table.standard b = .ok vs) ∧
      (∀ vs, scan Table.standard b = .ok vs →
        ∃ us, scan Table.standard (a ++ w ++ b) = .ok us ∧
          us.map Token.cut = (ts ++ vs.map (Token.later (a ++ w).length)).map Token.cut) ∧
      (∀ e, scan Table.standard b = .error e →
        ∃ e', scan Table.standard (a ++ w ++ b) = .error e' ∧
          e'.position = (a ++ w).length + e.position ∧ e'.char = e.char)) ∧
    (∀ ms, readSource Table.standard a = .ok ms →
      (∀ ns, readSource Table.standard b = .ok ns →
        readSource Table.standard (a ++ w ++ b) = .ok (ms ++ ns)) ∧
      (∀ f, readSource Table.standard b = .error f →
        ∃ f', readSource Table.standard (a ++ w ++ b) = .error f' ∧ f'.sort = f.sort)) := by
  constructor
  · intro ts ha
    refine ⟨⟨?_, ?_⟩, ?_, fun e => scan_behind_error ha hne hw⟩
    · intro h
      rcases h with ⟨us, hscan⟩
      cases hb : scan Table.standard b with
      | ok vs => exact ⟨vs, rfl⟩
      | error e =>
        rcases scan_behind_error ha hne hw hb with ⟨e', hscan', -, -⟩
        rw [hscan] at hscan'
        contradiction
    · intro h
      rcases h with ⟨vs, hb⟩
      rcases scan_behind_ok ha hne hw hb with ⟨us, hscan, -⟩
      exact ⟨ts ++ us, hscan⟩
    · intro vs hb
      rcases scan_behind_ok ha hne hw hb with ⟨us, hscan, hcut⟩
      refine ⟨ts ++ us, hscan, ?_⟩
      rw [List.map_append, List.map_append, hcut]
  · intro ms ha
    exact ⟨fun ns => readSource_behind_ok ha hne hw, fun f => readSource_behind_error ha hne hw⟩

/-- A sign and a digit are one numeral, but not with a line feed between them; and a quote that
opens a string which is never closed is found behind both. -/
theorem sources_compose_sign :
    "\n" ≠ "" ∧ (∀ c ∈ "\n".toList, isBlank c = true) ∧
      (∃ us, scan Table.standard ("+" ++ "\n" ++ "5") = .ok us ∧
        us.map Token.cut = [(.symbol, "+", 0), (.integer, "5", 2)]) ∧
      readSource Table.standard ("+" ++ "\n" ++ "5") = .ok [.symbol "+", .integer 5] ∧
      (∃ e, scan Table.standard ("+" ++ "\n" ++ "\x22") = .error e ∧
        e.position = 2 ∧ e.char = "\x22") ∧
      ∃ f, readSource Table.standard ("+" ++ "\n" ++ "\x22") = .error f ∧ f.sort = .lex := by
  have hne : "\n" ≠ "" := by
    decide
  have hw : ∀ c ∈ "\n".toList, isBlank c = true := by
    simp [isBlank]
  have hsign : scan Table.standard "+" = .ok [⟨.symbol, "+", 1, 0, 0⟩] := by
    cbv
  have hdigit : scan Table.standard "5" = .ok [⟨.integer, "5", 1, 0, 0⟩] := by
    cbv
  have hquote : scan Table.standard "\x22" = .error ⟨0, "\x22", 1, 0⟩ := by
    cbv
  have hsign' : readSource Table.standard "+" = .ok [.symbol "+"] := by
    rw [readSource_of_scan hsign, parse_eq_ok_iff_readForms.mp rfl]
    rfl
  have hdigit' : readSource Table.standard "5" = .ok [.integer 5] := by
    rw [readSource_of_scan hdigit, parse_eq_ok_iff_readForms.mp rfl]
    rfl
  have h := sources_compose "+" "\n" "5" hne hw
  have h' := sources_compose "+" "\n" "\x22" hne hw
  exact ⟨hne, hw, (h.1 _ hsign).2.1 _ hdigit, (h.2 _ hsign').1 _ hdigit',
    (h'.1 _ hsign).2.2 _ hquote, (h'.2 _ hsign').2 _ (readSource_of_scan_error hquote)⟩

end StackLisp
