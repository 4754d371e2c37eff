import StackLisp.Proofs.Grammar.Acceptance
import StackLisp.Proofs.Grammar.Shape

/-!
# Reading looks at nothing else

A form or a datum is read from a window of the tokens, which lies between the places of the
cursor before and after. The tokens outside the window do not count, nor do the places of those
inside it, nor where in the whole list it lies. So a form can be moved from one list of tokens
to another, and lists of forms can be put together.
-/

namespace StackLisp

open Grammar

/-- The call that reads one form of code, or one datum. -/
def Call.ofMode : Mode → Call
  | .code => .form
  | .data => .datum

namespace Grammar.Spells

variable {mode : Mode} {ts us : List Token} {n : Node}

theorem of_shape (h : Spells mode ts n) (hs : us.map Token.shape = ts.map Token.shape) :
    Spells mode us n := by
  cases mode with
  | code => exact IsExpr.of_shape h us hs
  | data => exact IsDatum.of_shape h us hs

theorem ne_nil (h : Spells mode ts n) : ts ≠ [] := by
  cases mode with
  | code => exact IsExpr.ne_nil h
  | data => exact IsDatum.ne_nil h

end Grammar.Spells

namespace Reader

/-- The reader after some more tokens. -/
def advance (r : Reader) (count : Nat) : Reader := { r with cursor := r.cursor + count }

/-- The tokens between the cursors of two readers. -/
def window (r r' : Reader) : List Token := r.rest.take (r'.cursor - r.cursor)

variable {r r' s : Reader} {mode : Mode} {n : Node} {used rest : List Token}

theorem advance_cursor_sub (r : Reader) (count : Nat) :
    (r.advance count).cursor - r.cursor = count :=
  Nat.add_sub_cancel_left r.cursor count

theorem window_advance (h : used <+: r.rest) : r.window (r.advance used.length) = used := by
  rw [window, advance_cursor_sub]
  exact (List.prefix_iff_eq_take.mp h).symm

/-- A reader that leaves the tokens after a phrase stands behind the phrase. -/
theorem leave_eq_advance (h : r.rest = used ++ rest) (hne : used ≠ []) :
    r.leave rest = r.advance used.length := by
  have hlength := congrArg List.length h
  have hpos := List.length_pos_iff.mpr hne
  rw [Reader.rest, List.length_drop, List.length_append] at hlength
  have hcursor : r.tokens.length - rest.length = r.cursor + used.length := by
    omega
  rw [leave, advance, hcursor]

theorem call_ofMode : r.call (.ofMode mode) = r.read (Reading.form mode) .form := by
  cases mode with
  | code => rfl
  | data => rfl

/-- What is read is the phrase in front of the cursor, and the cursor moves behind it. -/
theorem call_ofMode_eq_ok_iff : r.call (.ofMode mode) = (.ok (.form n), r') ↔
    ∃ used, used <+: r.rest ∧ Spells mode used n ∧ r' = r.advance used.length := by
  rw [call_ofMode, read]
  constructor
  · intro h
    split at h
    next m rest hform =>
      rcases Reading.form_eq_ok_iff.mp hform with ⟨used, hrest, hs⟩
      cases h
      exact ⟨used, ⟨rest, hrest.symm⟩, hs, leave_eq_advance hrest hs.ne_nil⟩
    next => cases h
  · intro h
    rcases h with ⟨used, ⟨rest, hrest⟩, hs, hr'⟩
    have hform : Reading.form mode r.rest = .ok (n, rest) :=
      Reading.form_eq_ok_iff.mpr ⟨used, hrest.symm, hs⟩
    rw [hform, hr', ← leave_eq_advance hrest.symm hs.ne_nil]

/-- A phrase that was read is read again wherever tokens of the same shapes stand. -/
theorem call_ofMode_of_window (h : r.call (.ofMode mode) = (.ok (.form n), r'))
    (hs : (r.window r').map Token.shape <+: s.rest.map Token.shape) :
    s.call (.ofMode mode) = (.ok (.form n), s.advance (r'.cursor - r.cursor)) := by
  rcases call_ofMode_eq_ok_iff.mp h with ⟨used, hused, hspells, rfl⟩
  rw [window_advance hused] at hs
  rcases hs with ⟨shapes, hshapes⟩
  rcases List.map_eq_append_iff.mp hshapes.symm with ⟨vs, rest, hrest, hvs, -⟩
  have hlength : used.length = vs.length := by
    simpa using congrArg List.length hvs.symm
  rw [advance_cursor_sub, hlength]
  exact call_ofMode_eq_ok_iff.mpr ⟨vs, ⟨rest, hrest.symm⟩, hspells.of_shape hvs, rfl⟩

end Reader

/-- A list of tokens is parsed if exactly one form is read from it. -/
theorem parse_eq_ok_iff_readForms {ts : List Token} {n : Node} :
    parse ts = .ok n ↔ readForms ts = .ok [n] := by
  rw [parse_eq_ok_iff_isExpr, readForms_eq_ok_iff_each]
  constructor
  · intro h
    have hs : Each IsExpr ([] ++ ts) ([] ++ [n]) := Each.snoc .nil h
    exact hs
  · intro h
    cases h with
    | cons hr hnil =>
      cases hnil with
      | nil => rwa [List.append_nil]

theorem readForms_append {ts us : List Token} {ms ns : List Node} (ht : readForms ts = .ok ms)
    (hu : readForms us = .ok ns) : readForms (ts ++ us) = .ok (ms ++ ns) := by
  rw [readForms_eq_ok_iff_each] at ht hu ⊢
  exact ht.append hu

/-- Reading one form, or one datum, depends on nothing but the kinds and the texts of the tokens
that it takes. Hence to parse is to read a single form, and the forms of two lists of tokens in
a row are those of the one and then those of the other. -/
theorem reading_depends_on_window :
    (∀ (mode : Mode) (r r' s : Reader) (n : Node),
      r.call (.ofMode mode) = (.ok (.form n), r') →
      (r.window r').map Token.shape <+: s.rest.map Token.shape →
      s.call (.ofMode mode) = (.ok (.form n), s.advance (r'.cursor - r.cursor))) ∧
    (∀ (ts : List Token) (n : Node),
      parse ts = .ok n ↔ ((Reader.ofTokens ts).call .all).1 = .ok (.forms [n])) ∧
    (∀ (ts us : List Token) (ms ns : List Node),
      ((Reader.ofTokens ts).call .all).1 = .ok (.forms ms) →
      ((Reader.ofTokens us).call .all).1 = .ok (.forms ns) →
      ((Reader.ofTokens (ts ++ us)).call .all).1 = .ok (.forms (ms ++ ns))) := by
  simp only [Reader.call_all_eq_ok_iff]
  refine ⟨?_, ?_, ?_⟩
  · exact fun _ _ _ _ _ => Reader.call_ofMode_of_window
  · exact fun _ _ => parse_eq_ok_iff_readForms
  · exact fun _ _ _ _ => readForms_append

/-- A quote in the middle of some tokens, which are no program, is read where it stands at the
front of others; and two symbols in a row are two forms. -/
theorem reading_depends_on_window_quote :
    Reader.call ⟨[⟨.openParen, "(", 3, 8, 40⟩, ⟨.symbol, "quote", 3, 9, 41⟩,
      ⟨.integer, "07", 4, 0, 47⟩, ⟨.closeParen, ")", 4, 2, 49⟩], 0⟩ (.ofMode .code) =
    (.ok (.form (.quote "07" [.integer 7])),
      ⟨[⟨.openParen, "(", 3, 8, 40⟩, ⟨.symbol, "quote", 3, 9, 41⟩,
        ⟨.integer, "07", 4, 0, 47⟩, ⟨.closeParen, ")", 4, 2, 49⟩], 4⟩) ∧
    ((Reader.ofTokens ([.bare .symbol "x"] ++ [.bare .symbol "y"])).call .all).1 =
      .ok (.forms ([.symbol "x"] ++ [.symbol "y"])) := by
  have hread : Reader.call ⟨[.bare .closeParen ")", .bare .openParen "(", .bare .symbol "quote",
      .bare .integer "07", .bare .closeParen ")", .bare .float "x"], 1⟩ (.ofMode .code) =
      (.ok (.form (.quote "07" [.integer 7])), ⟨[.bare .closeParen ")", .bare .openParen "(",
        .bare .symbol "quote", .bare .integer "07", .bare .closeParen ")", .bare .float "x"],
        5⟩) := by
    rfl
  rcases reading_depends_on_window with ⟨hwindow, hparse, happend⟩
  exact ⟨hwindow .code _ _ _ _ hread ⟨[], rfl⟩,
    happend _ _ _ _ ((hparse _ _).mp rfl) ((hparse _ _).mp rfl)⟩

end StackLisp
