import StackLisp.Proofs.Lexical.Layout
import StackLisp.Proofs.Lexical.Partition

/-!
# Nothing reaches across a blank

A token is told by all that is left of the source, so its text could change when the source is
continued. It does not if the continuation begins with a blank. Names, numerals and parentheses
admit no blank, and so they end where the source ended before. A string admits blanks, but it
ends at the first quote after its opening one, and a quote that finds no other one is not the
start of any token.
-/

namespace StackLisp

open Lexical
open Text (isBlank)

namespace Pattern

/-- What was taken and what was left, when the text goes on. -/
def goOn (more : List Char) : List Char × List Char → List Char × List Char
  | (taken, left) => (taken, left ++ more)

/-- A matcher that never takes a character of what follows a text. -/
def Matcher.StopsBefore (m : Matcher) (more : List Char) : Prop :=
  ∀ cs, m (cs ++ more) = (m cs).map (goOn more)

section Matchers
variable {s : CharSet} {next : Matcher} {more : List Char}

theorem map_take_goOn (c : Char) (split : Option (List Char × List Char)) :
    (split.map (goOn more)).map (take c) = (split.map (take c)).map (goOn more) := by
  cases split with
  | none => rfl
  | some split => rfl

theorem one_stopsBefore (hs : s.EndsAt more) (hn : next.StopsBefore more) :
    Matcher.StopsBefore (one s next) more := by
  intro cs
  cases cs with
  | nil => exact one_of_endsAt hs
  | cons c cs =>
    rw [List.cons_append, one, one]
    split
    · rw [hn, map_take_goOn]
    · rfl

theorem many_stopsBefore (hs : s.EndsAt more) (hn : next.StopsBefore more) :
    Matcher.StopsBefore (many s next) more := by
  intro cs
  induction cs with
  | nil =>
    have hnil := hn []
    rw [List.nil_append] at hnil ⊢
    cases more with
    | nil => exact hnil
    | cons d more =>
      rw [CharSet.endsAt_cons] at hs
      have hstop : many s next (d :: more) = next (d :: more) := by
        rw [many, hs, if_neg Bool.false_ne_true]
      exact hstop.trans hnil
  | cons c cs ih =>
    rw [List.cons_append, many, many, ih, ← List.cons_append, hn]
    split
    · cases many s next cs with
      | none => rfl
      | some split => rfl
    · rfl

/-- A sequence of pieces stops before a character that none of them admits. -/
theorem matchPieces_stopsBefore {ps : List Piece} (h : ∀ p ∈ ps, p.set.EndsAt more) :
    Matcher.StopsBefore (matchPieces ps) more := by
  induction ps with
  | nil => exact fun _ => rfl
  | cons p ps ih =>
    have hnext := ih fun q hq => h q (List.mem_cons_of_mem p hq)
    have hset := h p List.mem_cons_self
    rcases p with ⟨s, times⟩
    cases times with
    | once => exact one_stopsBefore hset hnext
    | optional =>
      intro cs
      have hone := one_stopsBefore hset hnext cs
      simp only [matchPieces, hone, hnext cs]
      cases one s (matchPieces ps) cs with
      | none => rfl
      | some split => rfl
    | star => exact many_stopsBefore hset hnext
    | plus => exact one_stopsBefore hset (many_stopsBefore hset hnext)

end Matchers

end Pattern

/-- The text ends, or goes on with a blank. -/
def AtBlank (more : List Char) : Prop := ∀ c ∈ more.head?, isBlank c = true

/-- The same lexeme in a text that goes on. -/
def Lexeme.goOn (l : Lexeme) (more : List Char) : Lexeme := { l with rest := l.rest ++ more }

namespace Lexical

variable {k : Kind} {behind cs more : List Char} {c : Char}

theorem contains_blank {p : Piece} (hk : k ≠ .string) (hp : p ∈ (pattern k).pieces)
    (hc : isBlank c = true) : p.set.contains c = false := by
  have hall : ∀ k ∈ Kind.all, k ≠ .string → ∀ p ∈ (pattern k).pieces,
      p.set.contains ' ' = false ∧ p.set.contains '\t' = false ∧
        p.set.contains '\r' = false ∧ p.set.contains '\n' = false := by
    decide
  rcases hall k k.mem_all hk p hp with ⟨hspace, htab, hreturn, hfeed⟩
  have hblank : c = ' ' ∨ c = '\t' ∨ c = '\r' ∨ c = '\n' := by
    simpa [isBlank, or_assoc] using hc
  rcases hblank with rfl | rfl | rfl | rfl
  · exact hspace
  · exact htab
  · exact hreturn
  · exact hfeed

theorem lexeme?_append (hk : k ≠ .string) (hmore : AtBlank more) (behind cs : List Char) :
    (entry k).lexeme? behind (cs ++ more) =
      ((entry k).lexeme? behind cs).map (Lexeme.goOn · more) := by
  have hstop : (pattern k).recognizer.divide? behind (cs ++ more) =
      ((pattern k).recognizer.divide? behind cs).map (Pattern.goOn more) :=
    Pattern.matchPieces_stopsBefore (fun p hp c hc => contains_blank hk hp (hmore c hc)) cs
  rw [TokenPattern.lexeme?, TokenPattern.lexeme?, entry, hstop]
  rcases (pattern k).recognizer.divide? behind cs with _ | ⟨_ | ⟨c, taken⟩, left⟩
  · rfl
  · rfl
  · rfl

/-- A text that begins with a quote is a string. -/
theorem Valid.kind_of_quote {text : List Char} (h : Valid k ('\x22' :: text)) : k = .string := by
  have symbols : ¬ (k = .float ∨ k = .integer ∨ k = .symbol) := by
    intro hk
    rcases h.symbolChar_head hk with ⟨c, cs, hcons, hc⟩
    cases hcons
    contradiction
  generalize ha : '\x22' :: text = a at h
  cases h with
  | openParen | closeParen => cases ha
  | float _ _ _ | integer _ _ | symbol _ => simp at symbols
  | string _ => rfl

/-- The standard table takes the same token when a text goes on with a blank. -/
theorem lexeme?_standard_append {l : Lexeme}
    (h : Table.standard.lexeme? behind cs = some l) (hmore : AtBlank more) :
    Table.standard.lexeme? behind (cs ++ more) = some (l.goOn more) := by
  have hvalid := valid_of_lexeme? h
  rcases Table.append_of_lexeme? h with ⟨hne, happ⟩
  -- A string may hold blanks, but its last character tells that it ends there.
  by_cases hk : l.kind = .string
  · have hends : Ends l.kind (l.rest ++ more) := hk ▸ trivial
    have hl := lexeme?_of_valid hvalid hends behind
    rwa [← List.append_assoc, happ] at hl
  · rcases List.exists_cons_of_ne_nil hne with ⟨c, text, htext⟩
    rw [htext] at hvalid happ
    have hc : c ≠ '\x22' := by
      intro heq
      subst heq
      exact hk hvalid.kind_of_quote
    -- No other entry sees what is new, and that for strings matches neither text.
    have hentry : ∀ k, (entry k).lexeme? behind (cs ++ more) =
        ((entry k).lexeme? behind cs).map (Lexeme.goOn · more) := by
      intro k
      by_cases hstring : k = .string
      · have hnone : ∀ ds, (entry k).lexeme? behind (c :: ds) = none := by
          intro ds
          rw [hstring]
          exact lexeme?_eq_none_of_head rfl hc
        rw [← happ, List.cons_append, List.cons_append, hnone, hnone]
        rfl
      · exact lexeme?_append hstring hmore behind cs
    rw [Table.lexeme?, standard_eq_map, List.findSome?_map] at h ⊢
    have hmap := congrArg (Option.map (Lexeme.goOn · more)) h
    rw [List.map_findSome?] at hmap
    simpa only [Function.comp_def, hentry, Option.map_some] using hmap

end Lexical

/-! ## Runs -/

/-- The same token further behind in a source. -/
def Token.later (distance : Nat) (t : Token) : Token := { t with pos := t.pos + distance }

namespace Scanner

variable {s s' u : Scanner} {ts : List Token} {more : List Char} {distance : Nat}

/-- The same scanner in a source that goes on. -/
def goOn (s : Scanner) (more : List Char) : Scanner := { s with ahead := s.ahead ++ more }

/-- A run takes the same tokens, at the same places, when the source goes on with a blank. -/
theorem Run.goOn (h : Run Table.standard s ts s') (hmore : AtBlank more) :
    Run Table.standard (s.goOn more) ts (s'.goOn more) := by
  induction h with
  | refl => exact .refl
  | blank hc _ ih => exact .blank hc ih
  | @token _ _ _ _ l _ _ hc hl _ ih =>
    exact .token (l := l.goOn more) hc (lexeme?_standard_append hl hmore) ih

/-- The standard table does not look behind. -/
theorem lexeme?_standard_behind (behind behind' cs : List Char) :
    Table.standard.lexeme? behind cs = Table.standard.lexeme? behind' cs := rfl

/-- What lies behind a scanner only tells it how far it is from the start. -/
theorem Run.exists_later (h : Run Table.standard s ts s') (ha : u.ahead = s.ahead)
    (hpos : u.here.pos = s.here.pos + distance) :
    ∃ us u', Run Table.standard u us u' ∧ u'.ahead = s'.ahead ∧
      u'.here.pos = s'.here.pos + distance ∧
      us.map Token.cut = (ts.map (Token.later distance)).map Token.cut := by
  induction h generalizing u with
  | refl => exact ⟨[], u, .refl, ha, hpos, rfl⟩
  | @blank here behind cs c ts s' hc _ ih =>
    rcases u with ⟨there, behind', ahead⟩
    obtain rfl : ahead = c :: cs := ha
    have hskip : (there.skip c).pos = (here.skip c).pos + distance := by
      rw [Place.pos_skip, Place.pos_skip, Nat.add_right_comm]
      exact congrArg (· + 1) hpos
    rcases ih (u := ⟨there.skip c, c :: behind', cs⟩) rfl hskip with ⟨us, u', hr, hrest⟩
    exact ⟨us, u', .blank hc hr, hrest⟩
  | @token here behind cs c l ts s' hc hl _ ih =>
    rcases u with ⟨there, behind', ahead⟩
    obtain rfl : ahead = c :: cs := ha
    have hpos' : there.pos = here.pos + distance := hpos
    have hadvance : (there.advance l.text.length).pos =
        (here.advance l.text.length).pos + distance := by
      dsimp only [Place.advance]
      omega
    rcases ih (u := ⟨there.advance l.text.length, l.text.reverse ++ behind', l.rest⟩) rfl hadvance
      with ⟨us, u', hr, ha', hp, hcut⟩
    have hl' : Table.standard.lexeme? behind' (c :: cs) = some l :=
      (lexeme?_standard_behind behind' behind (c :: cs)).trans hl
    refine ⟨there.token l :: us, u', .token hc hl' hr, ha', hp, ?_⟩
    have hfirst : (there.token l).cut = ((here.token l).later distance).cut := by
      simp only [Token.cut, Token.later, Place.token, hpos', Int.natCast_add]
    rw [List.map_cons, List.map_cons, List.map_cons, hfirst, hcut]

end Scanner

/-! ## Sources in a row -/

variable {a b w : String} {ts vs : List Token} {e : LexError}

/-- Behind a source and some blanks, scanning has the tokens of that source and stands in front
of the next one. -/
theorem Scanner.exists_run_behind (h : scan Table.standard a = .ok ts) (hne : w ≠ "")
    (hw : ∀ c ∈ w.toList, isBlank c = true) :
    ∃ s, Run Table.standard (start (a ++ w ++ b)) ts s ∧ s.ahead = b.toList ∧
      s.here.pos = (start b).here.pos + (a ++ w).length := by
  have hmore : AtBlank (w.toList ++ b.toList) := by
    rcases List.exists_cons_of_ne_nil (mt String.toList_eq_nil_iff.mp hne) with ⟨c, cs, hcons⟩
    rw [hcons]
    rintro d ⟨⟩
    exact hw c (by simp [hcons])
  rcases exists_run_of_tokens (s := .start a) h with ⟨s', hr, hend⟩
  have hahead : (s'.goOn (w.toList ++ b.toList)).ahead = w.toList ++ b.toList := by
    rw [Scanner.goOn, hend, List.nil_append]
  rcases exists_run_of_blanks Table.standard hw hahead with ⟨s, hblanks, hs⟩
  have hrun : Run Table.standard (start (a ++ w ++ b)) ts s := by
    have hstart : (Scanner.start a).goOn (w.toList ++ b.toList) = start (a ++ w ++ b) := by
      simp only [start, Scanner.goOn, String.toList_append, List.append_assoc]
    rw [← hstart, ← List.append_nil ts]
    exact (hr.goOn hmore).append hblanks
  refine ⟨s, hrun, hs, ?_⟩
  have hpos := (hrun.at_of_at (at_start _)).pos_add
  rw [hs, String.length_toList, String.length_append (a ++ w)] at hpos
  exact (Nat.add_right_cancel hpos).trans (Nat.zero_add _).symm

/-- The tokens of two sources in a row, with blanks between them. -/
theorem scan_behind_ok (ha : scan Table.standard a = .ok ts) (hne : w ≠ "")
    (hw : ∀ c ∈ w.toList, isBlank c = true) (hb : scan Table.standard b = .ok vs) :
    ∃ us, scan Table.standard (a ++ w ++ b) = .ok (ts ++ us) ∧
      us.map Token.cut = (vs.map (Token.later (a ++ w).length)).map Token.cut := by
  rcases Scanner.exists_run_behind (b := b) ha hne hw with ⟨s, hr, hahead, hpos⟩
  rcases Scanner.exists_run_of_tokens (s := .start b) hb with ⟨s', hr', hend⟩
  rcases hr'.exists_later hahead hpos with ⟨us, u', hu, hu', -, hcut⟩
  exact ⟨us, (hr.append hu).tokens_of_end (hu'.trans hend), hcut⟩

/-- The second of two sources keeps its error. -/
theorem scan_behind_error (ha : scan Table.standard a = .ok ts) (hne : w ≠ "")
    (hw : ∀ c ∈ w.toList, isBlank c = true) (hb : scan Table.standard b = .error e) :
    ∃ e', scan Table.standard (a ++ w ++ b) = .error e' ∧
      e'.position = (a ++ w).length + e.position ∧ e'.char = e.char := by
  rcases Scanner.exists_run_behind (b := b) ha hne hw with ⟨s, hr, hahead, hpos⟩
  rcases Scanner.exists_run_of_error (s := .start b) hb with ⟨us, s', c, hr', hstuck, rfl⟩
  rcases hr'.exists_later hahead hpos with ⟨us', u', hu, hu', hupos, -⟩
  have hstuck' : Scanner.Stuck Table.standard u' c := by
    refine ⟨hu' ▸ hstuck.ahead, hstuck.notBlank, ?_⟩
    rw [Scanner.lexeme?_standard_behind u'.behind s'.behind, hu']
    exact hstuck.noLexeme
  refine ⟨u'.here.lexError c, (hr.append hu).tokens_of_stuck hstuck', ?_, rfl⟩
  simp only [Place.lexError, hupos, Int.natCast_add, Int.add_comm]

end StackLisp
