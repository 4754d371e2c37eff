import StackLisp.Token.Scan

/-!
# Runs of scanning

Scanning moves over one blank or one token at a time. A run joins such moves and gathers the
tokens on its way. Every run that can go no further has come to the end of the source, or to
a character at which no token starts, and this decides what scanning answers.
-/

namespace StackLisp

open Text (isBlank)

theorem Place.pos_skip (here : Place) (c : Char) : (here.skip c).pos = here.pos + 1 := by
  unfold skip
  split
  · rfl
  · rfl

/-- Scanning on its way: the place, the characters behind it with the last one first, and
those ahead of it. -/
structure Scanner where
  here : Place
  behind : List Char
  ahead : List Char

namespace Scanner

def start (source : String) : Scanner := ⟨.start, [], source.toList⟩

def tokens (table : Table) (s : Scanner) : Except LexError (List Token) :=
  scanFrom table s.here s.behind s.ahead

/-- Scanning moves from one place to another, over the tokens. -/
inductive Run (table : Table) : Scanner → List Token → Scanner → Prop
  | refl {s : Scanner} : Run table s [] s
  | blank {here : Place} {behind cs : List Char} {c : Char} {ts : List Token} {s : Scanner} :
      isBlank c = true → Run table ⟨here.skip c, c :: behind, cs⟩ ts s →
      Run table ⟨here, behind, c :: cs⟩ ts s
  | token {here : Place} {behind cs : List Char} {c : Char} {l : Lexeme} {ts : List Token}
      {s : Scanner} :
      isBlank c = false → table.lexeme? behind (c :: cs) = some l →
      Run table ⟨here.advance l.text.length, l.text.reverse ++ behind, l.rest⟩ ts s →
      Run table ⟨here, behind, c :: cs⟩ (here.token l :: ts) s

/-- Neither a blank nor a token stands ahead. -/
structure Stuck (table : Table) (s : Scanner) (c : Char) : Prop where
  ahead : ∃ cs, s.ahead = c :: cs
  notBlank : isBlank c = false
  noLexeme : table.lexeme? s.behind s.ahead = none

/-- Where a run goes that cannot be prolonged. -/
inductive Ending (table : Table) (s : Scanner) : Prop
  | atEnd {ts : List Token} {s' : Scanner} : Run table s ts s' → s'.ahead = [] → Ending table s
  | stuck {ts : List Token} {s' : Scanner} {c : Char} :
      Run table s ts s' → Stuck table s' c → Ending table s

variable {table : Table} {s s' : Scanner} {ts us : List Token} {c : Char} {source : String}

theorem ending (table : Table) (s : Scanner) : Ending table s := by
  obtain ⟨here, behind, ahead⟩ := s
  fun_induction scanFrom table here behind ahead with
  | case1 => exact .atEnd .refl rfl
  | case2 here behind c cs hc ih =>
    cases ih with
    | atEnd hr ha => exact .atEnd (.blank hc hr) ha
    | stuck hr hs => exact .stuck (.blank hc hr) hs
  | case3 here behind c cs hc hnone =>
    exact .stuck .refl ⟨⟨cs, rfl⟩, Bool.eq_false_iff.mpr hc, hnone⟩
  | case4 here behind c cs hc l hl ih =>
    have hc' := Bool.eq_false_iff.mpr hc
    cases ih with
    | atEnd hr ha => exact .atEnd (.token hc' hl hr) ha
    | stuck hr hs => exact .stuck (.token hc' hl hr) hs

/-! ## Answers -/

/-- A run answers with its tokens and what follows from the place where it ends. -/
theorem Run.tokens_eq (h : Run table s ts s') :
    s.tokens table = (s'.tokens table).map (ts ++ ·) := by
  induction h with
  | @refl s =>
    cases s.tokens table <;> rfl
  | blank hc _ ih => exact (scanFrom_blank hc).trans ih
  | @token here _ _ _ l ts s' hc hl _ ih =>
    have hrest := congrArg (Except.map (here.token l :: ·)) ih
    refine (scanFrom_lexeme hc hl).trans (hrest.trans ?_)
    cases s'.tokens table <;> rfl

theorem Run.tokens_of_end (h : Run table s ts s') (he : s'.ahead = []) :
    s.tokens table = .ok ts := by
  have hend : s'.tokens table = .ok [] := by rw [tokens, he, scanFrom]
  rw [h.tokens_eq, hend]
  simp [Except.map]

theorem Run.tokens_of_stuck (h : Run table s ts s') (hs : Stuck table s' c) :
    s.tokens table = .error (s'.here.lexError c) := by
  obtain ⟨cs, ha⟩ := hs.ahead
  have hnone := hs.noLexeme
  rw [ha] at hnone
  have herr : s'.tokens table = .error (s'.here.lexError c) := by
    rw [tokens, ha, scanFrom_stuck hs.notBlank hnone]
  rw [h.tokens_eq, herr]
  rfl

theorem exists_run_of_tokens (h : s.tokens table = .ok ts) :
    ∃ s', Run table s ts s' ∧ s'.ahead = [] := by
  cases ending table s with
  | @atEnd us s' hr ha =>
    have heq := hr.tokens_of_end ha
    rw [h] at heq
    cases heq
    exact ⟨s', hr, ha⟩
  | stuck hr hs =>
    have heq := hr.tokens_of_stuck hs
    rw [h] at heq
    contradiction

theorem exists_run_of_error {e : LexError} (h : s.tokens table = .error e) :
    ∃ ts s' c, Run table s ts s' ∧ Stuck table s' c ∧ e = s'.here.lexError c := by
  cases ending table s with
  | atEnd hr ha =>
    have heq := hr.tokens_of_end ha
    rw [h] at heq
    contradiction
  | @stuck ts s' c hr hs =>
    have heq := hr.tokens_of_stuck hs
    rw [h] at heq
    cases heq
    exact ⟨ts, s', c, hr, hs, rfl⟩

/-- A run stops in front of each of its tokens. -/
theorem Run.exists_of_append {t : Token} (h : Run table s (ts ++ t :: us) s') :
    ∃ s'' l, Run table s ts s'' ∧ t = s''.here.token l := by
  generalize hvs : ts ++ t :: us = vs at h
  induction h generalizing ts with
  | refl => simp at hvs
  | blank hc _ ih =>
    obtain ⟨s'', l, hr, ht⟩ := ih hvs
    exact ⟨s'', l, .blank hc hr, ht⟩
  | @token here behind cs c l _ _ hc hl _ ih =>
    cases ts with
    | nil =>
      obtain ⟨rfl, _⟩ := List.cons.inj hvs
      exact ⟨_, l, .refl, rfl⟩
    | cons u ts =>
      obtain ⟨rfl, htail⟩ := List.cons.inj hvs
      obtain ⟨s'', l', hr, ht⟩ := ih htail
      exact ⟨s'', l', .token hc hl hr, ht⟩

/-! ## Places in a source -/

/-- The scanner stands in a source, at the offset that its place tells. -/
structure At (source : String) (s : Scanner) : Prop where
  text : s.behind.reverse ++ s.ahead = source.toList
  pos : s.here.pos = s.behind.length

theorem at_start (source : String) : At source (start source) := ⟨rfl, rfl⟩

theorem At.skip {here : Place} {behind cs : List Char}
    (h : At source ⟨here, behind, c :: cs⟩) : At source ⟨here.skip c, c :: behind, cs⟩ where
  text := by simpa using h.text
  pos := by
    have hpos : here.pos = behind.length := h.pos
    rw [Place.pos_skip, hpos, List.length_cons]

theorem At.advance {here : Place} {behind ahead : List Char} {l : Lexeme}
    (h : At source ⟨here, behind, ahead⟩) (hl : l.text ++ l.rest = ahead) :
    At source ⟨here.advance l.text.length, l.text.reverse ++ behind, l.rest⟩ where
  text := by
    have htext : behind.reverse ++ ahead = source.toList := h.text
    simpa [hl] using htext
  pos := by
    have hpos : here.pos = behind.length := h.pos
    simp [Place.advance, hpos, Nat.add_comm]

theorem Run.at_of_at (h : Run table s ts s') (hs : At source s) : At source s' := by
  induction h with
  | refl => exact hs
  | blank _ _ ih => exact ih hs.skip
  | token _ hl _ ih => exact ih (hs.advance (Table.append_of_lexeme? hl).2)

end Scanner

end StackLisp
