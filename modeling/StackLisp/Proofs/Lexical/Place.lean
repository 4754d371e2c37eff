import StackLisp.Proofs.Lexical.Partition

/-!
# Where tokens stand

Lines are counted at the line feeds that scanning skips. A line feed inside a token is part
of its text and is not counted, so places behind such a token are told wrongly: the line is
short by the line feeds inside tokens, and the column may be counted from the start of an
earlier line. Places are right exactly as long as no token before them holds a line feed.
-/

namespace StackLisp

open Text (isBlank)

/-- The line of an offset: one more than the line feeds before it. -/
def lineAt (source : String) (pos : Nat) : Nat := 1 + (source.toList.take pos).count '\n'

/-- The offset behind the last line feed before `pos`, or the start of the source. -/
structure IsLineStart (source : String) (pos start : Nat) : Prop where
  le : start ≤ pos
  opens : start = 0 ∨ source.toList[start - 1]? = some '\n'
  noFeed : ∀ i, start ≤ i → i < pos → source.toList[i]? ≠ some '\n'

/-- The line and the column that an offset has in a source. -/
def IsPlace (source : String) (pos : Nat) (line col : Int) : Prop :=
  line = lineAt source pos ∧ ∃ start, IsLineStart source pos start ∧ col = pos - start

/-- The line feeds inside tokens. -/
def innerFeeds (ts : List Token) : Nat := (ts.flatMap fun t => t.text.toList).count '\n'

theorem innerFeeds_eq_zero_iff {ts : List Token} :
    innerFeeds ts = 0 ↔ ∀ t ∈ ts, '\n' ∉ t.text.toList := by
  simp [innerFeeds, List.count_eq_zero]

theorem innerFeeds_append_singleton (ts : List Token) (t : Token) :
    innerFeeds (ts ++ [t]) = innerFeeds ts + t.text.toList.count '\n' := by
  simp [innerFeeds]

namespace Scanner

variable {table : Table} {source : String} {s s' : Scanner} {ts us : List Token}
  {here : Place} {behind ahead cs : List Char} {c : Char}

/-- Among the characters behind a place, the last one first, `start` is where its line
starts. -/
def LineBehind (behind : List Char) (start : Nat) : Prop :=
  ∃ line before, behind = line ++ before ∧ '\n' ∉ line ∧ before.length = start ∧
    ∀ c ∈ before.head?, c = '\n'

/-- What the place of a scanner says about the characters behind it, given the tokens that
were taken so far. -/
structure Counts (s : Scanner) (ts : List Token) : Prop where
  line : s.here.line + innerFeeds ts = 1 + s.behind.count '\n'
  lineStart : innerFeeds ts = 0 → LineBehind s.behind s.here.lineStart

theorem LineBehind.append {start : Nat} (h : LineBehind behind start) (hcs : '\n' ∉ cs) :
    LineBehind (cs ++ behind) start := by
  obtain ⟨line, before, rfl, hline, hstart, hhead⟩ := h
  refine ⟨cs ++ line, before, (List.append_assoc _ _ _).symm, ?_, hstart, hhead⟩
  rw [List.mem_append]
  exact not_or.mpr ⟨hcs, hline⟩

theorem counts_start (source : String) : Counts (start source) [] where
  line := rfl
  lineStart _ := ⟨[], [], rfl, by simp, rfl, by simp⟩

/-- A line feed that is skipped opens a line. -/
theorem Counts.skip (h : Counts ⟨here, behind, c :: cs⟩ ts)
    (hat : At source ⟨here, behind, c :: cs⟩) : Counts ⟨here.skip c, c :: behind, cs⟩ ts := by
  have hline : here.line + innerFeeds ts = 1 + behind.count '\n' := h.line
  have hstart : innerFeeds ts = 0 → LineBehind behind here.lineStart := h.lineStart
  have hpos : here.pos = behind.length := hat.pos
  by_cases hc : c = '\n'
  · subst hc
    have hskip : here.skip '\n' = ⟨here.pos + 1, here.line + 1, here.pos + 1⟩ := rfl
    rw [hskip]
    constructor
    · dsimp only
      rw [List.count_cons_self]
      omega
    · exact fun _ => ⟨[], '\n' :: behind, rfl, by simp, by simp [hpos], by simp⟩
  · have hskip : here.skip c = { here with pos := here.pos + 1 } := if_neg hc
    rw [hskip]
    constructor
    · dsimp only
      rw [List.count_cons_of_ne hc]
      exact hline
    · intro hz
      have hnone : '\n' ∉ [c] := by
        simpa using Ne.symm hc
      exact (hstart hz).append hnone

/-- A line feed that is taken with a token is not counted. -/
theorem Counts.advance {l : Lexeme} (h : Counts ⟨here, behind, ahead⟩ ts) :
    Counts ⟨here.advance l.text.length, l.text.reverse ++ behind, l.rest⟩
      (ts ++ [here.token l]) := by
  have hline : here.line + innerFeeds ts = 1 + behind.count '\n' := h.line
  have hstart : innerFeeds ts = 0 → LineBehind behind here.lineStart := h.lineStart
  have htext : (here.token l).text.toList = l.text := String.toList_ofList
  constructor
  · rw [innerFeeds_append_singleton, htext]
    dsimp only [Place.advance]
    rw [List.count_append, List.count_reverse]
    omega
  · intro hz
    rw [innerFeeds_append_singleton, htext] at hz
    have hnone : '\n' ∉ l.text.reverse := by
      rw [List.mem_reverse]
      exact List.count_eq_zero.mp (by omega)
    exact (hstart (by omega)).append hnone

theorem Run.counts (h : Run table s us s') (hs : Counts s ts) (hat : At source s) :
    Counts s' (ts ++ us) := by
  induction h generalizing ts with
  | refl => rwa [List.append_nil]
  | blank _ _ ih => exact ih (hs.skip hat) hat.skip
  | token _ hl _ ih =>
    have htail := ih hs.advance (hat.advance (Table.append_of_lexeme? hl).2)
    rwa [List.append_assoc] at htail

theorem Run.counts_of_start (h : Run table (start source) ts s) : Counts s ts :=
  h.counts (counts_start source) (at_start source)

/-! ## Places in the source -/

theorem LineBehind.isLineStart {start : Nat} (h : LineBehind behind start)
    (hsource : behind.reverse ++ ahead = source.toList) :
    IsLineStart source behind.length start := by
  obtain ⟨line, before, rfl, hline, rfl, hhead⟩ := h
  rw [List.reverse_append, List.append_assoc] at hsource
  constructor
  · rw [List.length_append]
    omega
  · cases before with
    | nil => exact .inl rfl
    | cons c before =>
      obtain rfl := hhead c rfl
      right
      rw [← hsource]
      simp
  · intro i hle hlt heq
    rw [List.length_append] at hlt
    rw [← hsource, List.getElem?_append_right (by simpa using hle), List.length_reverse,
      List.getElem?_append_left (by rw [List.length_reverse]; omega)] at heq
    exact hline (List.mem_reverse.mp (List.mem_of_getElem? heq))

/-- The place that scanning tells after some tokens. It is right exactly if no line feed is
inside one of them. -/
theorem Counts.isPlace_iff (h : Counts s ts) (hs : At source s) :
    (s.here.line : Int) + innerFeeds ts = lineAt source s.here.pos ∧
      (IsPlace source s.here.pos s.here.line s.here.col ↔ ∀ t ∈ ts, '\n' ∉ t.text.toList) := by
  have hline : s.here.line + innerFeeds ts = lineAt source s.here.pos := by
    rw [lineAt, hs.take_pos, List.count_reverse]
    exact h.line
  refine ⟨by omega, ?_⟩
  rw [← innerFeeds_eq_zero_iff]
  constructor
  · intro hplace
    have heq := Int.ofNat_inj.mp hplace.1
    omega
  · intro hz
    have hstart := (h.lineStart hz).isLineStart hs.text
    rw [← hs.pos] at hstart
    refine ⟨by omega, s.here.lineStart, hstart, ?_⟩
    have hle := hstart.le
    unfold Place.col
    omega

end Scanner

/-- The places of tokens and errors are right exactly as long as no token before them holds a
line feed. Otherwise their line is short by the line feeds inside the tokens before. -/
theorem scan_place_iff (table : Table) (source : String) :
    (∀ (ts : List Token) (t : Token) (us : List Token),
      scan table source = .ok (ts ++ t :: us) → ∃ pos : Nat, t.pos = (pos : Int) ∧
        t.line + (innerFeeds ts : Int) = (lineAt source pos : Int) ∧
        (IsPlace source pos t.line t.col ↔ ∀ u ∈ ts, '\n' ∉ u.text.toList)) ∧
    (∀ e : LexError, scan table source = .error e → ∃ (pos : Nat) (ts : List Token),
      e.position = (pos : Int) ∧ Partition table source 0 (source.toList.take pos) ts ∧
        e.line + (innerFeeds ts : Int) = (lineAt source pos : Int) ∧
        (IsPlace source pos e.line e.col ↔ ∀ u ∈ ts, '\n' ∉ u.text.toList)) := by
  have hstart := Scanner.at_start source
  constructor
  · intro ts t us hscan
    obtain ⟨s', hrun, _⟩ := Scanner.exists_run_of_tokens (s := .start source) hscan
    obtain ⟨s, l, hr, rfl⟩ := hrun.exists_of_append
    obtain ⟨hline, hplace⟩ := (hr.counts_of_start).isPlace_iff (hr.at_of_at hstart)
    exact ⟨s.here.pos, rfl, hline, hplace⟩
  · intro e hscan
    obtain ⟨ts, s, c, hr, hstuck, rfl⟩ := Scanner.exists_run_of_error (s := .start source) hscan
    obtain ⟨hline, hplace⟩ := (hr.counts_of_start).isPlace_iff (hr.at_of_at hstart)
    exact ⟨s.here.pos, ts, rfl, hr.partition_take, hline, hplace⟩

theorem isPlace_of_second_line : IsPlace "\"a\"\r\n b" 6 2 1 := by
  have hscan : scan Table.standard "\"a\"\r\n b" =
      .ok ([⟨.string, "\"a\"", 1, 0, 0⟩] ++ ⟨.symbol, "b", 2, 1, 6⟩ :: []) := by
    cbv
  obtain ⟨pos, hpos, _, hplace⟩ := (scan_place_iff Table.standard _).1 _ _ _ hscan
  obtain rfl : pos = 6 := (Int.ofNat_inj.mp hpos).symm
  exact hplace.mpr (by decide)

/-- A token on the second line is said to stand on the first one. -/
theorem misplaced_behind_line_feed :
    scan Table.standard "\"\n\" x" =
        .ok [⟨.string, "\"\n\"", 1, 0, 0⟩, ⟨.symbol, "x", 1, 4, 4⟩] ∧
      ¬ IsPlace "\"\n\" x" 4 1 4 := by
  constructor
  · cbv
  · intro h
    have hline : ¬ (1 : Int) = lineAt "\"\n\" x" 4 := by decide
    exact hline h.1

end StackLisp
