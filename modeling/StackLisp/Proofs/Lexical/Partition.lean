import StackLisp.Proofs.Lexical.Run

/-!
# Sources are divided without loss

A source is a sequence of tokens with blanks between them, and at the start of each token the
first entry of the table that matches there says what it is. Scanning finds this division. If
there is none, then the division breaks off at one character, and scanning blames it. The
line and the column of a token play no part in the division.
-/

namespace StackLisp

open Text (isBlank)

/-- What the division of a source says about a token: its kind, its text and its offset. -/
def Token.cut (t : Token) : Kind × String × Int := (t.kind, t.text, t.pos)

/-- The first entry that matches at an offset of a source has the kind and takes the text. -/
def Table.FirstMatch (table : Table) (source : String) (pos : Nat) (kind : Kind)
    (text : String) : Prop :=
  ∃ above p below, table = above ++ p :: below ∧ (∀ q ∈ above, q.matchAt? source pos = none) ∧
    p.kind = kind ∧ p.matchAt? source pos = some text

/-- The characters of a source from the offset `pos` on are tokens with blanks around them. -/
inductive Partition (table : Table) (source : String) :
    (pos : Nat) → List Char → List Token → Prop
  | blanks {pos : Nat} {w : List Char} :
      (∀ c ∈ w, isBlank c = true) → Partition table source pos w []
  | token {pos begin : Nat} {w cs : List Char} {t : Token} {ts : List Token} :
      (∀ c ∈ w, isBlank c = true) → begin = pos + w.length → t.pos = begin → t.text ≠ "" →
      (∀ c ∈ t.text.toList.head?, isBlank c = false) →
      table.FirstMatch source begin t.kind t.text →
      Partition table source (begin + t.text.length) cs ts →
      Partition table source pos (w ++ t.text.toList ++ cs) (t :: ts)

/-- The division breaks off at an offset: no token starts at the character there. -/
structure BreaksOff (table : Table) (source : String) (pos : Nat) (c : Char) : Prop where
  before : ∃ ts, Partition table source 0 (source.toList.take pos) ts
  char : source.toList[pos]? = some c
  notBlank : isBlank c = false
  noMatch : ∀ p ∈ table, p.matchAt? source pos = none

/-! ## Matches at an offset -/

theorem TokenPattern.kind_of_lexeme? {p : TokenPattern} {behind ahead : List Char} {l : Lexeme}
    (h : p.lexeme? behind ahead = some l) : l.kind = p.kind := by
  unfold lexeme? at h
  split at h
  · cases h
    rfl
  · contradiction

/-- A match at an offset is what is taken there, if a character is taken. -/
theorem TokenPattern.matchAt?_eq {p : TokenPattern} {behind ahead : List Char} {source : String}
    (h : behind.reverse ++ ahead = source.toList) :
    p.matchAt? source behind.length =
      (p.lexeme? behind ahead).map fun l => String.ofList l.text := by
  have hlength : source.length = behind.length + ahead.length := by
    rw [← String.length_toList, ← h, List.length_append, List.length_reverse]
  have hstart : min (behind.length : Int).toNat source.length = behind.length := by
    omega
  have htake : source.toList.take behind.length = behind.reverse := by
    rw [← h, List.take_left' List.length_reverse]
  have hdrop : source.toList.drop behind.length = ahead := by
    rw [← h, List.drop_left' List.length_reverse]
  rw [matchAt?, hstart, htake, hdrop, List.reverse_reverse, lexeme?]
  cases p.pattern.divide? behind ahead with
  | none => rfl
  | some split =>
    obtain ⟨taken, rest⟩ := split
    cases taken with
    | nil => simp
    | cons c taken =>
      have hne : ((behind.length + (c :: taken).length : Nat) : Int) ≠ behind.length := by
        rw [List.length_cons]
        omega
      dsimp only
      rw [if_neg hne]
      rfl

namespace Scanner

variable {table : Table} {source : String} {s s' : Scanner} {ts us : List Token}
  {pos : Nat} {cs : List Char} {c : Char}

theorem At.matchAt?_eq (h : At source s) (p : TokenPattern) :
    p.matchAt? source s.here.pos =
      (p.lexeme? s.behind s.ahead).map fun l => String.ofList l.text := by
  rw [h.pos, TokenPattern.matchAt?_eq h.text]

theorem At.noMatch_iff (h : At source s) :
    (∀ p ∈ table, p.matchAt? source s.here.pos = none) ↔
      table.lexeme? s.behind s.ahead = none := by
  simp only [h.matchAt?_eq, Option.map_eq_none_iff, Table.lexeme?, List.findSome?_eq_none_iff]

theorem At.firstMatch_iff {kind : Kind} {text : String} (h : At source s) :
    table.FirstMatch source s.here.pos kind text ↔
      ∃ l, table.lexeme? s.behind s.ahead = some l ∧ l.kind = kind ∧
        String.ofList l.text = text := by
  simp only [Table.FirstMatch, Table.lexeme?, List.findSome?_eq_some_iff, h.matchAt?_eq,
    Option.map_eq_none_iff, Option.map_eq_some_iff]
  constructor
  · rintro ⟨above, p, below, htable, hnone, rfl, l, hl, rfl⟩
    exact ⟨l, ⟨above, p, below, htable, hl, hnone⟩, TokenPattern.kind_of_lexeme? hl, rfl⟩
  · rintro ⟨l, ⟨above, p, below, htable, hl, hnone⟩, rfl, rfl⟩
    exact ⟨above, p, below, htable, hnone, (TokenPattern.kind_of_lexeme? hl).symm, l, hl, rfl⟩

theorem At.pos_add (h : At source s) : s.here.pos + s.ahead.length = source.length := by
  rw [h.pos, ← String.length_toList, ← h.text, List.length_append, List.length_reverse]

theorem At.drop_pos (h : At source s) : source.toList.drop s.here.pos = s.ahead := by
  rw [h.pos, ← h.text, List.drop_left' List.length_reverse]

theorem At.take_pos (h : At source s) : source.toList.take s.here.pos = s.behind.reverse := by
  rw [h.pos, ← h.text, List.take_left' List.length_reverse]

end Scanner

/-! ## Runs and divisions -/

section Runs
variable {table : Table} {source : String} {s s' s'' : Scanner} {ts us : List Token}
  {pos : Nat} {w cs rest : List Char} {c : Char}

theorem Partition.blank (hc : isBlank c = true) (h : Partition table source (pos + 1) cs ts) :
    Partition table source pos (c :: cs) ts := by
  cases h with
  | blanks hw => exact .blanks (List.forall_mem_cons.mpr ⟨hc, hw⟩)
  | @token _ _ w cs t ts hw hbegin ht hne hhead hm hp =>
    have hw' : ∀ d ∈ c :: w, isBlank d = true := List.forall_mem_cons.mpr ⟨hc, hw⟩
    refine .token hw' ?_ ht hne hhead hm hp
    rw [hbegin, List.length_cons]
    omega

namespace Scanner

/-- A run divides the characters that it moves over. -/
theorem Run.partition (h : Run table s ts s') (hs : At source s) :
    ∃ cs, s.ahead = cs ++ s'.ahead ∧ Partition table source s.here.pos cs ts := by
  induction h with
  | refl => exact ⟨[], rfl, .blanks (by simp)⟩
  | @blank here behind cs c ts s' hc _ ih =>
    obtain ⟨ds, hds, hp⟩ := ih hs.skip
    rw [Place.pos_skip] at hp
    exact ⟨c :: ds, congrArg (c :: ·) hds, hp.blank hc⟩
  | @token here behind cs c l ts s' hc hl _ ih =>
    obtain ⟨hne, happ⟩ := Table.append_of_lexeme? hl
    obtain ⟨ds, hds, hp⟩ := ih (hs.advance happ)
    have htext : (here.token l).text.toList = l.text := String.toList_ofList
    have hlength : (here.token l).text.length = l.text.length := by
      rw [← String.length_toList, htext]
    obtain ⟨d, body, hbody⟩ := List.exists_cons_of_ne_nil hne
    have hhead : ∀ e ∈ (here.token l).text.toList.head?, isBlank e = false := by
      rw [htext, hbody]
      rw [hbody] at happ
      rintro e ⟨⟩
      rwa [(List.cons.inj happ).1]
    have hne' : (here.token l).text ≠ "" := by
      intro h
      rw [h] at htext
      exact hne htext.symm
    refine ⟨[] ++ (here.token l).text.toList ++ ds, ?_, ?_⟩
    · rw [List.nil_append, htext, List.append_assoc, ← happ]
      exact congrArg (l.text ++ ·) hds
    · refine .token (by simp) rfl rfl hne' hhead (hs.firstMatch_iff.mpr ⟨l, hl, rfl, rfl⟩) ?_
      rw [hlength]
      exact hp

/-- A run from the start divides the source up to the place where it ends. -/
theorem Run.partition_take (h : Run table (start source) ts s) :
    Partition table source 0 (source.toList.take s.here.pos) ts := by
  have hs := h.at_of_at (at_start source)
  obtain ⟨cs, hcs, hp⟩ := h.partition (at_start source)
  have hsource : cs ++ s.ahead = s.behind.reverse ++ s.ahead := hcs.symm.trans hs.text.symm
  rw [hs.take_pos, ← List.append_cancel_right hsource]
  exact hp

theorem Run.append (h : Run table s ts s') (h' : Run table s' us s'') :
    Run table s (ts ++ us) s'' := by
  induction h with
  | refl => exact h'
  | blank hc _ ih => exact .blank hc (ih h')
  | token hc hl _ ih => exact .token hc hl (ih h')

theorem exists_run_of_blanks (table : Table) (hw : ∀ c ∈ w, isBlank c = true)
    (ha : s.ahead = w ++ rest) : ∃ s', Run table s [] s' ∧ s'.ahead = rest := by
  induction w generalizing s with
  | nil => exact ⟨s, .refl, ha⟩
  | cons c w ih =>
    obtain ⟨here, behind, ahead⟩ := s
    obtain rfl : ahead = c :: (w ++ rest) := ha
    obtain ⟨s', hr, hrest⟩ := ih (s := ⟨here.skip c, c :: behind, w ++ rest⟩)
      (fun d hd => hw d (List.mem_cons_of_mem c hd)) rfl
    exact ⟨s', .blank (hw c List.mem_cons_self) hr, hrest⟩

/-- The first match of the table is taken as a token. -/
theorem exists_run_of_firstMatch {t : Token} (hs : At source s) (ht : t.pos = s.here.pos)
    (hne : t.text ≠ "") (hhead : ∀ c ∈ t.text.toList.head?, isBlank c = false)
    (hm : table.FirstMatch source s.here.pos t.kind t.text)
    (ha : s.ahead = t.text.toList ++ rest) :
    ∃ u s', Run table s [u] s' ∧ u.cut = t.cut ∧ s'.ahead = rest := by
  obtain ⟨l, hl, hkind, htext⟩ := hs.firstMatch_iff.mp hm
  have hchars : l.text = t.text.toList := by rw [← htext, String.toList_ofList]
  have hrest : l.rest = rest := by
    have happ := (Table.append_of_lexeme? hl).2
    rw [ha, hchars] at happ
    exact List.append_cancel_left happ
  have hne' : t.text.toList ≠ [] := fun h => hne (String.toList_eq_nil_iff.mp h)
  obtain ⟨c, body, hbody⟩ := List.exists_cons_of_ne_nil hne'
  have hc : isBlank c = false := hhead c (by rw [hbody]; rfl)
  obtain ⟨here, behind, ahead⟩ := s
  obtain rfl : ahead = c :: (body ++ rest) := by
    rw [hbody] at ha
    exact ha
  refine ⟨here.token l, _, .token hc hl .refl, ?_, hrest⟩
  rw [Token.cut, Token.cut, ht, ← hkind, ← htext]
  rfl

/-- Two places of a source are as far apart as the characters that are left at them tell. -/
theorem At.pos_eq (hs : At source s) (hs' : At source s') (ha : s.ahead = w ++ s'.ahead) :
    s'.here.pos = s.here.pos + w.length := by
  have h := hs.pos_add
  have h' := hs'.pos_add
  rw [ha, List.length_append] at h
  omega

end Scanner

open Scanner (Run At Stuck)

/-- Scanning follows a division, and no other one. -/
theorem Partition.exists_run (h : Partition table source pos cs ts) (hs : At source s)
    (hpos : s.here.pos = pos) (ha : s.ahead = cs ++ rest) :
    ∃ us s', Run table s us s' ∧ us.map Token.cut = ts.map Token.cut ∧ s'.ahead = rest := by
  induction h generalizing s with
  | blanks hw =>
    obtain ⟨s', hr, hrest⟩ := Scanner.exists_run_of_blanks table hw ha
    exact ⟨[], s', hr, rfl, hrest⟩
  | @token pos begin w cs t ts hw hbegin ht hne hhead hm _ ih =>
    rw [List.append_assoc, List.append_assoc] at ha
    obtain ⟨s₁, hr₁, ha₁⟩ := Scanner.exists_run_of_blanks table hw ha
    have hs₁ := hr₁.at_of_at hs
    have hpos₁ : s₁.here.pos = begin := by
      rw [hs.pos_eq hs₁ (ha₁ ▸ ha), hpos, hbegin]
    rw [← hpos₁] at hm ht
    obtain ⟨u, s₂, hr₂, hu, ha₂⟩ := Scanner.exists_run_of_firstMatch hs₁ ht hne hhead hm ha₁
    have hs₂ := hr₂.at_of_at hs₁
    have hpos₂ : s₂.here.pos = begin + t.text.length := by
      rw [hs₁.pos_eq hs₂ (ha₂ ▸ ha₁), hpos₁, String.length_toList]
    obtain ⟨us, s', hr, hus, hrest⟩ := ih hs₂ hpos₂ ha₂
    have hrun := hr₁.append (hr₂.append hr)
    exact ⟨u :: us, s', hrun, by rw [List.map_cons, List.map_cons, hu, hus], hrest⟩

/-- Lines and columns play no part. -/
theorem Partition.of_cut (h : Partition table source pos cs us)
    (hcut : us.map Token.cut = ts.map Token.cut) : Partition table source pos cs ts := by
  induction h generalizing ts with
  | blanks hw =>
    obtain rfl := List.map_eq_nil_iff.mp hcut.symm
    exact .blanks hw
  | token hw hbegin hpos hne hhead hm _ ih =>
    obtain ⟨t, ts, rfl, ht, hts⟩ := List.map_eq_cons_iff.mp hcut.symm
    simp only [Token.cut, Prod.mk.injEq] at ht
    obtain ⟨hkind, htext, hpos'⟩ := ht
    rw [← hkind, ← htext] at hm
    rw [← htext] at hne hhead ih ⊢
    exact .token hw hbegin (hpos'.trans hpos) hne hhead hm (ih hts.symm)

/-! ## Scanning -/

/-- Scanning succeeds with the tokens that the source is divided into. -/
theorem scan_ok_iff_partition :
    (∃ us, scan table source = .ok us ∧ us.map Token.cut = ts.map Token.cut) ↔
      Partition table source 0 source.toList ts := by
  have hstart := Scanner.at_start source
  constructor
  · rintro ⟨us, hscan, hcut⟩
    obtain ⟨s', hr, hend⟩ := Scanner.exists_run_of_tokens (s := .start source) hscan
    obtain ⟨cs, hcs, hp⟩ := hr.partition hstart
    rw [hend, List.append_nil] at hcs
    obtain rfl : source.toList = cs := hcs
    exact hp.of_cut hcut
  · intro hp
    have hall : (Scanner.start source).ahead = source.toList ++ [] := (List.append_nil _).symm
    obtain ⟨us, s', hr, hcut, hend⟩ := hp.exists_run hstart rfl hall
    exact ⟨us, hr.tokens_of_end hend, hcut⟩

/-- Scanning fails where the division of the source breaks off. -/
theorem scan_error_iff_breaksOff :
    (∃ e, scan table source = .error e ∧ e.position = pos ∧ e.char = String.singleton c) ↔
      BreaksOff table source pos c := by
  have hstart := Scanner.at_start source
  constructor
  · rintro ⟨e, hscan, hpos, hchar⟩
    obtain ⟨ts, s', d, hr, hstuck, rfl⟩ :=
      Scanner.exists_run_of_error (s := .start source) hscan
    obtain rfl : s'.here.pos = pos := Int.ofNat_inj.mp hpos
    obtain rfl : d = c := by simpa [Place.lexError] using hchar
    have hs' := hr.at_of_at hstart
    obtain ⟨rest, hrest⟩ := hstuck.ahead
    constructor
    · exact ⟨ts, hr.partition_take⟩
    · rw [← List.head?_drop, hs'.drop_pos, hrest]
      rfl
    · exact hstuck.notBlank
    · exact hs'.noMatch_iff.mpr hstuck.noLexeme
  · intro h
    obtain ⟨ts, hp⟩ := h.before
    obtain ⟨hlt, hget⟩ := List.getElem?_eq_some_iff.mp h.char
    have hdrop : source.toList.drop pos = c :: source.toList.drop (pos + 1) := by
      rw [List.drop_eq_getElem_cons hlt, hget]
    have hall : (Scanner.start source).ahead = source.toList.take pos ++ source.toList.drop pos :=
      (List.take_append_drop pos source.toList).symm
    obtain ⟨us, s', hr, _, hahead⟩ := hp.exists_run hstart rfl hall
    have hs' := hr.at_of_at hstart
    have hpos : s'.here.pos = pos := by
      rw [hstart.pos_eq hs' (hahead ▸ hall), List.length_take, Nat.min_eq_left (Nat.le_of_lt hlt)]
      exact Nat.zero_add _
    have hstuck : Stuck table s' c := by
      refine ⟨⟨_, hahead.trans hdrop⟩, h.notBlank, hs'.noMatch_iff.mp ?_⟩
      rw [hpos]
      exact h.noMatch
    refine ⟨s'.here.lexError c, hr.tokens_of_stuck hstuck, ?_, rfl⟩
    rw [Place.lexError, hpos]

end Runs

/-- Scanning finds the only division of a source into blanks and first matches of the table,
and fails exactly where such a division breaks off. Either of the two happens, and not
both. -/
theorem scan_divides_source (table : Table) (source : String) :
    (∀ ts, (∃ us, scan table source = .ok us ∧ us.map Token.cut = ts.map Token.cut) ↔
      Partition table source 0 source.toList ts) ∧
    (∀ (pos : Nat) (c : Char), (∃ e, scan table source = .error e ∧ e.position = pos ∧
      e.char = String.singleton c) ↔ BreaksOff table source pos c) ∧
    ((∃ ts, Partition table source 0 source.toList ts) ∨
      ∃ pos c, BreaksOff table source pos c) ∧
    ¬ ((∃ ts, Partition table source 0 source.toList ts) ∧
      ∃ pos c, BreaksOff table source pos c) := by
  refine ⟨fun _ => scan_ok_iff_partition, fun _ _ => scan_error_iff_breaksOff, ?_, ?_⟩
  · cases hscan : scan table source with
    | ok us => exact .inl ⟨us, scan_ok_iff_partition.mp ⟨us, hscan, rfl⟩⟩
    | error e =>
      obtain ⟨ts, s', c, _, _, rfl⟩ := Scanner.exists_run_of_error (s := .start source) hscan
      exact .inr ⟨_, c, scan_error_iff_breaksOff.mp ⟨_, hscan, rfl, rfl⟩⟩
  · rintro ⟨⟨ts, hp⟩, pos, c, hb⟩
    obtain ⟨us, hok, _⟩ := scan_ok_iff_partition.mpr hp
    obtain ⟨e, herr, _⟩ := scan_error_iff_breaksOff.mpr hb
    rw [hok] at herr
    contradiction

end StackLisp
