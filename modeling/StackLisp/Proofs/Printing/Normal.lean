import Mathlib.Data.List.Chain
import StackLisp.Proofs.Lexical.Partition
import StackLisp.Proofs.Printing.Respacing
import StackLisp.Proofs.Printing.RoundTrip
import StackLisp.Proofs.Text.Spacing

/-!
# Normal spacing of a source

Normal spacing is worked out on the characters of a source, without regard to its tokens.
If no string holds a space, it leaves the texts of all tokens as they are, and has a space
between two neighbours if the source has room there and no parenthesis forbids it. The
normal spacing of tokens has such a space whether there is room or not. So the two agree
exactly if there is room wherever a space is due, and then rendering gives the normal
spacing of the source.
-/

namespace StackLisp

open Grammar Lexical
open Text (isSpace)
open Text.Spacing

/-! ## Texts of tokens -/

namespace Lexical

/-- Normal spacing does not change the text, and takes it for a parenthesis if it is one. -/
structure Compact (k : Kind) (a : List Char) : Prop where
  ne_nil : a ≠ []
  noSpace : ∀ c ∈ a, isSpace c = false
  openParen : k = .openParen → a = ['(']
  last : k ≠ .openParen → ∀ c ∈ a.getLast?, c ≠ '('
  closeParen : k = .closeParen → a = [')']
  head : k ≠ .closeParen → ∀ c ∈ a.head?, c ≠ ')'

/-- The characters of numerals and names. -/
def IsWordChar (c : Char) : Prop := isSymbolChar c = true ∨ c = '.'

theorem isWordChar_of_isDigit {c : Char} (h : c.isDigit = true) : IsWordChar c :=
  .inl (isSymbolChar_of_isDigit h)

theorem isWordChar_of_isSign {sign : List Char} (h : Numeral.IsSign sign) :
    ∀ c ∈ sign, IsWordChar c := by
  rcases h with rfl | rfl
  · simp
  · intro c hc
    rw [List.mem_singleton.mp hc]
    exact .inl (by decide)

theorem IsWordChar.isSpace_eq_false {c : Char} (h : IsWordChar c) : isSpace c = false := by
  rcases h with h | rfl
  · exact isSpace_of_isSymbolChar h
  · decide

theorem IsWordChar.ne_paren {c : Char} (h : IsWordChar c) : c ≠ '(' ∧ c ≠ ')' := by
  constructor
  · rintro rfl
    rcases h with h | h
    · revert h
      decide
    · contradiction
  · rintro rfl
    rcases h with h | h
    · revert h
      decide
    · contradiction

theorem compact_of_isWordChar {k : Kind} {a : List Char} (hne : a ≠ [])
    (ho : k ≠ .openParen) (hc : k ≠ .closeParen) (h : ∀ c ∈ a, IsWordChar c) : Compact k a where
  ne_nil := hne
  noSpace c hm := (h c hm).isSpace_eq_false
  openParen hk := absurd hk ho
  last _ c hm := (h c (List.mem_of_getLast? hm)).ne_paren.1
  closeParen hk := absurd hk hc
  head _ c hm := (h c (List.mem_of_head? hm)).ne_paren.2

/-- The texts of the standard table are compact, but for strings that hold a space. -/
theorem Valid.compact {k : Kind} {a : List Char} (h : Valid k a)
    (hs : k = .string → ∀ c ∈ a, isSpace c = false) : Compact k a := by
  have hne := h.ne_nil
  cases h with
  | openParen =>
    have hspace : isSpace '(' = false := by decide
    refine ⟨hne, List.forall_mem_singleton.mpr hspace, fun _ => rfl, fun hk => absurd rfl hk,
      nofun, fun _ c hc => ?_⟩
    cases hc
    decide
  | closeParen =>
    have hspace : isSpace ')' = false := by decide
    refine ⟨hne, List.forall_mem_singleton.mpr hspace, nofun, fun _ c hc => ?_, fun _ => rfl,
      fun hk => absurd rfl hk⟩
    cases hc
    decide
  | float hsign hw hp =>
    refine compact_of_isWordChar hne nofun nofun fun c hc => ?_
    simp only [List.mem_append, List.mem_cons] at hc
    rcases hc with (hc | hc) | rfl | hc
    · exact isWordChar_of_isSign hsign c hc
    · exact isWordChar_of_isDigit (hw.2 c hc)
    · exact .inr rfl
    · exact isWordChar_of_isDigit (hp.2 c hc)
  | integer hsign hd =>
    refine compact_of_isWordChar hne nofun nofun fun c hc => ?_
    rcases List.mem_append.mp hc with hc | hc
    · exact isWordChar_of_isSign hsign c hc
    · exact isWordChar_of_isDigit (hd.2 c hc)
  | @string body hbody =>
    refine ⟨hne, hs rfl, nofun, fun _ c hc => ?_, nofun, fun _ c hc => ?_⟩
    · rw [List.getLast?_append, List.getLast?_singleton, Option.some_or] at hc
      cases hc
      decide
    · cases hc
      decide
  | symbol hn =>
    exact compact_of_isWordChar hne nofun nofun fun c hc => .inl (hn.symbolChars c hc)

end Lexical

/-! ## Tokens with spaces in between -/

namespace Token

def IsCompact (t : Token) : Prop := Compact t.kind t.text.toList

/-- There is room between a token and one that stands behind it. -/
def gap (t u : Token) : Bool := t.pos + t.text.length < u.pos

/-- The texts of tokens, with a space between two neighbours if `sep` says so. -/
def spread (sep : Token → Token → Bool) : List Token → List Char
  | [] => []
  | t :: ts => t.text.toList ++ (room (ts.head?.any (sep t)) ++ spread sep ts)

@[simp] theorem spread_nil (sep : Token → Token → Bool) : spread sep [] = [] := rfl

@[simp] theorem spread_singleton (sep : Token → Token → Bool) (t : Token) :
    spread sep [t] = t.text.toList := List.append_nil _

theorem spread_cons_cons (sep : Token → Token → Bool) (t u : Token) (ts : List Token) :
    spread sep (t :: u :: ts) = t.text.toList ++ (room (sep t u) ++ spread sep (u :: ts)) := rfl

theorem toList_joinText (ts : List Token) : (joinText ts).toList = spread apart ts := by
  fun_induction joinText ts with
  | case1 => rfl
  | case2 t => exact (spread_singleton apart t).symm
  | case3 t u ts ih =>
    rw [String.toList_append, String.toList_append, ih, List.append_assoc, spread_cons_cons]
    cases apart t u with
    | true => rfl
    | false => rfl

section Spread
variable {sep sep' : Token → Token → Bool} {ts : List Token}

theorem head?_spread_cons {t : Token} (ht : t.IsCompact) :
    (spread sep (t :: ts)).head? = t.text.toList.head? :=
  List.head?_append_of_ne_nil _ ht.ne_nil

theorem spread_ne_nil (sep : Token → Token → Bool) (hne : ts ≠ []) (h : ∀ t ∈ ts, t.IsCompact) :
    spread sep ts ≠ [] := by
  obtain ⟨t, ts, rfl⟩ := List.exists_cons_of_ne_nil hne
  exact List.append_ne_nil_of_left_ne_nil (h t List.mem_cons_self).ne_nil _

theorem spread_head (h : ∀ t ∈ ts, t.IsCompact) :
    ∀ c ∈ (spread sep ts).head?, isSpace c = false := by
  cases ts with
  | nil => simp
  | cons t ts =>
    have ht := h t List.mem_cons_self
    rw [head?_spread_cons ht]
    exact fun c hc => ht.noSpace c (List.mem_of_head? hc)

theorem spread_last (h : ∀ t ∈ ts, t.IsCompact) :
    ∀ c ∈ (spread sep ts).getLast?, isSpace c = false := by
  induction ts with
  | nil => simp
  | cons t ts ih =>
    obtain ⟨ht, hts⟩ := List.forall_mem_cons.mp h
    cases ts with
    | nil =>
      rw [spread_singleton]
      exact fun c hc => ht.noSpace c (List.mem_of_getLast? hc)
    | cons u us =>
      have hne := spread_ne_nil sep (List.cons_ne_nil u us) hts
      rw [spread, ← List.append_assoc, List.getLast?_append_of_ne_nil _ hne]
      exact ih hts

theorem IsCompact.ne_space {t : Token} (h : t.IsCompact) : ∀ c ∈ t.text.toList, c ≠ ' ' := by
  rintro c hc rfl
  exact absurd (h.noSpace ' ' hc) (by decide)

/-- Closing up after opening parentheses takes the spaces there away, and no other ones. -/
theorem closeUpAfterOpen_spread (h : ∀ t ∈ ts, t.IsCompact) :
    closeUpAfterOpen (spread sep ts) =
      spread (fun t u => sep t u && t.kind ≠ .openParen) ts := by
  induction ts with
  | nil => rfl
  | cons t ts ih =>
    obtain ⟨ht, hts⟩ := List.forall_mem_cons.mp h
    have hrec := ih hts
    have hhead : ∀ c ∈ (spread sep ts).head?, c ≠ ' ' := by
      rintro c hc rfl
      exact absurd (spread_head hts ' ' hc) (by decide)
    rw [spread, spread]
    by_cases hk : t.kind = .openParen
    · have hnone : ts.head?.any (fun u => sep t u && decide (t.kind ≠ .openParen)) = false := by
        simp [hk]
      rw [hnone, ht.openParen hk]
      cases ts.head?.any (sep t) with
      | true => exact congrArg ('(' :: ·) hrec
      | false => exact (closeUpAfterOpen_cons fun _ => hhead).trans (congrArg ('(' :: ·) hrec)
    · -- A string may hold a parenthesis, but none that a space can follow.
      have hsame : (fun u => sep t u && decide (t.kind ≠ .openParen)) = sep t := by
        simp [hk]
      rw [hsame, closeUpAfterOpen_append ht.ne_space (ht.last hk), ← hrec]
      cases ts.head?.any (sep t) with
      | true =>
        have hspace : ' ' ≠ '(' := by decide
        exact congrArg (t.text.toList ++ ·) (closeUpAfterOpen_cons fun hc => absurd hc hspace)
      | false => rfl

/-- Closing up before closing parentheses takes the spaces there away, and no other ones. -/
theorem closeUpBeforeClose_spread (h : ∀ t ∈ ts, t.IsCompact) :
    closeUpBeforeClose (spread sep ts) =
      spread (fun t u => sep t u && u.kind ≠ .closeParen) ts := by
  induction ts with
  | nil => rfl
  | cons t ts ih =>
    obtain ⟨ht, hts⟩ := List.forall_mem_cons.mp h
    have hrec := ih hts
    cases ts with
    | nil =>
      change closeUpBeforeClose (t.text.toList ++ []) = t.text.toList ++ []
      exact closeUpBeforeClose_append ht.ne_space
    | cons u us =>
      rw [spread_cons_cons, spread_cons_cons, closeUpBeforeClose_append ht.ne_space, ← hrec]
      cases sep t u with
      | false => rfl
      | true =>
        have hu := hts u List.mem_cons_self
        by_cases hk : u.kind = .closeParen
        · have htext : spread sep (u :: us) = ')' :: _ :=
            congrArg (· ++ _) (hu.closeParen hk)
          rw [htext]
          simp [hk, room, closeUpBeforeClose_space]
        · have hhead : ∀ c ∈ (spread sep (u :: us)).head?, c ≠ ')' := by
            rw [head?_spread_cons hu]
            exact hu.head hk
          simp [hk, room, closeUpBeforeClose_cons fun _ => hhead]

/-- Two ways of spacing agree if they put spaces between the same neighbours, and only then. -/
theorem spread_eq_iff (hle : ∀ t u, sep t u = true → sep' t u = true)
    (h : ∀ t ∈ ts, t.IsCompact) :
    spread sep ts = spread sep' ts ↔
      ts.IsChain fun t u => sep' t u = true → sep t u = true := by
  induction ts with
  | nil => simp
  | cons t ts ih =>
    obtain ⟨_, hts⟩ := List.forall_mem_cons.mp h
    have hrec := ih hts
    cases ts with
    | nil => simp
    | cons u us =>
      rw [spread_cons_cons, spread_cons_cons, List.append_cancel_left_eq, List.isChain_cons_cons,
        ← hrec]
      cases hsep : sep t u with
      | true => simp [hle t u hsep]
      | false =>
        cases hsep' : sep' t u with
        | false => simp
        | true =>
          -- The space on one side would have to be the beginning of a text on the other.
          have hhead : ∀ c ∈ (spread sep (u :: us)).head?, isSpace c = false := spread_head hts
          have hne : spread sep (u :: us) ≠ ' ' :: spread sep' (u :: us) := by
            intro heq
            rw [heq] at hhead
            exact absurd (hhead ' ' rfl) (by decide)
          simp [room, hne]

end Spread

end Token

/-! ## Sources -/

section Sources
variable {table : Table} {source : String} {pos : Nat} {cs : List Char} {ts : List Token}

open Token

/-- The spaces of a source become single ones, and the texts of its tokens stay. -/
theorem Partition.exists_collapse (h : Partition table source pos cs ts)
    (hc : ∀ t ∈ ts, t.IsCompact) :
    ∃ b, collapse cs =
      room (ts.head?.any fun t => (pos : Int) < t.pos) ++ spread gap ts ++ room b := by
  induction h with
  | @blanks pos w hw =>
    refine ⟨!w.isEmpty, ?_⟩
    have hspaces : ∀ c ∈ w, isSpace c = true := fun c hm => Text.isSpace_of_isBlank (hw c hm)
    have hw' : collapse (w ++ []) = room (!w.isEmpty) ++ collapse [] :=
      collapse_spaces hspaces (by simp)
    rw [List.append_nil] at hw'
    rw [hw']
    simp [collapse, room]
  | @token pos begin w cs t ts hw hbegin ht _ _ _ _ ih =>
    -- What is in front of the first token of the rest is the room behind this one.
    obtain ⟨hcompact, hcs⟩ := List.forall_mem_cons.mp hc
    obtain ⟨b, hb⟩ := ih hcs
    have hspaces : ∀ c ∈ w, isSpace c = true := fun c hm => Text.isSpace_of_isBlank (hw c hm)
    have hhead : ∀ c ∈ (t.text.toList ++ cs).head?, isSpace c = false := by
      rw [List.head?_append_of_ne_nil _ hcompact.ne_nil]
      exact fun c hm => hcompact.noSpace c (List.mem_of_head? hm)
    have hbefore : (!w.isEmpty) = decide ((pos : Int) < t.pos) := by
      rw [ht, hbegin]
      cases w with
      | nil => simp
      | cons c w => simp
    have hgap : (fun u : Token => decide (((begin + t.text.length : Nat) : Int) < u.pos)) =
        gap t := by
      funext u
      rw [gap, ht, Nat.cast_add]
    refine ⟨b, ?_⟩
    rw [List.append_assoc, collapse_spaces hspaces hhead, collapse_append hcompact.noSpace, hb,
      hgap, hbefore, List.head?_cons, Option.any_some, spread]
    simp only [List.append_assoc]

/-- The normal spacing of a source has a space where there is room and a space is due. -/
theorem normal_eq_spread (h : Partition table source 0 source.toList ts) (hne : ts ≠ [])
    (hc : ∀ t ∈ ts, t.IsCompact) :
    normal source.toList = spread (fun t u => gap t u && apart t u) ts := by
  have hsep : (fun t u => (gap t u && decide (t.kind ≠ .openParen)) &&
      decide (u.kind ≠ .closeParen)) = fun t u => gap t u && apart t u := by
    funext t u
    rw [apart, Bool.and_assoc]
  obtain ⟨b, hb⟩ := h.exists_collapse hc
  rw [normal, hb, trim_room (spread_ne_nil gap hne hc) (spread_head hc) (spread_last hc),
    closeUpAfterOpen_spread hc, closeUpBeforeClose_spread hc, hsep]

/-- In the characters between two offsets there is a space. -/
def HasSpace (source : String) (start stop : Int) : Prop :=
  ∃ (i : Nat) (c : Char), start ≤ i ∧ i < stop ∧ source.toList[i]? = some c ∧ isSpace c = true

theorem Partition.hasSpace_head (h : Partition table source pos cs ts)
    (hcs : source.toList.drop pos = cs) : ∀ t ∈ ts.head?, (pos : Int) < t.pos →
      HasSpace source pos t.pos := by
  cases h with
  | blanks _ => simp
  | @token _ begin w cs t ts hw hbegin ht _ _ _ _ =>
    rintro u ⟨⟩ hlt
    have hlt' : 0 < w.length := by omega
    obtain ⟨c, w, rfl⟩ := List.exists_cons_of_length_pos hlt'
    have hget : source.toList[pos]? = some c := by
      rw [← Nat.add_zero pos, ← List.getElem?_drop, hcs]
      rfl
    exact ⟨pos, c, Int.le_refl _, hlt, hget, Text.isSpace_of_isBlank (hw c List.mem_cons_self)⟩

/-- There is room between neighbouring tokens exactly if a space is between them. -/
theorem Partition.gap_iff (h : Partition table source pos cs ts)
    (hcs : source.toList.drop pos = cs) :
    ts.IsChain fun t u => gap t u = true ↔ HasSpace source (t.pos + t.text.length) u.pos := by
  induction h with
  | blanks _ => simp
  | @token pos begin w cs t ts hw hbegin ht _ _ _ hp ih =>
    have hdrop : source.toList.drop (begin + t.text.length) = cs := by
      have hlength : (w ++ t.text.toList).length = w.length + t.text.length := by
        rw [List.length_append, String.length_toList]
      rw [hbegin, Nat.add_assoc, ← List.drop_drop, hcs, ← hlength, List.drop_left]
    refine List.isChain_cons.mpr ⟨fun u hu => ⟨fun hgap => ?_, fun hspace => ?_⟩, ih hdrop⟩
    · have hend : t.pos + t.text.length = ((begin + t.text.length : Nat) : Int) := by
        rw [ht, Nat.cast_add]
      rw [hend]
      refine hp.hasSpace_head hdrop u hu ?_
      rw [← hend]
      simpa [gap] using hgap
    · obtain ⟨i, c, hstart, hstop, _, _⟩ := hspace
      simpa [gap] using Int.lt_of_le_of_lt hstart hstop

end Sources

/-- Rendering what a source was read as gives the normal spacing of the source exactly if there
is a space wherever one is due. It is assumed that no string holds a space, that no quote is
empty, and that the numerals of code are canonical. -/
theorem render_eq_normalizeSpacing_iff {source : String} {ts : List Token} {n : Node}
    (hscan : scan Table.standard source = .ok ts)
    (hparse : parseSource Table.standard source = .ok n)
    (hstrings : ∀ t ∈ ts, t.kind = .string → ∀ c ∈ t.text.toList, isSpace c = false)
    (hquotes : ∀ us raw ms, IsPart us (.quote raw ms) ts n → ms ≠ [])
    (hnumerals : ∀ t m, IsPart [t] m ts n → t.IsCanonical) :
    n.render = .ok (Text.normalizeSpacing source) ↔
      ∀ before t u after, ts = before ++ t :: u :: after →
        t.kind ≠ .openParen → u.kind ≠ .closeParen →
          HasSpace source (t.pos + t.text.length) u.pos := by
  obtain ⟨us, hus, hspells⟩ := exists_tokens_of_parseSource hparse
  obtain rfl := Except.ok.inj (hus.symm.trans hscan)
  have hlexical := isLexical_of_scanFrom hus
  have hcompact : ∀ t ∈ us, t.IsCompact := fun t ht => (hlexical t ht).compact (hstrings t ht)
  have hplain : IsPlain us n := by
    refine ⟨fun t ht => ⟨fun hk => ?_, fun hk => ?_⟩, hquotes, hnumerals⟩
    · exact String.toList_inj.mp ((hlexical t ht).text_openParen hk)
    · exact String.toList_inj.mp ((hlexical t ht).text_closeParen hk)
  have hp : Partition Table.standard source 0 source.toList us :=
    scan_ok_iff_partition.mp ⟨us, hscan, rfl⟩
  have hchain := hp.gap_iff rfl
  -- Both sides spread the same tokens, so they can be compared neighbour by neighbour.
  rw [render_eq_joinText hspells hplain, Except.ok.injEq, ← String.toList_inj,
    Token.toList_joinText, Text.toList_normalizeSpacing,
    normal_eq_spread hp hspells.ne_nil hcompact, eq_comm,
    Token.spread_eq_iff (by simp) hcompact]
  rw [List.isChain_iff_forall_rel_of_append_cons_cons] at hchain ⊢
  constructor
  · intro h before t u after heq ht hu
    have hapart : Token.apart t u = true := by
      simpa [Token.apart] using ⟨ht, hu⟩
    exact (hchain heq).mp (Bool.and_eq_true_iff.mp (h heq hapart)).1
  · intro h t u before after heq hapart
    have hkinds : t.kind ≠ .openParen ∧ u.kind ≠ .closeParen := by
      simpa [Token.apart] using hapart
    have hspace := h before t u after heq hkinds.1 hkinds.2
    exact Bool.and_eq_true_iff.mpr ⟨(hchain heq).mpr hspace, hapart⟩

/-- Rendering sets the quote apart from the symbol before it. -/
theorem render_ne_normalizeSpacing_unspaced :
    parseSource Table.standard "(f(quote 1))" =
        .ok (.application (.symbol "f") [.quote "1" [.integer 1]]) ∧
      (Node.application (.symbol "f") [.quote "1" [.integer 1]]).render ≠
        .ok (Text.normalizeSpacing "(f(quote 1))") := by
  have hscan : scan Table.standard "(f(quote 1))" =
      .ok [⟨.openParen, "(", 1, 0, 0⟩, ⟨.symbol, "f", 1, 1, 1⟩, ⟨.openParen, "(", 1, 2, 2⟩,
        ⟨.symbol, "quote", 1, 3, 3⟩, ⟨.integer, "1", 1, 9, 9⟩, ⟨.closeParen, ")", 1, 10, 10⟩,
        ⟨.closeParen, ")", 1, 11, 11⟩] := by
    decide +kernel
  have hone : Numeral.readInteger "1" = .ok 1 := by
    decide +kernel
  have hparse : parseSource Table.standard "(f(quote 1))" =
      .ok (.application (.symbol "f") [.quote "1" [.integer 1]]) := by
    rw [parseSource_of_scan hscan]
    simp [parse, Reading.form, State.run, State.step, State.form, State.deliver, State.close,
      Node.ofAtom, hone, Except.mapError, bind, Except.bind, pure, Except.pure]
  refine ⟨hparse, fun hrender => ?_⟩
  have hspace := (render_eq_normalizeSpacing_iff hscan hparse ?_ ?_ ?_).mp hrender
    [⟨.openParen, "(", 1, 0, 0⟩] ⟨.symbol, "f", 1, 1, 1⟩ ⟨.openParen, "(", 1, 2, 2⟩ _ rfl
    (by decide) (by decide)
  · obtain ⟨i, c, hstart, hstop, _, _⟩ := hspace
    have hlength : "f".length = 1 := rfl
    dsimp only at hstart hstop
    omega
  · decide
  · intro us raw ms hpart
    rcases hpart.of_application with heq | ⟨fs, hf⟩ | ⟨k, hk, vs, hv⟩
    · contradiction
    · cases hf
    · obtain rfl := List.mem_singleton.mp hk
      cases hv
      simp
  · intro t m hpart
    have ht := hpart.subset List.mem_cons_self
    have hkinds : (t.kind ≠ .integer ∨ t.text = "1") ∧ t.kind ≠ .float := by
      clear hpart
      revert t
      decide
    refine ⟨fun hk => ?_, fun hk => absurd hk hkinds.2⟩
    rw [hkinds.1.resolve_left (absurd hk), hone]
    decide +kernel

end StackLisp
