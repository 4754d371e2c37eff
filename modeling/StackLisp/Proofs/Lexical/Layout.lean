import StackLisp.Token.Scan
import StackLisp.Proofs.Grammar.Shape
import StackLisp.Proofs.Lexical.Standard

/-!
# Texts that are laid out

A text is laid out if its tokens can be told without backtracking: each is a text of its
kind, and what follows it cannot prolong it. Scanning finds the tokens of such a text again,
whatever its blanks are. Tokens in normal spacing are laid out.
-/

namespace StackLisp

open Lexical

/-- A token that the standard table can find. -/
def Token.IsLexical (t : Token) : Prop := Valid t.kind t.text.toList

/-- The text is laid out, with these tokens. -/
inductive Laid : List Char → List Token → Prop
  | nil : Laid [] []
  | blank {c : Char} {cs : List Char} {ts : List Token} :
      Text.isBlank c = true → Laid cs ts → Laid (c :: cs) ts
  | token {t : Token} {cs : List Char} {ts : List Token} :
      t.IsLexical → Ends t.kind cs → Laid cs ts → Laid (t.text.toList ++ cs) (t :: ts)

theorem isBlank_of_isSymbolChar {c : Char} (h : isSymbolChar c = true) :
    Text.isBlank c = false := by
  apply Bool.eq_false_iff.mpr
  intro hb
  have hspace := Text.isSpace_of_isBlank hb
  rw [isSpace_of_isSymbolChar h] at hspace
  contradiction

theorem Lexical.Valid.exists_cons {k : Kind} {a : List Char} (h : Valid k a) :
    ∃ c cs, a = c :: cs ∧ Text.isBlank c = false := by
  have symbols : (k = .float ∨ k = .integer ∨ k = .symbol) →
      ∃ c cs, a = c :: cs ∧ Text.isBlank c = false := by
    intro hk
    obtain ⟨c, cs, ha, hc⟩ := h.symbolChar_head hk
    exact ⟨c, cs, ha, isBlank_of_isSymbolChar hc⟩
  cases h with
  | openParen => exact ⟨'(', [], rfl, rfl⟩
  | closeParen => exact ⟨')', [], rfl, rfl⟩
  | float => exact symbols (.inl rfl)
  | integer => exact symbols (.inr (.inl rfl))
  | string => exact ⟨'\x22', _, rfl, rfl⟩
  | symbol => exact symbols (.inr (.inr rfl))

theorem Lexical.Terminal.append {a b : List Char} (hb : Terminal b) (h : Terminal a) :
    Terminal (a ++ b) := by
  cases a with
  | nil => exact hb
  | cons c cs => exact h

theorem Lexical.Ends.append {k : Kind} {a b : List Char} (h : Ends k a) (hb : Terminal b) :
    Ends k (a ++ b) := by
  cases k with
  | openParen | closeParen | string => trivial
  | float | integer | symbol => exact Terminal.append hb h

/-! ## Scanning -/

/-- A text of a kind is found where it ends, and scanning goes on behind it. -/
theorem scanFrom_valid {k : Kind} {a rest : List Char} (h : Valid k a) (hr : Ends k rest)
    (here : Place) (behind : List Char) :
    scanFrom Table.standard here behind (a ++ rest) =
      (scanFrom Table.standard (here.advance a.length) (a.reverse ++ behind) rest).map
        (here.token ⟨k, a, rest⟩ :: ·) := by
  have hl := lexeme?_of_valid h hr behind
  obtain ⟨c, body, rfl, hc⟩ := h.exists_cons
  exact scanFrom_lexeme hc hl

/-- Scanning finds the tokens of a text that is laid out. -/
theorem scanFrom_of_laid {cs : List Char} {ts : List Token} (h : Laid cs ts) (here : Place)
    (behind : List Char) : ∃ us, scanFrom Table.standard here behind cs = .ok us ∧
      us.map Token.shape = ts.map Token.shape := by
  induction h generalizing here behind with
  | nil => exact ⟨[], by rw [scanFrom], rfl⟩
  | @blank c cs ts hc _ ih =>
    obtain ⟨us, hu, hs⟩ := ih (here.skip c) (c :: behind)
    refine ⟨us, ?_, hs⟩
    rw [scanFrom_blank hc, hu]
  | @token t cs ts ht hends _ ih =>
    obtain ⟨us, hu, hs⟩ := ih (here.advance t.text.toList.length) (t.text.toList.reverse ++ behind)
    refine ⟨here.token ⟨t.kind, t.text.toList, cs⟩ :: us, ?_, ?_⟩
    · rw [scanFrom_valid ht hends, hu]
      rfl
    · rw [List.map_cons, hs, List.map_cons, Place.token, Token.shape, String.ofList_toList]
      rfl

/-- A text of a kind by itself is one token. -/
theorem scan_of_valid {k : Kind} {text : String} (h : Valid k text.toList) :
    scan Table.standard text = .ok [⟨k, text, 1, 0, 0⟩] := by
  have hfirst := scanFrom_valid h (ends_nil k) .start []
  rw [List.append_nil, scanFrom, Place.token, String.ofList_toList] at hfirst
  exact hfirst

/-- The tokens that scanning finds are texts of their kind. -/
theorem isLexical_of_scanFrom {here : Place} {behind cs : List Char} {ts : List Token}
    (h : scanFrom Table.standard here behind cs = .ok ts) : ∀ t ∈ ts, t.IsLexical := by
  fun_induction scanFrom Table.standard here behind cs generalizing ts with
  | case1 =>
    cases h
    simp
  | case2 here behind c cs _ ih => exact ih h
  | case3 => contradiction
  | case4 here behind c cs _ l hl ih =>
    obtain ⟨us, hr, h⟩ := exists_of_bind_eq_ok h
    cases h
    intro t ht
    rcases List.mem_cons.mp ht with rfl | ht
    · have hv := valid_of_lexeme? hl
      rwa [Token.IsLexical, Place.token, String.toList_ofList]
    · exact ih hr t ht

/-! ## Putting texts together -/

theorem Laid.append {a b : List Char} {ts us : List Token} (ha : Laid a ts) (hb : Laid b us)
    (h : Terminal b) : Laid (a ++ b) (ts ++ us) := by
  induction ha with
  | nil => exact hb
  | blank hc _ ih => exact .blank hc ih
  | @token t cs ts ht hends _ ih =>
    rw [List.append_assoc]
    exact .token ht (hends.append h) ih

theorem Laid.singleton {t : Token} (h : t.IsLexical) : Laid t.text.toList [t] := by
  have hl : Laid (t.text.toList ++ []) [t] := .token h (ends_nil t.kind) .nil
  rwa [List.append_nil] at hl

theorem Laid.eq_nil {ts : List Token} (h : Laid [] ts) : ts = [] := by
  generalize hcs : [] = cs at h
  cases h with
  | nil => rfl
  | blank _ _ => contradiction
  | token ht _ _ => exact absurd (List.append_eq_nil_iff.mp hcs.symm).1 ht.ne_nil

theorem terminal_blank {c : Char} {cs : List Char} (h : Text.isBlank c = true) :
    Terminal (c :: cs) := by
  intro d hd
  cases hd
  refine ⟨Bool.eq_false_iff.mpr fun hs => ?_, ?_⟩
  · rw [isBlank_of_isSymbolChar hs] at h
    contradiction
  · intro heq
    subst heq
    contradiction

theorem terminal_closeParen {cs : List Char} : Terminal (')' :: cs) := by
  intro d hd
  cases hd
  decide

theorem Token.IsLexical.text_openParen {t : Token} (h : t.IsLexical) (hk : t.kind = .openParen) :
    t.text.toList = ['('] := by
  rw [Token.IsLexical, hk] at h
  generalize t.text.toList = a at h
  cases h
  rfl

theorem Token.IsLexical.text_closeParen {t : Token} (h : t.IsLexical)
    (hk : t.kind = .closeParen) : t.text.toList = [')'] := by
  rw [Token.IsLexical, hk] at h
  generalize t.text.toList = a at h
  cases h
  rfl

theorem Token.joinText_cons (t : Token) (ts : List Token) :
    ∃ s, joinText (t :: ts) = t.text ++ s := by
  cases ts with
  | nil => exact ⟨"", by simp⟩
  | cons u ts => exact ⟨_, by rw [joinText_cons_cons, String.append_assoc]⟩

theorem Laid.parenthesized {start stop : Token} {cs : List Char} {ts : List Token}
    (hs : start.IsLexical) (hopen : start.kind = .openParen) (h : Laid cs ts)
    (ht : stop.IsLexical) (hclose : stop.kind = .closeParen) :
    Laid ('(' :: cs ++ [')']) (start :: ts ++ [stop]) := by
  have hend := Laid.singleton ht
  rw [ht.text_closeParen hclose] at hend
  have hl := Laid.token hs (hopen ▸ trivial) (h.append hend terminal_closeParen)
  rwa [hs.text_openParen hopen] at hl

/-- Tokens in normal spacing are laid out. -/
theorem laid_joinText {ts : List Token} (h : ∀ t ∈ ts, t.IsLexical) :
    Laid (Token.joinText ts).toList ts := by
  fun_induction Token.joinText ts with
  | case1 => exact .nil
  | case2 t => exact .singleton (h t List.mem_cons_self)
  | case3 t u ts ih =>
    have ht := h t List.mem_cons_self
    have hu := h u (List.mem_cons_of_mem t List.mem_cons_self)
    have hlaid := ih fun v hv => h v (List.mem_cons_of_mem t hv)
    rw [String.toList_append, String.toList_append, List.append_assoc]
    cases hapart : Token.apart t u with
    | true =>
      exact .token ht (Terminal.ends (terminal_blank rfl) _) (.blank rfl hlaid)
    | false =>
      refine .token ht ?_ hlaid
      rw [Token.apart, Bool.and_eq_false_iff] at hapart
      rcases hapart with hk | hk
      · have hopen : t.kind = .openParen := by simpa using hk
        rw [hopen]
        trivial
      · have hclose : u.kind = .closeParen := by simpa using hk
        obtain ⟨s, hjoin⟩ := Token.joinText_cons u ts
        rw [hjoin, String.toList_append, hu.text_closeParen hclose]
        exact Terminal.ends terminal_closeParen _

end StackLisp
