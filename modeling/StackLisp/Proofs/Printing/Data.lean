import StackLisp.Proofs.Printing.Spacing

/-!
# Rendering data

A datum whose numbers can be written is rendered as the normal spacing of tokens that spell
it. The same holds of a sequence of data with spaces in between.
-/

namespace StackLisp

open Grammar Lexical

theorem Grammar.IsDatum.standsAlone {ts : List Token} {n : Node} (h : IsDatum ts n) :
    Token.StandsAlone ts := by
  cases h with
  | atom ha => exact Token.standsAlone_singleton ha.kind_ne
  | list hl _ hr => exact Token.standsAlone_parenthesized hl hr

/-- Tokens of the standard table that spell a datum, and the normal spacing of which is its
text. -/
structure RendersDatum (ts : List Token) (n : Node) : Prop where
  text : n.render = .ok (Token.joinText ts)
  lexical : ∀ t ∈ ts, t.IsLexical
  spells : IsDatum ts n

section Data
variable {ts : List Token} {n : Node} {ns : List Node}

theorem RendersDatum.respaced (h : RendersDatum ts n) : Respaced ts n :=
  ⟨h.spells.standsAlone, h.text⟩

theorem Grammar.Each.isLexical (h : Each RendersDatum ts ns) : ∀ t ∈ ts, t.IsLexical := by
  induction h with
  | nil => simp
  | cons hr _ ih =>
    intro t ht
    rcases List.mem_append.mp ht with ht | ht
    · exact hr.lexical t ht
    · exact ih t ht

theorem RendersDatum.list (h : Each RendersDatum ts ns) :
    RendersDatum (Token.opening :: ts ++ [Token.closing]) (.list ns) := by
  obtain ⟨texts, hall, hspaced⟩ := (h.imp fun _ _ hr => hr.respaced).exists_spaced
  refine ⟨?_, ?_, .list rfl (h.imp fun _ _ hr => hr.spells) rfl⟩
  · rw [Token.joinText_parenthesized, ← hspaced, Node.render, hall]
    rfl
  · intro t ht
    rcases List.mem_append.mp ht with ht | ht
    · rcases List.mem_cons.mp ht with rfl | ht
      · exact .openParen
      · exact h.isLexical t ht
    · obtain rfl := List.mem_singleton.mp ht
      exact .closeParen

theorem exists_each_rendersDatum (h : ∀ n ∈ ns, ∃ ts, RendersDatum ts n) :
    ∃ ts, Each RendersDatum ts ns := by
  induction ns with
  | nil => exact ⟨[], .nil⟩
  | cons n ns ih =>
    obtain ⟨ts, ht⟩ := h n List.mem_cons_self
    obtain ⟨us, hu⟩ := ih fun m hm => h m (List.mem_cons_of_mem n hm)
    exact ⟨ts ++ us, .cons ht hu⟩

end Data

end StackLisp
