import StackLisp.Proofs.Lexical.Layout

/-!
# Joined texts

Joining the texts of tokens leaves the space out inside parentheses, so it has to be seen that
no two neighbours merge there, and that none is taken for something else because of what is
behind it. All that is asked of the tokens is that each one is found again in its own text. The
order and the number of parentheses do not matter. The condition is also necessary: a token that
comes out of a joined text is found in its own text as well.
-/

namespace StackLisp

open Lexical

namespace Token

variable {t u : Token} {ts us : List Token}

/-- Scanning the text of the token finds this token and no other one. -/
def FoundAlone (t : Token) : Prop :=
  ∃ u, scan Table.standard t.text = .ok [u] ∧ u.shape = t.shape

theorem IsLexical.of_shape (h : u.IsLexical) (hs : u.shape = t.shape) : t.IsLexical := by
  obtain ⟨hkind, htext⟩ := shape_eq_iff.mp hs
  rwa [IsLexical, hkind, htext] at h

/-- The texts of a kind are those that are found alone with this kind. -/
theorem foundAlone_iff : t.FoundAlone ↔ t.IsLexical := by
  constructor
  · rintro ⟨u, hscan, hs⟩
    have hu : u.IsLexical := isLexical_of_scanFrom hscan u (List.mem_singleton.mpr rfl)
    exact hu.of_shape hs
  · intro h
    exact ⟨_, scan_of_valid h, rfl⟩

theorem forall_isLexical_of_shape (h : ∀ u ∈ us, u.IsLexical)
    (hs : us.map shape = ts.map shape) : ∀ t ∈ ts, t.IsLexical := by
  intro t ht
  have hmem : t.shape ∈ us.map shape := by
    rw [hs]
    exact List.mem_map_of_mem ht
  obtain ⟨u, hu, heq⟩ := List.mem_map.mp hmem
  exact (h u hu).of_shape heq

end Token

/-- Scanning the joined text of tokens finds their kinds and texts again, in the same order,
exactly if each of them is found alone in its own text. -/
theorem scan_joinText_iff (ts : List Token) :
    (∃ us, scan Table.standard (Token.joinText ts) = .ok us ∧
      us.map Token.shape = ts.map Token.shape) ↔ ∀ t ∈ ts, t.FoundAlone := by
  constructor
  · rintro ⟨us, hscan, hs⟩ t ht
    have hlex : ∀ u ∈ us, u.IsLexical := isLexical_of_scanFrom hscan
    exact Token.foundAlone_iff.mpr (Token.forall_isLexical_of_shape hlex hs t ht)
  · intro h
    have hlex : ∀ t ∈ ts, t.IsLexical := fun t ht => Token.foundAlone_iff.mp (h t ht)
    exact scanFrom_of_laid (laid_joinText hlex) .start []

end StackLisp
