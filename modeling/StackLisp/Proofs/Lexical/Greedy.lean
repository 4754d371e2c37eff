import StackLisp.Pattern.Basic

/-!
# What patterns match

The pieces of a pattern generate a set of texts, as any regular expression does. What
matching takes is in that set, and matching fails only where no text of the set stands at
the front. Which of the texts is taken depends on the backtracking in general. It is simple
where every piece stops at the first character it does not admit: then nothing is given back.
-/

namespace StackLisp

/-- Whether a piece may occur a number of times. -/
def Times.Admits : Times → Nat → Prop
  | .once, n => n = 1
  | .optional, n => n ≤ 1
  | .star, _ => True
  | .plus, n => 1 ≤ n

def Piece.Admits (p : Piece) (a : List Char) : Prop :=
  (∀ c ∈ a, p.set.contains c = true) ∧ p.times.Admits a.length

/-- No character of the set stands at the front of a text. -/
def CharSet.EndsAt (s : CharSet) (cs : List Char) : Prop :=
  ∀ c ∈ cs.head?, s.contains c = false

@[simp] theorem CharSet.endsAt_cons {s : CharSet} {c : Char} {cs : List Char} :
    s.EndsAt (c :: cs) ↔ s.contains c = false := by
  simp [EndsAt]

namespace Pattern

/-- The texts of a sequence of pieces. -/
inductive Generates : List Piece → List Char → Prop
  | nil : Generates [] []
  | cons {p : Piece} {ps : List Piece} {a b : List Char} :
      p.Admits a → Generates ps b → Generates (p :: ps) (a ++ b)

/-- A division of a text where each piece takes what it admits and stops before a character
that it does not admit, unless it may take no more. -/
inductive Greedy : List Piece → List Char → List Char → Prop
  | nil {rest : List Char} : Greedy [] [] rest
  | once {s : CharSet} {ps : List Piece} {c : Char} {a rest : List Char} :
      s.contains c = true → Greedy ps a rest → Greedy (⟨s, .once⟩ :: ps) (c :: a) rest
  | present {s : CharSet} {ps : List Piece} {c : Char} {a rest : List Char} :
      s.contains c = true → Greedy ps a rest → Greedy (⟨s, .optional⟩ :: ps) (c :: a) rest
  | absent {s : CharSet} {ps : List Piece} {a rest : List Char} :
      s.EndsAt (a ++ rest) → Greedy ps a rest → Greedy (⟨s, .optional⟩ :: ps) a rest
  | star {s : CharSet} {ps : List Piece} {x a rest : List Char} :
      (∀ c ∈ x, s.contains c = true) → s.EndsAt (a ++ rest) → Greedy ps a rest →
      Greedy (⟨s, .star⟩ :: ps) (x ++ a) rest
  | plus {s : CharSet} {ps : List Piece} {x a rest : List Char} :
      x ≠ [] → (∀ c ∈ x, s.contains c = true) → s.EndsAt (a ++ rest) → Greedy ps a rest →
      Greedy (⟨s, .plus⟩ :: ps) (x ++ a) rest

section Matchers
variable {s : CharSet} {next : Matcher} {L : List Char → Prop} {a b x cs rest : List Char}

/-! ## What is taken is generated -/

theorem one_sound (hn : ∀ cs a rest, next cs = some (a, rest) → L a)
    (h : one s next cs = some (a, rest)) : ∃ c b, a = c :: b ∧ s.contains c = true ∧ L b := by
  cases cs with
  | nil => simp [one] at h
  | cons c cs =>
    rw [one] at h
    split at h
    next hc =>
      obtain ⟨⟨b, r⟩, hb, hp⟩ := Option.map_eq_some_iff.mp h
      obtain ⟨rfl, rfl⟩ := Prod.mk.inj hp
      exact ⟨c, b, rfl, hc, hn cs b r hb⟩
    next => contradiction

theorem many_sound (hn : ∀ cs a rest, next cs = some (a, rest) → L a)
    (h : many s next cs = some (a, rest)) :
    ∃ x b, a = x ++ b ∧ (∀ c ∈ x, s.contains c = true) ∧ L b := by
  have stop : ∀ cs, next cs = some (a, rest) →
      ∃ x b, a = x ++ b ∧ (∀ c ∈ x, s.contains c = true) ∧ L b :=
    fun cs hcs => ⟨[], a, rfl, by simp, hn cs a rest hcs⟩
  induction cs generalizing a rest with
  | nil => exact stop [] h
  | cons c cs ih =>
    unfold many at h
    split at h
    next hc =>
      split at h
      next p hp =>
        rcases p with ⟨b, r⟩
        obtain ⟨rfl, rfl⟩ := Prod.mk.inj (Option.some.inj h)
        have hs : ∀ cs, next cs = some (b, r) →
            ∃ x y, b = x ++ y ∧ (∀ c ∈ x, s.contains c = true) ∧ L y :=
          fun cs hcs => ⟨[], b, rfl, by simp, hn cs b r hcs⟩
        obtain ⟨x, y, rfl, hx, hy⟩ := ih hp hs
        refine ⟨c :: x, y, rfl, ?_, hy⟩
        intro d hd
        rcases List.mem_cons.mp hd with rfl | hd
        · exact hc
        · exact hx d hd
      next => exact stop _ h
    next => exact stop _ h

/-! ## Matching succeeds where it can -/

theorem one_complete {c : Char} (hc : s.contains c = true) (h : (next cs).isSome) :
    (one s next (c :: cs)).isSome := by
  rw [one, if_pos hc]
  simpa using h

theorem many_complete (hx : ∀ c ∈ x, s.contains c = true) (h : (next cs).isSome) :
    (many s next (x ++ cs)).isSome := by
  induction x with
  | nil =>
    cases cs with
    | nil => exact h
    | cons d ds =>
      rw [List.nil_append, many]
      split
      · split
        · rfl
        · exact h
      · exact h
  | cons d x ih =>
    have hd : s.contains d = true := hx d List.mem_cons_self
    have hi := ih fun c hc => hx c (List.mem_cons_of_mem d hc)
    rw [List.cons_append, many, if_pos hd]
    split
    · rfl
    next hnone =>
      rw [hnone] at hi
      contradiction

/-! ## Taking without giving back -/

theorem one_greedy {c : Char} (hc : s.contains c = true)
    (h : next (a ++ rest) = some (a, rest)) :
    one s next (c :: a ++ rest) = some (c :: a, rest) := by
  rw [List.cons_append, one, if_pos hc, h]
  rfl

theorem one_of_endsAt (h : s.EndsAt cs) : one s next cs = none := by
  cases cs with
  | nil => rfl
  | cons c cs =>
    rw [CharSet.endsAt_cons] at h
    rw [one, h, if_neg Bool.false_ne_true]

theorem many_greedy (hx : ∀ c ∈ x, s.contains c = true) (hs : s.EndsAt (a ++ rest))
    (h : next (a ++ rest) = some (a, rest)) :
    many s next (x ++ a ++ rest) = some (x ++ a, rest) := by
  induction x with
  | nil =>
    rw [List.nil_append]
    cases hcs : a ++ rest with
    | nil => rw [many, ← hcs, h]
    | cons c cs =>
      rw [hcs, CharSet.endsAt_cons] at hs
      rw [many, hs, if_neg Bool.false_ne_true, ← hcs, h]
  | cons c x ih =>
    have hc : s.contains c = true := hx c List.mem_cons_self
    have hi := ih fun d hd => hx d (List.mem_cons_of_mem c hd)
    rw [List.cons_append, List.cons_append, many, if_pos hc, hi]
    rfl

end Matchers

theorem generates_of_matchPieces {ps : List Piece} {cs a rest : List Char}
    (h : matchPieces ps cs = some (a, rest)) : Generates ps a := by
  induction ps generalizing cs a rest with
  | nil =>
    cases h
    exact .nil
  | cons p ps ih =>
    rcases p with ⟨s, times⟩
    have single : ∀ {cs a rest}, one s (matchPieces ps) cs = some (a, rest) →
        ∃ c b, a = [c] ++ b ∧ (∀ d ∈ [c], s.contains d = true) ∧ Generates ps b := by
      intro cs a rest h
      obtain ⟨c, b, rfl, hc, hb⟩ := one_sound (fun _ _ _ => ih) h
      exact ⟨c, b, rfl, by simpa using hc, hb⟩
    cases times with
    | once =>
      obtain ⟨c, b, rfl, hc, hb⟩ := single h
      exact .cons ⟨hc, rfl⟩ hb
    | optional =>
      simp only [matchPieces] at h
      split at h
      next hone =>
        obtain ⟨c, b, rfl, hc, hb⟩ := single (hone.trans h)
        exact .cons ⟨hc, Nat.le_refl 1⟩ hb
      next => exact .cons (a := []) ⟨by simp, Nat.zero_le 1⟩ (ih h)
    | star =>
      obtain ⟨x, b, rfl, hx, hb⟩ := many_sound (fun _ _ _ => ih) h
      exact .cons ⟨hx, trivial⟩ hb
    | plus =>
      obtain ⟨c, b, rfl, hc, x, y, rfl, hx, hy⟩ :=
        one_sound (fun _ _ _ => many_sound (fun _ _ _ => ih)) h
      refine .cons (a := c :: x) ⟨?_, Nat.succ_le_succ (Nat.zero_le _)⟩ hy
      intro d hd
      rcases List.mem_cons.mp hd with rfl | hd
      · exact hc
      · exact hx d hd

theorem matchPieces_isSome_of_generates {ps : List Piece} {a : List Char}
    (h : Generates ps a) (rest : List Char) : (matchPieces ps (a ++ rest)).isSome := by
  induction h with
  | nil => rfl
  | @cons p ps x b hx _ ih =>
    rcases p with ⟨s, times⟩
    rcases hx with ⟨hs, ht⟩
    rw [List.append_assoc]
    cases times with
    | once =>
      obtain ⟨c, rfl⟩ := List.length_eq_one_iff.mp ht
      exact one_complete (hs c List.mem_cons_self) ih
    | optional =>
      unfold matchPieces
      split
      · rfl
      next hnone =>
        cases x with
        | nil => exact ih
        | cons c x =>
          obtain rfl := List.length_eq_zero_iff.mp (Nat.le_zero.mp (Nat.le_of_succ_le_succ ht))
          have hsome := one_complete (hs c List.mem_cons_self) ih
          rw [List.cons_append, List.nil_append, hnone] at *
          contradiction
    | star => exact many_complete hs ih
    | plus =>
      cases x with
      | nil => exact absurd ht (Nat.not_succ_le_zero 0)
      | cons c x =>
        have hm := many_complete (fun d hd => hs d (List.mem_cons_of_mem c hd)) ih
        exact one_complete (hs c List.mem_cons_self) hm

theorem matchPieces_of_greedy {ps : List Piece} {a rest : List Char} (h : Greedy ps a rest) :
    matchPieces ps (a ++ rest) = some (a, rest) := by
  induction h with
  | nil => rfl
  | once hc _ ih => exact one_greedy hc ih
  | present hc _ ih => rw [matchPieces, one_greedy hc ih]
  | absent hs _ ih => rw [matchPieces, one_of_endsAt hs, ih]
  | star hx hs _ ih => exact many_greedy hx hs ih
  | @plus s ps x a rest hne hx hs _ ih =>
    cases x with
    | nil => contradiction
    | cons c x =>
      have hm := many_greedy (fun d hd => hx d (List.mem_cons_of_mem c hd)) hs ih
      exact one_greedy (hx c List.mem_cons_self) hm

end Pattern

end StackLisp
