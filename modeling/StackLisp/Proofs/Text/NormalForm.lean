import Mathlib.Data.List.Chain
import Mathlib.Data.List.DropRight
import StackLisp.Proofs.Text.Spacing

/-!
# Normal spacing is a normal form

A text is in normal spacing if its only spaces are single plain ones, none of which stands at an
end, behind an opening or before a closing parenthesis. Each step of normalizing removes some of
these faults and brings back none of those removed before, and a step leaves a text alone that has
not its faults. So normalizing makes a text in normal spacing of every text, and it changes
exactly those that are none. The characters other than spaces stay as they are.
-/

namespace StackLisp.Text.Spacing

/-- The character `d` never stands just behind the character `c`. -/
def NeverBehind (c d : Char) (cs : List Char) : Prop := cs.IsChain fun a b => a = c → b ≠ d

/-- Normal spacing, told by the characters of a text. -/
structure IsNormal (cs : List Char) : Prop where
  plain : ∀ c ∈ cs, isSpace c = true → c = ' '
  first : ∀ c ∈ cs.head?, isSpace c = false
  last : ∀ c ∈ cs.getLast?, isSpace c = false
  single : NeverBehind ' ' ' ' cs
  afterOpen : NeverBehind '(' ' ' cs
  beforeClose : NeverBehind ' ' ')' cs

variable {cs ds : List Char} {c d e : Char}

theorem neverBehind_cons :
    NeverBehind c d (e :: cs) ↔ (e = c → ∀ b ∈ cs.head?, b ≠ d) ∧ NeverBehind c d cs := by
  rw [NeverBehind, List.isChain_cons]
  exact and_congr_left' ⟨fun h he b hb => h b hb he, fun h b hb he => h he b hb⟩

/-- The characters that are no spaces. -/
def ink (cs : List Char) : List Char := cs.filter fun c => !isSpace c

theorem ink_cons_space (h : isSpace c = true) : ink (c :: cs) = ink cs :=
  List.filter_cons_of_neg (by simp [h])

theorem ink_cons (h : ink cs = ink ds) (c : Char) : ink (c :: cs) = ink (c :: ds) := by
  have hone : ∀ es, ink (c :: es) = ink [c] ++ ink es := fun es => List.filter_append [c] es
  rw [hone cs, hone ds, h]

/-! ## Collapsing -/

theorem collapse_cases (cs : List Char) (h : isSpace c = true) :
    collapse (c :: cs) = ' ' :: collapse cs ∧ (∀ d ∈ (collapse cs).head?, d ≠ ' ') ∨
      collapse (c :: cs) = collapse cs ∧ (collapse cs).head? = some ' ' := by
  by_cases hhead : (collapse cs).head? = some ' '
  · refine .inr ⟨?_, hhead⟩
    obtain ⟨rest, hrest⟩ := List.head?_eq_some_iff.mp hhead
    rw [collapse, if_pos h, hrest]
    rfl
  · have hne : ∀ d ∈ (collapse cs).head?, d ≠ ' ' := by
      rintro d hd rfl
      exact hhead hd
    exact .inl ⟨collapse_space h hne, hne⟩

theorem plain_collapse (cs : List Char) : ∀ c ∈ collapse cs, isSpace c = true → c = ' ' := by
  induction cs with
  | nil => exact List.forall_mem_nil _
  | cons c cs ih =>
    cases hc : isSpace c with
    | false =>
      rw [collapse_of_not_isSpace hc]
      exact List.forall_mem_cons.mpr ⟨fun h => by simp [hc] at h, ih⟩
    | true =>
      rcases collapse_cases cs hc with ⟨h, -⟩ | ⟨h, -⟩
      · rw [h]
        exact List.forall_mem_cons.mpr ⟨fun _ => rfl, ih⟩
      · rwa [h]

theorem single_collapse (cs : List Char) : NeverBehind ' ' ' ' (collapse cs) := by
  induction cs with
  | nil => exact .nil
  | cons c cs ih =>
    cases hc : isSpace c with
    | false =>
      rw [collapse_of_not_isSpace hc]
      refine neverBehind_cons.mpr ⟨?_, ih⟩
      rintro rfl
      contradiction
    | true =>
      rcases collapse_cases cs hc with ⟨h, hhead⟩ | ⟨h, -⟩
      · rw [h]
        exact neverBehind_cons.mpr ⟨fun _ => hhead, ih⟩
      · rwa [h]

theorem ink_collapse (cs : List Char) : ink (collapse cs) = ink cs := by
  induction cs with
  | nil => rfl
  | cons c cs ih =>
    cases hc : isSpace c with
    | false =>
      rw [collapse_of_not_isSpace hc]
      exact ink_cons ih c
    | true =>
      rw [ink_cons_space hc, ← ih]
      rcases collapse_cases cs hc with ⟨h, -⟩ | ⟨h, -⟩
      · rw [h, ink_cons_space isSpace_plain]
      · rw [h]

theorem collapse_eq_self (hplain : ∀ c ∈ cs, isSpace c = true → c = ' ')
    (hsingle : NeverBehind ' ' ' ' cs) : collapse cs = cs := by
  induction cs with
  | nil => rfl
  | cons c cs ih =>
    obtain ⟨hc, hplain⟩ := List.forall_mem_cons.mp hplain
    obtain ⟨hnext, hsingle⟩ := neverBehind_cons.mp hsingle
    have hcs := ih hplain hsingle
    cases hspace : isSpace c with
    | false => rw [collapse_of_not_isSpace hspace, hcs]
    | true =>
      obtain rfl := hc hspace
      rw [collapse_space hspace (hcs.symm ▸ hnext rfl), hcs]

/-! ## Trimming -/

theorem trim_front (cs : List Char) : trim isSpace cs <+: cs.dropWhile isSpace :=
  List.rdropWhile_prefix isSpace _

theorem trim_inside (cs : List Char) : trim isSpace cs <:+: cs :=
  (trim_front cs).isInfix.trans (List.dropWhile_suffix isSpace).isInfix

theorem first_trim (cs : List Char) : ∀ c ∈ (trim isSpace cs).head?, isSpace c = false := by
  intro c hc
  obtain ⟨rest, hrest⟩ := List.head?_eq_some_iff.mp hc
  obtain ⟨after, hafter⟩ := trim_front cs
  have hnot := List.head?_dropWhile_not isSpace cs
  rw [← hafter, hrest] at hnot
  exact hnot

theorem last_trim (cs : List Char) : ∀ c ∈ (trim isSpace cs).getLast?, isSpace c = false := by
  intro c hc
  rw [trim, List.getLast?_reverse] at hc
  have hnot := List.head?_dropWhile_not isSpace (cs.dropWhile isSpace).reverse
  rw [Option.mem_def.mp hc] at hnot
  exact hnot

theorem ink_dropWhile (cs : List Char) : ink (cs.dropWhile isSpace) = ink cs := by
  induction cs with
  | nil => rfl
  | cons c cs ih =>
    cases hc : isSpace c with
    | false => rw [List.dropWhile_cons_of_neg (by simp [hc])]
    | true => rw [List.dropWhile_cons_of_pos hc, ih, ink_cons_space hc]

theorem ink_trim (cs : List Char) : ink (trim isSpace cs) = ink cs := by
  have hreverse : ∀ ds, ink ds.reverse = (ink ds).reverse := fun ds => List.filter_reverse
  rw [trim, hreverse, ink_dropWhile, hreverse, List.reverse_reverse, ink_dropWhile]

theorem trim_eq_self (hfirst : ∀ c ∈ cs.head?, isSpace c = false)
    (hlast : ∀ c ∈ cs.getLast?, isSpace c = false) : trim isSpace cs = cs := by
  cases cs with
  | nil => rfl
  | cons c cs =>
    have h : trim isSpace (room false ++ (c :: cs) ++ room false) = c :: cs :=
      trim_room (List.cons_ne_nil c cs) hfirst hlast
    rwa [room, if_neg Bool.false_ne_true, List.nil_append, List.append_nil] at h

/-! ## Closing up -/

theorem head?_closeUpAfterOpen (cs : List Char) : (closeUpAfterOpen cs).head? = cs.head? := by
  fun_cases closeUpAfterOpen cs with
  | case1 cs => rfl
  | case2 c cs hne => rfl
  | case3 => rfl

/-- Where no space is in front, none goes. -/
theorem head?_closeUpBeforeClose (h : ∀ c ∈ cs.head?, c ≠ ' ') :
    (closeUpBeforeClose cs).head? = cs.head? := by
  fun_cases closeUpBeforeClose cs with
  | case1 cs => exact absurd rfl (h ' ' rfl)
  | case2 c cs hne => rfl
  | case3 => rfl

theorem single_closeUpAfterOpen (h : NeverBehind ' ' ' ' cs) :
    NeverBehind ' ' ' ' (closeUpAfterOpen cs) := by
  fun_induction closeUpAfterOpen cs with
  | case1 cs ih =>
    have hcs := (neverBehind_cons.mp (neverBehind_cons.mp h).2).2
    exact neverBehind_cons.mpr ⟨fun hopen => absurd hopen (by decide), ih hcs⟩
  | case2 c cs hne ih =>
    obtain ⟨hnext, hcs⟩ := neverBehind_cons.mp h
    refine neverBehind_cons.mpr ⟨?_, ih hcs⟩
    rwa [head?_closeUpAfterOpen]
  | case3 => exact .nil

/-- One space goes behind each opening parenthesis, and there is no second one. -/
theorem afterOpen_closeUpAfterOpen (h : NeverBehind ' ' ' ' cs) :
    NeverBehind '(' ' ' (closeUpAfterOpen cs) := by
  fun_induction closeUpAfterOpen cs with
  | case1 cs ih =>
    obtain ⟨hnext, hcs⟩ := neverBehind_cons.mp (neverBehind_cons.mp h).2
    refine neverBehind_cons.mpr ⟨fun _ => ?_, ih hcs⟩
    rw [head?_closeUpAfterOpen]
    exact hnext rfl
  | case2 c cs hne ih =>
    refine neverBehind_cons.mpr ⟨fun hc d hd hspace => ?_, ih (neverBehind_cons.mp h).2⟩
    rw [head?_closeUpAfterOpen] at hd
    obtain ⟨rest, hrest⟩ := List.head?_eq_some_iff.mp hd
    exact hne rest hc (hspace ▸ hrest)
  | case3 => exact .nil

/-- A space that goes lets a closing parenthesis move up, and never another space. -/
theorem neverBehind_closeUpBeforeClose (hc : c ≠ ')') (h : NeverBehind c ' ' cs) :
    NeverBehind c ' ' (closeUpBeforeClose cs) := by
  fun_induction closeUpBeforeClose cs with
  | case1 cs ih =>
    have hcs := (neverBehind_cons.mp (neverBehind_cons.mp h).2).2
    exact neverBehind_cons.mpr ⟨fun hclose => absurd hclose.symm hc, ih hcs⟩
  | case2 d cs hne ih =>
    obtain ⟨hnext, hcs⟩ := neverBehind_cons.mp h
    refine neverBehind_cons.mpr ⟨fun hd => ?_, ih hcs⟩
    rw [head?_closeUpBeforeClose (hnext hd)]
    exact hnext hd
  | case3 => exact .nil

theorem beforeClose_closeUpBeforeClose (h : NeverBehind ' ' ' ' cs) :
    NeverBehind ' ' ')' (closeUpBeforeClose cs) := by
  fun_induction closeUpBeforeClose cs with
  | case1 cs ih =>
    have hcs := (neverBehind_cons.mp (neverBehind_cons.mp h).2).2
    exact neverBehind_cons.mpr ⟨fun hclose => absurd hclose (by decide), ih hcs⟩
  | case2 c cs hne ih =>
    obtain ⟨hnext, hcs⟩ := neverBehind_cons.mp h
    refine neverBehind_cons.mpr ⟨fun hc d hd hclose => ?_, ih hcs⟩
    rw [head?_closeUpBeforeClose (hnext hc)] at hd
    obtain ⟨rest, hrest⟩ := List.head?_eq_some_iff.mp hd
    exact hne rest hc (hclose ▸ hrest)
  | case3 => exact .nil

theorem closeUpAfterOpen_eq_self (h : NeverBehind '(' ' ' cs) : closeUpAfterOpen cs = cs := by
  induction cs with
  | nil => rfl
  | cons c cs ih =>
    obtain ⟨hnext, hcs⟩ := neverBehind_cons.mp h
    rw [closeUpAfterOpen_cons hnext, ih hcs]

theorem closeUpBeforeClose_eq_self (h : NeverBehind ' ' ')' cs) : closeUpBeforeClose cs = cs := by
  induction cs with
  | nil => rfl
  | cons c cs ih =>
    obtain ⟨hnext, hcs⟩ := neverBehind_cons.mp h
    rw [closeUpBeforeClose_cons hnext, ih hcs]

/-! ## Leaving out spaces -/

/-- Some spaces of the first text are left out in the second one. -/
inductive LeavesOut : List Char → List Char → Prop
  | nil : LeavesOut [] []
  | keep {c : Char} {cs ds : List Char} : LeavesOut cs ds → LeavesOut (c :: cs) (c :: ds)
  | space {c : Char} {cs ds : List Char} : isSpace c = true → LeavesOut cs ds →
      LeavesOut (c :: cs) ds

theorem leavesOut_closeUpAfterOpen (cs : List Char) : LeavesOut cs (closeUpAfterOpen cs) := by
  fun_induction closeUpAfterOpen cs with
  | case1 cs ih => exact .keep (.space isSpace_plain ih)
  | case2 c cs hne ih => exact .keep ih
  | case3 => exact .nil

theorem leavesOut_closeUpBeforeClose (cs : List Char) : LeavesOut cs (closeUpBeforeClose cs) := by
  fun_induction closeUpBeforeClose cs with
  | case1 cs ih => exact .space isSpace_plain (.keep ih)
  | case2 c cs hne ih => exact .keep ih
  | case3 => exact .nil

theorem LeavesOut.ink_eq (h : LeavesOut cs ds) : ink ds = ink cs := by
  induction h with
  | nil => rfl
  | keep _ ih => exact ink_cons ih _
  | space hc _ ih => rw [ink_cons_space hc, ih]

theorem LeavesOut.subset (h : LeavesOut cs ds) : ds ⊆ cs := by
  induction h with
  | nil => exact List.Subset.refl []
  | keep _ ih => exact List.cons_subset_cons _ ih
  | space _ _ ih => exact List.subset_cons_of_subset _ ih

theorem LeavesOut.first (h : LeavesOut cs ds) (hfirst : ∀ c ∈ cs.head?, isSpace c = false) :
    ∀ c ∈ ds.head?, isSpace c = false := by
  cases h with
  | nil => exact hfirst
  | keep _ => exact hfirst
  | @space c _ _ hc _ =>
    rw [hfirst c rfl] at hc
    contradiction

theorem LeavesOut.exists_last (h : LeavesOut (cs ++ [c]) ds) (hc : isSpace c = false) :
    ∃ es, ds = es ++ [c] := by
  induction cs generalizing ds with
  | nil =>
    cases h with
    | keep h =>
      cases h
      exact ⟨[], rfl⟩
    | space hspace _ =>
      rw [hc] at hspace
      contradiction
  | cons d cs ih =>
    cases h with
    | keep h =>
      obtain ⟨es, rfl⟩ := ih h
      exact ⟨d :: es, rfl⟩
    | space _ h => exact ih h

theorem LeavesOut.last (h : LeavesOut cs ds) (hlast : ∀ c ∈ cs.getLast?, isSpace c = false) :
    ∀ c ∈ ds.getLast?, isSpace c = false := by
  rcases List.eq_nil_or_concat' cs with rfl | ⟨cs, c, rfl⟩
  · cases h
    exact hlast
  · have hc : isSpace c = false := hlast c List.getLast?_concat
    obtain ⟨es, rfl⟩ := h.exists_last hc
    rw [List.getLast?_concat]
    rintro d ⟨⟩
    exact hc

/-! ## All steps -/

/-- Closing up does the rest, once the spaces are single and the ends are clean. -/
theorem isNormal_closeUp (hplain : ∀ c ∈ cs, isSpace c = true → c = ' ')
    (hfirst : ∀ c ∈ cs.head?, isSpace c = false) (hlast : ∀ c ∈ cs.getLast?, isSpace c = false)
    (hsingle : NeverBehind ' ' ' ' cs) :
    IsNormal (closeUpBeforeClose (closeUpAfterOpen cs)) := by
  have hopen := leavesOut_closeUpAfterOpen cs
  have hclose := leavesOut_closeUpBeforeClose (closeUpAfterOpen cs)
  have hsingle' := single_closeUpAfterOpen hsingle
  exact {
    plain := fun c hc => hplain c (hopen.subset (hclose.subset hc))
    first := hclose.first (hopen.first hfirst)
    last := hclose.last (hopen.last hlast)
    single := neverBehind_closeUpBeforeClose (by decide) hsingle'
    afterOpen := neverBehind_closeUpBeforeClose (by decide) (afterOpen_closeUpAfterOpen hsingle)
    beforeClose := beforeClose_closeUpBeforeClose hsingle' }

theorem isNormal_normal (cs : List Char) : IsNormal (normal cs) := by
  have hinside := trim_inside (collapse cs)
  have hplain : ∀ c ∈ trim isSpace (collapse cs), isSpace c = true → c = ' ' :=
    fun c hc => plain_collapse cs c (hinside.subset hc)
  have hsingle : NeverBehind ' ' ' ' (trim isSpace (collapse cs)) :=
    List.IsChain.infix (single_collapse cs) hinside
  exact isNormal_closeUp hplain (first_trim _) (last_trim _) hsingle

theorem normal_eq_self (h : IsNormal cs) : normal cs = cs := by
  rw [normal, collapse_eq_self h.plain h.single, trim_eq_self h.first h.last,
    closeUpAfterOpen_eq_self h.afterOpen, closeUpBeforeClose_eq_self h.beforeClose]

theorem ink_normal (cs : List Char) : ink (normal cs) = ink cs := by
  rw [normal, (leavesOut_closeUpBeforeClose _).ink_eq, (leavesOut_closeUpAfterOpen _).ink_eq,
    ink_trim, ink_collapse]

end Spacing

open Spacing (IsNormal ink)

/-- Normalizing gives a text in normal spacing, with the same characters but for the spaces. It
changes no text that is in normal spacing, so to normalize twice is to normalize once. -/
theorem normalizeSpacing_normal_form (source : String) :
    normalizeSpacing (normalizeSpacing source) = normalizeSpacing source ∧
    IsNormal (normalizeSpacing source).toList ∧
    ink (normalizeSpacing source).toList = ink source.toList ∧
    (IsNormal source.toList ↔ normalizeSpacing source = source) := by
  have hnormal : ∀ s : String, IsNormal (normalizeSpacing s).toList := by
    intro s
    rw [toList_normalizeSpacing]
    exact Spacing.isNormal_normal s.toList
  have hfixed : ∀ s : String, IsNormal s.toList → normalizeSpacing s = s := by
    intro s hs
    rw [normalizeSpacing, Spacing.normal_eq_self hs, String.ofList_toList]
  refine ⟨hfixed _ (hnormal source), hnormal source, ?_, hfixed source, fun h => ?_⟩
  · rw [toList_normalizeSpacing, Spacing.ink_normal]
  · rw [← h]
    exact hnormal source

end StackLisp.Text
