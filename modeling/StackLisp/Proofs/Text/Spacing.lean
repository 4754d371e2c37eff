import Mathlib.Data.List.Basic
import StackLisp.Text.Spacing

/-!
# Spaces and parentheses

What the steps of normal spacing do to a piece of text without spaces, and to a space between
two such pieces. A step leaves a piece as it is, whatever parentheses are in it, and takes a
space away only where a parenthesis touches it.
-/

namespace StackLisp.Text.Spacing

/-- A space, or none. -/
def room (b : Bool) : List Char := if b then [' '] else []

variable {a w cs : List Char} {c : Char} {b b' : Bool}

theorem isSpace_plain : isSpace ' ' = true := by decide

theorem closeUpAfterOpen_cons (h : c = '(' → ∀ d ∈ cs.head?, d ≠ ' ') :
    closeUpAfterOpen (c :: cs) = c :: closeUpAfterOpen cs := by
  rw [closeUpAfterOpen]
  rintro rest rfl rfl
  exact h rfl ' ' rfl rfl

theorem closeUpBeforeClose_cons (h : c = ' ' → ∀ d ∈ cs.head?, d ≠ ')') :
    closeUpBeforeClose (c :: cs) = c :: closeUpBeforeClose cs := by
  rw [closeUpBeforeClose]
  rintro rest rfl rfl
  exact h rfl ')' rfl rfl

/-- A space goes where a closing parenthesis comes next. -/
theorem closeUpBeforeClose_space :
    closeUpBeforeClose (' ' :: ')' :: cs) = closeUpBeforeClose (')' :: cs) := by
  have hclose : ')' ≠ ' ' := by decide
  rw [closeUpBeforeClose_cons fun h => absurd h hclose, closeUpBeforeClose]

theorem closeUpAfterOpen_append (ha : ∀ c ∈ a, c ≠ ' ') (hl : ∀ c ∈ a.getLast?, c ≠ '(') :
    closeUpAfterOpen (a ++ cs) = a ++ closeUpAfterOpen cs := by
  induction a with
  | nil => rfl
  | cons c a ih =>
    have hnext : c = '(' → ∀ d ∈ (a ++ cs).head?, d ≠ ' ' := by
      intro hc
      cases a with
      | nil => exact absurd hc (hl c rfl)
      | cons d a =>
        rintro e ⟨⟩
        exact ha d (List.mem_cons_of_mem c List.mem_cons_self)
    have hrec := ih (fun d hd => ha d (List.mem_cons_of_mem c hd)) fun d hd =>
      hl d (by rw [List.getLast?_cons, hd]; rfl)
    rw [List.cons_append, closeUpAfterOpen_cons hnext, hrec, List.cons_append]

theorem closeUpBeforeClose_append (ha : ∀ c ∈ a, c ≠ ' ') :
    closeUpBeforeClose (a ++ cs) = a ++ closeUpBeforeClose cs := by
  induction a with
  | nil => rfl
  | cons c a ih =>
    have hc : c ≠ ' ' := ha c List.mem_cons_self
    rw [List.cons_append, closeUpBeforeClose_cons fun h => absurd h hc,
      ih fun d hd => ha d (List.mem_cons_of_mem c hd), List.cons_append]

theorem collapse_of_not_isSpace (h : isSpace c = false) :
    collapse (c :: cs) = c :: collapse cs := by
  rw [collapse, h, if_neg Bool.false_ne_true]

theorem collapse_append (ha : ∀ c ∈ a, isSpace c = false) :
    collapse (a ++ cs) = a ++ collapse cs := by
  induction a with
  | nil => rfl
  | cons c a ih =>
    rw [List.cons_append, collapse_of_not_isSpace (ha c List.mem_cons_self),
      ih fun d hd => ha d (List.mem_cons_of_mem c hd), List.cons_append]

theorem collapse_head (h : ∀ c ∈ cs.head?, isSpace c = false) :
    ∀ c ∈ (collapse cs).head?, c ≠ ' ' := by
  cases cs with
  | nil => simp [collapse]
  | cons c cs =>
    have hc := h c rfl
    rw [collapse_of_not_isSpace hc]
    rintro d ⟨⟩ rfl
    contradiction

theorem collapse_space (hc : isSpace c = true) (h : ∀ d ∈ (collapse cs).head?, d ≠ ' ') :
    collapse (c :: cs) = ' ' :: collapse cs := by
  rw [collapse, if_pos hc]
  split
  next rest heq =>
    rw [heq] at h
    exact absurd rfl (h ' ' rfl)
  next => rfl

/-- Spaces become one space, if what follows starts with no further one. -/
theorem collapse_spaces (hw : ∀ c ∈ w, isSpace c = true) (h : ∀ c ∈ cs.head?, isSpace c = false) :
    collapse (w ++ cs) = room (!w.isEmpty) ++ collapse cs := by
  induction w with
  | nil => rfl
  | cons c w ih =>
    have hc := hw c List.mem_cons_self
    cases w with
    | nil => exact collapse_space hc (collapse_head h)
    | cons d w =>
      have hrec : collapse (d :: w ++ cs) = ' ' :: collapse cs :=
        ih fun e he => hw e (List.mem_cons_of_mem c he)
      rw [List.cons_append, collapse, if_pos hc, hrec]
      rfl

theorem dropWhile_room (h : ∀ c ∈ cs.head?, isSpace c = false) :
    (room b ++ cs).dropWhile isSpace = cs := by
  have hcs : cs.dropWhile isSpace = cs := by
    cases cs with
    | nil => rfl
    | cons c cs => exact List.dropWhile_cons_of_neg (by simp [h c rfl])
  cases b with
  | false => exact hcs
  | true => exact (List.dropWhile_cons_of_pos isSpace_plain).trans hcs

theorem trim_room (hne : cs ≠ []) (hh : ∀ c ∈ cs.head?, isSpace c = false)
    (hl : ∀ c ∈ cs.getLast?, isSpace c = false) :
    trim isSpace (room b ++ cs ++ room b') = cs := by
  have hhead : ∀ c ∈ (cs ++ room b').head?, isSpace c = false := by
    rwa [List.head?_append_of_ne_nil _ hne]
  have hlast : ∀ c ∈ cs.reverse.head?, isSpace c = false := by
    rwa [List.head?_reverse]
  have hroom : (room b').reverse = room b' := by
    cases b' with
    | false => rfl
    | true => rfl
  rw [trim, List.append_assoc, dropWhile_room hhead, List.reverse_append, hroom,
    dropWhile_room hlast, List.reverse_reverse]

end StackLisp.Text.Spacing
