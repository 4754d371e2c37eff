import StackLisp.Proofs.Grammar.Licensed
import StackLisp.Proofs.Numeral.Writable

/-!
# Sound trees

The stages behind the reader take any tree, also one that was put together by hand. What they
cannot work on is a foreign value, or an integer that is too long to be written. A tree is
sound if it holds neither, at any depth. Every tree that was read is sound, whatever its
tokens were: among data an integer may be far beyond the range of code, but it was read, so it
can be written.
-/

namespace StackLisp

open Grammar

variable {mode inner : Mode} {n m : Node}

namespace Node

/-- What the stages ask of a node, whatever is below it. -/
def IsProper : Node → Prop
  | .integer n => Numeral.IsWritable n
  | .foreign _ => False
  | .application .. | .lambda .. | .quote .. | .list _ | .float _ | .string _ | .symbol _ => True

/-- Every place of a tree holds a proper node. -/
def Sound (mode : Mode) (n : Node) : Prop := ∀ inner m, Inside mode n inner m → m.IsProper

theorem Below.sizeOf_lt (h : Below mode n inner m) : sizeOf m < sizeOf n := by
  cases h with
  | operator =>
    rw [application.sizeOf_spec]
    omega
  | body =>
    rw [lambda.sizeOf_spec]
    omega
  | operand hm =>
    have hlt := List.sizeOf_lt_of_mem hm
    rw [application.sizeOf_spec]
    omega
  | datum hm =>
    have hlt := List.sizeOf_lt_of_mem hm
    rw [quote.sizeOf_spec]
    omega
  | item hm =>
    have hlt := List.sizeOf_lt_of_mem hm
    rw [list.sizeOf_spec]
    omega

/-- Induction over places: what holds at a place if it holds directly below it holds at all. -/
theorem below_induct {motive : Mode → Node → Prop}
    (step : ∀ mode n, (∀ inner m, Below mode n inner m → motive inner m) → motive mode n)
    (mode : Mode) (n : Node) : motive mode n :=
  step mode n fun inner m _ => below_induct step inner m
termination_by sizeOf n
decreasing_by exact Below.sizeOf_lt ‹_›

theorem Sound.isProper (h : n.Sound mode) : n.IsProper := h mode n .root

theorem Sound.of_below (h : n.Sound mode) (hb : Below mode n inner m) : m.Sound inner :=
  fun inner' k hi => h inner' k (.deeper hb hi)

/-- Induction over sound trees, where each place holds a proper node. -/
theorem Sound.induct {motive : Node → Prop}
    (step : ∀ mode n, n.IsProper → (∀ inner m, Below mode n inner m → motive m) → motive n)
    (h : n.Sound mode) : motive n := by
  refine below_induct (motive := fun mode n => n.Sound mode → motive n) ?_ mode n h
  intro mode n ih h
  exact step mode n h.isProper fun inner m hb => ih inner m hb (h.of_below hb)

end Node

namespace Grammar

theorem IsAtom.isProper {t : Token} (h : IsAtom mode t n) : n.IsProper := by
  cases h with
  | integer _ hr _ => exact Numeral.isWritable_of_readInteger hr
  | float _ _ _ | string _ | symbol _ => trivial

/-- The root of a tree that is spelled is proper. -/
theorem Spells.isProper {ts : List Token} (h : Spells mode ts n) : n.IsProper := by
  cases mode with
  | code =>
    cases h with
    | atom ha => exact ha.isProper
    | lambda _ _ _ | quote _ _ _ _ | application _ _ _ _ _ => trivial
  | data =>
    cases h with
    | atom ha => exact ha.isProper
    | list _ _ _ => trivial

theorem Spells.sound {ts : List Token} (h : Spells mode ts n) : n.Sound mode := by
  intro inner m hi
  obtain ⟨us, -, hu⟩ := h.inside hi
  exact hu.isProper

end Grammar

/-- Whatever tokens are parsed into is sound. -/
theorem sound_of_parse {ts : List Token} (h : parse ts = .ok n) : n.Sound .code := by
  have hs : Spells .code ts n := parse_eq_ok_iff_isExpr.mp h
  exact hs.sound

end StackLisp
