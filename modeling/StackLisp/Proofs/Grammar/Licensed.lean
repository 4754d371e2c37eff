import StackLisp.Proofs.Grammar.Acceptance

/-!
# What stands where in a tree

Code and data are trees of one type, and a tree may mix them at will. Trees that were read do
not. Every place of a tree has a mode, which is that of the place above it, save that a quote
has code above and data below. The mode says what may stand at the place: numbers in range and
no lists in code, lists and atoms only among data. Whatever the tokens were, each place of a
tree that was read holds what its mode allows, however deep it lies.
-/

namespace StackLisp

open Grammar

namespace Node

/-- A node stands directly below another one, each at a place of some mode. -/
inductive Below : Mode → Node → Mode → Node → Prop
  | operator {mode : Mode} {f : Node} {ns : List Node} : Below mode (.application f ns) mode f
  | operand {mode : Mode} {f n : Node} {ns : List Node} :
      n ∈ ns → Below mode (.application f ns) mode n
  | body {mode : Mode} {names : List String} {n : Node} : Below mode (.lambda names n) mode n
  | datum {mode : Mode} {raw : String} {n : Node} {ns : List Node} :
      n ∈ ns → Below mode (.quote raw ns) .data n
  | item {mode : Mode} {n : Node} {ns : List Node} : n ∈ ns → Below mode (.list ns) mode n

/-- A node stands somewhere in a tree, at its root or at any depth below. -/
inductive Inside : Mode → Node → Mode → Node → Prop
  | root {mode : Mode} {n : Node} : Inside mode n mode n
  | deeper {outer middle inner : Mode} {n m k : Node} :
      Below outer n middle m → Inside middle m inner k → Inside outer n inner k

end Node

/-- What a node may be at a place of a mode, whatever is below it. -/
def Mode.Licenses : Mode → Node → Prop
  | .code, .integer n => Node.minInteger ≤ n ∧ n ≤ Node.maxInteger
  | .code, .float x => x.isFinite = true
  | .code, .lambda names _ => names.Nodup
  | .code, .application f _ => ∀ word ∈ f.word?, ¬ IsKeyword word
  | .code, .quote .. | .code, .string _ | .code, .symbol _ => True
  | .code, .list _ | .code, .foreign _ => False
  | .data, .list _ | .data, .integer _ | .data, .float _ | .data, .string _
  | .data, .symbol _ => True
  | .data, .application .. | .data, .lambda .. | .data, .quote .. | .data, .foreign _ => False

/-- Every place of a tree holds what its mode allows. -/
def Node.Licensed (mode : Mode) (n : Node) : Prop :=
  ∀ inner m, Inside mode n inner m → inner.Licenses m

variable {mode inner : Mode} {ts : List Token} {n m : Node} {ns : List Node}

/-- Among data there is no code. -/
theorem Node.Inside.mode_eq_data (h : Inside .data n inner m) : inner = .data := by
  generalize houter : Mode.data = outer at h
  induction h with
  | root => rfl
  | deeper hb _ ih =>
    subst houter
    cases hb with
    | operator | operand _ | body | datum _ | item _ => exact ih rfl

namespace Grammar

theorem Each.forall_of_forall {R : List Token → Node → Prop} {P : Node → Prop}
    (h : Each R ts ns) (hR : ∀ ts n, R ts n → P n) : ∀ n ∈ ns, P n := by
  intro n hn
  rcases h.exists_of_mem hn with ⟨us, -, hu⟩
  exact hR us n hu

theorem IsAtom.licenses {t : Token} (h : IsAtom mode t n) : mode.Licenses n := by
  cases h with
  | integer _ _ hr =>
    cases mode with
    | code => exact hr rfl
    | data => trivial
  | float _ _ hx =>
    cases mode with
    | code => exact hx rfl
    | data => trivial
  | string _ | symbol _ =>
    cases mode with
    | code => trivial
    | data => trivial

/-- The root of a tree that is spelled holds what its mode allows. -/
theorem Spells.licenses (h : Spells mode ts n) : mode.Licenses n := by
  cases mode with
  | data =>
    cases h with
    | atom ha => exact ha.licenses
    | list _ _ _ => trivial
  | code =>
    cases h with
    | atom ha => exact ha.licenses
    | lambda hh _ _ =>
      rcases hh with @⟨_, _, _, _, _, _, _, _, _, hnd, _⟩
      exact hnd
    | quote _ _ _ _ => trivial
    | application _ hfirst hf _ _ =>
      intro word hw
      rw [hf.word_eq word hw]
      exact hfirst

/-- What stands directly below a tree that is spelled is spelled by some of the tokens. -/
theorem Spells.below (h : Spells mode ts n) (hb : Node.Below mode n inner m) :
    ∃ us, us ⊆ ts ∧ Spells inner us m := by
  cases mode with
  | data =>
    cases h with
    | atom ha =>
      cases ha with
      | integer _ _ _ | float _ _ _ | string _ | symbol _ => cases hb
    | list _ hs _ =>
      cases hb with
      | item hm =>
        obtain ⟨us, hus, hu⟩ := hs.exists_of_mem hm
        exact ⟨us, fun t ht => by simp [hus ht], hu⟩
  | code =>
    cases h with
    | atom ha =>
      cases ha with
      | integer _ _ _ | float _ _ _ | string _ | symbol _ => cases hb
    | @lambda head body stop names n _ hbody _ =>
      cases hb with
      | body => exact ⟨body, fun t ht => by simp [ht], hbody⟩
    | quote _ _ hs _ =>
      cases hb with
      | datum hm =>
        obtain ⟨us, hus, hu⟩ := hs.exists_of_mem hm
        exact ⟨us, fun t ht => by simp [hus ht], hu⟩
    | @application start first stop fs us f ns _ _ hf hs _ =>
      cases hb with
      | operator =>
        have hsub : first :: fs ⊆ start :: (first :: fs) ++ us ++ [stop] := fun t ht =>
          List.mem_append_left _ (List.mem_append_left _ (List.mem_cons_of_mem start ht))
        exact ⟨first :: fs, hsub, hf⟩
      | operand hm =>
        obtain ⟨vs, hvs, hv⟩ := hs.exists_of_mem hm
        exact ⟨vs, fun t ht => by simp [hvs ht], hv⟩

/-- Each place of a tree that is spelled is spelled by some of the tokens. -/
theorem Spells.inside (h : Spells mode ts n) (hi : Node.Inside mode n inner m) :
    ∃ us, us ⊆ ts ∧ Spells inner us m := by
  induction hi generalizing ts with
  | root => exact ⟨ts, List.Subset.refl ts, h⟩
  | deeper hb _ ih =>
    obtain ⟨us, hus, hu⟩ := h.below hb
    obtain ⟨vs, hvs, hv⟩ := ih hu
    exact ⟨vs, List.Subset.trans hvs hus, hv⟩

/-- The phrases of a mode spell trees that are licensed at its places. -/
theorem Spells.licensed (h : Spells mode ts n) : n.Licensed mode := by
  intro inner m hi
  obtain ⟨us, -, hu⟩ := h.inside hi
  exact hu.licenses

theorem IsExpr.licensed (h : IsExpr ts n) : n.Licensed .code := by
  have hs : Spells .code ts n := h
  exact hs.licensed

end Grammar

/-- Whatever is parsed or read from a list of tokens holds, at each of its places, what the mode
of the place allows. -/
theorem licensed_of_read (ts : List Token) :
    (∀ n, parse ts = .ok n → n.Licensed .code) ∧
    (∀ ns, ((Reader.ofTokens ts).call .all).1 = .ok (.forms ns) →
      ∀ n ∈ ns, n.Licensed .code) := by
  constructor
  · intro n h
    exact (parse_eq_ok_iff_isExpr.mp h).licensed
  · intro ns h
    have hforms := readForms_eq_ok_iff_each.mp (Reader.call_all_eq_ok_iff.mp h)
    exact hforms.forall_of_forall fun _ _ hn => hn.licensed

/-- Tokens with a keyword that is no symbol, a keyword as a parameter, and an integer beyond the
range of code inside a quote. -/
def oddTokens : List Token :=
  [⟨.openParen, "(", 1, 0, 0⟩, ⟨.openParen, "[", 1, 1, 1⟩, ⟨.float, "lambda", 1, 2, 2⟩,
    ⟨.openParen, "(", 1, 9, 9⟩, ⟨.symbol, "quote", 1, 10, 10⟩, ⟨.closeParen, ")", 1, 15, 15⟩,
    ⟨.integer, "-1", 1, 17, 17⟩, ⟨.closeParen, "]", 1, 19, 19⟩, ⟨.openParen, "(", 1, 21, 21⟩,
    ⟨.string, "quote", 1, 22, 22⟩, ⟨.openParen, "(", 1, 28, 28⟩,
    ⟨.symbol, "lambda", 1, 29, 29⟩, ⟨.integer, "9223372036854775808", 1, 36, 36⟩,
    ⟨.closeParen, ")", 1, 55, 55⟩, ⟨.closeParen, ")", 1, 56, 56⟩, ⟨.closeParen, ")", 1, 57, 57⟩]

theorem licensed_of_read_oddTokens :
    ∃ n, parse oddTokens = .ok n ∧ n.Licensed .code ∧
      Node.Inside .code n .data (.integer 9223372036854775808) := by
  have hparse : parse oddTokens = .ok (.application (.lambda ["quote"] (.integer (-1)))
      [.quote "(lambda 9223372036854775808)"
        [.list [.symbol "lambda", .integer 9223372036854775808]]]) := by
    rfl
  refine ⟨_, hparse, (licensed_of_read oddTokens).1 _ hparse, ?_⟩
  exact .deeper (.operand List.mem_cons_self) (.deeper (.datum List.mem_cons_self)
    (.deeper (.item (by simp)) .root))

end StackLisp
