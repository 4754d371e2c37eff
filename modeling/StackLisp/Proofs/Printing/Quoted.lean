import StackLisp.Proofs.Printing.Respacing

/-!
# The two sides of a quote

A quote keeps what it holds twice: as trees, which are built token by token, and as a text, which
is joined from the tokens when the quote is closed. Both come from the tokens between the keyword
and the parenthesis that closes the quote. Read from left to right, the trees are these tokens one
for one, with numerals converted and without regard to their range. If the numerals are canonical,
nothing is lost in the conversion, and the text is what rendering the trees gives.
-/

namespace StackLisp

open Grammar

/-! ## From left to right -/

/-- What data are written with. -/
inductive Leaf where
  | opening
  | closing
  | atom (node : Node)

namespace Node

mutual

/-- A datum from left to right: a list is its items between parentheses, and everything else
stands for itself. -/
def leaves : Node → List Leaf
  | .list items => .opening :: leavesAll items ++ [.closing]
  | n => [.atom n]

def leavesAll : List Node → List Leaf
  | [] => []
  | n :: ns => n.leaves ++ leavesAll ns

end

end Node

/-- The token is written for the leaf. The number of an atom is converted and not checked. -/
def Token.Shows (t : Token) : Leaf → Prop
  | .opening => t.shape = opening.shape
  | .closing => t.shape = closing.shape
  | .atom n => Node.ofAtom .data t = .ok n

section Data
variable {ts : List Token} {n : Node} {ns : List Node}

theorem Token.HasParenText.shows_opening {t : Token} (h : t.HasParenText)
    (hk : t.kind = .openParen) : t.Shows .opening :=
  shape_eq_iff.mpr ⟨hk, h.openParen hk⟩

theorem Token.HasParenText.shows_closing {t : Token} (h : t.HasParenText)
    (hk : t.kind = .closeParen) : t.Shows .closing :=
  shape_eq_iff.mpr ⟨hk, h.closeParen hk⟩

namespace Grammar

theorem IsAtom.leaves_eq {mode : Mode} {t : Token} (h : IsAtom mode t n) :
    n.leaves = [.atom n] := by
  cases h with
  | integer _ _ _ | float _ _ _ | string _ | symbol _ => rfl

/-- The tokens show the leaves of the datum, if their parentheses are written as such. -/
def ShowsLeaves (ts : List Token) (n : Node) : Prop :=
  (∀ t ∈ ts, t.HasParenText) → List.Forall₂ Token.Shows ts n.leaves

theorem Each.shows_leavesAll (h : Each ShowsLeaves ts ns) (hp : ∀ t ∈ ts, t.HasParenText) :
    List.Forall₂ Token.Shows ts (Node.leavesAll ns) := by
  induction h with
  | nil => exact .nil
  | cons hr _ ih =>
    rw [List.forall_mem_append] at hp
    exact List.rel_append (hr hp.1) (ih hp.2)

theorem IsDatum.showsLeaves (h : IsDatum ts n) : ShowsLeaves ts n := by
  refine h.induct ?atom ?list
  case atom =>
    intro t n ha _
    rw [ha.leaves_eq]
    exact .cons (ofAtom_eq_ok_iff.mpr ha) .nil
  case list =>
    intro start stop ts ns hl _ ih hr hp
    have hopen : start.Shows .opening := (hp start (by simp)).shows_opening hl
    have hclose : stop.Shows .closing := (hp stop (by simp)).shows_closing hr
    have hitems := ih.shows_leavesAll fun t ht => hp t (by simp [ht])
    exact List.rel_append (.cons hopen hitems) (.cons hclose .nil)

/-! ## Rendering again -/

/-- The tokens are in normal spacing what the datum is rendered as, if nothing is lost. -/
def RespacedIfPlain (ts : List Token) (n : Node) : Prop :=
  (∀ t ∈ ts, t.HasParenText) → (∀ t ∈ ts, t.IsCanonical) → Respaced ts n

theorem Each.respaced (h : Each RespacedIfPlain ts ns) (hp : ∀ t ∈ ts, t.HasParenText)
    (hc : ∀ t ∈ ts, t.IsCanonical) : Each Respaced ts ns := by
  induction h with
  | nil => exact .nil
  | cons hr _ ih =>
    rw [List.forall_mem_append] at hp hc
    exact .cons (hr hp.1 hc.1) (ih hp.2 hc.2)

theorem IsDatum.respacedIfPlain (h : IsDatum ts n) : RespacedIfPlain ts n := by
  refine h.induct ?atom ?list
  case atom =>
    intro t n ha _ hc
    exact ⟨Token.standsAlone_singleton ha.kind_ne, render_atom ha (hc t List.mem_cons_self)⟩
  case list =>
    intro start stop ts ns hl _ ih hr hp hc
    have hitems := ih.respaced (fun t ht => hp t (by simp [ht])) fun t ht => hc t (by simp [ht])
    obtain ⟨texts, hall, hspaced⟩ := hitems.exists_spaced
    refine ⟨Token.standsAlone_parenthesized hl hr, ?_⟩
    rw [Token.joinText_of_parens hl hr (hp start (by simp)) (hp stop (by simp)), ← hspaced,
      Node.render, hall]
    rfl

end Grammar

end Data

/-! ## Quotes in a tree -/

namespace Grammar

variable {ts us : List Token} {n m : Node} {ns : List Node}

/-- Every place of code in a tree is one of the expressions that the tokens are made of. -/
def HasParts (ts : List Token) (n : Node) : Prop :=
  ∀ m, Node.Inside .code n .code m → ∃ us, IsPart us m ts n

/-- Only what is directly below has to be looked at. -/
theorem hasParts_of_below (h : IsExpr ts n)
    (hb : ∀ k m, Node.Below .code n .code k → Node.Inside .code k .code m →
      ∃ us, IsPart us m ts n) : HasParts ts n := by
  intro m hi
  cases hi with
  | root => exact ⟨ts, .self h⟩
  | @deeper _ middle _ _ k _ hbelow hi =>
    cases middle with
    | code => exact hb k m hbelow hi
    | data => exact absurd hi.mode_eq_data nofun

theorem IsExpr.hasParts (h : IsExpr ts n) : HasParts ts n := by
  -- The derivation is carried along, since it is what divides a sequence into its phrases.
  refine (h.induct (motive := fun ts n => IsExpr ts n ∧ HasParts ts n)
    ?atom ?lambda ?quote ?application).2
  case atom =>
    intro t n ha
    have hself : IsExpr [t] n := .atom ha
    refine ⟨hself, hasParts_of_below hself fun k m hb _ => ?_⟩
    cases ha with
    | integer _ _ _ | float _ _ _ | string _ | symbol _ => cases hb
  case lambda =>
    intro head body stop names n hh hbody ih hr
    have hself := IsExpr.lambda hh hbody hr
    refine ⟨hself, hasParts_of_below hself fun k m hb hi => ?_⟩
    cases hb with
    | body =>
      obtain ⟨us, hu⟩ := ih.2 m hi
      exact ⟨us, .body hh hu hr⟩
  case quote =>
    intro start keyword stop ts ns hl hw hd hr
    have hself := IsExpr.quote hl hw hd hr
    refine ⟨hself, hasParts_of_below hself fun k m hb _ => ?_⟩
    cases hb
  case application =>
    intro start first stop fs ts f ns hl hk hf ihf hs ihs hr
    have hself := IsExpr.application hl hk hf hs hr
    refine ⟨hself, hasParts_of_below hself fun k m hb hi => ?_⟩
    cases hb with
    | operator =>
      obtain ⟨us, hu⟩ := ihf.2 m hi
      exact ⟨us, .operator hl hk hu hs hr⟩
    | operand hmem =>
      have hamong := ihs.among
      obtain ⟨vs, -, ⟨-, hparts⟩, before, after, ns₁, ns₂, rfl, rfl, hbefore, hafter⟩ :=
        hamong.exists_of_mem hmem
      obtain ⟨us, hu⟩ := hparts m hi
      exact ⟨us, .operand hl hk hf (hbefore.imp fun _ _ h => h.1) hu
        (hafter.imp fun _ _ h => h.1) hr⟩

end Grammar

/-- The tokens of a quote, and among them those between its keyword and its last parenthesis. -/
inductive Quotation : List Token → List Token → Prop
  | mk {start keyword stop : Token} {inner : List Token} :
      start.kind = .openParen → keyword.text = "quote" → stop.kind = .closeParen →
      Quotation (start :: keyword :: inner ++ [stop]) inner

theorem Grammar.IsExpr.exists_quotation {us : List Token} {raw : String} {ns : List Node}
    (h : IsExpr us (.quote raw ns)) :
    ∃ inner, Quotation us inner ∧ Each IsDatum inner ns ∧ raw = Token.joinText inner := by
  cases h with
  | atom ha => cases ha
  | quote hl hw hd hr => exact ⟨_, .mk hl hw hr, hd, rfl⟩

theorem Quotation.subset {us inner : List Token} (h : Quotation us inner) : inner ⊆ us := by
  cases h
  intro t ht
  simp [ht]

/-- Both sides of a quote describe the tokens between its keyword and its last parenthesis, which
stand side by side among the tokens that were parsed. Its data are these tokens from left to right,
its text is their normal spacing, and if the numerals among them are canonical, the text is also
that of the data with single spaces in between. -/
theorem quote_keeps_data {ts : List Token} {n : Node} (hparse : parse ts = .ok n)
    (hparens : ∀ t ∈ ts, t.HasParenText) (raw : String) (ns : List Node) :
    ((∃ mode, Node.Inside .code n mode (.quote raw ns)) ↔
      ∃ us, IsPart us (.quote raw ns) ts n) ∧
    ∀ us, IsPart us (.quote raw ns) ts n → us <:+: ts ∧ ∃ inner, Quotation us inner ∧
      List.Forall₂ Token.Shows inner (Node.leavesAll ns) ∧
      raw = Token.joinText inner ∧
      ((∀ t ∈ inner, t.IsCanonical) →
        ∃ texts, Node.renderAll ns = .ok texts ∧ raw = Node.spaced texts) := by
  have hexpr : IsExpr ts n := parse_eq_ok_iff_isExpr.mp hparse
  constructor
  · constructor
    · rintro ⟨mode, hi⟩
      -- A quote is no datum, so it stands at a place of code.
      cases mode with
      | code => exact hexpr.hasParts _ hi
      | data => exact (hexpr.licensed .data _ hi).elim
    · rintro ⟨us, hpart⟩
      exact ⟨.code, hpart.inside⟩
  · intro us hpart
    obtain ⟨inner, hquote, hdata, hraw⟩ := hpart.isExpr.exists_quotation
    have hinner : ∀ t ∈ inner, t.HasParenText := fun t ht =>
      hparens t (hpart.subset (hquote.subset ht))
    have hshows : List.Forall₂ Token.Shows inner (Node.leavesAll ns) :=
      (hdata.imp fun _ _ hd => hd.showsLeaves).shows_leavesAll hinner
    refine ⟨hpart.isInfix, inner, hquote, hshows, hraw, fun hcanonical => ?_⟩
    have hrespaced : Each Respaced inner ns :=
      (hdata.imp fun _ _ hd => hd.respacedIfPlain).respaced hinner hcanonical
    obtain ⟨texts, hall, hspaced⟩ := hrespaced.exists_spaced
    exact ⟨texts, hall, hraw.trans hspaced.symm⟩

/-- The tokens of `(f (quote () ("( " -1)))`. -/
def nestedTokens : List Token :=
  [.opening, .bare .symbol "f", .opening, .bare .symbol "quote", .opening, .closing, .opening,
    .bare .string "\"( \"", .bare .integer "-1", .closing, .closing, .closing]

/-- What the quote among `nestedTokens` holds. -/
def nestedData : List Node := [.list [], .list [.string "\"( \"", .integer (-1)]]

theorem quote_keeps_data_nestedTokens :
    parse nestedTokens = .ok (.application (.symbol "f") [.quote "() (\"( \" -1)" nestedData]) ∧
    ∃ inner texts, List.Forall₂ Token.Shows inner (Node.leavesAll nestedData) ∧
      Node.renderAll nestedData = .ok texts ∧ "() (\"( \" -1)" = Node.spaced texts := by
  have hparse : parse nestedTokens =
      .ok (.application (.symbol "f") [.quote "() (\"( \" -1)" nestedData]) := by
    rfl
  have hparens : ∀ t ∈ nestedTokens, t.HasParenText := by
    have hkinds : ∀ t ∈ nestedTokens,
        (t.kind = .openParen → t.text = "(") ∧ (t.kind = .closeParen → t.text = ")") := by
      decide
    exact fun t ht => ⟨(hkinds t ht).1, (hkinds t ht).2⟩
  have hcanonical : ∀ t ∈ nestedTokens, t.IsCanonical := by
    have hkinds : ∀ t ∈ nestedTokens, (t.kind = .integer → t.text = "-1") ∧ t.kind ≠ .float := by
      decide
    intro t ht
    refine ⟨fun hk => ?_, fun hk => absurd hk (hkinds t ht).2⟩
    rw [(hkinds t ht).1 hk]
    rfl
  have hquote := quote_keeps_data hparse hparens "() (\"( \" -1)" nestedData
  obtain ⟨us, hpart⟩ := hquote.1.mp ⟨.code, .deeper (.operand List.mem_cons_self) .root⟩
  obtain ⟨-, inner, hinner, hshows, -, hrender⟩ := hquote.2 us hpart
  obtain ⟨texts, hall, hspaced⟩ := hrender fun t ht =>
    hcanonical t (hpart.subset (hinner.subset ht))
  exact ⟨hparse, inner, texts, hshows, hall, hspaced⟩

end StackLisp
