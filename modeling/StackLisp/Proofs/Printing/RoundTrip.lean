import StackLisp.Parse
import StackLisp.Proofs.Grammar.Acceptance
import StackLisp.Proofs.Printing.Code
import StackLisp.Proofs.Printing.Data

/-!
# Rendering and reading

What is rendered can be read again, and gives the same tree. This holds of every tree that
was read from a source, whatever its spacing and its spelling of numbers were, and of every
tree put together by hand that keeps to the rules of names, numbers and strings.
-/

namespace StackLisp

open Grammar Lexical

/-- A text that is laid out is read as what its tokens spell. -/
theorem RendersExpr.parseSource {text : String} {ts : List Token} {n : Node}
    (h : RendersExpr text ts n) : parseSource Table.standard text = .ok n := by
  obtain ⟨us, hscan, hshape⟩ := scanFrom_of_laid h.laid .start []
  have hspells : IsExpr us n := h.spells.of_shape us hshape
  rw [parseSource_of_scan hscan, parse_eq_ok_iff_isExpr.mpr hspells]
  rfl

theorem Prints.parse_render {n : Node} (h : Prints n) :
    ∃ text, n.render = .ok text ∧ parseSource Table.standard text = .ok n := by
  rcases h with ⟨text, ts, ht⟩
  exact ⟨text, ht.rendered, ht.parseSource⟩

theorem exists_tokens_of_parseSource {table : Table} {source : String} {n : Node}
    (h : parseSource table source = .ok n) :
    ∃ ts, scan table source = .ok ts ∧ IsExpr ts n := by
  obtain ⟨ts, hscan, hparse⟩ := exists_of_bind_eq_ok h
  exact ⟨ts, eq_ok_of_mapError hscan, parse_eq_ok_iff_isExpr.mp (eq_ok_of_mapError hparse)⟩

/-! ## Trees that were read -/

/-- What tokens of the standard table spell can be printed. -/
theorem prints_of_isExpr {ts : List Token} {n : Node} (h : IsExpr ts n)
    (hl : ∀ t ∈ ts, t.IsLexical) : Prints n := by
  refine h.induct (motive := fun ts n => (∀ t ∈ ts, t.IsLexical) → Prints n)
    ?atom ?lambda ?quote ?application hl
  case atom =>
    intro t n ha hl
    exact .atom (wellFormedAtom_of_isAtom (hl t List.mem_cons_self) ha)
  case lambda =>
    intro head body stop names n hh _ ih _ hl
    obtain @⟨start, keyword, left, right, ps, _, _, _, hps, hnd, _⟩ := hh
    refine .lambda ?_ hnd (ih fun t ht => hl t (by simp [ht]))
    intro name hname
    obtain ⟨p, hp, rfl⟩ := List.mem_map.mp hname
    have hlex : p.IsLexical := hl p (by simp [hp])
    rw [Token.IsLexical, hps p hp] at hlex
    cases hlex with
    | symbol hn => exact hn
  case quote =>
    intro start keyword stop ts ns _ _ hd _ hl
    exact .quote (fun t ht => hl t (by simp [ht])) hd
  case application =>
    intro start first stop fs ts f ns _ hk hf ih _ ihs _ hl
    have hoperator : ∀ t ∈ first :: fs, t.IsLexical := fun t ht => hl t <|
      List.mem_append_left _ (List.mem_append_left _ (List.mem_cons_of_mem start ht))
    refine .application (ih hoperator) ?_ (printsAll_of_forall fun n hn => ?_)
    · rintro name rfl
      rw [hf.word_eq name rfl]
      exact hk
    · obtain ⟨us, hus, hu⟩ := ihs.exists_of_mem hn
      exact hu fun t ht => hl t (List.mem_append_left _ (List.mem_append_right _ (hus ht)))

/-- Reading, rendering and reading again gives the tree that was read first. -/
theorem parse_render_of_parse {source : String} {n : Node}
    (h : parseSource Table.standard source = .ok n) :
    ∃ text, n.render = .ok text ∧ parseSource Table.standard text = .ok n := by
  obtain ⟨ts, hscan, hspells⟩ := exists_tokens_of_parseSource h
  exact (prints_of_isExpr hspells (isLexical_of_scanFrom hscan)).parse_render

/-- A tree with a negative zero, an empty quote and a keyword as a parameter. -/
def spelledTree : Node :=
  .application (.lambda ["quote"] (.float (.finite true ⟨0, by decide⟩)))
    [.quote "" [], .quote "(007)" [.list [.integer 7]]]

theorem parse_render_of_parse_spelledTree :
    ∃ text, spelledTree.render = .ok text ∧
      parseSource Table.standard text = .ok spelledTree := by
  have hscan : scan Table.standard "((lambda (quote) -0.00)(quote)(quote( 007)))" =
      .ok [⟨.openParen, "(", 1, 0, 0⟩, ⟨.openParen, "(", 1, 1, 1⟩, ⟨.symbol, "lambda", 1, 2, 2⟩,
        ⟨.openParen, "(", 1, 9, 9⟩, ⟨.symbol, "quote", 1, 10, 10⟩, ⟨.closeParen, ")", 1, 15, 15⟩,
        ⟨.float, "-0.00", 1, 17, 17⟩, ⟨.closeParen, ")", 1, 22, 22⟩, ⟨.openParen, "(", 1, 23, 23⟩,
        ⟨.symbol, "quote", 1, 24, 24⟩, ⟨.closeParen, ")", 1, 29, 29⟩, ⟨.openParen, "(", 1, 30, 30⟩,
        ⟨.symbol, "quote", 1, 31, 31⟩, ⟨.openParen, "(", 1, 36, 36⟩, ⟨.integer, "007", 1, 38, 38⟩,
        ⟨.closeParen, ")", 1, 41, 41⟩, ⟨.closeParen, ")", 1, 42, 42⟩,
        ⟨.closeParen, ")", 1, 43, 43⟩] := by
    decide +kernel
  have hzero : Numeral.readFraction "-0.00" = .ok (.finite true ⟨0, by decide⟩) := by
    decide +kernel
  have hseven : Numeral.readInteger "007" = .ok 7 := by
    decide +kernel
  have hparse : parseSource Table.standard "((lambda (quote) -0.00)(quote)(quote( 007)))" =
      .ok spelledTree := by
    rw [parseSource, hscan]
    simp [parse, Reading.form, State.run, State.step, State.form, State.deliver, State.close,
      Node.ofAtom, hzero, hseven, Token.joinText, Token.apart, Numeral.Binary64.isFinite,
      Except.mapError, bind, Except.bind, pure, Except.pure, spelledTree]
  exact parse_render_of_parse hparse

/-! ## Trees put together by hand -/

inductive WellFormedDatum : Node → Prop
  | atom {n : Node} : WellFormedAtom .data n → WellFormedDatum n
  | list {ns : List Node} : (∀ n ∈ ns, WellFormedDatum n) → WellFormedDatum (.list ns)

/-- The trees that are read back. Keywords are forbidden as operators only. The raw text of a
quote is that of its data, with a space between two of them. -/
inductive WellFormed : Node → Prop
  | atom {n : Node} : WellFormedAtom .code n → WellFormed n
  | lambda {names : List String} {body : Node} : (∀ name ∈ names, IsName name.toList) →
      names.Nodup → WellFormed body → WellFormed (.lambda names body)
  | quote {texts : List String} {ns : List Node} : (∀ n ∈ ns, WellFormedDatum n) →
      Node.renderAll ns = .ok texts → WellFormed (.quote (Node.spaced texts) ns)
  | application {f : Node} {ns : List Node} : WellFormed f → f ≠ .symbol "lambda" →
      f ≠ .symbol "quote" → (∀ n ∈ ns, WellFormed n) → WellFormed (.application f ns)

theorem exists_rendersDatum_of_wellFormed {n : Node} (h : WellFormedDatum n) :
    ∃ ts, RendersDatum ts n := by
  induction h with
  | atom ha =>
    obtain ⟨t, ht, hatom, htext⟩ := exists_token_of_atom ha
    exact ⟨[t], htext, by simpa using ht, .atom hatom⟩
  | list _ ih =>
    obtain ⟨ts, ht⟩ := exists_each_rendersDatum ih
    exact ⟨_, .list ht⟩

theorem prints_of_wellFormed {n : Node} (h : WellFormed n) : Prints n := by
  induction h with
  | atom ha => exact .atom ha
  | lambda hn hd _ ih => exact .lambda hn hd ih
  | @quote texts ns hs hall =>
    obtain ⟨ts, ht⟩ :=
      exists_each_rendersDatum fun n hn => exists_rendersDatum_of_wellFormed (hs n hn)
    obtain ⟨texts', hall', hspaced⟩ := (ht.imp fun _ _ hr => hr.respaced).exists_spaced
    obtain rfl := Except.ok.inj (hall.symm.trans hall')
    rw [hspaced]
    exact .quote ht.isLexical (ht.imp fun _ _ hr => hr.spells)
  | @application f ns _ hl hq _ ih ihs =>
    refine .application ih ?_ (printsAll_of_forall ihs)
    rintro name rfl (rfl | rfl)
    · contradiction
    · contradiction

/-- Rendering a tree that is well formed and reading the text gives the tree back. -/
theorem parse_render_of_wellFormed {n : Node} (h : WellFormed n) :
    ∃ text, n.render = .ok text ∧ parseSource Table.standard text = .ok n :=
  (prints_of_wellFormed h).parse_render

/-- A tree with keywords as operands, as parameters and as data, a string that holds a
parenthesis and a line feed, the smallest positive number, and a name like a numeral. -/
def keywordTree : Node :=
  .application (.lambda ["lambda", "quote"] (.symbol "quote"))
    [.symbol "lambda", .string "\") \n\"", .float (.finite true ⟨1, by decide⟩),
      .quote "quote -1 (- ())" [.symbol "quote", .integer (-1), .list [.symbol "-", .list []]]]

theorem parse_render_of_wellFormed_keywordTree :
    ∃ text, keywordTree.render = .ok text ∧
      parseSource Table.standard text = .ok keywordTree := by
  have hlambda : WellFormed (.lambda ["lambda", "quote"] (.symbol "quote")) :=
    .lambda (by decide) (by decide) (.atom (.symbol (by decide)))
  have hbody : '\x22' ∉ [')', ' ', '\n'] := by
    decide
  have hstring : Valid .string "\") \n\"".toList := .string hbody
  have hminus : Mode.Admits .data (-1) := by
    unfold Mode.Admits
    decide
  have hlist : WellFormedDatum (.list [.symbol "-", .list []]) :=
    .list (List.forall_mem_cons.mpr ⟨.atom (.symbol (by decide)),
      List.forall_mem_singleton.mpr (.list (by simp))⟩)
  have hdata : ∀ d ∈ [Node.symbol "quote", .integer (-1), .list [.symbol "-", .list []]],
      WellFormedDatum d :=
    List.forall_mem_cons.mpr ⟨.atom (.symbol (by decide)), List.forall_mem_cons.mpr
      ⟨.atom (.integer hminus), List.forall_mem_singleton.mpr hlist⟩⟩
  have hrender : Node.renderAll [.symbol "quote", .integer (-1), .list [.symbol "-", .list []]] =
      .ok ["quote", "-1", "(- ())"] := by
    rfl
  have hraw : Node.spaced ["quote", "-1", "(- ())"] = "quote -1 (- ())" := by
    decide
  have hquote := WellFormed.quote hdata hrender
  rw [hraw] at hquote
  have hwell : WellFormed keywordTree := by
    refine .application hlambda (by simp) (by simp) (List.forall_mem_cons.mpr ⟨?_,
      List.forall_mem_cons.mpr ⟨?_, List.forall_mem_cons.mpr ⟨?_,
        List.forall_mem_singleton.mpr hquote⟩⟩⟩)
    · exact .atom (.symbol (by decide))
    · exact .atom (.string hstring)
    · exact .atom (.float rfl)
  exact parse_render_of_wellFormed hwell

end StackLisp
