import StackLisp.Proofs.Grammar.Window

/-!
# Code is data

An expression may be read as data too, as it would be inside a quote. Nothing is special there:
the special forms are lists that begin with their keywords, and the parameters of a lambda are a
list of symbols. Data are read by rules of their own, without ranges, without keywords and with
empty lists. But as long as keywords are symbols both readings take the same tokens, and the
data are those of the expression.
-/

namespace StackLisp

open Grammar

namespace Node

mutual

/-- The data that a tree is inside a quote. -/
def asData : Node → Node
  | .application f ns => .list (f.asData :: asDataAll ns)
  | .lambda names body => .list [.symbol "lambda", .list (names.map .symbol), body.asData]
  | .quote _ ns => .list (.symbol "quote" :: ns)
  | .list ns => .list ns
  | .integer n => .integer n
  | .float x => .float x
  | .string text => .string text
  | .symbol name => .symbol name
  | .foreign value => .foreign value

def asDataAll : List Node → List Node
  | [] => []
  | n :: ns => n.asData :: asDataAll ns

end

theorem asDataAll_eq_map (ns : List Node) : asDataAll ns = ns.map asData := by
  induction ns with
  | nil => rfl
  | cons n ns ih => rw [asDataAll, ih, List.map_cons]

end Node

/-- The keywords among the tokens are symbols. This is so in every source, but tokens that are
made by hand may have any kind. -/
def PlainKeywords (ts : List Token) : Prop := ∀ t ∈ ts, IsKeyword t.text → t.kind = .symbol

instance (ts : List Token) : Decidable (PlainKeywords ts) :=
  inferInstanceAs (Decidable (∀ t ∈ ts, IsKeyword t.text → t.kind = .symbol))

section Phrases
variable {ts us : List Token} {n : Node} {ns : List Node}

theorem PlainKeywords.of_subset (h : PlainKeywords ts) (hs : us ⊆ ts) : PlainKeywords us :=
  fun t ht => h t (hs ht)

namespace Grammar

theorem IsAtom.asData {t : Token} (h : IsAtom .code t n) : IsAtom .data t n.asData := by
  cases h with
  | integer hk hn _ => exact .integer hk hn nofun
  | float hk hx _ => exact .float hk hx nofun
  | string hk => exact .string hk
  | symbol hk => exact .symbol hk

theorem isDatum_symbol {t : Token} (h : t.kind = .symbol) : IsDatum [t] (.symbol t.text) :=
  .atom (.symbol h)

theorem each_isDatum_symbols (h : ∀ t ∈ ts, t.kind = .symbol) :
    Each IsDatum ts ((ts.map Token.text).map .symbol) := by
  induction ts with
  | nil => exact .nil
  | cons t ts ih =>
    have ht := isDatum_symbol (h t List.mem_cons_self)
    exact .cons ht (ih fun u hu => h u (List.mem_cons_of_mem t hu))

/-- Phrases that are data too, if their keywords are symbols. -/
def Quotes (ts : List Token) (n : Node) : Prop := PlainKeywords ts → IsDatum ts n.asData

theorem Each.asData (h : Each Quotes ts ns) (hk : PlainKeywords ts) :
    Each IsDatum ts (ns.map Node.asData) := by
  induction h with
  | nil => exact .nil
  | @cons ts us n ns hr _ ih =>
    have hn : IsDatum ts n.asData := hr (hk.of_subset (List.subset_append_left ts us))
    exact .cons hn (ih (hk.of_subset (List.subset_append_right ts us)))

theorem quotes_lambda {head body : List Token} {stop : Token} {names : List String}
    (hh : IsHead head names) (hb : Quotes body n) (hr : stop.kind = .closeParen) :
    Quotes (head ++ body ++ [stop]) (.lambda names n) := by
  intro hk
  have hbody : IsDatum body n.asData := hb (hk.of_subset fun t ht => by simp [ht])
  rcases hh with @⟨start, keyword, left, right, ps, hl, hw, hp, hps, _, hclose⟩
  have hname := isDatum_symbol (hk keyword (by simp) (.inl hw))
  have hparameters := IsDatum.list hp (each_isDatum_symbols hps) hclose
  have hitems := Each.cons hname (.cons hparameters (.cons hbody .nil))
  have hlist := IsDatum.list hl hitems hr
  simpa [Node.asData, hw] using hlist

theorem quotes_quote {start keyword stop : Token} (hl : start.kind = .openParen)
    (hw : keyword.text = "quote") (hs : Each IsDatum ts ns) (hr : stop.kind = .closeParen) :
    Quotes (start :: keyword :: ts ++ [stop]) (.quote (Token.joinText ts) ns) := by
  intro hk
  have hname := isDatum_symbol (hk keyword (by simp) (.inr hw))
  rw [hw] at hname
  exact .list hl (.cons hname hs) hr

theorem quotes_application {start stop : Token} {fs : List Token} {f : Node}
    (hl : start.kind = .openParen) (hf : Quotes fs f) (hs : Each Quotes ts ns)
    (hr : stop.kind = .closeParen) :
    Quotes (start :: fs ++ ts ++ [stop]) (.application f ns) := by
  intro hk
  have hoperator : IsDatum fs f.asData := hf (hk.of_subset fun t ht => by simp [ht])
  have hoperands := hs.asData (hk.of_subset fun t ht => by simp [ht])
  have hlist := IsDatum.list hl (.cons hoperator hoperands) hr
  rwa [← Node.asDataAll_eq_map] at hlist

/-- An expression whose keywords are symbols is a datum, spelled by the same tokens. -/
theorem IsExpr.quotes (h : IsExpr ts n) : Quotes ts n := by
  refine h.induct ?atom ?lambda ?quote ?application
  case atom => exact fun ha _ => .atom ha.asData
  case lambda =>
    intro head body stop names n hh _ ih hr
    exact quotes_lambda hh ih hr
  case quote =>
    intro start keyword stop ts ns hl hw hs hr
    exact quotes_quote hl hw hs hr
  case application =>
    intro start first stop fs ts f ns hl _ _ ih _ ihs hr
    exact quotes_application hl ih ihs hr

end Grammar

end Phrases

/-- Where an expression is read, its data can be read, and both readings take the same tokens.
Hence an expression may be put into a quote, which then holds its data. -/
theorem reading_as_data :
    (∀ (r r' : Reader) (n : Node), PlainKeywords r.tokens →
      r.call .form = (.ok (.form n), r') → r.call .datum = (.ok (.form n.asData), r')) ∧
    (∀ (ts : List Token) (n : Node), PlainKeywords ts → parse ts = .ok n →
      ∀ start keyword stop : Token, start.kind = .openParen → keyword.text = "quote" →
        stop.kind = .closeParen → parse (start :: keyword :: ts ++ [stop]) =
          .ok (.quote (Token.joinText ts) [n.asData])) := by
  constructor
  · intro r r' n hk h
    have hform : r.call (.ofMode .code) = (.ok (.form n), r') := h
    rcases Reader.call_ofMode_eq_ok_iff.mp hform with ⟨used, hused, hs, rfl⟩
    have hmem : used ⊆ r.tokens := fun t ht => List.mem_of_mem_drop (hused.subset ht)
    have hdatum : IsDatum used n.asData := IsExpr.quotes hs (hk.of_subset hmem)
    have hread : r.call (.ofMode .data) = (.ok (.form n.asData), r.advance used.length) :=
      Reader.call_ofMode_eq_ok_iff.mpr ⟨used, hused, hdatum, rfl⟩
    exact hread
  · intro ts n hk h start keyword stop hl hw hr
    have hdatum := (parse_eq_ok_iff_isExpr.mp h).quotes hk
    have hdata : Each IsDatum (ts ++ []) [n.asData] := .cons hdatum .nil
    rw [List.append_nil] at hdata
    exact parse_eq_ok_iff_isExpr.mpr (.quote hl hw hdata hr)

/-- The tokens of `((lambda (x) x) (quote ()))`. -/
def lambdaTokens : List Token :=
  [.opening, .opening, .bare .symbol "lambda", .opening, .bare .symbol "x", .closing,
    .bare .symbol "x", .closing, .opening, .bare .symbol "quote", .opening, .closing, .closing,
    .closing]

/-- What `lambdaTokens` are as data. -/
def lambdaData : Node :=
  .list [.list [.symbol "lambda", .list [.symbol "x"], .symbol "x"],
    .list [.symbol "quote", .list []]]

theorem reading_as_data_lambdaTokens :
    Reader.call ⟨lambdaTokens, 0⟩ .datum = (.ok (.form lambdaData), ⟨lambdaTokens, 14⟩) ∧
      parse (.opening :: .bare .symbol "quote" :: lambdaTokens ++ [.closing]) =
        .ok (.quote "((lambda (x) x) (quote ()))" [lambdaData]) := by
  have hk : PlainKeywords lambdaTokens := by
    decide
  have hparse : parse lambdaTokens =
      .ok (.application (.lambda ["x"] (.symbol "x")) [.quote "()" [.list []]]) := by
    rfl
  have hform : Reader.call ⟨lambdaTokens, 0⟩ .form =
      (.ok (.form (.application (.lambda ["x"] (.symbol "x")) [.quote "()" [.list []]])),
        ⟨lambdaTokens, 14⟩) := by
    rfl
  have hjoin : Token.joinText lambdaTokens = "((lambda (x) x) (quote ()))" := by
    decide
  rw [← hjoin]
  exact ⟨reading_as_data.1 _ _ _ hk hform,
    reading_as_data.2 _ _ hk hparse .opening (.bare .symbol "quote") .closing rfl rfl rfl⟩

end StackLisp
