import StackLisp.Proofs.Grammar.Basic

/-!
# The grammar and places

Only the kinds and the texts of tokens count. Tokens that agree in both spell the same trees,
down to the text that a quote keeps.
-/

namespace StackLisp

namespace Token

/-- What counts of a token. -/
def shape (t : Token) : Kind × String := (t.kind, t.text)

/-- A token without a place. -/
def bare (kind : Kind) (text : String) : Token := ⟨kind, text, 0, 0, 0⟩

def opening : Token := bare .openParen "("

def closing : Token := bare .closeParen ")"

theorem shape_eq_iff {t u : Token} :
    u.shape = t.shape ↔ u.kind = t.kind ∧ u.text = t.text := Prod.ext_iff

theorem joinText_eq_of_shape {ts us : List Token}
    (h : us.map Token.shape = ts.map Token.shape) : joinText us = joinText ts := by
  induction ts generalizing us with
  | nil => rw [List.map_eq_nil_iff.mp h]
  | cons t ts ih =>
    obtain ⟨u, us, rfl, hu, hs⟩ := List.map_eq_cons_iff.mp h
    obtain ⟨hkind, htext⟩ := shape_eq_iff.mp hu
    cases ts with
    | nil =>
      rw [List.map_eq_nil_iff.mp hs]
      exact htext
    | cons t' ts =>
      have hjoin := ih hs
      obtain ⟨u', us, rfl, hu', _⟩ := List.map_eq_cons_iff.mp hs
      have hapart : apart u u' = apart t t' := by
        rw [apart, apart, hkind, (shape_eq_iff.mp hu').1]
      rw [joinText_cons_cons, joinText_cons_cons, htext, hapart, hjoin]

end Token

namespace Grammar

/-- Phrases that may be replaced by any tokens of the same shapes. -/
def Shaped (R : List Token → Node → Prop) (ts : List Token) (n : Node) : Prop :=
  ∀ us : List Token, us.map Token.shape = ts.map Token.shape → R us n

variable {ts us : List Token} {n : Node} {ns : List Node}

theorem IsAtom.of_shape {mode : Mode} {t u : Token} (h : IsAtom mode t n)
    (hs : u.shape = t.shape) : IsAtom mode u n := by
  obtain ⟨hkind, htext⟩ := Token.shape_eq_iff.mp hs
  cases h with
  | integer hk hn hr => exact .integer (hkind.trans hk) (by rw [htext, hn]) hr
  | float hk hx hr => exact .float (hkind.trans hk) (by rw [htext, hx]) hr
  | string hk => exact htext ▸ .string (hkind.trans hk)
  | symbol hk => exact htext ▸ .symbol (hkind.trans hk)

theorem Each.of_shape {R : List Token → Node → Prop} (h : Each (Shaped R) ts ns)
    (hs : us.map Token.shape = ts.map Token.shape) : Each R us ns := by
  induction h generalizing us with
  | nil =>
    rw [List.map_eq_nil_iff.mp hs]
    exact .nil
  | cons hr _ ih =>
    rw [List.map_append] at hs
    obtain ⟨vs, ws, rfl, hv, hw⟩ := List.map_eq_append_iff.mp hs
    exact .cons (hr vs hv) (ih hw)

theorem shaped_singleton {R : List Token → Node → Prop} {t : Token}
    (h : ∀ u : Token, u.shape = t.shape → R [u] n) : Shaped R [t] n := by
  intro us hs
  obtain ⟨u, us, rfl, hu, hnil⟩ := List.map_eq_cons_iff.mp hs
  rw [List.map_eq_nil_iff.mp hnil]
  exact h u hu

theorem IsDatum.of_shape (h : IsDatum ts n) : Shaped IsDatum ts n := by
  refine h.induct ?atom ?list
  case atom => exact fun ha => shaped_singleton fun u hu => .atom (ha.of_shape hu)
  case list =>
    intro start stop ts ns hl _ ih hr us hs
    obtain ⟨vs, ws, rfl, hv, hw⟩ := List.map_eq_append_iff.mp (List.map_append ▸ hs)
    obtain ⟨start', vs, rfl, hstart, hvs⟩ := List.map_eq_cons_iff.mp hv
    obtain ⟨stop', ws, rfl, hstop, hnil⟩ := List.map_eq_cons_iff.mp hw
    rw [List.map_eq_nil_iff.mp hnil]
    exact .list ((Token.shape_eq_iff.mp hstart).1.trans hl) (ih.of_shape hvs)
      ((Token.shape_eq_iff.mp hstop).1.trans hr)

theorem IsHead.of_shape {head head' : List Token} {names : List String} (h : IsHead head names)
    (hs : head'.map Token.shape = head.map Token.shape) : IsHead head' names := by
  obtain @⟨start, keyword, left, right, ps, hstart, hkey, hleft, hps, hnd, hright⟩ := h
  obtain ⟨vs, ws, rfl, hv, hw⟩ := List.map_eq_append_iff.mp (List.map_append ▸ hs)
  obtain ⟨start', vs, rfl, hstart', hv⟩ := List.map_eq_cons_iff.mp hv
  obtain ⟨keyword', vs, rfl, hkey', hv⟩ := List.map_eq_cons_iff.mp hv
  obtain ⟨left', vs, rfl, hleft', hv⟩ := List.map_eq_cons_iff.mp hv
  obtain ⟨right', ws, rfl, hright', hnil⟩ := List.map_eq_cons_iff.mp hw
  have hnames : vs.map Token.text = ps.map Token.text := by
    have h := congrArg (List.map Prod.snd) hv
    rw [List.map_map, List.map_map] at h
    exact h
  have hkinds : vs.map Token.kind = ps.map Token.kind := by
    have h := congrArg (List.map Prod.fst) hv
    rw [List.map_map, List.map_map] at h
    exact h
  have hsym : ∀ v ∈ vs, v.kind = .symbol := by
    intro v hv
    have hm : v.kind ∈ ps.map Token.kind := hkinds ▸ List.mem_map_of_mem hv
    obtain ⟨p, hp, hkind⟩ := List.mem_map.mp hm
    rw [← hkind, hps p hp]
  rw [List.map_eq_nil_iff.mp hnil, ← hnames]
  exact .mk ((Token.shape_eq_iff.mp hstart').1.trans hstart)
    ((Token.shape_eq_iff.mp hkey').2.trans hkey) ((Token.shape_eq_iff.mp hleft').1.trans hleft)
    hsym (hnames ▸ hnd) ((Token.shape_eq_iff.mp hright').1.trans hright)

theorem each_isDatum_of_shape (h : Each IsDatum ts ns)
    (hs : us.map Token.shape = ts.map Token.shape) : Each IsDatum us ns :=
  (h.imp fun _ _ hd => hd.of_shape).of_shape hs

theorem IsExpr.of_shape (h : IsExpr ts n) : Shaped IsExpr ts n := by
  refine h.induct ?atom ?lambda ?quote ?application
  case atom => exact fun ha => shaped_singleton fun u hu => .atom (ha.of_shape hu)
  case lambda =>
    intro head body stop names n hh _ ih hr us hs
    obtain ⟨vs, ws, rfl, hv, hw⟩ := List.map_eq_append_iff.mp (List.map_append ▸ hs)
    obtain ⟨head', body', rfl, hhead, hbody⟩ := List.map_eq_append_iff.mp (List.map_append ▸ hv)
    obtain ⟨stop', ws, rfl, hstop, hnil⟩ := List.map_eq_cons_iff.mp hw
    rw [List.map_eq_nil_iff.mp hnil]
    exact .lambda (hh.of_shape hhead) (ih body' hbody) ((Token.shape_eq_iff.mp hstop).1.trans hr)
  case quote =>
    intro start keyword stop ts ns hl hk hd hr us hs
    obtain ⟨vs, ws, rfl, hv, hw⟩ := List.map_eq_append_iff.mp (List.map_append ▸ hs)
    obtain ⟨start', vs, rfl, hstart, hv⟩ := List.map_eq_cons_iff.mp hv
    obtain ⟨keyword', vs, rfl, hkey, hvs⟩ := List.map_eq_cons_iff.mp hv
    obtain ⟨stop', ws, rfl, hstop, hnil⟩ := List.map_eq_cons_iff.mp hw
    rw [List.map_eq_nil_iff.mp hnil, ← Token.joinText_eq_of_shape hvs]
    exact .quote ((Token.shape_eq_iff.mp hstart).1.trans hl)
      ((Token.shape_eq_iff.mp hkey).2.trans hk) (each_isDatum_of_shape hd hvs)
      ((Token.shape_eq_iff.mp hstop).1.trans hr)
  case application =>
    intro start first stop fs ts f ns hl hk _ ihf _ ih hr us hs
    obtain ⟨vs, ws, rfl, hv, hw⟩ := List.map_eq_append_iff.mp (List.map_append ▸ hs)
    obtain ⟨vs, ts', rfl, hv, hts⟩ := List.map_eq_append_iff.mp (List.map_append ▸ hv)
    obtain ⟨start', fs', rfl, hstart, hfs⟩ := List.map_eq_cons_iff.mp hv
    obtain ⟨first', gs, rfl, hfirst, hgs⟩ := List.map_eq_cons_iff.mp hfs
    obtain ⟨stop', ws, rfl, hstop, hnil⟩ := List.map_eq_cons_iff.mp hw
    rw [List.map_eq_nil_iff.mp hnil]
    exact .application ((Token.shape_eq_iff.mp hstart).1.trans hl)
      ((Token.shape_eq_iff.mp hfirst).2 ▸ hk) (ihf (first' :: gs) hfs) (ih.of_shape hts)
      ((Token.shape_eq_iff.mp hstop).1.trans hr)

end Grammar

end StackLisp
