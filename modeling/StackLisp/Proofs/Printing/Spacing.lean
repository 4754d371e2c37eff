import StackLisp.Node.Render
import StackLisp.Proofs.Grammar.Basic
import StackLisp.Proofs.Lexical.Layout

/-!
# Rendering and normal spacing

Rendering puts texts together with spaces and parentheses. Where the texts are those of
data, this is the normal spacing of their tokens, so a quote that keeps the joined text of
its tokens keeps what rendering its data would give. Where the texts are laid out, so is the
whole.
-/

namespace StackLisp

open Grammar Lexical

namespace Token

/-- Tokens that have a space on both sides wherever they stand between others: they do not
start with a closing and do not end with an opening parenthesis. -/
structure StandsAlone (ts : List Token) : Prop where
  ne_nil : ts ≠ []
  head : ∀ t ∈ ts.head?, t.kind ≠ .closeParen
  last : ∀ t ∈ ts.getLast?, t.kind ≠ .openParen

theorem standsAlone_singleton {t : Token} (h : t.kind ≠ .openParen ∧ t.kind ≠ .closeParen) :
    StandsAlone [t] where
  ne_nil := List.cons_ne_nil t []
  head u hu := by
    cases hu
    exact h.2
  last u hu := by
    cases hu
    exact h.1

theorem standsAlone_parenthesized {start stop : Token} {ts : List Token}
    (hs : start.kind = .openParen) (ht : stop.kind = .closeParen) :
    StandsAlone (start :: ts ++ [stop]) where
  ne_nil := List.cons_ne_nil start _
  head t hm := by
    cases hm
    rw [hs]
    decide
  last t hm := by
    rw [List.getLast?_append, List.getLast?_singleton, Option.some_or] at hm
    cases hm
    rw [ht]
    decide

theorem StandsAlone.append {ts us : List Token} (ht : StandsAlone ts) (hu : StandsAlone us) :
    StandsAlone (ts ++ us) where
  ne_nil := List.append_ne_nil_of_left_ne_nil ht.ne_nil us
  head := by
    rw [List.head?_append_of_ne_nil _ ht.ne_nil]
    exact ht.head
  last := by
    rw [List.getLast?_append_of_ne_nil _ hu.ne_nil]
    exact hu.last

theorem StandsAlone.joinText_append {ts us : List Token} (ht : StandsAlone ts)
    (hu : StandsAlone us) : joinText (ts ++ us) = joinText ts ++ " " ++ joinText us := by
  obtain ⟨hne, -, hlast⟩ := ht
  induction ts with
  | nil => contradiction
  | cons t ts ih =>
    cases ts with
    | nil =>
      obtain ⟨u, us, rfl⟩ := List.exists_cons_of_ne_nil hu.ne_nil
      have hapart : apart t u = true := by
        simpa [apart] using ⟨hlast t rfl, hu.head u rfl⟩
      rw [List.singleton_append, joinText_cons_cons, hapart, joinText_singleton]
      rfl
    | cons t' ts =>
      have hrec := ih (List.cons_ne_nil t' ts) fun v hv => hlast v (by simpa using hv)
      rw [List.cons_append] at hrec
      rw [List.cons_append, List.cons_append, joinText_cons_cons, hrec, joinText_cons_cons]
      simp only [String.append_assoc]

theorem joinText_parenthesized (ts : List Token) :
    joinText (opening :: ts ++ [closing]) = Node.parenthesized (joinText ts) := by
  have hopen : ∀ u, apart opening u = false := fun u => rfl
  have hclose : ∀ t, apart t closing = false := fun t => Bool.and_false _
  have hend : ∀ ts, joinText (ts ++ [closing]) = joinText ts ++ ")" := by
    intro ts
    fun_induction joinText ts with
    | case1 => rfl
    | case2 t =>
      rw [List.singleton_append, joinText_cons_cons, hclose, joinText_singleton]
      simp [closing, bare]
    | case3 t u ts ih =>
      rw [List.cons_append, List.cons_append, joinText_cons_cons, ← List.cons_append, ih]
      simp only [String.append_assoc]
  rw [Node.parenthesized]
  cases ts with
  | nil => rfl
  | cons u us =>
    have hjoin := hend (u :: us)
    rw [List.cons_append] at hjoin
    rw [List.cons_append, List.cons_append, joinText_cons_cons, hopen, hjoin,
      ← String.append_assoc]
    simp [opening, bare]

end Token

namespace Node

theorem spaced_singleton (text : String) : spaced [text] = text := String.intercalate_singleton

theorem spaced_cons {text : String} {texts : List String} (h : texts ≠ []) :
    spaced (text :: texts) = text ++ " " ++ spaced texts :=
  String.intercalate_cons_of_ne_nil h

theorem renderAll_cons {n : Node} {ns : List Node} {text : String} {texts : List String}
    (hn : n.render = .ok text) (hs : renderAll ns = .ok texts) :
    renderAll (n :: ns) = .ok (text :: texts) := by
  rw [renderAll, hn, hs]
  rfl

theorem exists_of_renderAll_cons {n : Node} {ns : List Node} {texts : List String}
    (h : renderAll (n :: ns) = .ok texts) :
    ∃ text texts', texts = text :: texts' ∧ n.render = .ok text ∧ renderAll ns = .ok texts' := by
  unfold renderAll at h
  cases hn : n.render with
  | error e => simp [hn, bind, Except.bind] at h
  | ok text =>
    cases hs : renderAll ns with
    | error e => simp [hn, hs, bind, Except.bind] at h
    | ok texts' =>
      rw [hn, hs] at h
      exact ⟨text, texts', (Except.ok.inj h).symm, rfl, rfl⟩

end Node

/-! ## Respacing -/

/-- The text of a tree is the normal spacing of some tokens. -/
structure Respaced (ts : List Token) (n : Node) : Prop where
  standsAlone : Token.StandsAlone ts
  text : n.render = .ok (Token.joinText ts)

theorem Grammar.Each.standsAlone {R : List Token → Node → Prop} {ts : List Token}
    {ns : List Node} (h : Each R ts ns) (hR : ∀ us n, R us n → Token.StandsAlone us)
    (hne : ns ≠ []) : Token.StandsAlone ts := by
  induction h with
  | nil => contradiction
  | cons hr hs ih =>
    cases hs with
    | nil =>
      rw [List.append_nil]
      exact hR _ _ hr
    | cons _ _ => exact (hR _ _ hr).append (ih (List.cons_ne_nil _ _))

/-- Trees with spaces in between are the normal spacing of all tokens. -/
theorem Grammar.Each.exists_spaced {ts : List Token} {ns : List Node} (h : Each Respaced ts ns) :
    ∃ texts, Node.renderAll ns = .ok texts ∧ Node.spaced texts = Token.joinText ts := by
  induction h with
  | nil => exact ⟨[], rfl, rfl⟩
  | @cons ts us n ns hr hs ih =>
    obtain ⟨texts, hall, hspaced⟩ := ih
    refine ⟨Token.joinText ts :: texts, Node.renderAll_cons hr.text hall, ?_⟩
    cases ns with
    | nil =>
      cases hall
      cases hs
      rw [Node.spaced_singleton, List.append_nil]
    | cons m ms =>
      obtain ⟨text, texts, rfl, _, _⟩ := Node.exists_of_renderAll_cons hall
      have hus := hs.standsAlone (fun _ _ hr => hr.standsAlone) (List.cons_ne_nil m ms)
      rw [Node.spaced_cons (List.cons_ne_nil text texts), hspaced,
        hr.standsAlone.joinText_append hus]

/-! ## Laying out -/

theorem laid_spaced_nil : Laid (Node.spaced []).toList [] := .nil

theorem laid_spaced_cons {text : String} {texts : List String} {ts us : List Token}
    (h : Laid text.toList ts) (hs : Laid (Node.spaced texts).toList us) :
    Laid (Node.spaced (text :: texts)).toList (ts ++ us) := by
  cases texts with
  | nil =>
    rw [Laid.eq_nil hs, List.append_nil, Node.spaced_singleton]
    exact h
  | cons text' texts =>
    rw [Node.spaced_cons (List.cons_ne_nil text' texts), String.toList_append,
      String.toList_append, List.append_assoc]
    exact h.append (.blank rfl hs) (terminal_blank rfl)

theorem laid_parenthesized {text : String} {ts : List Token} (h : Laid text.toList ts) :
    Laid (Node.parenthesized text).toList
      (Token.opening :: ts ++ [Token.closing]) := by
  rw [Node.parenthesized, String.toList_append, String.toList_append]
  exact h.parenthesized .openParen rfl .closeParen rfl

end StackLisp
