import Mathlib.Algebra.BigOperators.Group.List.Basic
import Mathlib.Algebra.Ring.Int.Defs
import StackLisp.Proofs.Grammar.Window

/-!
# Matching parentheses

A form that begins with a parenthesis ends with the one that matches it. The reader keeps no count
of parentheses. But the forms that are open between two tokens, with those parentheses that have
not yet become a form of their own, are as many as the tokens so far have opened and not closed.
So a node is finished where the count comes back to zero, and not before.

Inside a quote nothing else can go wrong: the data go on as long as the count does not come back
to zero, if only the numerals among them can be converted.
-/

namespace StackLisp

open Grammar

namespace Token

/-- What a token adds to the number of open parentheses. -/
def nesting (t : Token) : Int :=
  match t.kind with
  | .openParen => 1
  | .closeParen => -1
  | _ => 0

/-- How many parentheses some tokens leave open. -/
def depth (ts : List Token) : Int := (ts.map nesting).sum

/-- The token is no keyword, or it is no parenthesis. -/
def IsPlainWord (t : Token) : Prop :=
  IsKeyword t.text → t.kind ≠ .openParen ∧ t.kind ≠ .closeParen

instance (t : Token) : Decidable t.IsPlainWord :=
  inferInstanceAs (Decidable (IsKeyword t.text → t.kind ≠ .openParen ∧ t.kind ≠ .closeParen))

/-- If the token is a numeral, it can be converted. -/
structure Converts (t : Token) : Prop where
  integer : t.kind = .integer → ∃ n, Numeral.readInteger t.text = .ok n
  float : t.kind = .float → ∃ x, Numeral.readFraction t.text = .ok x

/-- From a number of open parentheses the tokens lead to zero at their end, and not before. -/
inductive Closes : Int → List Token → Prop
  | last {d : Int} {t : Token} : d + t.nesting = 0 → Closes d [t]
  | cons {d : Int} {t : Token} {ts : List Token} :
      d + t.nesting ≠ 0 → Closes (d + t.nesting) ts → Closes d (t :: ts)

variable {t : Token} {ts : List Token} {d : Int}

theorem nesting_openParen (h : t.kind = .openParen) : t.nesting = 1 := by
  simp only [nesting, h]

theorem nesting_closeParen (h : t.kind = .closeParen) : t.nesting = -1 := by
  simp only [nesting, h]

theorem nesting_eq_zero (h : t.kind ≠ .openParen ∧ t.kind ≠ .closeParen) : t.nesting = 0 := by
  unfold nesting
  split
  · exact absurd ‹_› h.1
  · exact absurd ‹_› h.2
  · rfl

/-- A parenthesis is no numeral. -/
theorem converts_of_nesting_ne_zero (h : t.nesting ≠ 0) : t.Converts := by
  constructor
  · intro hk
    simp [nesting, hk] at h
  · intro hk
    simp [nesting, hk] at h

@[simp] theorem depth_nil : depth [] = 0 := rfl

@[simp] theorem depth_cons (t : Token) (ts : List Token) :
    depth (t :: ts) = t.nesting + depth ts := List.sum_cons

theorem Closes.ne_nil (h : Closes d ts) : ts ≠ [] := by
  cases h with
  | last _ | cons _ _ => exact List.cons_ne_nil _ _

theorem closes_singleton_iff : Closes d [t] ↔ d + t.nesting = 0 := by
  constructor
  · intro h
    cases h with
    | last h => exact h
    | cons _ h => exact absurd rfl h.ne_nil
  · exact .last

theorem closes_cons_iff (hne : ts ≠ []) :
    Closes d (t :: ts) ↔ d + t.nesting ≠ 0 ∧ Closes (d + t.nesting) ts := by
  constructor
  · intro h
    cases h with
    | last _ => contradiction
    | cons hd h => exact ⟨hd, h⟩
  · exact fun h => .cons h.1 h.2

theorem Closes.depth_eq (h : Closes d ts) : d + depth ts = 0 := by
  induction h with
  | last h => simpa using h
  | cons _ _ ih => rwa [depth_cons, ← Int.add_assoc]

theorem Closes.depth_take_ne (h : Closes d ts) {m : Nat} (hpos : 0 < m) (hm : m < ts.length) :
    d + depth (ts.take m) ≠ 0 := by
  induction h generalizing m with
  | last _ =>
    rw [List.length_singleton] at hm
    omega
  | @cons d t ts hne _ ih =>
    obtain ⟨m, rfl⟩ := Nat.exists_eq_add_one.mpr hpos
    rw [List.take_succ_cons, depth_cons, ← Int.add_assoc]
    cases m with
    | zero => simpa using hne
    | succ m => exact ih (Nat.zero_lt_succ m) (Nat.lt_of_succ_lt_succ hm)

theorem closes_of_depth (hne : ts ≠ []) (hzero : d + depth ts = 0)
    (hfirst : ∀ m, 0 < m → m < ts.length → d + depth (ts.take m) ≠ 0) : Closes d ts := by
  induction ts generalizing d with
  | nil => contradiction
  | cons t ts ih =>
    rw [depth_cons, ← Int.add_assoc] at hzero
    cases ts with
    | nil => exact .last (by simpa using hzero)
    | cons u ts =>
      -- The front of one token speaks for the first one, the longer fronts for those behind it.
      refine .cons ?_ (ih (List.cons_ne_nil u ts) hzero fun m hpos hm => ?_)
      · simpa using hfirst 1 Nat.zero_lt_one (by simp)
      · have htake := hfirst (m + 1) (Nat.zero_lt_succ m) (Nat.succ_lt_succ hm)
        rwa [List.take_succ_cons, depth_cons, ← Int.add_assoc] at htake

end Token

open Token

/-! ## The depth of a state -/

/-- The parentheses that are open: those of the open forms, and those that a lambda or a form of
which nothing more is known has opened so far. -/
def State.height (s : State) : Nat :=
  match s.expecting with
  | .form _ => s.frames.length
  | .opened _ | .parameters _ | .lambdaEnd .. => s.frames.length + 1
  | .parameter .. => s.frames.length + 2

/-- A finished node has left no parenthesis open, and whatever is unfinished has. -/
def Outcome.HasDepth (d : Int) : Outcome → Prop
  | .next s => s.height = d ∧ 0 < s.height
  | .done _ => d = 0

namespace State

variable {s s' : State} {t : Token} {ts rest : List Token} {frames : List Frame} {mode : Mode}
  {n : Node} {o : Outcome}

theorem hasDepth_deliver (n : Node) (ts : List Token) (frames : List Frame) :
    (deliver n ts frames).HasDepth frames.length := by
  cases frames with
  | nil => rfl
  | cons f frames => cases f <;> exact ⟨rfl, Nat.succ_pos _⟩

theorem hasDepth_close {f : Frame} (h : close t (f :: frames) = .ok o) :
    o.HasDepth frames.length := by
  cases f with
  | operator _ | body _ => contradiction
  | operands _ _ _ | quote _ _ _ | list _ _ _ =>
    cases h
    exact hasDepth_deliver _ _ frames

theorem hasDepth_form (h : form mode frames t = .ok o) :
    o.HasDepth (frames.length + t.nesting) := by
  cases hk : t.kind with
  | openParen =>
    rw [nesting_openParen hk]
    cases mode with
    | code =>
      rw [form_open hk] at h
      cases h
      exact ⟨rfl, Nat.succ_pos _⟩
    | data =>
      rw [form_open_data hk] at h
      cases h
      exact ⟨rfl, Nat.succ_pos _⟩
  | closeParen =>
    rw [form_close hk] at h
    cases frames with
    | nil => contradiction
    | cons f frames =>
      have hlength : ((f :: frames).length : Int) + -1 = frames.length := by
        rw [List.length_cons]
        omega
      rw [nesting_closeParen hk, hlength]
      exact hasDepth_close h
  | _ =>
    have hzero : t.nesting = 0 := nesting_eq_zero (by simp [hk])
    rw [form_of_ne_parens (by simp [hk]) (by simp [hk])] at h
    obtain ⟨n, _, ho⟩ := exists_of_bind_eq_ok h
    cases ho
    rw [hzero, Int.add_zero]
    exact hasDepth_deliver n [t] frames

/-- A step changes the depth by the nesting of its token. -/
theorem hasDepth_step (h : s.step t = .ok o) (ht : t.IsPlainWord) :
    o.HasDepth (s.height + t.nesting) := by
  rcases s with ⟨expecting, frames⟩
  cases expecting with
  | form mode => exact hasDepth_form h
  | opened start =>
    -- The parenthesis becomes a form of its own at a keyword, which is no parenthesis itself.
    simp only [step] at h
    split at h
    next hl =>
      cases h
      rw [nesting_eq_zero (ht (.inl hl)), Int.add_zero]
      exact ⟨rfl, Nat.succ_pos _⟩
    next =>
      split at h
      next hq =>
        cases h
        rw [nesting_eq_zero (ht (.inr hq)), Int.add_zero]
        exact ⟨rfl, Nat.succ_pos _⟩
      next => exact hasDepth_form h
  | parameters start =>
    simp only [step] at h
    split at h
    next ho =>
      cases h
      rw [nesting_openParen ho]
      exact ⟨rfl, Nat.succ_pos _⟩
    next => contradiction
  | parameter start names =>
    simp only [step] at h
    split at h
    next hc =>
      cases h
      rw [nesting_closeParen hc]
      refine ⟨?_, Nat.succ_pos _⟩
      simp only [height, List.length_cons]
      omega
    next hsym =>
      split at h
      next => contradiction
      next =>
        cases h
        rw [nesting_eq_zero (by simp [hsym]), Int.add_zero]
        exact ⟨rfl, Nat.succ_pos _⟩
    next => contradiction
  | lambdaEnd names n =>
    simp only [step] at h
    split at h
    next hc =>
      cases h
      have hlength : ((frames.length + 1 : Nat) : Int) + -1 = frames.length := by
        omega
      rw [nesting_closeParen hc, height, hlength]
      exact hasDepth_deliver (.lambda names n) [] frames
    next => contradiction

/-- A node is finished where the depth comes back to zero for the first time. -/
theorem exists_closes_of_run (ht : ∀ t ∈ ts, t.IsPlainWord) (h : s.run ts = .ok (n, rest)) :
    ∃ used, ts = used ++ rest ∧ Closes s.height used := by
  induction ts generalizing s with
  | nil => contradiction
  | cons t ts ih =>
    obtain ⟨htoken, hts⟩ := List.forall_mem_cons.mp ht
    cases ho : s.step t with
    | error r =>
      rw [run_cons_of_refused ho] at h
      contradiction
    | ok o =>
      have hdepth := hasDepth_step ho htoken
      rw [run_cons_of_step ho] at h
      cases o with
      | next s' =>
        obtain ⟨used, rfl, hused⟩ := ih hts h
        obtain ⟨heq, hpos⟩ := hdepth
        rw [heq] at hused
        exact ⟨t :: used, rfl, .cons (by omega) hused⟩
      | done m =>
        cases h
        exact ⟨[t], rfl, .last hdepth⟩

end State

/-! ## Quotes -/

theorem Node.exists_ofAtom_data_iff {t : Token} (h : t.kind ≠ .openParen ∧ t.kind ≠ .closeParen) :
    (∃ n, Node.ofAtom .data t = .ok n) ↔ t.Converts := by
  constructor
  · intro hn
    rcases hn with ⟨n, hn⟩
    cases ofAtom_eq_ok_iff.mp hn with
    | integer hk hr _ => exact ⟨fun _ => ⟨_, hr⟩, fun hf => by simp [hk] at hf⟩
    | float hk hr _ => exact ⟨fun hi => by simp [hk] at hi, fun _ => ⟨_, hr⟩⟩
    | string hk | symbol hk => exact ⟨fun hi => by simp [hk] at hi, fun hf => by simp [hk] at hf⟩
  · intro hc
    simp only [ofAtom_eq_ok_iff]
    cases hk : t.kind with
    | openParen => exact absurd hk h.1
    | closeParen => exact absurd hk h.2
    | integer =>
      obtain ⟨n, hn⟩ := hc.integer hk
      exact ⟨_, .integer hk hn nofun⟩
    | float =>
      obtain ⟨x, hx⟩ := hc.float hk
      exact ⟨_, .float hk hx nofun⟩
    | string => exact ⟨_, .string hk⟩
    | symbol => exact ⟨_, .symbol hk⟩

namespace State

variable {s s' : State} {t : Token} {ts rest : List Token} {frames : List Frame} {n : Node}

/-- All open forms gather data, and there is one. -/
inductive Quoting : State → Prop
  | mk {f : Frame} {frames : List Frame} :
      (∀ g ∈ f :: frames, g.mode = .data) → Quoting ⟨.form .data, f :: frames⟩

theorem Quoting.height_pos (h : s.Quoting) : 0 < s.height := by
  cases h with
  | mk _ => exact Nat.succ_pos _

theorem quoting_deliver (h : ∀ f ∈ frames, f.mode = .data)
    (hs : deliver n ts frames = .next s) : s.Quoting := by
  cases frames with
  | nil => contradiction
  | cons f frames =>
    obtain ⟨hf, hframes⟩ := List.forall_mem_cons.mp h
    cases f with
    | operator _ | operands _ _ _ | body _ => contradiction
    | quote _ _ _ | list _ _ _ =>
      cases hs
      exact .mk (List.forall_mem_cons.mpr ⟨rfl, hframes⟩)

/-- A step inside a quote needs a token that converts if it is a numeral. -/
theorem Quoting.exists_step_iff (h : s.Quoting) : (∃ o, s.step t = .ok o) ↔ t.Converts := by
  cases h with
  | @mk f frames hmodes =>
    cases hk : t.kind with
    | openParen =>
      have hopen : step ⟨.form .data, f :: frames⟩ t = _ := form_open_data hk
      exact iff_of_true ⟨_, hopen⟩ ⟨by simp [hk], by simp [hk]⟩
    | closeParen =>
      have hclose : step ⟨.form .data, f :: frames⟩ t = close t (f :: frames) := form_close hk
      refine iff_of_true ?_ ⟨by simp [hk], by simp [hk]⟩
      rw [hclose]
      have hf := hmodes f List.mem_cons_self
      cases f with
      | operator _ | operands _ _ _ | body _ => contradiction
      | quote _ _ _ | list _ _ _ => exact ⟨_, rfl⟩
    | _ =>
      rw [← Node.exists_ofAtom_data_iff (by simp [hk])]
      simp only [step, form, hk]
      constructor
      · intro ho
        rcases ho with ⟨o, ho⟩
        obtain ⟨n, hn, _⟩ := exists_of_bind_eq_ok ho
        exact ⟨n, hn⟩
      · intro hn
        rcases hn with ⟨n, hn⟩
        rw [hn]
        exact ⟨_, rfl⟩

/-- What is inside a quote stays there until a node is finished. -/
theorem Quoting.next (h : s.Quoting) (hs : s.step t = .ok (.next s')) : s'.Quoting := by
  cases h with
  | @mk f frames hmodes =>
    have hform : form .data (f :: frames) t = .ok (.next s') := hs
    cases hk : t.kind with
    | openParen =>
      rw [form_open_data hk] at hform
      cases hform
      exact .mk (List.forall_mem_cons.mpr ⟨rfl, hmodes⟩)
    | closeParen =>
      rw [form_close hk] at hform
      obtain ⟨hf, hframes⟩ := List.forall_mem_cons.mp hmodes
      cases f with
      | operator _ | operands _ _ _ | body _ => contradiction
      | quote _ _ _ | list _ _ _ => exact quoting_deliver hframes (Except.ok.inj hform)
    | _ =>
      rw [form_of_ne_parens (by simp [hk]) (by simp [hk])] at hform
      obtain ⟨n, _, ho⟩ := exists_of_bind_eq_ok hform
      exact quoting_deliver hmodes (Except.ok.inj ho)

/-- Each token that a run inside a quote takes is one that converts if it is a numeral. -/
theorem Quoting.converts_of_run {used : List Token} (h : s.Quoting)
    (hrun : s.run (used ++ rest) = .ok (n, rest)) : ∀ t ∈ used, t.Converts := by
  induction used generalizing s with
  | nil => nofun
  | cons t used ih =>
    rw [List.cons_append] at hrun
    cases ho : s.step t with
    | error r =>
      rw [run_cons_of_refused ho] at hrun
      contradiction
    | ok o =>
      have htoken : t.Converts := h.exists_step_iff.mp ⟨o, ho⟩
      rw [run_cons_of_step ho] at hrun
      cases o with
      | next s' => exact List.forall_mem_cons.mpr ⟨htoken, ih (h.next ho) hrun⟩
      | done m =>
        have hpair : (m, used ++ rest) = (n, rest) := Except.ok.inj hrun
        have hnone : used = [] := List.append_cancel_right (congrArg Prod.snd hpair)
        subst hnone
        exact List.forall_mem_cons.mpr ⟨htoken, nofun⟩

theorem Quoting.exists_of_run (h : s.Quoting) (ht : ∀ t ∈ ts, t.IsPlainWord)
    (hrun : s.run ts = .ok (n, rest)) : ∃ data stop, ts = data ++ stop :: rest ∧
      Closes s.height (data ++ [stop]) ∧ ∀ t ∈ data, t.Converts := by
  obtain ⟨used, rfl, hcloses⟩ := exists_closes_of_run ht hrun
  have hconverts := h.converts_of_run hrun
  obtain ⟨data, stop, rfl⟩ := (List.eq_nil_or_concat' used).resolve_left hcloses.ne_nil
  have hdata : ∀ t ∈ data, t.Converts := fun t hm => hconverts t (List.mem_append_left [stop] hm)
  exact ⟨data, stop, (List.append_cons data stop rest).symm, hcloses, hdata⟩

theorem Quoting.exists_run {data : List Token} {stop : Token} (h : s.Quoting)
    (ht : ∀ t ∈ data ++ [stop], t.IsPlainWord) (hcloses : Closes s.height (data ++ [stop]))
    (hdata : ∀ t ∈ data, t.Converts) (rest : List Token) :
    ∃ n, s.run (data ++ stop :: rest) = .ok (n, rest) := by
  have hpos := h.height_pos
  induction data generalizing s with
  | nil =>
    -- The token that brings a positive depth to zero is a parenthesis, so it converts.
    obtain ⟨hstop, _⟩ := List.forall_mem_cons.mp ht
    have hzero := closes_singleton_iff.mp hcloses
    have hconverts : stop.Converts := converts_of_nesting_ne_zero (by omega)
    obtain ⟨o, ho⟩ := h.exists_step_iff.mpr hconverts
    have hdepth := hasDepth_step ho hstop
    cases o with
    | next s' =>
      obtain ⟨heq, hpos'⟩ := hdepth
      omega
    | done n => exact ⟨n, run_cons_of_step ho⟩
  | cons t data ih =>
    obtain ⟨htoken, hts⟩ := List.forall_mem_cons.mp ht
    obtain ⟨hconverts, hdata⟩ := List.forall_mem_cons.mp hdata
    obtain ⟨o, ho⟩ := h.exists_step_iff.mpr hconverts
    have hdepth := hasDepth_step ho htoken
    obtain ⟨hne, hcloses⟩ := (closes_cons_iff (by simp)).mp hcloses
    cases o with
    | next s' =>
      have hnext := h.next ho
      rw [← hdepth.1] at hcloses
      obtain ⟨n, hn⟩ := ih hnext hts hcloses hdata hnext.height_pos
      exact ⟨n, (run_cons_of_step ho).trans hn⟩
    | done n => exact absurd hdepth hne

end State

/-! ## Readers -/

namespace Reader

variable {r r' : Reader} {n : Node} {k : Nat}

/-- The parentheses that are open behind the token at an index, counted from the cursor on. -/
def depthAt (r : Reader) (k : Nat) : Int := depth (r.tokens.extract r.cursor (k + 1))

/-- The first index from the cursor on at which the number of open parentheses is zero. -/
structure IsMatch (r : Reader) (k : Nat) : Prop where
  behind : r.cursor ≤ k
  inside : k < r.tokens.length
  zero : r.depthAt k = 0
  first : ∀ m, r.cursor ≤ m → m < k → r.depthAt m ≠ 0

theorem depthAt_eq (h : r.cursor ≤ k) : r.depthAt k = depth (r.rest.take (k - r.cursor + 1)) := by
  rw [depthAt, List.extract_eq_take_drop, Nat.sub_add_comm h, rest]

theorem rest_eq_cons_cons {start keyword : Token} (hs : r.tokens[r.cursor]? = some start)
    (hk : r.tokens[r.cursor + 1]? = some keyword) :
    r.rest = start :: keyword :: r.tokens.drop (r.cursor + 2) := by
  obtain ⟨hi, rfl⟩ := List.getElem?_eq_some_iff.mp hs
  obtain ⟨hj, rfl⟩ := List.getElem?_eq_some_iff.mp hk
  rw [rest, List.drop_eq_getElem_cons hi, List.drop_eq_getElem_cons hj]

/-- The tokens behind a keyword and before an index. -/
theorem extract_eq_of_drop {data rest : List Token}
    (hdrop : r.tokens.drop (r.cursor + 2) = data ++ rest) (hk : r.cursor + data.length + 2 = k) :
    r.tokens.extract (r.cursor + 2) k = data := by
  have hlength : k - (r.cursor + 2) = data.length := by
    omega
  rw [List.extract_eq_take_drop, hdrop, hlength, List.take_left]

/-- The tokens up to the match lead to zero at their end, and not before. -/
theorem isMatch_iff : r.IsMatch k ↔
    ∃ used rest, r.rest = used ++ rest ∧ r.cursor + used.length = k + 1 ∧ Closes 0 used := by
  -- Indices are counted from the first token of all, fronts from the cursor.
  have hlength : r.rest.length = r.tokens.length - r.cursor := List.length_drop
  constructor
  · intro h
    have hbehind := h.behind
    have hinside := h.inside
    have hused : (r.rest.take (k - r.cursor + 1)).length = k - r.cursor + 1 := by
      rw [List.length_take]
      omega
    refine ⟨_, _, (List.take_append_drop (k - r.cursor + 1) r.rest).symm, by omega, ?_⟩
    refine closes_of_depth (List.ne_nil_of_length_pos (by omega)) ?_ fun m hpos hm => ?_
    · rw [Int.zero_add, ← depthAt_eq hbehind, h.zero]
    · rw [hused] at hm
      have hfirst := h.first (r.cursor + m - 1) (by omega) (by omega)
      have hindex : r.cursor + m - 1 - r.cursor + 1 = m := by omega
      rw [depthAt_eq (by omega), hindex] at hfirst
      rwa [Int.zero_add, List.take_take, Nat.min_eq_left (by omega)]
  · intro h
    obtain ⟨used, rest, hrest, hused, hcloses⟩ := h
    have hpos := List.length_pos_iff.mpr hcloses.ne_nil
    rw [hrest, List.length_append] at hlength
    have hbehind : r.cursor ≤ k := by omega
    refine ⟨hbehind, by omega, ?_, fun m hm hlt => ?_⟩
    · have hindex : k - r.cursor + 1 = used.length := by omega
      have hdepth := hcloses.depth_eq
      rwa [depthAt_eq hbehind, hrest, hindex, List.take_left, ← Int.zero_add (depth used)]
    · have htake := hcloses.depth_take_ne (m := m - r.cursor + 1) (by omega) (by omega)
      rwa [depthAt_eq hm, hrest, List.take_append_of_le_length (by omega),
        ← Int.zero_add (depth _)]

/-- A match behind the keyword of a quote. -/
theorem isMatch_quote_iff {start keyword : Token} {ts : List Token}
    (hrest : r.rest = start :: keyword :: ts) (hs : start.nesting = 1)
    (hk : keyword.nesting = 0) : r.IsMatch k ↔
      ∃ data stop rest, ts = data ++ stop :: rest ∧ r.cursor + data.length + 2 = k ∧
        Closes 1 (data ++ [stop]) := by
  have hcloses : ∀ us, us ≠ [] → (Closes 0 (start :: keyword :: us) ↔ Closes 1 us) := by
    intro us hne
    rw [closes_cons_iff (List.cons_ne_nil keyword us), closes_cons_iff hne, hs, hk]
    simp
  rw [isMatch_iff, hrest]
  constructor
  · intro h
    obtain ⟨used, rest, hused, hlength, h⟩ := h
    rcases used with _ | ⟨u, _ | ⟨v, used⟩⟩
    · exact absurd rfl h.ne_nil
    · rw [closes_singleton_iff, ← (List.cons.inj hused).1, hs] at h
      contradiction
    · simp only [List.cons_append, List.cons.injEq] at hused
      obtain ⟨rfl, rfl, rfl⟩ := hused
      have hne : used ≠ [] := by
        rintro rfl
        have hkeyword := (closes_cons_iff (List.cons_ne_nil keyword [])).mp h
        rw [closes_singleton_iff, hs, hk] at hkeyword
        exact absurd hkeyword.2 (by decide)
      obtain ⟨data, stop, rfl⟩ := (List.eq_nil_or_concat' used).resolve_left hne
      refine ⟨data, stop, rest, by simp, ?_, (hcloses _ hne).mp h⟩
      simp only [List.length_cons, List.length_append, List.length_nil] at hlength
      omega
  · intro h
    obtain ⟨data, stop, rest, rfl, hlength, h⟩ := h
    refine ⟨start :: keyword :: (data ++ [stop]), rest, by simp, ?_, (hcloses _ h.ne_nil).mpr h⟩
    simp only [List.length_cons, List.length_append, List.length_nil]
    omega

/-- A form is read if it is at the front of the tokens ahead. -/
theorem call_form_eq_ok_iff : r.call .form = (.ok (.form n), r') ↔
    ∃ rest, State.run ⟨.form .code, []⟩ r.rest = .ok (n, rest) ∧ r' = r.leave rest := by
  rw [call, read]
  constructor
  · intro h
    split at h
    next m rest hform =>
      cases h
      exact ⟨rest, hform, rfl⟩
    next => cases h
  · intro h
    obtain ⟨rest, hrun, rfl⟩ := h
    have hform : Reading.form .code r.rest = .ok (n, rest) := hrun
    rw [hform]

/-- A quote is read if some data are in front of the parenthesis that closes it. -/
theorem exists_call_quote_iff {start keyword : Token} {ts : List Token}
    (hrest : r.rest = start :: keyword :: ts) (hs : start.kind = .openParen)
    (hk : keyword.text = "quote") (ht : ∀ t ∈ ts, t.IsPlainWord) :
    (∃ n r', r.call .form = (.ok (.form n), r')) ↔ ∃ data stop rest, ts = data ++ stop :: rest ∧
      Closes 1 (data ++ [stop]) ∧ ∀ t ∈ data, t.Converts := by
  have hquoting : State.Quoting ⟨.form .data, [.quote start [] []]⟩ := .mk (by simp [Frame.mode])
  simp only [call_form_eq_ok_iff]
  rw [hrest, State.run_quote_head hs hk]
  constructor
  · intro h
    obtain ⟨n, r', rest, hrun, _⟩ := h
    obtain ⟨data, stop, hts, hcloses, hdata⟩ := hquoting.exists_of_run ht hrun
    exact ⟨data, stop, rest, hts, hcloses, hdata⟩
  · intro h
    obtain ⟨data, stop, rest, rfl, hcloses, hdata⟩ := h
    have hplain : ∀ t ∈ data ++ [stop], t.IsPlainWord := by
      intro t hm
      rw [List.append_cons] at ht
      exact ht t (List.mem_append_left rest hm)
    obtain ⟨n, hrun⟩ := hquoting.exists_run hplain hcloses hdata rest
    exact ⟨n, _, rest, hrun, rfl⟩

end Reader

/-- A form ends with the parenthesis that matches the one at the cursor; and a quote is read
exactly if its parenthesis has a match and the numerals up to there can be converted, whatever
else is inside. -/
theorem form_ends_at_match (r : Reader) (hr : ∀ t ∈ r.tokens, t.IsPlainWord) :
    (∀ n r', r.call .form = (.ok (.form n), r') →
      ∃ k, r.IsMatch k ∧ r'.cursor = k + 1) ∧
    (∀ start keyword, r.tokens[r.cursor]? = some start → start.kind = .openParen →
      r.tokens[r.cursor + 1]? = some keyword → keyword.text = "quote" →
      ((∃ n r', r.call .form = (.ok (.form n), r')) ↔
        ∃ k, r.IsMatch k ∧ ∀ t ∈ r.tokens.extract (r.cursor + 2) k, t.Converts)) := by
  have hrest : ∀ t ∈ r.rest, t.IsPlainWord := fun t ht => hr t (List.mem_of_mem_drop ht)
  constructor
  · intro n r' h
    obtain ⟨rest, hrun, rfl⟩ := Reader.call_form_eq_ok_iff.mp h
    obtain ⟨used, hused, hcloses⟩ := State.exists_closes_of_run hrest hrun
    have hpos := List.length_pos_iff.mpr hcloses.ne_nil
    refine ⟨r.cursor + used.length - 1, ?_, ?_⟩
    · exact Reader.isMatch_iff.mpr ⟨used, rest, hused, by omega, hcloses⟩
    · rw [Reader.leave_eq_advance hused hcloses.ne_nil]
      dsimp only [Reader.advance]
      omega
  · intro start keyword hs ho hkeyword hquote
    have hsplit := Reader.rest_eq_cons_cons hs hkeyword
    have hplain := hr keyword (List.mem_of_getElem? hkeyword)
    have hts : ∀ t ∈ r.tokens.drop (r.cursor + 2), t.IsPlainWord :=
      fun t ht => hr t (List.mem_of_mem_drop ht)
    have hmatch : ∀ k, r.IsMatch k ↔ _ := fun k => Reader.isMatch_quote_iff hsplit
      (nesting_openParen ho) (nesting_eq_zero (hplain (.inr hquote)))
    rw [Reader.exists_call_quote_iff hsplit ho hquote hts]
    constructor
    · intro h
      obtain ⟨data, stop, rest, hdrop, hcloses, hdata⟩ := h
      refine ⟨_, (hmatch _).mpr ⟨data, stop, rest, hdrop, rfl, hcloses⟩, ?_⟩
      rwa [Reader.extract_eq_of_drop hdrop rfl]
    · intro h
      obtain ⟨k, hk, hconverts⟩ := h
      obtain ⟨data, stop, rest, hdrop, hindex, hcloses⟩ := (hmatch k).mp hk
      rw [Reader.extract_eq_of_drop hdrop hindex] at hconverts
      exact ⟨data, stop, rest, hdrop, hcloses, hconverts⟩

/-- A reader in front of `(quote (lambda () 9223372036854775808))`, behind a parenthesis that
closes nothing. -/
def quoteReader : Reader :=
  ⟨[.closing, .opening, .bare .symbol "quote", .opening, .bare .symbol "lambda", .opening, .closing,
    .bare .integer "9223372036854775808", .closing, .closing, .bare .symbol "x"], 1⟩

theorem form_ends_at_match_quoteReader :
    (∀ t ∈ quoteReader.tokens, t.IsPlainWord) ∧ quoteReader.IsMatch 9 ∧
      ∃ n r', quoteReader.call .form = (.ok (.form n), r') ∧
        ∃ k, quoteReader.IsMatch k ∧ r'.cursor = k + 1 := by
  have hplain : ∀ t ∈ quoteReader.tokens, t.IsPlainWord := by
    decide
  have hfirst : ∀ m < 9, 1 ≤ m → quoteReader.depthAt m ≠ 0 := by
    decide
  have hmatch : quoteReader.IsMatch 9 :=
    ⟨by decide, by decide, by decide, fun m hm hlt => hfirst m hlt hm⟩
  have hinteger : Numeral.readInteger "9223372036854775808" = .ok 9223372036854775808 := by
    decide +kernel
  have hconverts : ∀ t ∈ quoteReader.tokens.extract 3 9, t.Converts := by
    intro t ht
    have hkinds : (t.kind = .integer → t.text = "9223372036854775808") ∧ t.kind ≠ .float := by
      revert t
      decide
    exact ⟨fun hk => ⟨_, (hkinds.1 hk).symm ▸ hinteger⟩, fun hk => absurd hk hkinds.2⟩
  have hform := form_ends_at_match quoteReader hplain
  obtain ⟨n, r', hcall⟩ := (hform.2 .opening (.bare .symbol "quote") rfl rfl rfl rfl).mpr
    ⟨9, hmatch, hconverts⟩
  exact ⟨hplain, hmatch, n, r', hcall, hform.1 n r' hcall⟩

end StackLisp
