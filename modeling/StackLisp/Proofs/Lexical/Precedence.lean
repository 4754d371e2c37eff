import Mathlib.Data.List.Basic
import StackLisp.Proofs.Lexical.Partition
import StackLisp.Proofs.Lexical.Texts

/-!
# Precedence in the standard table

The order of a table is a precedence, but it matters only between entries that match at the same
place. In the standard table these are the numerals and the symbols; parentheses and strings are
told by their first character. So the table may be put into any order in which fractions come
before integers and integers before symbols, and every source is scanned as before: the same
tokens at the same places, or the same error. Any other order scans some source differently.
-/

namespace StackLisp

open Lexical
open Text (isBlank)

/-- An entry of the first kind stands above one of the second. -/
def Table.Precedes (table : Table) (k k' : Kind) : Prop :=
  [k, k'].Sublist (table.map TokenPattern.kind)

variable {table table' : Table} {order : List Kind} {k k' : Kind} {behind cs : List Char}
  {c : Char}

/-! ## Orders of kinds -/

theorem sublist_of_nodup {α : Type} {a b c : α} {l : List α} (hl : l.Nodup)
    (hab : [a, b].Sublist l) (hbc : [b, c].Sublist l) : [a, b, c].Sublist l := by
  induction l with
  | nil => cases hab
  | cons x l ih =>
    obtain ⟨hx, hl⟩ := List.nodup_cons.mp hl
    cases hab with
    | cons _ hab =>
      cases hbc with
      | cons _ hbc => exact (ih hl hab hbc).cons x
      | cons_cons _ _ => exact absurd (hab.subset (by simp)) hx
    | cons_cons _ hb =>
      cases hbc with
      | cons _ hbc => exact hbc.cons_cons _
      | cons_cons _ _ => exact absurd (hb.subset (by simp)) hx

/-- The precedence fixes the order of those kinds that may begin with the same character. -/
theorem filter_kindsAt (h : order.Perm Kind.all) (hfloat : [.float, .integer].Sublist order)
    (hinteger : [.integer, .symbol].Sublist order) (c : Char) :
    order.filter (· ∈ kindsAt c) = kindsAt c := by
  have hperm := h.filter (· ∈ kindsAt c)
  have hnumeral := (sublist_of_nodup (h.nodup_iff.mpr (by decide)) hfloat hinteger).filter
    (· ∈ kindsAt c)
  revert hperm hnumeral
  unfold kindsAt
  split
  · exact fun hperm _ => List.perm_singleton.mp hperm
  split
  · exact fun hperm _ => List.perm_singleton.mp hperm
  split
  · exact fun hperm _ => List.perm_singleton.mp hperm
  split
  · exact fun hperm hnumeral => (hnumeral.eq_of_length hperm.length_eq.symm).symm
  · exact fun hperm _ => List.perm_nil.mp hperm

/-! ## The first match -/

theorem lexeme?_filter_kindsAt (order : List Kind) :
    Table.lexeme? (order.map entry) behind (c :: cs) =
      Table.lexeme? ((order.filter (· ∈ kindsAt c)).map entry) behind (c :: cs) := by
  induction order with
  | nil => rfl
  | cons k order ih =>
    rw [Table.lexeme?] at ih
    by_cases hk : k ∈ kindsAt c
    · rw [List.filter_cons_of_pos (by simpa using hk), List.map_cons, List.map_cons,
        Table.lexeme?, Table.lexeme?, List.findSome?_cons, List.findSome?_cons, ih]
      rfl
    · rw [List.filter_cons_of_neg (by simpa using hk), List.map_cons, Table.lexeme?,
        List.findSome?_cons, lexeme?_eq_none_of_kindsAt hk]
      exact ih

/-- In every order that keeps the precedence, the entries that matter are the same. -/
theorem lexeme?_of_order (h : order.Perm Kind.all) (hfloat : [.float, .integer].Sublist order)
    (hinteger : [.integer, .symbol].Sublist order) :
    Table.lexeme? (order.map entry) behind (c :: cs) =
      Table.lexeme? ((kindsAt c).map entry) behind (c :: cs) := by
  rw [lexeme?_filter_kindsAt, filter_kindsAt h hfloat hinteger]

theorem eq_map_entry (h : table ⊆ Table.standard) :
    table = (table.map TokenPattern.kind).map entry := by
  have hentry : ∀ p ∈ table, (entry ∘ TokenPattern.kind) p = id p := by
    intro p hp
    have hstandard : p ∈ Kind.all.map entry := h hp
    obtain ⟨k, -, rfl⟩ := List.mem_map.mp hstandard
    rfl
  rw [List.map_map, List.map_congr_left hentry, List.map_id]

theorem lexeme?_of_precedes (h : table.Perm Table.standard)
    (hfloat : table.Precedes .float .integer) (hinteger : table.Precedes .integer .symbol) :
    table.lexeme? behind (c :: cs) = Table.standard.lexeme? behind (c :: cs) := by
  have horder : (table.map TokenPattern.kind).Perm Kind.all := h.map TokenPattern.kind
  have hstandard : Table.lexeme? (Kind.all.map entry) behind (c :: cs) =
      Table.lexeme? ((kindsAt c).map entry) behind (c :: cs) :=
    lexeme?_of_order (.refl Kind.all) (by decide) (by decide)
  rw [eq_map_entry h.subset, lexeme?_of_order horder hfloat hinteger, standard_eq_map, hstandard]

/-- Scanning asks a table for nothing but its first matches. -/
theorem scanFrom_congr
    (h : ∀ behind c cs, table.lexeme? behind (c :: cs) = table'.lexeme? behind (c :: cs))
    (here : Place) (behind cs : List Char) :
    scanFrom table here behind cs = scanFrom table' here behind cs := by
  fun_induction scanFrom table here behind cs with
  | case1 => rw [scanFrom]
  | case2 here behind c cs hc ih => rw [scanFrom_blank hc, ih]
  | case3 here behind c cs hc hnone =>
    rw [scanFrom_stuck (Bool.eq_false_iff.mpr hc) ((h behind c cs).symm.trans hnone)]
  | case4 here behind c cs hc l hl ih =>
    rw [scanFrom_lexeme (Bool.eq_false_iff.mpr hc) ((h behind c cs).symm.trans hl), ih]
    rfl

/-! ## Entries that compete -/

theorem exists_lexeme?_of_scan {t : Token} {ts : List Token} (hc : isBlank c = false)
    (h : scan table (String.ofList (c :: cs)) = .ok (t :: ts)) :
    ∃ l, table.lexeme? [] (c :: cs) = some l ∧ l.kind = t.kind := by
  rw [scan, String.toList_ofList] at h
  cases hl : table.lexeme? [] (c :: cs) with
  | none =>
    rw [scanFrom_stuck hc hl] at h
    contradiction
  | some l =>
    rw [scanFrom_lexeme hc hl] at h
    generalize scanFrom table _ _ l.rest = rest at h
    cases rest with
    | error e => contradiction
    | ok us =>
      cases h
      exact ⟨l, rfl, rfl⟩

/-- The entry that is taken stands above all others that match. -/
theorem precedes_of_lexeme? {l : Lexeme} {p : TokenPattern} (h : table.lexeme? behind cs = some l)
    (hp : p ∈ table) (hmatch : p.lexeme? behind cs ≠ none) (hne : p.kind ≠ l.kind) :
    table.Precedes l.kind p.kind := by
  obtain ⟨above, q, below, rfl, hq, habove⟩ := List.findSome?_eq_some_iff.mp h
  have hkind : q.kind = l.kind := (TokenPattern.kind_of_lexeme? hq).symm
  have hbelow : p ∈ below := by
    rcases List.mem_append.mp hp with hp | hp
    · exact absurd (habove p hp) hmatch
    · rcases List.mem_cons.mp hp with rfl | hp
      · exact absurd hkind hne
      · exact hp
  have hpair : [q, p].Sublist (above ++ q :: below) :=
    ((List.singleton_sublist.mpr hbelow).cons_cons q).trans (List.sublist_append_right above _)
  have hkinds := hpair.map TokenPattern.kind
  rwa [List.map_cons, List.map_cons, List.map_nil, hkind] at hkinds

theorem precedes_of_scan {t : Token} {ts : List Token} (h : table.Perm Table.standard)
    (hc : isBlank c = false) (hscan : scan table (String.ofList (c :: cs)) = .ok (t :: ts))
    (hmatch : (entry k).lexeme? [] (c :: cs) ≠ none) (hne : k ≠ t.kind) :
    table.Precedes t.kind k := by
  obtain ⟨l, hl, hkind⟩ := exists_lexeme?_of_scan hc hscan
  have hmem : entry k ∈ table := h.symm.subset (List.mem_map.mpr ⟨k, k.mem_all, rfl⟩)
  rw [← hkind] at hne ⊢
  exact precedes_of_lexeme? hl hmem hmatch hne

/-- A table of the standard entries scans every source as the standard table does if and only if
fractions stand above integers in it, and integers above symbols. -/
theorem scan_eq_standard_iff_precedes (h : table.Perm Table.standard) :
    (∀ source, scan table source = scan Table.standard source) ↔
      table.Precedes .float .integer ∧ table.Precedes .integer .symbol := by
  constructor
  · intro hscan
    -- Digits with a point begin like an integer, and digits are made of characters of symbols.
    have hfraction : scan table (String.ofList ['5', '.', '5']) =
        .ok [⟨.float, "5.5", 1, 0, 0⟩] := (hscan _).trans (by decide +kernel)
    have hdigit : scan table (String.ofList ['5']) = .ok [⟨.integer, "5", 1, 0, 0⟩] :=
      (hscan _).trans (by decide +kernel)
    constructor
    · exact precedes_of_scan h rfl hfraction (by decide +kernel) nofun
    · exact precedes_of_scan h rfl hdigit (by decide +kernel) nofun
  · rintro ⟨hfloat, hinteger⟩ source
    exact scanFrom_congr (fun _ _ _ => lexeme?_of_precedes h hfloat hinteger) _ _ _

/-- The standard entries in another order. -/
def reordered : Table := [.string, .float, .closeParen, .integer, .symbol, .openParen].map entry

theorem scan_eq_standard_iff_precedes_reordered :
    reordered.Perm Table.standard ∧ reordered.Precedes .float .integer ∧
    reordered.Precedes .integer .symbol ∧
    ∀ source, scan reordered source = scan Table.standard source := by
  have hperm : reordered.Perm Table.standard := by
    have hkinds : [.string, .float, .closeParen, .integer, .symbol, .openParen].Perm Kind.all := by
      decide
    exact hkinds.map entry
  have hfloat : reordered.Precedes .float .integer := by
    rw [Table.Precedes]
    decide
  have hinteger : reordered.Precedes .integer .symbol := by
    rw [Table.Precedes]
    decide
  exact ⟨hperm, hfloat, hinteger, (scan_eq_standard_iff_precedes hperm).mpr ⟨hfloat, hinteger⟩⟩

end StackLisp
