import Mathlib.Data.List.Chain
import Mathlib.Data.List.TakeWhile
import StackLisp.Proofs.Lexical.Partition
import StackLisp.Proofs.Lexical.Texts

/-!
# The longest match

Matching with backtracking need not find the longest text that a pattern generates. It does where
nothing is given back. Compare such a division with any other text of the pattern, piece by piece:
the other one may fall behind, and catch up, but never get ahead. And nothing is given back where
each piece is over as soon as the next one begins. The patterns of the standard table are such.
-/

namespace StackLisp

namespace Pattern

open Lexical (generates_nil_iff generates_cons_iff)

/-- A text is the longest one of a set that stands at the front of `cs`. -/
structure IsLongest (L : Set (List Char)) (a cs : List Char) : Prop where
  front : a <+: cs
  mem : a ∈ L
  longest : ∀ b, b <+: cs → b ∈ L → b.length ≤ a.length

theorem IsLongest.unique {L : Set (List Char)} {a b cs : List Char} (ha : IsLongest L a cs)
    (hb : IsLongest L b cs) : a = b := by
  have hab := ha.longest b hb.front hb.mem
  have hba := hb.longest a ha.front ha.mem
  exact (List.prefix_of_prefix_length_le ha.front hb.front hba).eq_of_length_le hab

/-- Having taken a text, a piece takes no more: it is not allowed to, or what is left does not
begin with a character of its set. -/
def Stops (p : Piece) (taken left : List Char) : Prop :=
  p.set.EndsAt left ∨ (p.times = .once ∨ p.times = .optional) ∧ taken.length = 1

variable {s : CharSet} {p : Piece} {ps : List Piece} {a b w x rest lag : List Char}

theorem admits_once : Piece.Admits ⟨s, .once⟩ x ↔ ∃ c, x = [c] ∧ s.contains c = true := by
  constructor
  · rintro ⟨hset, ht⟩
    obtain ⟨c, rfl⟩ := List.length_eq_one_iff.mp ht
    exact ⟨c, rfl, hset c List.mem_cons_self⟩
  · rintro ⟨c, rfl, hc⟩
    exact ⟨List.forall_mem_singleton.mpr hc, rfl⟩

theorem admits_optional :
    Piece.Admits ⟨s, .optional⟩ x ↔ x = [] ∨ ∃ c, x = [c] ∧ s.contains c = true := by
  constructor
  · rintro ⟨hset, ht⟩
    rcases Nat.le_one_iff_eq_zero_or_eq_one.mp ht with hzero | hone
    · exact .inl (List.length_eq_zero_iff.mp hzero)
    · exact .inr (admits_once.mp ⟨hset, hone⟩)
  · rintro (rfl | ⟨c, rfl, hc⟩)
    · exact ⟨List.forall_mem_nil _, Nat.zero_le 1⟩
    · exact ⟨List.forall_mem_singleton.mpr hc, Nat.le_refl 1⟩

/-! ## Pieces that give nothing back -/

theorem exists_of_greedy_cons (h : Greedy (p :: ps) b rest) :
    ∃ x a, b = x ++ a ∧ p.Admits x ∧ Stops p x (a ++ rest) ∧ Greedy ps a rest := by
  cases h with
  | @once _ _ c a _ hc ha =>
    exact ⟨[c], a, rfl, admits_once.mpr ⟨c, rfl, hc⟩, .inr ⟨.inl rfl, rfl⟩, ha⟩
  | @present _ _ c a _ hc ha =>
    exact ⟨[c], a, rfl, admits_optional.mpr (.inr ⟨c, rfl, hc⟩), .inr ⟨.inr rfl, rfl⟩, ha⟩
  | absent hs ha => exact ⟨[], b, rfl, admits_optional.mpr (.inl rfl), .inl hs, ha⟩
  | star hx hs ha => exact ⟨_, _, rfl, ⟨hx, trivial⟩, .inl hs, ha⟩
  | plus hne hx hs ha => exact ⟨_, _, rfl, ⟨hx, List.length_pos_iff.mpr hne⟩, .inl hs, ha⟩

theorem greedy_cons (hx : p.Admits x) (hs : Stops p x (a ++ rest)) (ha : Greedy ps a rest) :
    Greedy (p :: ps) (x ++ a) rest := by
  obtain ⟨s, times⟩ := p
  cases times with
  | once =>
    obtain ⟨c, rfl, hc⟩ := admits_once.mp hx
    exact .once hc ha
  | optional =>
    rcases admits_optional.mp hx with rfl | ⟨c, rfl, hc⟩
    · exact .absent (hs.resolve_right (by simp)) ha
    · exact .present hc ha
  | star => exact .star hx.1 (hs.resolve_right (by simp)) ha
  | plus => exact .plus (List.length_pos_iff.mp hx.2) hx.1 (hs.resolve_right (by simp)) ha

/-- Where a piece stops, the same piece of another division has stopped, too: that one is behind
by some characters. -/
theorem exists_lag {taken left : List Char} (hs : Stops p taken left) (hx : p.Admits x)
    (h : x ++ w = lag ++ taken ++ left) : ∃ lag', lag ++ taken = x ++ lag' ∧ w = lag' ++ left := by
  rcases List.append_eq_append_iff.mp h with hbehind | ⟨beyond, hbeyond, hleft⟩
  · exact hbehind
  · cases beyond with
    | nil => exact ⟨[], by simpa using hbeyond.symm, by simpa using hleft.symm⟩
    | cons c beyond =>
      rcases hs with hends | ⟨htimes, hlength⟩
      · have hc : p.set.contains c = true := hx.1 c (by simp [hbeyond])
        rw [hleft, List.cons_append, CharSet.endsAt_cons, hc] at hends
        contradiction
      · have hone : x.length ≤ 1 := by
          have hadmits := hx.2
          rcases htimes with htimes | htimes
          · rw [htimes] at hadmits
            exact Nat.le_of_eq hadmits
          · rwa [htimes] at hadmits
        rw [hbeyond, List.length_append, List.length_append, hlength, List.length_cons] at hone
        omega

/-- A division that gives nothing back is not overtaken by one that starts behind it. -/
theorem Greedy.length_le (h : Greedy ps a rest) (hb : Generates ps b)
    (heq : b ++ w = lag ++ (a ++ rest)) : b.length ≤ lag.length + a.length := by
  induction ps generalizing a b lag with
  | nil =>
    rw [generates_nil_iff.mp hb]
    exact Nat.zero_le _
  | cons p ps ih =>
    obtain ⟨taken, a, rfl, -, hs, ha⟩ := exists_of_greedy_cons h
    obtain ⟨x, b, rfl, hx, hb⟩ := generates_cons_iff.mp hb
    have heq' : x ++ (b ++ w) = lag ++ taken ++ (a ++ rest) := by simpa using heq
    obtain ⟨lag', hlag, hrest⟩ := exists_lag hs hx heq'
    have hle := ih ha hb hrest
    have hlength := congrArg List.length hlag
    simp only [List.length_append] at hle hlength ⊢
    omega

/-! ## Pieces that are told apart -/

/-- A piece is over where the next one begins: it may not go on, or the next one must begin, with
a character that the piece does not admit. -/
def EndsBefore (p q : Piece) : Prop :=
  p.times = .once ∨
    (q.times = .once ∨ q.times = .plus) ∧ ∀ c, q.set.contains c = true → p.set.contains c = false

/-- Each piece is over where the next one begins. -/
def Separated (ps : List Piece) : Prop := ps.IsChain EndsBefore

theorem stops_of_endsBefore {q : Piece} (h : EndsBefore p q) (hx : p.Admits x)
    (hb : Generates (q :: ps) b) (rest : List Char) : Stops p x (b ++ rest) := by
  rcases h with hp | ⟨hq, hset⟩
  · refine .inr ⟨.inl hp, ?_⟩
    have hadmits := hx.2
    rwa [hp] at hadmits
  · refine .inl ?_
    obtain ⟨y, z, rfl, ⟨hy, ht⟩, -⟩ := generates_cons_iff.mp hb
    cases y with
    | nil =>
      rcases hq with hq | hq
      · rw [hq] at ht
        contradiction
      · rw [hq] at ht
        contradiction
    | cons c y => exact CharSet.endsAt_cons.mpr (hset c (hy c List.mem_cons_self))

/-- A run of characters of a set goes on as far as there are such characters. -/
theorem exists_endsAt (hx : ∀ c ∈ x, s.contains c = true) (rest : List Char) :
    ∃ y left, x ++ y ++ left = x ++ rest ∧ (∀ c ∈ x ++ y, s.contains c = true) ∧
      s.EndsAt left := by
  refine ⟨rest.takeWhile s.contains, rest.dropWhile s.contains, ?_, ?_, ?_⟩
  · rw [List.append_assoc, List.takeWhile_append_dropWhile]
  · intro c hc
    rcases List.mem_append.mp hc with hc | hc
    · exact hx c hc
    · exact List.mem_takeWhile_imp hc
  · intro c hc
    have hnot := List.head?_dropWhile_not s.contains rest
    rw [Option.mem_def.mp hc] at hnot
    exact hnot

/-- The last piece takes all it can. -/
theorem exists_stops (hx : p.Admits x) (rest : List Char) :
    ∃ y left, y ++ left = x ++ rest ∧ p.Admits y ∧ Stops p y left := by
  obtain ⟨y, left, happ, hy, hends⟩ := exists_endsAt hx.1 rest
  obtain ⟨s, times⟩ := p
  cases times with
  | once => exact ⟨x, rest, rfl, hx, .inr ⟨.inl rfl, hx.2⟩⟩
  | optional =>
    rcases admits_optional.mp hx with rfl | ⟨c, rfl, hc⟩
    · cases y with
      | nil => exact ⟨[], left, happ, hx, .inl hends⟩
      | cons c y =>
        have hc : s.contains c = true := hy c List.mem_cons_self
        exact ⟨[c], y ++ left, happ, admits_optional.mpr (.inr ⟨c, rfl, hc⟩),
          .inr ⟨.inr rfl, rfl⟩⟩
    · exact ⟨[c], rest, rfl, hx, .inr ⟨.inr rfl, rfl⟩⟩
  | star => exact ⟨x ++ y, left, happ, ⟨hy, trivial⟩, .inl hends⟩
  | plus =>
    have hlength : 1 ≤ (x ++ y).length := by
      rw [List.length_append]
      exact Nat.le_add_right_of_le hx.2
    exact ⟨x ++ y, left, happ, ⟨hy, hlength⟩, .inl hends⟩

/-- Wherever a text of the pattern stands, the pattern can be gone through without giving back. -/
theorem exists_greedy (hps : Separated ps) (hb : Generates ps b) (rest : List Char) :
    ∃ a left, a ++ left = b ++ rest ∧ Greedy ps a left := by
  induction ps generalizing b with
  | nil =>
    rw [generates_nil_iff.mp hb]
    exact ⟨[], rest, rfl, .nil⟩
  | cons p ps ih =>
    obtain ⟨x, b, rfl, hx, hb⟩ := generates_cons_iff.mp hb
    cases ps with
    | nil =>
      rw [generates_nil_iff.mp hb, List.append_nil]
      obtain ⟨y, left, happ, hy, hs⟩ := exists_stops hx rest
      refine ⟨y ++ [], left, by rw [List.append_nil, happ], greedy_cons hy hs .nil⟩
    | cons q qs =>
      rcases List.isChain_cons_cons.mp hps with ⟨hpq, hqs⟩
      have hs := stops_of_endsBefore hpq hx hb rest
      obtain ⟨a, left, happ, ha⟩ := ih hqs hb
      refine ⟨x ++ a, left, by rw [List.append_assoc, happ, List.append_assoc], ?_⟩
      exact greedy_cons hx (happ ▸ hs) ha

/-- A pattern whose pieces are told apart takes its longest text. -/
theorem isLongest_of_matchPieces {cs left : List Char} (hps : Separated ps)
    (h : matchPieces ps cs = some (a, left)) : IsLongest {b | Generates ps b} a cs := by
  have happ : a ++ left = cs := divides_matchPieces ps cs a left h
  have hgen : Generates ps a := generates_of_matchPieces h
  obtain ⟨a', left', happ', hgreedy⟩ := exists_greedy hps hgen left
  have hsame : matchPieces ps cs = some (a', left') := by
    rw [← happ, ← happ']
    exact matchPieces_of_greedy hgreedy
  obtain ⟨rfl, rfl⟩ : a = a' ∧ left = left' := by simpa [h] using hsame
  refine ⟨⟨left, happ⟩, hgen, ?_⟩
  rintro b ⟨w, hb⟩ hbgen
  have heq : b ++ w = [] ++ (a ++ left) := hb.trans happ.symm
  have hle := hgreedy.length_le hbgen heq
  rwa [List.length_nil, Nat.zero_add] at hle

end Pattern

/-! ## The standard table -/

namespace Lexical

open Pattern

variable {k : Kind} {behind cs a : List Char}

theorem separated_pattern (k : Kind) : Separated (pattern k).pieces := by
  have digits : ∀ c, CharSet.contains ⟨false, Table.digits⟩ c = true → c ≠ '-' ∧ c ≠ '.' := by
    intro c hc
    rw [contains_digits] at hc
    constructor
    · rintro rfl
      contradiction
    · rintro rfl
      contradiction
  have sign : EndsBefore Table.minus? ⟨⟨false, Table.digits⟩, .plus⟩ :=
    .inr ⟨.inr rfl, fun c hc => contains_singleton_of_ne (digits c hc).1⟩
  have point : EndsBefore ⟨⟨false, Table.digits⟩, .plus⟩ ⟨singleton '.', .once⟩ := by
    refine .inr ⟨.inl rfl, fun c hc => Bool.eq_false_iff.mpr fun hd => ?_⟩
    exact (digits c hd).2 (contains_singleton.mp hc)
  have quote : EndsBefore ⟨⟨true, [.single '\x22']⟩, .star⟩ ⟨singleton '\x22', .once⟩ := by
    refine .inr ⟨.inl rfl, fun c hc => Bool.eq_false_iff.mpr fun hd => ?_⟩
    exact contains_unquoted.mp hd (contains_singleton.mp hc)
  cases k with
  | openParen | closeParen | symbol => exact .singleton _
  | float => exact .cons_cons sign (.cons_cons point (.cons_cons (.inl rfl) (.singleton _)))
  | integer => exact .cons_cons sign (.singleton _)
  | string => exact .cons_cons (.inl rfl) (.cons_cons quote (.singleton _))

/-- An entry of the table takes what its pattern matches, since that is never empty. -/
theorem lexeme?_entry (k : Kind) (behind cs : List Char) :
    (entry k).lexeme? behind cs =
      (matchPieces (pattern k).pieces cs).map fun s => ⟨k, s.1, s.2⟩ := by
  have hdivide : (pattern k).recognizer.divide? behind cs = matchPieces (pattern k).pieces cs := rfl
  rw [TokenPattern.lexeme?, entry, hdivide]
  rcases h : matchPieces (pattern k).pieces cs with _ | ⟨_ | ⟨c, taken⟩, left⟩
  · rfl
  · exact absurd rfl (ne_nil_of_mem_texts (generates_pattern.mp (generates_of_matchPieces h)))
  · rfl

theorem matchPieces_eq_none_iff :
    matchPieces (pattern k).pieces cs = none ↔ ∀ a, a <+: cs → a ∉ texts k := by
  constructor
  · rintro h a ⟨left, rfl⟩ ha
    have hsome := matchPieces_isSome_of_generates (generates_pattern.mpr ha) left
    rw [h] at hsome
    contradiction
  · intro h
    cases hm : matchPieces (pattern k).pieces cs with
    | none => rfl
    | some split =>
      obtain ⟨a, left⟩ := split
      have hfront : a <+: cs := ⟨left, divides_matchPieces _ _ _ _ hm⟩
      exact absurd (generates_pattern.mp (generates_of_matchPieces hm)) (h a hfront)

theorem matchPieces_eq_some_iff :
    (∃ left, matchPieces (pattern k).pieces cs = some (a, left)) ↔ IsLongest (texts k) a cs := by
  have sound : ∀ b left, matchPieces (pattern k).pieces cs = some (b, left) →
      IsLongest (texts k) b cs := by
    intro b left h
    have hl := isLongest_of_matchPieces (separated_pattern k) h
    exact ⟨hl.front, generates_pattern.mp hl.mem,
      fun d hd hmem => hl.longest d hd (generates_pattern.mpr hmem)⟩
  constructor
  · rintro ⟨left, h⟩
    exact sound a left h
  · intro h
    cases hm : matchPieces (pattern k).pieces cs with
    | none => exact absurd h.mem (matchPieces_eq_none_iff.mp hm a h.front)
    | some split =>
      obtain ⟨b, left⟩ := split
      rw [h.unique (sound b left hm)]
      exact ⟨left, rfl⟩

/-- What an entry matches at an offset of a text. -/
theorem matchAt?_entry {text : String} {pos : Nat} (hpos : pos ≤ text.length) :
    (entry k).matchAt? text pos =
      (matchPieces (pattern k).pieces (text.toList.drop pos)).map fun s => String.ofList s.1 := by
  have hsplit : (text.toList.take pos).reverse.reverse ++ text.toList.drop pos = text.toList := by
    rw [List.reverse_reverse, List.take_append_drop]
  have hlength : (text.toList.take pos).reverse.length = pos := by
    rw [List.length_reverse, List.length_take, String.length_toList, Nat.min_eq_left hpos]
  have hmatch := TokenPattern.matchAt?_eq (p := entry k) hsplit
  rw [hlength, lexeme?_entry, Option.map_map] at hmatch
  exact hmatch

end Lexical

open Lexical Pattern

/-- At every offset of a text, an entry of the standard table matches the longest text of its
kind that stands there, and nothing if there is none. -/
theorem standard_entry_matches_longest {p : TokenPattern} (hp : p ∈ Table.standard)
    {text : String} {pos : Nat} (hpos : pos ≤ text.length) :
    (∀ s, p.matchAt? text pos = some s ↔
      s ≠ "" ∧ IsLongest (texts p.kind) s.toList (text.toList.drop pos)) ∧
    (p.matchAt? text pos = none ↔ ∀ a, a <+: text.toList.drop pos → a ∉ texts p.kind) := by
  rw [standard_eq_map] at hp
  obtain ⟨k, -, rfl⟩ := List.mem_map.mp hp
  rw [matchAt?_entry hpos]
  refine ⟨fun s => ?_, Option.map_eq_none_iff.trans matchPieces_eq_none_iff⟩
  rw [Option.map_eq_some_iff]
  constructor
  · rintro ⟨⟨a, left⟩, hm, rfl⟩
    have hlongest : IsLongest (texts k) a _ := matchPieces_eq_some_iff.mp ⟨left, hm⟩
    rw [String.toList_ofList]
    refine ⟨fun h => ne_nil_of_mem_texts hlongest.mem ?_, hlongest⟩
    rw [← String.toList_ofList (l := a), h]
    rfl
  · rintro ⟨-, hlongest⟩
    obtain ⟨left, hm⟩ := matchPieces_eq_some_iff.mpr hlongest
    exact ⟨(s.toList, left), hm, String.ofList_toList⟩

/-- Where a fraction stands, an integer stands, too, and ends where its first digits must. -/
theorem standard_entry_matches_longest_fraction :
    entry .float ∈ Table.standard ∧ 2 ≤ "x -12.50.5".length ∧
    IsLongest (texts .float) "-12.50".toList ("x -12.50.5".toList.drop 2) ∧
    IsLongest (texts .integer) "-12".toList ("x -12.50.5".toList.drop 2) ∧
    ∀ a, a <+: "x -12.50.5".toList.drop 2 → a ∉ texts .string := by
  have hfloat : entry .float ∈ Table.standard := by simp [standard_eq_map, Kind.all]
  have hinteger : entry .integer ∈ Table.standard := by simp [standard_eq_map, Kind.all]
  have hstring : entry .string ∈ Table.standard := by simp [standard_eq_map, Kind.all]
  have hpos : 2 ≤ "x -12.50.5".length := by decide
  refine ⟨hfloat, hpos, ?_, ?_, ?_⟩
  · exact (((standard_entry_matches_longest hfloat hpos).1 "-12.50").mp (by decide +kernel)).2
  · exact (((standard_entry_matches_longest hinteger hpos).1 "-12").mp (by decide +kernel)).2
  · exact (standard_entry_matches_longest hstring hpos).2.mp (by decide +kernel)

end StackLisp
