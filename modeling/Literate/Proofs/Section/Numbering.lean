import Literate.Proofs.Path.Spelling
import Literate.Section
import Mathlib.Data.List.Lex

/-! # Section numbers

    Sections are ordered by their numbers, as lists are, so that what is known of
    that order is known of sections (`Section.compare_eq_lt_iff`).

    * A heading of any level makes numbers that come behind the numbers before
      it, whether it goes deeper, stays, or comes back up
      (`Section.lt_advance`).
    * Numbers start at one.  The label of a section can then be read back
      (`Section.label_eq_iff`): no number has a dot in it, and no number is `0`,
      which stands for having none. -/

namespace Literate

/-! ## The order of sections -/

/-- Lists of numbers are compared as lists are. -/
theorem compareLists_eq_lt_iff (as bs : List Nat) :
    compareLists Ord.compare as bs = .lt ↔ as < bs := by
  induction as generalizing bs with
  | nil =>
      cases bs with
      | nil => simp [compareLists]
      | cons b bs => simp [compareLists]
  | cons a as ih =>
      cases bs with
      | nil => simp [compareLists]
      | cons b bs =>
          rw [List.cons_lt_cons_iff, ← ih bs, compareLists]
          cases hab : Ord.compare a b with
          | lt =>
              have hlt : a < b := Nat.compare_eq_lt.mp hab
              simp [hlt]
          | eq =>
              have heq : a = b := Nat.compare_eq_eq.mp hab
              simp [heq]
          | gt =>
              have hgt : b < a := Nat.compare_eq_gt.mp hab
              have hnot : ¬ a < b := by omega
              have hne : a ≠ b := by omega
              simp [hnot, hne]

namespace Section

/-- A section comes before another if its numbers do. -/
theorem compare_eq_lt_iff {s t : Section} : s.compare t = .lt ↔ s.numbers < t.numbers :=
  compareLists_eq_lt_iff s.numbers t.numbers

theorem compare_ne_gt_iff {s t : Section} : s.compare t ≠ .gt ↔ s.numbers ≤ t.numbers := by
  have hswap : (s.compare t).swap = t.compare s :=
    compareLists_swap (fun a b => Nat.compare_swap a b) s.numbers t.numbers
  rw [← not_lt, ← compare_eq_lt_iff, ← hswap]
  cases s.compare t <;> simp

/-- Sections in the order of their numbers are sorted. -/
theorem pairwise_sortBy_compare (sections : List Section) :
    (sortBy compare sections).Pairwise fun s t => s.compare t ≠ .gt := by
  have htrans : ∀ s t u : Section, (s.compare t != .gt) = true → (t.compare u != .gt) = true →
      (s.compare u != .gt) = true := by
    intro s t u hst htu
    simp only [bne_iff_ne, compare_ne_gt_iff] at hst htu ⊢
    exact le_trans hst htu
  have htotal : ∀ s t : Section, (s.compare t != .gt || t.compare s != .gt) = true := by
    intro s t
    simp only [Bool.or_eq_true, bne_iff_ne, compare_ne_gt_iff]
    exact le_total s.numbers t.numbers
  exact (List.pairwise_mergeSort htrans htotal sections).imp fun hle => bne_iff_ne.mp hle

/-! ## Counting -/

/-- The signs of a heading are counted, and there is at least one. -/
theorem level_of_heading? {line text : Text} {level : Nat}
    (h : Line.heading? line = some (level, text)) :
    level = (line.takeWhile (· == '#')).length ∧ 1 ≤ level := by
  simp only [Line.heading?] at h
  split at h
  · cases h
  · next hparts =>
      obtain ⟨hlevel, -⟩ := Prod.mk.inj (Option.some.inj h)
      rw [Bool.or_eq_true, not_or, List.isEmpty_iff] at hparts
      refine ⟨hlevel.symm, ?_⟩
      rw [← hlevel]
      exact List.length_pos_iff.mpr hparts.1

/-- A heading has as many numbers as its level says. -/
theorem length_advance (numbers : List Nat) {level : Nat} (h : 1 ≤ level) :
    (advance numbers level).length = level := by
  rw [advance]
  split
  · rw [List.length_append, List.length_replicate]
    omega
  · rw [List.length_append, List.length_take, List.length_singleton]
    omega

/-- Numbers that start at one go on from one. -/
theorem one_le_of_mem_advance {numbers : List Nat} (h : ∀ n ∈ numbers, 1 ≤ n) (level : Nat) :
    ∀ n ∈ advance numbers level, 1 ≤ n := by
  intro n hn
  rw [advance] at hn
  split at hn
  · rcases List.mem_append.mp hn with hn | hn
    · exact h n hn
    · exact Nat.le_of_eq (List.eq_of_mem_replicate hn).symm
  · rcases List.mem_append.mp hn with hn | hn
    · exact h n (List.mem_of_mem_take hn)
    · rw [List.mem_singleton.mp hn]
      exact Nat.le_add_left 1 _

/-- A heading comes behind the numbers before it. -/
theorem lt_advance (numbers : List Nat) {level : Nat} (h : 1 ≤ level) :
    numbers < advance numbers level := by
  rw [advance]
  split
  · next hdeeper =>
      -- new counters go behind the old ones
      obtain ⟨more, hmore⟩ : ∃ more, level - numbers.length = more + 1 :=
        ⟨level - numbers.length - 1, by omega⟩
      have hlt : numbers ++ [] < numbers ++ 1 :: List.replicate more 1 :=
        List.append_left_lt (List.nil_lt_cons 1 (List.replicate more 1))
      rw [List.append_nil] at hlt
      rw [hmore, List.replicate_succ]
      exact hlt
  · next hdeeper =>
      -- the counter of the level goes up, and those below it are dropped
      have hlevel : level - 1 < numbers.length := by omega
      have hsplit : numbers
          = numbers.take (level - 1) ++ numbers[level - 1] :: numbers.drop (level - 1 + 1) := by
        rw [List.getElem_cons_drop, List.take_append_drop]
      have hcount : numbers.getD (level - 1) 0 = numbers[level - 1] := by
        rw [List.getD_eq_getElem?_getD, List.getElem?_eq_getElem hlevel, Option.getD_some]
      have hup : numbers[level - 1] :: numbers.drop (level - 1 + 1) < [numbers[level - 1] + 1] :=
        List.cons_lt_cons_iff.mpr (Or.inl (Nat.lt_succ_self _))
      calc numbers
          = numbers.take (level - 1) ++ numbers[level - 1] :: numbers.drop (level - 1 + 1) := hsplit
        _ < numbers.take (level - 1) ++ [numbers[level - 1] + 1] := List.append_left_lt hup
        _ = numbers.take (level - 1) ++ [numbers.getD (level - 1) 0 + 1] := by rw [hcount]

end Section

/-! ## Labels -/

namespace Text

/-- Parts without a separator are read back from between the separators. -/
theorem splitOn_join {sep : Char} {parts : List Text} (hne : parts ≠ [])
    (h : ∀ part ∈ parts, sep ∉ part) : splitOn sep (join [sep] parts) = parts := by
  induction parts with
  | nil => exact absurd rfl hne
  | cons part parts ih =>
      have hpart := splitOn_of_notMem (h part List.mem_cons_self)
      cases parts with
      | nil =>
          rw [join, List.intercalate_singleton]
          exact hpart
      | cons next parts =>
          rw [join_cons_cons, List.singleton_append, splitOn_append, hpart,
            ih (List.cons_ne_nil _ _) fun p hp => h p (List.mem_cons_of_mem _ hp)]
          rfl

theorem ofNat_injective {m n : Nat} (h : ofNat m = ofNat n) : m = n := by
  have hvalue := congrArg (Nat.ofDigitChars 10 · 0) h
  simp only [ofNat, Nat.ofDigitChars_ten_toDigits] at hvalue
  exact hvalue

theorem dot_notMem_ofNat (n : Nat) : '.' ∉ ofNat n := by
  intro hdot
  have hdigit := Nat.isDigit_of_mem_toDigits (by decide) (by decide) hdot
  exact absurd hdigit (by decide)

end Text

namespace Section

/-- The label of a section tells its numbers, if they start at one. -/
theorem label_eq_iff {s t : Section} (hs : ∀ n ∈ s.numbers, 1 ≤ n) (ht : ∀ n ∈ t.numbers, 1 ≤ n) :
    s.label = t.label ↔ s.numbers = t.numbers := by
  have hread : ∀ u : Section, u.numbers ≠ [] →
      Text.splitOn '.' u.label = u.numbers.map Text.ofNat := by
    intro u hne
    rw [label, if_neg (by simpa using hne)]
    refine Text.splitOn_join (by simpa using hne) fun part hpart => ?_
    obtain ⟨n, -, rfl⟩ := List.mem_map.mp hpart
    exact Text.dot_notMem_ofNat n
  -- read as numbers, the label `0` would be the number zero
  have hroot : ∀ u : Section, u.numbers = [] → Text.splitOn '.' u.label = [0].map Text.ofNat := by
    intro u hu
    rw [label, hu]
    rfl
  have hmap : ∀ {as bs : List Nat}, as.map Text.ofNat = bs.map Text.ofNat → as = bs :=
    fun h => (List.map_inj_right fun _ _ => Text.ofNat_injective).mp h
  constructor
  · intro hlabel
    have hparts := congrArg (Text.splitOn '.') hlabel
    by_cases hsroot : s.numbers = [] <;> by_cases htroot : t.numbers = []
    · rw [hsroot, htroot]
    · rw [hroot s hsroot, hread t htroot] at hparts
      have hzero := ht 0 (hmap hparts ▸ List.mem_cons_self)
      omega
    · rw [hread s hsroot, hroot t htroot] at hparts
      have hzero := hs 0 (hmap hparts ▸ List.mem_cons_self)
      omega
    · rw [hread s hsroot, hread t htroot] at hparts
      exact hmap hparts
  · intro hnumbers
    rw [label, label, hnumbers]

theorem anchor_eq_iff {s t : Section} : s.anchor = t.anchor ↔ s.label = t.label := by
  unfold anchor
  constructor
  · intro h
    exact List.append_cancel_left h
  · intro h
    rw [h]

end Section

end Literate
