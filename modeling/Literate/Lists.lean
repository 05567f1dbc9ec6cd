/-!
# Lists

What the library says about lists in general: how a filter that asks for more keeps fewer items,
where a list begins again from one of its items, and how items are added to a list so that none
comes up twice.
-/

namespace Literate

variable {α : Type}

/-! ## Filters -/

/-- A filter that asks for more keeps no more items. -/
theorem length_filter_le {p q : α → Bool} (as : List α) (h : ∀ x, q x = true → p x = true) :
    (as.filter q).length ≤ (as.filter p).length := by
  rw [← List.countP_eq_length_filter, ← List.countP_eq_length_filter]
  exact List.countP_mono_left fun x _ hx => h x hx

/-- A filter that asks for more and refuses an item that was kept keeps fewer items. -/
theorem length_filter_lt {p q : α → Bool} {as : List α} {a : α}
    (h : ∀ x, q x = true → p x = true) (ha : a ∈ as) (hp : p a = true) (hq : q a = false) :
    (as.filter q).length < (as.filter p).length := by
  have htwice : as.filter q = (as.filter p).filter q := by
    rw [List.filter_filter]
    refine List.filter_congr fun x _ => ?_
    cases hx : q x with
    | true => rw [h x hx]; rfl
    | false => rfl
  rw [htwice, List.length_filter_lt_length_iff_exists]
  exact ⟨a, List.mem_filter.2 ⟨ha, hp⟩, by rw [hq]; exact Bool.false_ne_true⟩

/-! ## Ends of a list -/

/-- From the first occurrence of an item on, a list begins with that item. -/
theorem exists_dropWhile_eq_cons [BEq α] [LawfulBEq α] {as : List α} {a : α} (h : a ∈ as) :
    ∃ rest, as.dropWhile (· != a) = a :: rest := by
  induction as with
  | nil => exact nomatch h
  | cons b as ih =>
    by_cases hb : b = a
    · refine ⟨as, ?_⟩
      rw [List.dropWhile_cons_of_neg (by simpa using hb), hb]
    · rw [List.dropWhile_cons_of_pos (by simpa using hb)]
      refine ih ?_
      rcases List.mem_cons.1 h with heq | hmem
      · exact absurd heq.symm hb
      · exact hmem

/-! ## Items without repetition -/

/-- The item added at the end, unless it is there already. -/
def addNew [BEq α] (as : List α) (a : α) : List α :=
  if as.contains a then as else as ++ [a]

/-- What was there stays, and the new item is the only one that can join. -/
theorem mem_addNew [BEq α] [LawfulBEq α] {as : List α} {a b : α} :
    b ∈ addNew as a ↔ b ∈ as ∨ b = a := by
  unfold addNew
  split
  · next h => exact ⟨Or.inl, fun h' => h'.elim id fun e => e ▸ List.contains_iff_mem.1 h⟩
  · simp

/-- Adding never makes a repetition. -/
theorem nodup_addNew [BEq α] [LawfulBEq α] {as : List α} {a : α} (h : as.Nodup) :
    (addNew as a).Nodup := by
  unfold addNew
  split
  · exact h
  · next h' =>
    have h' : a ∉ as := fun m => h' (List.contains_iff_mem.2 m)
    rw [List.nodup_append]
    exact ⟨h, by simp, fun x hx y hy => by
      rw [List.mem_singleton] at hy
      exact fun e => h' (hy ▸ e ▸ hx)⟩

/-- Adding items one after the other adds exactly these. -/
theorem mem_foldl_addNew [BEq α] [LawfulBEq α] {bs as : List α} {a : α} :
    a ∈ bs.foldl addNew as ↔ a ∈ as ∨ a ∈ bs := by
  induction bs generalizing as with
  | nil => simp
  | cons b bs ih => rw [List.foldl_cons, ih, mem_addNew, List.mem_cons, or_assoc]

/-- Adding items one after the other appends those that are new, each once. -/
theorem foldl_addNew [BEq α] (bs as : List α) :
    bs.foldl addNew as = as ++ (bs.filter fun b => !as.contains b).eraseDups := by
  induction bs generalizing as with
  | nil => exact (List.append_nil as).symm
  | cons b bs ih =>
    rw [List.foldl_cons, ih, addNew]
    by_cases hb : as.contains b = true
    · rw [if_pos hb, List.filter_cons_of_neg (by simp [hb])]
    · have hboth : (fun c => !(as ++ [b]).contains c)
          = fun c => (!c == b) && !as.contains c := by
        funext c
        simp [Bool.and_comm]
      rw [if_neg hb, List.filter_cons_of_pos (by simp [hb]), List.eraseDups_cons, hboth,
        List.append_assoc, List.singleton_append, List.filter_filter]

/-- Nothing is there that was not there before and was not added. -/
theorem mem_of_mem_foldl_addNew [BEq α] {c : α} {bs as : List α} (h : c ∈ bs.foldl addNew as) :
    c ∈ as ∨ c ∈ bs := by
  induction bs generalizing as with
  | nil => exact Or.inl h
  | cons b bs ih =>
    rcases ih h with hc | hc
    · rw [addNew] at hc
      split at hc
      · exact Or.inl hc
      · rcases List.mem_append.1 hc with hc | hc
        · exact Or.inl hc
        · exact Or.inr (List.mem_singleton.1 hc ▸ List.mem_cons_self)
    · exact Or.inr (List.mem_cons_of_mem b hc)

/-- Leaving items out before they are added is leaving them out of the result. -/
theorem filter_foldl_addNew [BEq α] [LawfulBEq α] (p : α → Bool) (bs as : List α) :
    (bs.foldl addNew as).filter p = (bs.filter p).foldl addNew (as.filter p) := by
  induction bs generalizing as with
  | nil => rfl
  | cons b bs ih =>
    have hstep : (addNew as b).filter p
        = if p b then addNew (as.filter p) b else as.filter p := by
      by_cases hb : b ∈ as <;> by_cases hp : p b <;> simp [addNew, hb, hp]
    rw [List.foldl_cons, ih, hstep, List.filter_cons]
    split <;> rfl

/-- Distinct items are all added. -/
theorem foldl_addNew_of_nodup [BEq α] [LawfulBEq α] {bs : List α} (h : bs.Nodup) :
    bs.foldl addNew [] = bs := by
  have hrun : ∀ as, (as ++ bs).Nodup → bs.foldl addNew as = as ++ bs := by
    clear h
    induction bs with
    | nil => intro as _; exact (List.append_nil as).symm
    | cons b bs ih =>
      intro as hnodup
      have hb : b ∉ as := fun hmem =>
        (List.nodup_append.1 hnodup).2.2 b hmem b List.mem_cons_self rfl
      have hadd : addNew as b = as ++ [b] := by
        rw [addNew, if_neg fun hc => hb (List.contains_iff_mem.1 hc)]
      rw [List.foldl_cons, hadd, ih, List.append_assoc]
      · rfl
      · rw [List.append_assoc]
        exact hnodup
  exact hrun [] h

end Literate
