/-!
# Text

Text is the list of its characters: concatenation is list append, and every law of lists is a law
of text. This module holds the operations that documents need on top of that: byte sizes, cutting at
a byte or a separator, and the passage between a text and its lines.

A line ends at a line feed, and one carriage return directly before the line feed belongs to the
line end. A last line without a line feed keeps its carriage return.
-/

namespace Literate

/-- A text is the list of its characters. -/
abbrev Text := List Char

namespace Text

/-- Number of bytes of the UTF-8 form. -/
def byteSize : Text → Nat
  | [] => 0
  | c :: rest => c.utf8Size + byteSize rest

@[simp] theorem byteSize_nil : byteSize [] = 0 := rfl

@[simp] theorem byteSize_cons (c : Char) (t : Text) :
    byteSize (c :: t) = c.utf8Size + byteSize t := rfl

@[simp] theorem byteSize_append (s t : Text) : byteSize (s ++ t) = byteSize s + byteSize t := by
  induction s with
  | nil => simp
  | cons c s ih => simp [ih, Nat.add_assoc]

/-- The text cut behind its first `n` bytes. There is no such cut inside a character or behind the
end. -/
def cutAt? (n : Nat) (t : Text) : Option (Text × Text) :=
  if n = 0 then some ([], t)
  else match t with
    | [] => none
    | c :: rest =>
      if c.utf8Size ≤ n then (cutAt? (n - c.utf8Size) rest).map fun cut => (c :: cut.1, cut.2)
      else none

theorem cutAt?_append (start rest : Text) :
    cutAt? (byteSize start) (start ++ rest) = some (start, rest) := by
  induction start with
  | nil => cases rest <;> rfl
  | cons c start ih =>
    have hpos := Char.utf8Size_pos c
    rw [List.cons_append, byteSize_cons, cutAt?, if_neg (by omega), if_pos (Nat.le_add_right _ _),
      Nat.add_sub_cancel_left, ih]
    rfl

theorem eq_append_of_cutAt? {n : Nat} {t start rest : Text} (h : cutAt? n t = some (start, rest)) :
    t = start ++ rest ∧ byteSize start = n := by
  fun_induction cutAt? n t generalizing start with
  | case1 t =>
    obtain ⟨rfl, rfl⟩ := Prod.mk.inj (Option.some.inj h)
    exact ⟨rfl, rfl⟩
  | case2 n hn => cases h
  | case3 n hn c t hle ih =>
    obtain ⟨cut, hcut, heq⟩ := Option.map_eq_some_iff.mp h
    obtain ⟨rfl, rfl⟩ := Prod.mk.inj heq
    obtain ⟨rfl, hsize⟩ := ih hcut
    exact ⟨rfl, by rw [byteSize_cons, hsize]; omega⟩
  | case4 n hn c t hle => cases h

/-- A cut behind `n` bytes is one whose first part has `n` bytes. -/
theorem cutAt?_eq_some_iff {n : Nat} {t start rest : Text} :
    cutAt? n t = some (start, rest) ↔ t = start ++ rest ∧ byteSize start = n := by
  constructor
  · exact eq_append_of_cutAt?
  · rintro ⟨rfl, rfl⟩
    exact cutAt?_append start rest

/-- Where the texts before have as many bytes, they are the same, and so are those behind. -/
theorem append_inj_of_byteSize {s s' t t' : Text} (h : s ++ t = s' ++ t')
    (hsize : byteSize s = byteSize s') : s = s' ∧ t = t' := by
  have hcut := cutAt?_append s t
  rw [h, hsize, cutAt?_append] at hcut
  exact Prod.mk.inj (Option.some.inj hcut.symm)

/-- The part of a text from one byte to another. -/
def slice? (t : Text) (start stop : Nat) : Option Text :=
  if start ≤ stop then
    (t.cutAt? start).bind fun cut => (cut.2.cutAt? (stop - start)).map Prod.fst
  else none

/-- The part from one byte to another has as many bytes before it as the first says, and ends at
the other. -/
theorem slice?_eq_some_iff {t part : Text} {start stop : Nat} :
    slice? t start stop = some part ↔
      ∃ before after, t = before ++ part ++ after ∧ byteSize before = start ∧
        byteSize (before ++ part) = stop := by
  constructor
  · intro h
    rw [slice?] at h
    split at h
    · next hle =>
      obtain ⟨⟨before, behind⟩, hbefore, h⟩ := Option.bind_eq_some_iff.mp h
      obtain ⟨⟨part', after⟩, hpart, rfl⟩ := Option.map_eq_some_iff.mp h
      obtain ⟨rfl, rfl⟩ := cutAt?_eq_some_iff.mp hbefore
      obtain ⟨hbehind, hsize⟩ := cutAt?_eq_some_iff.mp hpart
      obtain rfl : behind = part' ++ after := hbehind
      refine ⟨before, after, (List.append_assoc _ _ _).symm, rfl, ?_⟩
      rw [byteSize_append, hsize]
      omega
    · cases h
  · rintro ⟨before, after, rfl, rfl, rfl⟩
    rw [slice?, byteSize_append, if_pos (Nat.le_add_right _ _), List.append_assoc, cutAt?_append,
      Option.bind_some, Nat.add_sub_cancel_left, cutAt?_append]
    rfl

/-- The parts of a text between the separators; there is always at least one part. -/
def splitOn (sep : Char) : Text → List Text
  | [] => [[]]
  | c :: rest =>
    if c = sep then [] :: splitOn sep rest
    else match splitOn sep rest with
      | [] => [[c]]
      | part :: parts => (c :: part) :: parts

/-- The lines of a text, without their line ends. -/
def lines : Text → List Text
  | [] => []
  | '\n' :: rest => [] :: lines rest
  | '\r' :: '\n' :: rest => [] :: lines rest
  | c :: rest =>
    match lines rest with
    | [] => [[c]]
    | line :: more => (c :: line) :: more

/-- Every line followed by a line feed. -/
def unlines (ls : List Text) : Text :=
  ls.flatMap (· ++ ['\n'])

/-- What follows `start`, when the text begins with it. -/
def after? (start : Text) (t : Text) : Option Text :=
  match start, t with
  | [], t => some t
  | _ :: _, [] => none
  | a :: start, c :: t => if a = c then after? start t else none

theorem after?_eq_some_iff {start t rest : Text} :
    after? start t = some rest ↔ t = start ++ rest := by
  induction start generalizing t with
  | nil => cases t <;> simp [after?, eq_comm]
  | cons a start ih =>
    cases t with
    | nil => simp [after?]
    | cons c t =>
      by_cases h : a = c
      · simp [after?, h, ih]
      · simp [after?, h, Ne.symm h]

/-- Whether `part` occurs somewhere in the text. -/
def occurs (part : Text) : Text → Bool
  | [] => part.isEmpty
  | c :: rest => (after? part (c :: rest)).isSome || occurs part rest

/-- The decimal digits of a number. -/
def ofNat (n : Nat) : Text :=
  Nat.toDigits 10 n

/-- The longest end of the text whose characters all satisfy `p`. -/
def takeWhileEnd (p : Char → Bool) (t : Text) : Text :=
  (t.reverse.takeWhile p).reverse

/-- The text without its longest end of characters satisfying `p`. -/
def dropWhileEnd (p : Char → Bool) (t : Text) : Text :=
  (t.reverse.dropWhile p).reverse

/-- The parts put together with `sep` between neighbours. -/
def join (sep : Text) (parts : List Text) : Text :=
  List.intercalate sep parts

end Text

end Literate
