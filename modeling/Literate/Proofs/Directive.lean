import Literate.Directive
import Mathlib.Logic.ExistsUnique

/-! # Patterns, sign by sign

    In a run of `%` each one is read by how many stand before it, so what a
    place of a pattern means depends on all that comes before the place.  Signs
    say the same without places: a sign is a character other than `%`, or `%`
    with the character behind it, and a pattern is a row of signs, with perhaps
    one `%` left over at its end.

    * Every pattern is such a row in exactly one way
      (`Directive.exists_reading`, `Directive.Reading.eq_of_text_eq`), since no
      sign is the beginning of another (`Directive.Sign.append_inj`).
    * The tokens of a pattern are what its signs mean, one by one
      (`Directive.tokens_text`), and formatting puts the values of the signs one
      behind the other (`Directive.format_text`).
    * Rows put together are read as before, if nothing is left over in the first.
      A text with every `%` doubled is a row of signs that stand for its
      characters, so what the text holds is not read again. -/

namespace Literate

namespace Directive

/-- A sign of a pattern as it is written. -/
inductive Sign where
  | plain (c : Char) (ne : c ≠ '%')
  | escaped (c : Char)

namespace Sign

def text : Sign → Text
  | plain c _ => [c]
  | escaped c => ['%', c]

/-- What a sign stands for. -/
def value (indent file : Text) (line : Nat) : Sign → Text
  | plain c _ => [c]
  | escaped c =>
    if c = 'i' then indent
    else if c = 'f' then file
    else if c = 'l' then Text.ofNat line
    else [c]

/-- The token that a sign is read as. -/
def token : Sign → DirectiveToken
  | plain c _ => .literal c
  | escaped c => escape c

/-- The sign that stands for a character. -/
def quoted (c : Char) : Sign :=
  if h : c = '%' then escaped '%' else plain c h

/-- The sign with the names of the indentation and of the document written out. -/
def writtenOut (indent file : Text) : Sign → List Sign
  | plain c h => [plain c h]
  | escaped c =>
    if c = 'i' then indent.map quoted
    else if c = 'f' then file.map quoted
    else [escaped c]

/-- A row of signs tells its first one. -/
theorem append_inj {s s' : Sign} {t t' : Text} (h : s.text ++ t = s'.text ++ t') :
    s = s' ∧ t = t' := by
  cases s with
  | plain c hc =>
      cases s' with
      | plain c' hc' =>
          obtain ⟨rfl, rfl⟩ := List.cons.inj h
          exact ⟨rfl, rfl⟩
      | escaped c' => exact absurd (List.cons.inj h).1 hc
  | escaped c =>
      cases s' with
      | plain c' hc' => exact absurd (List.cons.inj h).1.symm hc'
      | escaped c' =>
          obtain ⟨-, hrest⟩ := List.cons.inj h
          obtain ⟨rfl, rfl⟩ := List.cons.inj hrest
          exact ⟨rfl, rfl⟩

/-- What is left over at the end is the beginning of no sign that is all there. -/
theorem append_ne_lone (s : Sign) (t : Text) (lone : Bool) :
    s.text ++ t ≠ if lone then ['%'] else [] := by
  intro h
  cases s with
  | plain c hc =>
      cases lone with
      | false => cases h
      | true => exact absurd (List.cons.inj h).1 hc
  | escaped c => cases lone <;> cases h

theorem value_token (indent file : Text) (line : Nat) (s : Sign) :
    Directive.value indent file line s.token = s.value indent file line := by
  cases s with
  | plain c h => rfl
  | escaped c =>
      show Directive.value indent file line (escape c) = _
      rw [value]
      unfold escape
      split
      · rfl
      · rfl
      · rfl
      · next hi hf hl => rw [if_neg hi, if_neg hf, if_neg hl, Directive.value]

theorem value_quoted (indent file : Text) (line : Nat) (c : Char) :
    (quoted c).value indent file line = [c] := by
  rw [quoted]
  split
  · next h => rw [h]; rfl
  · rfl

theorem flatMap_value_quoted (indent file : Text) (line : Nat) (t : Text) :
    (t.map quoted).flatMap (value indent file line) = t := by
  rw [List.flatMap_map]
  simp only [value_quoted]
  exact List.flatMap_singleton' t

/-- Written out, a sign stands for what it stood for, whatever the names are then. -/
theorem flatMap_value_writtenOut (indent file indent' file' : Text) (line : Nat) (s : Sign) :
    (s.writtenOut indent file).flatMap (value indent' file' line) = s.value indent file line := by
  cases s with
  | plain c h => rfl
  | escaped c =>
      rw [writtenOut, value]
      by_cases hi : c = 'i'
      · rw [if_pos hi, if_pos hi, flatMap_value_quoted]
      · by_cases hf : c = 'f'
        · rw [if_neg hi, if_neg hi, if_pos hf, if_pos hf, flatMap_value_quoted]
        · rw [if_neg hi, if_neg hi, if_neg hf, if_neg hf, List.flatMap_singleton, value,
            if_neg hi, if_neg hf]

end Sign

/-- A pattern taken apart: its signs, and whether a `%` is left over at the end. -/
structure Reading where
  signs : List Sign
  lone : Bool

namespace Reading

def text (r : Reading) : Text :=
  r.signs.flatMap Sign.text ++ if r.lone then ['%'] else []

/-- The pattern with the names of the indentation and of the document written out. -/
def writtenOut (indent file : Text) (r : Reading) : Reading :=
  ⟨r.signs.flatMap (Sign.writtenOut indent file), r.lone⟩

theorem text_plain (c : Char) (h : c ≠ '%') (signs : List Sign) (lone : Bool) :
    (Reading.mk (.plain c h :: signs) lone).text = c :: (Reading.mk signs lone).text := rfl

theorem text_escaped (c : Char) (signs : List Sign) (lone : Bool) :
    (Reading.mk (.escaped c :: signs) lone).text = '%' :: c :: (Reading.mk signs lone).text := rfl

/-- A row of signs without a rest goes before any other. -/
theorem text_append (signs : List Sign) (r : Reading) :
    signs.flatMap Sign.text ++ r.text = (Reading.mk (signs ++ r.signs) r.lone).text := by
  rw [text, text, List.flatMap_append, List.append_assoc]

theorem text_cons (s : Sign) (signs : List Sign) (lone : Bool) :
    (Reading.mk (s :: signs) lone).text = s.text ++ (Reading.mk signs lone).text :=
  List.append_assoc _ _ _

/-- No pattern is read in two ways. -/
theorem eq_of_text_eq {r r' : Reading} (h : r.text = r'.text) : r = r' := by
  obtain ⟨signs, lone⟩ := r
  obtain ⟨signs', lone'⟩ := r'
  induction signs generalizing signs' with
  | nil =>
      cases signs' with
      | nil =>
          cases lone with
          | false =>
              cases lone' with
              | false => rfl
              | true => cases h
          | true =>
              cases lone' with
              | false => cases h
              | true => rfl
      | cons s' signs' =>
          rw [text_cons] at h
          exact absurd h.symm (s'.append_ne_lone _ lone)
  | cons s signs ih =>
      cases signs' with
      | nil =>
          rw [text_cons] at h
          exact absurd h (s.append_ne_lone _ lone')
      | cons s' signs' =>
          rw [text_cons, text_cons] at h
          obtain ⟨rfl, hrest⟩ := Sign.append_inj h
          obtain ⟨rfl, rfl⟩ := Reading.mk.inj (ih signs' hrest)
          rfl

end Reading

/-- Every pattern can be read. -/
theorem exists_reading (p : Text) : ∃ r : Reading, r.text = p := by
  induction p using tokens.induct with
  | case1 => exact ⟨⟨[], false⟩, rfl⟩
  | case2 => exact ⟨⟨[], true⟩, rfl⟩
  | case3 c rest ih =>
      obtain ⟨r, rfl⟩ := ih
      exact ⟨⟨.escaped c :: r.signs, r.lone⟩, rfl⟩
  | case4 c rest halone hbefore ih =>
      have hc : c ≠ '%' := by
        intro hc
        cases rest with
        | nil => exact halone hc rfl
        | cons c' rest => exact hbefore c' rest hc rfl
      obtain ⟨r, rfl⟩ := ih
      exact ⟨⟨.plain c hc :: r.signs, r.lone⟩, rfl⟩

theorem tokens_plain {c : Char} (hc : c ≠ '%') (rest : Text) :
    tokens (c :: rest) = .literal c :: tokens rest := by
  rw [tokens]
  · intro h
    exact absurd h hc
  · intro c' rest' h
    exact absurd h hc

/-- The tokens of a pattern are what its signs mean. -/
theorem tokens_text (r : Reading) : tokens r.text = r.signs.map Sign.token := by
  obtain ⟨signs, lone⟩ := r
  induction signs with
  | nil => cases lone <;> rfl
  | cons s signs ih =>
      cases s with
      | plain c hc =>
          rw [Reading.text_plain, tokens_plain hc, ih]
          rfl
      | escaped c =>
          rw [Reading.text_escaped, tokens, ih]
          rfl

/-- A pattern is formatted to the values of its signs, one behind the other. -/
theorem format_text {r : Reading} (h : r.text ≠ []) (indent file : Text) (line : Nat) :
    (Directive.mk r.text).format indent file line
      = r.signs.flatMap (Sign.value indent file line) ++ ['\n'] := by
  have henabled : (Directive.mk r.text).isEnabled = true := by
    rw [isEnabled, Bool.not_eq_true', List.isEmpty_eq_false_iff]
    exact h
  rw [format, if_pos henabled, tokens_text, List.flatMap_map]
  simp only [Sign.value_token]

/-- The text with every `%` doubled. -/
def doubled (t : Text) : Text :=
  t.flatMap fun c => if c = '%' then ['%', '%'] else [c]

/-- A doubled text is read as the signs that stand for its characters. -/
theorem text_quoted (t : Text) : (Reading.mk (t.map Sign.quoted) false).text = doubled t := by
  have hsign (c : Char) : (Sign.quoted c).text = if c = '%' then ['%', '%'] else [c] := by
    rw [Sign.quoted]
    split <;> rfl
  rw [Reading.text, List.flatMap_map, doubled]
  simp only [hsign]
  exact List.append_nil _

theorem doubled_ne_nil {t : Text} (h : t ≠ []) : doubled t ≠ [] := by
  obtain ⟨c, rest, rfl⟩ := List.exists_cons_of_ne_nil h
  rw [doubled, List.flatMap_cons]
  split
  · exact List.cons_ne_nil _ _
  · exact List.cons_ne_nil _ _

/-- **Patterns are read sign by sign.**  Every pattern is a row of signs with perhaps
    one `%` left over at its end, in exactly one way, and it is formatted to the
    values of the signs in their order and a line feed.  What an indentation or the
    name of a document holds is not read again: the pattern in which they are written
    out, with every `%` doubled, is formatted to the same whatever the indentation and
    the document are then.  A pattern with nothing left over can be formatted apart
    from what follows it, and a text with every `%` doubled is formatted to itself. -/
theorem patterns_are_read_sign_by_sign (indent file : Text) (line : Nat) :
    (∀ p : Text, ∃! r : Reading, r.text = p) ∧
    (∀ r : Reading, r.text ≠ [] →
      (Directive.mk r.text).format indent file line
        = r.signs.flatMap (Sign.value indent file line) ++ ['\n']) ∧
    (∀ r : Reading, r.text ≠ [] → (r.writtenOut indent file).text ≠ [] →
      ∀ indent' file' : Text,
        (Directive.mk (r.writtenOut indent file).text).format indent' file' line
          = (Directive.mk r.text).format indent file line) ∧
    (∀ p q : Text, p ≠ [] → q ≠ [] → (∀ r : Reading, r.text = p → r.lone = false) →
      (Directive.mk (p ++ q)).format indent file line
        = ((Directive.mk p).format indent file line).dropLast
          ++ (Directive.mk q).format indent file line) ∧
    ∀ s : Text, s ≠ [] → (Directive.mk (doubled s)).format indent file line = s ++ ['\n'] := by
  refine ⟨?_, fun r hr => format_text hr indent file line, ?_, ?_, ?_⟩
  · intro p
    obtain ⟨r, hr⟩ := exists_reading p
    exact ⟨r, hr, fun r' hr' => Reading.eq_of_text_eq (hr'.trans hr.symm)⟩
  · intro r hr hout indent' file'
    rw [format_text hr, format_text hout, Reading.writtenOut, List.flatMap_assoc]
    simp only [Sign.flatMap_value_writtenOut]
  · intro p q hp hq hlone
    obtain ⟨⟨signs, lone⟩, rfl⟩ := exists_reading p
    obtain ⟨r, rfl⟩ := exists_reading q
    obtain rfl : lone = false := hlone ⟨signs, lone⟩ rfl
    have htext : (Reading.mk signs false).text ++ r.text
        = (Reading.mk (signs ++ r.signs) r.lone).text := by
      rw [← Reading.text_append, Reading.text]
      exact congrArg (· ++ r.text) (List.append_nil _)
    have hboth : (Reading.mk (signs ++ r.signs) r.lone).text ≠ [] := by
      rw [← htext]
      exact List.append_ne_nil_of_left_ne_nil hp _
    rw [htext, format_text hboth, format_text hp, format_text hq, List.dropLast_concat,
      List.flatMap_append, List.append_assoc]
  · intro s hs
    have hne : (Reading.mk (s.map Sign.quoted) false).text ≠ [] := by
      rw [text_quoted]
      exact doubled_ne_nil hs
    rw [← text_quoted, format_text hne, Sign.flatMap_value_quoted]

/-- Behind `%%` the letter `f` is itself, the `%` at the end stands for nothing, and the name of
    the document keeps its own `%l`. -/
theorem crowded_pattern_is_read :
    (Directive.mk ['%', '%', 'f', '%', 'f', ':', '%', 'l', '%']).format [] ['%', 'l'] 7
        = ['%', 'f', '%', 'l', ':', '7', '\n'] ∧
      (Directive.mk (doubled ['%', 'f', '%'])).format [] ['%', 'l'] 7
        = ['%', 'f', '%', '\n'] ∧
      (Directive.mk (['%', '%'] ++ ['f'])).format [] ['%', 'l'] 7 = ['%', 'f', '\n'] := by
  obtain ⟨hread, hformat, -, happend, hdoubled⟩ :=
    patterns_are_read_sign_by_sign [] ['%', 'l'] 7
  have hcolon : (':' : Char) ≠ '%' := by decide
  have hletter : ('f' : Char) ≠ '%' := by decide
  refine ⟨?_, hdoubled _ (by decide), ?_⟩
  · exact hformat
      ⟨[.escaped '%', .plain 'f' hletter, .escaped 'f', .plain ':' hcolon, .escaped 'l'], true⟩
      (List.cons_ne_nil _ _)
  · refine (happend ['%', '%'] ['f'] (by decide) (by decide) ?_).trans (by decide)
    intro r hr
    have hone : r = ⟨[.escaped '%'], false⟩ := (hread ['%', '%']).unique hr rfl
    rw [hone]

end Directive

end Literate
