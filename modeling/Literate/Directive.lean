import Literate.Text.Basic

/-!
# Line directives

A directive is written before every tangled line, so that the tools which read the tangled file can
lead back to the document. Its pattern is a row of tokens: `%f`, `%l` and `%i` stand for the
document, the line number and the indentation; `%` before any other character stands for that
character; a single `%` at the very end stands for nothing. The empty pattern writes nothing at all.
-/

namespace Literate

/-- The pattern of a line directive. -/
structure Directive where
  pattern : Text
  deriving DecidableEq

/-- A token of a pattern. -/
inductive DirectiveToken where
  | literal (c : Char)
  | indent
  | file
  | line
  deriving DecidableEq

namespace Directive

/-- The pattern that writes nothing. -/
def none : Directive := ⟨[]⟩

/-- Whether the directive writes anything. -/
def isEnabled (d : Directive) : Bool :=
  !d.pattern.isEmpty

/-- What the character behind a `%` stands for. -/
def escape (c : Char) : DirectiveToken :=
  match c with
  | 'i' => .indent
  | 'f' => .file
  | 'l' => .line
  | c => .literal c

/-- The tokens of a pattern. -/
def tokens : Text → List DirectiveToken
  | [] => []
  | ['%'] => []
  | '%' :: c :: rest => escape c :: tokens rest
  | c :: rest => .literal c :: tokens rest

/-- What a token stands for. -/
def value (indent file : Text) (line : Nat) : DirectiveToken → Text
  | .literal c => [c]
  | .indent => indent
  | .file => file
  | .line => Text.ofNat line

/-- The directive for one line, with its line feed. -/
def format (d : Directive) (indent file : Text) (line : Nat) : Text :=
  if d.isEnabled then (tokens d.pattern).flatMap (value indent file line) ++ ['\n'] else []

end Directive

end Literate
