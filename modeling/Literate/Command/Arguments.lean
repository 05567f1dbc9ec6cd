import Literate.Build.Report
import Literate.Settings.Basic

/-!
# Command lines

A command line is a verb with options around it. Options that hold for every verb stand before or
behind it, and one given behind the verb wins; options of a verb stand behind it. On either side an
option may be given once.

An option is written with its long name behind two dashes or with its letter behind one. A value
follows an equals sign, the letter itself, or as the next argument, which then must not look like an
option. Letters without a value can share a dash. Behind two dashes alone nothing is an option.
-/

namespace Literate

/-- What a command does with its document set. -/
inductive Verb where
  | build
  | tangle
  | weave
  | check
  deriving DecidableEq

namespace Verb

/-- All verbs. -/
def all : List Verb := [.build, .tangle, .weave, .check]

/-- The word on the command line. -/
def word : Verb → String
  | .build => "build"
  | .tangle => "tangle"
  | .weave => "weave"
  | .check => "check"

/-- The verb that a word stands for. -/
def ofWord? (t : Text) : Option Verb :=
  all.find? fun v => v.word.toList == t

/-- The outputs that a verb asks for. -/
def stages : Verb → Stages
  | .build => .build
  | .tangle => .tangleOnly
  | .weave => .weaveOnly
  | .check => .check

end Verb

/-- The options of a command line. -/
inductive Switch where
  | settingsFile
  | directory
  | verbose
  | book
  | directive
  | outDir
  | marker
  | json
  deriving DecidableEq

namespace Switch

/-- What follows an option. -/
inductive Arity where
  | nothing
  | text
  /-- A text that must not be empty. -/
  | path
  deriving DecidableEq

/-- All options. -/
def all : List Switch :=
  [.settingsFile, .directory, .verbose, .book, .directive, .outDir, .marker, .json]

/-- The long name of an option. -/
def longName : Switch → String
  | .settingsFile => "config"
  | .directory => "directory"
  | .verbose => "verbose"
  | .book => "book"
  | .directive => "line-dir"
  | .outDir => "doc-out-dir"
  | .marker => "chunk-marker"
  | .json => "json"

/-- The letter of an option. -/
def letter? : Switch → Option Char
  | .settingsFile => some 'c'
  | .directory => some 'C'
  | .verbose => some 'v'
  | .book => some 'b'
  | _ => none

/-- What follows an option. -/
def arity : Switch → Arity
  | .settingsFile | .directory | .outDir => .path
  | .directive | .marker => .text
  | .verbose | .book | .json => .nothing

/-- Whether an option can stand before the verb, or behind a given one. -/
def fits : Switch → Option Verb → Bool
  | .settingsFile, _ | .directory, _ | .verbose, _ => true
  | .book, some _ => true
  | .json, some v => v == .check
  | .directive, some v | .outDir, some v | .marker, some v => v != .check
  | _, none => false

end Switch

/-- Why a command line is refused. -/
inductive UsageError where
  | missingVerb
  | missingInput
  | missingValue (option : Switch)
  | unexpectedValue (option : Switch)
  | repeated (option : Switch)
  | unexpected (argument : Text)

namespace UsageError

/-- The error in words. -/
def message : UsageError → String
  | .missingVerb => "a command is required: build, tangle, weave or check"
  | .missingInput => "the root document is not given"
  | .missingValue option => "a value is required for '--" ++ option.longName ++ "'"
  | .unexpectedValue option => "no value is expected for '--" ++ option.longName ++ "'"
  | .repeated option => "'--" ++ option.longName ++ "' cannot be used more than once"
  | .unexpected argument => "unexpected argument '" ++ String.ofList argument ++ "'"

end UsageError

/-- The shape of one argument. -/
inductive Argument where
  | long (name : Text) (value : Option Text)
  | letters (letters : Text)
  /-- Two dashes, behind which nothing is an option. -/
  | divider
  | word (t : Text)

namespace Argument

/-- The shape of an argument. A single dash is a word. -/
def ofText : Text → Argument
  | ['-', '-'] => .divider
  | '-' :: '-' :: rest =>
    let name := rest.takeWhile (· != '=')
    match rest.drop name.length with
    | _ :: value => .long name (some value)
    | [] => .long name none
  | ['-'] => .word ['-']
  | '-' :: cs => .letters cs
  | t => .word t

end Argument

/-- What was given on one side of the verb. -/
structure Given where
  switches : List (Switch × Text)
  words : List Text

namespace Given

/-- Nothing given. -/
def none : Given := ⟨[], []⟩

/-- The value of an option. -/
def value? (g : Given) (s : Switch) : Option Text :=
  g.switches.lookup s

/-- Whether an option was given. -/
def has (g : Given) (s : Switch) : Bool :=
  (g.value? s).isSome

/-- One option more, with its value. -/
def add (g : Given) (s : Switch) (value : Text) : Except UsageError Given :=
  if g.has s then .error (.repeated s)
  else if s.arity == .path && value.isEmpty then .error (.missingValue s)
  else .ok { g with switches := g.switches ++ [(s, value)] }

/-- One word more. -/
def addWord (g : Given) (t : Text) : Given :=
  { g with words := g.words ++ [t] }

/-- The options under letters that share a dash. The last one may still wait for its value. -/
def addLetters (verb : Option Verb) (g : Given) : Text → Except UsageError (Given × Option Switch)
  | [] => .ok (g, Option.none)
  | c :: rest =>
    match Switch.all.find? fun s => s.letter? == some c && s.fits verb with
    | Option.none => .error (.unexpected ['-', c])
    | some s =>
      if s.arity == .nothing then do (← g.add s []).addLetters verb rest
      else match rest with
        | [] => .ok (g, some s)
        | '=' :: value => do .ok (← g.add s value, Option.none)
        | value => do .ok (← g.add s value, Option.none)

/-- The option under a long name. It may still wait for its value. -/
def addLong (verb : Option Verb) (g : Given) (name : Text) (value : Option Text) :
    Except UsageError (Given × Option Switch) :=
  match Switch.all.find? fun s => s.longName.toList == name && s.fits verb with
  | Option.none => .error (.unexpected ('-' :: '-' :: name))
  | some s =>
    match value with
    | some value =>
      if s.arity == .nothing then .error (.unexpectedValue s)
      else do .ok (← g.add s value, Option.none)
    | Option.none =>
      if s.arity == .nothing then do .ok (← g.add s [], Option.none)
      else .ok (g, some s)

/-- Reads the arguments before the verb, or behind a given one. Before the verb, the first word ends
the reading; it is left with the arguments behind it. `waiting` is an option whose value is the next
argument. -/
def read (verb : Option Verb) (waiting : Option Switch) (g : Given) :
    List Text → Except UsageError (Given × List Text)
  | [] =>
    match waiting with
    | some s => .error (.missingValue s)
    | Option.none => .ok (g, [])
  | argument :: rest =>
    match waiting, Argument.ofText argument with
    | some s, .word value => do (← g.add s value).read verb Option.none rest
    | some s, _ => .error (.missingValue s)
    | Option.none, .long name value => do
      let (g, waiting) ← g.addLong verb name value
      g.read verb waiting rest
    | Option.none, .letters letters => do
      let (g, waiting) ← g.addLetters verb letters
      g.read verb waiting rest
    | Option.none, .divider =>
      match verb, rest with
      | some _, _ => .ok (rest.foldl addWord g, [])
      | Option.none, [] => .ok (g, [])
      | Option.none, word :: _ => .error (.unexpected word)
    | Option.none, .word t =>
      match verb with
      | some _ => (g.addWord t).read verb Option.none rest
      | Option.none => .ok (g, argument :: rest)

end Given

/-- A command line in full. -/
structure Command where
  verb : Verb
  /-- The root document. -/
  root : Path
  /-- The settings file to use instead of one that is looked for. -/
  settingsFile : Option Path
  /-- The base directory, if not the working directory. -/
  directory : Option Path
  verbose : Bool
  /-- Whether a check prints its report as JSON. -/
  json : Bool
  overrides : SettingsOverrides

namespace Command

/-- The command that was given before and behind a verb. -/
def ofGiven (verb : Verb) (before behind : Given) (root : Text) : Command :=
  let value? (s : Switch) : Option Text := behind.value? s <|> before.value? s
  { verb
    root := ⟨root⟩
    settingsFile := (value? .settingsFile).map Path.mk
    directory := (value? .directory).map Path.mk
    verbose := (value? .verbose).isSome
    json := behind.has .json
    overrides :=
      { book := behind.has .book
        directive := (behind.value? .directive).map Directive.mk
        outDir := (behind.value? .outDir).map Path.mk
        marker := behind.value? .marker } }

/-- Reads a command line. -/
def parse (arguments : List Text) : Except UsageError Command := do
  let (before, rest) ← Given.none.read none none arguments
  match rest with
  | [] => .error .missingVerb
  | word :: rest =>
    match Verb.ofWord? word with
    | none => .error (.unexpected word)
    | some verb => do
      let (behind, _) ← Given.none.read (some verb) none rest
      match behind.words with
      | [] => .error .missingInput
      | [root] => if root.isEmpty then .error .missingInput else .ok (ofGiven verb before behind root)
      | _ :: extra :: _ => .error (.unexpected extra)

end Command

end Literate
