namespace PipelineCompiler

/-!
# Name policies

Targets restrict the names of templates, tasks and components to lower-case letters, digits and
dashes, up to a length.

* `NamePolicy` — the length and the text between a name and its number;
* `NamePolicy.sanitize` — a legal name for any text;
* `NamePolicy.withSuffix?` — the same name with a number behind it;
* `sanitizeIoName` — the names of parameters and artifacts, which keep case and underscores;
* `generateName` — the stem from which the names of runs are made.
-/

/-- A text without its characters beyond a limit.  A negative limit counts from the end. -/
def cut (limit : Int) (cs : List Char) : List Char :=
  if 0 ≤ limit then cs.take limit.toNat else cs.take (cs.length - limit.natAbs)

/-- A text without its characters beyond a limit, if there is one. -/
def cutTo (limit : Option Int) (cs : List Char) : List Char :=
  match limit with
  | some limit => cut limit cs
  | none => cs

/-- A text without the dashes at its end. -/
def trimDashes (cs : List Char) : List Char := (cs.reverse.dropWhile (· == '-')).reverse

/-- The lower case of a character.  Besides the letters of ASCII two characters have one that
    contains such a letter: the Kelvin sign and the capital I with a dot.  Every other
    character may stay, because no name contains it in either case. -/
def lowerLetter (c : Char) : List Char :=
  if c == '\u212a' then ['k']
  else if c == '\u0130' then ['i', '\u0307']
  else [c.toLower]

/-- The lower case of a text. -/
def lowerLetters (s : String) : List Char := s.toList.flatMap lowerLetter

/-- A lower-case letter or a digit of ASCII. -/
def isNameLetter (c : Char) : Bool := c.isLower || c.isDigit

/-- Replaces every run of dashes by one dash. -/
def squeezeDashes : List Char → List Char
  | '-' :: '-' :: rest => squeezeDashes ('-' :: rest)
  | c :: rest => c :: squeezeDashes rest
  | [] => []

/-- What a target asks of names.  Without a length names are never cut, but then there is no room
    for a number either. -/
structure NamePolicy where
  maxLength : Option Int
  delimiter : String := "-"
deriving Repr, DecidableEq

namespace NamePolicy

/-- The policy of Kubernetes resources. -/
def kubernetes (maxLength : Option Int := some 63) : NamePolicy := { maxLength }

/-- The policy of Vertex AI resources. -/
def cloud (maxLength : Option Int := some 128) : NamePolicy := { maxLength }

/-- A legal name for a text: everything but letters, digits and dashes turns into single dashes,
    the name starts with a letter or digit, and it is cut to its length without a dash at its
    end. -/
def sanitize (p : NamePolicy) (s : String) : String :=
  let plain := (lowerLetters s).map fun c => if isNameLetter c then c else '-'
  let squeezed := squeezeDashes plain
  let started := if squeezed.head?.any isNameLetter then squeezed else 'i' :: 'd' :: squeezed
  let name := trimDashes (cutTo p.maxLength started)
  if name.isEmpty then "id" else String.ofList name

/-- A name with a number, cut so that both have room within a length. -/
def numbered (p : NamePolicy) (limit : Int) (base : String) (index : Int) : String :=
  let suffix := p.delimiter ++ toString index
  String.ofList (trimDashes (cut (limit - suffix.length) base.toList)) ++ suffix

/-- A name with a number, if names have a length. -/
def withSuffix? (p : NamePolicy) (base : String) (index : Int) : Option String :=
  p.maxLength.map fun limit => p.numbered limit base index

end NamePolicy

/-- The name of a parameter or artifact: every character but letters, digits, dashes and
    underscores turns into a dash. -/
def sanitizeIoName (s : String) : String :=
  s.map fun c => if c.isAlphanum || c == '-' || c == '_' then c else '-'

/-- The stem of the names of runs; without any name it is `pipeline-`. -/
def generateName (name : String) (limit : Option Int := some 240) : String :=
  let plain := (lowerLetters name).map fun c =>
    if isNameLetter c || c == '-' || c == '.' then c else '-'
  let stem := if plain.isEmpty then "pipeline-".toList else plain
  String.ofList (cutTo limit stem)

end PipelineCompiler
