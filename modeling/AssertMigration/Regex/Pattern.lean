import Mathlib.Data.List.Basic

/-!
# Patterns and templates of the migration scripts

The scripts call Python's `re.sub(pattern, repl, content)` with patterns from a small
fragment of the `re` syntax: literal characters, character classes (`[a-zA-Z_]`, `[^)]`,
`\s`, `\w`, `\d`), the quantifiers `*`, `+` and `*?` on one class, capturing groups that
are neither nested nor quantified, and backreferences. A pattern is a list of `Tok`s; the
helpers below build the tokens of each construct, so that a pattern reads as the regular
expression it transcribes. A replacement string is parsed into `Piece`s exactly as `re`
reads `\1`–`\9`.

Python's `str` is a sequence of code points, modelled as `List Char`.
-/

namespace AssertMigration

/-- Python's `\s` for a `str` pattern: the characters for which `str.isspace` holds. -/
def isPySpace (c : Char) : Bool :=
  let n := c.toNat
  (9 ≤ n && n ≤ 13) || (28 ≤ n && n ≤ 32) || n == 0x85 || n == 0xA0 || n == 0x1680 ||
    (0x2000 ≤ n && n ≤ 0x200A) || n == 0x2028 || n == 0x2029 || n == 0x202F ||
    n == 0x205F || n == 0x3000

/-- The part of the Unicode database that `re` consults for `\w` (`str.isalnum`) and `\d`
(`str.isdecimal`). Only its ASCII part is fixed: beyond it the tables depend on the
Unicode version of the Python build. -/
structure UnicodeDb where
  isAlnum : Char → Bool
  isDecimal : Char → Bool
  isAlnum_ascii : ∀ c : Char, c.toNat < 128 → isAlnum c = c.isAlphanum
  isDecimal_ascii : ∀ c : Char, c.toNat < 128 → isDecimal c = c.isDigit

/-- The ASCII restriction of the Unicode database, one of the admissible `UnicodeDb`s. -/
def UnicodeDb.ascii : UnicodeDb :=
  ⟨Char.isAlphanum, Char.isDigit, fun _ _ => rfl, fun _ _ => rfl⟩

/-- `\w` -/
def UnicodeDb.word (db : UnicodeDb) (c : Char) : Bool := db.isAlnum c || c == '_'

/-- `[a-zA-Z_]` -/
def identStart (c : Char) : Bool := c.isAlpha || c == '_'

/-- `[a-zA-Z0-9_]` -/
def identChar (c : Char) : Bool := c.isAlphanum || c == '_'

/-- `[a-zA-Z0-9_.\[\]()]` -/
def receiverChar (c : Char) : Bool :=
  identChar c || c == '.' || c == '[' || c == ']' || c == '(' || c == ')'

/-- `[a-zA-Z0-9_.\[\]()!]` -/
def receiverCharBang (c : Char) : Bool := receiverChar c || c == '!'

/-- `[a-zA-Z0-9_.\[\]()<>=!\s]` -/
def receiverCharCompare (c : Char) : Bool :=
  receiverChar c || c == '<' || c == '>' || c == '=' || c == '!' || isPySpace c

/-- `[^d]` -/
def notChar (d c : Char) : Bool := c != d

theorem notChar_of_not_mem {d : Char} {a : List Char} (h : d ∉ a) :
    ∀ c ∈ a, notChar d c = true := fun c hc => by
  simp only [notChar, bne_iff_ne, ne_eq]; rintro rfl; exact h hc

/-- One token of a pattern. A quantifier applies to a single class; `mark` is either
parenthesis of a capturing group, and the `n`-th group lies between the marks `2n-1`
and `2n` in the order they are passed. -/
inductive Tok where
  | chr (c : Char)
  | cls (p : Char → Bool)
  | star (p : Char → Bool)
  | lazyStar (p : Char → Bool)
  | mark
  | backref (n : Nat)

/-- A literal string, each character escaped as the scripts do (`\.`, `\(`, `\[`, ...). -/
def str (w : String) : List Tok := w.toList.map .chr

/-- A capturing group `( ... )`. -/
def grp (ts : List Tok) : List Tok := .mark :: ts ++ [.mark]

/-- `[...]+`: one character of the class, then greedily more. -/
def plus (p : Char → Bool) : List Tok := [.cls p, .star p]

/-- `"([^"]+)"`, a string literal whose text is a group. -/
def quotedGrp : List Tok := str "\"" ++ (grp (plus (notChar '"')) ++ str "\"")

/-- Whether a match of the pattern consumes at least one character: its first token
other than a group mark is a literal or a class. Every pattern of the scripts does, so
`re.sub` never meets an empty match. -/
def consuming : List Tok → Bool
  | .mark :: ts => consuming ts
  | .chr _ :: _ => true
  | .cls _ :: _ => true
  | _ => false

/-- One piece of a replacement string: a literal character or a group reference. -/
inductive Piece where
  | text (c : Char)
  | group (n : Nat)
  deriving DecidableEq

/-- The replacement string as `re` reads it; the scripts use no escape other than the
group references `\1`–`\9`. -/
def parseTemplate : List Char → List Piece
  | '\\' :: d :: rest =>
    if d.isDigit then .group (d.toNat - '0'.toNat) :: parseTemplate rest
    else .text '\\' :: .text d :: parseTemplate rest
  | c :: rest => .text c :: parseTemplate rest
  | [] => []

/-- One `re.sub` call: its pattern, its replacement and the fact that the pattern only
matches non-empty text. -/
structure Rule where
  pat : List Tok
  tmpl : List Piece
  consumes : consuming pat = true

/-- The rule `re.sub(pat, repl, ·)`. -/
def reSub (pat : List Tok) (repl : String) (h : consuming pat = true) : Rule :=
  ⟨pat, parseTemplate repl.toList, h⟩

end AssertMigration
