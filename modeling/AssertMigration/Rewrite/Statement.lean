import AssertMigration.Rewrite.Receiver
import AssertMigration.Rewrite.LineScan

/-!
# Fluent assertion statements and their call-based form

The statements the Should scripts are written for, and what each becomes. A matcher of
FluentAssertions (`Matcher`) has the call-based form that the comment above its rule in the
scripts gives (`someVar.Should().Be(value) -> Assert.Equal(value, someVar)`), described by
its shape (`AssertShape`): `Assert.X(r)`, `Assert.X(a, r)`, `Assert.Equal(a, r.Count)` or
`Assert.True(r op a)`.

A buffer of the core grammar is a list of `Line`s joined by line breaks: lines of
whitespace and statements `<indent>r.Should().M(a);` with `r` a receiver chain, the
`TestLine`s of the statements `Fluent`. `Line.text` is a line as written and `Line.migrated`
the line with `r.Should().M(a)` replaced by the template of `M`; `Line.after S` is the line
once the rules of the matchers named in `S` ran.
-/

namespace AssertMigration

/-- The FluentAssertions matchers the scripts rewrite. -/
inductive Matcher where
  | notBeNull | beNull | be | notBe | beTrue | beFalse | contain | notContain | haveCount
  | beEmpty | notBeEmpty | beGreaterThan | beLessThan | beGreaterOrEqualTo
  | beGreaterThanOrEqualTo | beLessThanOrEqualTo | startWith | endWith | beEquivalentTo
  deriving DecidableEq, Repr

/-- Every matcher. -/
def Matcher.all : List Matcher :=
  [.notBeNull, .beNull, .be, .notBe, .beTrue, .beFalse, .contain, .notContain, .haveCount,
   .beEmpty, .notBeEmpty, .beGreaterThan, .beLessThan, .beGreaterOrEqualTo,
   .beGreaterThanOrEqualTo, .beLessThanOrEqualTo, .startWith, .endWith, .beEquivalentTo]

/-- The name of a matcher in C# source. -/
def Matcher.name : Matcher → String
  | .notBeNull => "NotBeNull"
  | .beNull => "BeNull"
  | .be => "Be"
  | .notBe => "NotBe"
  | .beTrue => "BeTrue"
  | .beFalse => "BeFalse"
  | .contain => "Contain"
  | .notContain => "NotContain"
  | .haveCount => "HaveCount"
  | .beEmpty => "BeEmpty"
  | .notBeEmpty => "NotBeEmpty"
  | .beGreaterThan => "BeGreaterThan"
  | .beLessThan => "BeLessThan"
  | .beGreaterOrEqualTo => "BeGreaterOrEqualTo"
  | .beGreaterThanOrEqualTo => "BeGreaterThanOrEqualTo"
  | .beLessThanOrEqualTo => "BeLessThanOrEqualTo"
  | .startWith => "StartWith"
  | .endWith => "EndWith"
  | .beEquivalentTo => "BeEquivalentTo"

/-- Whether the matcher is called with an argument. -/
def Matcher.takesArg : Matcher → Bool
  | .notBeNull | .beNull | .beTrue | .beFalse | .beEmpty | .notBeEmpty => false
  | _ => true

/-- The shapes of the call-based assertions. -/
inductive AssertShape where
  /-- `Assert.X(r)` -/
  | unary (x : String)
  /-- `Assert.X(a, r)` -/
  | flipped (x : String)
  /-- `Assert.Equal(a, r.Count)` -/
  | count
  /-- `Assert.True(r op a)` -/
  | compare (op : String)

/-- The assertion of a shape for receiver `r` and argument `a`. -/
def AssertShape.render : AssertShape → List Char → List Char → List Char
  | .unary x, r, _ => ("Assert." ++ x ++ "(").toList ++ (r ++ [')'])
  | .flipped x, r, a => ("Assert." ++ x ++ "(").toList ++ (a ++ (", ".toList ++ (r ++ [')'])))
  | .count, r, a => "Assert.Equal(".toList ++ (a ++ (", ".toList ++ (r ++ ".Count)".toList)))
  | .compare op, r, a => "Assert.True(".toList ++ (r ++ (' ' :: (op.toList ++ (' ' :: (a ++ [')'])))))

/-- The call-based form of each matcher. -/
def Matcher.shape : Matcher → AssertShape
  | .notBeNull => .unary "NotNull"
  | .beNull => .unary "Null"
  | .be => .flipped "Equal"
  | .notBe => .flipped "NotEqual"
  | .beTrue => .unary "True"
  | .beFalse => .unary "False"
  | .contain => .flipped "Contains"
  | .notContain => .flipped "DoesNotContain"
  | .haveCount => .count
  | .beEmpty => .unary "Empty"
  | .notBeEmpty => .unary "NotEmpty"
  | .beGreaterThan => .compare ">"
  | .beLessThan => .compare "<"
  | .beGreaterOrEqualTo => .compare ">="
  | .beGreaterThanOrEqualTo => .compare ">="
  | .beLessThanOrEqualTo => .compare "<="
  | .startWith => .flipped "StartsWith"
  | .endWith => .flipped "EndsWith"
  | .beEquivalentTo => .flipped "Equal"

/-- The template of a matcher, for receiver `r` and argument `a`. -/
def Matcher.assertTemplate (m : Matcher) (r a : List Char) : List Char := m.shape.render r a

/-- The literal `.Should().M(` of a matcher. -/
def Matcher.call (m : Matcher) : List Char := (".Should()." ++ m.name ++ "(").toList

/-- Matchers are told apart by their names. -/
theorem Matcher.name_injective {m m' : Matcher} (h : m.name.toList = m'.name.toList) : m = m' := by
  cases m <;> cases m' <;> first | rfl | exact absurd h (by decide)

theorem Matcher.call_eq (m : Matcher) :
    m.call = ".Should()".toList ++ '.' :: (m.name.toList ++ ['(']) := by
  simp [Matcher.call]

theorem Matcher.open_not_mem_name (m : Matcher) : '(' ∉ m.name.toList := by cases m <;> decide

theorem Matcher.semi_not_mem_call (m : Matcher) : ';' ∉ m.call := by cases m <;> decide

theorem Matcher.call_not_assert (m : Matcher) : ¬ ".Assert.".toList <:+: m.call := by
  cases m <;> decide

theorem Matcher.not_suffix_contains (m : Matcher) :
    ¬ ".Contains".toList <:+ (".Should()." ++ m.name).toList := by
  cases m <;> decide

/-! ## Lines -/

/-- Indentation: whitespace other than a line break. -/
def IsIndent (ws : List Char) : Prop := ∀ c ∈ ws, isPySpace c = true ∧ c ≠ '\n'

instance (ws : List Char) : Decidable (IsIndent ws) :=
  inferInstanceAs (Decidable (∀ c ∈ ws, _))

/-- The argument of a matcher in the core grammar: empty for the argument-less matchers,
otherwise non-empty with no parenthesis, comma, line break or `Assert`. -/
def ArgOk (m : Matcher) (a : List Char) : Prop :=
  if m.takesArg then
    a ≠ [] ∧ '(' ∉ a ∧ ')' ∉ a ∧ ',' ∉ a ∧ '\n' ∉ a ∧ ¬ "Assert".toList <:+: a
  else a = []

instance (m : Matcher) (a : List Char) : Decidable (ArgOk m a) :=
  inferInstanceAs (Decidable (if m.takesArg then _ else _))

/-- A statement `r.Should().M(a)`: its receiver, matcher and argument. -/
structure Fluent where
  recv : List Char
  matcher : Matcher
  arg : List Char

/-- A line of a buffer in the core grammar: a statement `<ind>r.Should().M(a);`, or a line
of whitespace. -/
abbrev Line := TestLine Fluent

/-- `<ind>r.Should().M(a);` -/
def Line.fluent (ind r : List Char) (m : Matcher) (a : List Char) : Line := .stmt ind ⟨r, m, a⟩

/-- A line of whitespace. -/
def Line.blank (ws : List Char) : Line := .code ws

/-- `r.Should().M(a)` -/
def fluentCall (r : List Char) (m : Matcher) (a : List Char) : List Char :=
  r ++ (m.call ++ (a ++ [')']))

/-- A statement once the rules for the matchers named in `S` have run. -/
def Fluent.after (S : List String) (st : Fluent) : List Char :=
  if st.matcher.name ∈ S then st.matcher.assertTemplate st.recv st.arg
  else fluentCall st.recv st.matcher st.arg

/-- A statement with its assertion rewritten. -/
def Fluent.migrated (st : Fluent) : List Char := st.matcher.assertTemplate st.recv st.arg

/-- A line once the rules for the matchers named in `S` have run. -/
def Line.after (S : List String) : Line → List Char := TestLine.render (Fluent.after S)

/-- A line as written. -/
def Line.text : Line → List Char := Line.after []

/-- A line with its assertion rewritten. -/
def Line.migrated : Line → List Char := TestLine.render Fluent.migrated

/-- A line of the core grammar whose matcher satisfies `has`. -/
def Line.Core (has : Matcher → Bool) : Line → Prop
  | .code ws => IsIndent ws
  | .stmt ind st =>
    IsIndent ind ∧ Chain st.recv ∧ has st.matcher = true ∧ ArgOk st.matcher st.arg

@[simp] theorem Line.after_code (S : List String) (ws : List Char) :
    Line.after S (.code ws) = ws := rfl

theorem Line.after_stmt (S : List String) (ind : List Char) (st : Fluent) :
    Line.after S (.stmt ind st) = ind ++ (st.after S ++ [';']) := rfl

theorem Line.after_eq_migrated {S : List String} {l : Line}
    (h : ∀ ind st, l = .stmt ind st → st.matcher.name ∈ S) : l.after S = l.migrated := by
  cases l with
  | code ws => rfl
  | stmt ind st =>
    simp [Line.after_stmt, Line.migrated, TestLine.render, Fluent.after, Fluent.migrated,
      h ind st rfl]

theorem Line.Core.mono {has has' : Matcher → Bool} (hh : ∀ m, has m = true → has' m = true) :
    ∀ {l : Line}, l.Core has → l.Core has'
  | .code _, h => h
  | .stmt _ _, ⟨hi, hr, hm, ha⟩ => ⟨hi, hr, hh _ hm, ha⟩

end AssertMigration
