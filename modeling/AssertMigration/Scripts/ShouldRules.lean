import AssertMigration.Regex.Sub

/-!
# The rule tables of the three generic Should scripts

`fix_all_should.py`, `fix_complex_should.py` and `fix_final_should.py` each define one
function that rewrites `receiver.Should().Matcher(args)` into an `Assert` call by a fixed
sequence of `re.sub` calls. Most of their rules share one shape,

    ([a-zA-Z_][C]*?)\.Should\(\)\.Matcher(ARGS)

which differs from rule to rule only in the receiver class `C`, the matcher name, how the
parentheses of the matcher are read (`\(\)`, `\(([^)]+)\)` or `\([^)]*\)`) and the
replacement. Such a rule is a `ShouldSpec`; the remaining rules of each table are written
token by token.
-/

namespace AssertMigration

/-- How a generic rule reads the parentheses after the matcher name. -/
inductive ArgForm where
  /-- `\(\)` -/
  | empty
  /-- `\(([^)]+)\)`, the argument being group 2 -/
  | capture
  /-- `\([^)]*\)`, the argument being dropped -/
  | discard
  deriving DecidableEq

/-- The tokens of an `ArgForm` after its opening parenthesis. -/
def ArgForm.close : ArgForm → List Tok
  | .empty => str ")"
  | .capture => grp (plus (notChar ')')) ++ str ")"
  | .discard => .star (notChar ')') :: str ")"

/-- The receiver group `([a-zA-Z_][C]*?)`. -/
def receiver (C : Char → Bool) : List Tok := grp [.cls identStart, .lazyStar C]

/-- `([a-zA-Z_][C]*?)\.Should\(\)\.m\(<arg>` -/
def shouldPat (C : Char → Bool) (m : String) (arg : ArgForm) : List Tok :=
  receiver C ++ (str (".Should()." ++ m ++ "(") ++ arg.close)

/-- The receiver classes of the generic rules. -/
inductive RecvClass where
  /-- `[a-zA-Z0-9_.\[\]()]` -/
  | plain
  /-- `[a-zA-Z0-9_.\[\]()!]` -/
  | bang
  /-- `[a-zA-Z0-9_.\[\]()<>=!\s]` -/
  | compare
  deriving DecidableEq

/-- The characters of a receiver class. -/
def RecvClass.pred : RecvClass → Char → Bool
  | .plain => receiverChar
  | .bang => receiverCharBang
  | .compare => receiverCharCompare

/-- One generic rule: receiver class, matcher name, argument form and replacement. -/
structure ShouldSpec where
  recv : RecvClass
  name : String
  arg : ArgForm
  repl : String

/-- The `re.sub` call of a generic rule. -/
def ShouldSpec.rule (sp : ShouldSpec) : Rule := AssertMigration.reSub (shouldPat sp.recv.pred sp.name sp.arg) sp.repl rfl

namespace FixAllShould

/-- The generic rules of `fix_all_should_patterns`, in the order of the script. -/
def shouldSpecs : List ShouldSpec :=
  [⟨.plain, "NotBeNull", .empty, "Assert.NotNull(\\1)"⟩,
   ⟨.plain, "BeNull", .empty, "Assert.Null(\\1)"⟩,
   ⟨.plain, "Be", .capture, "Assert.Equal(\\2, \\1)"⟩,
   ⟨.plain, "BeTrue", .empty, "Assert.True(\\1)"⟩,
   ⟨.plain, "BeFalse", .empty, "Assert.False(\\1)"⟩,
   ⟨.plain, "Contain", .capture, "Assert.Contains(\\2, \\1)"⟩,
   ⟨.plain, "NotContain", .capture, "Assert.DoesNotContain(\\2, \\1)"⟩,
   ⟨.plain, "HaveCount", .capture, "Assert.Equal(\\2, \\1.Count)"⟩,
   ⟨.plain, "BeEmpty", .empty, "Assert.Empty(\\1)"⟩,
   ⟨.plain, "NotBeEmpty", .empty, "Assert.NotEmpty(\\1)"⟩,
   ⟨.plain, "BeGreaterThan", .capture, "Assert.True(\\1 > \\2)"⟩,
   ⟨.plain, "BeLessThan", .capture, "Assert.True(\\1 < \\2)"⟩,
   ⟨.plain, "BeGreaterOrEqualTo", .capture, "Assert.True(\\1 >= \\2)"⟩,
   ⟨.plain, "StartWith", .capture, "Assert.StartsWith(\\2, \\1)"⟩,
   ⟨.plain, "EndWith", .capture, "Assert.EndsWith(\\2, \\1)"⟩,
   ⟨.plain, "BeEquivalentTo", .capture, "Assert.Equal(\\2, \\1)"⟩,
   ⟨.plain, "NotBe", .capture, "Assert.NotEqual(\\2, \\1)"⟩]

/-- `([a-zA-Z_][a-zA-Z0-9_]*?)\.Assert\.m\(([^,]+), ([a-zA-Z_][a-zA-Z0-9_]*?)\)` -/
def memberAssertPat (m : String) : List Tok :=
  grp [.cls identStart, .lazyStar identChar] ++ (str (".Assert." ++ m ++ "(") ++
    (grp (plus (notChar ',')) ++ (str ", " ++ (grp [.cls identStart, .lazyStar identChar] ++
      str ")"))))

/-- `h\.Assert\.Contains\(([^)]+)\)` for the fixed receiver `h`. -/
def hitsAssertPat (h : String) : List Tok :=
  str (h ++ ".Assert.Contains(") ++ (grp (plus (notChar ')')) ++ str ")")

/-- The four repairs of receiver-prefixed `Assert` calls that end the function. -/
def corrections : List Rule :=
  [reSub (memberAssertPat "Contains") "Assert.Contains(\\2, \\1.\\3)" rfl,
   reSub (memberAssertPat "Equal") "Assert.Equal(\\2, \\1.\\3)" rfl,
   reSub (hitsAssertPat "pingHits") "Assert.Contains(\\1, pingHits)" rfl,
   reSub (hitsAssertPat "pongHits") "Assert.Contains(\\1, pongHits)" rfl]

/-- `fix_all_should_patterns` of `fix_all_should.py`. -/
def fixAllShouldPatterns (content : List Char) : List Char :=
  applyAll (shouldSpecs.map ShouldSpec.rule ++ corrections) content

theorem fixAllShouldPatterns_eq_skipping (content : List Char) :
    fixAllShouldPatterns content =
      applyAllSkipping (shouldSpecs.map ShouldSpec.rule ++ corrections) content :=
  (applyAllSkipping_eq _ _).symm

end FixAllShould

namespace FixComplexShould

/-- `([a-zA-Z_][a-zA-Z0-9_.\[\]()]*?)\.Contains\(([^)]+)\)\.Should\(\)\.m\(\)` -/
def containsPat (m : String) : List Tok :=
  receiver receiverChar ++ (str ".Contains(" ++ (grp (plus (notChar ')')) ++
    str (").Should()." ++ m ++ "()")))

/-- The two rules for `s.Contains(x).Should().BeTrue()` and `...BeFalse()`. -/
def containsRules : List Rule :=
  [reSub (containsPat "BeTrue") "Assert.Contains(\\2, \\1)" rfl,
   reSub (containsPat "BeFalse") "Assert.DoesNotContain(\\2, \\1)" rfl]

/-- The generic rules of `fix_complex_should_patterns`, in the order of the script. -/
def shouldSpecs : List ShouldSpec :=
  [⟨.compare, "BeTrue", .empty, "Assert.True(\\1)"⟩,
   ⟨.compare, "BeFalse", .empty, "Assert.False(\\1)"⟩,
   ⟨.bang, "NotBeNull", .empty, "Assert.NotNull(\\1)"⟩,
   ⟨.bang, "BeNull", .empty, "Assert.Null(\\1)"⟩,
   ⟨.bang, "Be", .capture, "Assert.Equal(\\2, \\1)"⟩,
   ⟨.bang, "NotBe", .capture, "Assert.NotEqual(\\2, \\1)"⟩,
   ⟨.bang, "Contain", .capture, "Assert.Contains(\\2, \\1)"⟩,
   ⟨.bang, "HaveCount", .capture, "Assert.Equal(\\2, \\1.Count)"⟩,
   ⟨.bang, "StartWith", .capture, "Assert.StartsWith(\\2, \\1)"⟩,
   ⟨.bang, "EndWith", .capture, "Assert.EndsWith(\\2, \\1)"⟩]

/-- `\(([^)]+)\s*!=\s*null\s*\?\s*([^:]+)\s*:\s*([^)]+)\)\.Should\(\)\.Be\(([^)]+)\)` -/
def nullTernaryPat : List Tok :=
  str "(" ++ (grp (plus (notChar ')')) ++ (.star isPySpace :: str "!=" ++
    (.star isPySpace :: str "null" ++ (.star isPySpace :: str "?" ++ (.star isPySpace ::
      grp (plus (notChar ':')) ++ (.star isPySpace :: str ":" ++ (.star isPySpace ::
        grp (plus (notChar ')')) ++ (str ").Should().Be(" ++ (grp (plus (notChar ')')) ++
          str ")")))))))))

/-- The rule for a parenthesised null-check ternary receiver. -/
def nullTernaryRule : Rule := reSub nullTernaryPat "Assert.Equal(\\4, \\1 != null ? \\2 : \\3)" rfl

/-- `fix_complex_should_patterns` of `fix_complex_should.py`. -/
def fixComplexShouldPatterns (content : List Char) : List Char :=
  applyAll (containsRules ++ (shouldSpecs.map ShouldSpec.rule ++ [nullTernaryRule])) content

theorem fixComplexShouldPatterns_eq_skipping (content : List Char) :
    fixComplexShouldPatterns content =
      applyAllSkipping (containsRules ++ (shouldSpecs.map ShouldSpec.rule ++ [nullTernaryRule]))
        content :=
  (applyAllSkipping_eq _ _).symm

end FixComplexShould

namespace FixFinalShould

/-- The generic rules of `fix_all_should_patterns` in `fix_final_should.py`, in order. -/
def shouldSpecs : List ShouldSpec :=
  [⟨.bang, "NotBeNull", .empty, "Assert.NotNull(\\1)"⟩,
   ⟨.bang, "BeNull", .empty, "Assert.Null(\\1)"⟩,
   ⟨.bang, "Be", .capture, "Assert.Equal(\\2, \\1)"⟩,
   ⟨.bang, "NotBe", .capture, "Assert.NotEqual(\\2, \\1)"⟩,
   ⟨.bang, "Contain", .capture, "Assert.Contains(\\2, \\1)"⟩,
   ⟨.bang, "BeGreaterThan", .capture, "Assert.True(\\1 > \\2)"⟩,
   ⟨.bang, "BeGreaterThanOrEqualTo", .capture, "Assert.True(\\1 >= \\2)"⟩,
   ⟨.bang, "BeLessThan", .capture, "Assert.True(\\1 < \\2)"⟩,
   ⟨.bang, "BeLessThanOrEqualTo", .capture, "Assert.True(\\1 <= \\2)"⟩,
   ⟨.bang, "BeTrue", .discard, "Assert.True(\\1)"⟩,
   ⟨.bang, "BeFalse", .discard, "Assert.False(\\1)"⟩]

/-- `\(([^)]*is[^)]*\?[^)]*:[^)]*)\)\.Should\(\)\.Be\(([^)]+)\)` -/
def isTernaryPat : List Tok :=
  str "(" ++ (grp (.star (notChar ')') :: str "is" ++ (.star (notChar ')') :: str "?" ++
    (.star (notChar ')') :: str ":" ++ [.star (notChar ')')]))) ++
      (str ").Should().Be(" ++ (grp (plus (notChar ')')) ++ str ")")))

/-- The rule for a parenthesised `is`-pattern ternary receiver. -/
def isTernaryRule : Rule := reSub isTernaryPat "Assert.Equal(\\2, \\1)" rfl

/-- `fix_all_should_patterns` of `fix_final_should.py`. -/
def fixAllShouldPatterns (content : List Char) : List Char :=
  applyAll (shouldSpecs.map ShouldSpec.rule ++ [isTernaryRule]) content

theorem fixAllShouldPatterns_eq_skipping (content : List Char) :
    fixAllShouldPatterns content =
      applyAllSkipping (shouldSpecs.map ShouldSpec.rule ++ [isTernaryRule]) content :=
  (applyAllSkipping_eq _ _).symm

end FixFinalShould

end AssertMigration
