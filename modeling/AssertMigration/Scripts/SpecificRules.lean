import AssertMigration.Regex.Sub

/-!
# The rule tables of the two targeted Should scripts

`fix_remaining_should.py` repairs a handful of statements of two test files by rules
whose receivers are spelled out; `fix_integration_tests.py` rewrites one file through the
ordered list `replacements`, whose receivers are single words `\w+`. Both tables read the
Unicode classes `\w` and `\d`, so both take the `UnicodeDb`.
-/

namespace AssertMigration

namespace FixRemainingShould

variable (db : UnicodeDb)

/-- `recv\.Should\(\)\.Be\("([^"]+)"\)` for a receiver spelled out. -/
def stringBePat (recv : String) : List Tok := str (recv ++ ".Should().Be(") ++ (quotedGrp ++ str ")")

/-- The `JValue` cast ternary with its two backreferences:
`\(([a-zA-Z_][a-zA-Z0-9_]*) is Newtonsoft\.Json\.Linq\.JValue ([a-zA-Z_][a-zA-Z0-9_]*)
\? \2\.ToObject<int>\(\) : \(int\)\(\1 \?\? 0\)\)\.Should\(\)\.Be\((\d+)\)` -/
def jValuePat : List Tok :=
  str "(" ++ (grp [.cls identStart, .star identChar] ++ (str " is Newtonsoft.Json.Linq.JValue " ++
    (grp [.cls identStart, .star identChar] ++ (str " ? " ++ (.backref 2 ::
      str ".ToObject<int>() : (int)(" ++ (.backref 1 :: str " ?? 0)).Should().Be(" ++
        (grp (plus db.isDecimal) ++ str ")")))))))

/-- The rule for the `JValue` cast ternary. -/
def jValueRule : Rule :=
  reSub (jValuePat db)
    "Assert.Equal(\\3, \\1 is Newtonsoft.Json.Linq.JValue \\2 ? \\2.ToObject<int>() : (int)(\\1 ?? 0))" rfl

/-- The rules of `fix_remaining_patterns`, in the order of the script. -/
def rules : List Rule :=
  [reSub (str "_contextValues[\"counter\"].Should().Be(" ++ (grp (plus db.isDecimal) ++ str ")"))
      "Assert.Equal(\\1, _contextValues[\"counter\"])" rfl,
   reSub (stringBePat "_stateMachine.ContextMap![\"value\"]")
      "Assert.Equal(\"\\1\", _stateMachine.ContextMap![\"value\"])" rfl,
   reSub (stringBePat "_stateMachine.ContextMap[\"value\"]")
      "Assert.Equal(\"\\1\", _stateMachine.ContextMap[\"value\"])" rfl,
   jValueRule db,
   reSub (stringBePat "_stateMachine.ContextMap![\"data\"]")
      "Assert.Equal(\"\\1\", _stateMachine.ContextMap![\"data\"])" rfl]

/-- `fix_remaining_patterns` of `fix_remaining_should.py`. -/
def fixRemainingPatterns (content : List Char) : List Char := applyAll (rules db) content

end FixRemainingShould

namespace FixIntegrationTests

variable (db : UnicodeDb)

/-- `(\w+)` -/
def wordGrp : List Tok := grp (plus db.word)

/-- `(\d+)` -/
def digitsGrp : List Tok := grp (plus db.isDecimal)

/-- The list `replacements`, in order. -/
def replacements : List Rule :=
  [reSub (str "carrier.Should().BeTrue()") "Assert.True(carrier)" rfl,
   reSub (wordGrp db ++ str ".Should().BeTrue()") "Assert.True(\\1)" rfl,
   reSub (wordGrp db ++ str ".Should().BeFalse()") "Assert.False(\\1)" rfl,
   reSub (wordGrp db ++ str ".Should().NotBeNull()") "Assert.NotNull(\\1)" rfl,
   reSub (wordGrp db ++ str ".Should().BeNull()") "Assert.Null(\\1)" rfl,
   reSub (wordGrp db ++ str ".Should().NotBeEmpty()") "Assert.NotEmpty(\\1)" rfl,
   reSub (wordGrp db ++ (str ".GetCurrentState().Should().Contain(" ++ (quotedGrp ++ str ")")))
      "Assert.Contains(\"\\2\", \\1.GetCurrentState())" rfl,
   reSub (wordGrp db ++ (str ".GetCurrentState().Should().NotContain(" ++ (quotedGrp ++ str ")")))
      "Assert.DoesNotContain(\"\\2\", \\1.GetCurrentState())" rfl,
   reSub (wordGrp db ++ (str ".Should().HaveCount(" ++ (digitsGrp db ++ str ")")))
      "Assert.Equal(\\2, \\1.Count)" rfl,
   reSub (wordGrp db ++ (str ".Should().Be(" ++ (digitsGrp db ++ str ")"))) "Assert.Equal(\\2, \\1)" rfl,
   reSub (wordGrp db ++ (str ".EventLog.Should().Contain(" ++ (quotedGrp ++ str ")")))
      "Assert.Contains(\"\\2\", \\1.EventLog)" rfl,
   reSub (wordGrp db ++ (str ".GetAllJobs().Should().HaveCount(" ++ (digitsGrp db ++ str ")")))
      "Assert.Equal(\\2, \\1.GetAllJobs().Count)" rfl,
   reSub (wordGrp db ++ (str ".Should().Contain(" ++ (quotedGrp ++ str ")")))
      "Assert.Contains(\"\\2\", \\1)" rfl,
   reSub (wordGrp db ++ (str ".HasMapping(" ++ (quotedGrp ++ (str ", " ++ (quotedGrp ++
      str ").Should().BeTrue()")))))
      "Assert.True(\\1.HasMapping(\"\\2\", \"\\3\"))" rfl]

/-- The loop `for pattern, replacement in replacements: content = re.sub(...)`. -/
def applyReplacements (content : List Char) : List Char := applyAll (replacements db) content

end FixIntegrationTests

end AssertMigration
