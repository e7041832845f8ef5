import AssertMigration.Scripts.ShouldRules
import AssertMigration.Scripts.SpecificRules

/-!
# Tables whose rules spell a literal

`re.sub` with a pattern that spells a literal leaves a text without that literal as it is
(`Rule.sub_eq_self_of_hasLiteral`). Every rule of the five Should tables spells `.Should()`,
except the `.Assert.` repairs of `fix_all_should_patterns`, which spell `.Assert.`
(`FixAllShould.rules_literal` and the lemmas after it); so a table leaves every text without
its literals as it is (`applyAll_eq_self_of_absent`). The pre-checks of the scripts and the
second run of the tables rest on that.
-/

namespace AssertMigration

/-- A table each of whose rules spells one of the literals `W` leaves every text without
them as it is. -/
theorem applyAll_eq_self_of_absent {rs : List Rule} {W : List (List Char)}
    (hrs : ∀ R ∈ rs, ∃ w ∈ W, hasLiteral R.pat w = true) {x : List Char}
    (hx : ∀ w ∈ W, ¬ w <:+: x) : applyAll rs x = x :=
  applyAll_eq_self fun R hR => by
    obtain ⟨w, hw, h⟩ := hrs R hR
    exact R.sub_eq_self_of_hasLiteral h (hx w hw)

theorem literals_of_all {rs : List Rule} {w : List Char}
    (h : rs.all (fun R => hasLiteral R.pat w) = true) :
    ∀ R ∈ rs, ∃ w' ∈ [w], hasLiteral R.pat w' = true :=
  fun R hR => ⟨w, List.mem_singleton_self w, List.all_eq_true.mp h R hR⟩

theorem FixAllShould.rules_literal :
    ∀ R ∈ shouldSpecs.map ShouldSpec.rule ++ corrections,
      ∃ w ∈ [".Should()".toList, ".Assert.".toList], hasLiteral R.pat w = true := by
  decide

theorem FixComplexShould.rules_literal :
    (containsRules ++ (shouldSpecs.map ShouldSpec.rule ++ [nullTernaryRule])).all
      (fun R => hasLiteral R.pat ".Should()".toList) = true := by
  decide

theorem FixFinalShould.rules_literal :
    (shouldSpecs.map ShouldSpec.rule ++ [isTernaryRule]).all
      (fun R => hasLiteral R.pat ".Should()".toList) = true := by
  decide

theorem FixRemainingShould.rules_literal (db : UnicodeDb) :
    (rules db).all (fun R => hasLiteral R.pat ".Should()".toList) = true := rfl

end AssertMigration
