import AssertMigration.Regex.Pattern
import AssertMigration.Regex.Backtrack
import AssertMigration.Regex.Sub
import AssertMigration.Regex.Semantics
import AssertMigration.Scripts.ShouldRules
import AssertMigration.Scripts.SpecificRules
import AssertMigration.Scripts.Quotes
import AssertMigration.Text.Occurrence
import AssertMigration.Rewrite.Receiver
import AssertMigration.Rewrite.LineScan
import AssertMigration.Rewrite.Statement
import AssertMigration.Rewrite.LineFacts
import AssertMigration.Rewrite.ShouldStep
import AssertMigration.Rewrite.Tables
import AssertMigration.Properties.Literals
import AssertMigration.Rewrite.Context
import AssertMigration.Properties.Capture
import AssertMigration.Properties.Corrections
import AssertMigration.Properties.QuoteNormalizers
import AssertMigration.Properties.TargetedRules
import AssertMigration.Scripts.Walk
import AssertMigration.Properties.PreCheck
import AssertMigration.Properties.SentinelScan
import AssertMigration.Properties.JsonQuotes
import AssertMigration.Properties.RunEffect
import AssertMigration.Properties.IntegrationTable
import AssertMigration.Properties.RemainingTable
import AssertMigration.Properties.ContainsTable
import AssertMigration.Properties.TernaryRules
import AssertMigration.Properties.DanglingLine
import AssertMigration.Properties.SecondRun
