import AssertMigration.Scripts.ShouldRules
import AssertMigration.Scripts.SpecificRules
import AssertMigration.Scripts.Quotes

/-!
# The directory walks

The three generic Should scripts and the two quote scripts visit every `.cs` file under the
test directory with one loop body: read the file, skip it when a pre-check finds none of the
script's marker substrings, rewrite it, and, when the rewrite changed it, write it back and
count it. `replace_all_quotes.py` first writes the original text to a `.bak` copy.

## Main definitions

- `SourceFile`, `RunLog`: a file the walk yields, and what a run has written and counted.
- `lacksAll`: the pre-check, `m not in content` for every marker `m`.
- `visit`: one pass of the loop body, for a pre-check, a rewrite and the backup flag.
- `processFiles`: the loop over the files of the walk, in order; each script's loop is this
  loop at its own pre-check, rewrite and backup flag.
- `FileSystem`, `FileSystem.commit`: the text at each path, and the file system once the
  writes of a run have landed.
- `FixRemainingShould.main`, `FixIntegrationTests.main`: the two single-file scripts, which
  name their files and have no pre-check.

## Design notes

`os.walk` is the list of files it yields, each with its text, and the file system's answer
to the run is the list of writes in order. The loop reads each file before it writes it
and writes no path twice, so reading the texts from the file system as it was before the
run is reading them as the loop does. `fix_remaining_should.py` joins its file names to
`test_dir` with the Windows separator of the paths it spells out.
-/

namespace AssertMigration

/-- A file `os.walk` yields: its path and its text. -/
structure SourceFile where
  path : List Char
  content : List Char
  deriving DecidableEq, Repr

/-- What a run has done: the writes, in order, each a path with the text written, and the
count printed at the end. -/
structure RunLog where
  written : List (List Char × List Char)
  count : Nat
  deriving DecidableEq, Repr

/-- `file.endswith('.cs')` -/
def isCs (path : List Char) : Bool := decide (".cs".toList <:+ path)

/-- The pre-check: none of the markers occurs in the text. -/
def lacksAll (markers : List (List Char)) (content : List Char) : Bool :=
  markers.all fun m => !decide (m <:+: content)

@[simp] theorem lacksAll_eq_true {c : List Char} {markers : List (List Char)} :
    lacksAll markers c = true ↔ ∀ m ∈ markers, ¬ m <:+: c := by
  simp [lacksAll]

/-- One pass of the loop body: a `.cs` file that passes the pre-check and that the rewrite
changes is written back, after its backup when the script keeps one, and counted. -/
def visit (skip : List Char → Bool) (fix : List Char → List Char) (backup : Bool)
    (log : RunLog) (f : SourceFile) : RunLog :=
  if !isCs f.path then log
  else if skip f.content then log
  else if fix f.content = f.content then log
  else
    ⟨log.written ++ ((if backup then [(f.path ++ ".bak".toList, f.content)] else []) ++
      [(f.path, fix f.content)]), log.count + 1⟩

/-- The loop over the files of the walk, from no writes and a count of `0`. -/
def processFiles (skip : List Char → Bool) (fix : List Char → List Char) (backup : Bool)
    (files : List SourceFile) : RunLog :=
  files.foldl (visit skip fix backup) ⟨[], 0⟩

/-- The file system the scripts read and write: the text at each path that holds a file. -/
def FileSystem : Type := List Char → Option (List Char)

/-- `open(path, 'w').write(text)` -/
def FileSystem.write (fs : FileSystem) (path text : List Char) : FileSystem :=
  fun p => if p = path then some text else fs p

/-- The file system once the writes of a run have landed, in order. -/
def FileSystem.commit (fs : FileSystem) (writes : List (List Char × List Char)) : FileSystem :=
  writes.foldl (fun fs w => fs.write w.1 w.2) fs

namespace FixAllShould

/-- `if '.Should()' not in content and '.Assert.' not in content: continue` -/
def skipFile (content : List Char) : Bool :=
  lacksAll [".Should()".toList, ".Assert.".toList] content

/-- The loop of `fix_all_should.py` over the test directory. -/
def processTestDir (files : List SourceFile) : RunLog :=
  processFiles skipFile fixAllShouldPatterns false files

end FixAllShould

namespace FixComplexShould

/-- `if '.Should()' not in content: continue` -/
def skipFile (content : List Char) : Bool := lacksAll [".Should()".toList] content

/-- The loop of `fix_complex_should.py` over the test directory. -/
def processTestDir (files : List SourceFile) : RunLog :=
  processFiles skipFile fixComplexShouldPatterns false files

end FixComplexShould

namespace FixFinalShould

/-- `if '.Should()' not in content: continue` -/
def skipFile (content : List Char) : Bool := lacksAll [".Should()".toList] content

/-- The loop of `fix_final_should.py` over the test directory. -/
def processTestDir (files : List SourceFile) : RunLog :=
  processFiles skipFile fixAllShouldPatterns false files

end FixFinalShould

namespace ReplaceQuotes

/-- `if '""' in content:`, negated: the files `process_file` returns `False` for at once. -/
def skipFile (content : List Char) : Bool := lacksAll ["\"\"".toList] content

/-- `main` of `replace_quotes.py`: `process_file` on every `.cs` file, counting the modified
ones. -/
def main (files : List SourceFile) : RunLog :=
  processFiles skipFile replaceDoubleQuotesInJson false files

end ReplaceQuotes

namespace ReplaceAllQuotes

/-- `if '""' in content:`, negated. -/
def skipFile (content : List Char) : Bool := lacksAll ["\"\"".toList] content

/-- `main` of `replace_all_quotes.py`, whose `process_file` writes a `.bak` copy first. -/
def main (files : List SourceFile) : RunLog :=
  processFiles skipFile replaceDoubleQuotesComprehensive true files

end ReplaceAllQuotes

namespace FixRemainingShould

/-- `test_dir` -/
def testDir : List Char := "C:\\Develop25\\XStateNet\\Test".toList

/-- `files_to_fix` -/
def filesToFix : List (List Char) :=
  ["UnitTest_InternalTransitions.cs".toList, "UnitTest_InvokeServices.cs".toList]

/-- `os.path.join(test_dir, file_name)` -/
def filePath (fileName : List Char) : List Char := testDir ++ '\\' :: fileName

/-- One pass of the loop over `files_to_fix`: a file that exists is rewritten and, when the
rewrite changed it, written back and counted. -/
def fixFile (db : UnicodeDb) (fs : FileSystem) (log : RunLog) (fileName : List Char) : RunLog :=
  match fs (filePath fileName) with
  | none => log
  | some content =>
    if fixRemainingPatterns db content = content then log
    else ⟨log.written ++ [(filePath fileName, fixRemainingPatterns db content)], log.count + 1⟩

/-- The script: the loop over `files_to_fix`, from no writes and `fixed_count = 0`. -/
def main (db : UnicodeDb) (fs : FileSystem) : RunLog :=
  filesToFix.foldl (fixFile db fs) ⟨[], 0⟩

end FixRemainingShould

namespace FixIntegrationTests

/-- The one file the script reads and writes. -/
def testFile : List Char :=
  "C:\\Develop25\\XStateNet\\SemiStandard.Tests\\StateMachineIntegrationTests.cs".toList

/-- The script: read the file, run the replacements over it and write it back, changed or
not; `none` where `open` raises because the file is missing. -/
def main (db : UnicodeDb) (fs : FileSystem) : Option (List (List Char × List Char)) :=
  (fs testFile).map fun content => [(testFile, applyReplacements db content)]

end FixIntegrationTests

end AssertMigration
