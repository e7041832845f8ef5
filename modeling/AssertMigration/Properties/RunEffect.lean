import AssertMigration.Properties.PreCheck
import AssertMigration.Rewrite.Tables

/-!
# What a run leaves in the file system

A directory walk writes each `.cs` file that passes the pre-check and that the rewrite
changes, after its `.bak` copy when the script keeps one. Once those writes have landed,
every `.cs` file the walk yielded holds its rewrite, or its text when the pre-check skipped
it; a file the run changed has a copy of its old text at its `.bak` path when the script
keeps backups; every other path keeps its text; and the count printed is the number of `.cs`
files whose text changed (`walk_leaves_rewrites`). The writes of two files name disjoint
paths, so what a run leaves does not depend on the order the walk yields the files in
(`walk_order_irrelevant`). On a tree of core-grammar files the Should scripts that run after
`fix_all_should.py` find nothing left to do (`should_scripts_converge_on_core`).

## Main definitions

- `writesBack`: whether one pass of the loop body writes the file back.
- `fileWrites`: the writes of one pass, the backup first.
- `SourceFile.reread`: the file the next walk yields at the same path.

## Main results

- `processFiles_written`, `processFiles_count`: the writes of a run are those of its files in
  order, and its count is the number of files written back.
- `FileSystem.commit_comm`: writes to disjoint paths commute.
- `commit_processFiles_cs`, `commit_processFiles_backup`, `commit_processFiles_untouched`:
  the text a run leaves at a `.cs` file, at a backup and anywhere else.

## Design notes

The walk is read from the file system (`fs f.path = some f.content`) and yields no path
twice, as `os.walk` does. A `.cs` path never ends in `.bak`, so a backup never lands on a
file the walk rewrites.
-/

namespace AssertMigration

/-- Whether one pass of the loop body writes the file back: a `.cs` file that passes the
pre-check and that the rewrite changes. -/
def writesBack (skip : List Char → Bool) (fix : List Char → List Char) (f : SourceFile) :
    Bool :=
  isCs f.path && !skip f.content && decide (fix f.content ≠ f.content)

/-- The writes of one pass of the loop body, the backup first. -/
def fileWrites (skip : List Char → Bool) (fix : List Char → List Char) (backup : Bool)
    (f : SourceFile) : List (List Char × List Char) :=
  if writesBack skip fix f then
    (if backup then [(f.path ++ ".bak".toList, f.content)] else []) ++ [(f.path, fix f.content)]
  else []

/-- The file the next walk yields at the path of `f`: its text in `fs`. -/
def SourceFile.reread (fs : FileSystem) (f : SourceFile) : SourceFile :=
  ⟨f.path, (fs f.path).getD f.content⟩

/-- The file system that holds exactly the given files. -/
def FileSystem.ofFiles (files : List SourceFile) : FileSystem :=
  fun p => (files.find? fun f => f.path = p).map SourceFile.content

/-! ## Writes -/

namespace FileSystem

variable {fs fs' : FileSystem} {ws vs : List (List Char × List Char)} {p : List Char}

@[simp] theorem write_apply (fs : FileSystem) (path text p : List Char) :
    fs.write path text p = if p = path then some text else fs p := rfl

@[simp] theorem commit_nil (fs : FileSystem) : fs.commit [] = fs := rfl

theorem commit_cons (fs : FileSystem) (w : List Char × List Char) (ws) :
    fs.commit (w :: ws) = (fs.write w.1 w.2).commit ws := rfl

theorem commit_append (fs : FileSystem) (ws vs : List (List Char × List Char)) :
    fs.commit (ws ++ vs) = (fs.commit ws).commit vs :=
  List.foldl_append _ _ _ _

/-- A path no write names keeps its text. -/
theorem commit_apply_of_forall_ne (h : ∀ w ∈ ws, w.1 ≠ p) : fs.commit ws p = fs p := by
  induction ws generalizing fs with
  | nil => rfl
  | cons w ws ih =>
    rw [commit_cons, ih fun w' hw' => h w' (List.mem_cons_of_mem w hw'), write_apply,
      if_neg (h w (List.mem_cons_self w ws)).symm]

/-- The text writes leave at a path depends only on the text there before. -/
theorem commit_apply_congr (h : fs p = fs' p) : fs.commit ws p = fs'.commit ws p := by
  induction ws generalizing fs fs' with
  | nil => exact h
  | cons w ws ih =>
    refine ih ?_
    simp only [write_apply]
    split
    · rfl
    · exact h

/-- The last write to a path is what it holds. -/
theorem commit_concat_self (fs : FileSystem) (ws) (p t : List Char) :
    fs.commit (ws ++ [(p, t)]) p = some t := by
  simp [commit_append, commit_cons]

/-- Writes to disjoint paths commute. -/
theorem commit_comm (h : ∀ w ∈ ws, ∀ v ∈ vs, w.1 ≠ v.1) :
    fs.commit (ws ++ vs) = fs.commit (vs ++ ws) := by
  funext p
  rw [commit_append, commit_append]
  by_cases hw : ∃ w ∈ ws, w.1 = p
  · obtain ⟨w, hw, rfl⟩ := hw
    have hv : ∀ v ∈ vs, v.1 ≠ w.1 := fun v hv e => h w hw v hv e.symm
    rw [commit_apply_of_forall_ne hv]
    exact commit_apply_congr (commit_apply_of_forall_ne hv).symm
  · have hw : ∀ w ∈ ws, w.1 ≠ p := fun w hw' e => hw ⟨w, hw', e⟩
    rw [commit_apply_of_forall_ne hw]
    exact commit_apply_congr (commit_apply_of_forall_ne hw)

end FileSystem

/-- A `.cs` path is no backup path. -/
theorem isCs_ne_bak {p : List Char} (h : isCs p = true) (q : List Char) :
    p ≠ q ++ ".bak".toList := by
  rintro rfl
  have hs : ".cs".toList <:+ q ++ ".bak".toList := of_decide_eq_true h
  exact absurd (List.suffix_of_suffix_length_le hs (List.suffix_append q _) (by decide))
    (by decide)

/-! ## The writes of a run -/

section Run

variable {skip : List Char → Bool} {fix : List Char → List Char} {backup : Bool}
  {files : List SourceFile} {f : SourceFile}

theorem writesBack_isCs (h : writesBack skip fix f = true) : isCs f.path = true := by
  simp only [writesBack, Bool.and_eq_true] at h
  exact h.1.1

/-- A pass writes only the file's path and, with backups, its `.bak` path. -/
theorem mem_fileWrites {w : List Char × List Char} (h : w ∈ fileWrites skip fix backup f) :
    writesBack skip fix f = true ∧
      (w.1 = f.path ∨ backup = true ∧ w.1 = f.path ++ ".bak".toList) := by
  unfold fileWrites at h
  split at h
  · refine ⟨‹_›, ?_⟩
    rcases List.mem_append.mp h with h | h
    · split at h
      · exact .inr ⟨‹_›, by simp [List.mem_singleton.mp h]⟩
      · cases h
    · exact .inl (by simp [List.mem_singleton.mp h])
  · cases h

/-- Two files with distinct paths write disjoint paths. -/
theorem fileWrites_disjoint {g : SourceFile} (h : f.path ≠ g.path) :
    ∀ w ∈ fileWrites skip fix backup f, ∀ v ∈ fileWrites skip fix backup g, w.1 ≠ v.1 := by
  intro w hw v hv
  obtain ⟨hf, hw⟩ := mem_fileWrites hw
  obtain ⟨hg, hv⟩ := mem_fileWrites hv
  rcases hw with hw | ⟨-, hw⟩ <;> rcases hv with hv | ⟨-, hv⟩ <;> rw [hw, hv]
  · exact h
  · exact isCs_ne_bak (writesBack_isCs hf) _
  · exact (isCs_ne_bak (writesBack_isCs hg) _).symm
  · exact fun e => h (List.append_cancel_right e)

/-- The writes of other files leave the path of a `.cs` file alone. -/
theorem fileWrites_ne_of_cs (hcs : isCs f.path = true) {C : List SourceFile}
    (hC : f.path ∉ C.map SourceFile.path) :
    ∀ w ∈ C.flatMap (fileWrites skip fix backup), w.1 ≠ f.path := by
  intro w hw
  obtain ⟨g, hg, hw⟩ := List.mem_flatMap.mp hw
  rcases (mem_fileWrites hw).2 with h | ⟨-, h⟩ <;> rw [h]
  · exact fun e => hC (e ▸ List.mem_map_of_mem _ hg)
  · exact (isCs_ne_bak hcs _).symm

/-- One pass of the loop body appends the file's writes and counts it when it writes it. -/
theorem visit_eq (log : RunLog) (f : SourceFile) :
    visit skip fix backup log f =
      ⟨log.written ++ fileWrites skip fix backup f,
        log.count + if writesBack skip fix f then 1 else 0⟩ := by
  by_cases hc : isCs f.path = true <;> by_cases hs : skip f.content = true <;>
    by_cases hf : fix f.content = f.content <;> simp [visit, writesBack, fileWrites, hc, hs, hf]

theorem foldl_visit (log : RunLog) (files : List SourceFile) :
    files.foldl (visit skip fix backup) log =
      ⟨log.written ++ files.flatMap (fileWrites skip fix backup),
        log.count + (files.filter (writesBack skip fix)).length⟩ := by
  induction files generalizing log with
  | nil => simp
  | cons f files ih =>
    rw [List.foldl_cons, ih, visit_eq, List.flatMap_cons, List.filter_cons]
    by_cases h : writesBack skip fix f = true <;> simp [h, Nat.add_right_comm, Nat.add_assoc]

theorem processFiles_written :
    (processFiles skip fix backup files).written = files.flatMap (fileWrites skip fix backup) :=
  by simp [processFiles, foldl_visit]

theorem processFiles_count :
    (processFiles skip fix backup files).count = (files.filter (writesBack skip fix)).length :=
  by simp [processFiles, foldl_visit]

theorem writesBack_of_skip (h : isCs f.path = true → skip f.content = true) :
    writesBack skip fix f = false := by
  cases hc : isCs f.path <;> simp [writesBack, hc, h]

/-- A run in which no file is written back writes nothing and counts nothing. -/
theorem processFiles_eq_empty (h : ∀ f ∈ files, writesBack skip fix f = false) :
    processFiles skip fix backup files = ⟨[], 0⟩ := by
  have hw : files.flatMap (fileWrites skip fix backup) = [] :=
    List.flatMap_eq_nil_iff.mpr fun f hf => by simp [fileWrites, h f hf]
  have hc : files.filter (writesBack skip fix) = [] :=
    List.filter_eq_nil_iff.mpr fun f hf => by simp [h f hf]
  rw [processFiles, foldl_visit, hw, hc]
  rfl

end Run

/-! ## The file system a run leaves -/

section Effect

variable {skip : List Char → Bool} {fix : List Char → List Char} {backup : Bool}
  {files : List SourceFile} {fs : FileSystem} {f : SourceFile}

/-- Where a file stands in a walk that yields no path twice: no file before or after it has
its path. -/
theorem not_mem_paths_of_nodup {A B : List SourceFile}
    (hnd : ((A ++ f :: B).map SourceFile.path).Nodup) :
    f.path ∉ A.map SourceFile.path ∧ f.path ∉ B.map SourceFile.path := by
  simp only [List.map_append, List.map_cons, List.Nodup, List.pairwise_append,
    List.pairwise_cons] at hnd
  exact ⟨fun h => hnd.2.2 _ h _ (List.mem_cons_self _ _) rfl, fun h => hnd.2.1.1 _ h rfl⟩

/-- A path that no file of the run writes keeps its text. -/
theorem commit_processFiles_untouched {p : List Char}
    (h : ∀ f ∈ files, writesBack skip fix f = true →
      p ≠ f.path ∧ (backup = true → p ≠ f.path ++ ".bak".toList)) :
    fs.commit (processFiles skip fix backup files).written p = fs p := by
  rw [processFiles_written]
  refine FileSystem.commit_apply_of_forall_ne fun w hw => ?_
  obtain ⟨g, hg, hw⟩ := List.mem_flatMap.mp hw
  obtain ⟨hwb, hpath⟩ := mem_fileWrites hw
  rcases hpath with e | ⟨hb, e⟩ <;> rw [e]
  · exact (h g hg hwb).1.symm
  · exact ((h g hg hwb).2 hb).symm

/-- A `.cs` file of the walk ends up holding its rewrite, or its text when skipped. -/
theorem commit_processFiles_cs (hnd : (files.map SourceFile.path).Nodup) (hf : f ∈ files)
    (hcs : isCs f.path = true) (hfs : fs f.path = some f.content) :
    fs.commit (processFiles skip fix backup files).written f.path =
      some (if skip f.content then f.content else fix f.content) := by
  obtain ⟨A, B, rfl⟩ := List.append_of_mem hf
  obtain ⟨hA, hB⟩ := not_mem_paths_of_nodup hnd
  rw [processFiles_written, List.flatMap_append, List.flatMap_cons, FileSystem.commit_append,
    FileSystem.commit_append, FileSystem.commit_apply_of_forall_ne (fileWrites_ne_of_cs hcs hB)]
  by_cases hw : writesBack skip fix f = true
  · simp only [writesBack, hcs, Bool.true_and, Bool.and_eq_true, Bool.not_eq_true',
      decide_eq_true_eq] at hw
    rw [fileWrites, if_pos (by simp [writesBack, hcs, hw]), FileSystem.commit_concat_self,
      if_neg (by simp [hw.1])]
  · rw [fileWrites, if_neg hw, FileSystem.commit_nil,
      FileSystem.commit_apply_of_forall_ne (fileWrites_ne_of_cs hcs hA), hfs]
    simp only [writesBack, hcs, Bool.true_and, Bool.and_eq_true, Bool.not_eq_true',
      decide_eq_true_eq, not_and, not_not] at hw
    split
    · rfl
    · exact congrArg some (hw (Bool.eq_false_iff.mpr ‹_›)).symm

/-- A `.cs` file ends up holding its rewrite when the pre-check skips it only where the
rewrite leaves it as it is. -/
theorem commit_processFiles_cs_fix (hnd : (files.map SourceFile.path).Nodup) (hf : f ∈ files)
    (hcs : isCs f.path = true) (hfs : fs f.path = some f.content)
    (hskip : skip f.content = true → fix f.content = f.content) :
    fs.commit (processFiles skip fix backup files).written f.path = some (fix f.content) := by
  rw [commit_processFiles_cs hnd hf hcs hfs]
  split
  · rw [hskip ‹_›]
  · rfl

/-- A file written back has its old text at its `.bak` path when the script keeps
backups. -/
theorem commit_processFiles_backup (hnd : (files.map SourceFile.path).Nodup) (hf : f ∈ files)
    (hw : writesBack skip fix f = true) :
    fs.commit (processFiles skip fix true files).written (f.path ++ ".bak".toList) =
      some f.content := by
  obtain ⟨A, B, rfl⟩ := List.append_of_mem hf
  have hB : ∀ w ∈ B.flatMap (fileWrites skip fix true), w.1 ≠ f.path ++ ".bak".toList := by
    intro w hw
    obtain ⟨g, hg, hw⟩ := List.mem_flatMap.mp hw
    obtain ⟨hg', h⟩ := mem_fileWrites hw
    rcases h with h | ⟨-, h⟩ <;> rw [h]
    · exact isCs_ne_bak (writesBack_isCs hg') _
    · exact fun e => (not_mem_paths_of_nodup hnd).2
        (List.append_cancel_right e ▸ List.mem_map_of_mem _ hg)
  rw [processFiles_written, List.flatMap_append, List.flatMap_cons, FileSystem.commit_append,
    FileSystem.commit_append, FileSystem.commit_apply_of_forall_ne hB, fileWrites, if_pos hw,
    if_pos rfl, FileSystem.commit_append, FileSystem.commit_apply_of_forall_ne
      (by simp [isCs_ne_bak (writesBack_isCs hw)])]
  simp [FileSystem.commit_cons]

/-- What a run of a directory walk leaves in the file system, for a walk that yields each
file with the text the file system holds there and no path twice: every `.cs` file holds its
rewrite, or its text when the pre-check skipped it; a file the run changed has its old text
at its `.bak` path when the script keeps backups; no other path changes; and the count the
run prints is the number of `.cs` files whose text changed. -/
theorem walk_leaves_rewrites (skip : List Char → Bool) (fix : List Char → List Char)
    (backup : Bool) (files : List SourceFile) (fs : FileSystem)
    (hfs : ∀ f ∈ files, fs f.path = some f.content) (hnd : (files.map SourceFile.path).Nodup) :
    (∀ f ∈ files, isCs f.path = true →
      fs.commit (processFiles skip fix backup files).written f.path =
        some (if skip f.content then f.content else fix f.content)) ∧
    (backup = true → ∀ f ∈ files, isCs f.path = true → skip f.content = false →
      fix f.content ≠ f.content →
      fs.commit (processFiles skip fix backup files).written (f.path ++ ".bak".toList) =
        some f.content) ∧
    (∀ p, (∀ f ∈ files, isCs f.path = true → skip f.content = false →
        fix f.content ≠ f.content →
        p ≠ f.path ∧ (backup = true → p ≠ f.path ++ ".bak".toList)) →
      fs.commit (processFiles skip fix backup files).written p = fs p) ∧
    (processFiles skip fix backup files).count =
      (files.filter fun f => isCs f.path &&
        decide (fs.commit (processFiles skip fix backup files).written f.path ≠ fs f.path)).length := by
  have hwb : ∀ f, writesBack skip fix f = true ↔
      isCs f.path = true ∧ skip f.content = false ∧ fix f.content ≠ f.content := fun f => by
    simp [writesBack, and_assoc]
  refine ⟨fun f hf hcs => commit_processFiles_cs hnd hf hcs (hfs f hf),
    fun hb f hf hcs hs hc => by
      subst hb
      exact commit_processFiles_backup hnd hf ((hwb f).mpr ⟨hcs, hs, hc⟩),
    fun p hp => commit_processFiles_untouched fun f hf h => hp f hf ((hwb f).mp h).1
      ((hwb f).mp h).2.1 ((hwb f).mp h).2.2, ?_⟩
  rw [processFiles_count]
  refine congrArg List.length (List.filter_congr fun f hf => ?_)
  by_cases hcs : isCs f.path = true
  · rw [commit_processFiles_cs hnd hf hcs (hfs f hf), hfs f hf]
    by_cases hs : skip f.content = true <;> simp [writesBack, hcs, hs]
  · simp [writesBack, hcs]

/-- Two walks that yield the same files in another order leave the same file system and
print the same count: the files are independent units, and the order only matters within
one file's rules. -/
theorem walk_order_irrelevant (skip : List Char → Bool) (fix : List Char → List Char)
    (backup : Bool) {files files' : List SourceFile} (hp : files.Perm files')
    (hnd : (files.map SourceFile.path).Nodup) (fs : FileSystem) :
    fs.commit (processFiles skip fix backup files).written =
      fs.commit (processFiles skip fix backup files').written ∧
    (processFiles skip fix backup files).count = (processFiles skip fix backup files').count := by
  rw [processFiles_written, processFiles_written, processFiles_count, processFiles_count]
  refine ⟨?_, (hp.filter _).length_eq⟩
  induction hp generalizing fs with
  | nil => rfl
  | cons f _ ih =>
    rw [List.flatMap_cons, List.flatMap_cons, FileSystem.commit_append,
      FileSystem.commit_append]
    exact ih (List.nodup_cons.mp hnd).2 _
  | swap f g l =>
    have hgf : g.path ≠ f.path := (List.nodup_cons.mp hnd).1 ∘ fun e => by simp [e]
    simp only [List.flatMap_cons, ← List.append_assoc]
    rw [FileSystem.commit_append fs (_ ++ _), FileSystem.commit_comm (fileWrites_disjoint hgf),
      ← FileSystem.commit_append]
  | trans h₁ _ ih₁ ih₂ => exact (ih₁ hnd fs).trans (ih₂ ((h₁.map _).nodup_iff.mp hnd) fs)

end Effect

/-- Three files read from the tree they form, the backups of `replace_all_quotes.py`
among the writes. -/
theorem walk_leaves_rewrites_sample :
    let files := [SourceFile.mk "A.cs".toList "x = \"\"id\"\";".toList,
      ⟨"B.cs".toList, "int n;".toList⟩, ⟨"C.txt".toList, "\"\"".toList⟩]
    (FileSystem.ofFiles files).commit (ReplaceAllQuotes.main files).written "A.cs".toList =
      some "x = \x27id\x27;".toList ∧
    (FileSystem.ofFiles files).commit (ReplaceAllQuotes.main files).written "A.cs.bak".toList =
      some "x = \"\"id\"\";".toList := by
  intro files
  have h := walk_leaves_rewrites ReplaceAllQuotes.skipFile
    ReplaceAllQuotes.replaceDoubleQuotesComprehensive true files (FileSystem.ofFiles files)
    (by decide) (by decide)
  exact ⟨(h.1 ⟨"A.cs".toList, "x = \"\"id\"\";".toList⟩ (List.mem_cons_self _ _)
      (by decide)).trans (by decide),
    h.2.1 rfl ⟨"A.cs".toList, "x = \"\"id\"\";".toList⟩ (List.mem_cons_self _ _) (by decide)
      (by decide) (by decide)⟩

theorem walk_order_irrelevant_sample :
    let a := SourceFile.mk "A.cs".toList "x = \"\"id\"\";".toList
    let b := SourceFile.mk "B.cs".toList "y = \"\"\";".toList
    (FileSystem.ofFiles [a, b]).commit (ReplaceAllQuotes.main [a, b]).written =
      (FileSystem.ofFiles [a, b]).commit (ReplaceAllQuotes.main [b, a]).written ∧
    (ReplaceAllQuotes.main [a, b]).count = (ReplaceAllQuotes.main [b, a]).count :=
  walk_order_irrelevant _ _ _ (List.Perm.swap _ _ _) (by decide) _

/-! ## The Should passes in sequence -/

/-- On a test tree whose `.cs` files are buffers of the core grammar, `fix_all_should.py`
leaves every `.cs` file migrated, and a later run of `fix_all_should.py`,
`fix_complex_should.py` or `fix_final_should.py` over the tree it left writes nothing and
counts nothing: the passes after the first find nothing left to do. -/
theorem should_scripts_converge_on_core (fs : FileSystem) (files : List SourceFile)
    (lines : List Char → List Line)
    (hfs : ∀ f ∈ files, fs f.path = some f.content) (hnd : (files.map SourceFile.path).Nodup)
    (hcore : ∀ f ∈ files, isCs f.path = true →
      (∀ l ∈ lines f.path, l.Core (ShouldSpec.handles FixAllShould.shouldSpecs)) ∧
        f.content = joinLines ((lines f.path).map Line.text)) :
    (∀ f ∈ files, isCs f.path = true →
      fs.commit (FixAllShould.processTestDir files).written f.path =
        some (joinLines ((lines f.path).map Line.migrated))) ∧
    FixAllShould.processTestDir
        (files.map (SourceFile.reread (fs.commit (FixAllShould.processTestDir files).written))) =
      ⟨[], 0⟩ ∧
    FixComplexShould.processTestDir
        (files.map (SourceFile.reread (fs.commit (FixAllShould.processTestDir files).written))) =
      ⟨[], 0⟩ ∧
    FixFinalShould.processTestDir
        (files.map (SourceFile.reread (fs.commit (FixAllShould.processTestDir files).written))) =
      ⟨[], 0⟩ := by
  have hmig : ∀ f ∈ files, isCs f.path = true →
      fs.commit (FixAllShould.processTestDir files).written f.path =
        some (joinLines ((lines f.path).map Line.migrated)) := fun f hf hcs => by
    obtain ⟨hls, hc⟩ := hcore f hf hcs
    rw [FixAllShould.processTestDir, commit_processFiles_cs_fix hnd hf hcs (hfs f hf)
      (FixAllShould.skipFile_fixed _), hc, FixAllShould.fixAllShouldPatterns_core hls]
  have hclean : ∀ g ∈ files.map
      (SourceFile.reread (fs.commit (FixAllShould.processTestDir files).written)),
      isCs g.path = true → ¬ ".Should()".toList <:+: g.content ∧
        ¬ ".Assert.".toList <:+: g.content := by
    simp only [List.mem_map]
    rintro _ ⟨f, hf, rfl⟩ hcs
    have hls := (hcore f hf hcs).1
    simp only [SourceFile.reread, hmig f hf hcs, Option.getD_some]
    exact ⟨joinLines_migrated_not_should hls, joinLines_migrated_not_assert hls⟩
  refine ⟨hmig, ?_, ?_, ?_⟩ <;>
    refine processFiles_eq_empty fun g hg => writesBack_of_skip fun hcs =>
      lacksAll_eq_true.mpr ?_ <;>
    obtain ⟨h1, h2⟩ := hclean g hg hcs
  · exact List.forall_mem_cons.mpr ⟨h1, List.forall_mem_singleton.mpr h2⟩
  · exact List.forall_mem_singleton.mpr h1
  · exact List.forall_mem_singleton.mpr h1

theorem should_scripts_converge_on_core_sample :
    let files := [SourceFile.mk "T.cs".toList "  x.Should().Be(1);\ny.Should().BeNull();".toList]
    (FileSystem.ofFiles files).commit (FixAllShould.processTestDir files).written "T.cs".toList =
      some "  Assert.Equal(1, x);\nAssert.Null(y);".toList ∧
    FixFinalShould.processTestDir (files.map (SourceFile.reread
      ((FileSystem.ofFiles files).commit (FixAllShould.processTestDir files).written))) =
      ⟨[], 0⟩ := by
  intro files
  have hx : Chain "x".toList := .ident ⟨rfl, by decide, by decide⟩
  have hy : Chain "y".toList := .ident ⟨rfl, by decide, by decide⟩
  have h := should_scripts_converge_on_core (FileSystem.ofFiles files) files
    (fun _ => [.fluent "  ".toList "x".toList .be "1".toList, .fluent [] "y".toList .beNull []])
    (by decide) (by decide) (by
      simp only [files, List.forall_mem_cons, List.not_mem_nil, false_imp_iff, imp_true_iff,
        and_true]
      exact fun _ => ⟨⟨⟨by decide, hx, by decide, by decide⟩, by decide, hy, by decide,
        by decide⟩, by decide⟩)
  exact ⟨(h.1 ⟨"T.cs".toList, "  x.Should().Be(1);\ny.Should().BeNull();".toList⟩
    (List.mem_singleton_self _) (by decide)).trans (by decide), h.2.2.2⟩

/-! ## `fix_remaining_should.py` -/

namespace FixRemainingShould

variable (db : UnicodeDb) (fs : FileSystem)

/-- The files of `files_to_fix` that exist, each with its text. -/
def existingFiles : List SourceFile :=
  filesToFix.filterMap fun n => (fs (filePath n)).map (SourceFile.mk (filePath n))

theorem foldl_fixFile {names : List (List Char)} (h : ∀ n ∈ names, isCs (filePath n) = true)
    (log : RunLog) :
    names.foldl (fixFile db fs) log =
      (names.filterMap fun n => (fs (filePath n)).map (SourceFile.mk (filePath n))).foldl
        (visit (fun _ => false) (fixRemainingPatterns db) false) log := by
  induction names generalizing log with
  | nil => rfl
  | cons n names ih =>
    rw [List.foldl_cons, List.filterMap_cons, ih fun n' hn' => h n' (List.mem_cons_of_mem n hn')]
    cases hc : fs (filePath n) with
    | none => simp [fixFile, hc]
    | some c => simp [fixFile, hc, visit, h n (List.mem_cons_self n names)]

theorem filesToFix_isCs : ∀ n ∈ filesToFix, isCs (filePath n) = true := by decide

/-- The loop over `files_to_fix` is the walk loop with no pre-check over the files that
exist: both names end in `.cs`. -/
theorem main_eq_processFiles :
    main db fs = processFiles (fun _ => false) (fixRemainingPatterns db) false (existingFiles fs) :=
  foldl_fixFile db fs filesToFix_isCs _

/-- Distinct names give files with distinct paths. -/
theorem paths_filterMap_nodup : ∀ {names : List (List Char)}, names.Nodup →
    ((names.filterMap fun n => (fs (filePath n)).map (SourceFile.mk (filePath n))).map
      SourceFile.path).Nodup
  | [], _ => List.nodup_nil
  | n :: names, h => by
    obtain ⟨hn, h⟩ := List.nodup_cons.mp h
    rw [List.filterMap_cons]
    cases hc : fs (filePath n) with
    | none => exact paths_filterMap_nodup h
    | some c =>
      refine List.nodup_cons.mpr ⟨fun hm => hn ?_, paths_filterMap_nodup h⟩
      obtain ⟨f, hf, he⟩ := List.mem_map.mp hm
      obtain ⟨n', hn', hf⟩ := List.mem_filterMap.mp hf
      obtain ⟨c', -, rfl⟩ := Option.map_eq_some'.mp hf
      rwa [← (List.cons.inj (List.append_cancel_left he)).2]

theorem existingFiles_nodup : ((existingFiles fs).map SourceFile.path).Nodup :=
  paths_filterMap_nodup fs (by decide)

theorem mem_existingFiles {n c : List Char} (hn : n ∈ filesToFix) (hc : fs (filePath n) = some c) :
    SourceFile.mk (filePath n) c ∈ existingFiles fs :=
  List.mem_filterMap.mpr ⟨n, hn, by simp [hc]⟩

/-- Every file the run reads is a file of `files_to_fix` that exists, with its text. -/
theorem exists_of_mem_existingFiles {f : SourceFile} (hf : f ∈ existingFiles fs) :
    ∃ n ∈ filesToFix, ∃ c, fs (filePath n) = some c ∧ f = ⟨filePath n, c⟩ := by
  obtain ⟨n, hn, hf⟩ := List.mem_filterMap.mp hf
  obtain ⟨c, hc, rfl⟩ := Option.map_eq_some'.mp hf
  exact ⟨n, hn, c, hc, rfl⟩

/-- `fix_remaining_should.py` leaves each file of `files_to_fix` that exists holding
`fix_remaining_patterns` of its text, writes no file of `files_to_fix` that is missing and no
other path, and counts the files among the existing ones that the rewrite changes. -/
theorem main_rewrites_existing :
    (∀ n ∈ filesToFix, ∀ c, fs (filePath n) = some c →
      fs.commit (main db fs).written (filePath n) = some (fixRemainingPatterns db c)) ∧
    (∀ n ∈ filesToFix, fs (filePath n) = none →
      fs.commit (main db fs).written (filePath n) = none) ∧
    (∀ p, (∀ n ∈ filesToFix, p ≠ filePath n) → fs.commit (main db fs).written p = fs p) ∧
    (main db fs).count = ((existingFiles fs).filter fun f =>
      decide (fixRemainingPatterns db f.content ≠ f.content)).length := by
  rw [main_eq_processFiles]
  refine ⟨fun n hn c hc => ?_, fun n _ hnone => ?_,
    fun p hp => commit_processFiles_untouched fun f hf _ => ?_, ?_⟩
  · exact commit_processFiles_cs (existingFiles_nodup fs) (mem_existingFiles fs hn hc)
      (filesToFix_isCs n hn) hc
  · -- only existing files are read, so a missing one is never written
    rw [commit_processFiles_untouched fun f hf _ => ?_, hnone]
    obtain ⟨n', -, c, hc, rfl⟩ := exists_of_mem_existingFiles fs hf
    exact ⟨fun h => absurd (h ▸ hnone) (by simp [hc]), by simp⟩
  · obtain ⟨n, hn, c, -, rfl⟩ := exists_of_mem_existingFiles fs hf
    exact ⟨hp n hn, by simp⟩
  · rw [processFiles_count]
    refine congrArg List.length (List.filter_congr fun f hf => ?_)
    obtain ⟨n, hn, c, -, rfl⟩ := exists_of_mem_existingFiles fs hf
    simp [writesBack, filesToFix_isCs n hn]

end FixRemainingShould

end AssertMigration
