import AssertMigration.Scripts.Walk
import AssertMigration.Properties.Literals
import AssertMigration.Properties.QuoteNormalizers

/-!
# The pre-checks of the walks

Each generic Should script skips a file that holds none of its marker substrings before it
calls its rewrite. Every rule of the rewrite spells one of those markers, so the rewrite
leaves a skipped file as it is, and the pre-check only saves work: the loop with it writes
what the loop without it writes, and prints as its count the number of `.cs` files the
rewrite changes (`should_prechecks_short_circuit`).

The quote scripts skip a file without `""`. On files without the sentinel of
`replace_all_quotes.py` that too only saves work (`comprehensive_precheck_short_circuit`), but
a file whose line holds a marker and `__TEMP_ESCAPED__` is skipped though the rewrite changes
it (`comprehensive_precheck_skips_sentinel`), and so is a file whose JSON is a key-value pair
`"k": "v"` in `replace_quotes.py` (`json_precheck_skips_key_value`).

## Main results

- `foldl_visit_eq_of_skip_fixed`: a pre-check that skips only files the rewrite leaves as
  they are changes no pass of the loop.
- `foldl_visit_count`: without a pre-check the loop counts the `.cs` files the rewrite
  changes.
-/

namespace AssertMigration

/-- The number of `.cs` files among `files` that the rewrite changes. -/
def changedCount (fix : List Char → List Char) (files : List SourceFile) : Nat :=
  (files.filter fun f => isCs f.path && decide (fix f.content ≠ f.content)).length

section Walk

variable {skip : List Char → Bool} {fix : List Char → List Char} {backup : Bool}
  {files : List SourceFile}

/-- At a file the pre-check skips only when the rewrite leaves it as it is, the pass is the
pass without the pre-check. -/
theorem visit_eq_of_skip_fixed (log : RunLog) {f : SourceFile}
    (h : skip f.content = true → fix f.content = f.content) :
    visit skip fix backup log f = visit (fun _ => false) fix backup log f := by
  by_cases hs : skip f.content = true
  · simp [visit, hs, h hs]
  · simp [visit, hs]

theorem foldl_visit_eq_of_skip_fixed
    (h : ∀ f ∈ files, skip f.content = true → fix f.content = f.content) (log : RunLog) :
    files.foldl (visit skip fix backup) log =
      files.foldl (visit (fun _ => false) fix backup) log := by
  induction files generalizing log with
  | nil => rfl
  | cons f files ih =>
    rw [List.foldl_cons, List.foldl_cons,
      visit_eq_of_skip_fixed log (h f (List.mem_cons_self f files)),
      ih fun f' hf' => h f' (List.mem_cons_of_mem f hf')]

/-- Without a pre-check one pass counts the file exactly when it is a `.cs` file that the
rewrite changes. -/
theorem visit_count (log : RunLog) (f : SourceFile) :
    (visit (fun _ => false) fix backup log f).count =
      log.count + if isCs f.path && decide (fix f.content ≠ f.content) then 1 else 0 := by
  by_cases hc : isCs f.path = true <;> by_cases hf : fix f.content = f.content <;>
    simp [visit, hc, hf]

theorem foldl_visit_count (log : RunLog) (files : List SourceFile) :
    (files.foldl (visit (fun _ => false) fix backup) log).count =
      log.count + changedCount fix files := by
  induction files generalizing log with
  | nil => rfl
  | cons f files ih =>
    rw [List.foldl_cons, ih, visit_count, changedCount, changedCount, List.filter_cons]
    split <;> simp_all; omega

/-- A run over files that the pre-check all skips writes nothing and counts nothing. -/
theorem processFiles_eq_of_skip (h : ∀ f ∈ files, skip f.content = true) :
    processFiles skip fix backup files = ⟨[], 0⟩ := by
  suffices ∀ log, files.foldl (visit skip fix backup) log = log from this _
  induction files with
  | nil => exact fun _ => rfl
  | cons f files ih =>
    intro log
    rw [List.foldl_cons, show visit skip fix backup log f = log by
      simp [visit, h f (List.mem_cons_self f files)]]
    exact ih (fun f' hf' => h f' (List.mem_cons_of_mem f hf')) log

theorem processFiles_eq_of_skip_fixed
    (h : ∀ f ∈ files, skip f.content = true → fix f.content = f.content) :
    processFiles skip fix backup files = processFiles (fun _ => false) fix backup files :=
  foldl_visit_eq_of_skip_fixed h _

theorem processFiles_count_of_skip_fixed
    (h : ∀ f ∈ files, skip f.content = true → fix f.content = f.content) :
    (processFiles skip fix backup files).count = changedCount fix files := by
  rw [processFiles_eq_of_skip_fixed h, processFiles, foldl_visit_count, Nat.zero_add]

end Walk

theorem FixAllShould.skipFile_fixed (c : List Char) (h : skipFile c = true) :
    fixAllShouldPatterns c = c :=
  applyAll_eq_self_of_absent rules_literal (lacksAll_eq_true.mp h)

theorem FixComplexShould.skipFile_fixed (c : List Char) (h : skipFile c = true) :
    fixComplexShouldPatterns c = c :=
  applyAll_eq_self_of_absent (literals_of_all rules_literal) (lacksAll_eq_true.mp h)

theorem FixFinalShould.skipFile_fixed (c : List Char) (h : skipFile c = true) :
    fixAllShouldPatterns c = c :=
  applyAll_eq_self_of_absent (literals_of_all rules_literal) (lacksAll_eq_true.mp h)

/-- The pre-checks of the three generic Should scripts only save work. Each rewrite leaves a
text without its markers as it is, so for every list of files the loop with the pre-check
writes what the loop without it writes, and its count is the number of `.cs` files the
rewrite changes. -/
theorem should_prechecks_short_circuit (c : List Char) (files : List SourceFile) :
    ((¬ ".Should()".toList <:+: c → ¬ ".Assert.".toList <:+: c →
        FixAllShould.fixAllShouldPatterns c = c) ∧
      (¬ ".Should()".toList <:+: c →
        FixComplexShould.fixComplexShouldPatterns c = c ∧
          FixFinalShould.fixAllShouldPatterns c = c)) ∧
    (FixAllShould.processTestDir files =
        processFiles (fun _ => false) FixAllShould.fixAllShouldPatterns false files ∧
      FixComplexShould.processTestDir files =
        processFiles (fun _ => false) FixComplexShould.fixComplexShouldPatterns false files ∧
      FixFinalShould.processTestDir files =
        processFiles (fun _ => false) FixFinalShould.fixAllShouldPatterns false files) ∧
    ((FixAllShould.processTestDir files).count =
        changedCount FixAllShould.fixAllShouldPatterns files ∧
      (FixComplexShould.processTestDir files).count =
        changedCount FixComplexShould.fixComplexShouldPatterns files ∧
      (FixFinalShould.processTestDir files).count =
        changedCount FixFinalShould.fixAllShouldPatterns files) := by
  have h1 := FixAllShould.skipFile_fixed
  have h2 := FixComplexShould.skipFile_fixed
  have h3 := FixFinalShould.skipFile_fixed
  refine ⟨⟨fun hs ha => h1 c (by simpa [FixAllShould.skipFile] using ⟨hs, ha⟩),
      fun hs => ⟨h2 c (by simpa [FixComplexShould.skipFile] using hs),
        h3 c (by simpa [FixFinalShould.skipFile] using hs)⟩⟩,
    ⟨processFiles_eq_of_skip_fixed fun f _ => h1 f.content,
      processFiles_eq_of_skip_fixed fun f _ => h2 f.content,
      processFiles_eq_of_skip_fixed fun f _ => h3 f.content⟩,
    ⟨processFiles_count_of_skip_fixed fun f _ => h1 f.content,
      processFiles_count_of_skip_fixed fun f _ => h2 f.content,
      processFiles_count_of_skip_fixed fun f _ => h3 f.content⟩⟩

theorem should_prechecks_short_circuit_sample :
    FixAllShould.fixAllShouldPatterns "int n = 0;".toList = "int n = 0;".toList ∧
      FixComplexShould.fixComplexShouldPatterns "int n = 0;".toList = "int n = 0;".toList ∧
      FixFinalShould.fixAllShouldPatterns "int n = 0;".toList = "int n = 0;".toList :=
  ⟨(should_prechecks_short_circuit "int n = 0;".toList []).1.1 (by decide) (by decide),
    (should_prechecks_short_circuit "int n = 0;".toList []).1.2 (by decide)⟩

/-! ## The pre-checks of the quote scripts -/

namespace ReplaceAllQuotes

/-- A content without `""` and without the sentinel is left as it is. -/
theorem comprehensive_eq_self {c : List Char} (h1 : ¬ "\"\"".toList <:+: c)
    (h2 : ¬ tempEscaped <:+: c) : replaceDoubleQuotesComprehensive c = c := by
  rw [replaceDoubleQuotesComprehensive, List.map_congr_left (g := id) fun l hl => ?_, List.map_id,
    List.intercalate_splitOn c '\n']
  have hl := infix_of_mem_splitOn hl
  rw [processLine_eq
      (fun h => h1 ((by decide : "\"\"".toList <:+: "\\\"\"".toList).trans (h.trans hl)))
      (fun h => h2 (h.trans hl)), pairsToApostrophe_eq_self fun h => h1 (h.trans hl), ite_self,
    id]

/-- On a line with a marker and without `""`, only the last replacement can fire, and it
shortens every sentinel it finds to `\"`. -/
theorem processLine_ne_self {l : List Char} (hm : hasMarker l = true)
    (hq : ¬ "\"\"".toList <:+: l) (ht : tempEscaped <:+: l) : processLine l ≠ l := by
  simp only [processLine, if_pos hm, fixLine]
  rw [replaceStr_eq_self fun h => hq ((by decide : "\"\"".toList <:+: "\\\"\"".toList).trans h),
    replaceStr_eq_self hq]
  exact fun he => (length_replaceStr_lt (by decide) ht).ne (congrArg List.length he)

/-- A content one of whose lines `process_line` changes is changed. -/
theorem comprehensive_ne_self {c l : List Char} (hl : l ∈ c.splitOn '\n')
    (hne : processLine l ≠ l) : replaceDoubleQuotesComprehensive c ≠ c := fun he => by
  have hs := comprehensive_splitOn c
  rw [he, ← List.map_id' (c.splitOn '\n'), List.map_map] at hs
  exact hne (List.map_eq_map_iff.mp hs.symm l (by simpa using hl))

end ReplaceAllQuotes

/-- The pre-check of `replace_all_quotes.py`, `'""' in content`, only saves work on files
without the sentinel: for every list of files none of which holds `__TEMP_ESCAPED__`, the loop
with the pre-check writes what the loop without it writes, backups included, and counts the
`.cs` files the rewrite changes. -/
theorem comprehensive_precheck_short_circuit (files : List SourceFile)
    (h : ∀ f ∈ files, ¬ ReplaceAllQuotes.tempEscaped <:+: f.content) :
    ReplaceAllQuotes.main files =
        processFiles (fun _ => false) ReplaceAllQuotes.replaceDoubleQuotesComprehensive true files ∧
      (ReplaceAllQuotes.main files).count =
        changedCount ReplaceAllQuotes.replaceDoubleQuotesComprehensive files := by
  have hs : ∀ f ∈ files, ReplaceAllQuotes.skipFile f.content = true →
      ReplaceAllQuotes.replaceDoubleQuotesComprehensive f.content = f.content := fun f hf hs =>
    ReplaceAllQuotes.comprehensive_eq_self (by simpa [ReplaceAllQuotes.skipFile] using hs) (h f hf)
  exact ⟨processFiles_eq_of_skip_fixed hs, processFiles_count_of_skip_fixed hs⟩

theorem comprehensive_precheck_short_circuit_sample :
    ReplaceAllQuotes.main [⟨"A.cs".toList, "var s = \"\";".toList⟩, ⟨"B.cs".toList, "int n;".toList⟩] =
      processFiles (fun _ => false) ReplaceAllQuotes.replaceDoubleQuotesComprehensive true
        [⟨"A.cs".toList, "var s = \"\";".toList⟩, ⟨"B.cs".toList, "int n;".toList⟩] :=
  (comprehensive_precheck_short_circuit _ (by decide)).1

open ReplaceAllQuotes in
/-- Where the sentinel already stands in a file, the pre-check changes what the run does: a
`.cs` file without `""` one of whose lines holds a marker and `__TEMP_ESCAPED__` is skipped,
so the run writes nothing and counts nothing, though the rewrite changes the file. -/
theorem comprehensive_precheck_skips_sentinel {path c l : List Char} (hcs : isCs path = true)
    (hq : ¬ "\"\"".toList <:+: c) (hl : l ∈ c.splitOn '\n') (hm : hasMarker l = true)
    (ht : tempEscaped <:+: l) :
    main [⟨path, c⟩] = ⟨[], 0⟩ ∧
      changedCount replaceDoubleQuotesComprehensive [⟨path, c⟩] = 1 := by
  have hne := comprehensive_ne_self hl
    (processLine_ne_self hm (fun h => hq (h.trans (infix_of_mem_splitOn hl))) ht)
  refine ⟨processFiles_eq_of_skip ?_, by simp [changedCount, hcs, hne]⟩
  simpa [skipFile] using hq

theorem comprehensive_precheck_skips_sentinel_sample :
    ReplaceAllQuotes.main [⟨"A.cs".toList, "json __TEMP_ESCAPED__".toList⟩] = ⟨[], 0⟩ ∧
      changedCount ReplaceAllQuotes.replaceDoubleQuotesComprehensive
        [⟨"A.cs".toList, "json __TEMP_ESCAPED__".toList⟩] = 1 :=
  comprehensive_precheck_skips_sentinel (l := "json __TEMP_ESCAPED__".toList) rfl (by decide)
    (by decide) (by decide) (by decide)

/-- A text without `""` stays without it after a `"` that no `"` follows. -/
theorem not_pair_infix_append_quote {x y : List Char} (hx : '"' ∉ x) (hy : y.head? ≠ some '"')
    (h : ¬ "\"\"".toList <:+: y) : ¬ "\"\"".toList <:+: x ++ '"' :: y :=
  not_infix_append_of_head hx rfl fun h' => by
    rcases List.infix_cons_iff.mp h' with ⟨t, ht⟩ | h'
    · cases y with
      | nil => cases ht
      | cons d y => exact hy (by rw [← (List.cons.inj (List.cons.inj ht).2).1]; rfl)
    · exact h h'

namespace ReplaceQuotes

/-- `"k":sp"v"`: a key and a value in double quotes, with spaces after the colon. -/
def keyValueText (k sp v : List Char) : List Char :=
  "\"".toList ++ (k ++ ("\"".toList ++ (":".toList ++ (sp ++ ("\"".toList ++ (v ++ "\"".toList))))))

/-- `'k': 'v'` -/
def keyValueSingle (k v : List Char) : List Char :=
  "\x27".toList ++ (k ++ ("\x27: \x27".toList ++ (v ++ "\x27".toList)))

theorem exists_of_not_quote {w : List Char} (hw : w ≠ []) (hq : '"' ∉ w) :
    ∃ e u, w = e :: u ∧ notChar '"' e = true ∧ ∀ c ∈ u, notChar '"' c = true := by
  obtain ⟨e, u, rfl⟩ := List.exists_cons_of_ne_nil hw
  have h : ∀ c ∈ e :: u, notChar '"' c = true := fun c hc => by
    simpa [notChar] using fun h : c = '"' => hq (h ▸ hc)
  exact ⟨e, u, rfl, h e (List.mem_cons_self e u), fun c hc => h c (List.mem_cons_of_mem e hc)⟩

/-- The key-value pattern reads the key, the spaces and the value, its groups holding the key
and the value. -/
theorem keyValuePat_match {k sp v : List Char} (hk : k ≠ []) (hk' : '"' ∉ k)
    (hsp : ∀ c ∈ sp, isPySpace c = true) (hv : v ≠ []) (hv' : '"' ∉ v) (Q : List Char) :
    ∃ ms, matchToks keyValuePat [] (keyValueText k sp v ++ Q) = some (ms, Q) ∧
      groupText ms 1 = k ∧ groupText ms 2 = v := by
  apply Exists.intro
  refine ⟨?_, ?_, ?_⟩
  simp only [keyValueText, keyValuePat, quotedGrp, str, grp, plus, List.append_assoc,
    List.cons_append, List.nil_append, List.singleton_append, matchToks_chrs]
  refine matchToks_run_group (exists_of_not_quote hk hk') ⟨_, _, rfl, rfl⟩ ?_
  rw [matchToks_chrs, matchToks_chrs, matchToks_star]
  refine greedy_append_of_some hsp ((greedy_cons_stop rfl).trans ?_)
  show matchToks _ _ ("\"".toList ++ (v ++ ("\"".toList ++ Q))) = _
  rw [matchToks_chrs]
  exact matchToks_run_group (exists_of_not_quote hv hv') ⟨_, _, rfl, rfl⟩ (matchToks_chrs_nil _)
  all_goals simp only [List.nil_append, List.append_assoc, List.singleton_append,
    List.cons_append, groupText_cons_cons, Nat.zero_add, groupText_one]

/-- A key-value pair between texts without `"` holds no `""`. -/
theorem not_pair_infix_keyValueText {P k sp v Q : List Char} (hP : '"' ∉ P) (hk : k ≠ [])
    (hk' : '"' ∉ k) (hsp : ∀ c ∈ sp, isPySpace c = true) (hv : v ≠ []) (hv' : '"' ∉ v)
    (hQ : '"' ∉ Q) : ¬ "\"\"".toList <:+: P ++ (keyValueText k sp v ++ Q) := by
  have hhead : ∀ {w : List Char}, w ≠ [] → '"' ∉ w → ∀ z, (w ++ z).head? ≠ some '"' :=
    fun hw hq _ h => hq (List.mem_of_mem_head? (List.head?_append_of_ne_nil _ hw ▸ h))
  have hsp' : '"' ∉ ':' :: sp := List.not_mem_cons_of_ne_of_not_mem (by decide) fun h =>
    absurd (hsp _ h) (by decide)
  simp only [keyValueText, List.append_assoc]
  show ¬ _ <:+: P ++ '"' :: (k ++ '"' :: ((':' :: sp) ++ '"' :: (v ++ '"' :: Q)))
  exact not_pair_infix_append_quote hP (hhead hk hk' _) <|
    not_pair_infix_append_quote hk' (by simp) <|
    not_pair_infix_append_quote hsp' (hhead hv hv' _) <|
    not_pair_infix_append_quote hv' (fun h => hQ (List.mem_of_mem_head? h)) <|
    not_infix_of_not_mem (List.mem_cons_self '"' _) hQ

end ReplaceQuotes

open ReplaceQuotes in
/-- The pre-check of `replace_quotes.py`, `'""' in content`, does more than save work: a file
whose JSON is a key-value pair `"k": "v"` holds no `""` and is skipped, though
`replace_double_quotes_in_json` rewrites it to `'k': 'v'`. On every such `.cs` file the run
writes nothing and counts nothing, where the rewrite changes one file. -/
theorem json_precheck_skips_key_value {P k sp v Q path : List Char} (hP : '"' ∉ P)
    (hk : k ≠ []) (hk' : '"' ∉ k) (hsp : ∀ c ∈ sp, isPySpace c = true) (hv : v ≠ [])
    (hv' : '"' ∉ v) (hQ : '"' ∉ Q) (hcs : isCs path = true) :
    replaceDoubleQuotesInJson (P ++ (keyValueText k sp v ++ Q)) =
        P ++ (keyValueSingle k v ++ Q) ∧
      ReplaceQuotes.main [⟨path, P ++ (keyValueText k sp v ++ Q)⟩] = ⟨[], 0⟩ ∧
      changedCount replaceDoubleQuotesInJson [⟨path, P ++ (keyValueText k sp v ++ Q)⟩] = 1 := by
  obtain ⟨ms, hm, h1, h2⟩ := keyValuePat_match hk hk' hsp hv hv' Q
  have hpair := not_pair_infix_keyValueText hP hk hk' hsp hv hv' hQ
  have hout : replaceDoubleQuotesInJson (P ++ (keyValueText k sp v ++ Q)) =
      P ++ (keyValueSingle k v ++ Q) := by
    rw [replaceDoubleQuotesInJson, applyAll_cons, applyAll_cons, applyAll_nil,
      doubledRule.sub_eq_self_of_hasLiteral (by decide) hpair,
      keyValueRule.sub_append_of_head rfl hP, keyValueRule.sub_of_some hm, keyValueRule_tmpl,
      keyValueRule.sub_eq_self_of_head rfl hQ]
    simp only [expand, h1, h2, keyValueSingle]
    simp
  have hne : P ++ (keyValueSingle k v ++ Q) ≠ P ++ (keyValueText k sp v ++ Q) := by
    simp [keyValueSingle, keyValueText]
  refine ⟨hout, processFiles_eq_of_skip ?_, by simp [changedCount, hcs, hout, hne]⟩
  simpa [skipFile] using hpair

theorem json_precheck_skips_key_value_sample :
    ReplaceQuotes.replaceDoubleQuotesInJson ("x = ".toList ++
        (ReplaceQuotes.keyValueText "id".toList " ".toList "start".toList ++ ";".toList)) =
      "x = ".toList ++ (ReplaceQuotes.keyValueSingle "id".toList "start".toList ++ ";".toList) ∧
    ReplaceQuotes.main [⟨"A.cs".toList, "x = ".toList ++
        (ReplaceQuotes.keyValueText "id".toList " ".toList "start".toList ++ ";".toList)⟩] =
      ⟨[], 0⟩ ∧
    changedCount ReplaceQuotes.replaceDoubleQuotesInJson [⟨"A.cs".toList, "x = ".toList ++
        (ReplaceQuotes.keyValueText "id".toList " ".toList "start".toList ++ ";".toList)⟩] = 1 :=
  json_precheck_skips_key_value (by decide) (by decide) (by decide) (by decide) (by decide)
    (by decide) (by decide) rfl

end AssertMigration
