import AssertMigration.Properties.QuoteNormalizers

/-!
# The sentinel technique as one scan

`fix_line` of `replace_double_quotes_comprehensive` protects each `\""` by a sentinel, turns
the remaining `""` pairs into `'`, and turns the sentinel back into `\"`. Read as one
left-to-right scan, this writes `\"` for each `\""`, `'` for each other `""`, and copies
every other character (`escapeScan`). The three replacements compute that scan on every line
without the sentinel's middle `TEMP_ESCAPED` (`comprehensive_is_single_scan`).

A line holding that middle can lose it: the last replacement turns a sentinel the line held
already into `\"`, and so it does with a sentinel made of `__TEMP_ESCAPED` from the line and
the first characters of one the first replacement inserted
(`comprehensive_restores_foreign_sentinel`).

## Main definitions

- `escapeScanWith e`: the scan that writes `e` for each `\""`; the first two replacements
  compute it at the sentinel (`pairsToApostrophe_replaceStr_escaped`).
- `escapeScan`: the scan at `\"`, what `fix_line` means to do in one pass.

## Design notes

The sentinel `__TEMP_ESCAPED__` has a border (`__`), so a sentinel of the line can overlap an
inserted one. Its middle has none and has no `'`: a middle at the start of the scan's output
stands at the start of its input (`prefix_of_prefix_escapeScanWith`), so on a line without a
middle each sentinel the last replacement finds is one the first replacement inserted.
-/

namespace AssertMigration

namespace ReplaceAllQuotes

/-- The left-to-right scan that writes `e` for each `\""`, `'` for each other `""`, and copies
every other character. -/
def escapeScanWith (e : List Char) : List Char → List Char
  | '\\' :: '"' :: '"' :: t => e ++ escapeScanWith e t
  | '"' :: '"' :: t => '\x27' :: escapeScanWith e t
  | c :: t => c :: escapeScanWith e t
  | [] => []

/-- The scan `fix_line` means to compute: `\""` is written `\"`. -/
def escapeScan (l : List Char) : List Char := escapeScanWith "\\\"".toList l

variable {e : List Char}

@[simp] theorem escapeScanWith_nil : escapeScanWith e [] = [] := rfl

@[simp] theorem escapeScanWith_escaped (t : List Char) :
    escapeScanWith e ('\\' :: '"' :: '"' :: t) = e ++ escapeScanWith e t := rfl

@[simp] theorem escapeScanWith_pair (t : List Char) :
    escapeScanWith e ('"' :: '"' :: t) = '\x27' :: escapeScanWith e t := rfl

theorem escaped_toList : "\\\"\"".toList = ['\\', '"', '"'] := rfl

/-- A text without `"` passes through `pairsToApostrophe` unchanged and leaves no pair open. -/
theorem pairsToApostrophe_append_of_not_mem {u : List Char} (hu : '"' ∉ u) (x : List Char) :
    pairsToApostrophe (u ++ x) = u ++ pairsToApostrophe x := by
  induction u with
  | nil => rfl
  | cons c u ih =>
    rw [List.mem_cons, not_or] at hu
    rw [List.cons_append, pairsToApostrophe.eq_2 c _ fun _ hc _ => hu.1 hc.symm, ih hu.2,
      List.cons_append]

/-- Replacing `\""` by the sentinel starts with `"` only where the text does. -/
theorem head_replaceStr_escaped {t r : List Char}
    (h : replaceStr "\\\"\"".toList tempEscaped rfl t = '"' :: r) : ∃ t', t = '"' :: t' := by
  cases t with
  | nil => cases h
  | cons d t =>
    by_cases ho : "\\\"\"".toList <+: d :: t
    · obtain ⟨u, hu⟩ := ho
      rw [← hu, replaceStr_old_append] at h
      cases h
    · rw [replaceStr_cons_of_mismatch ho, List.cons.injEq] at h
      exact ⟨t, by rw [h.1]⟩

/-- The first two replacements of `fix_line` compute the scan at the sentinel. -/
theorem pairsToApostrophe_replaceStr_escaped (l : List Char) :
    pairsToApostrophe (replaceStr "\\\"\"".toList tempEscaped rfl l) =
      escapeScanWith tempEscaped l := by
  induction l using escapeScanWith.induct tempEscaped with
  | case1 t ih =>
    show pairsToApostrophe (replaceStr "\\\"\"".toList tempEscaped rfl ("\\\"\"".toList ++ t)) = _
    rw [replaceStr_old_append, pairsToApostrophe_append_of_not_mem (by decide), ih,
      escapeScanWith_escaped]
  | case2 t ih =>
    rw [replaceStr_cons_of_mismatch (by simp [escaped_toList]),
      replaceStr_cons_of_mismatch (by simp [escaped_toList]), pairsToApostrophe_pair, ih,
      escapeScanWith_pair]
  | case3 c t h1 h2 ih =>
    have ho : ¬ "\\\"\"".toList <+: c :: t := by
      rintro ⟨u, hu⟩
      rw [escaped_toList, List.cons_append, List.cons.injEq] at hu
      exact h1 u hu.1.symm (by rw [← hu.2]; rfl)
    rw [replaceStr_cons_of_mismatch ho, pairsToApostrophe.eq_2 c _ fun r hc hr => ?_, ih,
      escapeScanWith.eq_3 _ c t h1 h2]
    obtain ⟨t', rfl⟩ := head_replaceStr_escaped hr
    exact h2 t' hc rfl
  | case4 => rfl

/-- A literal without `'` that overlaps `e` nowhere along itself stands at the start of the
scan's input when it stands at the start of the scan's output. -/
theorem prefix_of_prefix_escapeScanWith {w : List Char} (hq : '\x27' ∉ w)
    (hw : ∀ j < w.length, ¬ w.drop j <+: e ∧ ¬ e <+: w.drop j) {u : List Char}
    (h : w <+: escapeScanWith e u) : w <+: u := by
  induction u using escapeScanWith.induct e generalizing w with
  | case1 t _ =>
    cases w with
    | nil => exact List.nil_prefix
    | cons d w =>
      rw [escapeScanWith_escaped] at h
      rcases List.prefix_or_prefix_of_prefix h (List.prefix_append e _) with h' | h'
      · exact absurd h' (hw 0 (by simp)).1
      · exact absurd h' (hw 0 (by simp)).2
  | case2 t _ =>
    cases w with
    | nil => exact List.nil_prefix
    | cons d w =>
      obtain ⟨rfl, -⟩ := List.cons_prefix_cons.mp h
      exact absurd (List.mem_cons_self _ w) hq
  | case3 c t h1 h2 ih =>
    rw [escapeScanWith.eq_3 e c t h1 h2] at h
    cases w with
    | nil => exact List.nil_prefix
    | cons d w =>
      obtain ⟨rfl, hp⟩ := List.cons_prefix_cons.mp h
      exact List.cons_prefix_cons.mpr ⟨rfl, ih (fun hm => hq (List.mem_cons_of_mem d hm))
        (fun j hj => hw (j + 1) (by simp; omega)) hp⟩
  | case4 => exact h

/-- Where the scan's output holds the sentinel less its first `_` at its start, the input
holds the middle `TEMP_ESCAPED`. -/
theorem middle_of_prefix_escapeScanWith (t : List Char)
    (h : "_TEMP_ESCAPED__".toList <+: escapeScanWith tempEscaped t) :
    "TEMP_ESCAPED".toList <:+: t := by
  induction t using escapeScanWith.induct tempEscaped with
  | case1 t _ => simp [tempEscaped] at h
  | case2 t _ => simp at h
  | case3 d t h1 h2 _ =>
    rw [escapeScanWith.eq_3 _ d t h1 h2] at h
    obtain ⟨-, hp⟩ := List.cons_prefix_cons.mp h
    have hm : "TEMP_ESCAPED".toList <+: escapeScanWith tempEscaped t :=
      (by decide : "TEMP_ESCAPED".toList <+: "TEMP_ESCAPED__".toList).trans hp
    exact (prefix_of_prefix_escapeScanWith (by decide) (by decide) hm).isInfix.trans
      (List.suffix_cons d t).isInfix
  | case4 => simp at h

/-- On a line without the middle, the last replacement finds exactly the sentinels the
first one inserted. -/
theorem replaceStr_sentinel_escapeScanWith {l : List Char}
    (h : ¬ "TEMP_ESCAPED".toList <:+: l) :
    replaceStr tempEscaped "\\\"".toList rfl (escapeScanWith tempEscaped l) = escapeScan l := by
  induction l using escapeScanWith.induct tempEscaped with
  | case1 t ih =>
    rw [escapeScanWith_escaped, replaceStr_old_append,
      ih fun h' => h (h'.trans (List.suffix_append ['\\', '"', '"'] t).isInfix)]
    rfl
  | case2 t ih =>
    rw [escapeScanWith_pair, replaceStr_cons_of_mismatch (by simp [tempEscaped]),
      ih fun h' => h (h'.trans (List.suffix_append ['"', '"'] t).isInfix)]
    rfl
  | case3 c t h1 h2 ih =>
    have hs : ¬ tempEscaped <+: c :: escapeScanWith tempEscaped t := fun hp => by
      obtain ⟨-, hp⟩ := List.cons_prefix_cons.mp hp
      exact h ((middle_of_prefix_escapeScanWith t hp).trans (List.suffix_cons c t).isInfix)
    rw [escapeScanWith.eq_3 _ c t h1 h2, replaceStr_cons_of_mismatch hs,
      ih fun h' => h (h'.trans (List.suffix_cons c t).isInfix), escapeScan, escapeScan,
      escapeScanWith.eq_3 _ c t h1 h2]
  | case4 => rfl

/-- On a line without the middle, `fix_line` is the single scan. -/
theorem fixLine_eq_escapeScan {l : List Char} (h : ¬ "TEMP_ESCAPED".toList <:+: l) :
    fixLine l = escapeScan l := by
  simp only [fixLine]
  rw [replaceStr_pairs, pairsToApostrophe_replaceStr_escaped,
    replaceStr_sentinel_escapeScanWith h]

/-! ## Running the scan twice -/

end ReplaceAllQuotes

open ReplaceAllQuotes in
/-- `replace_double_quotes_comprehensive` keeps the number of lines of every content, and on
every content without `TEMP_ESCAPED` it is the map over the lines that keeps a line without a
marker and passes every other line through the single scan, the lines joined by line
breaks. -/
theorem comprehensive_is_single_scan (c : List Char) :
    ((replaceDoubleQuotesComprehensive c).splitOn '\n').length = (c.splitOn '\n').length ∧
      (¬ "TEMP_ESCAPED".toList <:+: c →
        replaceDoubleQuotesComprehensive c =
          ['\n'].intercalate
            ((c.splitOn '\n').map fun l => if hasMarker l then escapeScan l else l)) := by
  refine ⟨by rw [comprehensive_splitOn, List.length_map], fun h => ?_⟩
  rw [replaceDoubleQuotesComprehensive]
  congr 1
  exact List.map_congr_left fun l hl => by
    rw [processLine, fixLine_eq_escapeScan fun h' => h (h'.trans (infix_of_mem_splitOn hl))]

theorem comprehensive_is_single_scan_sample :
    ReplaceAllQuotes.replaceDoubleQuotesComprehensive
        "var j = @\"\x7b\"\"a\"\": \"\"\\\"\"\"\"\x7d\";\nint n = 0;".toList =
      ['\n'].intercalate
        (("var j = @\"\x7b\"\"a\"\": \"\"\\\"\"\"\"\x7d\";\nint n = 0;".toList.splitOn '\n').map
          fun l => if ReplaceAllQuotes.hasMarker l then ReplaceAllQuotes.escapeScan l else l) :=
  (comprehensive_is_single_scan _).2 (by decide)

open ReplaceAllQuotes in
/-- The single scan is not what the code computes on a marked line that holds the sentinel,
or only `__TEMP_ESCAPED` before a `\""`: the last replacement turns either into `\"`. -/
theorem comprehensive_restores_foreign_sentinel :
    replaceDoubleQuotesComprehensive "json __TEMP_ESCAPED__".toList = "json \\\"".toList ∧
      escapeScan "json __TEMP_ESCAPED__".toList = "json __TEMP_ESCAPED__".toList ∧
      replaceDoubleQuotesComprehensive "json __TEMP_ESCAPED\\\"\"".toList =
        "json \\\"TEMP_ESCAPED__".toList ∧
      escapeScan "json __TEMP_ESCAPED\\\"\"".toList = "json __TEMP_ESCAPED\\\"".toList := by
  decide

end AssertMigration
