import AssertMigration.Scripts.Quotes
import AssertMigration.Text.Occurrence

/-!
# What the quote normalizers change

`replace_double_quotes_comprehensive` of `replace_all_quotes.py` keeps the line structure of
its input: no replacement of `fix_line` writes a line break, so the lines of its output are
the lines of its input, each passed through `process_line` (`comprehensive_splitOn`). On a
line without `\""` and without the sentinel the three replacements amount to
`pairsToApostrophe`, which turns every `""` pair, read from the left, into `'`, whether the
pair is an escaped quote of a verbatim literal or an empty regular literal. Under that
condition a line is rewritten exactly when it holds a marker (`processLine_eq`), and a
second pass of `process_line` changes nothing (`processLine_processLine`).

`replace_double_quotes_in_json` of `replace_quotes.py` rewrites the whole content at once:
it leaves a content without `""` and without `":` unchanged, and where its first pattern
reads `""k""` it writes `'k'` (`doubledRule_sub_pair`); but its matches run across line
breaks and over regular literals, so two empty literals around a text without quotes
become one single-quoted text (`replaceDoubleQuotesInJson_joins_empty_literals`).

## Design notes

`str.replace` is `re.sub` with a literal pattern, so it is stepped by two lemmas, one at an
occurrence of `old` (`replaceStr_old_append`) and one elsewhere
(`replaceStr_cons_of_mismatch`). Every suffix of `pairsToApostrophe s` is
`pairsToApostrophe` of a suffix of `s`, so a literal without `'` that occurs in the result
already occurs in `s`; that is all the proofs need to know about the sentinel.
-/

namespace AssertMigration

section ReplaceStr

variable {old new : List Char} {h : consuming (old.map .chr) = true}

theorem ne_nil_of_consuming_chrs (h : consuming (old.map .chr) = true) : old ≠ [] := by
  rintro rfl
  exact absurd h (by decide)

/-- At an occurrence of `old` the replacement is written and the scan resumes after it. -/
theorem replaceStr_old_append (s : List Char) :
    replaceStr old new h (old ++ s) = new ++ replaceStr old new h s := by
  have hm : matchToks (old.map Tok.chr ++ []) [] (old ++ s) = some ([], s) := matchToks_chrs old
  rw [List.append_nil] at hm
  simpa using Rule.sub_of_some ⟨old.map .chr, new.map .text, h⟩ hm

/-- Where no occurrence of `old` starts, the character is copied. -/
theorem replaceStr_cons_of_mismatch {c : Char} {s : List Char} (hc : ¬ old <+: c :: s) :
    replaceStr old new h (c :: s) = c :: replaceStr old new h s := by
  have hm : matchToks (old.map Tok.chr ++ []) [] (c :: s) = none := matchToks_chrs_of_mismatch hc
  rw [List.append_nil] at hm
  exact Rule.sub_cons_of_none ⟨old.map .chr, new.map .text, h⟩ hm

/-- A text without `old` is left unchanged. -/
theorem replaceStr_eq_self {s : List Char} (hs : ¬ old <:+: s) : replaceStr old new h s = s :=
  Rule.sub_eq_self_of_literal_absent ⟨old.map .chr, new.map .text, h⟩
    (by simp : old.map Tok.chr = [] ++ (old.map Tok.chr ++ [])) hs

/-- A character in neither the text nor the replacement is not in the result. -/
theorem not_mem_replaceStr {d : Char} (hn : d ∉ new) :
    ∀ {s : List Char}, d ∉ s → d ∉ replaceStr old new h s
  | [], _ => List.not_mem_nil d
  | c :: s, hs => by
    by_cases ho : old <+: c :: s
    · obtain ⟨t, ht⟩ := ho
      have hlt : t.length < (c :: s).length := by
        have := List.length_pos.mpr (ne_nil_of_consuming_chrs h)
        rw [← ht, List.length_append]
        omega
      rw [← ht, replaceStr_old_append]
      exact List.not_mem_append hn
        (not_mem_replaceStr hn fun hd => hs (ht ▸ List.mem_append_right old hd))
    · rw [replaceStr_cons_of_mismatch ho, List.mem_cons, not_or]
      rw [List.mem_cons, not_or] at hs
      exact ⟨hs.1, not_mem_replaceStr hn hs.2⟩
termination_by s => s.length

/-- A replacement no longer than `old` never lengthens the text. -/
theorem length_replaceStr_le (hn : new.length ≤ old.length) :
    ∀ s : List Char, (replaceStr old new h s).length ≤ s.length
  | [] => Nat.le_refl 0
  | c :: s => by
    by_cases ho : old <+: c :: s
    · obtain ⟨t, ht⟩ := ho
      have hlt : t.length < (c :: s).length := by
        have := List.length_pos.mpr (ne_nil_of_consuming_chrs h)
        rw [← ht, List.length_append]
        omega
      have := length_replaceStr_le hn t
      rw [← ht, replaceStr_old_append, List.length_append, List.length_append]
      omega
    · have := length_replaceStr_le hn s
      rw [replaceStr_cons_of_mismatch ho, List.length_cons, List.length_cons]
      omega
termination_by s => s.length

/-- A shorter replacement shortens every text that holds `old`. -/
theorem length_replaceStr_lt (hn : new.length < old.length) :
    ∀ {s : List Char}, old <:+: s → (replaceStr old new h s).length < s.length
  | [], ho => absurd (List.eq_nil_of_infix_nil ho) (ne_nil_of_consuming_chrs h)
  | c :: s, ho => by
    by_cases hp : old <+: c :: s
    · obtain ⟨t, ht⟩ := hp
      have := length_replaceStr_le (h := h) hn.le t
      rw [← ht, replaceStr_old_append, List.length_append, List.length_append]
      omega
    · have := length_replaceStr_lt hn ((List.infix_cons_iff.mp ho).resolve_left hp)
      rw [replaceStr_cons_of_mismatch hp, List.length_cons, List.length_cons]
      omega

end ReplaceStr

/-! ## Turning `""` pairs into `'` -/

/-- Every `""` pair, read from the left, turned into `'`. -/
def pairsToApostrophe : List Char → List Char
  | '"' :: '"' :: t => '\x27' :: pairsToApostrophe t
  | c :: t => c :: pairsToApostrophe t
  | [] => []

@[simp] theorem pairsToApostrophe_pair (t : List Char) :
    pairsToApostrophe ('"' :: '"' :: t) = '\x27' :: pairsToApostrophe t := rfl

theorem pair_toList : "\"\"".toList = ['"', '"'] := rfl

/-- `str.replace('""', "'")` is `pairsToApostrophe`. -/
theorem replaceStr_pairs (s : List Char) :
    replaceStr "\"\"".toList ['\x27'] rfl s = pairsToApostrophe s := by
  induction s using pairsToApostrophe.induct with
  | case1 t ih =>
    show replaceStr "\"\"".toList ['\x27'] rfl ("\"\"".toList ++ t) = _
    rw [replaceStr_old_append, ih, pairsToApostrophe_pair]
    rfl
  | case2 c t hne ih =>
    have hp : ¬ "\"\"".toList <+: c :: t := by
      rintro ⟨u, hu⟩
      rw [pair_toList, List.cons_append, List.cons_append, List.nil_append, List.cons.injEq] at hu
      exact hne u hu.1.symm hu.2.symm
    rw [replaceStr_cons_of_mismatch hp, ih, pairsToApostrophe.eq_2 c t hne]
  | case3 => rfl

/-- Every suffix of the result is the result on a suffix of the text. -/
theorem exists_suffix_of_suffix_pairsToApostrophe {v s : List Char}
    (h : v <:+ pairsToApostrophe s) : ∃ t, t <:+ s ∧ v = pairsToApostrophe t := by
  induction s using pairsToApostrophe.induct with
  | case1 t ih =>
    rcases List.suffix_cons_iff.mp (pairsToApostrophe_pair t ▸ h) with rfl | h
    · exact ⟨_, List.suffix_refl _, (pairsToApostrophe_pair t).symm⟩
    · obtain ⟨t', ht, rfl⟩ := ih h
      exact ⟨t', ht.trans ((List.suffix_cons _ _).trans (List.suffix_cons _ _)), rfl⟩
  | case2 c t hne ih =>
    rcases List.suffix_cons_iff.mp (pairsToApostrophe.eq_2 c t hne ▸ h) with rfl | h
    · exact ⟨_, List.suffix_refl _, (pairsToApostrophe.eq_2 c t hne).symm⟩
    · obtain ⟨t', ht, rfl⟩ := ih h
      exact ⟨t', ht.trans (List.suffix_cons _ _), rfl⟩
  | case3 => exact ⟨[], List.suffix_refl _, List.suffix_nil.mp h⟩

/-- A literal without `'` at the start of the result stands at the start of the text. -/
theorem prefix_of_prefix_pairsToApostrophe {w s : List Char} (hw : '\x27' ∉ w)
    (h : w <+: pairsToApostrophe s) : w <+: s := by
  induction s using pairsToApostrophe.induct generalizing w with
  | case1 t _ =>
    cases w with
    | nil => exact List.nil_prefix
    | cons d w =>
      obtain ⟨rfl, -⟩ := List.cons_prefix_cons.mp h
      exact absurd (List.mem_cons_self _ w) hw
  | case2 c t hne ih =>
    rw [pairsToApostrophe.eq_2 c t hne] at h
    cases w with
    | nil => exact List.nil_prefix
    | cons d w =>
      obtain ⟨rfl, hp⟩ := List.cons_prefix_cons.mp h
      exact List.cons_prefix_cons.mpr ⟨rfl, ih (fun hm => hw (List.mem_cons_of_mem d hm)) hp⟩
  | case3 => exact h

/-- `pairsToApostrophe` creates no literal without `'`: the sentinel in particular. -/
theorem infix_of_infix_pairsToApostrophe {w s : List Char} (hw : '\x27' ∉ w)
    (h : w <:+: pairsToApostrophe s) : w <:+: s := by
  obtain ⟨v, hwv, hv⟩ := List.infix_iff_prefix_suffix.mp h
  obtain ⟨t, ht, rfl⟩ := exists_suffix_of_suffix_pairsToApostrophe hv
  exact List.infix_iff_prefix_suffix.mpr ⟨t, prefix_of_prefix_pairsToApostrophe hw hwv, ht⟩

/-- The result never starts with a `""` pair. -/
theorem not_pair_prefix_pairsToApostrophe (s : List Char) :
    ¬ "\"\"".toList <+: pairsToApostrophe s := by
  rw [pair_toList]
  induction s using pairsToApostrophe.induct with
  | case1 t _ => exact fun hp => absurd (List.cons_prefix_cons.mp hp).1 (by decide)
  | case2 c t hne _ =>
    rw [pairsToApostrophe.eq_2 c t hne]
    intro hp
    obtain ⟨hc, hq⟩ := List.cons_prefix_cons.mp hp
    obtain ⟨t', rfl⟩ := prefix_of_prefix_pairsToApostrophe (by decide) hq
    exact hne t' hc.symm rfl
  | case3 => exact fun hp => by cases List.prefix_nil.mp hp

/-- `pairsToApostrophe` leaves no `""` pair behind. -/
theorem not_pair_infix_pairsToApostrophe (s : List Char) :
    ¬ "\"\"".toList <:+: pairsToApostrophe s := fun h => by
  obtain ⟨v, hwv, hv⟩ := List.infix_iff_prefix_suffix.mp h
  obtain ⟨t, -, rfl⟩ := exists_suffix_of_suffix_pairsToApostrophe hv
  exact not_pair_prefix_pairsToApostrophe t hwv

theorem pairsToApostrophe_eq_self {s : List Char} (h : ¬ "\"\"".toList <:+: s) :
    pairsToApostrophe s = s := by
  rw [← replaceStr_pairs, replaceStr_eq_self h]

namespace ReplaceAllQuotes

variable {c l : List Char}

/-- On a line without `\""` and without the sentinel, `fix_line` turns every `""` pair
into `'`. -/
theorem fixLine_eq (h1 : ¬ "\\\"\"".toList <:+: l) (h2 : ¬ tempEscaped <:+: l) :
    fixLine l = pairsToApostrophe l := by
  simp only [fixLine]
  rw [replaceStr_eq_self h1, replaceStr_pairs,
    replaceStr_eq_self fun h => h2 (infix_of_infix_pairsToApostrophe (by decide) h)]

theorem processLine_eq (h1 : ¬ "\\\"\"".toList <:+: l) (h2 : ¬ tempEscaped <:+: l) :
    processLine l = if hasMarker l then pairsToApostrophe l else l := by
  rw [processLine, fixLine_eq h1 h2]

/-- No rewrite of a line writes a line break. -/
theorem not_mem_processLine (h : '\n' ∉ l) : '\n' ∉ processLine l := by
  simp only [processLine, fixLine]
  split
  · exact not_mem_replaceStr (by decide) (not_mem_replaceStr (by decide)
      (not_mem_replaceStr (by decide) h))
  · exact h

/-- The lines of the output are the lines of the input, each passed through
`process_line`. -/
theorem comprehensive_splitOn (c : List Char) :
    (replaceDoubleQuotesComprehensive c).splitOn '\n' = (c.splitOn '\n').map processLine :=
  List.splitOn_intercalate _ '\n'
    (by simpa using fun l hl => not_mem_processLine (not_mem_of_mem_splitOn hl))
    (by simpa using List.splitOnP_ne_nil _ c)

theorem processLine_processLine (h1 : ¬ "\\\"\"".toList <:+: l) (h2 : ¬ tempEscaped <:+: l) :
    processLine (processLine l) = processLine l := by
  have hp := not_pair_infix_pairsToApostrophe l
  have hq : processLine (pairsToApostrophe l) = pairsToApostrophe l := by
    rw [processLine_eq (fun h => hp (List.IsInfix.trans ⟨['\\'], [], rfl⟩ h))
      (fun h => h2 (infix_of_infix_pairsToApostrophe (by decide) h)),
      pairsToApostrophe_eq_self hp, ite_self]
  rw [processLine_eq h1 h2]
  split
  · exact hq
  · rw [processLine_eq h1 h2, if_neg ‹_›]

end ReplaceAllQuotes

namespace ReplaceQuotes

/-- A content without `""` and without `":` is left unchanged. -/
theorem replaceDoubleQuotesInJson_eq_self {c : List Char} (h1 : ¬ "\"\"".toList <:+: c)
    (h2 : ¬ "\":".toList <:+: c) : replaceDoubleQuotesInJson c = c :=
  applyAll_eq_self <| by
    simp only [List.mem_cons, List.mem_nil_iff, or_false, forall_eq_or_imp, forall_eq]
    exact ⟨Rule.sub_eq_self_of_hasLiteral _ (by decide) h1,
      Rule.sub_eq_self_of_hasLiteral _ (by decide) h2⟩

theorem doubledRule_tmpl : doubledRule.tmpl = [.text '\x27', .group 1, .text '\x27'] := rfl

theorem keyValueRule_tmpl : keyValueRule.tmpl = [.text '\x27', .group 1, .text '\x27',
    .text ':', .text ' ', .text '\x27', .group 2, .text '\x27'] := rfl

/-- Where the first pattern reads `""k""` for a run `k` without `"`, it writes `'k'` and
resumes after it. -/
theorem doubledRule_sub_pair {k : List Char} (hk : k ≠ []) (hq : '"' ∉ k) (z : List Char) :
    doubledRule.sub ("\"\"".toList ++ (k ++ ("\"\"".toList ++ z))) =
      '\x27' :: (k ++ '\x27' :: doubledRule.sub z) := by
  obtain ⟨e, u, rfl⟩ := List.exists_cons_of_ne_nil hk
  have hnq := notChar_of_not_mem hq
  have hm : matchToks doubledPat [] ("\"\"".toList ++ ((e :: u) ++ ("\"\"".toList ++ z))) =
      some ([(e :: u) ++ ("\"\"".toList ++ z), "\"\"".toList ++ z], z) := by
    simp only [doubledPat, str, grp, plus, List.cons_append, List.singleton_append,
      List.nil_append, matchToks_chrs]
    exact matchToks_run_group ⟨e, u, rfl, hnq e (List.mem_cons_self e u),
      fun c hc => hnq c (List.mem_cons_of_mem e hc)⟩ ⟨_, _, rfl, rfl⟩ (matchToks_chrs_nil _)
  rw [doubledRule.sub_of_some hm, doubledRule_tmpl]
  simp only [expand, groupText_one]
  simp

/-- The first pattern takes an empty literal, a text without quotes and another empty
literal for one doubled-quoted word: `s = "" + name + "";` becomes `s = ' + name + ';`. -/
theorem replaceDoubleQuotesInJson_joins_empty_literals {P t Q : List Char} (hP : '"' ∉ P)
    (ht : t ≠ []) (hq : '"' ∉ t) (hQ : '"' ∉ Q) :
    replaceDoubleQuotesInJson (P ++ ("\"\"".toList ++ (t ++ ("\"\"".toList ++ Q)))) =
      P ++ ('\x27' :: (t ++ '\x27' :: Q)) := by
  have hout : '"' ∉ P ++ ('\x27' :: (t ++ '\x27' :: Q)) := by simp [hP, hq, hQ]
  rw [replaceDoubleQuotesInJson, applyAll_cons, applyAll_cons, applyAll_nil,
    doubledRule.sub_append_of_head rfl hP, doubledRule_sub_pair ht hq,
    doubledRule.sub_eq_self_of_head rfl hQ, keyValueRule.sub_eq_self_of_head rfl hout]

theorem replaceDoubleQuotesInJson_joins_empty_literals_sample :
    replaceDoubleQuotesInJson ("s = ".toList ++ ("\"\"".toList ++ (" + name + ".toList ++
        ("\"\"".toList ++ ";".toList)))) =
      "s = ".toList ++ ('\x27' :: (" + name + ".toList ++ '\x27' :: ";".toList)) :=
  replaceDoubleQuotesInJson_joins_empty_literals (by decide) (by decide) (by decide) (by decide)

end ReplaceQuotes

end AssertMigration
