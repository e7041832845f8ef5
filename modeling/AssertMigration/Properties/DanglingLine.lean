import AssertMigration.Properties.Capture

/-!
# Compare receivers read across a line break

The `BeTrue` and `BeFalse` rules of `fix_complex_should.py` read their receivers with the
class `[a-zA-Z0-9_.\[\]()<>=!\s]*?`, which holds the line break. A receiver starts at the
leftmost place it can, so a line such as `if (ok)` or `else` that stands before a statement
without a `;` or a brace of its own is read into the assertion: `if (ok)\n    flag.Should().BeTrue();`
becomes `Assert.True(if (ok)\n    flag);` (`compare_rules_read_line_before`). The rules of
`fix_all_should.py` and `fix_final_should.py` read no spaces in their receivers and stop at
the line break.

## Main definitions

- `DanglingLine w`: a line the compare class reads on into the next one.

## Design notes

The receiver `w\n<ind>r` has no `.` before the chain `r`, so every occurrence of a literal
that starts with `.` (`.Should()`, `.Contains(`, a matcher's call) lies in `r.Should().M()`
(`infix_of_append_of_head`): the generic rule of `M` fires on the whole receiver
(`ShouldSpec.Fits.sub_fire_recv`), and every other rule finds none of its literals.
-/

namespace AssertMigration

/-- A line the compare class `[a-zA-Z0-9_.\[\]()<>=!\s]` reads on into the next one: it starts
a receiver, stays in the class, and holds no `.`, no `?` and no unclosed `(`. -/
structure DanglingLine (w : List Char) : Prop where
  head : ∃ c w', w = c :: w' ∧ identStart c = true
  compare : ∀ c ∈ w, receiverCharCompare c = true
  no_dot : '.' ∉ w
  no_qmark : '?' ∉ w
  closed : closedParens w = true

variable {P w ind r : List Char}

theorem DanglingLine.no_dot_before (hw : DanglingLine w) (hi : IsIndent ind) :
    '.' ∉ w ++ '\n' :: ind := by
  simp only [List.mem_append, List.mem_cons, not_or]
  exact ⟨hw.no_dot, by decide, fun h => absurd (hi '.' h).1 (by decide)⟩

/-- A literal starting with `.` occurs in a statement read from a dangling line only inside
its last line. -/
theorem DanglingLine.infix_dot (hw : DanglingLine w) (hi : IsIndent ind) {S y : List Char}
    (h : '.' :: S <:+: w ++ '\n' :: (ind ++ y)) : '.' :: S <:+: y :=
  infix_of_append_of_head (hw.no_dot_before hi) (by simpa using h)

/-- The receiver a compare rule reads: the dangling line, the line break, the indentation and
the chain. -/
theorem DanglingLine.recv_compare (hw : DanglingLine w) (hi : IsIndent ind) (hr : Chain r) :
    ∀ c ∈ w ++ '\n' :: (ind ++ r), receiverCharCompare c = true := by
  intro c hc
  simp only [List.mem_append, List.mem_cons] at hc
  rcases hc with hc | rfl | hc | hc
  · exact hw.compare c hc
  · decide
  · simp [receiverCharCompare, (hi c hc).1]
  · exact RecvClass.pred_of_receiverChar .compare (hr.receiverChar_of_mem c hc)

theorem DanglingLine.recv_head (hw : DanglingLine w) :
    ∃ c x', w ++ '\n' :: (ind ++ r) = c :: x' ∧ identStart c = true := by
  obtain ⟨c, w', rfl, hc⟩ := hw.head
  exact ⟨c, _, rfl, hc⟩

theorem DanglingLine.recv_not_should (hw : DanglingLine w) (hi : IsIndent ind) (hr : Chain r) :
    ¬ ".Should()".toList <:+: w ++ '\n' :: (ind ++ r) :=
  fun h => hr.not_infix_should (hw.infix_dot hi h)

/-- The assertion written for the whole receiver spells no `.Should()`. -/
theorem DanglingLine.template_not_should (hw : DanglingLine w) (hi : IsIndent ind)
    (hr : Chain r) {M : Matcher} (hM : M = .beTrue ∨ M = .beFalse) :
    ¬ ".Should()".toList <:+: M.assertTemplate (w ++ '\n' :: (ind ++ r)) [] := by
  have hclose : ¬ ".Should()".toList <:+: (w ++ '\n' :: (ind ++ r)) ++ [')'] :=
    fun h => hr.not_infix_should_close (hw.infix_dot hi (by simpa using h))
  rcases hM with rfl | rfl
  exacts [LeftClear.not_infix_append (Matcher.shape_clear .beTrue).1 hclose,
    LeftClear.not_infix_append (Matcher.shape_clear .beFalse).1 hclose]

/-- The assertion written for the whole receiver holds no `?` and closes its parentheses, so
the ternary rules find nothing in it. -/
theorem DanglingLine.template_qmark_closed (hw : DanglingLine w) (hi : IsIndent ind)
    (hr : Chain r) {M : Matcher} (hM : M = .beTrue ∨ M = .beFalse) :
    '?' ∉ M.assertTemplate (w ++ '\n' :: (ind ++ r)) [] ∧
      closedParens (M.assertTemplate (w ++ '\n' :: (ind ++ r)) []) = true := by
  have hr' : '?' ∉ r := fun h => absurd (hr.receiverChar_of_mem '?' h) (by decide)
  have hi' : '?' ∉ ind := fun h => absurd (hi '?' h).1 (by decide)
  rcases hM with rfl | rfl <;>
  · refine ⟨by simp [Matcher.assertTemplate, Matcher.shape, AssertShape.render, hw.no_qmark, hi',
      hr'], ?_⟩
    show closedParens (_ ++ (_ ++ [')'])) = true
    rw [← List.append_assoc]
    exact closedParens_concat _

/-- A generic rule of another matcher copies a statement read from a dangling line. -/
theorem ShouldSpec.Fits.sub_copy_dangling {sp : ShouldSpec} {N M : Matcher} (hN : sp.Fits N)
    (hNM : N ≠ M) (hP : QuietPrefix P) (hw : DanglingLine w) (hi : IsIndent ind) (hr : Chain r)
    (ha : ArgOk M []) (y : List Char) :
    sp.rule.sub (P ++ (fluentCall (w ++ '\n' :: (ind ++ r)) M [] ++ ';' :: y)) =
      P ++ (fluentCall (w ++ '\n' :: (ind ++ r)) M [] ++ ';' :: sp.rule.sub y) := by
  have hnc : ¬ N.call <:+: fluentCall (w ++ '\n' :: (ind ++ r)) M [] := fun h =>
    fluentCall_not_call hr ha hNM (hw.infix_dot hi (by simpa [fluentCall, Matcher.call_eq] using h))
  have hsemi : sp.rule.sub (';' :: y) = ';' :: sp.rule.sub y :=
    sp.rule.sub_append_of_heads (x := [';']) hN.pat (by decide)
  rw [sp.rule.sub_append_of_inert (hN.inert hP),
    sp.rule.sub_append_of_absent hN.pat sp.recv.pred_semi (by decide) N.semi_not_mem_call hnc,
    hsemi]

/-- The compare rule of `M` rewrites a statement read from a dangling line into `M`'s
assertion on the whole receiver. -/
theorem ShouldSpec.Fits.sub_fire_dangling {sp : ShouldSpec} {M : Matcher} (hN : sp.Fits M)
    (hc : sp.recv = .compare) (hP : QuietPrefix P) (hw : DanglingLine w) (hi : IsIndent ind)
    (hr : Chain r) (ha : ArgOk M []) (y : List Char) :
    sp.rule.sub (P ++ (fluentCall (w ++ '\n' :: (ind ++ r)) M [] ++ ';' :: y)) =
      P ++ (M.assertTemplate (w ++ '\n' :: (ind ++ r)) [] ++ ';' :: sp.rule.sub y) := by
  have hsemi : sp.rule.sub (';' :: y) = ';' :: sp.rule.sub y :=
    sp.rule.sub_append_of_heads (x := [';']) hN.pat (by decide)
  rw [sp.rule.sub_append_of_inert (hN.inert hP),
    hN.sub_fire_recv hw.recv_head (by rw [hc]; exact hw.recv_compare hi hr)
      (hw.recv_not_should hi hr) ha, hsemi]

namespace FixComplexShould

/-- The `Contains` rules copy a dangling line and the statement after it: `.Contains(` can
start in neither the line nor its indentation, and the statement closes each `(`. -/
theorem containsRules_copy_dangling (hP : QuietPrefix P) (hw : DanglingLine w)
    (hi : IsIndent ind) (hr : Chain r) {M : Matcher} (ha : ArgOk M []) (Q : List Char) :
    applyAll containsRules (P ++ (w ++ '\n' :: (ind ++ (fluentCall r M [] ++ ';' :: Q)))) =
      P ++ (w ++ '\n' :: (ind ++ (fluentCall r M [] ++ ';' ::
        applyAll containsRules Q))) := by
  have hl : (Line.fluent ind r M []).Core fun _ => true := ⟨hi, hr, rfl, ha⟩
  have h := applyAll_frame containsRules (P ++ (w ++ '\n' :: (Line.fluent ind r M []).text))
    (fun R hR y => ?_) Q
  · simpa [Line.text, Line.fluent, Line.after_stmt, Fluent.after] using h
  obtain ⟨ts, hp, hts⟩ := containsRules_reads R hR
  obtain ⟨ts', hp'⟩ := containsRules_pat R hR
  simp only [List.append_assoc, List.cons_append]
  rw [R.sub_append_of_inert (hp ▸ Inert.contains hts hP),
    R.sub_append_of_absent hp' (d := '\n') (by decide) (by decide) (by decide)
      (fun h => hw.no_dot (h.subset (by decide))),
    ← List.singleton_append, R.sub_append_of_heads hp' (by decide), containsRule_sub_line hR hl]
  rfl

/-- The generic rules of `fix_complex_should.py` on a `BeTrue` or `BeFalse` statement read from
a dangling line: the rule of its matcher fires on the whole receiver, the others copy. -/
theorem shouldSpecs_sub_dangling (hP : QuietPrefix P) (hw : DanglingLine w) (hi : IsIndent ind)
    (hr : Chain r) {M : Matcher} (hM : M = .beTrue ∨ M = .beFalse) (y : List Char) :
    applyAll (shouldSpecs.map ShouldSpec.rule)
        (P ++ (fluentCall (w ++ '\n' :: (ind ++ r)) M [] ++ ';' :: y)) =
      P ++ (M.assertTemplate (w ++ '\n' :: (ind ++ r)) [] ++ ';' ::
        applyAll (shouldSpecs.map ShouldSpec.rule) y) := by
  have ha : ArgOk M [] := by rcases hM with rfl | rfl <;> decide
  have hT' := hw.template_not_should hi hr hM
  obtain ⟨spT, spF, rest, hs, hT, hF, hTc, hFc⟩ : ∃ spT spF rest,
      shouldSpecs = spT :: spF :: rest ∧ spT.Fits .beTrue ∧ spF.Fits .beFalse ∧
        spT.recv = .compare ∧ spF.recv = .compare :=
    ⟨_, _, _, rfl, by decide, by decide, rfl, rfl⟩
  have hrest : ∀ sp ∈ spF :: rest, ∃ N ∈ Matcher.all, sp.Fits N := fun sp h =>
    shouldSpecs_fit sp (hs ▸ List.mem_cons_of_mem spT h)
  rw [hs]
  rcases hM with rfl | rfl
  · have h := ShouldSpec.applyAll_statement_inert hrest (ShouldSpec.inert_quiet hrest hP) hT'
      (spT.rule.sub y)
    simp only [List.map_cons, applyAll_cons] at h ⊢
    rw [hT.sub_fire_dangling hTc hP hw hi hr ha, h]
  · have hrest' : ∀ sp ∈ rest, ∃ N ∈ Matcher.all, sp.Fits N :=
      fun sp h => hrest sp (List.mem_cons_of_mem spF h)
    have h := ShouldSpec.applyAll_statement_inert hrest' (ShouldSpec.inert_quiet hrest' hP) hT'
      (spF.rule.sub (spT.rule.sub y))
    simp only [List.map_cons, applyAll_cons] at h ⊢
    rw [hT.sub_copy_dangling (by decide) hP hw hi hr ha, hF.sub_fire_dangling hFc hP hw hi hr ha, h]

/-- After a quiet text, `fix_complex_should.py` reads a dangling line (`if (ok)`, `else`) into
the receiver of the `BeTrue` or `BeFalse` statement on the next line: for every such line `w`,
indentation `ind`, receiver chain `r` and following text `Q`, the line, the line break and the
indentation end up inside the assertion. -/
theorem compare_rules_read_line_before (hP : QuietPrefix P) (hw : DanglingLine w)
    (hi : IsIndent ind) (hr : Chain r) {M : Matcher} (hM : M = .beTrue ∨ M = .beFalse)
    (Q : List Char) :
    fixComplexShouldPatterns
        (P ++ (w ++ '\n' :: (ind ++ (fluentCall r M [] ++ ';' :: Q)))) =
      P ++ (M.assertTemplate (w ++ '\n' :: (ind ++ r)) [] ++ ';' ::
        fixComplexShouldPatterns Q) := by
  have ha : ArgOk M [] := by rcases hM with rfl | rfl <;> decide
  have hfx : ∀ y, w ++ '\n' :: (ind ++ (fluentCall r M [] ++ ';' :: y)) =
      fluentCall (w ++ '\n' :: (ind ++ r)) M [] ++ ';' :: y := by simp [fluentCall]
  obtain ⟨hq, hc⟩ := hw.template_qmark_closed hi hr hM
  obtain ⟨ts, hp, hts⟩ := nullTernary_reads
  rw [fixComplexShouldPatterns, applyAll_append, applyAll_append,
    containsRules_copy_dangling hP hw hi hr ha, hfx, shouldSpecs_sub_dangling hP hw hi hr hM,
    applyAll_cons, applyAll_nil, ← List.append_assoc,
    -- the null-check rule finds no `?`
    nullTernaryRule.sub_append_of_qmark hp hts (by simp [hP.not_qmark, hq])
      (closedParens_append hP.closed hc),
    List.append_assoc, fixComplexShouldPatterns, applyAll_append, applyAll_append, applyAll_cons,
    applyAll_nil]

theorem compare_rules_read_line_before_sample :
    fixComplexShouldPatterns ("    ".toList ++ ("if (ok)".toList ++ '\n' :: ("        ".toList ++
      (fluentCall "flag".toList .beTrue [] ++ [';'])))) =
      "    ".toList ++ (Matcher.beTrue.assertTemplate
        ("if (ok)".toList ++ '\n' :: ("        ".toList ++ "flag".toList)) [] ++ [';']) :=
  compare_rules_read_line_before (by decide)
    ⟨⟨_, _, rfl, by decide⟩, by decide, by decide, by decide, by decide⟩ (by decide)
    (by exact .ident ⟨rfl, by decide, by decide⟩) (.inl rfl) []

example : "    ".toList ++ ("if (ok)".toList ++ '\n' :: ("        ".toList ++
      (fluentCall "flag".toList .beTrue [] ++ [';']))) =
      "    if (ok)\n        flag.Should().BeTrue();".toList ∧
    "    ".toList ++ (Matcher.beTrue.assertTemplate
      ("if (ok)".toList ++ '\n' :: ("        ".toList ++ "flag".toList)) [] ++ [';']) =
      "    Assert.True(if (ok)\n        flag);".toList := ⟨rfl, rfl⟩

end FixComplexShould

end AssertMigration
