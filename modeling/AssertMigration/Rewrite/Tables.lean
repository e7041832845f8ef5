import AssertMigration.Rewrite.ShouldStep

/-!
# The three generic Should tables on the core grammar

On a buffer of the core grammar, at any stage, each of `fix_all_should_patterns`,
`fix_complex_should_patterns` and the `fix_all_should_patterns` of `fix_final_should.py`
rewrites the statements of the matchers it has rules for and leaves the others as they are
(`FixAllShould.fixAllShouldPatterns_after`, `FixComplexShould.fixComplexShouldPatterns_text`,
`FixFinalShould.fixAllShouldPatterns_after`). The generic rules do the work
(`ShouldSpec.applyAll_lines`); the other rules of each table do nothing on such buffers: the
`.Contains(...)` rules of `fix_complex_should.py` find no `.Contains(` that is not closed at
once, and the `.Assert.` repairs and the ternary rules need a literal (`.Assert.`, or the call
`.Should().Be(` of a matcher whose rule ran) that no statement holds once the generic rules
ran (`Rule.sub_after_of_assert`, `Rule.sub_after_of_call`). When the table has a rule for
every matcher used, the buffer comes out migrated (`generic_tables_migrate_core`).
-/

namespace AssertMigration

/-- Whether a table of generic rules has a rule for the matcher. -/
def ShouldSpec.handles (sps : List ShouldSpec) (m : Matcher) : Bool :=
  sps.any fun sp => sp.name == m.name

theorem Line.text_eq : Line.text = Line.after [] := rfl

/-- After the rules of a table ran, the lines whose matchers it handles are migrated. -/
theorem Line.after_handles {sps : List ShouldSpec} {l : Line}
    (hl : l.Core (ShouldSpec.handles sps)) :
    l.after ((sps.map ShouldSpec.name).reverse ++ []) = l.migrated := by
  refine Line.after_eq_migrated fun ind st hl' => ?_
  subst hl'
  obtain ⟨sp, hsp, he⟩ := List.any_eq_true.mp hl.2.2.1
  simpa [beq_iff_eq.mp he] using List.mem_map_of_mem ShouldSpec.name hsp

theorem Matcher.mem_all (m : Matcher) : m ∈ Matcher.all := by cases m <;> decide

/-- A migrated line is a line once the rules of every matcher ran. -/
theorem Line.migrated_eq_after : Line.migrated = Line.after (Matcher.all.map Matcher.name) :=
  funext fun _ => (Line.after_eq_migrated fun _ st _ =>
    List.mem_map_of_mem _ (Matcher.mem_all st.matcher)).symm

/-- A literal without whitespace and `;` that no template holds, and no statement of a matcher
outside `S`, is absent from a buffer of the core grammar once the rules of `S` ran. -/
theorem not_infix_joinLines_after {w : List Char} {S : List String} {ls : List Line}
    (hls : ∀ l ∈ ls, l.Core fun _ => true) (hw : w ≠ []) (hsp : ∀ c ∈ w, isPySpace c = false)
    (hsemi : ';' ∉ w) (hT : ∀ r m a, Chain r → ArgOk m a → ¬ w <:+: m.assertTemplate r a)
    (hF : ∀ r m a, Chain r → ArgOk m a → m.name ∉ S → ¬ w <:+: fluentCall r m a) :
    ¬ w <:+: joinLines (ls.map (Line.after S)) := by
  refine joinLines_not_infix hw (fun h => absurd (hsp _ h) (by decide)) fun x hx => ?_
  obtain ⟨l, hl, rfl⟩ := List.mem_map.mp hx
  rcases l with ⟨ind, ⟨r, m, a⟩⟩ | ws
  · obtain ⟨hi, hr, -, ha⟩ := hls _ hl
    refine not_infix_stmt_line hw (hi.not_mem_of_space hsp) hsemi ?_
    by_cases hS : m.name ∈ S
    · simpa [Fluent.after, hS] using hT r m a hr ha
    · simpa [Fluent.after, hS] using hF r m a hr ha hS
  · intro h
    obtain ⟨c, hc⟩ := List.exists_mem_of_ne_nil w hw
    exact IsIndent.not_mem_of_space (hls _ hl) hsp c (h.subset hc) hc

/-- A literal without whitespace, `;` and templates' text is absent from a migrated buffer. -/
theorem joinLines_migrated_not_infix {w : List Char} {has : Matcher → Bool} {ls : List Line}
    (hls : ∀ l ∈ ls, l.Core has) (hw : w ≠ []) (hsp : ∀ c ∈ w, isPySpace c = false)
    (hsemi : ';' ∉ w)
    (hT : ∀ r m a, Chain r → ArgOk m a → ¬ w <:+: m.assertTemplate r a) :
    ¬ w <:+: joinLines (ls.map Line.migrated) := by
  rw [Line.migrated_eq_after]
  exact not_infix_joinLines_after (fun l hl => (hls l hl).mono fun _ _ => rfl) hw hsp hsemi hT
    fun _ m _ _ _ h => absurd (List.mem_map_of_mem _ (Matcher.mem_all m)) h

theorem joinLines_migrated_not_should {has : Matcher → Bool} {ls : List Line}
    (hls : ∀ l ∈ ls, l.Core has) : ¬ ".Should()".toList <:+: joinLines (ls.map Line.migrated) :=
  joinLines_migrated_not_infix hls (by decide) (by decide) (by decide)
    fun _ _ _ hr ha => Matcher.template_not_should hr ha

theorem joinLines_migrated_not_assert {has : Matcher → Bool} {ls : List Line}
    (hls : ∀ l ∈ ls, l.Core has) : ¬ ".Assert.".toList <:+: joinLines (ls.map Line.migrated) :=
  joinLines_migrated_not_infix hls (by decide) (by decide) (by decide)
    fun _ _ _ hr ha => Matcher.template_not_assert hr ha

/-- Once the rules of a table ran, a buffer whose matchers it handles is migrated. -/
theorem joinLines_after_handles {sps : List ShouldSpec} {ls : List Line}
    (hls : ∀ l ∈ ls, l.Core (ShouldSpec.handles sps)) :
    joinLines (ls.map (Line.after ((sps.map ShouldSpec.name).reverse ++ []))) =
      joinLines (ls.map Line.migrated) :=
  congrArg joinLines (List.map_congr_left fun l hl => Line.after_handles (hls l hl))

theorem Matcher.call_plain (N : Matcher) :
    N.call ≠ [] ∧ (∀ c ∈ N.call, isPySpace c = false) ∧ ';' ∉ N.call := by
  cases N <;> decide

/-- A rule that spells the call of a matcher whose rules ran copies a buffer of the core
grammar at that stage: that matcher's statements are rewritten and no other statement holds
its call. -/
theorem Rule.sub_after_of_call {R : Rule} {N : Matcher} {S : List String}
    (hR : hasLiteral R.pat N.call = true) (hN : N.name ∈ S) {ls : List Line}
    (hls : ∀ l ∈ ls, l.Core fun _ => true) :
    R.sub (joinLines (ls.map (Line.after S))) = joinLines (ls.map (Line.after S)) := by
  obtain ⟨h0, hsp, hsemi⟩ := N.call_plain
  have hS : ".Should()".toList <:+: N.call := ⟨[], _, (Matcher.call_eq N).symm⟩
  exact R.sub_eq_self_of_hasLiteral hR (not_infix_joinLines_after hls h0 hsp hsemi
    (fun _ _ _ hr ha h => Matcher.template_not_should hr ha (hS.trans h))
    fun _ _ _ hr ha hm => fluentCall_not_call hr ha fun h => hm (h ▸ hN))

/-- A rule that spells `.Assert.` copies a buffer of the core grammar at any stage. -/
theorem Rule.sub_after_of_assert {R : Rule} (hR : hasLiteral R.pat ".Assert.".toList = true)
    {S : List String} {ls : List Line} (hls : ∀ l ∈ ls, l.Core fun _ => true) :
    R.sub (joinLines (ls.map (Line.after S))) = joinLines (ls.map (Line.after S)) :=
  R.sub_eq_self_of_hasLiteral hR (not_infix_joinLines_after hls (by decide) (by decide)
    (by decide) (fun _ _ _ hr ha => Matcher.template_not_assert hr ha)
    fun _ _ _ hr ha _ => fluentCall_not_assert hr ha)

namespace FixAllShould

theorem shouldSpecs_fit : ∀ sp ∈ shouldSpecs, ∃ N ∈ Matcher.all, sp.Fits N := by decide

theorem corrections_literal : ∀ R ∈ corrections, hasLiteral R.pat ".Assert.".toList = true := by
  decide

/-- On a buffer of the core grammar, at any stage, `fix_all_should_patterns` rewrites the
statements of the matchers it has rules for and leaves the others as they are. -/
theorem fixAllShouldPatterns_after {ls : List Line} (hls : ∀ l ∈ ls, l.Core fun _ => true)
    (S : List String) :
    fixAllShouldPatterns (joinLines (ls.map (Line.after S))) =
      joinLines (ls.map (Line.after ((shouldSpecs.map ShouldSpec.name).reverse ++ S))) := by
  rw [fixAllShouldPatterns, applyAll_append, ShouldSpec.applyAll_lines shouldSpecs_fit S hls]
  exact applyAll_eq_self fun R hR => R.sub_after_of_assert (corrections_literal R hR) hls

end FixAllShould

namespace FixComplexShould

theorem containsRules_pat : ∀ R ∈ containsRules, ∃ ts, R.pat = receiver receiverChar ++
    (".Contains(".toList.map .chr ++ (.mark :: .cls (notChar ')') :: ts)) := by
  simp only [containsRules, List.forall_mem_cons, List.not_mem_nil, false_imp_iff, imp_true_iff,
    and_true]
  exact ⟨⟨_, rfl⟩, ⟨_, rfl⟩⟩

/-- A `.Contains(x).Should()` rule copies a line of the core grammar: its `.Contains(` would
have to be followed by a character other than `)`. -/
theorem containsRule_sub_line {R : Rule} (hR : R ∈ containsRules) {l : Line}
    (hl : l.Core fun _ => true) (y : List Char) : R.sub (l.text ++ y) = l.text ++ R.sub y := by
  obtain ⟨ts, hp⟩ := containsRules_pat R hR
  rcases l with ⟨ind, ⟨r, m, a⟩⟩ | ws
  · obtain ⟨hi, hr, -, ha⟩ := hl
    have hnone : ∀ i < (fluentCall r m a).length,
        matchToks R.pat [] ((fluentCall r m a).drop i ++ ';' :: y) = none := by
      intro i _
      cases h : matchToks R.pat [] ((fluentCall r m a).drop i ++ ';' :: y) with
      | none => rfl
      | some res =>
        rw [hp] at h
        obtain ⟨c, u, z, ms', ht, hc, hu, hz⟩ := matchToks_receiver_split h
        have hdu : ';' ∉ c :: (u ++ ".Contains(".toList) := by
          simp only [List.mem_cons, List.mem_append, not_or]
          exact ⟨fun h => absurd (h ▸ hc) (by decide), fun h => absurd (hu ';' h) (by decide), by decide⟩
        obtain ⟨z', hz', rfl⟩ := append_split_of_not_mem (z := z) (by rw [ht]; simp) hdu
        obtain ⟨q', rfl⟩ := fluentCall_contains_closed hi hr ha
          (p := ind ++ (fluentCall r m a).take i ++ c :: u) (q := z') (by
            conv_lhs => rw [← List.take_append_drop i (fluentCall r m a), hz']
            simp)
        simp [notChar] at hz
    simp only [Line.text, Line.after_stmt, Fluent.after, List.not_mem_nil, if_false,
      List.append_assoc, List.singleton_append]
    rw [R.sub_append_of_heads hp hi.identStart, R.sub_append_of_none hnone,
      show ';' :: y = [';'] ++ y from rfl, R.sub_append_of_heads hp (by decide)]
    rfl
  · exact R.sub_append_of_heads hp (IsIndent.identStart hl)

theorem containsRules_text {ls : List Line} (hls : ∀ l ∈ ls, l.Core fun _ => true) :
    applyAll containsRules (joinLines (ls.map Line.text)) = joinLines (ls.map Line.text) := by
  refine applyAll_eq_self fun R hR => R.sub_joinLines_ends _ _ ?_ ls fun l hl y _ =>
    containsRule_sub_line hR (hls l hl) y
  obtain ⟨ts, hp⟩ := containsRules_pat R hR
  exact fun y => R.sub_append_of_heads (x := ['\n']) hp (by decide)

theorem shouldSpecs_fit : ∀ sp ∈ shouldSpecs, ∃ N ∈ Matcher.all, sp.Fits N := by decide

theorem nullTernary_call : hasLiteral nullTernaryRule.pat Matcher.be.call = true := by decide

theorem handles_calls :
    ∀ N ∈ [Matcher.be, .beTrue, .beFalse], N.name ∈ (shouldSpecs.map ShouldSpec.name).reverse := by
  decide

/-- Once the generic rules ran on a buffer of the core grammar, the `null` ternary rule
copies it. -/
theorem nullTernary_after {ls : List Line} (hls : ∀ l ∈ ls, l.Core fun _ => true)
    (S : List String) :
    nullTernaryRule.sub
        (joinLines (ls.map (Line.after ((shouldSpecs.map ShouldSpec.name).reverse ++ S)))) =
      joinLines (ls.map (Line.after ((shouldSpecs.map ShouldSpec.name).reverse ++ S))) :=
  nullTernaryRule.sub_after_of_call nullTernary_call
    (List.mem_append_left _ (handles_calls _ (List.mem_cons_self _ _))) hls

/-- On a buffer of the core grammar `fix_complex_should_patterns` rewrites the statements of
the matchers it has rules for and leaves the others as they are. -/
theorem fixComplexShouldPatterns_text {ls : List Line} (hls : ∀ l ∈ ls, l.Core fun _ => true) :
    fixComplexShouldPatterns (joinLines (ls.map Line.text)) =
      joinLines (ls.map (Line.after ((shouldSpecs.map ShouldSpec.name).reverse ++ []))) := by
  rw [fixComplexShouldPatterns, applyAll_append, applyAll_append, containsRules_text hls,
    Line.text_eq, ShouldSpec.applyAll_lines shouldSpecs_fit [] hls, applyAll_cons, applyAll_nil,
    nullTernary_after hls]

end FixComplexShould

namespace FixFinalShould

theorem shouldSpecs_fit : ∀ sp ∈ shouldSpecs, ∃ N ∈ Matcher.all, sp.Fits N := by decide

theorem isTernary_call : hasLiteral isTernaryRule.pat Matcher.be.call = true := by decide

theorem handles_be : Matcher.be.name ∈ (shouldSpecs.map ShouldSpec.name).reverse := by decide

/-- On a buffer of the core grammar, at any stage, the `fix_all_should_patterns` of
`fix_final_should.py` rewrites the statements of the matchers it has rules for and leaves the
others as they are. -/
theorem fixAllShouldPatterns_after {ls : List Line} (hls : ∀ l ∈ ls, l.Core fun _ => true)
    (S : List String) :
    fixAllShouldPatterns (joinLines (ls.map (Line.after S))) =
      joinLines (ls.map (Line.after ((shouldSpecs.map ShouldSpec.name).reverse ++ S))) := by
  rw [fixAllShouldPatterns, applyAll_append, ShouldSpec.applyAll_lines shouldSpecs_fit S hls,
    applyAll_cons, applyAll_nil]
  exact isTernaryRule.sub_after_of_call isTernary_call (List.mem_append_left _ handles_be) hls

end FixFinalShould

/-- The generic Should tables rewrite a buffer of the core grammar into its migrated form. -/
theorem FixAllShould.fixAllShouldPatterns_core {ls : List Line}
    (hls : ∀ l ∈ ls, l.Core (ShouldSpec.handles shouldSpecs)) :
    fixAllShouldPatterns (joinLines (ls.map Line.text)) = joinLines (ls.map Line.migrated) := by
  rw [Line.text_eq, fixAllShouldPatterns_after (fun l hl => (hls l hl).mono fun _ _ => rfl),
    joinLines_after_handles hls]

theorem FixComplexShould.fixComplexShouldPatterns_core {ls : List Line}
    (hls : ∀ l ∈ ls, l.Core (ShouldSpec.handles shouldSpecs)) :
    fixComplexShouldPatterns (joinLines (ls.map Line.text)) =
      joinLines (ls.map Line.migrated) := by
  rw [fixComplexShouldPatterns_text fun l hl => (hls l hl).mono fun _ _ => rfl,
    joinLines_after_handles hls]

theorem FixFinalShould.fixAllShouldPatterns_core {ls : List Line}
    (hls : ∀ l ∈ ls, l.Core (ShouldSpec.handles shouldSpecs)) :
    fixAllShouldPatterns (joinLines (ls.map Line.text)) = joinLines (ls.map Line.migrated) := by
  rw [Line.text_eq, fixAllShouldPatterns_after (fun l hl => (hls l hl).mono fun _ _ => rfl),
    joinLines_after_handles hls]

/-- The three generic Should tables each rewrite every statement of a buffer of the core
grammar into the template of its matcher, when they have a rule for every matcher used. -/
theorem generic_tables_migrate_core (ls : List Line) :
    ((∀ l ∈ ls, l.Core (ShouldSpec.handles FixAllShould.shouldSpecs)) →
      FixAllShould.fixAllShouldPatterns (joinLines (ls.map Line.text)) =
        joinLines (ls.map Line.migrated)) ∧
    ((∀ l ∈ ls, l.Core (ShouldSpec.handles FixComplexShould.shouldSpecs)) →
      FixComplexShould.fixComplexShouldPatterns (joinLines (ls.map Line.text)) =
        joinLines (ls.map Line.migrated)) ∧
    ((∀ l ∈ ls, l.Core (ShouldSpec.handles FixFinalShould.shouldSpecs)) →
      FixFinalShould.fixAllShouldPatterns (joinLines (ls.map Line.text)) =
        joinLines (ls.map Line.migrated)) :=
  ⟨FixAllShould.fixAllShouldPatterns_core, FixComplexShould.fixComplexShouldPatterns_core,
    FixFinalShould.fixAllShouldPatterns_core⟩

/-- Two statements and a blank line, `x` and `y` being receiver chains. -/
theorem generic_tables_migrate_sample :
    let ls := [Line.fluent "  ".toList "x".toList .be "1".toList, .blank [],
      .fluent [] "y".toList .beNull []]
    (∀ T ∈ [FixAllShould.shouldSpecs, FixComplexShould.shouldSpecs, FixFinalShould.shouldSpecs],
      ∀ l ∈ ls, l.Core (ShouldSpec.handles T)) ∧
    FixAllShould.fixAllShouldPatterns "  x.Should().Be(1);\n\ny.Should().BeNull();".toList =
      "  Assert.Equal(1, x);\n\nAssert.Null(y);".toList ∧
    FixComplexShould.fixComplexShouldPatterns
      "  x.Should().Be(1);\n\ny.Should().BeNull();".toList =
      "  Assert.Equal(1, x);\n\nAssert.Null(y);".toList ∧
    FixFinalShould.fixAllShouldPatterns "  x.Should().Be(1);\n\ny.Should().BeNull();".toList =
      "  Assert.Equal(1, x);\n\nAssert.Null(y);".toList := by
  intro ls
  have hx : Chain "x".toList := .ident ⟨rfl, by decide, by decide⟩
  have hy : Chain "y".toList := .ident ⟨rfl, by decide, by decide⟩
  have hcore : ∀ T ∈ [FixAllShould.shouldSpecs, FixComplexShould.shouldSpecs,
      FixFinalShould.shouldSpecs], ∀ l ∈ ls, l.Core (ShouldSpec.handles T) := by
    simp only [List.forall_mem_cons, List.not_mem_nil, false_imp_iff, imp_true_iff, and_true]
    have hb : IsIndent [] := by decide
    exact ⟨⟨⟨by decide, hx, by decide, by decide⟩, hb, ⟨by decide, hy, by decide, by decide⟩⟩,
      ⟨⟨by decide, hx, by decide, by decide⟩, hb, ⟨by decide, hy, by decide, by decide⟩⟩,
      ⟨⟨by decide, hx, by decide, by decide⟩, hb, ⟨by decide, hy, by decide, by decide⟩⟩⟩
  have h := generic_tables_migrate_core ls
  exact ⟨hcore, h.1 (hcore _ (by simp)), h.2.1 (hcore _ (by simp)), h.2.2 (hcore _ (by simp))⟩

end AssertMigration
