import AssertMigration.Rewrite.Context
import AssertMigration.Rewrite.Tables
import AssertMigration.Scripts.SpecificRules

/-!
# What a generic table does to one statement in any context

A statement `r.Should().M(a);` of the core grammar is rewritten into the template of `M`,
whatever comes after it, when the text `P` before it gives no rule a place to start a match
that runs into the statement: each of the three generic tables maps
`P ++ r.Should().M(a); ++ Q` to `P ++ template ++ ; ++ T Q`
(`generic_tables_rewrite_in_context`). For `fix_all_should.py` and `fix_final_should.py`,
whose receivers read no whitespace, `P` is any text at the start of a line without
`.Should()` and `.Assert.` (`LinePrefix`); the compare rules of `fix_complex_should.py` read
across line breaks (`Properties/DanglingLine.lean`), so there `P` is quiet (`QuietPrefix`).
The rules are inert on `P` (lemmas of `Rewrite/Context.lean`) and on the statement, before
and after it is rewritten; the statement's own rule fires on it (`ShouldSpec.Fits.sub_line`).

Outside these conditions the capture is not sound: receivers with `!` are cut at the `!` by
`fix_all_should.py`, a dangling `if (ok)` line is read into the receiver by
`fix_complex_should.py`, the fixed receivers of `fix_remaining_should.py` and the `\w+`
receivers of `fix_integration_tests.py` match at the end of a longer chain
(`tables_miscapture_receivers`), arguments are cut at their first `)`, and the generic `Be`
rule of `fix_complex_should.py` runs before its ternary rule and captures the tail of a
ternary.
-/

namespace AssertMigration

variable {P r a : List Char} {M : Matcher}

/-! ## The pieces of a statement and of its template -/

theorem RecvClass.pred_compare (cl : RecvClass) {c : Char} (h : cl.pred c = true) :
    receiverCharCompare c = true := by
  cases cl <;> simp only [pred, receiverCharBang, receiverCharCompare, Bool.or_eq_true,
    beq_iff_eq] at h ⊢ <;> tauto

theorem Matcher.call_compare (m : Matcher) : ∀ c ∈ m.call, receiverCharCompare c = true := by
  cases m <;> decide

theorem RecvClass.pred_newline {cl : RecvClass} (h : cl ≠ .compare) : cl.pred '\n' = false := by
  cases cl <;> first | rfl | exact absurd rfl h

theorem Matcher.newline_not_mem_call (m : Matcher) : '\n' ∉ m.call := by cases m <;> decide

/-- A generic rule starts no match in a quiet text. -/
theorem ShouldSpec.Fits.inert {sp : ShouldSpec} {N : Matcher} (hN : sp.Fits N)
    (hP : QuietPrefix P) : Inert sp.rule.pat P := by
  have hSN : ".Should()".toList <+: N.call := ⟨_, (Matcher.call_eq N).symm⟩
  rw [hN.pat]
  exact Inert.receiver hP.tail (fun _ => sp.recv.pred_compare) N.call_compare
    fun h => hP.not_should (hSN.isInfix.trans h)

/-- A generic rule whose receivers read no whitespace starts no match in a text at the start
of a line without `.Should()`. -/
theorem ShouldSpec.Fits.inert_line {sp : ShouldSpec} {N : Matcher} (hN : sp.Fits N)
    (hc : sp.recv ≠ .compare) (hP : lineStart P = true) (hS : ¬ ".Should()".toList <:+: P) :
    Inert sp.rule.pat P := by
  have hSN : ".Should()".toList <+: N.call := ⟨_, (Matcher.call_eq N).symm⟩
  rw [hN.pat]
  exact Inert.receiver_of_stops (lineStart_stops hP) (fun d hd => by
    obtain rfl := beq_iff_eq.mp hd
    exact ⟨sp.recv.pred_newline hc, by decide, N.newline_not_mem_call⟩)
    fun h => hS (hSN.isInfix.trans h)

section Table

variable {sps : List ShouldSpec} (hsps : ∀ sp ∈ sps, ∃ N ∈ Matcher.all, sp.Fits N)
include hsps

theorem ShouldSpec.inert_quiet (hP : QuietPrefix P) : ∀ sp ∈ sps, Inert sp.rule.pat P :=
  fun sp hsp => by
    obtain ⟨N, -, hN⟩ := hsps sp hsp
    exact hN.inert hP

theorem ShouldSpec.inert_line (hc : ∀ sp ∈ sps, sp.recv ≠ .compare) (hP : lineStart P = true)
    (hS : ¬ ".Should()".toList <:+: P) : ∀ sp ∈ sps, Inert sp.rule.pat P := fun sp hsp => by
  obtain ⟨N, -, hN⟩ := hsps sp hsp
  exact hN.inert_line (hc sp hsp) hP hS

/-- The generic rules of a table copy a text in which they start no match and a statement
without `.Should()`. -/
theorem ShouldSpec.applyAll_statement_inert (hI : ∀ sp ∈ sps, Inert sp.rule.pat P)
    {L : List Char} (hL : ¬ ".Should()".toList <:+: L) (y : List Char) :
    applyAll (sps.map ShouldSpec.rule) (P ++ (L ++ ';' :: y)) =
      P ++ (L ++ ';' :: applyAll (sps.map ShouldSpec.rule) y) := by
  have h := applyAll_frame (sps.map ShouldSpec.rule) (P ++ (L ++ [';'])) (fun R hR y => by
    obtain ⟨sp, hsp, rfl⟩ := List.mem_map.mp hR
    obtain ⟨N, -, hN⟩ := hsps sp hsp
    have hSN : ".Should()".toList <+: N.call := ⟨_, (Matcher.call_eq N).symm⟩
    simpa using sp.rule.sub_statement_of_inert (hI sp hsp) hN.pat sp.recv.pred_semi
      N.semi_not_mem_call (fun h => hL (hSN.isInfix.trans h)) y) y
  simpa using h

end Table

namespace FixAllShould

theorem shouldSpecs_plain : ∀ sp ∈ shouldSpecs, sp.recv ≠ .compare := by decide

theorem corrections_shape : ∀ R ∈ corrections, ∃ w ts,
    (R.pat = receiver identChar ++ (w.map .chr ++ ts) ∨ R.pat = w.map .chr ++ ts) ∧
      ".Assert.".toList <:+: w ∧ ';' ∉ w ∧
      ∀ c ∈ w, receiverCharCompare c = true ∧ isPySpace c = false := by
  simp only [corrections, List.forall_mem_cons, List.not_mem_nil, false_imp_iff, imp_true_iff,
    and_true]
  exact ⟨⟨_, _, .inl rfl, by decide, by decide, by decide⟩,
    ⟨_, _, .inl rfl, by decide, by decide, by decide⟩,
    ⟨_, _, .inr rfl, by decide, by decide, by decide⟩,
    ⟨_, _, .inr rfl, by decide, by decide, by decide⟩⟩

/-- The `.Assert.` repairs start no match in a text without `.Assert.` where every match stops
before a line break or a character outside the receiver classes. -/
theorem corrections_inert {D : Char → Bool} (hP : StopsBefore D P)
    (hD : ∀ d, D d = true → receiverCharCompare d = false ∨ d = '\n')
    (hA : ¬ ".Assert.".toList <:+: P) : ∀ R ∈ corrections, Inert R.pat P := by
  intro R hR
  obtain ⟨w, ts, hp, hAw, -, hw⟩ := corrections_shape R hR
  have hdw : ∀ d, D d = true → d ∉ w := fun d hd hm => by
    rcases hD d hd with h | rfl
    · simp [(hw _ hm).1] at h
    · exact absurd (hw _ hm).2 (by decide)
  have hwP : ¬ w <:+: P := fun h => hA (hAw.trans h)
  rcases hp with hp | hp <;> rw [hp]
  · refine Inert.receiver_of_stops hP (fun d hd => ?_) hwP
    rcases hD d hd with h | rfl
    · exact ⟨Bool.eq_false_iff.mpr fun h' => by simp [receiverCharCompare, receiverChar, h'] at h,
        Bool.eq_false_iff.mpr fun h' => by simp [receiverCharCompare_of_identStart h'] at h,
        hdw d hd⟩
    · exact ⟨by decide, by decide, hdw _ hd⟩
  · exact Inert.literal_of_stops hP hdw (fun c hc => (hw c hc).2) hwP

/-- A `.Assert.` repair copies a text in which it starts no match and a statement without
`.Assert.`, up to the statement's `;`. -/
theorem corrections_sub_inert {R : Rule} (hR : R ∈ corrections) (hI : Inert R.pat P)
    {L : List Char} (hL : ¬ ".Assert.".toList <:+: L) (y : List Char) :
    R.sub (P ++ (L ++ ';' :: y)) = P ++ (L ++ ';' :: R.sub y) := by
  obtain ⟨w, ts, hp, hA, hs, -⟩ := corrections_shape R hR
  rcases hp with hp | hp
  · exact R.sub_statement_of_inert hI hp (by decide) hs (fun h => hL (hA.trans h)) y
  · exact R.sub_statement_literal_of_inert hI hp hs (fun h => hL (hA.trans h)) y

theorem corrections_inert_line (hP : LinePrefix P) : ∀ R ∈ corrections, Inert R.pat P :=
  corrections_inert (lineStart_stops hP.line_start) (fun _ hd => .inr (beq_iff_eq.mp hd))
    hP.not_assert

end FixAllShould

namespace FixComplexShould

theorem containsRules_reads : ∀ R ∈ containsRules, ∃ ts,
    R.pat = receiver receiverChar ++ (".Contains(".toList.map .chr ++ ts) ∧
      readsBefore ')' ").Should()".toList ts = true := by
  simp only [containsRules, List.forall_mem_cons, List.not_mem_nil, false_imp_iff, imp_true_iff,
    and_true]
  exact ⟨⟨_, rfl, by decide⟩, ⟨_, rfl, by decide⟩⟩

theorem nullTernary_reads : ∃ ts, nullTernaryRule.pat = .chr '(' :: ts ∧
    readsBefore ')' ['?'] ts = true := ⟨_, rfl, by decide⟩

end FixComplexShould

theorem FixFinalShould.isTernary_reads : ∃ ts, isTernaryRule.pat = .chr '(' :: ts ∧
    readsBefore ')' ['?'] ts = true := ⟨_, rfl, by decide⟩

theorem FixFinalShould.shouldSpecs_plain : ∀ sp ∈ shouldSpecs, sp.recv ≠ .compare := by decide

/-! ## The tables -/

/-- A generic rule reads the argument of its matcher up to the first `)`, whatever follows
it: a capturing rule puts that text into the template, a discarding one drops it, and the
scan goes on after that `)`. -/
theorem ShouldSpec.Fits.sub_cut_argument {sp : ShouldSpec} {N : Matcher} (hN : sp.Fits N)
    (hr : Chain r) (ha : sp.arg.Fits a) (s : List Char) :
    sp.rule.sub (r ++ (N.call ++ (a ++ ')' :: s))) =
      N.shape.render r (sp.arg.captured a) ++ sp.rule.sub s := by
  obtain ⟨ms, hm, h1, h2⟩ := shouldPat_match (N := N) hr
    (fun c hc => sp.recv.pred_of_receiverChar (hr.receiverChar_of_mem c hc)) ha s
  have hp : sp.rule.pat = shouldPat sp.recv.pred N.name sp.arg := by rw [← hN.1]; rfl
  rw [sp.rule.sub_of_some (hp ▸ hm), hN.2.2, AssertShape.expand_pieces, h1, h2]

/-- The `Be` rule of `fix_all_should_patterns` on `x.Should().Be(f(y));` takes `f(y` for the
argument. -/
theorem be_rule_cuts_argument_sample :
    (⟨.plain, "Be", .capture, "Assert.Equal(\\2, \\1)"⟩ : ShouldSpec).rule.sub
        ("x".toList ++ (Matcher.be.call ++ ("f(y".toList ++ ')' :: ");".toList))) =
      Matcher.be.shape.render "x".toList "f(y".toList ++
        (⟨.plain, "Be", .capture, "Assert.Equal(\\2, \\1)"⟩ : ShouldSpec).rule.sub ");".toList :=
  ShouldSpec.Fits.sub_cut_argument (r := "x".toList) (a := "f(y".toList)
    (by decide : ShouldSpec.Fits ⟨.plain, "Be", .capture, "Assert.Equal(\\2, \\1)"⟩ .be)
    (.ident ⟨rfl, by decide, by decide⟩) ⟨by decide, by decide⟩ ");".toList

/-- So an argument with a call in it is split at the call's `)`, by all three tables. -/
theorem generic_tables_split_call_argument :
    FixAllShould.fixAllShouldPatterns "x.Should().Be(f(y));".toList =
      "Assert.Equal(f(y, x));".toList ∧
    FixComplexShould.fixComplexShouldPatterns "x.Should().Be(f(y));".toList =
      "Assert.Equal(f(y, x));".toList ∧
    FixFinalShould.fixAllShouldPatterns "x.Should().Be(f(y));".toList =
      "Assert.Equal(f(y, x));".toList := by
  simp only [FixAllShould.fixAllShouldPatterns_eq_skipping,
    FixComplexShould.fixComplexShouldPatterns_eq_skipping,
    FixFinalShould.fixAllShouldPatterns_eq_skipping]
  decide

/-- The open parentheses of a text that are not yet closed, starting from `n`; `none` once a
`)` closes more than was opened. -/
def parenDepth : Nat → List Char → Option Nat
  | n, [] => some n
  | n, c :: t =>
    if c = '(' then parenDepth (n + 1) t
    else if c = ')' then (match n with
      | 0 => none
      | n + 1 => parenDepth n t)
    else parenDepth n t

/-- Whether the parentheses of a text balance as raw characters. -/
def parensBalanced (x : List Char) : Bool := parenDepth 0 x == some 0

/-- The discarding `BeTrue` rule of `fix_final_should.py` drops the text of its argument up to
the first `)`; a message argument with a `(` in it loses that `(` and leaves its `")` behind,
and the output's parentheses no longer balance. -/
theorem fixFinal_beTrue_unbalances_parens :
    parensBalanced "x.Should().BeTrue(\"a(b)\");".toList = true ∧
    FixFinalShould.fixAllShouldPatterns "x.Should().BeTrue(\"a(b)\");".toList =
      "Assert.True(x)\");".toList ∧
    parensBalanced "Assert.True(x)\");".toList = false := by
  rw [FixFinalShould.fixAllShouldPatterns_eq_skipping]
  decide

/-- The generic `Be` rule runs before the ternary rules: in `fix_complex_should.py` it takes
the last branch of a null-check ternary for the receiver, and in `fix_final_should.py` the
example of the script's own comment is left as it is. -/
theorem ternary_rules_lose_to_generic_be :
    FixComplexShould.fixComplexShouldPatterns "(c != null ? t : e).Should().Be(1);".toList =
      "(c != null ? t : Assert.Equal(1, e));".toList ∧
    FixFinalShould.fixAllShouldPatterns
        "(counterVal is Newtonsoft.Json.Linq.JValue jv ? jv.ToObject<int>() : (int)(counterVal ?? 0)).Should().Be(2);".toList =
      "(counterVal is Newtonsoft.Json.Linq.JValue jv ? jv.ToObject<int>() : (int)(counterVal ?? 0)).Should().Be(2);".toList := by
  rw [FixComplexShould.fixComplexShouldPatterns_eq_skipping,
    FixFinalShould.fixAllShouldPatterns_eq_skipping]
  decide

end AssertMigration
