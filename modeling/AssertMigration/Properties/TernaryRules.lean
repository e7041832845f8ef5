import AssertMigration.Properties.Capture
import AssertMigration.Properties.ContainsTable
import AssertMigration.Regex.Semantics
import AssertMigration.Rewrite.LineScan

/-!
# The ternary rules of `fix_final_should.py` and `fix_complex_should.py`

Each of the two scripts ends its table with a rule for a parenthesised ternary receiver,
`(b).Should().Be(v)`. The generic `Be` rule runs before it and captures the tail of the ternary
whenever a receiver `[a-zA-Z_][a-zA-Z0-9_.\[\]()!]*?` ends at the `)` of the statement; when none
does, the ternary rule rewrites the statement after any quiet text.

- The `is`-pattern rule of `fix_final_should.py`,
  `\(([^)]*is[^)]*\?[^)]*:[^)]*)\)\.Should\(\)\.Be\(([^)]+)\)`, writes `Assert.Equal(v, b)`
  (`FixFinalShould.isTernary_statement_migrates`).
- The null-check rule of `fix_complex_should.py`,
  `\(([^)]+)\s*!=\s*null\s*\?\s*([^:]+)\s*:\s*([^)]+)\)\.Should\(\)\.Be\(([^)]+)\)`, writes
  `Assert.Equal(v, a  != null ? c  : d)` for `(a != null ? c : d).Should().Be(v)`: its greedy
  groups keep the spaces the template writes again
  (`FixComplexShould.nullTernary_statement_migrates`).

## Main definitions

- `parenBeCall b v`: the statement `(b).Should().Be(v)`.
- `NoReceiverEnd x`: no generic receiver ends at the end of `x`.
- `IsTernaryBody b`: the texts the `is`-ternary group reads up to the first `)`.
- `NullTernaryOperands a c d`: the operands the null-check rule reads back.

## Design notes

The group `[^)]*is[^)]*\?[^)]*:[^)]*` reads no `)` and is followed by `\)`, so every reading
of the pattern takes the same groups, whatever the choices of its repetitions: the rule's
output is derived from the declarative `Reads` (`isTernaryPat_inv`), and that the engine
finds a match at all from its completeness (`matchToks_isSome_of_reads`). The null-check
pattern has readings with other groups (`\1` may give its last space to `\s*`), so there the
engine's order decides: its first group takes the longest run after which the rest
succeeds, every longer one failing at `\s*!` (`greedy_past_bang_none`). The generic rules
copy the statement: the ones whose call it lacks by `Rule.sub_append_of_absent`, the `Be`
rule because each of its receivers would end at the `)` (`Rule.sub_parenBe`), and the
`Contains` rules because it spells no `).Should().BeTrue()` or `).Should().BeFalse()`.
-/

namespace AssertMigration

/-! ## A parenthesised receiver before `.Should().Be(` -/

/-- `(b).Should().Be(v)` -/
def parenBeCall (b v : List Char) : List Char :=
  ('(' :: (b ++ [')'])) ++ (Matcher.be.call ++ (v ++ [')']))

/-- No receiver `[a-zA-Z_][a-zA-Z0-9_.\[\]()!]*` of the generic rules ends at the end of `x`:
each end of `x` made of receiver characters holds no `[a-zA-Z_]`. -/
def NoReceiverEnd (x : List Char) : Prop :=
  ∀ n ∈ x.tails, (∀ c ∈ n, receiverCharBang c = true) → ∀ c ∈ n, identStart c = false

instance (x : List Char) : Decidable (NoReceiverEnd x) := by
  unfold NoReceiverEnd; infer_instance

theorem be_call : Matcher.be.call = ".Should()".toList ++ ".Be(".toList := rfl

variable {b v : List Char}

/-- A parenthesised receiver without `)` at which no receiver ends spells no `.Should()`. -/
theorem not_should_parenRecv (hb : ')' ∉ b) (hA : NoReceiverEnd ('(' :: (b ++ [')']))) :
    ¬ ".Should()".toList <:+: '(' :: (b ++ [')']) := by
  intro h
  rw [← List.cons_append] at h
  rcases List.infix_concat_iff.mp h with h | h
  · rw [List.cons_append] at h
    exact absurd (hA _ ((List.mem_tails _ _).mpr h) (by decide) 'S' (by decide)) (by decide)
  · exact not_infix_of_not_mem (c := ')') (by decide) (by simpa using hb) h

theorem not_should_beCall_tail (hv : '(' ∉ v) :
    ¬ ".Should()".toList <:+: (".Should()".toList ++ (".Be(".toList ++ (v ++ [')']))).tail := by
  show ¬ ".Should()".toList <:+: "Should()".toList ++ (".Be(".toList ++ (v ++ [')']))
  rw [← List.append_assoc]
  exact not_infix_lit_append (by decide) (not_infix_of_not_mem (c := '(') (by decide)
    (by simpa using hv))

/-- `(b).Should().Be(v)` spells the call of no matcher but `Be`. -/
theorem parenBeCall_not_call (hb : ')' ∉ b) (hA : NoReceiverEnd ('(' :: (b ++ [')'])))
    (hv : '(' ∉ v) {N : Matcher} (hN : N ≠ .be) : ¬ N.call <:+: parenBeCall b v := by
  intro h
  rw [Matcher.call_eq, ← List.nil_append (".Should()".toList ++ _), parenBeCall, be_call,
    List.append_assoc] at h
  have hpre := ((by decide : Unbordered ".Should()".toList).aligned (not_should_parenRecv hb hA)
    (not_should_beCall_tail hv) h).2
  cases N <;> first | exact hN rfl | exact not_prefix_of_incomparable (by decide) hpre

/-- The `Be` rule copies `(b).Should().Be(v)` up to its `;`: each of its receivers would end at
the `)` after `b`. -/
theorem Rule.sub_parenBe {R : Rule} {C : Char → Bool} {ts : List Tok}
    (hp : R.pat = receiver C ++ (Matcher.be.call.map .chr ++ ts))
    (hC : ∀ c, C c = true → receiverCharBang c = true) (hCs : C ';' = false) (hb : ')' ∉ b)
    (hA : NoReceiverEnd ('(' :: (b ++ [')']))) (hv : '(' ∉ v) (y : List Char) :
    R.sub (parenBeCall b v ++ ';' :: y) = parenBeCall b v ++ ';' :: R.sub y := by
  have h := R.sub_append_of_none (x := parenBeCall b v ++ [';']) (y := y) fun i hi =>
    Option.eq_none_iff_forall_not_mem.mpr fun res hm => ?_
  · simpa using h
  rw [hp] at hm
  obtain ⟨c, u, z, -, ht, hc, hu, -⟩ := matchToks_receiver_split hm
  have hi' : i ≤ (parenBeCall b v).length := by simp at hi; omega
  rw [List.drop_append_of_le_length hi', List.append_assoc, List.singleton_append] at ht
  have hsemi : ';' ∉ c :: u ++ Matcher.be.call := by
    simp only [List.cons_append, List.mem_cons, List.mem_append, not_or]
    exact ⟨by rintro rfl; exact absurd hc (by decide), fun h => by simp [hu ';' h] at hCs,
      Matcher.semi_not_mem_call _⟩
  obtain ⟨q, hq⟩ := prefix_of_prefix_append_cons hsemi ⟨z, by rw [ht]; simp⟩
  -- the receiver would be an end of `(b)` made of receiver characters
  have hinf : (c :: u) ++ Matcher.be.call <:+: parenBeCall b v :=
    ⟨(parenBeCall b v).take i, q, by rw [List.append_assoc (List.take i _), hq,
      List.take_append_drop]⟩
  rw [parenBeCall, be_call] at hinf
  have hsuf := ((by decide : Unbordered ".Should()".toList).aligned (not_should_parenRecv hb hA)
    (not_should_beCall_tail hv) (by simpa only [List.append_assoc] using hinf)).1
  have hC' : ∀ e ∈ c :: u, receiverCharBang e = true := by
    simp only [List.mem_cons, forall_eq_or_imp]
    exact ⟨by simp [receiverCharBang, receiverChar, identChar_of_identStart hc],
      fun e he => hC e (hu e he)⟩
  exact absurd (hA _ ((List.mem_tails _ _).mpr hsuf) hC' c (List.mem_cons_self c u)) (by simp [hc])

theorem parenBeCall_append (y : List Char) : parenBeCall b v ++ y =
    '(' :: (b ++ (')' :: (Matcher.be.call ++ (v ++ (')' :: y))))) := by
  simp [parenBeCall]

theorem RecvClass.pred_bang {cl : RecvClass} (h : cl ≠ .compare) {c : Char}
    (hc : cl.pred c = true) : receiverCharBang c = true := by
  cases cl <;> simp_all [RecvClass.pred, receiverCharBang]

/-- The generic rules of a table whose `Be` rule reads no spaces in its receivers copy
`(b).Should().Be(v);` after a quiet text. -/
theorem ShouldSpec.applyAll_copy_parenBe {sps : List ShouldSpec}
    (hsps : ∀ sp ∈ sps, ∃ N ∈ Matcher.all, sp.Fits N)
    (hbe : ∀ sp ∈ sps, sp.Fits .be → sp.recv ≠ .compare) {P : List Char} (hP : QuietPrefix P)
    (hb : ')' ∉ b) (hA : NoReceiverEnd ('(' :: (b ++ [')']))) (hv : '(' ∉ v) (y : List Char) :
    applyAll (sps.map ShouldSpec.rule) (P ++ (parenBeCall b v ++ ';' :: y)) =
      P ++ (parenBeCall b v ++ ';' :: applyAll (sps.map ShouldSpec.rule) y) := by
  have h := applyAll_frame (sps.map ShouldSpec.rule) (P ++ (parenBeCall b v ++ [';']))
    (fun R hR y => ?_) y
  · simpa using h
  obtain ⟨sp, hsp, rfl⟩ := List.mem_map.mp hR
  obtain ⟨N, -, hN⟩ := hsps sp hsp
  simp only [List.append_assoc, List.singleton_append]
  rw [sp.rule.sub_append_of_inert (hN.inert hP)]
  by_cases hNbe : N = .be
  · subst hNbe
    rw [Rule.sub_parenBe hN.pat (fun _ => RecvClass.pred_bang (hbe sp hsp hN)) sp.recv.pred_semi
      hb hA hv]
  · rw [sp.rule.sub_append_of_absent hN.pat sp.recv.pred_semi (by decide) N.semi_not_mem_call
      (parenBeCall_not_call hb hA hv hNbe), ← List.singleton_append,
      sp.rule.sub_append_of_heads hN.pat (by decide)]
    rfl

namespace FixFinalShould

/-! ## The `is`-ternary rule -/

/-- The group `[^)]*is[^)]*\?[^)]*:[^)]*` of the rule. -/
def isTernaryGroup : List Tok :=
  .star (notChar ')') :: str "is" ++ (.star (notChar ')') :: str "?" ++
    (.star (notChar ')') :: str ":" ++ [.star (notChar ')')]))

theorem isTernaryPat_eq : isTernaryPat = str "(" ++ (.mark :: (isTernaryGroup ++ (.mark ::
    ((')' :: Matcher.be.call).map .chr ++ (.mark :: (plus (notChar ')') ++
      [.mark, .chr ')'])))))) := rfl

theorem isTernaryRule_tmpl : isTernaryRule.tmpl = "Assert.Equal(".toList.map .text ++
    .group 2 :: (", ".toList.map .text ++ [.group 1, .text ')']) := rfl

/-- The receivers the group reads whole: an `is`-pattern ternary without `)`. -/
structure IsTernaryBody (b : List Char) : Prop where
  split : ∃ b₁ b₂ b₃ b₄, b = b₁ ++ ("is".toList ++ (b₂ ++ ('?' :: (b₃ ++ (':' :: b₄)))))
  no_close : ')' ∉ b

/-- `Assert.Equal(v, b)`, the rule's template for `(b).Should().Be(v)`. -/
def isTernaryAssert (b v : List Char) : List Char :=
  "Assert.Equal(".toList ++ (v ++ (", ".toList ++ (b ++ [')'])))

theorem IsTernaryBody.reads (hb : IsTernaryBody b) (ms : Marks) (s : List Char) :
    Reads isTernaryGroup ms (b ++ s) ms s := by
  obtain ⟨⟨b₁, b₂, b₃, b₄, rfl⟩, hno⟩ := hb
  have hn : ∀ x : List Char, x <:+: b₁ ++ ("is".toList ++ (b₂ ++ ('?' :: (b₃ ++ (':' :: b₄))))) →
      ∀ c ∈ x, notChar ')' c = true :=
    fun x hx => notChar_close_of_not_mem fun h => hno (hx.subset h)
  simp only [List.append_assoc, List.cons_append]
  exact .star (hn _ (List.prefix_append _ _).isInfix) (.chrs _ (.star (hn _ ⟨b₁ ++ "is".toList,
    '?' :: (b₃ ++ (':' :: b₄)), by simp⟩) (.chrs ['?'] (.star (hn _ ⟨b₁ ++ ("is".toList ++
      (b₂ ++ ['?'])), ':' :: b₄, by simp⟩) (.chrs [':'] (.star (hn _ ⟨b₁ ++ ("is".toList ++
        (b₂ ++ ('?' :: (b₃ ++ [':'])))), [], by simp⟩) .nil))))))

/-- The rule reads `(b).Should().Be(v)` for a ternary body `b`. -/
theorem isTernaryPat_reads (hb : IsTernaryBody b) (hv : v ≠ [] ∧ ')' ∉ v) (z : List Char) :
    ∃ ms, Reads isTernaryPat [] ('(' :: (b ++ (')' :: (Matcher.be.call ++ (v ++ (')' :: z))))))
      ms z := by
  obtain ⟨e, v', rfl⟩ := List.exists_cons_of_ne_nil hv.1
  have hn := notChar_close_of_not_mem hv.2
  rw [isTernaryPat_eq]
  exact ⟨_, .chrs ['('] (.mark (.append (hb.reads _ _) (.mark (.chrs (')' :: Matcher.be.call)
    (.mark (.cls (hn e (List.mem_cons_self e v')) (.star (fun c hc => hn c
      (List.mem_cons_of_mem e hc)) (.mark (.chr .nil)))))))))⟩

/-- Every reading of the rule on `(b).Should().Be(v)` takes `b` and `v` for its groups: the
ternary group reads no `)` and is followed by one. -/
theorem isTernaryPat_inv {z : List Char} (hb : ')' ∉ b) (hv : ')' ∉ v) {ms : Marks}
    {r : List Char} (h : Reads isTernaryPat []
      ('(' :: (b ++ (')' :: (Matcher.be.call ++ (v ++ (')' :: z)))))) ms r) :
    groupText ms 1 = b ∧ groupText ms 2 = v ∧ r = z := by
  rw [isTernaryPat_eq] at h
  obtain ⟨s₁, hs₁, h⟩ := Reads.chrs_inv h
  obtain rfl : s₁ = b ++ (')' :: (Matcher.be.call ++ (v ++ (')' :: z)))) :=
    (List.cons.inj hs₁).2.symm
  -- the ternary group reads up to the first `)`
  obtain ⟨ms₁, s₂, hG, h⟩ := Reads.append_inv h.mark_inv
  obtain ⟨u, hu, hdu, rfl⟩ := hG.split_of_avoids (d := ')') (by decide)
  obtain ⟨s₃, rfl, h⟩ := Reads.chrs_inv h.mark_inv
  obtain rfl : u = b := eq_of_prefix_before_sep (z := Matcher.be.call ++ (v ++ (')' :: z))) hdu hb
    ⟨Matcher.be.call ++ s₃, by rw [hu]; simp⟩
  obtain rfl : s₃ = v ++ (')' :: z) := by simpa using hu.symm
  -- the argument group reads up to the next `)`
  obtain ⟨ms₂, s₄, hV, h⟩ := Reads.append_inv h.mark_inv
  obtain ⟨u', hu', hdu', rfl⟩ := hV.split_of_avoids (d := ')') (by decide)
  cases h.mark_inv with
  | chr h =>
    obtain ⟨rfl, rfl⟩ := h.nil_inv
    obtain rfl : u' = v := eq_of_prefix_before_sep (z := z) hdu' hv ⟨r, by rw [hu']; simp⟩
    obtain rfl : r = z := by simpa using hu'.symm
    simp [groupText_one, groupText_cons_cons]

/-- The rule rewrites `(b).Should().Be(v)` into `Assert.Equal(v, b)`. -/
theorem isTernaryRule_sub (hb : IsTernaryBody b) (hv : v ≠ [] ∧ ')' ∉ v) (y : List Char) :
    isTernaryRule.sub (parenBeCall b v ++ y) = isTernaryAssert b v ++ isTernaryRule.sub y := by
  obtain ⟨_, hr⟩ := isTernaryPat_reads hb hv y
  obtain ⟨⟨ms, rest⟩, hm⟩ := Option.isSome_iff_exists.mp (matchToks_isSome_of_reads hr)
  obtain ⟨h1, h2, rfl⟩ := isTernaryPat_inv hb.no_close hv.2 (reads_of_matchToks hm)
  dsimp only at h1 h2
  rw [parenBeCall_append, Rule.sub_of_some _ hm, isTernaryRule_tmpl]
  simp only [expand_texts, expand_group_cons, h1, h2, isTernaryAssert, List.append_assoc]
  rfl


/-! ## The table of `fix_final_should.py` -/

theorem shouldSpecs_be : ∀ sp ∈ shouldSpecs, sp.Fits .be → sp.recv ≠ .compare := by decide

/-- After a quiet text, `fix_final_should.py` rewrites `(b).Should().Be(v);` into
`Assert.Equal(v, b);` when `b` is an `is`-pattern ternary without `)` at whose end no receiver
of the generic rules ends, and `v` holds no parenthesis. -/
theorem isTernary_statement_migrates (hP : QuietPrefix P) (hb : IsTernaryBody b)
    (hA : NoReceiverEnd ('(' :: (b ++ [')']))) (hv : v ≠ [] ∧ '(' ∉ v ∧ ')' ∉ v)
    (Q : List Char) :
    fixAllShouldPatterns (P ++ (parenBeCall b v ++ ';' :: Q)) =
      P ++ (isTernaryAssert b v ++ ';' :: fixAllShouldPatterns Q) := by
  obtain ⟨ts, hp, hts⟩ := isTernary_reads
  have hsemi : ∀ y, isTernaryRule.sub (';' :: y) = ';' :: isTernaryRule.sub y :=
    fun y => isTernaryRule.sub_append_of_head hp (x := [';']) (by decide)
  rw [fixAllShouldPatterns, applyAll_append,
    ShouldSpec.applyAll_copy_parenBe shouldSpecs_fit shouldSpecs_be hP hb.no_close hA hv.2.1,
    applyAll_cons, applyAll_nil,
    isTernaryRule.sub_append_of_inert (hp ▸ Inert.qmark hts hP.not_qmark hP.closed),
    isTernaryRule_sub hb ⟨hv.1, hv.2.2⟩, hsemi, fixAllShouldPatterns, applyAll_append,
    applyAll_cons, applyAll_nil]

theorem isTernary_statement_migrates_sample :
    fixAllShouldPatterns (parenBeCall "o is int n ? n : 0".toList "1".toList ++ [';']) =
      isTernaryAssert "o is int n ? n : 0".toList "1".toList ++ [';'] :=
  isTernary_statement_migrates (P := []) (by decide)
    ⟨⟨"o ".toList, " int n ".toList, " n ".toList, " 0".toList, rfl⟩, by decide⟩ (by decide)
    ⟨by decide, by decide, by decide⟩ []

example : parenBeCall "o is int n ? n : 0".toList "1".toList ++ [';'] =
      "(o is int n ? n : 0).Should().Be(1);".toList ∧
    isTernaryAssert "o is int n ? n : 0".toList "1".toList ++ [';'] =
      "Assert.Equal(1, o is int n ? n : 0);".toList := ⟨rfl, rfl⟩

end FixFinalShould

namespace FixComplexShould

/-! ## The null-check ternary rule -/

/-- `a != null ? c : d` -/
def nullTernaryBody (a c d : List Char) : List Char :=
  a ++ (" != null ? ".toList ++ (c ++ (" : ".toList ++ d)))

/-- The template `Assert.Equal(\4, \1 != null ? \2 : \3)` with the groups the engine takes:
the greedy `([^)]+)` and `([^:]+)` keep the space before `!=` and before `:`, so both come out
doubled. -/
def nullTernaryAssert (a c d v : List Char) : List Char :=
  "Assert.Equal(".toList ++ (v ++ (", ".toList ++ (a ++ (' ' :: (" != null ? ".toList ++
    (c ++ (' ' :: (" : ".toList ++ (d ++ [')'])))))))))

/-- The operands the rule reads back: none holds `)`, `c` holds no `:`, and `c` and `d` hold
no `!` and do not start with a space. -/
structure NullTernaryOperands (a c d : List Char) : Prop where
  no_close : ')' ∉ a ∧ ')' ∉ c ∧ ')' ∉ d
  no_colon : ':' ∉ c
  no_bang : '!' ∉ c ∧ '!' ∉ d
  starts : ∃ e c' f d', c = e :: c' ∧ d = f :: d' ∧ isPySpace e = false ∧ isPySpace f = false

theorem NullTernaryOperands.no_close_body (ho : NullTernaryOperands a c d) :
    ')' ∉ nullTernaryBody a c d := by
  obtain ⟨ha, hc, hd⟩ := ho.no_close
  simp only [nullTernaryBody, List.mem_append, not_or]
  exact ⟨ha, by decide, hc, by decide, hd⟩

theorem nullTernaryPat_eq : nullTernaryPat = .chr '(' :: .mark :: .cls (notChar ')') ::
    .star (notChar ')') :: .mark :: .star isPySpace :: .chr '!' :: .chr '=' :: .star isPySpace ::
    ("null".toList.map .chr ++ (.star isPySpace :: .chr '?' :: .star isPySpace :: .mark ::
      .cls (notChar ':') :: .star (notChar ':') :: .mark :: .star isPySpace :: .chr ':' ::
      .star isPySpace :: .mark :: .cls (notChar ')') :: .star (notChar ')') :: .mark ::
      .chr ')' :: (Matcher.be.call.map .chr ++ (.mark :: .cls (notChar ')') ::
        .star (notChar ')') :: .mark :: [.chr ')'])))) := rfl

theorem nullTernaryRule_tmpl : nullTernaryRule.tmpl = "Assert.Equal(".toList.map .text ++
    .group 4 :: (", ".toList.map .text ++ .group 1 :: (" != null ? ".toList.map .text ++
      .group 2 :: (" : ".toList.map .text ++ [.group 3, .text ')']))) := rfl

/-- The statement cut where the rule's tokens read it. -/
theorem nullTernaryText_eq (a c d v y : List Char) :
    parenBeCall (nullTernaryBody a c d) v ++ y = '(' :: ((a ++ [' ']) ++ ('!' :: '=' :: ' ' ::
      ("null".toList ++ (' ' :: '?' :: ' ' :: ((c ++ [' ']) ++ (':' :: ' ' :: (d ++ (')' ::
        (Matcher.be.call ++ (v ++ (')' :: y))))))))))) := by
  simp only [parenBeCall_append, nullTernaryBody, List.append_assoc]
  rfl

variable {ts : List Tok} {ms : Marks} {r : Marks × List Char} {t : List Char}

/-- `\s*` reads no space before a character that is not one. -/
theorem matchToks_spaces_stop (ht : ∃ e t', t = e :: t' ∧ isPySpace e = false)
    (h : matchToks ts ms t = some r) : matchToks (.star isPySpace :: ts) ms t = some r := by
  obtain ⟨e, t', rfl, he⟩ := ht
  rwa [matchToks_star, greedy_cons_stop he]

/-- `\s*` reads the one space before a character that is not one. -/
theorem matchToks_space (ht : ∃ e t', t = e :: t' ∧ isPySpace e = false)
    (h : matchToks ts ms t = some r) : matchToks (.star isPySpace :: ts) ms (' ' :: t) = some r :=
  greedy_append_of_some (u := [' ']) (by decide) (matchToks_spaces_stop ht h)

/-- A non-empty run of a class, split as `matchToks_run_group` reads it. -/
theorem exists_run_cons {q : Char → Bool} {w : List Char} (h₀ : w ≠ []) (h : ∀ c ∈ w, q c = true) :
    ∃ e u, w = e :: u ∧ q e = true ∧ ∀ c ∈ u, q c = true := by
  obtain ⟨e, u, rfl⟩ := List.exists_cons_of_ne_nil h₀
  exact ⟨e, u, rfl, h e (List.mem_cons_self e u), fun c hc => h c (List.mem_cons_of_mem e hc)⟩

/-- Once the first group reads past the `!` of `!=`, the rest of the rule fails: `\s*!` finds no
`!` before the `)` that ends the group's run. -/
theorem greedy_past_bang_none {x R : List Char} (hx : '!' ∉ x) (ts : List Tok) (ms : Marks) :
    greedy (notChar ')') (matchToks (.mark :: .star isPySpace :: .chr '!' :: ts) ms)
      (x ++ ')' :: R) = none := by
  refine greedy_eq_none fun u s hs hu => ?_
  rw [matchToks_mark, matchToks_star]
  refine greedy_eq_none fun w z hz hw => ?_
  have hL : ')' ∉ u ++ w := by
    simp only [List.mem_append, not_or]
    exact ⟨fun h => by simpa [notChar] using hu _ h, fun h => absurd (hw _ h) (by decide)⟩
  obtain ⟨q, hq⟩ := prefix_of_prefix_append_cons hL ⟨z, by rw [hs, hz, List.append_assoc]⟩
  obtain rfl : z = q ++ ')' :: R := List.append_cancel_left (by
    rw [← List.append_assoc (u ++ w) q, hq, hs, hz, List.append_assoc] :
      (u ++ w) ++ z = (u ++ w) ++ (q ++ ')' :: R))
  cases q with
  | nil => rw [List.nil_append, matchToks_chr_cons, if_neg (by decide)]
  | cons e q =>
    rw [List.cons_append, matchToks_chr_cons, if_neg]
    rintro rfl
    exact hx (hq ▸ by simp)

/-- The rule reads `(a != null ? c : d).Should().Be(v)`: its first group takes `a` and the
space after it, since every longer run fails; the second takes `c` and the space after it. -/
theorem nullTernaryPat_match (ho : NullTernaryOperands a c d) (hv : v ≠ [] ∧ ')' ∉ v)
    (y : List Char) :
    ∃ ms, matchToks nullTernaryPat [] (parenBeCall (nullTernaryBody a c d) v ++ y) =
        some (ms, y) ∧ groupText ms 1 = a ++ [' '] ∧ groupText ms 2 = c ++ [' '] ∧
      groupText ms 3 = d ∧ groupText ms 4 = v := by
  obtain ⟨⟨ha, hc, hd⟩, hcc, ⟨hcb, hdb⟩, e, c', f, d', hce, hdf, he, hf⟩ := ho
  apply Exists.intro
  refine ⟨?_, ?_, ?_, ?_, ?_⟩
  · rw [nullTernaryText_eq, nullTernaryPat_eq, matchToks_chr_cons, if_pos rfl]
    -- the first group: `a` and a space, the longest run after which `\s*!=` reads
    refine matchToks_run_group_of_none (exists_run_cons (by simp) (notChar_of_not_mem (by simpa using ha))) rfl ?_ ?_
    · have hx : '!' ∉ '=' :: ' ' :: ("null".toList ++ (' ' :: '?' :: ' ' ::
          ((c ++ [' ']) ++ (':' :: ' ' :: d)))) := by
        simp [hcb, hdb]
      simpa using greedy_past_bang_none hx _ _ (R := Matcher.be.call ++ (v ++ ')' :: y))
    refine matchToks_spaces_stop ⟨_, _, rfl, by decide⟩ ?_
    rw [matchToks_chr_cons, if_pos rfl, matchToks_chr_cons, if_pos rfl]
    refine matchToks_space (by exact ⟨_, _, rfl, by decide⟩) ?_
    rw [matchToks_chrs]
    refine matchToks_space ⟨_, _, rfl, by decide⟩ ?_
    rw [matchToks_chr_cons, if_pos rfl]
    refine matchToks_space (by rw [hce]; exact ⟨_, _, rfl, he⟩) ?_
    -- the second group: `c` and a space, up to the `:`
    refine matchToks_run_group (exists_run_cons (by simp) (notChar_of_not_mem (by simpa using hcc))) ⟨_, _, rfl, by decide⟩ ?_
    refine matchToks_spaces_stop ⟨_, _, rfl, by decide⟩ ?_
    rw [matchToks_chr_cons, if_pos rfl]
    refine matchToks_space (by rw [hdf]; exact ⟨_, _, rfl, hf⟩) ?_
    -- the third group: `d`, up to the `)`
    refine matchToks_run_group (exists_run_cons (by simp [hdf]) (notChar_of_not_mem hd)) ⟨_, _, rfl, by decide⟩ ?_
    rw [matchToks_chr_cons, if_pos rfl, matchToks_chrs]
    -- the fourth group: `v`, up to the `)`
    refine matchToks_run_group (exists_run_cons hv.1 (notChar_of_not_mem hv.2)) ⟨_, _, rfl, by decide⟩ ?_
    rw [matchToks_chr_cons, if_pos rfl, matchToks_nil]
  -- the four groups read their texts back from the marks
  all_goals simp only [List.nil_append, List.singleton_append, List.cons_append,
    groupText_cons_cons, Nat.zero_add, groupText_one]

/-- The rule rewrites `(a != null ? c : d).Should().Be(v)` into its template. -/
theorem nullTernaryRule_sub (ho : NullTernaryOperands a c d) (hv : v ≠ [] ∧ ')' ∉ v)
    (y : List Char) :
    nullTernaryRule.sub (parenBeCall (nullTernaryBody a c d) v ++ y) =
      nullTernaryAssert a c d v ++ nullTernaryRule.sub y := by
  obtain ⟨ms, hm, h1, h2, h3, h4⟩ := nullTernaryPat_match ho hv y
  rw [Rule.sub_of_some _ hm, nullTernaryRule_tmpl]
  simp only [expand_texts, expand_group_cons, h1, h2, h3, h4, nullTernaryAssert,
    List.append_assoc, List.cons_append]
  rfl

/-! ## The table of `fix_complex_should.py` -/

theorem shouldSpecs_be : ∀ sp ∈ shouldSpecs, sp.Fits .be → sp.recv ≠ .compare := by decide

/-- The `Contains` rules copy `(b).Should().Be(v);` after a quiet text: the statement spells
neither `.Should().BeTrue()` nor `.Should().BeFalse()` after a `)`. -/
theorem containsRules_copy_parenBe (hP : QuietPrefix P) (hb : ')' ∉ b)
    (hA : NoReceiverEnd ('(' :: (b ++ [')']))) (hv : '(' ∉ v) (y : List Char) :
    applyAll containsRules (P ++ (parenBeCall b v ++ ';' :: y)) =
      P ++ (parenBeCall b v ++ ';' :: applyAll containsRules y) := by
  have h := applyAll_frame containsRules (P ++ (parenBeCall b v ++ [';'])) (fun R hR y => ?_) y
  · simpa using h
  obtain ⟨ts, hp, hts⟩ := containsRules_reads R hR
  obtain ⟨j, hj⟩ := List.mem_iff_getElem?.mp hR
  obtain ⟨hj2, hp'⟩ := containsRules_getElem hj
  have hL : ¬ (".Should()".toList ++ containsMatcher j) <:+: parenBeCall b v := by
    obtain ⟨N, hN, hpre⟩ : ∃ N : Matcher, N ≠ .be ∧
        N.call <+: ".Should()".toList ++ containsMatcher j := by
      interval_cases j
      · exact ⟨.beTrue, by decide, by decide⟩
      · exact ⟨.beFalse, by decide, by decide⟩
    exact fun h => parenBeCall_not_call hb hA hv hN (hpre.isInfix.trans h)
  have hclosed : closedParens (parenBeCall b v) = true := by
    simpa [parenBeCall] using closedParens_concat ('(' :: (b ++ ')' :: (Matcher.be.call ++ v)))
  have hsemi : R.sub (';' :: y) = ';' :: R.sub y := R.sub_append_of_heads (x := [';']) hp' (by decide)
  simp only [List.append_assoc, List.singleton_append]
  rw [R.sub_append_of_inert (hp ▸ Inert.contains hts hP),
    containsRule_sub_inert hp' (containsMatcher_reads j) (by decide)
      (containsMatcher_sep (.inl rfl) j) (closesContains_of_closedParens hclosed) hL
      (.inr ⟨y, rfl⟩), hsemi]

/-- After a quiet text, `fix_complex_should.py` rewrites `(a != null ? c : d).Should().Be(v);`
into `Assert.Equal(v, a  != null ? c  : d);`, with the space before `!=` and the one before
`:` doubled, when no receiver of the generic rules ends at the `)` of the ternary. -/
theorem nullTernary_statement_migrates (hP : QuietPrefix P) (ho : NullTernaryOperands a c d)
    (hA : NoReceiverEnd ('(' :: (nullTernaryBody a c d ++ [')'])))
    (hv : v ≠ [] ∧ '(' ∉ v ∧ ')' ∉ v) (Q : List Char) :
    fixComplexShouldPatterns (P ++ (parenBeCall (nullTernaryBody a c d) v ++ ';' :: Q)) =
      P ++ (nullTernaryAssert a c d v ++ ';' :: fixComplexShouldPatterns Q) := by
  obtain ⟨ts, hp, hts⟩ := nullTernary_reads
  have hsemi : ∀ y, nullTernaryRule.sub (';' :: y) = ';' :: nullTernaryRule.sub y :=
    fun y => nullTernaryRule.sub_append_of_head hp (x := [';']) (by decide)
  rw [fixComplexShouldPatterns, applyAll_append, applyAll_append,
    containsRules_copy_parenBe hP ho.no_close_body hA hv.2.1,
    ShouldSpec.applyAll_copy_parenBe shouldSpecs_fit shouldSpecs_be hP ho.no_close_body hA hv.2.1,
    applyAll_cons, applyAll_nil,
    nullTernaryRule.sub_append_of_inert (hp ▸ Inert.qmark hts hP.not_qmark hP.closed),
    nullTernaryRule_sub ho ⟨hv.1, hv.2.2⟩, hsemi, fixComplexShouldPatterns, applyAll_append,
    applyAll_append, applyAll_cons, applyAll_nil]

theorem nullTernary_statement_migrates_sample :
    fixComplexShouldPatterns (parenBeCall (nullTernaryBody "result".toList "result".toList
      "\"\"".toList) "\"a\"".toList ++ [';']) =
      nullTernaryAssert "result".toList "result".toList "\"\"".toList "\"a\"".toList ++ [';'] :=
  nullTernary_statement_migrates (P := []) (by decide)
    ⟨⟨by decide, by decide, by decide⟩, by decide, ⟨by decide, by decide⟩, _, _, _, _, rfl, rfl,
      by decide, by decide⟩
    (by decide) ⟨by decide, by decide, by decide⟩ []

example : parenBeCall (nullTernaryBody "result".toList "result".toList "\"\"".toList)
      "\"a\"".toList ++ [';'] = "(result != null ? result : \"\").Should().Be(\"a\");".toList ∧
    nullTernaryAssert "result".toList "result".toList "\"\"".toList "\"a\"".toList ++ [';'] =
      "Assert.Equal(\"a\", result  != null ? result  : \"\");".toList := ⟨rfl, rfl⟩

end FixComplexShould

end AssertMigration
