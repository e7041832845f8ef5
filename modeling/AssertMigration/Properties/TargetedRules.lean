import AssertMigration.Rewrite.Receiver
import AssertMigration.Scripts.SpecificRules

/-!
# The two targeted Should scripts

`fix_remaining_should.py` and `fix_integration_tests.py` spell their receivers out, or read
them as single words `\w+`. The `JValue` rule of `fix_remaining_patterns` matches the cast
ternary of the script's own comment for every pair of identifiers and every count, reading
the two identifiers a second time through its backreferences
(`FixRemainingShould.rewrites_jValue_ternary`). The first rule of `fix_integration_tests.py`,
`carrier\.Should\(\)\.BeTrue\(\)`, has nothing in front of `carrier`, so it also rewrites the
end of a longer name such as `_carrier`, before the `\w+` rule after it can read the whole
name (`FixIntegrationTests.carrier_rule_cuts_name`). The `\w+` rules themselves read only the
last name of a member chain: `a.b.Should().BeTrue()` becomes `a.Assert.True(b)`
(`FixIntegrationTests.word_rule_cuts_chain`).

## Design notes

The rules of `fix_remaining_patterns` other than the `JValue` one spell `"].Should().Be(`.
A text `x ++ Q` with no `]` in `x` and no `.Should()` in `Q` holds no such literal
(`not_infix_append_of_split`), so those rules leave it as it is; the statement and the
assertion it becomes both have that shape.

In `x.w.Should().BeTrue()` with no `.Should()` in `x` and `w` a word, `.Should()` occurs once,
and being unbordered it aligns every literal around it with that occurrence
(`Unbordered.aligned`): each rule of `replacements` spells such a literal, and only the
`BeTrue` rule's fits. The `BeTrue` rule then fires once (`applyAll_of_single_firing`).
-/

namespace AssertMigration

theorem exists_of_isIdent {w : List Char} (h : isIdent w = true) :
    ∃ e u, w = e :: u ∧ identStart e = true ∧ ∀ c ∈ u, identChar c = true := by
  cases w with
  | nil => cases h
  | cons e u =>
    simp only [isIdent, Bool.and_eq_true, List.all_eq_true] at h
    exact ⟨e, u, rfl, h.1, h.2⟩

theorem UnicodeDb.word_dot (db : UnicodeDb) : db.word '.' = false := by
  rw [UnicodeDb.word, db.isAlnum_ascii '.' (by decide)]; rfl

theorem UnicodeDb.word_lparen (db : UnicodeDb) : db.word '(' = false := by
  rw [UnicodeDb.word, db.isAlnum_ascii '(' (by decide)]; rfl

theorem UnicodeDb.word_rparen (db : UnicodeDb) : db.word ')' = false := by
  rw [UnicodeDb.word, db.isAlnum_ascii ')' (by decide)]; rfl

namespace FixRemainingShould

variable (db : UnicodeDb) {a b n Q : List Char}

/-- `(a is Newtonsoft.Json.Linq.JValue b ? b.ToObject<int>() : (int)(a ?? 0)).Should().Be(n)` -/
def jValueStmt (a b n : List Char) : List Char :=
  "(".toList ++ (a ++ (" is Newtonsoft.Json.Linq.JValue ".toList ++ (b ++ (" ? ".toList ++
    (b ++ (".ToObject<int>() : (int)(".toList ++ (a ++ (" ?? 0)).Should().Be(".toList ++
      (n ++ ")".toList)))))))))

/-- `Assert.Equal(n, a is Newtonsoft.Json.Linq.JValue b ? b.ToObject<int>() : (int)(a ?? 0))` -/
def jValueAssert (a b n : List Char) : List Char :=
  "Assert.Equal(".toList ++ (n ++ (", ".toList ++ (a ++ (" is Newtonsoft.Json.Linq.JValue ".toList ++
    (b ++ (" ? ".toList ++ (b ++ (".ToObject<int>() : (int)(".toList ++
      (a ++ " ?? 0))".toList)))))))))

/-- The `JValue` pattern matches the whole statement, its groups reading `a`, `b` and `n`. -/
theorem jValuePat_match (ha : isIdent a = true) (hb : isIdent b = true)
    (hn : ∃ e u, n = e :: u ∧ db.isDecimal e = true ∧ ∀ c ∈ u, db.isDecimal c = true)
    (Q : List Char) :
    ∃ ms, matchToks (jValuePat db) [] (jValueStmt a b n ++ Q) = some (ms, Q) ∧
      groupText ms 1 = a ∧ groupText ms 2 = b ∧ groupText ms 3 = n := by
  have hdec : db.isDecimal ')' = false := by rw [db.isDecimal_ascii ')' (by decide)]; rfl
  apply Exists.intro
  refine ⟨?_, ?_, ?_, ?_⟩
  -- the match, token by token
  simp only [jValueStmt, jValuePat, str, grp, plus, List.append_assoc, List.cons_append,
    List.nil_append, List.singleton_append, matchToks_chrs]
  refine matchToks_run_group (exists_of_isIdent ha) ⟨_, _, rfl, rfl⟩ ?_
  rw [matchToks_chrs]
  refine matchToks_run_group (exists_of_isIdent hb) ⟨_, _, rfl, rfl⟩ ?_
  rw [matchToks_chrs, matchToks_backref_of_eq, matchToks_chrs, matchToks_backref_of_eq,
    matchToks_chrs]
  · exact matchToks_run_group hn ⟨_, _, rfl, hdec⟩ rfl
  -- the backreferences and the three groups read their texts back from the marks
  all_goals simp only [List.nil_append, List.append_assoc, List.singleton_append,
    List.cons_append, groupText_cons_cons, Nat.zero_add, groupText_one]

theorem jValueRule_tmpl : (jValueRule db).tmpl =
    "Assert.Equal(".toList.map .text ++ .group 3 :: (", ".toList.map .text ++ .group 1 ::
      (" is Newtonsoft.Json.Linq.JValue ".toList.map .text ++ .group 2 :: (" ? ".toList.map .text ++
        .group 2 :: (".ToObject<int>() : (int)(".toList.map .text ++ .group 1 ::
          " ?? 0))".toList.map .text)))) := rfl

/-- A rule spelling `"].Should().Be(` leaves a text alone whose part without `]` is followed by
a part without `.Should()`. -/
theorem sub_eq_self_of_bracket {x : List Char} (hx : ']' ∉ x) (hQ : ¬ ".Should()".toList <:+: Q)
    {R : Rule} (hR : hasLiteral R.pat "\"].Should().Be(".toList = true) : R.sub (x ++ Q) = x ++ Q :=
  R.sub_eq_self_of_hasLiteral hR (not_infix_append_of_split (by decide : ']' ∈ "\"]".toList)
    (by decide : ".Should()".toList <:+: ".Should().Be(".toList) hx hQ)

/-- The `JValue` rule of `fix_remaining_patterns` rewrites the cast ternary of the script's
comment into `Assert.Equal` for all identifiers `a`, `b` and every count `n`, whatever text
without `.Should()` follows. -/
theorem rewrites_jValue_ternary (ha : isIdent a = true) (hb : isIdent b = true) (hn : n ≠ [])
    (hd : ∀ c ∈ n, db.isDecimal c = true) (hQ : ¬ ".Should()".toList <:+: Q) :
    fixRemainingPatterns db (jValueStmt a b n ++ Q) = jValueAssert a b n ++ Q := by
  have hn₀ : ∃ e u, n = e :: u ∧ db.isDecimal e = true ∧ ∀ c ∈ u, db.isDecimal c = true := by
    obtain ⟨e, u, rfl⟩ := List.exists_cons_of_ne_nil hn
    exact ⟨e, u, rfl, hd e (List.mem_cons_self e u), fun c hc => hd c (List.mem_cons_of_mem e hc)⟩
  obtain ⟨ms, hm, h1, h2, h3⟩ := jValuePat_match db ha hb hn₀ Q
  have ha' : ']' ∉ a := not_mem_of_isIdent ha (by decide : identChar ']' = false)
  have hb' : ']' ∉ b := not_mem_of_isIdent hb (by decide : identChar ']' = false)
  have hn' : ']' ∉ n := fun h => by simpa [db.isDecimal_ascii ']' (by decide)] using hd ']' h
  have hS : ']' ∉ jValueStmt a b n := by
    simp only [jValueStmt, List.mem_append, not_or]
    exact ⟨by decide, ha', by decide, hb', by decide, hb', by decide, ha', by decide, hn', by decide⟩
  have hA : ']' ∉ jValueAssert a b n := by
    simp only [jValueAssert, List.mem_append, not_or]
    exact ⟨by decide, hn', by decide, ha', by decide, hb', by decide, hb', by decide, ha', by decide⟩
  have hfire : (jValueRule db).sub (jValueStmt a b n ++ Q) = jValueAssert a b n ++ Q := by
    rw [Rule.sub_of_some _ hm, (jValueRule db).sub_eq_self_of_hasLiteral (w := ".Should()".toList) rfl hQ, jValueRule_tmpl]
    simp only [expand_texts, expand_group_cons, expand_map_text, h1, h2, h3, jValueAssert,
      List.append_assoc]
  rw [fixRemainingPatterns, rules]
  simp only [applyAll_cons, applyAll_nil]
  rw [sub_eq_self_of_bracket hS hQ, sub_eq_self_of_bracket hS hQ, sub_eq_self_of_bracket hS hQ,
    hfire, sub_eq_self_of_bracket hA hQ]
  -- the four other rules spell the bracket literal
  all_goals rfl

end FixRemainingShould

theorem FixRemainingShould.rewrites_jValue_ternary_sample :
    FixRemainingShould.fixRemainingPatterns .ascii
        (FixRemainingShould.jValueStmt "counterVal".toList "jv".toList "2".toList ++ ";".toList) =
      FixRemainingShould.jValueAssert "counterVal".toList "jv".toList "2".toList ++ ";".toList :=
  FixRemainingShould.rewrites_jValue_ternary .ascii rfl rfl (by decide) (by decide) (by decide)

namespace FixIntegrationTests

/-- The first rule, `carrier\.Should\(\)\.BeTrue\(\)`, rewrites the end of every name that ends
in `carrier`, before the `\w+` rule can read the whole name: `_carrier.Should().BeTrue()`
becomes `_Assert.True(carrier)`. -/
theorem carrier_rule_cuts_name (db : UnicodeDb) {x : List Char}
    (hx : ¬ ".Should()".toList <:+: x) :
    applyReplacements db (x ++ "carrier.Should().BeTrue()".toList) =
      x ++ "Assert.True(carrier)".toList := by
  have hc : ¬ "carrier.Should().BeTrue()".toList <:+: x := fun h =>
    hx ((by decide : ".Should()".toList <:+: "carrier.Should().BeTrue()".toList).trans h)
  have hlit : ((replacements db).tail.all fun R => hasLiteral R.pat ".Should()".toList) = true :=
    rfl
  have hout : ¬ ".Should()".toList <:+: x ++ "Assert.True(carrier)".toList :=
    not_infix_append hx (by decide) fun j hj hj0 _ => (by decide :
      ∀ j < ".Should()".toList.length, 0 < j →
        ¬ ".Should()".toList.drop j <+: "Assert.True(carrier)".toList) j hj hj0
  rw [applyReplacements, replacements, applyAll_cons, Rule.sub_append_of_none _ fun i hi => ?_]
  · rw [(by decide : (reSub (str "carrier.Should().BeTrue()") "Assert.True(carrier)" rfl).sub
      "carrier.Should().BeTrue()".toList = "Assert.True(carrier)".toList)]
    exact applyAll_eq_self fun R hR => R.sub_eq_self_of_hasLiteral (List.all_eq_true.mp hlit R hR) hout
  · have h : matchToks ("carrier.Should().BeTrue()".toList.map Tok.chr ++ []) []
        (x.drop i ++ ("carrier.Should().BeTrue()".toList ++ [])) = none :=
      matchToks_chrs_of_mismatch (Unbordered.not_prefix_drop_append (by decide) hc hi)
    rwa [List.append_nil, List.append_nil] at h

end FixIntegrationTests

theorem FixIntegrationTests.carrier_rule_cuts_name_sample :
    FixIntegrationTests.applyReplacements .ascii ("_".toList ++ "carrier.Should().BeTrue()".toList) =
      "_".toList ++ "Assert.True(carrier)".toList :=
  FixIntegrationTests.carrier_rule_cuts_name .ascii (by decide)

namespace FixIntegrationTests

variable (db : UnicodeDb)

/-- A `(\w+)` group followed by a literal matches only a word right before that literal. -/
theorem wordGrp_literal_split {L z : List Char} {ms : Marks} {r : Marks × List Char}
    (h : matchToks (wordGrp db ++ L.map .chr) ms z = some r) :
    ∃ v u, z = v ++ (L ++ u) ∧ v ≠ [] ∧ ∀ c ∈ v, db.word c = true := by
  cases z with
  | nil => cases h
  | cons c z =>
    simp only [wordGrp, grp, plus, List.cons_append, List.nil_append, List.singleton_append,
      matchToks_mark, matchToks_cls_cons] at h
    split at h
    · rw [matchToks_star] at h
      obtain ⟨u, t, rfl, hu, ht⟩ := greedy_some_split h
      rw [matchToks_mark] at ht
      by_cases hL : L <+: t
      · obtain ⟨u', rfl⟩ := hL
        exact ⟨c :: u, u', rfl, List.cons_ne_nil c u, by simpa [*] using hu⟩
      · have hn : matchToks (L.map Tok.chr ++ []) (ms ++ [c :: (u ++ t)] ++ [t]) t = none :=
          matchToks_chrs_of_mismatch hL
        rw [List.append_nil] at hn
        rw [hn] at ht
        cases ht
    · cases h

theorem should_beTrue_toList :
    ".Should().BeTrue()".toList = ".Should()".toList ++ ".BeTrue()".toList := rfl

theorem beTrueRule_tmpl :
    (reSub (wordGrp db ++ str ".Should().BeTrue()") "Assert.True(\\1)" rfl).tmpl =
      "Assert.True(".toList.map .text ++ .group 1 :: ")".toList.map .text := rfl

/-- The `BeTrue` rule `(\w+)\.Should\(\)\.BeTrue\(\)` at the last name `w` of a chain reads
`w` alone: a match starting further left would take the `.` in front of `w` into its word. -/
theorem beTrueRule_sub_chain {x w : List Char} (hA : ¬ ".Should()".toList <:+: x ++ '.' :: w)
    (hw : w ≠ []) (hww : ∀ c ∈ w, db.word c = true) :
    (reSub (wordGrp db ++ str ".Should().BeTrue()") "Assert.True(\\1)" rfl).sub
        (x ++ '.' :: (w ++ ".Should().BeTrue()".toList)) =
      x ++ '.' :: ("Assert.True(".toList ++ (w ++ [')'])) := by
  rw [show x ++ '.' :: (w ++ ".Should().BeTrue()".toList) =
    (x ++ ['.']) ++ (w ++ ".Should().BeTrue()".toList) by simp,
    Rule.sub_append_of_none _ fun i hi => ?_]
  · obtain ⟨e, u, rfl⟩ := List.exists_cons_of_ne_nil hw
    have hm : matchToks (wordGrp db ++ str ".Should().BeTrue()") []
        ((e :: u) ++ ".Should().BeTrue()".toList) =
          some ([(e :: u) ++ ".Should().BeTrue()".toList, ".Should().BeTrue()".toList], []) := by
      simp only [wordGrp, grp, plus, str, List.cons_append, List.nil_append, List.singleton_append]
      exact matchToks_run_group ⟨e, u, rfl, hww e (List.mem_cons_self e u),
        fun c hc => hww c (List.mem_cons_of_mem e hc)⟩ ⟨'.', _, rfl, db.word_dot⟩ (by simp)
    rw [Rule.sub_of_some _ hm, beTrueRule_tmpl]
    simp only [expand_texts, expand_group_cons, expand_map_text, groupText_one]
    simp
  · cases hmi : matchToks (wordGrp db ++ str ".Should().BeTrue()") []
      ((x ++ ['.']).drop i ++ (w ++ ".Should().BeTrue()".toList)) with
    | none => exact hmi
    | some r =>
      exfalso
      obtain ⟨v, u, hsplit, -, hv⟩ := wordGrp_literal_split db hmi
      have heq : ((x ++ ['.']).take i ++ v) ++ (".Should()".toList ++ (".BeTrue()".toList ++ u)) =
          (x ++ '.' :: w) ++ (".Should()".toList ++ ".BeTrue()".toList) := by
        have := congrArg ((x ++ ['.']).take i ++ ·) hsplit
        simp only [← List.append_assoc, List.take_append_drop] at this
        simpa [should_beTrue_toList] using this.symm
      obtain ⟨h1, -⟩ := (by decide : Unbordered ".Should()".toList).eq_of_append_eq hA
        (by decide) heq
      have hlen : ((x ++ ['.']).take i).length = i := by simp at hi ⊢; omega
      have hv' : v = (x ++ '.' :: w).drop i := by rw [← h1, List.drop_left' hlen]
      have hdot : '.' ∈ v := by
        rw [hv', List.drop_append_of_le_length (by simp at hi; omega)]
        simp
      exact absurd (hv '.' hdot) (by rw [db.word_dot]; decide)

/-- The `(\w+)` rule for `BeTrue` reads only the last name of a member chain: for every text `x`
without `.Should()` and every word `w` that does not end in `carrier`,
`fix_integration_tests.py` turns `x.w.Should().BeTrue()` into `x.Assert.True(w)`, the rest of
the chain staying in front of the assertion. -/
theorem word_rule_cuts_chain {x w : List Char} (hx : ¬ ".Should()".toList <:+: x) (hw : w ≠ [])
    (hww : ∀ c ∈ w, db.word c = true) (hc : ¬ "carrier".toList <:+ w) :
    applyReplacements db (x ++ '.' :: (w ++ ".Should().BeTrue()".toList)) =
      x ++ '.' :: ("Assert.True(".toList ++ (w ++ [')'])) := by
  have hnot : ∀ {d : Char}, db.word d = false → d ∉ w := fun hd h => by
    rw [hww _ h] at hd; cases hd
  -- `.Should()` starts at no `.` after `x`
  have hdot : ∀ {y : List Char}, ∀ j < ".Should()".toList.length, 0 < j →
      ".Should()".toList.take j <:+ x → ¬ ".Should()".toList.drop j <+: '.' :: y :=
    fun j hj hj0 _ => not_prefix_cons_of_head (by simp at hj ⊢; omega)
      ((by decide : ∀ j < 9, 0 < j → (".Should()".toList.drop j).head? ≠ some '.') j hj hj0)
  have hA : ¬ ".Should()".toList <:+: x ++ '.' :: w :=
    not_infix_append hx (not_infix_of_not_mem (c := '(') (by decide)
      (List.not_mem_cons_of_ne_of_not_mem (by decide) (hnot db.word_lparen))) hdot
  have hout : ¬ ".Should()".toList <:+: x ++ '.' :: ("Assert.True(".toList ++ (w ++ [')'])) := by
    refine not_infix_append hx ?_ hdot
    show ¬ _ <:+: ".Assert.True(".toList ++ (w ++ [')'])
    exact not_infix_append (by decide) (not_infix_of_not_mem (c := '.') (by decide)
      (by simpa using hnot db.word_dot)) fun j hj hj0 hs => absurd hs
        ((by decide : ∀ j < 9, 0 < j → ¬ ".Should()".toList.take j <:+ ".Assert.True(".toList)
          j hj hj0)
  have hT : x ++ '.' :: (w ++ ".Should().BeTrue()".toList) =
      (x ++ '.' :: w) ++ (".Should()".toList ++ ".BeTrue()".toList) := by
    rw [should_beTrue_toList]; simp
  -- a rule spelling a literal around `.Should()` finds it only around the statement's own
  have habsent : ∀ {r : Rule} (L₁ L₂ : List Char),
      hasLiteral r.pat (L₁ ++ (".Should()".toList ++ L₂)) = true →
      ¬ (L₁ <:+ x ++ '.' :: w ∧ L₂ <+: ".BeTrue()".toList) →
      r.sub (x ++ '.' :: (w ++ ".Should().BeTrue()".toList)) =
        x ++ '.' :: (w ++ ".Should().BeTrue()".toList) := fun L₁ L₂ hl hn =>
    Rule.sub_eq_self_of_hasLiteral _ hl fun h =>
      hn ((by decide : Unbordered ".Should()".toList).aligned hA (by decide) (hT ▸ h))
  have hother : ∀ {r : Rule} (L₁ L₂ : List Char),
      hasLiteral r.pat (L₁ ++ (".Should()".toList ++ L₂)) = true → ¬ L₂ <+: ".BeTrue()".toList →
      r.sub (x ++ '.' :: (w ++ ".Should().BeTrue()".toList)) =
        x ++ '.' :: (w ++ ".Should().BeTrue()".toList) := fun L₁ L₂ hl h2 =>
    habsent L₁ L₂ hl fun h => h2 h.2
  have hlit : (replacements db).all (fun R => hasLiteral R.pat ".Should()".toList) = true := rfl
  rw [applyReplacements]
  refine applyAll_of_single_firing (fun r hr => ?_)
    (fun r hr => r.sub_eq_self_of_hasLiteral (List.all_eq_true.mp hlit r hr) hout)
    ⟨_, List.mem_cons_of_mem _ (List.mem_cons_self _ _), beTrueRule_sub_chain db hA hw hww⟩
  simp only [replacements, List.mem_cons, List.mem_nil_iff, or_false] at hr
  rcases hr with rfl | rfl | rfl | rfl | rfl | rfl | rfl | rfl | rfl | rfl | rfl | rfl | rfl | rfl
  -- `carrier` before `.Should()` would be the end of `w`
  · refine .inl (habsent "carrier".toList ".BeTrue()".toList rfl fun ⟨⟨p, hp⟩, _⟩ => hc ?_)
    obtain ⟨z, -, rfl⟩ := split_of_not_mem_append hp (by decide : '.' ∉ "carrier".toList)
    exact ⟨z, rfl⟩
  · exact .inr (beTrueRule_sub_chain db hA hw hww)
  · exact .inl (hother [] ".BeFalse()".toList rfl (by decide))
  · exact .inl (hother [] ".NotBeNull()".toList rfl (by decide))
  · exact .inl (hother [] ".BeNull()".toList rfl (by decide))
  · exact .inl (hother [] ".NotBeEmpty()".toList rfl (by decide))
  · exact .inl (hother ".GetCurrentState()".toList ".Contain(".toList rfl (by decide))
  · exact .inl (hother ".GetCurrentState()".toList ".NotContain(".toList rfl (by decide))
  · exact .inl (hother [] ".HaveCount(".toList rfl (by decide))
  · exact .inl (hother [] ".Be(".toList rfl (by decide))
  · exact .inl (hother ".EventLog".toList ".Contain(".toList rfl (by decide))
  · exact .inl (hother ".GetAllJobs()".toList ".HaveCount(".toList rfl (by decide))
  · exact .inl (hother [] ".Contain(".toList rfl (by decide))
  -- `)` before `.Should()` would be the last character of `w`
  · refine .inl (habsent [')'] ".BeTrue()".toList rfl fun ⟨h, _⟩ => hnot db.word_rparen ?_)
    have hs := List.suffix_of_suffix_length_le h ((List.suffix_cons '.' w).trans
      (List.suffix_append x _)) (by simpa using List.length_pos.mpr hw)
    exact hs.subset (List.mem_singleton_self _)

end FixIntegrationTests

theorem FixIntegrationTests.word_rule_cuts_chain_sample :
    FixIntegrationTests.applyReplacements .ascii
        ("a".toList ++ '.' :: ("b".toList ++ ".Should().BeTrue()".toList)) =
      "a".toList ++ '.' :: ("Assert.True(".toList ++ ("b".toList ++ [')'])) :=
  FixIntegrationTests.word_rule_cuts_chain .ascii (by decide) (by decide) (by decide) (by decide)

end AssertMigration
