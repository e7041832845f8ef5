import AssertMigration.Properties.Capture

/-!
# The `.Assert.` repairs of `fix_all_should.py`

`fix_all_should_patterns` ends with four repairs of calls that an earlier rule left with a
receiver in front of `Assert`. The first two turn `o.Assert.m(a, p)` into `Assert.m(a, o.p)`
for `m` one of `Contains` and `Equal`. For an identifier `o`, an identifier `p` and an
operand `a` without a comma the line comes out as intended, after any text that ends at the
start of a line and holds no `.Should()` and no `.Assert.`, and before any text
(`fixAll_requalifies_member_assert`).

## Design notes

The match is computed token by token: the lazy receiver stops at the end of the identifier
run because the literal starts with `.` (`matchToks_receiver_run`), `[^,]+` reads the whole
operand up to the comma, and the second lazy group stops before the `)`. The groups are read
back from the marks with `groupText_cons_cons`.

Outside these shapes the repairs misfire: the receiver group is one identifier, so a chain
`o₁.o₂` keeps `o₁.` in front of the call; the operand group stops at the first comma, also
one inside a nested call; and the namespace qualifier of a correct `Xunit.Assert.Equal` call
is taken for a receiver.
-/

namespace AssertMigration

variable {o a p : List Char}

/-- `o.Assert.m(a, p)` -/
def memberAssertCall (o : List Char) (m : String) (a p : List Char) : List Char :=
  o ++ ((".Assert." ++ m ++ "(").toList ++ (a ++ (", ".toList ++ (p ++ [')']))))

/-- `Assert.m(a, o.p)` -/
def requalifiedAssert (o : List Char) (m : String) (a p : List Char) : List Char :=
  ("Assert." ++ m ++ "(").toList ++ (a ++ (", ".toList ++ (o ++ '.' :: (p ++ [')']))))

/-- A repair with the pattern `memberAssertPat m` and the replacement `Assert.m(\2, \1.\3)`. -/
def Requalifies (R : Rule) (m : String) : Prop :=
  R.pat = FixAllShould.memberAssertPat m ∧
    R.tmpl = ("Assert." ++ m ++ "(").toList.map .text ++
      [.group 2, .text ',', .text ' ', .group 1, .text '.', .group 3, .text ')']

/-- The lazy receiver `([a-zA-Z_][C]*?)` before a literal that starts outside `C` reads the
whole run of class characters in front of the literal. -/
theorem matchToks_receiver_run {C : Char → Bool} {c : Char} {w s : List Char} {ts : List Tok}
    {ms : Marks} (hc : identStart c = true) (ho : ∀ e ∈ o, C e = true)
    (hw : ∀ d ∈ w.head?, C d = false) (hw0 : w ≠ []) :
    matchToks (receiver C ++ (w.map .chr ++ ts)) ms (c :: (o ++ (w ++ s))) =
      matchToks ts (ms ++ [c :: (o ++ (w ++ s)), w ++ s]) s := by
  obtain ⟨d, w, rfl⟩ := List.exists_cons_of_ne_nil hw0
  have hd : C d = false := hw d rfl
  rw [receiver_append, matchToks_mark, matchToks_cls_cons, if_pos hc, matchToks_lazyStar,
    lazy_append_of_none ho, List.cons_append, lazy_cons_stop hd]
  · simp
  · intro i hi
    have hoi : o[i] ≠ d := fun h => by simp [← h, ho _ (List.getElem_mem hi)] at hd
    rw [List.drop_eq_getElem_cons hi]
    simp only [matchToks_mark, List.map_cons, List.cons_append, matchToks_chr_cons, if_neg hoi]

theorem isIdent_cons {id : List Char} (h : isIdent id = true) :
    ∃ c t, id = c :: t ∧ identStart c = true ∧ ∀ e ∈ t, identChar e = true := by
  cases id with
  | nil => simp [isIdent] at h
  | cons c t =>
    simp only [isIdent, Bool.and_eq_true, List.all_eq_true] at h
    exact ⟨c, t, rfl, h.1, h.2⟩

/-- The repair pattern matches `o.Assert.m(a, p)`; its marks delimit `o`, `a` and `p`. -/
theorem memberAssert_match {w : List Char} (hw : w.head? = some '.') (ho : isIdent o = true)
    (hp : isIdent p = true) (ha : a ≠ []) (hac : ',' ∉ a) (y : List Char) :
    matchToks (receiver identChar ++ (w.map .chr ++ (grp (plus (notChar ',')) ++
        (str ", " ++ (receiver identChar ++ str ")"))))) []
        (o ++ (w ++ (a ++ (", ".toList ++ (p ++ ')' :: y))))) =
      some ([o ++ (w ++ (a ++ (", ".toList ++ (p ++ ')' :: y)))),
        w ++ (a ++ (", ".toList ++ (p ++ ')' :: y))), a ++ (", ".toList ++ (p ++ ')' :: y)),
        ", ".toList ++ (p ++ ')' :: y), p ++ ')' :: y, ')' :: y], y) := by
  obtain ⟨c, o, rfl, hc, ho⟩ := isIdent_cons ho
  obtain ⟨c', p, rfl, hc', hp⟩ := isIdent_cons hp
  obtain ⟨e, a, rfl⟩ := List.exists_cons_of_ne_nil ha
  have hne : ∀ d ∈ e :: a, notChar ',' d = true := fun d hd => by
    simp only [notChar, bne_iff_ne, ne_eq]; rintro rfl; exact hac hd
  have hgrp : grp (plus (notChar ',')) ++ (str ", " ++ (receiver identChar ++ str ")")) =
      .mark :: .cls (notChar ',') :: .star (notChar ',') :: .mark ::
        (", ".toList.map .chr ++ (receiver identChar ++ ([')'].map .chr ++ []))) := rfl
  rw [List.cons_append, matchToks_receiver_run hc ho (by simp [hw]; decide)
    (by rintro rfl; cases hw), hgrp, matchToks_mark, List.cons_append, matchToks_cls_cons,
    if_pos (hne e (List.mem_cons_self e a)), matchToks_star]
  refine greedy_append_of_some (fun d hd => hne d (List.mem_cons_of_mem e hd)) ?_
  show greedy _ _ (',' :: ' ' :: (c' :: (p ++ ([')'] ++ y)))) = _
  rw [greedy_cons_stop (by decide), matchToks_mark]
  show matchToks (", ".toList.map .chr ++ _) _ (", ".toList ++ c' :: (p ++ ([')'] ++ y))) = _
  rw [matchToks_chrs, matchToks_receiver_run (w := [')']) hc' hp (by decide) (by simp),
    matchToks_nil]
  simp

/-- A requalifying repair rewrites `o.Assert.m(a, p)` into `Assert.m(a, o.p)`. -/
theorem Requalifies.sub {R : Rule} {m : String} (hR : Requalifies R m) (ho : isIdent o = true)
    (hp : isIdent p = true) (ha : a ≠ []) (hac : ',' ∉ a) (y : List Char) :
    R.sub (memberAssertCall o m a p ++ y) = requalifiedAssert o m a p ++ R.sub y := by
  have h : matchToks (FixAllShould.memberAssertPat m) [] _ = _ :=
    memberAssert_match (w := (".Assert." ++ m ++ "(").toList) rfl ho hp ha hac y
  rw [← hR.1] at h
  rw [memberAssertCall, List.append_assoc, List.append_assoc, List.append_assoc,
    List.append_assoc, List.append_assoc, List.singleton_append, R.sub_of_some h, hR.2,
    expand_texts]
  simp [expand, groupText_one, groupText_cons_cons, requalifiedAssert]

/-! ## The malformed line and its repair, in any context -/

/-- A literal that starts with `.` and has no `,` or space occurs in `o.Assert.m(a, p)` only
inside `.Assert.m(` or inside `a`. -/
theorem not_infix_memberAssertCall {w : List Char} {m : String} (hw : w.head? = some '.')
    (hsep : ',' ∉ w ∧ ' ' ∉ w) (ho : isIdent o = true) (hp : isIdent p = true)
    (hF : LeftClear w (".Assert." ++ m ++ "(").toList) (ha : ¬ w <:+: a) :
    ¬ w <:+: memberAssertCall o m a p := by
  have hdot : '.' ∈ w := by
    cases w with
    | nil => cases hw
    | cons e w => simp at hw; simp [hw]
  refine not_infix_append_of_head (not_mem_of_isIdent ho (by decide)) hw
    (hF.not_infix_append (not_infix_comma_space hsep ha (not_infix_of_not_mem hdot ?_)))
  simp [not_mem_of_isIdent hp (by decide : identChar '.' = false)]

/-- `Assert.m(a, o.p)` holds no `.Assert.` when `a` holds none. -/
theorem not_assert_requalifiedAssert {m : String} (hm : m = "Contains" ∨ m = "Equal")
    (ho : isIdent o = true) (hp : isIdent p = true) (ha : ¬ ".Assert.".toList <:+: a) :
    ¬ ".Assert.".toList <:+: requalifiedAssert o m a p := by
  have hcount : (o ++ '.' :: (p ++ [')'])).count '.' < ".Assert.".toList.count '.' := by
    have h1 := List.count_eq_zero_of_not_mem (not_mem_of_isIdent ho (by decide : identChar '.' = false))
    have h2 := List.count_eq_zero_of_not_mem (not_mem_of_isIdent hp (by decide : identChar '.' = false))
    simp [List.count_append, List.count_cons, h1, h2]
  have hrest := not_infix_comma_space (by decide) ha (not_infix_of_count_lt hcount)
  rcases hm with rfl | rfl <;> exact LeftClear.not_infix_append (by decide) hrest

theorem FixAllShould.corrections_requalify : ∃ R₁ R₂ R₃ R₄, corrections = [R₁, R₂, R₃, R₄] ∧
    Requalifies R₁ "Contains" ∧ Requalifies R₂ "Equal" :=
  ⟨_, _, _, _, rfl, ⟨rfl, by decide⟩, ⟨rfl, by decide⟩⟩

/-- `fix_all_should_patterns` repairs `o.Assert.Contains(a, p);` and `o.Assert.Equal(a, p);`
into `Assert.Contains(a, o.p);` and `Assert.Equal(a, o.p);` for identifiers `o` and `p` and
an operand `a` without a comma, `.Should()` or `.Assert.`, after any text at the start of a
line without `.Should()` and `.Assert.`, and before any text. -/
theorem fixAll_requalifies_member_assert {P : List Char} {m : String}
    (hm : m = "Contains" ∨ m = "Equal") (hP : LinePrefix P) (ho : isIdent o = true)
    (hp : isIdent p = true) (ha : a ≠ []) (hac : ',' ∉ a) (haS : ¬ ".Should()".toList <:+: a)
    (haA : ¬ ".Assert.".toList <:+: a) (Q : List Char) :
    FixAllShould.fixAllShouldPatterns (P ++ (memberAssertCall o m a p ++ ';' :: Q)) =
      P ++ (requalifiedAssert o m a p ++ ';' :: FixAllShould.fixAllShouldPatterns Q) := by
  obtain ⟨R₁, R₂, R₃, R₄, hc, h₁, h₂⟩ := FixAllShould.corrections_requalify
  have hmem : ∀ R ∈ [R₁, R₂, R₃, R₄], R ∈ FixAllShould.corrections := fun R h => hc ▸ h
  have hI := FixAllShould.corrections_inert_line hP
  have hL : ¬ ".Should()".toList <:+: memberAssertCall o m a p := by
    rcases hm with rfl | rfl <;>
      exact not_infix_memberAssertCall rfl (by decide) ho hp (by decide) haS
  have hL' := not_assert_requalifiedAssert hm ho hp haA
  have hsemi : ∀ R ∈ FixAllShould.corrections, ∀ y, R.sub (';' :: y) = ';' :: R.sub y :=
    fun R hR y => FixAllShould.corrections_sub_inert (P := []) (L := []) hR
      (fun _ hi => absurd hi (Nat.not_lt_zero _)) (by decide) y
  -- the repair for `m` fires at `o`, the others copy the repaired line
  have hfire : ∀ R, Requalifies R m → R ∈ FixAllShould.corrections → ∀ y,
      R.sub (P ++ (memberAssertCall o m a p ++ ';' :: y)) =
        P ++ (requalifiedAssert o m a p ++ ';' :: R.sub y) := fun R hR hRc y => by
    rw [R.sub_append_of_inert (hI R hRc), hR.sub ho hp ha hac, hsemi R hRc]
  have hcopy : ∀ R ∈ [R₁, R₂, R₃, R₄], ∀ y,
      R.sub (P ++ (requalifiedAssert o m a p ++ ';' :: y)) =
        P ++ (requalifiedAssert o m a p ++ ';' :: R.sub y) :=
    fun R hR y => FixAllShould.corrections_sub_inert (hmem R hR) (hI R (hmem R hR)) hL' y
  rw [FixAllShould.fixAllShouldPatterns, applyAll_append,
    ShouldSpec.applyAll_statement_inert FixAllShould.shouldSpecs_fit
      (ShouldSpec.inert_line FixAllShould.shouldSpecs_fit FixAllShould.shouldSpecs_plain
        hP.line_start hP.not_should) hL, hc]
  simp only [applyAll_cons, applyAll_nil]
  rcases hm with rfl | rfl
  · rw [hfire R₁ h₁ (hmem _ (by simp)), hcopy R₂ (by simp), hcopy R₃ (by simp),
      hcopy R₄ (by simp), FixAllShould.fixAllShouldPatterns, applyAll_append, hc]
    simp only [applyAll_cons, applyAll_nil]
  · have hA : ".Assert.".toList <:+: (".Assert." ++ "Contains" ++ "(").toList := by decide
    have hw1 : ¬ (".Assert." ++ "Contains" ++ "(").toList <:+: memberAssertCall o "Equal" a p :=
      not_infix_memberAssertCall rfl (by decide) ho hp (by decide) fun h => haA (hA.trans h)
    rw [R₁.sub_statement_of_inert (C := identChar) (w := (".Assert." ++ "Contains" ++ "(").toList)
        (hI R₁ (hmem _ (by simp))) h₁.1 (by decide) (by decide) hw1,
      hfire R₂ h₂ (hmem _ (by simp)), hcopy R₃ (by simp), hcopy R₄ (by simp),
      FixAllShould.fixAllShouldPatterns, applyAll_append, hc]
    simp only [applyAll_cons, applyAll_nil]

/-- The repair of `actor.Assert.Contains("x", log);` on the line after a statement with a
ternary. -/
theorem fixAll_requalifies_member_assert_sample :
    FixAllShould.fixAllShouldPatterns ("var y = c ? 1 : 2;\n    ".toList ++
        (memberAssertCall "actor".toList "Contains" "\"x\"".toList "log".toList ++ ';' :: [])) =
      "var y = c ? 1 : 2;\n    ".toList ++
        (requalifiedAssert "actor".toList "Contains" "\"x\"".toList "log".toList ++
          ';' :: FixAllShould.fixAllShouldPatterns []) :=
  fixAll_requalifies_member_assert (P := "var y = c ? 1 : 2;\n    ".toList) (o := "actor".toList)
    (a := "\"x\"".toList) (p := "log".toList) (.inl rfl) (by decide) rfl rfl (by decide)
    (by decide) (by decide) (by decide) []

/-- The receiver group of the repairs is one identifier and the operand group stops at the
first comma: a chain `a.b` keeps `a.` in front, and an operand `f(x, y)` is split. -/
theorem fixAll_requalify_splits_chain_and_operand :
    FixAllShould.fixAllShouldPatterns "a.b.Assert.Contains(x, p);".toList =
      "a.Assert.Contains(x, b.p);".toList ∧
    FixAllShould.fixAllShouldPatterns "o.Assert.Contains(f(x, y), p);".toList =
      "Assert.Contains(f(x, o.y), p);".toList := by
  simp only [FixAllShould.fixAllShouldPatterns_eq_skipping]
  decide

/-- The `Equal` repair also fires on a correct assertion whose `Assert` is qualified by its
namespace, and moves the namespace onto the second operand. -/
theorem fixAll_requalifies_xunit_qualifier :
    FixAllShould.fixAllShouldPatterns "\nXunit.Assert.Equal(1, x);\n".toList =
      "\nAssert.Equal(1, Xunit.x);\n".toList := by
  rw [FixAllShould.fixAllShouldPatterns_eq_skipping]
  decide

end AssertMigration
