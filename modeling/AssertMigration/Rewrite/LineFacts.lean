import AssertMigration.Rewrite.Statement

/-!
# What a statement and a template contain

The occurrence facts about single lines that the rule-step proofs use. A statement
`r.Should().M(a)` holds the call literal `.Should().N(` of no other matcher
(`fluentCall_not_call`) and no `.Assert.` (`fluentCall_not_assert`), and every `.Contains(`
in it is closed at once (`fluentCall_contains_closed`). A template holds neither `.Should()`
nor `.Assert.` (`Matcher.template_not_should`, `Matcher.template_not_assert`), so no rule
that needs one of them fires on it.
-/

namespace AssertMigration

variable {r a w x y : List Char} {m : Matcher}

theorem ArgOk.chars (h : ArgOk m a) :
    '(' ∉ a ∧ ')' ∉ a ∧ ',' ∉ a ∧ ¬ "Assert".toList <:+: a := by
  unfold ArgOk at h
  split at h
  · exact ⟨h.2.1, h.2.2.1, h.2.2.2.1, h.2.2.2.2.2⟩
  · subst h; decide

theorem IsIndent.not_mem {ws : List Char} (h : IsIndent ws) {c : Char}
    (hc : isPySpace c = false) : c ∉ ws := fun hm => by simp [(h c hm).1] at hc

/-- An indentation holds no character of a literal without whitespace. -/
theorem IsIndent.not_mem_of_space {ws w : List Char} (h : IsIndent ws)
    (hw : ∀ c ∈ w, isPySpace c = false) : ∀ c ∈ ws, c ∉ w :=
  fun c hc hcw => absurd (h c hc).1 (by simp [hw c hcw])

theorem IsIndent.identStart {ws : List Char} (h : IsIndent ws) :
    ∀ c ∈ ws, identStart c = false := fun c hc => identStart_eq_false_of_isPySpace (h c hc).1

/-- A receiver chain never ends in `(`. -/
theorem Chain.not_suffix_open (h : Chain r) : ¬ w ++ ['('] <:+ r := by
  rintro ⟨p, rfl⟩
  obtain ⟨y', hy⟩ := h.paren_closed (p ++ w) [] (by simp)
  exact List.cons_ne_nil _ _ hy.symm

/-! ## Templates -/

/-- `w` neither occurs in the fixed text `P` nor starts inside it. -/
def LeftClear (w P : List Char) : Prop := ¬ w <:+: P ∧ ∀ j < w.length, 0 < j → ¬ w.take j <:+ P

instance (w P : List Char) : Decidable (LeftClear w P) :=
  inferInstanceAs (Decidable (_ ∧ _))

theorem LeftClear.not_infix_append {P : List Char} (hP : LeftClear w P) (hy : ¬ w <:+: y) :
    ¬ w <:+: P ++ y :=
  AssertMigration.not_infix_append hP.1 hy fun j hj hj0 h => absurd h (hP.2 j hj hj0)

theorem not_infix_comma_space (hsep : ',' ∉ w ∧ ' ' ∉ w) (hx : ¬ w <:+: x) (hy : ¬ w <:+: y) :
    ¬ w <:+: x ++ (", ".toList ++ y) := by
  intro h
  rcases infix_append_sep hsep.1 h with h | h
  · exact hx h
  · rcases infix_append_sep (x := []) hsep.2 h with h | h
    · exact hy (List.infix_nil.mp h ▸ List.nil_infix)
    · exact hy h

/-- The fixed texts of a shape that `w` must be clear of. -/
def AssertShape.Clear (w : List Char) : AssertShape → Prop
  | .unary x | .flipped x => LeftClear w ("Assert." ++ x ++ "(").toList
  | .count => LeftClear w "Assert.Equal(".toList
  | .compare op => LeftClear w "Assert.True(".toList ∧ ¬ w <:+: op.toList

instance (w : List Char) : (sh : AssertShape) → Decidable (sh.Clear w)
  | .unary _ | .flipped _ => inferInstanceAs (Decidable (LeftClear _ _))
  | .count => inferInstanceAs (Decidable (LeftClear _ _))
  | .compare _ => inferInstanceAs (Decidable (_ ∧ _))

/-- A literal clear of a shape's fixed texts, and absent from its receiver and argument
with what follows them, is absent from the assertion. -/
theorem AssertShape.not_infix_render {sh : AssertShape} (hsh : sh.Clear w)
    (hsep : ',' ∉ w ∧ ' ' ∉ w) (hr : ¬ w <:+: r) (hr1 : ¬ w <:+: r ++ [')'])
    (hr2 : ¬ w <:+: r ++ ".Count)".toList) (ha : ¬ w <:+: a) (ha1 : ¬ w <:+: a ++ [')']) :
    ¬ w <:+: sh.render r a := by
  cases sh with
  | unary x => exact LeftClear.not_infix_append hsh hr1
  | flipped x => exact LeftClear.not_infix_append hsh (not_infix_comma_space hsep ha hr1)
  | count => exact LeftClear.not_infix_append hsh (not_infix_comma_space hsep ha hr2)
  | compare op =>
    refine LeftClear.not_infix_append hsh.1 fun h => ?_
    rcases infix_append_sep hsep.2 h with h | h
    · exact hr h
    · rcases infix_append_sep hsep.2 h with h | h
      exacts [hsh.2 h, ha1 h]

theorem Matcher.shape_clear (m : Matcher) :
    m.shape.Clear ".Should()".toList ∧ m.shape.Clear ".Assert.".toList := by
  cases m <;> decide

theorem Chain.not_infix_should_close (hr : Chain r) : ¬ ".Should()".toList <:+: r ++ [')'] := by
  have hW : ∀ j < 9, 0 < j → ".Should()".toList.drop j <+: [')'] →
      ".Should()".toList.take j = ".Should".toList ++ ['('] := by decide
  exact not_infix_append hr.not_infix_should (by decide) fun j hj hj0 ht hd =>
    hr.not_suffix_open (hW j hj hj0 hd ▸ ht)

/-- A template holds no `.Should()`. -/
theorem Matcher.template_not_should (hr : Chain r) (ha : ArgOk m a) :
    ¬ ".Should()".toList <:+: m.assertTemplate r a := by
  have ho := ha.chars.1
  have hW : ∀ j < 9, 0 < j → ¬ ".Should()".toList.drop j <+: ".Count)".toList := by decide
  exact AssertShape.not_infix_render m.shape_clear.1 (by decide) hr.not_infix_should
    hr.not_infix_should_close
    (not_infix_append hr.not_infix_should (by decide) fun j hj hj0 _ => hW j hj hj0)
    (not_infix_of_not_mem (c := '(') (by decide) ho) (not_infix_of_not_mem (c := '(') (by decide)
      (by simpa using ho))

/-- A template holds no `.Assert.`. -/
theorem Matcher.template_not_assert (hr : Chain r) (ha : ArgOk m a) :
    ¬ ".Assert.".toList <:+: m.assertTemplate r a := by
  have hA : ¬ ".Assert.".toList <:+: a := fun h =>
    ha.chars.2.2.2 ((by decide : "Assert".toList <:+: ".Assert.".toList).trans h)
  have hC : ∀ j < 8, 0 < j → ".Assert.".toList.drop j <+: ".Count)".toList →
      ".Assert.".toList.take j = ".Assert".toList := by decide
  have hP : ∀ j < 8, 0 < j → ¬ ".Assert.".toList.drop j <+: [')'] := by decide
  exact AssertShape.not_infix_render m.shape_clear.2 (by decide) hr.not_infix_assert
    (not_infix_append hr.not_infix_assert (by decide) fun j hj hj0 _ => hP j hj hj0)
    (not_infix_append hr.not_infix_assert (by decide) fun j hj hj0 ht hd =>
      hr.not_suffix_assert (hC j hj hj0 hd ▸ ht))
    hA (not_infix_append hA (by decide) fun j hj hj0 _ => hP j hj hj0)

/-! ## Statements -/

/-- A statement holds the call literal of no other matcher. -/
theorem fluentCall_not_call {N : Matcher} (hr : Chain r) (ha : ArgOk m a) (hN : N ≠ m) :
    ¬ N.call <:+: fluentCall r m a := by
  have hS : ".Should()".toList <+: N.call := ⟨_, (Matcher.call_eq N).symm⟩
  have hU : Unbordered ".Should()".toList := by decide
  intro h
  obtain ⟨i, hi⟩ := exists_prefix_drop_of_infix h
  rw [fluentCall, Matcher.call_eq m, List.append_assoc] at hi
  rcases lt_or_le i r.length with hir | hir
  · rw [List.drop_append_of_le_length hir.le] at hi
    exact hU.not_prefix_drop_append hr.not_infix_should hir (hS.trans hi)
  obtain ⟨k, rfl⟩ := Nat.exists_eq_add_of_le hir
  rw [List.drop_append] at hi
  rcases Nat.eq_zero_or_pos k with rfl | hk
  · rw [List.drop_zero, Matcher.call_eq N] at hi
    simp only [List.append_assoc, List.prefix_append_right_inj, List.cons_append,
      List.cons_prefix_cons, true_and] at hi
    exact hN (Matcher.name_injective (eq_of_prefix_before_sep N.open_not_mem_name
      m.open_not_mem_name hi))
  rcases lt_or_le k 9 with hk9 | hk9
  · rw [List.drop_append_of_le_length (by simp; omega)] at hi
    exact hU.not_prefix_drop (by simpa using hk9) hk (hS.trans hi)
  · obtain ⟨k', rfl⟩ := Nat.exists_eq_add_of_le hk9
    rw [show 9 + k' = ".Should()".toList.length + k' from rfl, List.drop_append] at hi
    refine not_infix_of_count_lt (c := '(') ?_ (hi.isInfix.trans (List.drop_suffix _ _).isInfix)
    have hN0 := List.count_eq_zero_of_not_mem N.open_not_mem_name
    have hm0 := List.count_eq_zero_of_not_mem m.open_not_mem_name
    simp [Matcher.call_eq, List.count_eq_zero_of_not_mem ha.chars.1] at hN0 hm0 ⊢
    omega

/-- A statement holds no `.Assert.`. -/
theorem fluentCall_not_assert (hr : Chain r) (ha : ArgOk m a) :
    ¬ ".Assert.".toList <:+: fluentCall r m a := by
  have hA : ¬ ".Assert.".toList <:+: a := fun h =>
    ha.chars.2.2.2 ((by decide : "Assert".toList <:+: ".Assert.".toList).trans h)
  have hP : ∀ j < 8, 0 < j → ¬ ".Assert.".toList.drop j <+: [')'] := by decide
  have hL : ∀ j < 8, 0 < j → (".Assert.".toList.take j).getLast? ≠ some '(' := by decide
  have hD : ∀ j < 8, 0 < j → ".Assert.".toList.drop j <+: ".Should()".toList →
      ".Assert.".toList.take j = ".Assert".toList := by decide
  have hcall : m.call = (".Should()." ++ m.name).toList ++ ['('] := by simp [Matcher.call]
  refine not_infix_append hr.not_infix_assert (not_infix_append m.call_not_assert
    (not_infix_append hA (by decide) fun j hj hj0 _ => hP j hj hj0) ?_) ?_
  · intro j hj hj0 ht _
    rw [hcall] at ht
    exact not_suffix_concat (hL j hj hj0) (by simp; omega) ht
  · intro j hj hj0 ht hd
    have hS : ".Should()".toList <+: m.call ++ (a ++ [')']) := by
      rw [Matcher.call_eq, List.append_assoc]; exact List.prefix_append _ _
    have hd' : ".Assert.".toList.drop j <+: ".Should()".toList :=
      List.prefix_of_prefix_length_le hd hS (by simp; omega)
    exact hr.not_suffix_assert (hD j hj hj0 hd' ▸ ht)

/-- Every `(` of the text is followed at once by `)`. -/
def ParenOk (x : List Char) : Prop := ∀ p q, x = p ++ '(' :: q → ∃ q', q = ')' :: q'

theorem Chain.parenOk (h : Chain r) : ParenOk r := h.paren_closed

theorem parenOk_of_not_mem (h : '(' ∉ x) : ParenOk x :=
  fun p q hx => absurd (hx ▸ by simp) h

theorem ParenOk.append (hx : ParenOk x) (hy : ParenOk y) : ParenOk (x ++ y) := by
  intro p q h
  rcases List.append_eq_append_iff.mp h with ⟨a', rfl, ha⟩ | ⟨c', rfl, hc⟩
  · exact hy a' q ha
  · cases c' with
    | nil => exact hy [] q (by simpa using hc.symm)
    | cons e c'' =>
      simp only [List.cons_append, List.cons.injEq] at hc
      obtain ⟨rfl, rfl⟩ := hc
      obtain ⟨q', rfl⟩ := hx p c'' rfl
      exact ⟨q' ++ y, rfl⟩

theorem parenOk_open_close {z : List Char} (hz : '(' ∉ z) : ParenOk ('(' :: ')' :: z) := by
  intro p q h
  match p, h with
  | [], h => exact ⟨z, by simpa using h.symm⟩
  | [_], h => simp at h
  | _ :: _ :: p, h =>
    simp only [List.cons_append, List.cons.injEq] at h
    exact absurd (h.2.2 ▸ by simp) hz

/-- In a statement every `.Contains(` is closed at once. -/
theorem fluentCall_contains_closed {ind : List Char} (hi : IsIndent ind) (hr : Chain r)
    (ha : ArgOk m a) {p q : List Char}
    (h : ind ++ fluentCall r m a = p ++ (".Contains(".toList ++ q)) : ∃ q', q = ')' :: q' := by
  set X := ind ++ (r ++ (".Should()." ++ m.name).toList)
  have hX : ParenOk X := (parenOk_of_not_mem (hi.not_mem (by decide))).append
    (hr.parenOk.append (by
      rw [show (".Should()." ++ m.name).toList = ".Should".toList ++ '(' :: ')' :: '.' ::
        m.name.toList by simp]
      exact (parenOk_of_not_mem (by decide)).append (parenOk_open_close (by
        simpa using m.open_not_mem_name))))
  have hC : ¬ ".Contains".toList <:+ X := fun hs => m.not_suffix_contains
    (List.suffix_of_suffix_length_le hs ⟨ind ++ r, by simp [X]⟩ (by simp))
  have hL : ind ++ fluentCall r m a = X ++ '(' :: (a ++ [')']) := by
    simp [X, fluentCall, Matcher.call]
  rw [hL, show ".Contains(".toList ++ q = ".Contains".toList ++ '(' :: q from rfl,
    ← List.append_assoc] at h
  have ho : '(' ∉ a ++ [')'] := by simpa using ha.chars.1
  rcases List.append_eq_append_iff.mp h with ⟨c', hc, hc'⟩ | ⟨c', hc, hc'⟩
  · cases c' with
    | nil => exact absurd ⟨p, by simpa using hc⟩ hC
    | cons e c'' =>
      simp only [List.cons_append, List.cons.injEq] at hc'
      exact absurd (hc'.2 ▸ by simp) ho
  · cases c' with
    | nil => exact absurd ⟨p, by simpa using hc.symm⟩ hC
    | cons e c'' =>
      simp only [List.cons_append, List.cons.injEq] at hc'
      obtain ⟨rfl, rfl⟩ := hc'
      obtain ⟨q', rfl⟩ := hX _ c'' (by rw [hc, List.append_assoc])
      exact ⟨q' ++ '(' :: (a ++ [')']), rfl⟩

end AssertMigration
