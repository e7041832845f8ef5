import AssertMigration.Rewrite.ShouldStep
import AssertMigration.Rewrite.LineScan
import AssertMigration.Properties.TargetedRules
import AssertMigration.Scripts.Walk
import Mathlib.Tactic.IntervalCases

/-!
# The statements `fix_integration_tests.py` migrates

`replacements` is written for statements whose receiver is one word `\w+`: the argument-less
matchers `BeTrue`, `BeFalse`, `NotBeNull`, `BeNull` and `NotBeEmpty`; `Contain` and
`NotContain` on `GetCurrentState()`; `HaveCount` and `Be` with a count; `Contain` on the word
and on its `EventLog`; `HaveCount` on `GetAllJobs()`; and `HasMapping("a", "b")` that should be
true. On a test file of such statements, one a line after an indentation and ended by `;`,
between any lines that spell neither `.Should()` nor `.HasMapping(`, the list of replacements
rewrites every statement into the assertion of its template and leaves every other line as it
was (`applyReplacements_migrates`).

## Main definitions

- `Stmt`, `Stmt.text`, `Stmt.migrated`: a statement as written, and the assertion the
  template of its rule writes for it.
- `Stmt.rule`: the index in `replacements` of the rule written for the statement.
- `LineOk`: the lines of a test file the table is written for.
- `Stmt.after j`: a statement once the first `j` rules ran.

## Main results

- `Stmt.sub_fire`: the rule written for a statement rewrites it.
- `Stmt.sub_text`, `sub_of_absent`: every other rule leaves it, and code, alone.
- `sub_line`: the step, rule `j` on one line; `applyAll_lines` runs the steps.
- `applyReplacements_migrates`: the whole table on a test file.

## Design notes

Each rule acts on the buffer line by line (`Rule.sub_joinLines_ends`). A `\w+` rule starts a match
only at a word right before its literal (`wordGrp_split`), and the literal of every rule but
the `HasMapping` one spells `.Should()` (`replacements_lit`). A statement spells `.Should()`
once, so an occurrence of a rule's literal in it lines up with that one (`Stmt.aligned`), and
the literals around `.Should()` tell the rules apart (`shouldLit`). A migrated statement
spells `.Should()` nowhere, and `.HasMapping(` only when it is a `HasMapping` one. The text of
a string argument holds no `(`: every literal has one and none has a `"`, so none can start
inside a string.
-/

namespace AssertMigration

namespace FixIntegrationTests

variable (db : UnicodeDb)

/-! ## The statements -/

/-- The statements `replacements` is written for; `w` is the receiver word. -/
inductive Stmt where
  /-- `w.Should().BeTrue()` -/
  | beTrue (w : List Char)
  /-- `w.Should().BeFalse()` -/
  | beFalse (w : List Char)
  /-- `w.Should().NotBeNull()` -/
  | notBeNull (w : List Char)
  /-- `w.Should().BeNull()` -/
  | beNull (w : List Char)
  /-- `w.Should().NotBeEmpty()` -/
  | notBeEmpty (w : List Char)
  /-- `w.GetCurrentState().Should().Contain("s")` -/
  | stateContains (w s : List Char)
  /-- `w.GetCurrentState().Should().NotContain("s")` -/
  | stateNotContains (w s : List Char)
  /-- `w.Should().HaveCount(n)` -/
  | haveCount (w n : List Char)
  /-- `w.Should().Be(n)` -/
  | beNumber (w n : List Char)
  /-- `w.EventLog.Should().Contain("s")` -/
  | eventLogContains (w s : List Char)
  /-- `w.GetAllJobs().Should().HaveCount(n)` -/
  | jobsHaveCount (w n : List Char)
  /-- `w.Should().Contain("s")` -/
  | contains (w s : List Char)
  /-- `w.HasMapping("a", "b").Should().BeTrue()` -/
  | hasMapping (w a b : List Char)

/-- The statement as written. -/
def Stmt.text : Stmt → List Char
  | .beTrue w => w ++ ".Should().BeTrue()".toList
  | .beFalse w => w ++ ".Should().BeFalse()".toList
  | .notBeNull w => w ++ ".Should().NotBeNull()".toList
  | .beNull w => w ++ ".Should().BeNull()".toList
  | .notBeEmpty w => w ++ ".Should().NotBeEmpty()".toList
  | .stateContains w s =>
    w ++ (".GetCurrentState().Should().Contain(".toList ++ (quoted s ++ [')']))
  | .stateNotContains w s =>
    w ++ (".GetCurrentState().Should().NotContain(".toList ++ (quoted s ++ [')']))
  | .haveCount w n => w ++ (".Should().HaveCount(".toList ++ (n ++ [')']))
  | .beNumber w n => w ++ (".Should().Be(".toList ++ (n ++ [')']))
  | .eventLogContains w s => w ++ (".EventLog.Should().Contain(".toList ++ (quoted s ++ [')']))
  | .jobsHaveCount w n => w ++ (".GetAllJobs().Should().HaveCount(".toList ++ (n ++ [')']))
  | .contains w s => w ++ (".Should().Contain(".toList ++ (quoted s ++ [')']))
  | .hasMapping w a b => w ++ (".HasMapping(".toList ++ (quoted a ++ (", ".toList ++
      (quoted b ++ ").Should().BeTrue()".toList))))

/-- The assertion the template of the statement's rule writes. -/
def Stmt.migrated : Stmt → List Char
  | .beTrue w => "Assert.True(".toList ++ (w ++ [')'])
  | .beFalse w => "Assert.False(".toList ++ (w ++ [')'])
  | .notBeNull w => "Assert.NotNull(".toList ++ (w ++ [')'])
  | .beNull w => "Assert.Null(".toList ++ (w ++ [')'])
  | .notBeEmpty w => "Assert.NotEmpty(".toList ++ (w ++ [')'])
  | .stateContains w s => "Assert.Contains(".toList ++ (quoted s ++ (", ".toList ++
      (w ++ ".GetCurrentState())".toList)))
  | .stateNotContains w s => "Assert.DoesNotContain(".toList ++ (quoted s ++ (", ".toList ++
      (w ++ ".GetCurrentState())".toList)))
  | .haveCount w n => "Assert.Equal(".toList ++ (n ++ (", ".toList ++ (w ++ ".Count)".toList)))
  | .beNumber w n => "Assert.Equal(".toList ++ (n ++ (", ".toList ++ (w ++ [')'])))
  | .eventLogContains w s => "Assert.Contains(".toList ++ (quoted s ++ (", ".toList ++
      (w ++ ".EventLog)".toList)))
  | .jobsHaveCount w n => "Assert.Equal(".toList ++ (n ++ (", ".toList ++
      (w ++ ".GetAllJobs().Count)".toList)))
  | .contains w s => "Assert.Contains(".toList ++ (quoted s ++ (", ".toList ++ (w ++ [')'])))
  | .hasMapping w a b => "Assert.True(".toList ++ (w ++ (".HasMapping(".toList ++ (quoted a ++
      (", ".toList ++ (quoted b ++ "))".toList)))))

/-- The index in `replacements` of the rule written for the statement: `carrier` has a rule
of its own before the `\w+` rule for `BeTrue`. -/
def Stmt.rule : Stmt → Nat
  | .beTrue w => if w = "carrier".toList then 0 else 1
  | .beFalse _ => 2
  | .notBeNull _ => 3
  | .beNull _ => 4
  | .notBeEmpty _ => 5
  | .stateContains _ _ => 6
  | .stateNotContains _ _ => 7
  | .haveCount _ _ => 8
  | .beNumber _ _ => 9
  | .eventLogContains _ _ => 10
  | .jobsHaveCount _ _ => 11
  | .contains _ _ => 12
  | .hasMapping _ _ _ => 13

/-- A receiver: `\w+`. -/
def IsWord (w : List Char) : Prop := w ≠ [] ∧ ∀ c ∈ w, db.word c = true

/-- The statement fits its rule: a receiver word, which for `BeTrue` is `carrier` or does
not end in it, string texts and counts. -/
def Stmt.Ok : Stmt → Prop
  | .beTrue w => IsWord db w ∧ (w = "carrier".toList ∨ ¬ "carrier".toList <:+ w)
  | .beFalse w | .notBeNull w | .beNull w | .notBeEmpty w => IsWord db w
  | .stateContains w s | .stateNotContains w s | .eventLogContains w s | .contains w s =>
    IsWord db w ∧ IsText s
  | .haveCount w n | .beNumber w n | .jobsHaveCount w n => IsWord db w ∧ IsCount db n
  | .hasMapping w a b => IsWord db w ∧ IsText a ∧ IsText b

/-- Text of no `\w` character: indentation, blank lines, braces. -/
def NonWord (x : List Char) : Prop := ∀ c ∈ x, db.word c = false

instance (w : List Char) : Decidable (IsWord db w) := inferInstanceAs (Decidable (_ ∧ _))

instance (x : List Char) : Decidable (NonWord db x) := inferInstanceAs (Decidable (∀ c ∈ x, _))

instance : (st : Stmt) → Decidable (st.Ok db)
  | .beTrue w => inferInstanceAs (Decidable (IsWord db w ∧ _))
  | .beFalse w | .notBeNull w | .beNull w | .notBeEmpty w => inferInstanceAs (Decidable (IsWord db w))
  | .stateContains w s | .stateNotContains w s | .eventLogContains w s | .contains w s =>
    inferInstanceAs (Decidable (IsWord db w ∧ IsText s))
  | .haveCount w n | .beNumber w n | .jobsHaveCount w n =>
    inferInstanceAs (Decidable (IsWord db w ∧ IsCount db n))
  | .hasMapping w a b => inferInstanceAs (Decidable (IsWord db w ∧ IsText a ∧ IsText b))

theorem Stmt.rule_le_thirteen : ∀ st : Stmt, st.rule ≤ 13 := by
  intro st
  cases st <;> simp only [Stmt.rule]
  all_goals first | omega | (split <;> omega)

/-! ## Where the rules can start a match -/

theorem IsWord.not_mem {w : List Char} (h : IsWord db w) {d : Char} (hd : db.word d = false) :
    d ∉ w := fun hw => by rw [h.2 d hw] at hd; cases hd

/-- Every rule of the list is the `carrier` literal or starts with `(\w+)`. -/
theorem replacements_pat :
    ∀ R ∈ replacements db, R.pat = str "carrier.Should().BeTrue()" ∨ ∃ ts, R.pat = wordGrp db ++ ts := by
  intro R hR
  simp only [replacements, List.mem_cons, List.mem_nil_iff, or_false] at hR
  rcases hR with rfl | rfl | rfl | rfl | rfl | rfl | rfl | rfl | rfl | rfl | rfl | rfl | rfl | rfl
  exacts [.inl rfl, .inr ⟨_, rfl⟩, .inr ⟨_, rfl⟩, .inr ⟨_, rfl⟩, .inr ⟨_, rfl⟩, .inr ⟨_, rfl⟩,
    .inr ⟨_, rfl⟩, .inr ⟨_, rfl⟩, .inr ⟨_, rfl⟩, .inr ⟨_, rfl⟩, .inr ⟨_, rfl⟩, .inr ⟨_, rfl⟩,
    .inr ⟨_, rfl⟩, .inr ⟨_, rfl⟩]

/-- No rule starts a match at a character outside `\w`. -/
theorem sub_append_of_nonword {R : Rule} (hR : R ∈ replacements db) {x : List Char}
    (hx : ∀ c ∈ x, db.word c = false) (y : List Char) : R.sub (x ++ y) = x ++ R.sub y := by
  rcases replacements_pat db R hR with hp | ⟨ts, hp⟩
  · exact R.sub_append_of_head (d := 'c') hp fun h =>
      absurd (hx 'c' h) (by rw [db.word_eq_true (by decide)]; decide)
  · refine R.sub_append_of_none fun i hi => ?_
    rw [List.drop_eq_getElem_cons hi, List.cons_append, hp]
    simp [wordGrp, grp, plus, hx _ (List.getElem_mem hi)]

/-- A `(\w+)` group followed by a literal matches only a word right before the literal. -/
theorem wordGrp_split {L z : List Char} {ts : List Tok} {ms : Marks} {r : Marks × List Char}
    (h : matchToks (wordGrp db ++ (L.map .chr ++ ts)) ms z = some r) :
    ∃ v u, z = v ++ (L ++ u) ∧ v ≠ [] ∧ ∀ c ∈ v, db.word c = true := by
  obtain ⟨c, v, s, rfl, hc, hv, hs⟩ := matchToks_run_some h
  obtain ⟨u, rfl, -⟩ := matchToks_chrs_some hs
  exact ⟨c :: v, u, rfl, List.cons_ne_nil c v, List.forall_mem_cons.mpr ⟨hc, hv⟩⟩

/-- A `(\w+)` rule starts no match in a line whose text holds its literal after no word
character, when the line ends in a character outside `\w` and the literal lacks it. -/
theorem wordRule_sub_ends {R : Rule} {L : List Char} {ts : List Tok}
    (hp : R.pat = wordGrp db ++ (L.map .chr ++ ts)) {d : Char} (hL : d ∉ L)
    (hd : db.word d = false) {B y : List Char} (hB : ∀ c, db.word c = true → ¬ c :: L <:+: B)
    (hy : Ends d y) : R.sub (B ++ y) = B ++ R.sub y := by
  refine R.sub_append_of_none fun i _ => ?_
  cases hm : matchToks R.pat [] (B.drop i ++ y) with
  | none => rfl
  | some r =>
    rw [hp] at hm
    obtain ⟨v, u, hv, hv0, hw⟩ := wordGrp_split db hm
    have hdv : d ∉ v ++ L := by
      simp only [List.mem_append, not_or]
      exact ⟨fun h => Bool.false_ne_true (hd.symm.trans (hw d h)), hL⟩
    have hpre : v ++ L <+: B.drop i :=
      prefix_of_prefix_append_ends hdv hy ⟨u, by rw [hv, List.append_assoc]⟩
    obtain ⟨v', c, rfl⟩ := List.eq_nil_or_concat v |>.resolve_left hv0
    have hc : c :: L <:+: v'.concat c ++ L := ⟨v', [], by simp⟩
    exact absurd (hc.trans (hpre.isInfix.trans (List.drop_suffix i B).isInfix))
      (hB c (hw c (by simp)))

/-! ## A statement spells `.Should()` once -/

/-- The receiver of a statement. -/
def Stmt.recv : Stmt → List Char
  | .beTrue w | .beFalse w | .notBeNull w | .beNull w | .notBeEmpty w => w
  | .stateContains w _ | .stateNotContains w _ | .eventLogContains w _ | .contains w _ => w
  | .haveCount w _ | .beNumber w _ | .jobsHaveCount w _ => w
  | .hasMapping w _ _ => w

/-- What a statement spells between its receiver and `.Should()`. -/
def Stmt.mid : Stmt → List Char
  | .stateContains _ _ | .stateNotContains _ _ => ".GetCurrentState()".toList
  | .eventLogContains _ _ => ".EventLog".toList
  | .jobsHaveCount _ _ => ".GetAllJobs()".toList
  | .hasMapping _ a b => ".HasMapping(".toList ++ (quoted a ++ (", ".toList ++ (quoted b ++ [')'])))
  | _ => []

/-- What a statement spells after `.Should()`. -/
def Stmt.tail : Stmt → List Char
  | .beTrue _ => ".BeTrue()".toList
  | .beFalse _ => ".BeFalse()".toList
  | .notBeNull _ => ".NotBeNull()".toList
  | .beNull _ => ".BeNull()".toList
  | .notBeEmpty _ => ".NotBeEmpty()".toList
  | .stateContains _ s => ".Contain(".toList ++ (quoted s ++ [')'])
  | .stateNotContains _ s => ".NotContain(".toList ++ (quoted s ++ [')'])
  | .haveCount _ n => ".HaveCount(".toList ++ (n ++ [')'])
  | .beNumber _ n => ".Be(".toList ++ (n ++ [')'])
  | .eventLogContains _ s => ".Contain(".toList ++ (quoted s ++ [')'])
  | .jobsHaveCount _ n => ".HaveCount(".toList ++ (n ++ [')'])
  | .contains _ s => ".Contain(".toList ++ (quoted s ++ [')'])
  | .hasMapping _ _ _ => ".BeTrue()".toList

theorem Stmt.text_eq (st : Stmt) :
    st.text = st.recv ++ (st.mid ++ (".Should()".toList ++ st.tail)) := by
  cases st <;> first | rfl | simp [Stmt.text, Stmt.recv, Stmt.mid, Stmt.tail]

variable {db} {st : Stmt}

theorem Stmt.Ok.recv (hst : st.Ok db) : IsWord db st.recv := by
  cases st <;> simp only [Stmt.Ok] at hst <;> first | exact hst | exact hst.1

theorem Stmt.not_should_before (hst : st.Ok db) : ¬ ".Should()".toList <:+: st.recv ++ st.mid := by
  refine not_infix_append_of_head (hst.recv.not_mem db db.word_dot) rfl ?_
  cases st <;> simp only [Stmt.mid] <;> try decide
  obtain ⟨-, ha, hb⟩ := hst
  exact not_infix_lit_append (by decide) (not_infix_quoted (x := []) (by decide) (by decide)
    ha.2.2 (by decide) (not_infix_lit_append (by decide) (not_infix_quoted (x := [])
      (by decide) (by decide) hb.2.2 (by decide) (by decide))))

theorem Stmt.not_should_tail (hst : st.Ok db) :
    ¬ ".Should()".toList <:+: (".Should()".toList ++ st.tail).tail := by
  show ¬ _ <:+: "Should()".toList ++ st.tail
  cases st <;> simp only [Stmt.tail, Stmt.Ok] at hst ⊢ <;> try decide
  all_goals first
    | (rw [← List.append_assoc]
       exact not_infix_quoted (x := _ ++ _) (by decide) (by decide) hst.2.2.2 (by decide) (by decide))
    | (rw [← List.append_assoc]
       refine not_infix_lit_append (by decide) (not_infix_of_not_mem (c := '.') (by decide) ?_)
       simpa using fun h => absurd (hst.2.2 '.' h) (by simp [db.isDecimal_eq_false (c := '.') (by decide)]))

/-- An occurrence of a literal around `.Should()` in a statement lines up with the
statement's own `.Should()`. -/
theorem Stmt.aligned (hst : st.Ok db) {P Q : List Char}
    (h : P ++ (".Should()".toList ++ Q) <:+: st.text) :
    P <:+ st.recv ++ st.mid ∧ Q <+: st.tail := by
  rw [st.text_eq, ← List.append_assoc st.recv] at h
  exact (by decide : Unbordered ".Should()".toList).aligned (st.not_should_before hst)
    (st.not_should_tail hst) h

/-! ## A migrated statement spells no literal -/

theorem not_infix_assert_recv {W X w : List Char}
    (hX : ¬ W <:+: X ∧ ∀ j < W.length, 0 < j → ¬ W.take j <:+ X) (hd : '.' ∈ W) (hw : '.' ∉ w) :
    ¬ W <:+: X ++ (w ++ [')']) :=
  not_infix_lit_append hX (not_infix_of_not_mem hd (by simpa using hw))

theorem not_infix_assert_quoted {W X s w Z : List Char} (hW : W.head? = some '.')
    (hq : '"' ∉ W) (hp : '(' ∈ W) (hX : ¬ W <:+: X) (hs : '(' ∉ s) (hw : '.' ∉ w)
    (hZ : ¬ W <:+: Z) : ¬ W <:+: X ++ (quoted s ++ (", ".toList ++ (w ++ Z))) := by
  refine not_infix_quoted hq hp hs hX ?_
  rw [← List.append_assoc]
  exact not_infix_append_of_head (by simpa using hw) hW hZ

theorem not_infix_assert_count {W X n w Z : List Char} (hW : W.head? = some '.')
    (hX : ¬ W <:+: X ∧ ∀ j < W.length, 0 < j → ¬ W.take j <:+ X) (hn : '.' ∉ n) (hw : '.' ∉ w)
    (hZ : ¬ W <:+: Z) : ¬ W <:+: X ++ (n ++ (", ".toList ++ (w ++ Z))) := by
  refine not_infix_lit_append hX ?_
  rw [← List.append_assoc, ← List.append_assoc]
  exact not_infix_append_of_head (by simp [hn, hw]) hW hZ

/-- A literal that starts with `.`, has a `(` and no `"`, and fits none of the literal pieces
of the assertions occurs in no migrated statement but a `HasMapping` one. -/
theorem Stmt.not_infix_migrated {W : List Char} (hW : W.head? = some '.') (hq : '"' ∉ W)
    (hp : '(' ∈ W)
    (hA : ∀ X ∈ ["Assert.True(", "Assert.False(", "Assert.NotNull(", "Assert.Null(",
      "Assert.NotEmpty(", "Assert.Equal(", "Assert.Contains(", "Assert.DoesNotContain("].map
        String.toList, ¬ W <:+: X ∧ ∀ j < W.length, 0 < j → ¬ W.take j <:+ X)
    (hT : ∀ X ∈ [")", ".GetCurrentState())", ".EventLog)", ".Count)", ".GetAllJobs().Count)"].map
        String.toList, ¬ W <:+: X)
    (hst : st.Ok db) (h13 : st.rule < 13) : ¬ W <:+: st.migrated := by
  have hd := List.mem_of_mem_head? hW
  have hwd : '.' ∉ st.recv := hst.recv.not_mem db db.word_dot
  cases st <;> simp only [Stmt.migrated, Stmt.recv, Stmt.rule, Stmt.Ok] at hst hwd h13 ⊢
  · exact not_infix_assert_recv (hA _ (by decide)) hd hwd
  · exact not_infix_assert_recv (hA _ (by decide)) hd hwd
  · exact not_infix_assert_recv (hA _ (by decide)) hd hwd
  · exact not_infix_assert_recv (hA _ (by decide)) hd hwd
  · exact not_infix_assert_recv (hA _ (by decide)) hd hwd
  · exact not_infix_assert_quoted hW hq hp (hA _ (by decide)).1 hst.2.2.2 hwd (hT _ (by decide))
  · exact not_infix_assert_quoted hW hq hp (hA _ (by decide)).1 hst.2.2.2 hwd (hT _ (by decide))
  · exact not_infix_assert_count hW (hA _ (by decide)) hst.2.not_mem_dot hwd (hT _ (by decide))
  · exact not_infix_assert_count hW (hA _ (by decide)) hst.2.not_mem_dot hwd (hT _ (by decide))
  · exact not_infix_assert_quoted hW hq hp (hA _ (by decide)).1 hst.2.2.2 hwd (hT _ (by decide))
  · exact not_infix_assert_count hW (hA _ (by decide)) hst.2.not_mem_dot hwd (hT _ (by decide))
  · exact not_infix_assert_quoted hW hq hp (hA _ (by decide)).1 hst.2.2.2 hwd (hT _ (by decide))
  · omega

theorem Stmt.not_should_migrated (hst : st.Ok db) : ¬ ".Should()".toList <:+: st.migrated := by
  by_cases h13 : st.rule < 13
  · exact st.not_infix_migrated rfl (by decide) (by decide) (by decide) (by decide) hst h13
  · cases st <;> simp only [Stmt.rule] at h13
    all_goals first | omega | (split at h13 <;> omega) | skip
    obtain ⟨hw, ha, hb⟩ := hst
    refine not_infix_lit_append (by decide)
      (not_infix_append_of_head (hw.not_mem db db.word_dot) rfl ?_)
    exact not_infix_quoted (by decide) (by decide) ha.2.2 (by decide)
      (not_infix_lit_append (by decide) (not_infix_quoted (x := []) (by decide) (by decide)
        hb.2.2 (by decide) (by decide)))

theorem Stmt.not_hasMapping_migrated (hst : st.Ok db) (h13 : st.rule < 13) :
    ¬ ".HasMapping(".toList <:+: st.migrated :=
  st.not_infix_migrated rfl (by decide) (by decide) (by decide) (by decide) hst h13

/-! ## The groups read their whole argument -/

theorem matchToks_wordGrp {ts : List Tok} {ms : Marks} {r : Marks × List Char} {w L t : List Char}
    (hw : IsWord db w) {d : Char} {L' : List Char}
    (hL : L = d :: L') (hd : db.word d = false)
    (h : matchToks ts (ms ++ [w ++ (L ++ t), L ++ t]) t = some r) :
    matchToks (wordGrp db ++ (L.map .chr ++ ts)) ms (w ++ (L ++ t)) = some r := by
  subst hL
  exact matchToks_plusGrp hw hd ((matchToks_chrs (d :: L')).trans h)

/-! ## A rule rewrites the statement it is written for -/

variable {R : Rule} {L L' w t : List Char}

/-- `(\w+)L` with template `X(\1)`. -/
theorem sub_fire_unary {X : List Char} (hp : R.pat = wordGrp db ++ L.map .chr)
    (ht : R.tmpl = X.map .text ++ [.group 1, .text ')']) (hL : L = '.' :: L') (hw : IsWord db w) :
    R.sub (w ++ (L ++ t)) = X ++ (w ++ [')']) ++ R.sub t := by
  rw [R.sub_of_some (by
      rw [hp, ← List.append_nil (L.map Tok.chr)]
      exact matchToks_wordGrp (r := (_, t)) hw hL db.word_dot rfl), ht]
  simp [expand_texts, groupText_one, expand]

/-- `(\w+)L"([^"]+)"\)` with template `X"\2", \1Z`. -/
theorem sub_fire_quoted {X Z s : List Char}
    (hp : R.pat = wordGrp db ++ (L.map .chr ++ (quotedGrp ++ str ")")))
    (ht : R.tmpl = X.map .text ++ .text '"' :: .group 2 :: .text '"' :: .text ',' :: .text ' ' ::
      .group 1 :: Z.map .text) (hL : L = '.' :: L') (hw : IsWord db w) (hs : IsText s) :
    R.sub (w ++ (L ++ (quoted s ++ ')' :: t))) =
      X ++ (quoted s ++ (", ".toList ++ (w ++ Z))) ++ R.sub t := by
  rw [R.sub_of_some (by
      rw [hp]
      exact matchToks_wordGrp hw hL db.word_dot (matchToks_quotedGrp (r := (_, t)) hs rfl)), ht]
  simp [expand_texts, groupText_one, groupText_cons_cons, expand]

/-- `(\w+)L(\d+)\)` with template `Assert.Equal(\2, \1Z`. -/
theorem sub_fire_count {Z n : List Char}
    (hp : R.pat = wordGrp db ++ (L.map .chr ++ (digitsGrp db ++ str ")")))
    (ht : R.tmpl = "Assert.Equal(".toList.map .text ++ .group 2 :: .text ',' :: .text ' ' ::
      .group 1 :: Z.map .text) (hL : L = '.' :: L') (hw : IsWord db w) (hn : IsCount db n) :
    R.sub (w ++ (L ++ (n ++ ')' :: t))) =
      "Assert.Equal(".toList ++ (n ++ (", ".toList ++ (w ++ Z))) ++ R.sub t := by
  rw [R.sub_of_some (by
      rw [hp]
      exact matchToks_wordGrp hw hL db.word_dot
        (matchToks_plusGrp (r := (_, t)) hn (db.isDecimal_eq_false (by decide)) rfl)), ht]
  simp [expand_texts, groupText_one, groupText_cons_cons, expand]

/-- `(\w+)\.HasMapping\("([^"]+)", "([^"]+)"\)\.Should\(\)\.BeTrue\(\)` with template
`Assert.True(\1.HasMapping("\2", "\3"))`. -/
theorem sub_fire_mapping {a b : List Char}
    (hp : R.pat = wordGrp db ++ (str ".HasMapping(" ++ (quotedGrp ++ (str ", " ++
      (quotedGrp ++ str ").Should().BeTrue()")))))
    (ht : R.tmpl = "Assert.True(".toList.map .text ++ .group 1 :: (".HasMapping(\"".toList.map .text ++
      .group 2 :: ("\", \"".toList.map .text ++ .group 3 :: "\"))".toList.map .text)))
    (hw : IsWord db w) (ha : IsText a) (hb : IsText b) :
    R.sub ((Stmt.hasMapping w a b).text ++ t) = (Stmt.hasMapping w a b).migrated ++ R.sub t := by
  rw [Stmt.text]
  simp only [List.append_assoc]
  rw [R.sub_of_some (by
      rw [hp]
      exact matchToks_wordGrp (L := ".HasMapping(".toList) hw rfl db.word_dot
        (matchToks_quotedGrp ha ((matchToks_chrs ", ".toList).trans
          (matchToks_quotedGrp hb (matchToks_chrs_nil (s := t) ").Should().BeTrue()".toList))))), ht]
  simp [expand_texts, groupText_one, groupText_cons_cons, expand, Stmt.migrated, quoted]

/-- The rule written for a statement rewrites it into its assertion. -/
theorem Stmt.sub_fire {st : Stmt} (hst : st.Ok db) (hR : (replacements db)[st.rule]? = some R)
    (t : List Char) : R.sub (st.text ++ t) = st.migrated ++ R.sub t := by
  cases st with
  | beTrue w =>
    by_cases hc : w = "carrier".toList
    · subst hc
      simp only [Stmt.rule, if_true] at hR
      cases hR
      have hm : matchToks (str "carrier.Should().BeTrue()") []
          ((Stmt.beTrue "carrier".toList).text ++ t) = some ([], t) :=
        matchToks_chrs_nil (w := "carrier.Should().BeTrue()".toList)
      rw [Rule.sub_of_some _ hm]
      rfl
    · simp only [Stmt.rule, if_neg hc] at hR
      cases hR
      rw [Stmt.text, List.append_assoc]
      exact sub_fire_unary rfl rfl rfl hst.1
  | beFalse w | notBeNull w | beNull w | notBeEmpty w =>
    cases hR
    rw [Stmt.text, List.append_assoc]
    exact sub_fire_unary rfl rfl rfl hst
  | stateContains w s | stateNotContains w s | eventLogContains w s | contains w s =>
    cases hR
    rw [Stmt.text, List.append_assoc, List.append_assoc, List.append_assoc, List.singleton_append]
    exact sub_fire_quoted rfl rfl rfl hst.1 hst.2
  | haveCount w n | beNumber w n | jobsHaveCount w n =>
    cases hR
    rw [Stmt.text, List.append_assoc, List.append_assoc, List.append_assoc, List.singleton_append]
    exact sub_fire_count rfl rfl rfl hst.1 hst.2
  | hasMapping w a b =>
    cases hR
    exact sub_fire_mapping rfl rfl hst.1 hst.2.1 hst.2.2

/-! ## The rules leave alone what is not theirs -/

/-- What rule `j` of `replacements` spells before and after `.Should()` in its first literal:
`carrier` in front for rule 0, the text right after the `(\w+)` group for the others. -/
def shouldLit : Nat → List Char × List Char
  | 0 => ("carrier".toList, ".BeTrue()".toList)
  | 1 => ([], ".BeTrue()".toList)
  | 2 => ([], ".BeFalse()".toList)
  | 3 => ([], ".NotBeNull()".toList)
  | 4 => ([], ".BeNull()".toList)
  | 5 => ([], ".NotBeEmpty()".toList)
  | 6 => (".GetCurrentState()".toList, ".Contain(".toList)
  | 7 => (".GetCurrentState()".toList, ".NotContain(".toList)
  | 8 => ([], ".HaveCount(".toList)
  | 9 => ([], ".Be(".toList)
  | 10 => (".EventLog".toList, ".Contain(".toList)
  | 11 => (".GetAllJobs()".toList, ".HaveCount(".toList)
  | 12 => ([], ".Contain(".toList)
  | _ => ([], [])

/-- The first literal of every rule holds `.Should()`, but for the `HasMapping` rule; rule 0
is that literal alone, the others spell it right after their `(\w+)` group. -/
theorem replacements_lit {j : Nat} (hR : (replacements db)[j]? = some R) :
    ∃ L ts, (j < 13 ∧ L = (shouldLit j).1 ++ (".Should()".toList ++ (shouldLit j).2) ∨
        j = 13 ∧ L = ".HasMapping(".toList) ∧
      (0 < j ∧ R.pat = wordGrp db ++ (L.map .chr ++ ts) ∨ j = 0 ∧ R.pat = L.map .chr ++ ts) ∧
      ';' ∉ L ∧ '\n' ∉ L := by
  have hj : j < 14 := (List.getElem?_eq_some_iff.mp hR).1
  interval_cases j <;> cases hR
  · exact ⟨_, [], .inl ⟨by decide, rfl⟩, .inr ⟨rfl, rfl⟩, by decide⟩
  all_goals first
    | exact ⟨_, _, .inl ⟨by decide, rfl⟩, .inl ⟨by decide, rfl⟩, by decide⟩
    | exact ⟨_, _, .inr ⟨rfl, rfl⟩, .inl ⟨by decide, rfl⟩, by decide⟩

theorem false_of_suffix_dot {X w : List Char} (h : X <:+ w ++ []) (hw : IsWord db w)
    (hX : '.' ∈ X) : False :=
  hw.not_mem db db.word_dot (by simpa using h.subset hX)

theorem Stmt.mid_getLast {w a b : List Char} : (Stmt.hasMapping w a b).mid.getLast? = some ')' := by
  simp only [Stmt.mid, List.getLast?_append, List.getLast?_singleton, Option.or_some]

/-- Rule 0 reads no statement written for a later rule. -/
theorem Stmt.carrier_mismatch (hst : st.Ok db) (h0 : 0 < st.rule) :
    ¬ ((shouldLit 0).1 <:+ st.recv ++ st.mid ∧ (shouldLit 0).2 <+: st.tail) := by
  rintro ⟨hP, hQ⟩
  cases st <;> simp only [Stmt.tail] at hQ
  all_goals first
    | exact absurd hQ (by decide)
    | exact not_prefix_of_incomparable (by decide) hQ
    | skip
  case beTrue w =>
    simp only [Stmt.rule] at h0
    split at h0
    · omega
    · exact (hst.2.resolve_left ‹_›) (by simpa [Stmt.recv, Stmt.mid] using hP)
  case hasMapping w a b =>
    exact false_of_suffix_getLast hP rfl Stmt.mid_getLast (by decide)

/-- A `(\w+)` rule before the statement's own reads no word right before its literal in the
statement. -/
theorem Stmt.word_mismatch (hst : st.Ok db) {j : Nat} (hj0 : 0 < j) (hj : j < st.rule) {c : Char}
    (hc : db.word c = true) :
    ¬ (c :: (shouldLit j).1 <:+ st.recv ++ st.mid ∧ (shouldLit j).2 <+: st.tail) := by
  rintro ⟨hP, hQ⟩
  have hcr : c ≠ ')' := fun h => by rw [h, db.word_rparen] at hc; cases hc
  cases st <;> simp only [Stmt.rule, Stmt.tail] at hj hQ
  all_goals first | (split at hj <;> omega) | interval_cases j
  all_goals first
    -- the literal after `.Should()` is not how the statement goes on
    | exact absurd hQ (by decide)
    | exact not_prefix_of_incomparable (by decide) hQ
    -- or the statement spells something else before `.Should()`
    | exact false_of_suffix_getLast hP (a := ')') rfl rfl (by decide)
    | exact false_of_suffix_getLast hP rfl rfl hcr
    | exact false_of_suffix_getLast hP rfl Stmt.mid_getLast hcr
    | exact false_of_suffix_dot hP hst.1 (List.mem_cons_of_mem c (by decide))

/-- A text that spells neither `.Should()` nor, for the last rule, `.HasMapping(` holds no
match of rule `j`, whether a statement's `;` or the end of its line follows it. -/
theorem sub_of_absent {j : Nat} (hR : (replacements db)[j]? = some R) {B : List Char}
    (hS : ¬ ".Should()".toList <:+: B) (hH : j = 13 → ¬ ".HasMapping(".toList <:+: B)
    {d : Char} (hd : d = ';' ∨ d = '\n') {y : List Char} (hy : Ends d y) :
    R.sub (B ++ y) = B ++ R.sub y := by
  obtain ⟨L, ts, hL, hp, hsep⟩ := replacements_lit hR
  have hdL : d ∉ L := by rcases hd with rfl | rfl; exacts [hsep.1, hsep.2]
  have hB : ¬ L <:+: B := by
    rcases hL with ⟨-, rfl⟩ | ⟨h13, rfl⟩
    · exact fun h => hS (List.IsInfix.trans ⟨_, _, List.append_assoc _ _ _⟩ h)
    · exact hH h13
  rcases hp with ⟨-, hp⟩ | ⟨-, hp⟩
  · refine wordRule_sub_ends db hp hdL ?_ (fun c _ h => hB ((List.suffix_cons c L).isInfix.trans h)) hy
    rcases hd with rfl | rfl <;> exact db.word_eq_false (by decide)
  · exact R.sub_append_of_literal_ends hp hdL hB hy

/-- A rule before the statement's own leaves the statement alone. -/
theorem Stmt.sub_text (hst : st.Ok db) {j : Nat} (hR : (replacements db)[j]? = some R)
    (hj : j < st.rule) {y : List Char} (hy : Ends ';' y) :
    R.sub (st.text ++ y) = st.text ++ R.sub y := by
  obtain ⟨L, ts, hL, hp, hsemi, -⟩ := replacements_lit hR
  obtain ⟨-, rfl⟩ := hL.resolve_right fun h => by have := st.rule_le_thirteen; omega
  rcases hp with ⟨hj0, hp⟩ | ⟨rfl, hp⟩
  · exact wordRule_sub_ends db hp hsemi (db.word_eq_false (by decide)) (fun c hc h =>
      st.word_mismatch hst hj0 hj hc (st.aligned hst (P := c :: (shouldLit j).1) h)) hy
  · exact R.sub_append_of_literal_ends hp hsemi
      (fun h => st.carrier_mismatch hst hj (st.aligned hst h)) hy

theorem sub_cons_nonword (hR : R ∈ replacements db) {d : Char} (hd : db.word d = false)
    (y : List Char) : R.sub (d :: y) = d :: R.sub y :=
  sub_append_of_nonword db hR (x := [d]) (by simpa using hd) y

/-! ## A test file, rule by rule -/

/-- The statement once the first `j` rules ran. -/
def Stmt.after (j : Nat) (st : Stmt) : List Char := if st.rule < j then st.migrated else st.text

theorem Stmt.after_zero : Stmt.after 0 = Stmt.text := funext fun _ => if_neg (Nat.not_lt_zero _)

theorem Stmt.after_fourteen : Stmt.after 14 = Stmt.migrated :=
  funext fun st => if_pos (Nat.lt_succ_of_le st.rule_le_thirteen)

variable (db) in
/-- The lines the table is written for: an indentation of no word character before a
statement that fits its rule, and lines that spell neither `.Should()` nor `.HasMapping(`. -/
def LineOk : TestLine Stmt → Prop
  | .stmt ind st => NonWord db ind ∧ st.Ok db
  | .code B => ¬ ".Should()".toList <:+: B ∧ ¬ ".HasMapping(".toList <:+: B

instance : (l : TestLine Stmt) → Decidable (LineOk db l)
  | .stmt ind st => inferInstanceAs (Decidable (NonWord db ind ∧ st.Ok db))
  | .code _ => inferInstanceAs (Decidable (_ ∧ _))

/-- Rule `j` takes a line from where the rules before it left it to the next stage: it
rewrites the statement written for it and leaves every other line alone. -/
theorem sub_line {l : TestLine Stmt} (hl : LineOk db l) {j : Nat}
    (hR : (replacements db)[j]? = some R) {y : List Char} (hy : Ends '\n' y) :
    R.sub (l.render (Stmt.after j) ++ y) = l.render (Stmt.after (j + 1)) ++ R.sub y := by
  have hmem := List.getElem?_mem hR
  cases l with
  | code B => exact sub_of_absent hR hl.1 (fun _ => hl.2) (.inr rfl) hy
  | stmt ind st =>
    obtain ⟨hind, hst⟩ := hl
    refine R.sub_stmt_line (sub_append_of_nonword db hmem hind)
      (sub_cons_nonword hmem (db.word_eq_false (by decide))) ?_
    have hsemi : Ends ';' (';' :: y) := .inr ⟨y, rfl⟩
    rcases lt_trichotomy st.rule j with h | rfl | h
    · -- rewritten before: spells no literal of the rule
      rw [Stmt.after, Stmt.after, if_pos h, if_pos (by omega)]
      exact sub_of_absent hR (st.not_should_migrated hst)
        (fun h13 => st.not_hasMapping_migrated hst (by omega)) (.inl rfl) hsemi
    · -- the statement's own rule
      rw [Stmt.after, Stmt.after, if_neg (lt_irrefl _), if_pos (Nat.lt_succ_self _),
        st.sub_fire hst hR]
    · -- a later rule's statement
      rw [Stmt.after, Stmt.after, if_neg (by omega), if_neg (by omega)]
      exact st.sub_text hst hR h hsemi

variable (db) in
/-- On a test file of statements the table is written for among other lines, the
replacements rewrite every statement into the assertion of its template and leave every
other line as it was. -/
theorem applyReplacements_migrates {ls : List (TestLine Stmt)} (hls : ∀ l ∈ ls, LineOk db l) :
    applyReplacements db (joinLines (ls.map (TestLine.render Stmt.text))) =
      joinLines (ls.map (TestLine.render Stmt.migrated)) := by
  rw [applyReplacements, ← Stmt.after_zero, ← Stmt.after_fourteen]
  exact applyAll_lines Stmt.after ls _ (fun _ hR => sub_cons_nonword hR (db.word_eq_false (by decide)))
    fun _ _ hR l hl _ hy => sub_line (hls l hl) hR hy

variable (db) in
/-- `fix_integration_tests.py` reads its test file and writes it back with every statement of
the table rewritten into its assertion and every other line as it was. -/
theorem main_migrates (fs : FileSystem) {ls : List (TestLine Stmt)} (hls : ∀ l ∈ ls, LineOk db l)
    (hf : fs testFile = some (joinLines (ls.map (TestLine.render Stmt.text)))) :
    main db fs = some [(testFile, joinLines (ls.map (TestLine.render Stmt.migrated)))] := by
  rw [main, hf, Option.map_some', applyReplacements_migrates db hls]

end FixIntegrationTests

/-- A test file with a statement of each group of the table, a line of other code and a
blank line. -/
theorem FixIntegrationTests.main_migrates_sample :
    let ls : List (TestLine FixIntegrationTests.Stmt) :=
      [.stmt "    ".toList (.beTrue "carrier".toList), .code "    var n = 2;".toList,
        .stmt "    ".toList (.haveCount "items".toList "2".toList), .code [],
        .stmt "    ".toList (.hasMapping "map".toList "A".toList "B".toList),
        .stmt "    ".toList (.eventLogContains "machine".toList "started".toList)]
    FixIntegrationTests.main .ascii (FileSystem.write (fun _ => none)
        FixIntegrationTests.testFile (joinLines (ls.map (TestLine.render FixIntegrationTests.Stmt.text)))) =
      some [(FixIntegrationTests.testFile,
        joinLines (ls.map (TestLine.render FixIntegrationTests.Stmt.migrated)))] :=
  FixIntegrationTests.main_migrates .ascii _ (by decide) (if_pos rfl)

end AssertMigration
