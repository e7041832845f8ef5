import AssertMigration.Properties.TargetedRules
import AssertMigration.Properties.RunEffect
import AssertMigration.Rewrite.LineScan
import Mathlib.Tactic.IntervalCases

/-!
# The statements `fix_remaining_should.py` fixes

`fix_remaining_patterns` is written for five statements, one a rule: `Should().Be` with a
count on `_contextValues["counter"]`, with a string on three entries of
`_stateMachine.ContextMap`, and with a count on the `JValue` cast ternary of the script's
comment. On a file of such statements, one a line after an indentation and ended by `;`,
among lines that spell no `.Should()`, the rules rewrite every statement into its
`Assert.Equal` and leave every other line as it was (`fixRemainingPatterns_fixes`), and the
script leaves each file of `files_to_fix` that is such a file so (`main_fixes_statements`).

## Main definitions

- `Stmt`, `Stmt.text`, `Stmt.migrated`: a statement as written, and the assertion the
  template of its rule writes for it.
- `Stmt.rule`: the index in `rules` of the rule written for the statement.
- `ReadsRecv k X`: what rule `k` reads before `.Should()`.
- `LineOk`: the lines of a file the table is written for.

## Main results

- `rules_reads`: every rule reads a receiver and then `.Should()`; the `JValue` rule reads a
  cast ternary on two identifiers, through its backreferences (`jValuePat_inv`).
- `Stmt.sub_fire`, `Stmt.sub_text`, `sub_of_no_should`: the rule written for a statement
  rewrites it; every other rule leaves it, its assertion and the other lines alone.
- `sub_line`: the step, rule `j` on one line; `applyAll_lines` runs the steps.

## Design notes

Every statement is `recv.Should().Be(arg)` and spells `.Should()` once, so a rule that starts
a match in it reads the statement's own receiver (`Stmt.aligned`), and the receivers tell the
rules apart (`Stmt.rule_of_reads`): the spelled-out ones by their text, the cast ternary by
its last character. Every pattern starts with `_` or `(`, which an indentation lacks.
-/

namespace AssertMigration

namespace FixRemainingShould

variable (db : UnicodeDb)

/-! ## The statements -/

/-- The receiver each rule but the `JValue` one spells out, by the rule's index in `rules`. -/
def litRecv : Nat → List Char
  | 0 => "_contextValues[\"counter\"]".toList
  | 1 => "_stateMachine.ContextMap![\"value\"]".toList
  | 2 => "_stateMachine.ContextMap[\"value\"]".toList
  | 4 => "_stateMachine.ContextMap![\"data\"]".toList
  | _ => []

/-- The cast ternary after its first identifier:
` is Newtonsoft.Json.Linq.JValue b ? b.ToObject<int>() : (int)(a ?? 0))` -/
def jValueTail (a b : List Char) : List Char :=
  " is Newtonsoft.Json.Linq.JValue ".toList ++ (b ++ (" ? ".toList ++ (b ++
    (".ToObject<int>() : (int)(".toList ++ (a ++ " ?? 0))".toList)))))

/-- `(a is Newtonsoft.Json.Linq.JValue b ? b.ToObject<int>() : (int)(a ?? 0))` -/
def jValueRecv (a b : List Char) : List Char := "(".toList ++ (a ++ jValueTail a b)

/-- The statements `fix_remaining_patterns` is written for, in the order of its rules. -/
inductive Stmt where
  /-- `_contextValues["counter"].Should().Be(n)` -/
  | counter (n : List Char)
  /-- `_stateMachine.ContextMap!["value"].Should().Be("s")` -/
  | bangValue (s : List Char)
  /-- `_stateMachine.ContextMap["value"].Should().Be("s")` -/
  | value (s : List Char)
  /-- `(a is Newtonsoft.Json.Linq.JValue b ? b.ToObject<int>() : (int)(a ?? 0)).Should().Be(n)` -/
  | jValue (a b n : List Char)
  /-- `_stateMachine.ContextMap!["data"].Should().Be("s")` -/
  | bangData (s : List Char)

/-- The index in `rules` of the rule written for the statement. -/
def Stmt.rule : Stmt → Nat
  | .counter _ => 0
  | .bangValue _ => 1
  | .value _ => 2
  | .jValue _ _ _ => 3
  | .bangData _ => 4

/-- What the statement spells before `.Should()`. -/
def Stmt.recv : Stmt → List Char
  | .counter _ => litRecv 0
  | .bangValue _ => litRecv 1
  | .value _ => litRecv 2
  | .jValue a b _ => jValueRecv a b
  | .bangData _ => litRecv 4

/-- The argument of `Be`: a count, or a string literal. -/
def Stmt.arg : Stmt → List Char
  | .counter n | .jValue _ _ n => n
  | .bangValue s | .value s | .bangData s => quoted s

/-- The statement as written. -/
def Stmt.text (st : Stmt) : List Char :=
  st.recv ++ (".Should()".toList ++ (".Be(".toList ++ (st.arg ++ [')'])))

/-- The assertion the template of the statement's rule writes. -/
def Stmt.migrated : Stmt → List Char
  | .counter n => "Assert.Equal(".toList ++ (n ++ (", ".toList ++ (litRecv 0 ++ [')'])))
  | .bangValue s => "Assert.Equal(".toList ++ (quoted s ++ (", ".toList ++ (litRecv 1 ++ [')'])))
  | .value s => "Assert.Equal(".toList ++ (quoted s ++ (", ".toList ++ (litRecv 2 ++ [')'])))
  | .jValue a b n => jValueAssert a b n
  | .bangData s => "Assert.Equal(".toList ++ (quoted s ++ (", ".toList ++ (litRecv 4 ++ [')'])))

/-- The statement fits its rule: counts `\d+`, string texts, identifiers. -/
def Stmt.Ok : Stmt → Prop
  | .counter n => IsCount db n
  | .bangValue s | .value s | .bangData s => IsText s
  | .jValue a b n => isIdent a = true ∧ isIdent b = true ∧ IsCount db n

instance : (st : Stmt) → Decidable (st.Ok db)
  | .counter n => inferInstanceAs (Decidable (IsCount db n))
  | .bangValue s | .value s | .bangData s => inferInstanceAs (Decidable (IsText s))
  | .jValue _ _ n => inferInstanceAs (Decidable (_ ∧ _ ∧ IsCount db n))

theorem Stmt.rule_lt_five (st : Stmt) : st.rule < 5 := by
  cases st <;> simp [Stmt.rule]

theorem jValueStmt_eq (a b n : List Char) : jValueStmt a b n = (Stmt.jValue a b n).text := by
  simp only [jValueStmt, Stmt.text, Stmt.recv, Stmt.arg, jValueRecv, jValueTail, List.append_assoc]
  rfl

theorem jValueRecv_getLast (a b : List Char) : (jValueRecv a b).getLast? = some ')' := by
  simp only [jValueRecv, jValueTail, ← List.append_assoc]
  rw [List.getLast?_append]
  rfl

/-! ## What a rule reads -/

/-- What rule `k` reads before `.Should()`: the receiver it spells out, or for the `JValue`
rule a cast ternary on two identifiers. -/
def ReadsRecv : Nat → List Char → Prop
  | 3, X => ∃ a b, isIdent a = true ∧ isIdent b = true ∧ X = jValueRecv a b
  | k, X => X = litRecv k

/-- A match of the `JValue` pattern reads a cast ternary on two identifiers and `.Should()`:
its backreferences read again the identifiers its groups read. -/
theorem jValuePat_inv {t : List Char} {r : Marks × List Char}
    (h : matchToks (jValuePat db) [] t = some r) :
    ∃ a b u, t = jValueRecv a b ++ (".Should()".toList ++ u) ∧ isIdent a = true ∧
      isIdent b = true := by
  -- one name a step: a substitution reintroduces the hypotheses it rewrites
  obtain ⟨s₁, rfl, h₁⟩ := matchToks_chrs_some h
  obtain ⟨e, v, s₂, rfl, he, hv, h₂⟩ := matchToks_run_some h₁
  obtain ⟨s₃, rfl, h₃⟩ := matchToks_chrs_some h₂
  obtain ⟨e', v', s₄, rfl, he', hv', h₄⟩ := matchToks_run_some h₃
  obtain ⟨s₅, rfl, h₅⟩ := matchToks_chrs_some h₄
  obtain ⟨s₆, hb₂, h₆⟩ := matchToks_backref_some h₅
  obtain ⟨s₇, rfl, h₇⟩ := matchToks_chrs_some h₆
  obtain ⟨s₈, hb₁, h₈⟩ := matchToks_backref_some h₇
  obtain ⟨s₉, rfl, -⟩ := matchToks_chrs_some h₈
  -- the backreferences read the identifiers the groups read
  simp only [List.append_eq, List.nil_append, List.singleton_append, List.cons_append,
    groupText_cons_cons, Nat.zero_add, groupText_one_cons] at hb₂ hb₁
  subst hb₂ hb₁
  refine ⟨e :: v, e' :: v', ".Be(".toList ++ s₉, ?_, ?_, ?_⟩
  · simp only [jValueRecv, jValueTail, List.append_assoc, List.cons_append]
    rfl
  · simpa [isIdent, he] using hv
  · simpa [isIdent, he'] using hv'

/-- A match of rule `k` reads what the rule is written to read, and then `.Should()`. -/
theorem rules_reads {k : Nat} {R : Rule} (hR : (rules db)[k]? = some R) {t : List Char}
    {r : Marks × List Char} (h : matchToks R.pat [] t = some r) :
    ∃ X u, t = X ++ (".Should()".toList ++ u) ∧ ReadsRecv k X := by
  have hk : k < 5 := (List.getElem?_eq_some_iff.mp hR).1
  interval_cases k <;> cases hR
  case «3» =>
    obtain ⟨a, b, u, rfl, ha, hb⟩ := jValuePat_inv db h
    exact ⟨_, u, rfl, a, b, ha, hb, rfl⟩
  all_goals
    obtain ⟨u, rfl, -⟩ := matchToks_chrs_some h
    exact ⟨_, ".Be(".toList ++ u, by simp only [← List.append_assoc]; rfl, rfl⟩

/-- Neither a line end nor `;` is part of what a rule reads. -/
theorem ReadsRecv.sep {k : Nat} {X : List Char} (hX : ReadsRecv k X) {d : Char}
    (hd : d = ';' ∨ d = '\n') : d ∉ X := by
  have hi : identChar d = false := by rcases hd with rfl | rfl <;> rfl
  unfold ReadsRecv at hX
  split at hX
  · obtain ⟨a, b, ha, hb, rfl⟩ := hX
    have ha' := not_mem_of_isIdent ha hi
    have hb' := not_mem_of_isIdent hb hi
    simp only [jValueRecv, jValueTail, List.mem_append, not_or]
    rcases hd with rfl | rfl <;>
      exact ⟨by decide, ha', by decide, hb', by decide, hb', by decide, ha', by decide⟩
  · subst hX
    rcases hd with rfl | rfl <;> (unfold litRecv; split <;> decide)

/-- Rule `k` starts no match in a text followed by `;` or a line end that holds nowhere what
the rule reads up to `.Should()`. -/
theorem sub_of_reads {k : Nat} {R : Rule} (hR : (rules db)[k]? = some R) {d : Char}
    (hd : d = ';' ∨ d = '\n') {B y : List Char} (hy : Ends d y)
    (hB : ∀ X, ReadsRecv k X → ¬ X ++ ".Should()".toList <:+: B) :
    R.sub (B ++ y) = B ++ R.sub y := by
  refine R.sub_append_of_none fun i _ => Option.eq_none_iff_forall_not_mem.mpr fun r hm => ?_
  obtain ⟨X, u, ht, hX⟩ := rules_reads db hR hm
  have hdX : d ∉ X ++ ".Should()".toList := by
    rw [List.mem_append, not_or]
    exact ⟨hX.sep hd, by rcases hd with rfl | rfl <;> decide⟩
  exact hB X hX ((prefix_of_prefix_append_ends hdX hy ⟨u, by rw [ht, List.append_assoc]⟩).isInfix.trans
    (List.drop_suffix i B).isInfix)

/-- A text that spells no `.Should()` holds no match of any rule. -/
theorem sub_of_no_should {k : Nat} {R : Rule} (hR : (rules db)[k]? = some R) {B : List Char}
    (hB : ¬ ".Should()".toList <:+: B) {d : Char} (hd : d = ';' ∨ d = '\n') {y : List Char}
    (hy : Ends d y) : R.sub (B ++ y) = B ++ R.sub y :=
  sub_of_reads db hR hd hy fun X _ h => hB ((List.suffix_append X _).isInfix.trans h)

/-! ## A statement spells `.Should()` once -/

variable {db} {st : Stmt} {a b : List Char}

theorem not_should_jValueTail (ha : '.' ∉ a) (hb : '.' ∉ b) :
    ¬ ".Should()".toList <:+: jValueTail a b :=
  not_infix_lit_append (by decide) <| not_infix_append_of_head hb rfl <|
    not_infix_append_of_head (by decide) rfl <| not_infix_append_of_head hb rfl <|
      not_infix_lit_append (by decide) <| not_infix_append_of_head ha rfl (by decide)

theorem Stmt.not_should_recv (hst : st.Ok db) : ¬ ".Should()".toList <:+: st.recv := by
  cases st with
  | jValue a b n =>
    have ha := not_mem_of_isIdent hst.1 (by decide : identChar '.' = false)
    have hb := not_mem_of_isIdent hst.2.1 (by decide : identChar '.' = false)
    exact not_infix_append_of_head (by decide) rfl
      (not_infix_append_of_head ha rfl (not_should_jValueTail ha hb))
  | _ => simp only [Stmt.recv]; decide

/-- The argument of `Be` is a count or a string literal. -/
theorem Stmt.Ok.arg (hst : st.Ok db) : '.' ∉ st.arg ∨ ∃ s, st.arg = quoted s ∧ '(' ∉ s := by
  cases st with
  | counter n => exact .inl hst.not_mem_dot
  | jValue _ _ n => exact .inl hst.2.2.not_mem_dot
  | bangValue s | value s | bangData s => exact .inr ⟨s, rfl, hst.2.2⟩

theorem Stmt.not_should_tail (hst : st.Ok db) :
    ¬ ".Should()".toList <:+: (".Should()".toList ++ (".Be(".toList ++ (st.arg ++ [')']))).tail := by
  show ¬ _ <:+: "Should()".toList ++ (".Be(".toList ++ (st.arg ++ [')']))
  rw [← List.append_assoc]
  rcases hst.arg with hn | ⟨s, hs, hs'⟩
  · exact not_infix_lit_append (by decide) (not_infix_append_of_head hn rfl (by decide))
  · rw [hs]
    exact not_infix_quoted (by decide) (by decide) hs' (by decide) (by decide)

/-- An occurrence of a literal around `.Should()` in a statement lines up with the
statement's own `.Should()`. -/
theorem Stmt.aligned (hst : st.Ok db) {P Q : List Char} (h : P ++ (".Should()".toList ++ Q) <:+: st.text) :
    P <:+ st.recv ∧ Q <+: ".Be(".toList ++ (st.arg ++ [')']) :=
  (by decide : Unbordered ".Should()".toList).aligned (st.not_should_recv hst) (st.not_should_tail hst) h

/-- The receivers tell the rules apart: what rule `k` reads ends a statement's receiver only
when `k` is the statement's rule. -/
theorem Stmt.rule_of_reads (st : Stmt) {k : Nat} (hk : k < 5) {X : List Char} (hX : ReadsRecv k X)
    (h : X <:+ st.recv) : k = st.rule := by
  interval_cases k <;> cases st <;> simp only [ReadsRecv, Stmt.recv, Stmt.rule] at hX h ⊢
  all_goals first
    | rfl
    | (subst hX; exact absurd h (by decide))
    | (obtain ⟨a, b, -, -, rfl⟩ := hX
       exact absurd h (not_suffix_of_getLast (jValueRecv_getLast a b) rfl (by decide)))
    | (subst hX; exact absurd h (not_suffix_of_getLast rfl (jValueRecv_getLast _ _) (by decide)))

/-- A rule other than the statement's own starts no match in it. -/
theorem Stmt.sub_text (hst : st.Ok db) {k : Nat} {R : Rule} (hR : (rules db)[k]? = some R)
    (hk : k ≠ st.rule) {y : List Char} (hy : Ends ';' y) :
    R.sub (st.text ++ y) = st.text ++ R.sub y :=
  sub_of_reads db hR (.inl rfl) hy fun X hX h =>
    hk (st.rule_of_reads (List.getElem?_eq_some_iff.mp hR).1 hX
      (st.aligned hst (Q := []) (by rwa [List.append_nil])).1)

/-! ## A migrated statement spells no `.Should()` -/

theorem Stmt.not_should_migrated (hst : st.Ok db) : ¬ ".Should()".toList <:+: st.migrated := by
  cases st with
  | counter n =>
    exact not_infix_lit_append (by decide) (not_infix_append_of_head hst.not_mem_dot rfl (by decide))
  | jValue a b n =>
    have ha := not_mem_of_isIdent hst.1 (by decide : identChar '.' = false)
    have hb := not_mem_of_isIdent hst.2.1 (by decide : identChar '.' = false)
    exact not_infix_lit_append (by decide) (not_infix_append_of_head hst.2.2.not_mem_dot rfl
      (not_infix_append_of_head (by decide) rfl
        (not_infix_append_of_head ha rfl (not_should_jValueTail ha hb))))
  | bangValue s | value s | bangData s =>
    exact not_infix_quoted (by decide) (by decide) hst.2.2 (by decide) (by decide)

/-! ## The rule written for a statement rewrites it -/

variable {R : Rule} {X Y t : List Char}

/-- `X\.Should\(\)\.Be\((\d+)\)` with template `Assert.Equal(\1, Y`. -/
theorem sub_fire_count {n : List Char}
    (hp : R.pat = (X ++ ".Should().Be(".toList).map .chr ++ (grp (plus db.isDecimal) ++ str ")"))
    (ht : R.tmpl = "Assert.Equal(".toList.map .text ++ .group 1 :: Y.map .text) (hn : IsCount db n) :
    R.sub (X ++ (".Should()".toList ++ (".Be(".toList ++ (n ++ [')']))) ++ t) =
      "Assert.Equal(".toList ++ (n ++ Y) ++ R.sub t := by
  rw [R.sub_of_some (by
      rw [hp, show X ++ (".Should()".toList ++ (".Be(".toList ++ (n ++ [')']))) ++ t =
        (X ++ ".Should().Be(".toList) ++ (n ++ ')' :: t) by simp, matchToks_chrs]
      exact matchToks_plusGrp (r := (_, t)) hn (db.isDecimal_eq_false (by decide)) rfl), ht]
  simp [expand_texts, expand, groupText_one]

/-- `X\.Should\(\)\.Be\("([^"]+)"\)` with template `Assert.Equal("\1"Y`. -/
theorem sub_fire_string {s : List Char}
    (hp : R.pat = (X ++ ".Should().Be(".toList).map .chr ++ (quotedGrp ++ str ")"))
    (ht : R.tmpl = "Assert.Equal(".toList.map .text ++ .text '"' :: .group 1 :: ('"' :: Y).map .text)
    (hs : IsText s) :
    R.sub (X ++ (".Should()".toList ++ (".Be(".toList ++ (quoted s ++ [')']))) ++ t) =
      "Assert.Equal(".toList ++ (quoted s ++ Y) ++ R.sub t := by
  rw [R.sub_of_some (by
      rw [hp, show X ++ (".Should()".toList ++ (".Be(".toList ++ (quoted s ++ [')']))) ++ t =
        (X ++ ".Should().Be(".toList) ++ (quoted s ++ ')' :: t) by simp, matchToks_chrs]
      exact matchToks_quotedGrp (r := (_, t)) hs rfl), ht]
  simp [expand_texts, expand, groupText_one, quoted]

/-- The rule written for a statement rewrites it into its assertion. -/
theorem Stmt.sub_fire (hst : st.Ok db) (hR : (rules db)[st.rule]? = some R) (t : List Char) :
    R.sub (st.text ++ t) = st.migrated ++ R.sub t := by
  cases st with
  | counter n => cases hR; exact sub_fire_count rfl rfl hst
  | bangValue s | value s | bangData s => cases hR; exact sub_fire_string rfl rfl hst
  | jValue a b n =>
    obtain rfl : R = jValueRule db := Option.some.inj hR.symm
    obtain ⟨ms, hm, h1, h2, h3⟩ := jValuePat_match db hst.1 hst.2.1 hst.2.2.exists_cons t
    rw [← jValueStmt_eq, Rule.sub_of_some _ hm, jValueRule_tmpl]
    simp only [expand_texts, expand_group_cons, expand_map_text, h1, h2, h3, Stmt.migrated,
      jValueAssert, List.append_assoc]

/-! ## A file, rule by rule -/

/-- Every pattern of the table starts with `_` or `(`. -/
theorem rules_head : ∀ R ∈ rules db, ∃ c ts, (c = '_' ∨ c = '(') ∧ R.pat = .chr c :: ts := by
  intro R hR
  simp only [rules, List.mem_cons, List.mem_nil_iff, or_false] at hR
  rcases hR with rfl | rfl | rfl | rfl | rfl <;> exact ⟨_, _, by decide, rfl⟩

/-- No rule starts a match in a text without `_` and `(`. -/
theorem sub_append_of_noStart (hR : R ∈ rules db) {x : List Char} (hx : '_' ∉ x ∧ '(' ∉ x)
    (y : List Char) : R.sub (x ++ y) = x ++ R.sub y := by
  obtain ⟨c, ts, hc, hp⟩ := rules_head R hR
  exact R.sub_append_of_head hp (by rcases hc with rfl | rfl; exacts [hx.1, hx.2])

/-- The statement once the first `j` rules ran. -/
def Stmt.after (j : Nat) (st : Stmt) : List Char := if st.rule < j then st.migrated else st.text

theorem Stmt.after_zero : Stmt.after 0 = Stmt.text := funext fun _ => if_neg (Nat.not_lt_zero _)

theorem Stmt.after_five : Stmt.after 5 = Stmt.migrated := funext fun st => if_pos st.rule_lt_five

variable (db) in
/-- The lines the table is written for: an indentation without `_` or `(` before a statement
that fits its rule, and lines that spell no `.Should()`. -/
def LineOk : TestLine Stmt → Prop
  | .stmt ind st => ('_' ∉ ind ∧ '(' ∉ ind) ∧ st.Ok db
  | .code B => ¬ ".Should()".toList <:+: B

instance : (l : TestLine Stmt) → Decidable (LineOk db l)
  | .stmt _ st => inferInstanceAs (Decidable ((_ ∧ _) ∧ st.Ok db))
  | .code _ => inferInstanceAs (Decidable (¬ _))

/-- Rule `j` takes a line from where the rules before it left it to the next stage: it
rewrites the statement written for it and leaves every other line alone. -/
theorem sub_line {l : TestLine Stmt} (hl : LineOk db l) {j : Nat} (hR : (rules db)[j]? = some R)
    {y : List Char} (hy : Ends '\n' y) :
    R.sub (l.render (Stmt.after j) ++ y) = l.render (Stmt.after (j + 1)) ++ R.sub y := by
  have hmem := List.getElem?_mem hR
  cases l with
  | code B => exact sub_of_no_should db hR hl (.inr rfl) hy
  | stmt ind st =>
    obtain ⟨hind, hst⟩ := hl
    refine R.sub_stmt_line (sub_append_of_noStart hmem hind)
      (sub_append_of_noStart hmem (x := [';']) ⟨by decide, by decide⟩) ?_
    have hsemi : Ends ';' (';' :: y) := .inr ⟨y, rfl⟩
    rcases lt_trichotomy st.rule j with h | rfl | h
    · -- rewritten before: spells no `.Should()`
      rw [Stmt.after, Stmt.after, if_pos h, if_pos (by omega)]
      exact sub_of_no_should db hR (st.not_should_migrated hst) (.inl rfl) hsemi
    · -- the statement's own rule
      rw [Stmt.after, Stmt.after, if_neg (lt_irrefl _), if_pos (Nat.lt_succ_self _),
        st.sub_fire hst hR]
    · -- a later rule's statement
      rw [Stmt.after, Stmt.after, if_neg (by omega), if_neg (by omega)]
      exact st.sub_text hst hR h.ne hsemi

variable (db) in
/-- On a file of statements the table is written for among lines that spell no `.Should()`,
`fix_remaining_patterns` rewrites every statement into its `Assert.Equal` and leaves every
other line as it was. -/
theorem fixRemainingPatterns_fixes {ls : List (TestLine Stmt)} (hls : ∀ l ∈ ls, LineOk db l) :
    fixRemainingPatterns db (joinLines (ls.map (TestLine.render Stmt.text))) =
      joinLines (ls.map (TestLine.render Stmt.migrated)) := by
  rw [fixRemainingPatterns, ← Stmt.after_zero, ← Stmt.after_five]
  exact applyAll_lines Stmt.after ls _
    (fun _ hR => sub_append_of_noStart hR (x := ['\n']) ⟨by decide, by decide⟩)
    fun _ _ hR l hl _ hy => sub_line (hls l hl) hR hy

variable (db) in
/-- `fix_remaining_should.py` leaves each file of `files_to_fix` that is made of statements of
its table among other lines holding every statement rewritten into its `Assert.Equal` and
every other line as it was. -/
theorem main_fixes_statements (fs : FileSystem) {n : List Char} (hn : n ∈ filesToFix)
    {ls : List (TestLine Stmt)} (hls : ∀ l ∈ ls, LineOk db l)
    (hf : fs (filePath n) = some (joinLines (ls.map (TestLine.render Stmt.text)))) :
    fs.commit (main db fs).written (filePath n) =
      some (joinLines (ls.map (TestLine.render Stmt.migrated))) := by
  rw [main_eq_processFiles, commit_processFiles_cs (existingFiles_nodup fs)
    (mem_existingFiles fs hn hf) (filesToFix_isCs n hn) hf]
  exact congrArg some ((if_neg Bool.false_ne_true).trans (fixRemainingPatterns_fixes db hls))

end FixRemainingShould

/-- A test file with a statement of each rule and a line of other code. -/
theorem FixRemainingShould.main_fixes_statements_sample :
    let ls : List (TestLine FixRemainingShould.Stmt) :=
      [.stmt "        ".toList (.counter "2".toList), .code "        var x = 1;".toList,
        .stmt "        ".toList (.bangValue "processed".toList),
        .stmt "        ".toList (.value "done".toList),
        .stmt "        ".toList (.jValue "counterVal".toList "jv".toList "2".toList),
        .stmt "        ".toList (.bangData "result".toList)]
    let path := FixRemainingShould.filePath "UnitTest_InvokeServices.cs".toList
    let fs := FileSystem.write (fun _ => none) path
      (joinLines (ls.map (TestLine.render FixRemainingShould.Stmt.text)))
    fs.commit (FixRemainingShould.main .ascii fs).written path =
      some (joinLines (ls.map (TestLine.render FixRemainingShould.Stmt.migrated))) :=
  FixRemainingShould.main_fixes_statements .ascii _ (by decide) (by decide) (if_pos rfl)

end AssertMigration
