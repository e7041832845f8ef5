import AssertMigration.Properties.RunEffect
import AssertMigration.Rewrite.Context
import AssertMigration.Rewrite.LineScan
import Mathlib.Tactic.IntervalCases

/-!
# The `Contains` statements `fix_complex_should.py` rewrites

The first two rules of `fix_complex_should_patterns` are written for the statements
`r.Contains(a).Should().BeTrue()` and `r.Contains(a).Should().BeFalse()`, which their
templates write as `Assert.Contains(a, r)` and `Assert.DoesNotContain(a, r)`. On a file of
such statements, one a line after an indentation and ended by `;`, among lines that spell no
`.Should()` and close every `.Contains(` they open, the whole table rewrites every statement
into its assertion and leaves every other line as it was (`fixComplexShouldPatterns_contains`),
and the script leaves each `.cs` file of the tree that is such a file so
(`contains_statements_migrate`).

## Main definitions

- `closesContains`: whether every `.Contains(` of a text is followed by a `)` in it.
- `ContainsStmt`, `ContainsStmt.text`, `ContainsStmt.migrated`: a statement as written, and
  the assertion the template of its rule writes for it.
- `LineOk`: the lines of a file the two rules are written for.

## Main results

- `containsPat_match`: the rule of a statement reads it from its receiver to its end.
- `containsRule_sub_inert`: a rule copies a line that closes its `.Contains(` and lacks the
  rule's call.
- `sub_line`: the step, rule `j` on one line; `applyAll_lines` runs the steps.

## Design notes

The argument class `[^)]+` crosses line breaks: a line that opens `.Contains(` and leaves it
open hands a rule the next line as its argument, so `LineOk` asks the other lines to close
what they open. A match reads the first `)` after its `.Contains(` and then the rule's call
`.Should().BeTrue()` or `.Should().BeFalse()`, which a statement spells once, after its
argument; a statement of the other rule thus lacks the call. The receiver chains call only
`()`, so a lazy receiver that stops at a `.Contains` inside the chain finds no argument, and
the rule reads the whole chain. The rules after the two `Contains` rules all read
`.Should()`, which the rewritten file no longer spells.
-/

namespace AssertMigration

/-! ## Texts that close what they open -/

/-- Whether every `.Contains(` of a text is followed, later in it, by a `)`. -/
def closesContains : List Char → Bool
  | [] => true
  | c :: t => decide (".Contains(".toList <+: c :: t → ')' ∈ t.drop 9) && closesContains t

theorem closesContains_close {q : List Char} :
    ∀ {p B : List Char}, closesContains B = true → B = p ++ (".Contains(".toList ++ q) →
      ')' ∈ q
  | [], _, h, rfl => by
    rw [List.nil_append, show ".Contains(".toList ++ q = '.' :: ("Contains(".toList ++ q)
      from rfl] at h
    simp only [closesContains, Bool.and_eq_true, decide_eq_true_eq] at h
    have h1 := h.1 (List.prefix_append _ _)
    rwa [List.drop_left' (show "Contains(".toList.length = 9 by decide)] at h1
  | _ :: _, _, h, rfl => by
    simp only [List.cons_append, closesContains, Bool.and_eq_true] at h
    exact closesContains_close h.2 rfl

/-- A text whose every `(` is closed closes every `.Contains(`. -/
theorem closesContains_of_closedParens :
    ∀ {B : List Char}, closedParens B = true → closesContains B = true
  | [], _ => rfl
  | c :: t, h => by
    simp only [closesContains, Bool.and_eq_true, decide_eq_true_eq]
    refine ⟨fun ⟨q, hq⟩ => ?_, closesContains_of_closedParens (closedParens_cons.mp h).2⟩
    obtain ⟨-, rfl⟩ := List.cons.inj hq
    exact closedParens_close h (p := ".Contains".toList) hq.symm

/-- An unbordered literal that starts a non-empty text followed by the literal starts inside
that text. -/
theorem Unbordered.prefix_of_prefix_append {α : Type} {w u z : List α} (hw : Unbordered w)
    (hu : u ≠ []) (h : w <+: u ++ (w ++ z)) : w <+: u := by
  rcases le_or_lt w.length u.length with hl | hl
  · exact List.prefix_of_prefix_length_le h (List.prefix_append _ _) hl
  · obtain ⟨t, rfl⟩ : u <+: w := List.prefix_of_prefix_length_le (List.prefix_append _ _) h hl.le
    have ht : t <+: (u ++ t) ++ z := (List.prefix_append_right_inj u).mp (by simpa using h)
    have htw : t <+: u ++ t :=
      List.prefix_of_prefix_length_le ht (List.prefix_append _ _) (by simp)
    exact absurd (by rwa [List.drop_left]) (hw u.length (by simpa using hl)
      (List.length_pos.mpr hu))

namespace FixComplexShould

/-! ## The statements -/

/-- What each `Contains` rule reads after `.Should()`, by the rule's index. -/
def containsMatcher : Nat → List Char
  | 0 => ".BeTrue()".toList
  | _ => ".BeFalse()".toList

/-- `r.Contains(a).Should().BeTrue()` and `r.Contains(a).Should().BeFalse()`. -/
inductive ContainsStmt where
  | beTrue (r a : List Char)
  | beFalse (r a : List Char)

/-- The index in `containsRules` of the rule written for the statement. -/
def ContainsStmt.rule : ContainsStmt → Nat
  | .beTrue .. => 0
  | .beFalse .. => 1

def ContainsStmt.recv : ContainsStmt → List Char
  | .beTrue r _ | .beFalse r _ => r

def ContainsStmt.arg : ContainsStmt → List Char
  | .beTrue _ a | .beFalse _ a => a

/-- The statement as written. -/
def ContainsStmt.text (st : ContainsStmt) : List Char :=
  st.recv ++ (".Contains(".toList ++ (st.arg ++ ')' ::
    (".Should()".toList ++ containsMatcher st.rule)))

/-- The assertion the template of the statement's rule names. -/
def ContainsStmt.assertCall : ContainsStmt → List Char
  | .beTrue .. => "Assert.Contains(".toList
  | .beFalse .. => "Assert.DoesNotContain(".toList

/-- The statement as its rule's template writes it. -/
def ContainsStmt.migrated (st : ContainsStmt) : List Char :=
  st.assertCall ++ (st.arg ++ (", ".toList ++ (st.recv ++ [')'])))

/-- The statements the rules are written for: a receiver chain of the core grammar, and an
argument the class `[^)]+` reads whole, without `(`. -/
def ContainsStmt.Ok (st : ContainsStmt) : Prop :=
  Chain st.recv ∧ st.arg ≠ [] ∧ '(' ∉ st.arg ∧ ')' ∉ st.arg

theorem ContainsStmt.rule_lt_two (st : ContainsStmt) : st.rule < 2 := by
  cases st <;> simp [ContainsStmt.rule]

theorem containsRules_getElem {j : Nat} {R : Rule} (hR : containsRules[j]? = some R) :
    j < 2 ∧ R.pat = receiver receiverChar ++ (".Contains(".toList.map .chr ++
      (grp (plus (notChar ')')) ++ (')' :: (".Should()".toList ++ containsMatcher j)).map .chr)) := by
  have hj : j < 2 := (List.getElem?_eq_some_iff.mp hR).1
  interval_cases j <;> cases hR <;> exact ⟨by decide, rfl⟩

theorem containsMatcher_reads (j : Nat) : readsBefore ')' (')' :: (".Should()".toList ++
    containsMatcher j)) (grp (plus (notChar ')')) ++
      (')' :: (".Should()".toList ++ containsMatcher j)).map .chr) = true := by
  rcases j with _ | j <;> simp only [containsMatcher] <;> decide

theorem containsMatcher_sep {d : Char} (hd : d = ';' ∨ d = '\n') (j : Nat) :
    d ∉ ".Should()".toList ++ containsMatcher j := by
  rcases j with _ | j <;> simp only [containsMatcher] <;> rcases hd with rfl | rfl <;> decide

/-! ## What a rule reads -/

/-- The rule of a statement reads it from its receiver to its end: the lazy receiver cannot
stop at a `.Contains` inside the chain, whose `(` the chain closes at once. -/
theorem containsPat_match {r a L : List Char} (hr : Chain r) (ha : a ≠ [] ∧ ')' ∉ a)
    (s : List Char) :
    ∃ ms, matchToks (receiver receiverChar ++ (".Contains(".toList.map .chr ++
        (grp (plus (notChar ')')) ++ (')' :: L).map .chr))) []
        (r ++ (".Contains(".toList ++ (a ++ ')' :: (L ++ s)))) = some (ms, s) ∧
      groupText ms 1 = r ∧ groupText ms 2 = a := by
  obtain ⟨c, r', rfl, hc⟩ := hr.head
  refine ⟨[c :: (r' ++ (".Contains(".toList ++ (a ++ ')' :: (L ++ s)))),
    ".Contains(".toList ++ (a ++ ')' :: (L ++ s)), a ++ ')' :: (L ++ s), ')' :: (L ++ s)], ?_,
    groupText_one (c :: r') _ _, by simp [groupText_cons_cons, groupText_one]⟩
  rw [receiver_append, matchToks_mark, List.nil_append, List.cons_append, matchToks_cls_cons,
    if_pos hc, matchToks_lazyStar, lazy_append_of_none
      (fun e he => hr.receiverChar_of_mem e (List.mem_cons_of_mem c he))]
  · exact lazy_of_some (by
      rw [matchToks_mark, List.singleton_append, matchToks_chrs]
      exact matchToks_plusGrp ⟨ha.1, notChar_close_of_not_mem ha.2⟩ (by decide)
        (matchToks_chrs_nil (')' :: L)))
  · intro i hi
    rw [matchToks_mark]
    by_cases hpre : ".Contains(".toList <+: r'.drop i ++ (".Contains(".toList ++ (a ++ ')' :: (L ++ s)))
    · obtain ⟨z, hz⟩ := (by decide : Unbordered ".Contains(".toList).prefix_of_prefix_append
        (List.ne_nil_of_length_pos (by simpa using hi)) hpre
      obtain ⟨z', rfl⟩ := hr.paren_closed (c :: (r'.take i ++ ".Contains".toList)) z (by
        rw [List.cons_append, List.append_assoc,
          show ".Contains".toList ++ '(' :: z = r'.drop i from hz, List.take_append_drop])
      rw [← hz, List.append_assoc, matchToks_chrs]
      simp [grp, plus, notChar]
    · rw [matchToks_chrs_of_mismatch hpre]

/-- A `Contains` rule copies a line that closes every `.Contains(` it opens and lacks the
rule's call, up to the line's end: a match reads the first `)` after its `.Contains(`, which
lies in the line, and then the call. -/
theorem containsRule_sub_inert {R : Rule} {ts : List Tok} {L : List Char}
    (hp : R.pat = receiver receiverChar ++ (".Contains(".toList.map .chr ++ ts))
    (hts : readsBefore ')' (')' :: L) ts = true) {d : Char} (hd : receiverChar d = false)
    (hdL : d ∉ L) {B y : List Char} (hB : closesContains B = true) (hL : ¬ L <:+: B)
    (hy : Ends d y) : R.sub (B ++ y) = B ++ R.sub y := by
  refine R.sub_append_of_none fun i _ => Option.eq_none_iff_forall_not_mem.mpr fun res hm => ?_
  rw [hp] at hm
  obtain ⟨c, u, z, ms', ht, hc, hu, hk⟩ := matchToks_receiver_split hm
  obtain ⟨v, w, rfl, hv⟩ := readsBefore_split hts hk
  -- the receiver and `.Contains(` lie in the line
  have hdu : d ∉ c :: u ++ ".Contains(".toList := by
    intro hdm
    rcases List.mem_append.mp hdm with hdm | hdm
    · rcases List.mem_cons.mp hdm with rfl | hdm
      · simp [receiverChar, identChar_of_identStart hc] at hd
      · simp [hu d hdm] at hd
    · exact absurd hd (by simp [(by decide : ∀ e ∈ ".Contains(".toList, receiverChar e = true) d hdm])
  obtain ⟨q, hq⟩ := prefix_of_prefix_append_ends (X := B.drop i) hdu hy
    ⟨v ++ (')' :: L ++ w), by simp [ht]⟩
  have hBq : B = (B.take i ++ c :: u) ++ (".Contains(".toList ++ q) := by
    conv_lhs => rw [← List.take_append_drop i B, ← hq]
    simp
  have hqy : q ++ y = v ++ (')' :: (L ++ w)) := by
    have := ht; rw [← hq] at this; simpa using this
  -- the first `)` after `.Contains(` lies in the line, and the call follows it there
  have hclose := closesContains_close hB hBq
  rcases List.append_eq_append_iff.mp hqy with ⟨a, rfl, -⟩ | ⟨_ | ⟨e, a⟩, rfl, ha⟩
  · exact hv (List.mem_append_left a hclose)
  · exact hv (by simpa using hclose)
  · obtain ⟨-, ha⟩ := List.cons.inj ha
    have haB : a <:+: B := by
      rw [hBq]
      exact ⟨B.take i ++ c :: u ++ (".Contains(".toList ++ (v ++ [e])), [], by simp⟩
    exact hL ((prefix_of_prefix_append_ends (X := a) hdL hy ⟨w, ha⟩).isInfix.trans haB)

/-! ## The statements, rule by rule -/

variable {st : ContainsStmt}

theorem ContainsStmt.text_eq (st : ContainsStmt) : st.text =
    (st.recv ++ (".Contains(".toList ++ (st.arg ++ [')']))) ++
      (".Should()".toList ++ containsMatcher st.rule) := by
  simp only [ContainsStmt.text, List.append_assoc, List.singleton_append]

/-- Before its `.Should()` a statement spells none: the chain holds none, and any other
`.Should()` would need a `(` that the argument lacks. -/
theorem ContainsStmt.Ok.not_should_head (hst : st.Ok) :
    ¬ ".Should()".toList <:+: st.recv ++ (".Contains(".toList ++ (st.arg ++ [')'])) := by
  refine not_infix_append hst.1.not_infix_should (not_infix_lit_append (by decide)
    (not_infix_of_not_mem (c := '(') (by decide) (by simpa using hst.2.2.1)))
    fun j hj hj0 _ h => ?_
  have hj9 : j < 9 := hj
  interval_cases j <;> exact not_prefix_of_incomparable (by decide) h

/-- A statement spells no call but its own rule's: its one `.Should()` is followed by its own
matcher. -/
theorem ContainsStmt.Ok.not_call_other (hst : st.Ok) {j : Nat} (hj : j < 2)
    (hne : j ≠ st.rule) : ¬ ".Should()".toList ++ containsMatcher j <:+: st.text := by
  intro h
  rw [st.text_eq, ← List.nil_append (".Should()".toList ++ containsMatcher j)] at h
  have hm := ((by decide : Unbordered ".Should()".toList).aligned hst.not_should_head
    ((by decide : ∀ k < 2, ¬ ".Should()".toList <:+:
      (".Should()".toList ++ containsMatcher k).tail) _ st.rule_lt_two) h).2
  exact hne ((by decide : ∀ j < 2, ∀ k < 2, containsMatcher j <+: containsMatcher k → j = k)
    j hj _ st.rule_lt_two hm)

/-- A statement's assertion spells no `.Should()`. -/
theorem ContainsStmt.Ok.not_should_migrated (hst : st.Ok) :
    ¬ ".Should()".toList <:+: st.migrated := by
  have hrest : ¬ ".Should()".toList <:+: st.arg ++ ',' :: ' ' :: (st.recv ++ [')']) := by
    intro h
    rcases infix_append_sep (by decide) h with h | h
    · exact not_infix_of_not_mem (c := '(') (by decide) hst.2.2.1 h
    · rcases List.infix_cons_iff.mp h with h | h
      · exact not_prefix_of_incomparable (P := [' ']) (by decide) h
      · exact hst.1.not_infix_should_close h
  cases st
  · exact not_infix_lit_append (X := "Assert.Contains(".toList) (by decide) hrest
  · exact not_infix_lit_append (X := "Assert.DoesNotContain(".toList) (by decide) hrest

theorem ContainsStmt.closedParens_text (st : ContainsStmt) : closedParens st.text = true := by
  obtain ⟨m, hm⟩ : ∃ m, containsMatcher st.rule = m ++ [')'] := by
    unfold containsMatcher; split
    exacts [⟨".BeTrue(".toList, by decide⟩, ⟨".BeFalse(".toList, by decide⟩]
  rw [ContainsStmt.text, hm]
  simpa only [List.append_assoc, List.cons_append] using closedParens_concat
    (st.recv ++ (".Contains(".toList ++ (st.arg ++ ')' :: (".Should()".toList ++ m))))

theorem ContainsStmt.closedParens_migrated (st : ContainsStmt) :
    closedParens st.migrated = true := by
  simpa only [ContainsStmt.migrated, List.append_assoc] using
    closedParens_concat (st.assertCall ++ (st.arg ++ (", ".toList ++ st.recv)))

/-- The rule written for a statement rewrites it into its assertion. -/
theorem ContainsStmt.sub_fire (hst : st.Ok) {R : Rule} (hR : containsRules[st.rule]? = some R)
    (t : List Char) : R.sub (st.text ++ t) = st.migrated ++ R.sub t := by
  obtain ⟨-, hp⟩ := containsRules_getElem hR
  obtain ⟨ms, hm, h1, h2⟩ := containsPat_match hst.1 ⟨hst.2.1, hst.2.2.2⟩
    (L := ".Should()".toList ++ containsMatcher st.rule) t
  have ht : R.tmpl = st.assertCall.map .text ++
      .group 2 :: (", ".toList.map .text ++ [.group 1, .text ')']) := by
    cases st <;> cases hR <;> rfl
  simp only [List.append_assoc] at hm
  simp only [ContainsStmt.text, List.append_assoc, List.cons_append]
  rw [R.sub_of_some (by rw [hp]; exact hm), ht]
  simp [expand_texts, expand, h1, h2, ContainsStmt.migrated]

/-! ## A file, rule by rule -/

/-- The statement once the first `j` rules ran. -/
def ContainsStmt.after (j : Nat) (st : ContainsStmt) : List Char :=
  if st.rule < j then st.migrated else st.text

theorem ContainsStmt.after_zero : ContainsStmt.after 0 = ContainsStmt.text :=
  funext fun _ => if_neg (Nat.not_lt_zero _)

theorem ContainsStmt.after_two : ContainsStmt.after 2 = ContainsStmt.migrated :=
  funext fun st => if_pos st.rule_lt_two

/-- The lines the two rules are written for: an indentation before a statement that fits its
rule, and lines that spell no `.Should()` and close every `.Contains(` they open. -/
def LineOk : TestLine ContainsStmt → Prop
  | .stmt ind st => IsIndent ind ∧ st.Ok
  | .code B => ¬ ".Should()".toList <:+: B ∧ closesContains B = true

/-- Rule `j` takes a line from where the rules before it left it to the next stage: it
rewrites the statement written for it and leaves every other line alone. -/
theorem sub_line {l : TestLine ContainsStmt} (hl : LineOk l) {j : Nat} {R : Rule}
    (hR : containsRules[j]? = some R) {y : List Char} (hy : Ends '\n' y) :
    R.sub (l.render (ContainsStmt.after j) ++ y) =
      l.render (ContainsStmt.after (j + 1)) ++ R.sub y := by
  obtain ⟨hj, hp⟩ := containsRules_getElem hR
  cases l with
  | code B =>
    exact containsRule_sub_inert hp (containsMatcher_reads j) (by decide)
      (containsMatcher_sep (.inr rfl) j) hl.2
      (fun h => hl.1 ((List.prefix_append _ _).isInfix.trans h)) hy
  | stmt ind st =>
    obtain ⟨hind, hst⟩ := hl
    refine R.sub_stmt_line (fun _ => R.sub_append_of_heads hp hind.identStart)
      (fun _ => R.sub_append_of_heads (x := [';']) hp (by decide)) ?_
    have hsemi : Ends ';' (';' :: y) := .inr ⟨y, rfl⟩
    rcases lt_trichotomy st.rule j with h | rfl | h
    · -- rewritten before: spells no `.Should()`
      rw [ContainsStmt.after, ContainsStmt.after, if_pos h, if_pos (by omega)]
      exact containsRule_sub_inert hp (containsMatcher_reads j) (by decide)
        (containsMatcher_sep (.inl rfl) j) (closesContains_of_closedParens st.closedParens_migrated)
        (fun h => hst.not_should_migrated ((List.prefix_append _ _).isInfix.trans h)) hsemi
    · -- the statement's own rule
      rw [ContainsStmt.after, ContainsStmt.after, if_neg (lt_irrefl _),
        if_pos (Nat.lt_succ_self _), st.sub_fire hst hR]
    · -- the other rule's statement
      rw [ContainsStmt.after, ContainsStmt.after, if_neg (by omega), if_neg (by omega)]
      exact containsRule_sub_inert hp (containsMatcher_reads j) (by decide)
        (containsMatcher_sep (.inl rfl) j) (closesContains_of_closedParens st.closedParens_text)
        (hst.not_call_other hj h.ne) hsemi

/-- After the two rules a file of their statements spells no `.Should()`. -/
theorem not_should_joinLines_migrated {ls : List (TestLine ContainsStmt)}
    (hls : ∀ l ∈ ls, LineOk l) :
    ¬ ".Should()".toList <:+: joinLines (ls.map (TestLine.render ContainsStmt.migrated)) := by
  refine joinLines_not_infix (by decide) (by decide) fun x hx => ?_
  obtain ⟨l, hl, rfl⟩ := List.mem_map.mp hx
  cases l with
  | code B => exact (hls _ hl).1
  | stmt ind st =>
    obtain ⟨hind, hst⟩ := hls _ hl
    exact not_infix_stmt_line (by decide) (hind.not_mem_of_space (by decide)) (by decide)
      hst.not_should_migrated

/-- On a file of `Contains` statements among lines that spell no `.Should()` and close every
`.Contains(` they open, `fix_complex_should_patterns` rewrites every statement into its
`Assert.Contains` or `Assert.DoesNotContain` and leaves every other line as it was. -/
theorem fixComplexShouldPatterns_contains {ls : List (TestLine ContainsStmt)}
    (hls : ∀ l ∈ ls, LineOk l) :
    fixComplexShouldPatterns (joinLines (ls.map (TestLine.render ContainsStmt.text))) =
      joinLines (ls.map (TestLine.render ContainsStmt.migrated)) := by
  rw [fixComplexShouldPatterns, applyAll_append, ← ContainsStmt.after_zero,
    applyAll_lines ContainsStmt.after ls containsRules
      (fun R hR _ => by
        obtain ⟨_, hp⟩ := containsRules_pat R hR
        exact R.sub_append_of_heads (x := ['\n']) hp (by decide))
      (fun _ _ hR l hl _ hy => sub_line (hls l hl) hR hy),
    show containsRules.length = 2 from rfl, ContainsStmt.after_two]
  exact applyAll_eq_self_of_absent
    (fun R hR => literals_of_all rules_literal R (List.mem_append_right _ hR))
    (List.forall_mem_singleton.mpr (not_should_joinLines_migrated hls))

end FixComplexShould

/-- On a test tree whose `.cs` files are files of `Contains` statements among lines that spell
no `.Should()` and close every `.Contains(` they open, `fix_complex_should.py` leaves every
`.cs` file with each statement rewritten into its assertion and every other line as it was. -/
theorem contains_statements_migrate (fs : FileSystem) (files : List SourceFile)
    (lines : List Char → List (TestLine FixComplexShould.ContainsStmt))
    (hfs : ∀ f ∈ files, fs f.path = some f.content) (hnd : (files.map SourceFile.path).Nodup)
    (hok : ∀ f ∈ files, isCs f.path = true → (∀ l ∈ lines f.path, FixComplexShould.LineOk l) ∧
      f.content = joinLines ((lines f.path).map
        (TestLine.render FixComplexShould.ContainsStmt.text))) :
    ∀ f ∈ files, isCs f.path = true →
      fs.commit (FixComplexShould.processTestDir files).written f.path =
        some (joinLines ((lines f.path).map
          (TestLine.render FixComplexShould.ContainsStmt.migrated))) := by
  intro f hf hcs
  obtain ⟨hls, hc⟩ := hok f hf hcs
  rw [FixComplexShould.processTestDir, commit_processFiles_cs_fix hnd hf hcs (hfs f hf)
    (FixComplexShould.skipFile_fixed _), hc, FixComplexShould.fixComplexShouldPatterns_contains hls]

/-- A test file with a statement of each rule around a line that calls `Contains` itself. -/
theorem contains_statements_migrate_sample :
    let ls : List (TestLine FixComplexShould.ContainsStmt) :=
      [.stmt "    ".toList (.beTrue "names".toList "\"a\"".toList),
        .code "    var ok = names.Contains(x);".toList,
        .stmt "    ".toList (.beFalse "names".toList "\"b\"".toList)]
    let files := [SourceFile.mk "T.cs".toList
      (joinLines (ls.map (TestLine.render FixComplexShould.ContainsStmt.text)))]
    (FileSystem.ofFiles files).commit (FixComplexShould.processTestDir files).written
        "T.cs".toList =
      some (joinLines (ls.map (TestLine.render FixComplexShould.ContainsStmt.migrated))) := by
  intro ls files
  have hn : Chain "names".toList := .ident ⟨rfl, by decide, by decide⟩
  have hok : ∀ l ∈ ls, FixComplexShould.LineOk l := by
    simp only [ls, List.forall_mem_cons, List.not_mem_nil, false_imp_iff, imp_true_iff,
      and_true]
    exact ⟨⟨by decide, hn, by decide, by decide, by decide⟩, ⟨by decide, by decide⟩,
      ⟨by decide, hn, by decide, by decide, by decide⟩⟩
  have h := contains_statements_migrate (FileSystem.ofFiles files) files (fun _ => ls)
    (by simp [files, FileSystem.ofFiles]) (by decide)
    fun f hf _ => by rw [List.mem_singleton.mp hf]; exact ⟨hok, rfl⟩
  exact h ⟨"T.cs".toList, joinLines (ls.map (TestLine.render FixComplexShould.ContainsStmt.text))⟩
    (List.mem_singleton_self _) (by decide)

end AssertMigration
