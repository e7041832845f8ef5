import AssertMigration.Rewrite.LineFacts
import AssertMigration.Scripts.ShouldRules

/-!
# One generic rule over a buffer of statements

How one generic rule (`ShouldSpec`) acts on a line of the core grammar: it rewrites a
statement of its own matcher into the template and copies every other line
(`ShouldSpec.Fits.sub_line`); a table of such rules then rewrites the statements of every
matcher it names (`ShouldSpec.applyAll_lines`, the run lemma `applyAll_lines` of
`Rewrite/LineScan.lean` over these steps).

The proof looks at every place where a match could start. A match of
`([a-zA-Z_][C]*?)\.Should\(\)\.N\(` is a receiver of class characters followed by the
literal `.Should().N(` (`matchToks_receiver_split`). No class holds `;`, so a match that
starts inside a statement needs that literal before the statement's `;`
(`matchToks_receiver_none`), and the literal occurs in a statement only right after the
receiver of a statement of matcher `N` (`fluentCall_not_call`), where the lazy receiver
stops at once and the argument group reads the whole argument (`shouldPat_match`).
-/

namespace AssertMigration

variable {C : Char → Bool} {w x y : List Char} {ts : List Tok} {ms : Marks}

/-! ## Receiver patterns -/

theorem receiver_append (C : Char → Bool) (ts : List Tok) :
    receiver C ++ ts = .mark :: .cls identStart :: .lazyStar C :: .mark :: ts := rfl

theorem matchToks_receiver_head_none {c : Char} (hc : identStart c = false) (t : List Char) :
    matchToks (receiver C ++ ts) ms (c :: t) = none := by
  rw [receiver_append, matchToks_mark, matchToks_cls_cons, if_neg (by simp [hc])]

/-- A match of a receiver pattern is a receiver followed by the pattern's literal. -/
theorem matchToks_receiver_split {t : List Char} {res : Marks × List Char}
    (h : matchToks (receiver C ++ (w.map .chr ++ ts)) ms t = some res) :
    ∃ c u z ms', t = c :: (u ++ (w ++ z)) ∧ identStart c = true ∧ (∀ e ∈ u, C e = true) ∧
      matchToks ts ms' z = some res := by
  cases t with
  | nil => cases h
  | cons c t =>
    rw [receiver_append, matchToks_mark, matchToks_cls_cons] at h
    by_cases hc : identStart c = true
    · rw [if_pos hc, matchToks_lazyStar] at h
      obtain ⟨u, v, rfl, hu, hv⟩ := lazy_some_split h
      rw [matchToks_mark] at hv
      by_cases hw : w <+: v
      · obtain ⟨z, rfl⟩ := hw
        rw [matchToks_chrs] at hv
        exact ⟨c, u, z, _, rfl, hc, hu, hv⟩
      · rw [matchToks_chrs_of_mismatch hw] at hv; cases hv
    · rw [if_neg hc] at h; cases h

/-- A match starting before a character `d` that is neither a class nor a start character
needs its literal before `d`. -/
theorem matchToks_receiver_none {d : Char} (hd : C d = false) (hd' : identStart d = false)
    (hw : d ∉ w) (hx : ¬ w <:+: x) :
    matchToks (receiver C ++ (w.map .chr ++ ts)) ms (x ++ d :: y) = none := by
  cases h : matchToks (receiver C ++ (w.map .chr ++ ts)) ms (x ++ d :: y) with
  | none => rfl
  | some res =>
    obtain ⟨c, u, z, _, ht, hc, hu, -⟩ := matchToks_receiver_split h
    have hdu : d ∉ c :: (u ++ w) := by
      simp only [List.mem_cons, List.mem_append, not_or]
      exact ⟨fun h => by subst h; simp [hd'] at hc, fun h => by simp [hu d h] at hd, hw⟩
    obtain ⟨z', rfl, -⟩ := append_split_of_not_mem (z := z) (by rw [ht]; simp) hdu
    exact (hx ⟨c :: u, z', by simp⟩).elim

namespace Rule

variable {R : Rule}

/-- Characters where no receiver can start are copied. -/
theorem sub_append_of_heads (hp : R.pat = receiver C ++ ts) (hx : ∀ c ∈ x, identStart c = false) :
    R.sub (x ++ y) = x ++ R.sub y := by
  refine R.sub_append_of_none fun i hi => ?_
  rw [List.drop_eq_getElem_cons hi, List.cons_append, hp]
  exact matchToks_receiver_head_none (hx _ (List.getElem_mem hi)) _

/-- A stretch without the literal, ended by a character outside the class, is copied. -/
theorem sub_append_of_absent {d : Char} (hp : R.pat = receiver C ++ (w.map .chr ++ ts))
    (hd : C d = false) (hd' : identStart d = false) (hw : d ∉ w) (hx : ¬ w <:+: x) :
    R.sub (x ++ d :: y) = x ++ R.sub (d :: y) := by
  refine R.sub_append_of_none fun i _ => ?_
  rw [hp]
  exact matchToks_receiver_none hd hd' hw fun h => hx (h.trans (List.drop_suffix i x).isInfix)

end Rule

/-! ## The argument of a generic rule -/

/-- The arguments an argument form reads. -/
def ArgForm.Fits : ArgForm → List Char → Prop
  | .empty, a => a = []
  | .capture, a => a ≠ [] ∧ ')' ∉ a
  | .discard, a => ')' ∉ a

/-- The marks the argument form adds when it reads `a` before `)s`. -/
def ArgForm.marks : ArgForm → List Char → List Char → Marks
  | .capture, a, s => [a ++ ')' :: s, ')' :: s]
  | _, _, _ => []

theorem notChar_close_of_not_mem {a : List Char} (h : ')' ∉ a) :
    ∀ c ∈ a, notChar ')' c = true :=
  notChar_of_not_mem h

/-- The argument form reads the whole argument and the closing parenthesis. -/
theorem ArgForm.close_match {arg : ArgForm} {a : List Char} (ha : arg.Fits a) (s : List Char) :
    matchToks arg.close ms (a ++ ')' :: s) = some (ms ++ arg.marks a s, s) := by
  cases arg with
  | empty => subst ha; simp [ArgForm.close, ArgForm.marks, str]
  | capture =>
    obtain ⟨c, a, rfl⟩ := List.exists_cons_of_ne_nil ha.1
    have hc := notChar_close_of_not_mem ha.2
    simp only [ArgForm.close, grp, plus, str, List.cons_append, List.nil_append,
      matchToks_mark, List.cons_append, matchToks_cls_cons, hc c (List.mem_cons_self c a),
      if_true, matchToks_star]
    rw [greedy_append_of_some (fun e he => hc e (List.mem_cons_of_mem c he))
      (by rw [greedy_cons_stop (by simp [notChar])]; rfl)]
    simp [ArgForm.marks]
  | discard =>
    simp only [ArgForm.close, str, matchToks_star]
    rw [greedy_append_of_some (notChar_close_of_not_mem ha)
      (by rw [greedy_cons_stop (by simp [notChar])]; rfl)]
    simp [ArgForm.marks]

/-- What group 2 holds after the argument form read `a`. -/
def ArgForm.captured : ArgForm → List Char → List Char
  | .capture, a => a
  | _, _ => []

theorem groupText_marks (t X : List Char) (arg : ArgForm) (a s : List Char) :
    groupText ([t, X] ++ arg.marks a s) 2 = arg.captured a := by
  cases arg <;> simp [groupText, ArgForm.marks, ArgForm.captured]

/-- A generic rule matches `x.Should().M(a)` at `x` when `x` starts a receiver, stays in the
receiver class and spells no `.Should()`: the lazy receiver stops before the first `.Should()`,
which follows the whole of `x`. -/
theorem shouldPat_match_recv {x a : List Char} {N : Matcher} {arg : ArgForm}
    (hx : ∃ c x', x = c :: x' ∧ identStart c = true) (hC : ∀ c ∈ x, C c = true)
    (hS : ¬ ".Should()".toList <:+: x) (ha : arg.Fits a) (s : List Char) :
    ∃ ms, matchToks (shouldPat C N.name arg) [] (x ++ (N.call ++ (a ++ ')' :: s))) =
      some (ms, s) ∧ groupText ms 1 = x ∧ groupText ms 2 = arg.captured a := by
  obtain ⟨c, x', rfl, hc⟩ := hx
  have hSN : ".Should()".toList <+: N.call := ⟨_, (Matcher.call_eq N).symm⟩
  have hX : N.call ++ (a ++ ')' :: s) =
      ".Should()".toList ++ ('.' :: (N.name.toList ++ ['(']) ++ (a ++ ')' :: s)) := by
    rw [Matcher.call_eq, List.append_assoc]
  have hpat : shouldPat C N.name arg =
      .mark :: .cls identStart :: .lazyStar C :: .mark :: (N.call.map .chr ++ arg.close) := rfl
  refine ⟨[c :: (x' ++ (N.call ++ (a ++ ')' :: s))), N.call ++ (a ++ ')' :: s)] ++ arg.marks a s,
    ?_, groupText_one (c :: x') _ _, groupText_marks _ _ _ _ _⟩
  rw [hpat, matchToks_mark, List.nil_append, List.cons_append, matchToks_cls_cons, if_pos hc,
    matchToks_lazyStar, lazy_append_of_none (fun e he => hC e (List.mem_cons_of_mem c he))]
  · exact lazy_of_some (by rw [matchToks_mark, List.singleton_append, matchToks_chrs,
      ArgForm.close_match ha s])
  · intro i hi
    rw [matchToks_mark, matchToks_chrs_of_mismatch]
    intro h
    rw [hX] at h
    exact (by decide : Unbordered ".Should()".toList).not_prefix_drop_append
      (fun h' => hS (h'.trans (List.suffix_cons c x').isInfix)) hi (hSN.trans (hX ▸ h))

/-- A generic rule matches a statement of its matcher at the receiver chain. -/
theorem shouldPat_match {r a : List Char} {N : Matcher} {arg : ArgForm} (hr : Chain r)
    (hC : ∀ c ∈ r, C c = true) (ha : arg.Fits a) (s : List Char) :
    ∃ ms, matchToks (shouldPat C N.name arg) [] (r ++ (N.call ++ (a ++ ')' :: s))) =
      some (ms, s) ∧ groupText ms 1 = r ∧ groupText ms 2 = arg.captured a :=
  shouldPat_match_recv hr.head hC hr.not_infix_should ha s

/-! ## Rules that fit a matcher -/

/-- The template of a shape as replacement pieces. -/
def AssertShape.pieces : AssertShape → List Piece
  | .unary x => ("Assert." ++ x ++ "(").toList.map .text ++ [.group 1, .text ')']
  | .flipped x => ("Assert." ++ x ++ "(").toList.map .text ++
      (.group 2 :: .text ',' :: .text ' ' :: [.group 1, .text ')'])
  | .count => "Assert.Equal(".toList.map .text ++
      (.group 2 :: .text ',' :: .text ' ' :: .group 1 :: ".Count)".toList.map .text)
  | .compare op => "Assert.True(".toList.map .text ++
      (.group 1 :: .text ' ' :: op.toList.map .text ++ [.text ' ', .group 2, .text ')'])

theorem AssertShape.expand_pieces (g : Nat → List Char) (sh : AssertShape) :
    expand g sh.pieces = sh.render (g 1) (g 2) := by
  cases sh <;> simp [pieces, render, expand_texts, expand]

/-- A generic rule that rewrites matcher `N` into its template. -/
def ShouldSpec.Fits (sp : ShouldSpec) (N : Matcher) : Prop :=
  sp.name = N.name ∧ (N.takesArg = true ↔ sp.arg = .capture) ∧ sp.rule.tmpl = N.shape.pieces

instance (sp : ShouldSpec) (N : Matcher) : Decidable (sp.Fits N) :=
  inferInstanceAs (Decidable (_ ∧ _))

theorem RecvClass.pred_of_receiverChar (cl : RecvClass) {c : Char} (h : receiverChar c = true) :
    cl.pred c = true := by
  cases cl <;> simp [pred, receiverCharBang, receiverCharCompare, h]

theorem RecvClass.pred_semi (cl : RecvClass) : cl.pred ';' = false := by
  cases cl <;> decide

variable {sp : ShouldSpec} {N : Matcher}

theorem ShouldSpec.Fits.pat (hN : sp.Fits N) :
    sp.rule.pat = receiver sp.recv.pred ++ (N.call.map .chr ++ sp.arg.close) := by
  simp only [ShouldSpec.rule, reSub, hN.1, shouldPat]; rfl

theorem ShouldSpec.Fits.arg {a : List Char} (hN : sp.Fits N) (ha : ArgOk N a) :
    sp.arg.Fits a ∧ sp.arg.captured a = a := by
  obtain ⟨-, harg, -⟩ := hN
  unfold ArgOk at ha
  cases hT : N.takesArg <;> simp only [hT, if_true, if_false, true_iff, false_iff] at ha harg
  · subst ha; cases h : sp.arg <;> simp_all [ArgForm.Fits, ArgForm.captured]
  · simp [harg, ArgForm.Fits, ArgForm.captured, ha.1, ha.2.2.1]

theorem ShouldSpec.Fits.sub_newline (hN : sp.Fits N) (y : List Char) :
    sp.rule.sub ('\n' :: y) = '\n' :: sp.rule.sub y :=
  sp.rule.sub_append_of_heads (x := ['\n']) hN.pat (by simp; decide)

/-- A statement whose body lacks the rule's literal is copied. -/
theorem ShouldSpec.Fits.sub_copy {ind B : List Char} (hN : sp.Fits N) (hi : IsIndent ind)
    (hB : ¬ N.call <:+: B) (y : List Char) :
    sp.rule.sub (ind ++ (B ++ [';']) ++ y) = ind ++ (B ++ [';']) ++ sp.rule.sub y := by
  simp only [List.append_assoc, List.singleton_append]
  rw [sp.rule.sub_append_of_heads hN.pat hi.identStart,
    sp.rule.sub_append_of_absent hN.pat sp.recv.pred_semi (by decide) N.semi_not_mem_call hB,
    ← List.singleton_append, sp.rule.sub_append_of_heads hN.pat (by decide)]
  rfl

/-- A rule rewrites a call of its matcher on any receiver that starts a receiver, stays in
the rule's receiver class and spells no `.Should()`. -/
theorem ShouldSpec.Fits.sub_fire_recv {x a : List Char} (hN : sp.Fits N)
    (hx : ∃ c x', x = c :: x' ∧ identStart c = true) (hC : ∀ c ∈ x, sp.recv.pred c = true)
    (hS : ¬ ".Should()".toList <:+: x) (ha : ArgOk N a) (y : List Char) :
    sp.rule.sub (fluentCall x N a ++ y) = N.assertTemplate x a ++ sp.rule.sub y := by
  obtain ⟨haf, hcap⟩ := hN.arg ha
  obtain ⟨ms, hm, h1, h2⟩ := shouldPat_match_recv (N := N) hx hC hS haf y
  have hp : sp.rule.pat = shouldPat sp.recv.pred N.name sp.arg := by rw [← hN.1]; rfl
  simp only [fluentCall, List.append_assoc, List.cons_append, List.singleton_append]
  rw [sp.rule.sub_of_some (hp ▸ hm), hN.2.2, AssertShape.expand_pieces, h1, h2, hcap]
  rfl

/-- A statement of the rule's matcher is rewritten into the template. -/
theorem ShouldSpec.Fits.sub_fire {ind r a : List Char} (hN : sp.Fits N) (hi : IsIndent ind)
    (hr : Chain r) (ha : ArgOk N a) (y : List Char) :
    sp.rule.sub (ind ++ (fluentCall r N a ++ [';']) ++ y) =
      ind ++ (N.assertTemplate r a ++ [';']) ++ sp.rule.sub y := by
  have hsemi : sp.rule.sub (';' :: y) = ';' :: sp.rule.sub y :=
    sp.rule.sub_append_of_heads (x := [';']) hN.pat (by decide)
  simp only [List.append_assoc, List.singleton_append]
  rw [sp.rule.sub_append_of_heads hN.pat hi.identStart, hN.sub_fire_recv hr.head
    (fun c hc => sp.recv.pred_of_receiverChar (hr.receiverChar_of_mem c hc)) hr.not_infix_should
    ha, hsemi]

/-- One generic rule on one line: a statement of its matcher is rewritten, every other line
is copied. -/
theorem ShouldSpec.Fits.sub_line (hN : sp.Fits N) {l : Line} (hl : l.Core fun _ => true)
    (S : List String) (y : List Char) :
    sp.rule.sub (l.after S ++ y) = l.after (sp.name :: S) ++ sp.rule.sub y := by
  have hSN : ".Should()".toList <+: N.call := ⟨_, (Matcher.call_eq N).symm⟩
  rcases l with ⟨ind, ⟨r, m, a⟩⟩ | ws
  · obtain ⟨hi, hr, -, ha⟩ := hl
    simp only [Line.after_stmt, Fluent.after, List.mem_cons]
    by_cases hS : m.name ∈ S
    · simp only [hS, or_true, if_true]
      exact hN.sub_copy hi (fun h => m.template_not_should hr ha (hSN.isInfix.trans h)) y
    by_cases hm : m = N
    · subst hm
      simp only [hS, hN.1, true_or, if_true, if_false]
      exact hN.sub_fire hi hr ha y
    · have hne : m.name ≠ sp.name := fun h => hm (Matcher.name_injective (by rw [h, hN.1]))
      simp only [hS, hne, false_or, if_false]
      exact hN.sub_copy hi (fluentCall_not_call hr ha (Ne.symm hm)) y
  · exact sp.rule.sub_append_of_heads hN.pat (IsIndent.identStart hl)

/-- The names of the first `j` rules of a table, the last first. -/
theorem ShouldSpec.names_take_succ {sps : List ShouldSpec} {j : Nat} {sp : ShouldSpec}
    (h : sps[j]? = some sp) :
    ((sps.take (j + 1)).map ShouldSpec.name).reverse =
      sp.name :: ((sps.take j).map ShouldSpec.name).reverse := by
  rw [List.take_succ, h]
  simp

/-- A table of generic rules, each fitting some matcher, rewrites the statements of every
matcher it names: the run lemma `applyAll_lines` over the steps `ShouldSpec.Fits.sub_line`. -/
theorem ShouldSpec.applyAll_lines {sps : List ShouldSpec}
    (hsps : ∀ sp ∈ sps, ∃ N ∈ Matcher.all, sp.Fits N) (S : List String) {ls : List Line}
    (hls : ∀ l ∈ ls, l.Core fun _ => true) :
    applyAll (sps.map ShouldSpec.rule) (joinLines (ls.map (Line.after S))) =
      joinLines (ls.map (Line.after ((sps.map ShouldSpec.name).reverse ++ S))) := by
  have h := AssertMigration.applyAll_lines (fun j => Fluent.after (((sps.take j).map ShouldSpec.name).reverse ++ S))
    ls (sps.map ShouldSpec.rule) (fun R hR y => ?_) (fun j R hR l hl y _ => ?_)
  · simpa using h
  · obtain ⟨sp, hsp, rfl⟩ := List.mem_map.mp hR
    obtain ⟨N, -, hN⟩ := hsps sp hsp
    exact hN.sub_newline y
  · rw [List.getElem?_map] at hR
    obtain ⟨sp, hsp, rfl⟩ := Option.map_eq_some'.mp hR
    obtain ⟨N, -, hN⟩ := hsps sp (List.getElem?_mem hsp)
    dsimp only
    rw [ShouldSpec.names_take_succ hsp, List.cons_append]
    exact hN.sub_line (hls l hl) _ y

end AssertMigration
