import AssertMigration.Rewrite.ShouldStep

/-!
# Statements after quiet text

A generic table rewrites a statement the same way whatever text stands before it, as long
as no rule can start a match in that text and run on into the statement. `QuietPrefix P`
collects what that takes of the text `P`: no `.Should()`, `.Assert.` or `?`, every `(` closed
inside `P`, and only whitespace after the last character of `P` that the receiver classes do
not read.

## Main definitions

- `closedParens`, `quietTail`, `lineStart`: layout conditions on `P`, as computations.
- `QuietPrefix`: the text that may stand before a statement for every rule of the generic
  tables; `LinePrefix`: the text before a statement at the start of a line, enough for the
  rules whose receivers do not read whitespace.
- `Inert pat x`: no match of `pat` starts inside `x`, whatever follows `x`.

## Design notes

`StopsBefore D P` says where a match can start in `P`: at whitespace, or before a later
character of `D` that only whitespace follows. A quiet text stops every match before its
last character outside the receiver classes (`quietTail_stops`), a text at the start of a
line before its last line break (`lineStart_stops`). Each kind of rule then has one
inertness lemma: receiver rules (`Inert.receiver_of_stops`), rules that start with a
literal (`Inert.literal_of_stops`), rules that read `(` and then no `)` before a `?`
(`Inert.qmark`), and the composed `Contains` rules of `fix_complex_should.py`
(`Inert.contains`).
-/

namespace AssertMigration

/-- Whether every `(` of the text is followed, later in it, by a `)`. -/
def closedParens : List Char → Bool
  | [] => true
  | c :: t => (c != '(' || t.contains ')') && closedParens t

theorem closedParens_cons {c : Char} {t : List Char} :
    closedParens (c :: t) = true ↔ (c = '(' → ')' ∈ t) ∧ closedParens t = true := by
  simp [closedParens, imp_iff_not_or]

theorem closedParens_close {x : List Char} (h : closedParens x = true) :
    ∀ {p q : List Char}, x = p ++ '(' :: q → ')' ∈ q := by
  induction x with
  | nil => intro p q he; simp at he
  | cons c t ih =>
    intro p q he
    rw [closedParens_cons] at h
    cases p with
    | nil =>
      obtain ⟨rfl, rfl⟩ := List.cons.inj he
      exact h.1 rfl
    | cons _ p => exact ih h.2 (List.cons.inj he).2

theorem closedParens_append {x y : List Char} (hx : closedParens x = true)
    (hy : closedParens y = true) : closedParens (x ++ y) = true := by
  induction x with
  | nil => exact hy
  | cons c t ih =>
    rw [closedParens_cons] at hx
    exact closedParens_cons.mpr ⟨fun hc => List.mem_append_left y (hx.1 hc), ih hx.2⟩

theorem closedParens_concat (x : List Char) : closedParens (x ++ [')']) = true := by
  induction x with
  | nil => rfl
  | cons c t ih => exact closedParens_cons.mpr ⟨fun _ => by simp, ih⟩

/-- Whether the text ends, after its last character outside `[a-zA-Z0-9_.\[\]()<>=!\s]`,
in whitespace only. -/
def quietTail (P : List Char) : Bool :=
  match P.reverse.dropWhile isPySpace with
  | [] => true
  | d :: _ => !receiverCharCompare d

/-- Where a match can start in `P`: at whitespace, or before a later character `d` with
`D d` that only whitespace follows. -/
def StopsBefore (D : Char → Bool) (P : List Char) : Prop :=
  ∀ i < P.length, (∃ e t, P.drop i = e :: t ∧ isPySpace e = true) ∨
    ∃ x d ws, P.drop i = x ++ d :: ws ∧ D d = true ∧ ∀ c ∈ ws, isPySpace c = true

/-- A text made of whitespace after its last character of `D` stops every match there. -/
theorem stopsBefore_append {D : Char → Bool} {P₁ ws : List Char}
    (hws : ∀ c ∈ ws, isPySpace c = true) (hP₁ : P₁ = [] ∨ ∃ t d, P₁ = t ++ [d] ∧ D d = true) :
    StopsBefore D (P₁ ++ ws) := by
  intro i hi
  have hA : P₁.length ≤ i → ∃ e t, (P₁ ++ ws).drop i = e :: t ∧ isPySpace e = true := by
    intro hle
    rw [List.drop_append_eq_append_drop, List.drop_eq_nil_of_le hle, List.nil_append]
    have hj : i - P₁.length < ws.length := by simp at hi; omega
    exact ⟨_, _, List.drop_eq_getElem_cons hj, hws _ (List.getElem_mem hj)⟩
  rcases hP₁ with rfl | ⟨t, d, rfl, hd⟩
  · exact .inl (hA (Nat.zero_le i))
  · by_cases hle : i ≤ t.length
    · refine .inr ⟨t.drop i, d, ws, ?_, hd, hws⟩
      rw [List.append_assoc, List.singleton_append, List.drop_append_of_le_length hle]
    · exact .inl (hA (by simp; omega))

/-- A text cut after its last character outside `p`. -/
theorem eq_dropWhile_append_takeWhile (p : Char → Bool) (P : List Char) :
    P = (P.reverse.dropWhile p).reverse ++ (P.reverse.takeWhile p).reverse := by
  rw [← List.reverse_append, List.takeWhile_append_dropWhile, List.reverse_reverse]

/-- A position of a quiet text lies in its trailing whitespace or before its last character
outside the receiver classes. -/
theorem quietTail_stops {P : List Char} (h : quietTail P = true) :
    StopsBefore (fun d => !receiverCharCompare d) P := by
  rw [eq_dropWhile_append_takeWhile isPySpace P]
  refine stopsBefore_append (fun c hc => List.mem_takeWhile_imp (List.mem_reverse.mp hc)) ?_
  rcases hD : P.reverse.dropWhile isPySpace with _ | ⟨d, t⟩
  · exact .inl rfl
  · rw [quietTail, hD] at h
    exact .inr ⟨t.reverse, d, by simp, h⟩

/-- Whether the text is empty or ends at the start of a line: what is left of it once its
trailing indentation is dropped is empty or ends in a line break. -/
def lineStart (P : List Char) : Bool :=
  match P.reverse.dropWhile fun c => isPySpace c && c != '\n' with
  | [] => true
  | d :: _ => d == '\n'

/-- A position of a text at a line start lies in its indentation or before its last line
break. -/
theorem lineStart_stops {P : List Char} (h : lineStart P = true) :
    StopsBefore (· == '\n') P := by
  rw [eq_dropWhile_append_takeWhile (fun c => isPySpace c && c != '\n') P]
  refine stopsBefore_append (fun c hc => ?_) ?_
  · have hc' := List.mem_takeWhile_imp (List.mem_reverse.mp hc)
    simp only [Bool.and_eq_true] at hc'
    exact hc'.1
  rcases hD : P.reverse.dropWhile (fun c => isPySpace c && c != '\n') with _ | ⟨d, t⟩
  · exact .inl rfl
  · rw [lineStart, hD] at h
    exact .inr ⟨t.reverse, d, by simp, h⟩

/-- Text that may stand before a statement without any rule of the generic tables reading
into the statement from it. -/
structure QuietPrefix (P : List Char) : Prop where
  not_should : ¬ ".Should()".toList <:+: P
  not_assert : ¬ ".Assert.".toList <:+: P
  not_qmark : '?' ∉ P
  closed : closedParens P = true
  tail : quietTail P = true

instance (P : List Char) : Decidable (QuietPrefix P) :=
  decidable_of_iff (¬ ".Should()".toList <:+: P ∧ ¬ ".Assert.".toList <:+: P ∧ '?' ∉ P ∧
      closedParens P = true ∧ quietTail P = true)
    ⟨fun ⟨a, b, c, d, e⟩ => ⟨a, b, c, d, e⟩, fun ⟨a, b, c, d, e⟩ => ⟨a, b, c, d, e⟩⟩

/-- Text that may stand before a statement at the start of a line: no `.Should()`, no
`.Assert.`, and empty or ending in a line break and an indentation. -/
structure LinePrefix (P : List Char) : Prop where
  not_should : ¬ ".Should()".toList <:+: P
  not_assert : ¬ ".Assert.".toList <:+: P
  line_start : lineStart P = true

instance (P : List Char) : Decidable (LinePrefix P) :=
  decidable_of_iff (¬ ".Should()".toList <:+: P ∧ ¬ ".Assert.".toList <:+: P ∧
      lineStart P = true)
    ⟨fun ⟨a, b, c⟩ => ⟨a, b, c⟩, fun ⟨a, b, c⟩ => ⟨a, b, c⟩⟩

/-! ## Where no match starts -/

/-- No match of the pattern starts inside `x`, whatever text follows `x`. -/
def Inert (pat : List Tok) (x : List Char) : Prop :=
  ∀ i < x.length, ∀ z, matchToks pat [] (x.drop i ++ z) = none

/-- A rule copies a stretch of text in which none of its matches starts. -/
theorem Rule.sub_append_of_inert (R : Rule) {x : List Char} (h : Inert R.pat x)
    (y : List Char) : R.sub (x ++ y) = x ++ R.sub y :=
  R.sub_append_of_none fun i hi => h i hi y

/-- A table each of whose rules copies `X` in front of any text copies it. -/
theorem applyAll_frame (rs : List Rule) (X : List Char)
    (h : ∀ R ∈ rs, ∀ y, R.sub (X ++ y) = X ++ R.sub y) (y : List Char) :
    applyAll rs (X ++ y) = X ++ applyAll rs y := by
  induction rs generalizing y with
  | nil => rfl
  | cons R rs ih =>
    rw [applyAll_cons, h R (List.mem_cons_self R rs),
      ih (fun R' hR' => h R' (List.mem_cons_of_mem R hR')), applyAll_cons]

/-- A rule that starts with a literal copies a text without it up to a character foreign to
the literal. -/
theorem Rule.sub_append_of_literal (R : Rule) {w x : List Char} {ts : List Tok} {d : Char}
    (hp : R.pat = w.map .chr ++ ts) (hd : d ∉ w) (hx : ¬ w <:+: x) (y : List Char) :
    R.sub (x ++ d :: y) = x ++ d :: R.sub y := by
  have h := R.sub_append_of_none (x := x ++ [d]) (y := y) fun i hi => by
    rw [hp]
    refine matchToks_chrs_of_mismatch fun hpre => hx ?_
    have hi' : i ≤ x.length := by simp at hi; omega
    rw [List.drop_append_of_le_length hi', List.append_assoc, List.singleton_append] at hpre
    exact (prefix_of_prefix_append_cons hd hpre).isInfix.trans (List.drop_suffix i x).isInfix
  simpa using h

theorem receiverCharCompare_of_identStart {c : Char} (h : identStart c = true) :
    receiverCharCompare c = true := by
  simp [receiverCharCompare, receiverChar, identChar_of_identStart h]

variable {C : Char → Bool} {w P : List Char} {ts : List Tok}

theorem infix_of_drop_eq {i : Nat} {x z : List Char} (h : P.drop i = x ++ z) : x <:+: P :=
  (List.prefix_append x z).isInfix.trans (h ▸ (List.drop_suffix i P).isInfix)

/-- A receiver rule starts no match in a text without its literal where every match stops
before a character that is outside its class, starts no receiver and is foreign to the
literal. -/
theorem Inert.receiver_of_stops {D : Char → Bool} (hP : StopsBefore D P)
    (hD : ∀ d, D d = true → C d = false ∧ identStart d = false ∧ d ∉ w) (hwP : ¬ w <:+: P) :
    Inert (receiver C ++ (w.map .chr ++ ts)) P := by
  intro i hi z
  rcases hP i hi with ⟨e, t, he, hs⟩ | ⟨x, d, ws, hx, hd, -⟩
  · rw [he, List.cons_append]
    exact matchToks_receiver_head_none (identStart_eq_false_of_isPySpace hs) _
  · obtain ⟨h1, h2, h3⟩ := hD d hd
    rw [hx, List.append_assoc, List.cons_append]
    exact matchToks_receiver_none h1 h2 h3 fun h => hwP (h.trans (infix_of_drop_eq hx))

/-- A receiver rule whose class and literal lie in the widest receiver class starts no
match in a quiet text without its literal. -/
theorem Inert.receiver (hP : quietTail P = true)
    (hC : ∀ c, C c = true → receiverCharCompare c = true)
    (hw : ∀ c ∈ w, receiverCharCompare c = true) (hwP : ¬ w <:+: P) :
    Inert (receiver C ++ (w.map .chr ++ ts)) P :=
  Inert.receiver_of_stops (quietTail_stops hP) (fun d hd =>
    ⟨Bool.eq_false_iff.mpr fun h => by simp [hC d h] at hd,
      Bool.eq_false_iff.mpr fun h => by simp [receiverCharCompare_of_identStart h] at hd,
      fun hm => by simp [hw d hm] at hd⟩) hwP

/-- A receiver rule copies a text in which it starts no match and a statement without its
literal, up to the statement's `;`. -/
theorem Rule.sub_statement_of_inert (R : Rule) (hI : Inert R.pat P)
    (hp : R.pat = receiver C ++ (w.map .chr ++ ts)) (hCs : C ';' = false) (hs : ';' ∉ w)
    {L : List Char} (hwL : ¬ w <:+: L) (y : List Char) :
    R.sub (P ++ (L ++ ';' :: y)) = P ++ (L ++ ';' :: R.sub y) := by
  have hsemi : R.sub (';' :: y) = ';' :: R.sub y :=
    R.sub_append_of_heads (x := [';']) hp (by simp; decide)
  rw [R.sub_append_of_inert hI, R.sub_append_of_absent hp hCs (by decide) hs hwL, hsemi]

/-- A receiver rule copies a quiet text and a statement without its literal, up to the
statement's `;`. -/
theorem Rule.sub_quiet_statement (R : Rule) (hp : R.pat = receiver C ++ (w.map .chr ++ ts))
    (hP : quietTail P = true) (hC : ∀ c, C c = true → receiverCharCompare c = true)
    (hCs : C ';' = false) (hw : ∀ c ∈ w, receiverCharCompare c = true) (hs : ';' ∉ w)
    (hwP : ¬ w <:+: P) {L : List Char} (hwL : ¬ w <:+: L) (y : List Char) :
    R.sub (P ++ (L ++ ';' :: y)) = P ++ (L ++ ';' :: R.sub y) :=
  R.sub_statement_of_inert (hp ▸ Inert.receiver hP hC hw hwP) hp hCs hs hwL y

/-- A rule that starts with a literal without whitespace starts no match in a text without
the literal where every match stops before a character foreign to the literal. -/
theorem Inert.literal_of_stops {D : Char → Bool} (hP : StopsBefore D P)
    (hD : ∀ d, D d = true → d ∉ w) (hw : ∀ c ∈ w, isPySpace c = false) (hwP : ¬ w <:+: P) :
    Inert (w.map .chr ++ ts) P := by
  intro i hi z
  refine matchToks_chrs_of_mismatch fun hpre => ?_
  rcases hP i hi with ⟨e, t, he, hs⟩ | ⟨x, d, ws, hx, hd, -⟩
  · rw [he, List.cons_append] at hpre
    cases w with
    | nil => exact hwP List.nil_infix
    | cons c w =>
      obtain ⟨rfl, -⟩ := List.cons_prefix_cons.mp hpre
      simp [hw c (List.mem_cons_self c w)] at hs
  · rw [hx, List.append_assoc, List.cons_append] at hpre
    exact hwP ((prefix_of_prefix_append_cons (hD d hd) hpre).isInfix.trans (infix_of_drop_eq hx))

/-- A rule that starts with a literal of receiver characters other than whitespace starts
no match in a quiet text without that literal. -/
theorem Inert.literal (hP : quietTail P = true)
    (hw : ∀ c ∈ w, receiverCharCompare c = true ∧ isPySpace c = false) (hwP : ¬ w <:+: P) :
    Inert (w.map .chr ++ ts) P :=
  Inert.literal_of_stops (quietTail_stops hP) (fun d hd hm => by simp [(hw d hm).1] at hd)
    (fun c hc => (hw c hc).2) hwP

/-- A rule that starts with a literal copies a text in which it starts no match and a
statement without the literal, up to the statement's `;`. -/
theorem Rule.sub_statement_literal_of_inert (R : Rule) (hI : Inert R.pat P)
    (hp : R.pat = w.map .chr ++ ts) (hs : ';' ∉ w) {L : List Char} (hwL : ¬ w <:+: L)
    (y : List Char) : R.sub (P ++ (L ++ ';' :: y)) = P ++ (L ++ ';' :: R.sub y) := by
  rw [R.sub_append_of_inert hI, R.sub_append_of_literal hp hs hwL]

/-- A rule that starts with a literal copies a quiet text and a statement without the
literal, up to the statement's `;`. -/
theorem Rule.sub_quiet_statement_literal (R : Rule) (hp : R.pat = w.map .chr ++ ts)
    (hP : quietTail P = true)
    (hw : ∀ c ∈ w, receiverCharCompare c = true ∧ isPySpace c = false) (hs : ';' ∉ w)
    (hwP : ¬ w <:+: P) {L : List Char} (hwL : ¬ w <:+: L) (y : List Char) :
    R.sub (P ++ (L ++ ';' :: y)) = P ++ (L ++ ';' :: R.sub y) :=
  R.sub_statement_literal_of_inert (hp ▸ Inert.literal hP hw hwP) hp hs hwL y

/-- A rule that reads `(` and then no `)` before a `?` starts no match in a text without `?`
whose parentheses close inside it. -/
theorem Inert.qmark {x : List Char} (hts : readsBefore ')' ['?'] ts = true) (hq : '?' ∉ x)
    (hc : closedParens x = true) : Inert (.chr '(' :: ts) x := by
  intro i hi z
  cases hm : matchToks (.chr '(' :: ts) [] (x.drop i ++ z) with
  | none => rfl
  | some res =>
    exfalso
    rw [List.drop_eq_getElem_cons hi, List.cons_append, matchToks_chr_cons] at hm
    split_ifs at hm with h0
    obtain ⟨v, u, hvu, hv⟩ := readsBefore_split hts hm
    have hclose : ')' ∈ x.drop (i + 1) := closedParens_close hc (p := x.take i) (by
      rw [← h0, ← List.drop_eq_getElem_cons hi, List.take_append_drop])
    rcases List.append_eq_append_iff.mp hvu with ⟨a, rfl, -⟩ | ⟨c', hc', hz⟩
    · exact hv (List.mem_append_left a hclose)
    · cases c' with
      | nil => exact hv (by simpa [hc'] using hclose)
      | cons e c' =>
        obtain ⟨rfl, -⟩ := List.cons.inj hz
        exact hq ((List.drop_suffix _ x).subset (hc' ▸ List.mem_append_right v (List.mem_cons_self _ _)))

/-- A rule that reads `(` and then no `)` before a `?` copies a text without `?` whose
parentheses close inside it, up to a `;`. -/
theorem Rule.sub_append_of_qmark (R : Rule) {ts : List Tok} (hp : R.pat = .chr '(' :: ts)
    (hts : readsBefore ')' ['?'] ts = true) {x : List Char} (hq : '?' ∉ x)
    (hc : closedParens x = true) (y : List Char) : R.sub (x ++ ';' :: y) = x ++ ';' :: R.sub y := by
  rw [R.sub_append_of_inert (hp ▸ Inert.qmark hts hq hc), R.sub_cons_of_none (by
    rw [hp, matchToks_chr_cons, if_neg (by decide)])]

/-- The composed rule `([a-zA-Z_][..]*?)\.Contains\(([^)]+)\)\.Should\(\)...` starts no
match in a quiet text: its `[^)]+` would have to reach the first `)` after a `(` of the
text, which the text closes itself, and `.Should()` would then follow inside the text. -/
theorem Inert.contains (hts : readsBefore ')' ").Should()".toList ts = true)
    (hP : QuietPrefix P) :
    Inert (AssertMigration.receiver receiverChar ++ (".Contains(".toList.map .chr ++ ts)) P := by
  intro i hi z
  rcases quietTail_stops hP.tail i hi with ⟨e, t, he, hs⟩ | ⟨x, d, ws, hx, hd, hws⟩
  · rw [he, List.cons_append]
    exact matchToks_receiver_head_none (identStart_eq_false_of_isPySpace hs) _
  cases hm : matchToks (AssertMigration.receiver receiverChar ++ (".Contains(".toList.map .chr ++ ts)) []
      (P.drop i ++ z) with
  | none => rfl
  | some res =>
    exfalso
    obtain ⟨c, u, zz, ms', ht, hc, hu, hk⟩ := matchToks_receiver_split hm
    rw [hx, List.append_assoc, List.cons_append] at ht
    have hcls : ∀ e ∈ c :: u ++ ".Contains(".toList, receiverCharCompare e = true := by
      intro e he
      rcases List.mem_append.mp he with he | he
      · rcases List.mem_cons.mp he with rfl | he
        exacts [receiverCharCompare_of_identStart hc, by simp [receiverCharCompare, hu e he]]
      · exact (by decide : ∀ e ∈ ".Contains(".toList, receiverCharCompare e = true) e he
    have hdv : d ∉ c :: u ++ ".Contains(".toList := fun hm => by simp [hcls d hm] at hd
    obtain ⟨z', hxz, hzz⟩ := append_split_of_not_mem (v := c :: u ++ ".Contains(".toList)
      (by simpa using ht.symm) hdv
    obtain ⟨v, uu, hvu, hv⟩ := readsBefore_split hts hk
    have hclose : ')' ∈ z' ++ d :: ws := closedParens_close hP.closed
      (p := P.take i ++ (c :: u ++ ".Contains".toList)) (by
        conv_lhs => rw [← List.take_append_drop i P, hx, hxz]
        simp)
    have hz' : ')' ∈ z' := by
      simp only [List.mem_append, List.mem_cons] at hclose
      rcases hclose with h | rfl | h
      · exact h
      · exact absurd hd (by decide)
      · exact absurd (hws _ h) (by decide)
    rw [hzz] at hvu
    rcases List.append_eq_append_iff.mp hvu with ⟨a, rfl, -⟩ | ⟨a, rfl, ha⟩
    · exact hv (List.mem_append_left a hz')
    · have hpre : ").Should()".toList <+: a := prefix_of_prefix_append_cons
        (fun hm => by
          simp [(by decide : ∀ e ∈ ").Should()".toList, receiverCharCompare e = true) d hm] at hd) ⟨uu, ha⟩
      have haP : a <:+: P := (List.suffix_append v a).isInfix.trans
        ((List.suffix_append _ _).isInfix.trans (hxz ▸ infix_of_drop_eq hx))
      exact hP.not_should (((by decide : ".Should()".toList <:+: ").Should()".toList).trans
        hpre.isInfix).trans haP)

end AssertMigration
