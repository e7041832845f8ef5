import AssertMigration.Text.Occurrence
import AssertMigration.Regex.Sub

/-!
# How a rule scans a line

A buffer is a list of lines joined by line breaks (`joinLines`), each line a statement after
its indentation or some other text (`TestLine`). The tables are read line by line: no pattern reads a line break
before its first literal, so a rule copies a line whose text lacks that literal and goes on
scanning after it (`Rule.sub_append_of_literal_ends`, `Rule.sub_joinLines_ends`), and a table
whose every rule takes the text from one stage to the next takes it through all of them
(`applyAll_of_steps`, `applyAll_lines`). Where a rule does fire, its groups read their whole argument:
a run of a class up to a character outside it (`matchToks_plusGrp`), or a string up to its
closing quote (`matchToks_quotedGrp`).

## Main definitions

- `quoted`: a string literal `"s"`.
- `IsText`, `IsCount`: the string texts and the counts `\d+` the tables read.
- `joinLines`: a buffer of lines.
- `TestLine`, `TestLine.render`: a test file's lines, statements of a table among other lines.

## Design notes

A string text holds no `(`. Every literal of the tables that reaches into a string has a
`(` and no `"`, so it cannot start inside one (`not_infix_quoted`).
-/

namespace AssertMigration

/-! ## The Unicode classes at ASCII characters -/

namespace UnicodeDb

variable (db : UnicodeDb) {c : Char}

theorem word_eq_false (h : c.toNat < 128 ∧ (c.isAlphanum || c == '_') = false) :
    db.word c = false := by
  rw [UnicodeDb.word, db.isAlnum_ascii c h.1]; exact h.2

theorem word_eq_true (h : c.toNat < 128 ∧ c.isAlphanum = true) : db.word c = true := by
  rw [UnicodeDb.word, db.isAlnum_ascii c h.1, h.2]; rfl

theorem isDecimal_eq_false (h : c.toNat < 128 ∧ c.isDigit = false) : db.isDecimal c = false := by
  rw [db.isDecimal_ascii c h.1]; exact h.2

end UnicodeDb

/-! ## String texts and counts -/

/-- `"s"` -/
def quoted (s : List Char) : List Char := '"' :: (s ++ ['"'])

@[simp] theorem quoted_append (s z : List Char) : quoted s ++ z = '"' :: (s ++ '"' :: z) := by
  simp [quoted]

/-- The text of a string argument: `[^"]+`, with no `(`. -/
def IsText (s : List Char) : Prop := s ≠ [] ∧ '"' ∉ s ∧ '(' ∉ s

/-- A count: `\d+`. -/
def IsCount (db : UnicodeDb) (n : List Char) : Prop := n ≠ [] ∧ ∀ c ∈ n, db.isDecimal c = true

instance (s : List Char) : Decidable (IsText s) := inferInstanceAs (Decidable (_ ∧ _))

instance (db : UnicodeDb) (n : List Char) : Decidable (IsCount db n) :=
  inferInstanceAs (Decidable (_ ∧ _))

theorem IsCount.not_mem_dot {db : UnicodeDb} {n : List Char} (h : IsCount db n) : '.' ∉ n :=
  fun hn => absurd (h.2 '.' hn) (by rw [db.isDecimal_eq_false (by decide)]; decide)

theorem IsCount.exists_cons {db : UnicodeDb} {n : List Char} (h : IsCount db n) :
    ∃ e u, n = e :: u ∧ db.isDecimal e = true ∧ ∀ c ∈ u, db.isDecimal c = true := by
  obtain ⟨e, u, rfl⟩ := List.exists_cons_of_ne_nil h.1
  exact ⟨e, u, rfl, h.2 e (List.mem_cons_self e u), fun c hc => h.2 c (List.mem_cons_of_mem e hc)⟩

/-! ## A rule on a line -/

/-- A buffer: lines joined by line breaks. -/
def joinLines (ls : List (List Char)) : List Char := ['\n'].intercalate ls

/-- What follows the text of a line: nothing, or the terminator `d` and the rest. -/
def Ends (d : Char) (y : List Char) : Prop := y = [] ∨ ∃ z, y = d :: z

/-- A literal without the terminator that starts a line's text and what follows it lies in
the text. -/
theorem prefix_of_prefix_append_ends {d : Char} {L X y : List Char} (hL : d ∉ L) (hy : Ends d y)
    (h : L <+: X ++ y) : L <+: X := by
  rcases hy with rfl | ⟨z, rfl⟩
  · simpa using h
  · exact prefix_of_prefix_append_cons hL h

/-- A rule acting line by line on a buffer, each line copied or rewritten whatever line
follows it. -/
theorem Rule.sub_joinLines_ends {R : Rule} {α : Type} (f g : α → List Char)
    (hnl : ∀ y, R.sub ('\n' :: y) = '\n' :: R.sub y) :
    ∀ ls : List α, (∀ l ∈ ls, ∀ y, Ends '\n' y → R.sub (f l ++ y) = g l ++ R.sub y) →
      R.sub (joinLines (ls.map f)) = joinLines (ls.map g)
  | [], _ => rfl
  | [l], hl => by simpa [joinLines, List.intercalate] using hl l (List.mem_singleton_self l) [] (.inl rfl)
  | l :: l' :: ls, hl => by
    have ih := sub_joinLines_ends f g hnl (l' :: ls) fun l h => hl l (List.mem_cons_of_mem _ h)
    simp only [joinLines, List.map_cons] at ih ⊢
    rw [intercalate_singleton_cons_cons, intercalate_singleton_cons_cons,
      hl l (List.mem_cons_self _ _) _ (.inr ⟨_, rfl⟩), hnl, ih]

/-- A rule that starts with a literal without the terminator starts no match in a line's
text that lacks the literal. -/
theorem Rule.sub_append_of_literal_ends {R : Rule} {L B y : List Char} {ts : List Tok} {d : Char}
    (hp : R.pat = L.map .chr ++ ts) (hL : d ∉ L) (hB : ¬ L <:+: B) (hy : Ends d y) :
    R.sub (B ++ y) = B ++ R.sub y := by
  refine R.sub_append_of_none fun i _ => ?_
  rw [hp]
  exact matchToks_chrs_of_mismatch fun hpre =>
    hB ((prefix_of_prefix_append_ends hL hy hpre).isInfix.trans (List.drop_suffix i B).isInfix)

/-- Rules run one after the other, each taking the text from its stage to the next. -/
theorem applyAll_of_steps (f : Nat → List Char) :
    ∀ (rs : List Rule) (k : Nat), (∀ j R, rs[j]? = some R → R.sub (f (k + j)) = f (k + j + 1)) →
      applyAll rs (f k) = f (k + rs.length)
  | [], _, _ => rfl
  | R :: rs, k, h => by
    rw [applyAll_cons, show R.sub (f k) = f (k + 1) from h 0 R (List.getElem?_cons_zero),
      applyAll_of_steps f rs (k + 1) fun j R' hR' => by
        rw [show k + 1 + j = k + (j + 1) by omega]
        exact h (j + 1) R' (by rwa [List.getElem?_cons_succ]),
      List.length_cons, Nat.add_right_comm, Nat.add_assoc]

/-! ## Test files of statement lines -/

/-- A line of a test file: a statement after its indentation and ended by `;`, or any other
line. -/
inductive TestLine (σ : Type) where
  | stmt (ind : List Char) (st : σ)
  | code (B : List Char)

/-- The text of a line, its statement written by `f`. -/
def TestLine.render {σ : Type} (f : σ → List Char) : TestLine σ → List Char
  | .stmt ind st => ind ++ (f st ++ [';'])
  | .code B => B

/-- A literal without a line break occurs in a buffer only inside one of its lines. -/
theorem joinLines_not_infix {w : List Char} {ls : List (List Char)} (hw : w ≠ []) (hnl : '\n' ∉ w)
    (h : ∀ l ∈ ls, ¬ w <:+: l) : ¬ w <:+: joinLines ls := fun hi => by
  obtain ⟨l, hl, hi⟩ := infix_intercalate hw hnl hi
  exact h l hl hi

/-- A literal without `;` and without the characters of an indentation occurs in a statement
line only inside the statement. -/
theorem not_infix_stmt_line {w ind x : List Char} (hw : w ≠ []) (hind : ∀ c ∈ ind, c ∉ w)
    (hsemi : ';' ∉ w) (hx : ¬ w <:+: x) : ¬ w <:+: ind ++ (x ++ [';']) := fun h =>
  hx (infix_of_append_right hw (by simpa using hsemi) (infix_of_append_left hw hind h))

/-- A rule that copies an indentation and a `;` takes a statement line to the next stage when
it takes the statement there. -/
theorem Rule.sub_stmt_line {R : Rule} {ind x x' y : List Char}
    (hind : ∀ z, R.sub (ind ++ z) = ind ++ R.sub z) (hsemi : ∀ z, R.sub (';' :: z) = ';' :: R.sub z)
    (h : R.sub (x ++ ';' :: y) = x' ++ R.sub (';' :: y)) :
    R.sub (ind ++ (x ++ [';']) ++ y) = ind ++ (x' ++ [';']) ++ R.sub y := by
  simp only [List.append_assoc, List.singleton_append]
  rw [hind, h, hsemi]

/-- A table whose every rule takes each line from its stage to the next, whatever line
follows, takes a whole file through all the stages. -/
theorem applyAll_lines {σ : Type} (f : Nat → σ → List Char) (ls : List (TestLine σ))
    (rs : List Rule) (hnl : ∀ R ∈ rs, ∀ y, R.sub ('\n' :: y) = '\n' :: R.sub y)
    (hstep : ∀ j R, rs[j]? = some R → ∀ l ∈ ls, ∀ y, Ends '\n' y →
      R.sub (l.render (f j) ++ y) = l.render (f (j + 1)) ++ R.sub y) :
    applyAll rs (joinLines (ls.map (TestLine.render (f 0)))) =
      joinLines (ls.map (TestLine.render (f rs.length))) := by
  simpa using applyAll_of_steps (fun j => joinLines (ls.map (TestLine.render (f j)))) rs 0
    fun j R hR => by
      rw [Nat.zero_add]
      exact R.sub_joinLines_ends _ _ (hnl R (List.getElem?_mem hR)) ls (hstep j R hR)

/-! ## What a match reads -/

variable {ts : List Tok} {ms : Marks} {r : Marks × List Char}

/-- A match of literal tokens reads their characters. -/
theorem matchToks_chrs_some {w t : List Char} (h : matchToks (w.map .chr ++ ts) ms t = some r) :
    ∃ s, t = w ++ s ∧ matchToks ts ms s = some r := by
  by_cases hw : w <+: t
  · obtain ⟨s, rfl⟩ := hw
    exact ⟨s, rfl, by rwa [matchToks_chrs] at h⟩
  · rw [matchToks_chrs_of_mismatch hw] at h; cases h

/-- A match of a backreference reads the text of its group. -/
theorem matchToks_backref_some {n : Nat} {t : List Char}
    (h : matchToks (.backref n :: ts) ms t = some r) :
    ∃ s, t = groupText ms n ++ s ∧ matchToks ts ms s = some r := by
  by_cases hg : groupText ms n <+: t
  · obtain ⟨s, rfl⟩ := hg
    exact ⟨s, rfl, by rwa [matchToks_backref_append] at h⟩
  · simp [matchToks, List.isPrefixOf_iff_prefix, hg] at h

/-- A match of a group `(p q*)` reads a run: a character of `p`, then characters of `q`. -/
theorem matchToks_run_some {p q : Char → Bool} {t : List Char}
    (h : matchToks (.mark :: .cls p :: .star q :: .mark :: ts) ms t = some r) :
    ∃ e u s, t = e :: (u ++ s) ∧ p e = true ∧ (∀ c ∈ u, q c = true) ∧
      matchToks ts (ms ++ [t, s]) s = some r := by
  cases t with
  | nil => cases h
  | cons e t =>
    rw [matchToks_mark, matchToks_cls_cons] at h
    split at h
    · obtain ⟨u, s, rfl, hu, hs⟩ := greedy_some_split h
      exact ⟨e, u, s, rfl, ‹_›, hu, by simpa using hs⟩
    · cases h

/-- The text a group read, its run seen as a first character and the rest. -/
@[simp] theorem groupText_one_cons (e : Char) (u z : List Char) (ms : Marks) :
    groupText ((e :: (u ++ z)) :: z :: ms) 1 = e :: u :=
  groupText_one (e :: u) z ms

/-! ## The groups read their whole argument -/

/-- A group `(p+)` reads a whole run of `p` up to a character outside `p`. -/
theorem matchToks_plusGrp {p : Char → Bool} {n t : List Char} (hn : n ≠ [] ∧ ∀ c ∈ n, p c = true)
    {d : Char} (hd : p d = false) (h : matchToks ts (ms ++ [n ++ d :: t, d :: t]) (d :: t) = some r) :
    matchToks (grp (plus p) ++ ts) ms (n ++ d :: t) = some r := by
  obtain ⟨e, u, rfl⟩ := List.exists_cons_of_ne_nil hn.1
  exact matchToks_run_group ⟨e, u, rfl, hn.2 e (List.mem_cons_self e u),
    fun c hc => hn.2 c (List.mem_cons_of_mem e hc)⟩ ⟨d, t, rfl, hd⟩ (by simpa using h)

/-- `"([^"]+)"` reads a whole string text. -/
theorem matchToks_quotedGrp {s t : List Char} (hs : IsText s)
    (h : matchToks ts (ms ++ [s ++ '"' :: t, '"' :: t]) t = some r) :
    matchToks (quotedGrp ++ ts) ms (quoted s ++ t) = some r := by
  have hq : ∀ c ∈ s, notChar '"' c = true := notChar_of_not_mem hs.2.1
  rw [quoted_append]
  show matchToks (['"'].map .chr ++ (grp (plus (notChar '"')) ++ (['"'].map .chr ++ ts))) ms
    (['"'] ++ (s ++ '"' :: t)) = some r
  rw [matchToks_chrs]
  refine matchToks_plusGrp ⟨hs.1, hq⟩ (by decide) ?_
  show matchToks (['"'].map .chr ++ ts) _ (['"'] ++ t) = _
  rw [matchToks_chrs]; exact h

/-! ## Literals around string texts -/

/-- A literal with a `(` and no `"` does not run into a string argument. -/
theorem not_infix_quoted {W x y s : List Char} (hq : '"' ∉ W) (hp : '(' ∈ W) (hs : '(' ∉ s)
    (hx : ¬ W <:+: x) (hy : ¬ W <:+: y) : ¬ W <:+: x ++ (quoted s ++ y) := by
  rw [quoted_append]
  intro h
  rcases infix_append_sep hq h with h | h
  · exact hx h
  · rcases infix_append_sep hq h with h | h
    · exact not_infix_of_not_mem hp hs h
    · exact hy h

/-- A literal that neither occurs in `X` nor starts in it does not occur in `X ++ Y` unless
in `Y`. -/
theorem not_infix_lit_append {W X Y : List Char}
    (hX : ¬ W <:+: X ∧ ∀ j < W.length, 0 < j → ¬ W.take j <:+ X) (hY : ¬ W <:+: Y) :
    ¬ W <:+: X ++ Y :=
  not_infix_append hX.1 hY fun j hj hj0 h => absurd h (hX.2 j hj hj0)

theorem not_prefix_of_incomparable {L P z : List Char} (h : ¬ (L <+: P ∨ P <+: L)) :
    ¬ L <+: P ++ z :=
  fun hL => h (List.prefix_or_prefix_of_prefix hL (List.prefix_append P z))

theorem not_suffix_of_getLast {X Y : List Char} {a b : Char} (hX : X.getLast? = some a)
    (hY : Y.getLast? = some b) (hab : a ≠ b) : ¬ X <:+ Y := by
  rintro ⟨t, rfl⟩
  rw [List.getLast?_append, hX] at hY
  exact hab (Option.some.inj hY)

theorem false_of_suffix_getLast {X Y Z : List Char} {a b : Char} (h : X <:+ Y ++ Z)
    (hX : X.getLast? = some a) (hZ : Z.getLast? = some b) (hab : a ≠ b) : False :=
  not_suffix_of_getLast hX (by rw [List.getLast?_append, hZ]; rfl) hab h

end AssertMigration
