import AssertMigration.Regex.Backtrack

/-!
# `re.sub` and rule tables

`Rule.sub` is `re.sub(pattern, repl, text)`: it scans the text from the left, replaces
the leftmost match by the expanded template, resumes after the match, and copies the
characters where no match starts. A rule table is a list of rules applied one after the
other, each to the whole output of the previous one (`content = re.sub(...)` repeated).

The scan is written with a count of characters still to skip inside the current match, so
that it recurses on the text itself and evaluates by `decide`.
-/

namespace AssertMigration

/-- Expand a template, group `n` standing for the text `g n`. -/
def expand (g : Nat → List Char) : List Piece → List Char
  | [] => []
  | .text c :: ps => c :: expand g ps
  | .group n :: ps => g n ++ expand g ps

theorem expand_texts (g : Nat → List Char) (w : List Char) (ps : List Piece) :
    expand g (w.map .text ++ ps) = w ++ expand g ps := by
  induction w with
  | nil => rfl
  | cons c w ih => simp [expand, ih]

@[simp] theorem expand_group_cons (g : Nat → List Char) (n : Nat) (ps : List Piece) :
    expand g (.group n :: ps) = g n ++ expand g ps := rfl

@[simp] theorem expand_map_text (g : Nat → List Char) (w : List Char) : expand g (w.map .text) = w := by
  simpa [expand] using expand_texts g w []

/-- Whether the tokens start with literal tokens spelling `w`. -/
def spells : List Tok → List Char → Bool
  | _, [] => true
  | .chr c :: ts, d :: w => c == d && spells ts w
  | _, _ => false

/-- Whether a pattern spells `w` with consecutive literal tokens, so that every match of it
contains `w`. Being a computation on the tokens, it is checked by `decide`. -/
def hasLiteral (pat : List Tok) (w : List Char) : Bool := pat.tails.any (spells · w)

theorem spells_eq : ∀ {ts : List Tok} {w : List Char}, spells ts w = true →
    ∃ post, ts = w.map .chr ++ post
  | ts, [], _ => ⟨ts, rfl⟩
  | .chr c :: ts, d :: w, h => by
    simp only [spells, Bool.and_eq_true, beq_iff_eq] at h
    obtain ⟨post, rfl⟩ := spells_eq h.2
    exact ⟨post, by simp [h.1]⟩
  | [], _ :: _, h | .cls _ :: _, _ :: _, h | .star _ :: _, _ :: _, h
  | .lazyStar _ :: _, _ :: _, h | .mark :: _, _ :: _, h | .backref _ :: _, _ :: _, h => by
    simp [spells] at h

theorem hasLiteral_eq {pat : List Tok} {w : List Char} (h : hasLiteral pat w = true) :
    ∃ pre post, pat = pre ++ (w.map .chr ++ post) := by
  obtain ⟨t, ht, hs⟩ := List.any_eq_true.mp h
  obtain ⟨pre, rfl⟩ := (List.mem_tails _ _).mp ht
  obtain ⟨post, rfl⟩ := spells_eq hs
  exact ⟨pre, post, rfl⟩

/-- The literal characters at the head of a token list. -/
def leadingLit : List Tok → List Char
  | .chr c :: ts => c :: leadingLit ts
  | _ => []

/-- The first run of literal characters of a pattern. -/
def firstLit : List Tok → List Char
  | .chr c :: ts => leadingLit (.chr c :: ts)
  | _ :: ts => firstLit ts
  | [] => []

theorem spells_leadingLit : ∀ ts : List Tok, spells ts (leadingLit ts) = true
  | .chr c :: ts => by simp [leadingLit, spells, spells_leadingLit ts]
  | [] | .cls _ :: _ | .star _ :: _ | .lazyStar _ :: _ | .mark :: _ | .backref _ :: _ => rfl

theorem hasLiteral_firstLit : ∀ pat : List Tok, hasLiteral pat (firstLit pat) = true
  | [] => rfl
  | .chr c :: ts => List.any_eq_true.mpr ⟨_, (List.mem_tails _ _).mpr (List.suffix_refl _),
      spells_leadingLit _⟩
  | .cls _ :: ts | .star _ :: ts | .lazyStar _ :: ts | .mark :: ts | .backref _ :: ts => by
    rw [hasLiteral, List.tails_cons, List.any_cons]
    exact Bool.or_eq_true_iff.mpr (.inr (hasLiteral_firstLit ts))

/-- Whether every match of the tokens reads characters other than `b` and then the literal
`w`: literal characters and classes that exclude `b`, up to tokens spelling `w`. -/
def readsBefore (b : Char) (w : List Char) : List Tok → Bool
  | .chr c :: ts => spells (.chr c :: ts) w || (c != b && readsBefore b w ts)
  | .cls p :: ts | .star p :: ts | .lazyStar p :: ts => !p b && readsBefore b w ts
  | .mark :: ts => readsBefore b w ts
  | _ => false

theorem readsBefore_split {b : Char} {w : List Char} :
    ∀ {ts : List Tok} {ms : Marks} {t : List Char} {res : Marks × List Char},
      readsBefore b w ts = true → matchToks ts ms t = some res → ∃ v u, t = v ++ (w ++ u) ∧ b ∉ v
  | .chr c :: ts, ms, t, res, hr, h => by
    rcases Bool.or_eq_true_iff.mp hr with hs | hr
    · obtain ⟨post, hpost⟩ := spells_eq hs
      rw [hpost] at h
      obtain ⟨u, rfl⟩ : w <+: t := by
        by_contra hw; rw [matchToks_chrs_of_mismatch hw] at h; cases h
      exact ⟨[], u, rfl, List.not_mem_nil b⟩
    · simp only [Bool.and_eq_true, bne_iff_ne] at hr
      cases t with
      | nil => cases h
      | cons e t =>
        rw [matchToks_chr_cons] at h
        split_ifs at h with he
        obtain ⟨v, u, rfl, hv⟩ := readsBefore_split hr.2 h
        exact ⟨e :: v, u, rfl, by simp [he, Ne.symm hr.1, hv]⟩
  | .cls p :: ts, ms, t, res, hr, h => by
    simp only [readsBefore, Bool.and_eq_true, Bool.not_eq_true'] at hr
    cases t with
    | nil => cases h
    | cons e t =>
      rw [matchToks_cls_cons] at h
      split_ifs at h with he
      obtain ⟨v, u, rfl, hv⟩ := readsBefore_split hr.2 h
      exact ⟨e :: v, u, rfl, by
        simp only [List.mem_cons, not_or]; exact ⟨fun hbe => by simp [← hbe, hr.1] at he, hv⟩⟩
  | .star p :: ts, ms, t, res, hr, h => by
    simp only [readsBefore, Bool.and_eq_true, Bool.not_eq_true'] at hr
    obtain ⟨u', t', rfl, hu, hk⟩ := greedy_some_split h
    obtain ⟨v, u, rfl, hv⟩ := readsBefore_split hr.2 hk
    exact ⟨u' ++ v, u, by simp, by simpa using ⟨fun hb => by simpa [hr.1] using hu b hb, hv⟩⟩
  | .lazyStar p :: ts, ms, t, res, hr, h => by
    simp only [readsBefore, Bool.and_eq_true, Bool.not_eq_true'] at hr
    obtain ⟨u', t', rfl, hu, hk⟩ := lazy_some_split h
    obtain ⟨v, u, rfl, hv⟩ := readsBefore_split hr.2 hk
    exact ⟨u' ++ v, u, by simp, by simpa using ⟨fun hb => by simpa [hr.1] using hu b hb, hv⟩⟩
  | .mark :: ts, ms, t, res, hr, h => @readsBefore_split b w ts (ms ++ [t]) t res hr (by rwa [matchToks_mark] at h)

namespace Rule

/-- The scan of `re.sub`, with `n` characters of the current match still to skip. -/
def subFrom (r : Rule) : List Char → Nat → List Char
  | [], _ => []
  | _ :: s, n + 1 => r.subFrom s n
  | c :: s, 0 =>
    match matchToks r.pat [] (c :: s) with
    | some (ms, rest) => expand (groupText ms) r.tmpl ++ r.subFrom s (s.length - rest.length)
    | none => c :: r.subFrom s 0

/-- `re.sub(r.pat, r.tmpl, s)`. -/
def sub (r : Rule) (s : List Char) : List Char := r.subFrom s 0

variable (r : Rule) {c : Char} {s t x y rest : List Char} {ms : Marks}

theorem subFrom_eq_sub (n : Nat) : r.subFrom s n = r.sub (s.drop n) := by
  induction s generalizing n with
  | nil => cases n <;> rfl
  | cons c s ih => cases n with
    | zero => rfl
    | succ n => exact ih n

@[simp] theorem sub_nil : r.sub [] = [] := rfl

theorem sub_cons_of_none (h : matchToks r.pat [] (c :: s) = none) : r.sub (c :: s) = c :: r.sub s := by
  simp only [sub, subFrom, h]

/-- At a match, the template replaces the matched text and the scan resumes after it. -/
theorem sub_of_some (h : matchToks r.pat [] t = some (ms, rest)) :
    r.sub t = expand (groupText ms) r.tmpl ++ r.sub rest := by
  have hlt := matchToks_length_lt r.consumes h
  have hsuf : rest <:+ t := matchToks_suffix h
  cases t with
  | nil => simp at hlt
  | cons c s =>
    have hs : rest <:+ s := by
      rcases List.suffix_cons_iff.mp hsuf with he | he
      · simp [he] at hlt
      · exact he
    show r.subFrom (c :: s) 0 = _
    simp only [subFrom, h]
    rw [subFrom_eq_sub, ← List.suffix_iff_eq_drop.mp hs]

/-- A stretch of text where no match starts is copied unchanged. -/
theorem sub_append_of_none (h : ∀ i < x.length, matchToks r.pat [] (x.drop i ++ y) = none) :
    r.sub (x ++ y) = x ++ r.sub y := by
  induction x with
  | nil => rfl
  | cons c x ih =>
    have h0 : matchToks r.pat [] (c :: (x ++ y)) = none := h 0 (by simp)
    rw [List.cons_append, r.sub_cons_of_none h0,
      ih (fun i hi => by simpa using h (i + 1) (by simpa using hi)), List.cons_append]

/-- A stretch without the first character of the pattern is copied. -/
theorem sub_append_of_head {d : Char} {ts : List Tok} (hp : r.pat = .chr d :: ts) (hx : d ∉ x) :
    r.sub (x ++ y) = x ++ r.sub y := by
  refine r.sub_append_of_none fun i hi => ?_
  rw [List.drop_eq_getElem_cons hi, List.cons_append, hp, matchToks_chr_cons, if_neg]
  exact fun h => hx (h ▸ List.getElem_mem hi)

theorem sub_eq_self_of_head {d : Char} {ts : List Tok} (hp : r.pat = .chr d :: ts) (hx : d ∉ x) :
    r.sub x = x := by
  simpa using r.sub_append_of_head (y := []) hp hx

/-- A rule whose pattern holds the literal `w` leaves a text without `w` unchanged. -/
theorem sub_eq_self_of_literal_absent {pre post : List Tok} {w : List Char}
    (hp : r.pat = pre ++ (w.map .chr ++ post)) (hw : ¬ w <:+: s) : r.sub s = s := by
  have h := r.sub_append_of_none (x := s) (y := []) fun i _ => by
    cases hm : matchToks r.pat [] (s.drop i ++ []) with
    | none => rfl
    | some m =>
      rw [hp] at hm
      exact absurd ((literal_mem_of_matchToks pre post w hm).trans
        (by simpa using (List.drop_suffix i s).isInfix)) hw
  simpa using h

theorem sub_eq_self_of_hasLiteral {w : List Char} (hp : hasLiteral r.pat w = true)
    (hw : ¬ w <:+: s) : r.sub s = s := by
  obtain ⟨pre, post, h⟩ := hasLiteral_eq hp
  exact r.sub_eq_self_of_literal_absent h hw

/-- Whether the first literal run of the pattern is missing from the text, so that the rule
cannot fire there; a check much cheaper to evaluate than the scan. -/
def lacksLiteral (r : Rule) (s : List Char) : Bool :=
  !(s.tails.any fun u => (firstLit r.pat).isPrefixOf u)

theorem sub_eq_self_of_lacksLiteral (h : r.lacksLiteral s = true) : r.sub s = s := by
  refine r.sub_eq_self_of_hasLiteral (hasLiteral_firstLit r.pat) fun hw => ?_
  obtain ⟨u, hwu, hu⟩ := List.infix_iff_prefix_suffix.mp hw
  simp only [lacksLiteral, Bool.not_eq_true', List.any_eq_false] at h
  exact absurd (List.isPrefixOf_iff_prefix.mpr hwu) (by simpa using h u ((List.mem_tails _ _).mpr hu))

end Rule

/-- A rule table: each rule applied in turn to the output of the previous one. -/
def applyAll (rs : List Rule) (s : List Char) : List Char := rs.foldl (fun s r => r.sub s) s

@[simp] theorem applyAll_nil (s : List Char) : applyAll [] s = s := rfl

@[simp] theorem applyAll_cons (r : Rule) (rs : List Rule) (s : List Char) :
    applyAll (r :: rs) s = applyAll rs (r.sub s) := rfl

theorem applyAll_append (rs rs' : List Rule) (s : List Char) :
    applyAll (rs ++ rs') s = applyAll rs' (applyAll rs s) := List.foldl_append _ _ _ _

/-- A table none of whose rules changes a text leaves it unchanged. -/
theorem applyAll_eq_self {rs : List Rule} {s : List Char} (h : ∀ r ∈ rs, r.sub s = s) :
    applyAll rs s = s := by
  induction rs with
  | nil => rfl
  | cons r rs ih =>
    rw [applyAll_cons, h r (List.mem_cons_self r rs)]
    exact ih fun r' hr' => h r' (List.mem_cons_of_mem r hr')

/-- A table whose rules each leave `x` as it is or rewrite it to `y`, one of them the latter,
and all of which leave `y` as it is, rewrites `x` to `y`. -/
theorem applyAll_of_single_firing {rs : List Rule} {x y : List Char}
    (h : ∀ r ∈ rs, r.sub x = x ∨ r.sub x = y) (hy : ∀ r ∈ rs, r.sub y = y)
    (hr : ∃ r ∈ rs, r.sub x = y) : applyAll rs x = y := by
  induction rs with
  | nil => obtain ⟨r, hr, -⟩ := hr; cases hr
  | cons r rs ih =>
    have hy' : ∀ r' ∈ rs, r'.sub y = y := fun r' hr' => hy r' (List.mem_cons_of_mem r hr')
    rw [applyAll_cons]
    rcases h r (List.mem_cons_self r rs) with h1 | h1
    · rw [h1]
      obtain ⟨r', hr', h2⟩ := hr
      rcases List.mem_cons.mp hr' with rfl | hr'
      · rw [h1.symm.trans h2]
        exact applyAll_eq_self hy'
      · exact ih (fun r'' hr'' => h r'' (List.mem_cons_of_mem r hr'')) hy' ⟨r', hr', h2⟩
    · rw [h1]
      exact applyAll_eq_self hy'

/-- `applyAll` that passes over, without scanning, every rule whose first literal run is
missing from the current text. It computes the same function (`applyAllSkipping_eq`) and is
what fixed inputs are evaluated with. -/
def applyAllSkipping (rs : List Rule) (s : List Char) : List Char :=
  rs.foldl (fun s r => if r.lacksLiteral s then s else r.sub s) s

theorem applyAllSkipping_eq (rs : List Rule) (s : List Char) :
    applyAllSkipping rs s = applyAll rs s := by
  induction rs generalizing s with
  | nil => rfl
  | cons r rs ih =>
    rw [applyAll_cons, ← ih]
    simp only [applyAllSkipping, List.foldl_cons]
    split
    · rw [r.sub_eq_self_of_lacksLiteral ‹_›]
    · rfl

end AssertMigration
