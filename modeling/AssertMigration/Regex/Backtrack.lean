import AssertMigration.Regex.Pattern
import Mathlib.Data.List.Infix

/-!
# The backtracking matcher

`matchToks ts ms s` matches the pattern `ts` at the front of `s` the way Python's
backtracking engine does: a greedy repetition first takes as many characters as it can
and gives them back one at a time, a lazy one first takes none and extends one character
at a time, and the first way the rest of the pattern succeeds is the match. The result is
the list of group marks and the text left after the match.

Each construct has one equation or one lemma here, so that later proofs rewrite one token
at a time and never unfold the matcher.
-/

namespace AssertMigration

variable {α : Type}

/-- A greedy repetition of the class `p` followed by the continuation `k`. -/
def greedy (p : Char → Bool) (k : List Char → Option α) : List Char → Option α
  | [] => k []
  | c :: s => if p c then (greedy p k s <|> k (c :: s)) else k (c :: s)

/-- A lazy repetition `*?` of the class `p` followed by the continuation `k`. -/
def lazy (p : Char → Bool) (k : List Char → Option α) : List Char → Option α
  | [] => k []
  | c :: s => (k (c :: s) <|> if p c then lazy p k s else none)

/-- The group marks passed so far: the text left at each parenthesis of a group. -/
abbrev Marks := List (List Char)

/-- The text of group `n` (from 1): what lies between its two marks. -/
def groupText (ms : Marks) (n : Nat) : List Char :=
  let a := ms.getD (2 * n - 2) []
  a.take (a.length - (ms.getD (2 * n - 1) []).length)

theorem groupText_one (u z : List Char) (ms : Marks) : groupText ((u ++ z) :: z :: ms) 1 = u := by
  simp [groupText]

theorem groupText_cons_cons (m₀ m₁ : List Char) (ms : Marks) (n : Nat) :
    groupText (m₀ :: m₁ :: ms) (n + 2) = groupText ms (n + 1) := by
  simp only [groupText, show 2 * (n + 2) - 2 = 2 * (n + 1) - 2 + 2 by omega,
    show 2 * (n + 2) - 1 = 2 * (n + 1) - 1 + 2 by omega, List.getD_cons_succ]

/-- Match the pattern at the front of the text; the result is the marks and the rest. -/
def matchToks : List Tok → Marks → List Char → Option (Marks × List Char)
  | [], ms, s => some (ms, s)
  | .chr c :: ts, ms, s => match s with
    | x :: s => if x = c then matchToks ts ms s else none
    | [] => none
  | .cls p :: ts, ms, s => match s with
    | x :: s => if p x then matchToks ts ms s else none
    | [] => none
  | .star p :: ts, ms, s => greedy p (fun s => matchToks ts ms s) s
  | .lazyStar p :: ts, ms, s => lazy p (fun s => matchToks ts ms s) s
  | .mark :: ts, ms, s => matchToks ts (ms ++ [s]) s
  | .backref n :: ts, ms, s =>
    if (groupText ms n).isPrefixOf s then matchToks ts ms (s.drop (groupText ms n).length)
    else none

variable {p : Char → Bool} {k : List Char → Option α} {c : Char} {s u v : List Char} {x : α}

@[simp] theorem greedy_nil : greedy p k [] = k [] := rfl

theorem greedy_cons_stop (h : p c = false) : greedy p k (c :: s) = k (c :: s) := by
  simp [greedy, h]

theorem greedy_cons_go (h : p c = true) : greedy p k (c :: s) = (greedy p k s <|> k (c :: s)) := by
  simp [greedy, h]

@[simp] theorem lazy_nil : lazy p k [] = k [] := rfl

theorem lazy_cons_stop (h : p c = false) : lazy p k (c :: s) = k (c :: s) := by
  simp [lazy, h]

theorem lazy_of_some (h : k s = some x) : lazy p k s = some x := by
  cases s <;> simp [lazy, h]

theorem greedy_some_split :
    greedy p k s = some x → ∃ u t, s = u ++ t ∧ (∀ c ∈ u, p c = true) ∧ k t = some x := by
  induction s with
  | nil => exact fun h => ⟨[], [], rfl, by simp, h⟩
  | cons c s ih =>
    intro h
    by_cases hc : p c = true
    · rw [greedy_cons_go hc] at h
      cases hg : greedy p k s with
      | none => exact ⟨[], c :: s, rfl, by simp, by simpa [hg] using h⟩
      | some y =>
        obtain rfl : y = x := by simpa [hg] using h
        obtain ⟨u, t, rfl, hu, hk⟩ := ih hg
        exact ⟨c :: u, t, rfl, by simpa [hc] using hu, hk⟩
    · exact ⟨[], c :: s, rfl, by simp, by rwa [greedy_cons_stop (by simpa using hc)] at h⟩

theorem lazy_some_split :
    lazy p k s = some x → ∃ u t, s = u ++ t ∧ (∀ c ∈ u, p c = true) ∧ k t = some x := by
  induction s with
  | nil => exact fun h => ⟨[], [], rfl, by simp, h⟩
  | cons c s ih =>
    intro h
    cases hk : k (c :: s) with
    | some y => exact ⟨[], c :: s, rfl, by simp, by simpa [lazy, hk] using h⟩
    | none =>
      have hc : p c = true := by by_contra hc; simp_all [lazy]
      obtain ⟨u, t, rfl, hu, hkt⟩ := ih (by simpa [lazy, hk, hc] using h)
      exact ⟨c :: u, t, rfl, by simpa [hc] using hu, hkt⟩

/-- A greedy run over characters of the class keeps a success found further right. -/
theorem greedy_append_of_some (hu : ∀ c ∈ u, p c = true) (h : greedy p k v = some x) :
    greedy p k (u ++ v) = some x := by
  induction u with
  | nil => exact h
  | cons c u ih =>
    rw [List.cons_append, greedy_cons_go (hu c (List.mem_cons_self c u)),
      ih (fun d hd => hu d (List.mem_cons_of_mem c hd))]
    rfl

/-- A greedy run fails when the continuation fails after every run of the class it can take. -/
theorem greedy_eq_none (h : ∀ u v, s = u ++ v → (∀ c ∈ u, p c = true) → k v = none) :
    greedy p k s = none := by
  induction s with
  | nil => exact h [] [] rfl (by simp)
  | cons c s ih =>
    have hc : k (c :: s) = none := h [] (c :: s) rfl (by simp)
    by_cases hp : p c = true
    · rw [greedy_cons_go hp, ih fun u v hs hu => h (c :: u) v (by rw [hs]; rfl)
        (List.forall_mem_cons.mpr ⟨hp, hu⟩), hc]
      rfl
    · rw [greedy_cons_stop (by simpa using hp), hc]

/-- A lazy run passes over characters of the class at which the continuation fails. -/
theorem lazy_append_of_none (hu : ∀ c ∈ u, p c = true)
    (hk : ∀ i < u.length, k (u.drop i ++ v) = none) : lazy p k (u ++ v) = lazy p k v := by
  induction u with
  | nil => rfl
  | cons c u ih =>
    have h0 : k (c :: (u ++ v)) = none := hk 0 (by simp)
    rw [List.cons_append, lazy, h0, Option.none_orElse, if_pos (hu c (List.mem_cons_self c u))]
    exact ih (fun d hd => hu d (List.mem_cons_of_mem c hd))
      (fun i hi => by simpa using hk (i + 1) (by simpa using hi))

variable {ts : List Tok} {ms : Marks} {r : Marks × List Char}

@[simp] theorem matchToks_nil : matchToks [] ms s = some (ms, s) := rfl

@[simp] theorem matchToks_chr_nil : matchToks (.chr c :: ts) ms [] = none := rfl

@[simp] theorem matchToks_chr_cons (d : Char) :
    matchToks (.chr c :: ts) ms (d :: s) = if d = c then matchToks ts ms s else none := rfl

@[simp] theorem matchToks_cls_nil : matchToks (.cls p :: ts) ms [] = none := rfl

@[simp] theorem matchToks_cls_cons (d : Char) :
    matchToks (.cls p :: ts) ms (d :: s) = if p d then matchToks ts ms s else none := rfl

theorem matchToks_star : matchToks (.star p :: ts) ms s = greedy p (matchToks ts ms) s := rfl

theorem matchToks_lazyStar :
    matchToks (.lazyStar p :: ts) ms s = lazy p (matchToks ts ms) s := rfl

@[simp] theorem matchToks_mark : matchToks (.mark :: ts) ms s = matchToks ts (ms ++ [s]) s := rfl

/-- A backreference matches the text of its group. -/
@[simp] theorem matchToks_backref_append (n : Nat) :
    matchToks (.backref n :: ts) ms (groupText ms n ++ s) = matchToks ts ms s := by
  simp [matchToks, List.isPrefixOf_iff_prefix]

/-- A literal string matches exactly its own characters. -/
@[simp] theorem matchToks_chrs (w : List Char) :
    matchToks (w.map .chr ++ ts) ms (w ++ s) = matchToks ts ms s := by
  induction w with
  | nil => rfl
  | cons d w ih => simpa using ih

/-- A pattern made of a literal string alone matches exactly that string. -/
@[simp] theorem matchToks_chrs_nil (w : List Char) :
    matchToks (w.map .chr) ms (w ++ s) = some (ms, s) := by
  induction w with
  | nil => rfl
  | cons d w ih => simpa using ih

theorem matchToks_chrs_of_mismatch {w : List Char} (h : ¬ w <+: s) :
    matchToks (w.map .chr ++ ts) ms s = none := by
  induction w generalizing s with
  | nil => exact absurd List.nil_prefix h
  | cons d w ih =>
    cases s with
    | nil => rfl
    | cons e s =>
      simp only [List.map_cons, List.cons_append, matchToks_chr_cons]
      split_ifs with he
      · subst he
        exact ih (fun hp => h (List.prefix_cons_inj e |>.mpr hp))
      · rfl

/-- A group `(p q*)` reads a whole run of its class up to a character outside it, when the
rest of the pattern succeeds there. -/
theorem matchToks_run_group {q : Char → Bool} {w : List Char}
    (hw : ∃ e u, w = e :: u ∧ p e = true ∧ ∀ c ∈ u, q c = true)
    (hs : ∃ d t, s = d :: t ∧ q d = false) (h : matchToks ts (ms ++ [w ++ s] ++ [s]) s = some r) :
    matchToks (.mark :: .cls p :: .star q :: .mark :: ts) ms (w ++ s) = some r := by
  obtain ⟨e, u, rfl, he, hu⟩ := hw
  obtain ⟨d, t, rfl, hd⟩ := hs
  rw [List.cons_append, matchToks_mark, matchToks_cls_cons, if_pos he, matchToks_star]
  exact greedy_append_of_some hu (by rwa [greedy_cons_stop hd, matchToks_mark])

/-- A group `(p q*)` reads a run of its class that stops before a character of the class, when
every longer run makes the rest of the pattern fail and the rest succeeds after the run. -/
theorem matchToks_run_group_of_none {q : Char → Bool} {w t : List Char} {d : Char}
    (hw : ∃ e u, w = e :: u ∧ p e = true ∧ ∀ c ∈ u, q c = true) (hd : q d = true)
    (hlong : greedy q (matchToks (.mark :: ts) (ms ++ [w ++ d :: t])) t = none)
    (h : matchToks ts (ms ++ [w ++ d :: t] ++ [d :: t]) (d :: t) = some r) :
    matchToks (.mark :: .cls p :: .star q :: .mark :: ts) ms (w ++ d :: t) = some r := by
  obtain ⟨e, u, rfl, he, hu⟩ := hw
  rw [List.cons_append, matchToks_mark, matchToks_cls_cons, if_pos he, matchToks_star]
  refine greedy_append_of_some hu ?_
  rw [List.cons_append] at hlong h
  rw [greedy_cons_go hd, hlong, Option.none_orElse, matchToks_mark]
  exact h

/-- A backreference to a group holding `g` matches `g`. -/
theorem matchToks_backref_of_eq {n : Nat} {g : List Char} (h : groupText ms n = g) :
    matchToks (.backref n :: ts) ms (g ++ s) = matchToks ts ms s := by
  rw [← h, matchToks_backref_append]

/-- The text left after a match is a suffix of the text matched. -/
theorem matchToks_suffix : matchToks ts ms s = some r → r.2 <:+ s := by
  induction ts generalizing ms s with
  | nil => rintro ⟨⟩; exact List.suffix_rfl
  | cons t ts ih =>
    intro h
    cases t with
    | chr d | cls q =>
      cases s with
      | nil => simp at h
      | cons e s =>
        simp only [matchToks_chr_cons, matchToks_cls_cons] at h
        split_ifs at h
        exact (ih h).trans (List.suffix_cons e s)
    | star q =>
      obtain ⟨u, t, rfl, -, hk⟩ := greedy_some_split h
      exact (ih hk).trans (List.suffix_append u t)
    | lazyStar q =>
      obtain ⟨u, t, rfl, -, hk⟩ := lazy_some_split h
      exact (ih hk).trans (List.suffix_append u t)
    | mark => exact ih h
    | backref n =>
      simp only [matchToks] at h
      split_ifs at h
      exact (ih h).trans (List.drop_suffix _ _)

/-- A match of a consuming pattern is not empty. -/
theorem matchToks_length_lt (hc : consuming ts = true) (h : matchToks ts ms s = some r) :
    r.2.length < s.length := by
  induction ts generalizing ms with
  | nil => simp [consuming] at hc
  | cons t ts ih =>
    cases t with
    | chr d | cls q =>
      cases s with
      | nil => simp at h
      | cons e s =>
        simp only [matchToks_chr_cons, matchToks_cls_cons] at h
        split_ifs at h
        simpa using Nat.lt_succ_of_le (matchToks_suffix h).length_le
    | mark => exact ih hc h
    | _ => simp [consuming] at hc

/-- Every match of a pattern with a literal `w` in it passes over an occurrence of `w`. -/
theorem literal_mem_of_matchToks (pre post : List Tok) (w : List Char) :
    matchToks (pre ++ (w.map .chr ++ post)) ms s = some r → w <:+: s := by
  induction pre generalizing ms s with
  | nil =>
    intro h
    by_cases hw : w <+: s
    · exact hw.isInfix
    · rw [List.nil_append, matchToks_chrs_of_mismatch hw] at h
      cases h
  | cons t pre ih =>
    intro h
    rw [List.cons_append] at h
    cases t with
    | chr d | cls q =>
      cases s with
      | nil => simp at h
      | cons e s =>
        simp only [matchToks_chr_cons, matchToks_cls_cons] at h
        split_ifs at h
        exact List.infix_cons (ih h)
    | star q =>
      obtain ⟨u, t, rfl, -, hk⟩ := greedy_some_split h
      exact (ih hk).trans (List.suffix_append u t).isInfix
    | lazyStar q =>
      obtain ⟨u, t, rfl, -, hk⟩ := lazy_some_split h
      exact (ih hk).trans (List.suffix_append u t).isInfix
    | mark => exact ih h
    | backref n =>
      simp only [matchToks] at h
      split_ifs at h
      exact (ih h).trans (List.drop_suffix _ _).isInfix

end AssertMigration
