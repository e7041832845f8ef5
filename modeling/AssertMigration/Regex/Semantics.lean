import AssertMigration.Regex.Sub

/-!
# What a pattern reads, and what `re.sub` does, as relations

`Reads ts ms s ms' r` says that the tokens `ts` can read a prefix of `s`, leaving `r`: a
literal reads its character, a class one character of it, a repetition (greedy or lazy) any
run of its class, a mark records the text left, and a backreference reads the text of its
group. This is the language of the pattern fragment, without the order in which the
backtracking engine tries the choices. `SubSpec pat tmpl s out` says what `re.sub` is for:
`out` is `s` with some segments, each read by the pattern from its start, replaced by the
template expanded with that match's groups, and every character the scan copies stands where
the pattern reads nothing.

## Main results

- `reads_of_matchToks`, `matchToks_isSome_of_reads`: the matcher is sound, and it fails only
  where the pattern reads nothing.
- `Rule.sub_refines`: every rule's `re.sub` is a substitution of `SubSpec`.

## Design notes

The matcher picks, among the texts a pattern reads at a position, the first one in the
engine's order; `SubSpec` leaves that choice open, so it states what does not depend on the
order. The two directions are proved by induction on the tokens and on the derivation, one
case per token, with one lemma per repetition kind (`greedy_isSome`, `lazy_isSome`).
-/

namespace AssertMigration

/-- What the tokens read at the front of a text, and the marks they pass. -/
inductive Reads : List Tok → Marks → List Char → Marks → List Char → Prop
  | nil {ms s} : Reads [] ms s ms s
  | chr {c ts ms s ms' r} : Reads ts ms s ms' r → Reads (.chr c :: ts) ms (c :: s) ms' r
  | cls {p x ts ms s ms' r} (hx : p x = true) :
      Reads ts ms s ms' r → Reads (.cls p :: ts) ms (x :: s) ms' r
  | star {p u ts ms s ms' r} (hu : ∀ c ∈ u, p c = true) :
      Reads ts ms s ms' r → Reads (.star p :: ts) ms (u ++ s) ms' r
  | lazyStar {p u ts ms s ms' r} (hu : ∀ c ∈ u, p c = true) :
      Reads ts ms s ms' r → Reads (.lazyStar p :: ts) ms (u ++ s) ms' r
  | mark {ts ms s ms' r} : Reads ts (ms ++ [s]) s ms' r → Reads (.mark :: ts) ms s ms' r
  | backref {n ts ms s ms' r} :
      Reads ts ms s ms' r → Reads (.backref n :: ts) ms (groupText ms n ++ s) ms' r

namespace Reads

variable {ts ts' : List Tok} {ms ms₁ ms' : Marks} {s s₁ r : List Char}

theorem nil_inv (h : Reads [] ms s ms' r) : ms' = ms ∧ r = s := by
  cases h; exact ⟨rfl, rfl⟩

theorem append (h₁ : Reads ts ms s ms₁ s₁) (h₂ : Reads ts' ms₁ s₁ ms' r) :
    Reads (ts ++ ts') ms s ms' r := by
  induction h₁ with
  | nil => exact h₂
  | chr _ ih => exact .chr (ih h₂)
  | cls hx _ ih => exact .cls hx (ih h₂)
  | star hu _ ih => exact .star hu (ih h₂)
  | lazyStar hu _ ih => exact .lazyStar hu (ih h₂)
  | mark _ ih => exact .mark (ih h₂)
  | backref _ ih => exact .backref (ih h₂)

/-- A reading of two token lists in a row reads the first, then the second. -/
theorem append_inv : ∀ {ts : List Tok} {ms s ms' r}, Reads (ts ++ ts') ms s ms' r →
    ∃ ms₁ s₁, Reads ts ms s ms₁ s₁ ∧ Reads ts' ms₁ s₁ ms' r
  | [], _, _, _, _, h => ⟨_, _, .nil, h⟩
  | _ :: _, _, _, _, _, h => by
    rw [List.cons_append] at h
    cases h with
    | chr h => obtain ⟨_, _, h₁, h₂⟩ := append_inv h; exact ⟨_, _, .chr h₁, h₂⟩
    | cls hx h => obtain ⟨_, _, h₁, h₂⟩ := append_inv h; exact ⟨_, _, .cls hx h₁, h₂⟩
    | star hu h => obtain ⟨_, _, h₁, h₂⟩ := append_inv h; exact ⟨_, _, .star hu h₁, h₂⟩
    | lazyStar hu h => obtain ⟨_, _, h₁, h₂⟩ := append_inv h; exact ⟨_, _, .lazyStar hu h₁, h₂⟩
    | mark h => obtain ⟨_, _, h₁, h₂⟩ := append_inv h; exact ⟨_, _, .mark h₁, h₂⟩
    | backref h => obtain ⟨_, _, h₁, h₂⟩ := append_inv h; exact ⟨_, _, .backref h₁, h₂⟩

theorem chrs (w : List Char) (h : Reads ts ms s ms' r) :
    Reads (w.map .chr ++ ts) ms (w ++ s) ms' r := by
  induction w with
  | nil => exact h
  | cons _ _ ih => exact .chr ih

theorem chrs_inv : ∀ {w : List Char} {s : List Char}, Reads (w.map .chr ++ ts) ms s ms' r →
    ∃ s', s = w ++ s' ∧ Reads ts ms s' ms' r
  | [], _, h => ⟨_, rfl, h⟩
  | _ :: _, _, h => by
    rw [List.map_cons, List.cons_append] at h
    cases h with
    | chr h => obtain ⟨s', rfl, h'⟩ := chrs_inv h; exact ⟨s', rfl, h'⟩

theorem mark_inv (h : Reads (.mark :: ts) ms s ms' r) : Reads ts (ms ++ [s]) s ms' r := by
  cases h with
  | mark h => exact h

end Reads

/-- Whether the tokens never read `d` and pass no group mark. -/
def avoids (d : Char) : List Tok → Bool
  | [] => true
  | .chr c :: ts => c != d && avoids d ts
  | .cls p :: ts | .star p :: ts | .lazyStar p :: ts => !p d && avoids d ts
  | .mark :: _ | .backref _ :: _ => false

/-- Tokens that avoid `d` read a stretch without `d` and leave the marks as they are. -/
theorem Reads.split_of_avoids {d : Char} {ts : List Tok} {ms ms' : Marks} {s r : List Char}
    (h : Reads ts ms s ms' r) (hts : avoids d ts = true) : ∃ u, s = u ++ r ∧ d ∉ u ∧ ms' = ms := by
  induction h with
  | nil => exact ⟨[], rfl, List.not_mem_nil d, rfl⟩
  | @chr c _ _ _ _ _ _ ih =>
    simp only [avoids, Bool.and_eq_true, bne_iff_ne] at hts
    obtain ⟨u, rfl, hu, rfl⟩ := ih hts.2
    exact ⟨c :: u, rfl, by simp [Ne.symm hts.1, hu], rfl⟩
  | @cls p x _ _ _ _ _ hx _ ih =>
    simp only [avoids, Bool.and_eq_true, Bool.not_eq_true'] at hts
    obtain ⟨u, rfl, hu, rfl⟩ := ih hts.2
    exact ⟨x :: u, rfl, by simp only [List.mem_cons, not_or]; exact ⟨by rintro rfl; simp [hx] at hts, hu⟩, rfl⟩
  | @star p u' _ _ _ _ _ hu' _ ih | @lazyStar p u' _ _ _ _ _ hu' _ ih =>
    simp only [avoids, Bool.and_eq_true, Bool.not_eq_true'] at hts
    obtain ⟨u, rfl, hu, rfl⟩ := ih hts.2
    exact ⟨u' ++ u, by simp, by simpa using ⟨fun hd => by simpa [hts.1] using hu' d hd, hu⟩, rfl⟩
  | mark _ _ | backref _ _ => simp [avoids] at hts

/-- A match of the backtracking matcher is a reading of the pattern. -/
theorem reads_of_matchToks : ∀ {ts : List Tok} {ms : Marks} {s : List Char}
    {res : Marks × List Char}, matchToks ts ms s = some res → Reads ts ms s res.1 res.2
  | [], _, _, _, h => by cases h; exact .nil
  | .chr _ :: _, _, [], _, h | .cls _ :: _, _, [], _, h => by cases h
  | .chr c :: _, _, x :: _, _, h => by
    rw [matchToks_chr_cons] at h
    split_ifs at h with hx
    exact hx ▸ .chr (reads_of_matchToks h)
  | .cls _ :: _, _, _ :: _, _, h => by
    rw [matchToks_cls_cons] at h
    split_ifs at h with hx
    exact .cls hx (reads_of_matchToks h)
  | .star _ :: _, _, _, _, h => by
    obtain ⟨u, t, rfl, hu, hk⟩ := greedy_some_split h
    exact .star hu (reads_of_matchToks hk)
  | .lazyStar _ :: _, _, _, _, h => by
    obtain ⟨u, t, rfl, hu, hk⟩ := lazy_some_split h
    exact .lazyStar hu (reads_of_matchToks hk)
  | .mark :: _, _, _, _, h => .mark (reads_of_matchToks h)
  | .backref n :: _, ms, s, _, h => by
    simp only [matchToks] at h
    split_ifs at h with hp
    obtain ⟨t, rfl⟩ := List.isPrefixOf_iff_prefix.mp hp
    rw [List.drop_left] at h
    exact .backref (reads_of_matchToks h)

variable {α : Type} {p : Char → Bool} {k : List Char → Option α}

/-- A greedy run finds a match wherever its continuation does at the end of a run. -/
theorem greedy_isSome : ∀ {u v : List Char}, (∀ c ∈ u, p c = true) → (k v).isSome →
    (greedy p k (u ++ v)).isSome
  | [], [], _, h => h
  | [], c :: v, _, h => by
    by_cases hc : p c = true
    · rw [List.nil_append, greedy_cons_go hc]
      cases greedy p k v <;> simp [h]
    · rwa [List.nil_append, greedy_cons_stop (by simpa using hc)]
  | c :: u, v, hu, h => by
    rw [List.cons_append, greedy_cons_go (hu c (List.mem_cons_self c u))]
    have ih := greedy_isSome (fun d hd => hu d (List.mem_cons_of_mem c hd)) h
    cases hg : greedy p k (u ++ v) <;> simp_all

/-- A lazy run finds a match wherever its continuation does at the end of a run. -/
theorem lazy_isSome : ∀ {u v : List Char}, (∀ c ∈ u, p c = true) → (k v).isSome →
    (lazy p k (u ++ v)).isSome
  | [], [], _, h => h
  | [], c :: v, _, h => by
    rw [List.nil_append, lazy]
    cases hk : k (c :: v) <;> simp_all
  | c :: u, v, hu, h => by
    rw [List.cons_append, lazy, if_pos (hu c (List.mem_cons_self c u))]
    have ih := lazy_isSome (fun d hd => hu d (List.mem_cons_of_mem c hd)) h
    cases k (c :: (u ++ v)) <;> simp [ih]

/-- The matcher fails only where the pattern reads nothing: every choice of the repetitions
is tried. -/
theorem matchToks_isSome_of_reads {ts : List Tok} {ms : Marks} {s : List Char} {ms' : Marks}
    {r : List Char} (h : Reads ts ms s ms' r) : (matchToks ts ms s).isSome := by
  induction h with
  | nil => rfl
  | chr _ ih => rwa [matchToks_chr_cons, if_pos rfl]
  | cls hx _ ih => rwa [matchToks_cls_cons, if_pos hx]
  | star hu _ ih => exact greedy_isSome hu ih
  | lazyStar hu _ ih => exact lazy_isSome hu ih
  | mark _ ih => rwa [matchToks_mark]
  | @backref n _ ms s _ _ _ ih =>
    rwa [matchToks, if_pos (List.isPrefixOf_iff_prefix.mpr (List.prefix_append _ _)),
      List.drop_left]

/-- `re.sub(pat, tmpl, s) = out` as a relation: each segment replaced is read by the pattern
from its start, and each character copied stands where the pattern reads nothing. -/
inductive SubSpec (pat : List Tok) (tmpl : List Piece) : List Char → List Char → Prop
  | nil : SubSpec pat tmpl [] []
  | copy {c s out} (hnone : ∀ ms r, ¬ Reads pat [] (c :: s) ms r) :
      SubSpec pat tmpl s out → SubSpec pat tmpl (c :: s) (c :: out)
  | replace {m s ms out} (hm : m ≠ []) (hread : Reads pat [] (m ++ s) ms s) :
      SubSpec pat tmpl s out → SubSpec pat tmpl (m ++ s) (expand (groupText ms) tmpl ++ out)

/-- The scan of `Rule.sub` is a substitution of `SubSpec`: the backtracking engine's
`re.sub` replaces only what its pattern reads, leftmost first. -/
theorem Rule.sub_refines (r : Rule) : ∀ s : List Char, SubSpec r.pat r.tmpl s (r.sub s)
  | [] => .nil
  | c :: s => by
    cases hm : matchToks r.pat [] (c :: s) with
    | none =>
      rw [r.sub_cons_of_none hm]
      exact .copy (fun ms t ht => by simpa [hm] using matchToks_isSome_of_reads ht)
        (r.sub_refines s)
    | some res =>
      obtain ⟨ms, rest⟩ := res
      obtain ⟨m, hmr⟩ := matchToks_suffix hm
      have hlt := matchToks_length_lt r.consumes hm
      have hread := reads_of_matchToks hm
      have ih := r.sub_refines rest
      rw [r.sub_of_some hm, ← hmr]
      rw [← hmr] at hread
      exact .replace (by rintro rfl; simp [← hmr] at hlt) hread ih
termination_by s => s.length

end AssertMigration
