import Mathlib.Data.List.Infix

/-!
# Occurrences of a literal in a concatenation

Every rule of the scripts needs some literal (`.Should()`, `.Assert.`, a matcher name) at
the place where it matches, so the rewriting proofs keep asking whether a literal occurs in
text built by concatenating known and unknown pieces. An occurrence in `x ++ y` lies in
`x`, in `y`, or across the junction; the lemmas below close the junction case from the
characters at the junction, from a separator the literal does not contain, or from the
literal having no border (no proper prefix that is also a suffix, as `.Should()`).
-/

namespace AssertMigration

variable {α : Type} {w x y z u : List α} {c d : α}

/-- An occurrence in `x ++ y` lies in `x`, in `y`, or across the junction. -/
theorem infix_append_cases (h : w <:+: x ++ y) :
    w <:+: x ∨ w <:+: y ∨ ∃ j, 0 < j ∧ j < w.length ∧ w.take j <:+ x ∧ w.drop j <+: y := by
  obtain ⟨s, t, hst⟩ := h
  rw [List.append_assoc] at hst
  rcases List.append_eq_append_iff.mp hst with ⟨a, rfl, hwt⟩ | ⟨a, rfl, rfl⟩
  · rcases List.append_eq_append_iff.mp hwt with ⟨b, rfl, rfl⟩ | ⟨b, rfl, rfl⟩
    · exact .inl ⟨s, b, by simp⟩
    · rcases a.eq_nil_or_concat with rfl | ⟨a', e, rfl⟩
      · exact .inr (.inl ⟨[], t, by simp⟩)
      · rcases b.eq_nil_or_concat with rfl | ⟨b', f, rfl⟩
        · exact .inl ⟨s, [], by simp⟩
        · refine .inr (.inr ⟨(a'.concat e).length, by simp, by simp, ?_, ?_⟩)
          · rw [List.take_left]; exact List.suffix_append _ _
          · rw [List.drop_left]; exact List.prefix_append _ _
  · exact .inr (.inl ⟨a, t, by simp⟩)

/-- A literal missing from both sides and from every junction is missing from the whole. -/
theorem not_infix_append (hx : ¬ w <:+: x) (hy : ¬ w <:+: y)
    (hs : ∀ j < w.length, 0 < j → w.take j <:+ x → ¬ w.drop j <+: y) : ¬ w <:+: x ++ y := by
  intro h
  rcases infix_append_cases h with h | h | ⟨j, hj, hjw, h1, h2⟩
  exacts [hx h, hy h, hs j hjw hj h1 h2]

/-- An occurrence starts at some position. -/
theorem exists_prefix_drop_of_infix (h : w <:+: x) : ∃ i, w <+: x.drop i := by
  obtain ⟨s, t, rfl⟩ := h
  exact ⟨s.length, t, by simp⟩

/-- A text `v ++ z` that is cut at a character `d` foreign to `v` is cut inside `z`. -/
theorem append_split_of_not_mem {v : List α} (h : v ++ z = x ++ d :: y) (hd : d ∉ v) :
    ∃ z', x = v ++ z' ∧ z = z' ++ d :: y := by
  rcases List.append_eq_append_iff.mp h with ⟨a, rfl, rfl⟩ | ⟨a, rfl, ha⟩
  · exact ⟨a, rfl, rfl⟩
  · cases a with
    | nil => exact ⟨[], by simp, by simpa using ha.symm⟩
    | cons e a =>
      simp only [List.cons_append, List.cons.injEq] at ha
      exact absurd (by simp [ha.1]) hd

/-- A text whose first element is not `d` does not start `d :: y`. -/
theorem not_prefix_cons_of_head (hw : w ≠ []) (h : w.head? ≠ some d) : ¬ w <+: d :: y := by
  cases w with
  | nil => exact absurd rfl hw
  | cons b w => exact fun hp => h (by rw [(List.cons_prefix_cons.mp hp).1]; rfl)

/-- A literal without `d` that starts a text `x ++ d :: y` lies inside `x`. -/
theorem prefix_of_prefix_append_cons (hd : d ∉ w) (h : w <+: x ++ d :: y) : w <+: x := by
  obtain ⟨t, ht⟩ := h
  rcases List.append_eq_append_iff.mp ht with ⟨a, rfl, -⟩ | ⟨a, rfl, ha⟩
  · exact List.prefix_append w a
  · cases a with
    | nil => simp
    | cons e a =>
      simp only [List.cons_append, List.cons.injEq] at ha
      exact absurd (by simp [ha.1]) hd

/-- A literal that starts with `d` does not occur across or inside a stretch without `d`. -/
theorem not_infix_append_of_head (hd : d ∉ x) (hw : w.head? = some d) (hy : ¬ w <:+: y) :
    ¬ w <:+: x ++ y := by
  obtain ⟨w', rfl⟩ : ∃ w', w = d :: w' := by
    cases w with
    | nil => cases hw
    | cons e w' => exact ⟨w', by simp at hw; rw [hw]⟩
  refine not_infix_append (fun h => hd (h.subset (List.mem_cons_self d w'))) hy
    fun j _ hj h _ => hd (h.subset ?_)
  obtain ⟨j, rfl⟩ : ∃ j', j = j' + 1 := ⟨j - 1, by omega⟩
  simp

/-- An occurrence cannot start in a stretch made of characters foreign to the literal. -/
theorem infix_of_append_left (hw : w ≠ []) (hx : ∀ c ∈ x, c ∉ w) (h : w <:+: x ++ y) :
    w <:+: y := by
  obtain ⟨c, hc⟩ := List.exists_mem_of_ne_nil w hw
  rcases infix_append_cases h with h | h | ⟨j, hj, hjw, hx', _⟩
  · exact absurd hc (hx c (h.subset hc))
  · exact h
  · obtain ⟨e, he⟩ := List.exists_mem_of_ne_nil (w.take j)
      (List.ne_nil_of_length_pos (by rw [List.length_take]; omega))
    exact absurd (List.mem_of_mem_take he) (hx e (hx'.subset he))

/-- An occurrence cannot end in a stretch made of characters foreign to the literal. -/
theorem infix_of_append_right (hw : w ≠ []) (hy : ∀ c ∈ y, c ∉ w) (h : w <:+: x ++ y) :
    w <:+: x := by
  obtain ⟨c, hc⟩ := List.exists_mem_of_ne_nil w hw
  rcases infix_append_cases h with h | h | ⟨j, _, hj, _, hy'⟩
  · exact h
  · exact absurd hc (hy c (h.subset hc))
  · obtain ⟨e, he⟩ := List.exists_mem_of_ne_nil (w.drop j)
      (List.ne_nil_of_length_pos (by rw [List.length_drop]; omega))
    exact absurd (List.mem_of_mem_drop he) (hy e (hy'.subset he))

/-- A literal whose first character a text lacks occurs after that text only in what
follows it. -/
theorem infix_of_append_of_head {S : List α} (hc : c ∉ x) (h : c :: S <:+: x ++ y) :
    c :: S <:+: y := by
  rcases infix_append_cases h with h | h | ⟨j, hj, -, h1, -⟩
  · exact absurd (h.subset (List.mem_cons_self c S)) hc
  · exact h
  · obtain ⟨k, rfl⟩ : ∃ k, j = k + 1 := ⟨j - 1, by omega⟩
    exact absurd (h1.subset (by simp)) hc

/-- A separator the literal does not contain splits the search in two. -/
theorem infix_append_sep (hd : d ∉ w) (h : w <:+: x ++ d :: y) : w <:+: x ∨ w <:+: y := by
  rcases infix_append_cases h with h | h | ⟨j, _, hj, _, hy⟩
  · exact .inl h
  · rcases List.infix_cons_iff.mp h with hp | h
    · cases w with
      | nil => exact .inr List.nil_infix
      | cons e w => exact absurd (by rw [← (List.cons_prefix_cons.mp hp).1]; simp) hd
    · exact .inr h
  · obtain ⟨e, t, he⟩ := List.exists_cons_of_ne_nil
      (List.ne_nil_of_length_pos (by rw [List.length_drop]; omega) : w.drop j ≠ [])
    rw [he] at hy
    have hed : e = d := (List.cons_prefix_cons.mp hy).1
    exact absurd (List.mem_of_mem_drop (by rw [he, hed]; simp)) hd

/-- A literal occurs only where all its characters do. -/
theorem not_infix_of_not_mem (hc : c ∈ w) (hx : c ∉ x) : ¬ w <:+: x := fun h => hx (h.subset hc)

/-- A literal holding a character more often than a text does not occur in it. -/
theorem not_infix_of_count_lt [DecidableEq α] (h : x.count c < w.count c) : ¬ w <:+: x :=
  fun hw => absurd (hw.sublist.count_le c) (by omega)

/-- A literal whose last character a stretch lacks cannot end in that stretch. -/
theorem not_infix_append_of_last (hx : ¬ w <:+: x) (he : ∀ j < w.length, c ∈ w.drop j)
    (hy : c ∉ y) : ¬ w <:+: x ++ y := by
  intro h
  rcases infix_append_cases h with h | h | ⟨j, _, hj, _, hp⟩
  · exact hx h
  · cases w with
    | nil => exact hx List.nil_infix
    | cons a w => exact hy (h.subset (by simpa using he 0 (by simp)))
  · exact hy (hp.subset (he j hj))

/-- A literal holding `c` and, after it, a piece `v` occurs in `x ++ y` only if `x` holds `c`
or `y` holds `v`. -/
theorem not_infix_append_of_split {w₁ w₂ v : List α} (hc : c ∈ w₁) (hv : v <:+: w₂)
    (hx : c ∉ x) (hy : ¬ v <:+: y) : ¬ w₁ ++ w₂ <:+: x ++ y := by
  intro h
  rcases infix_append_cases h with h | h | ⟨j, -, -, h1, h2⟩
  · exact hx (h.subset (List.mem_append_left _ hc))
  · exact hy (hv.trans ((List.suffix_append w₁ w₂).isInfix.trans h))
  · by_cases hj : w₁.length ≤ j
    · rw [List.take_append_eq_append_take, List.take_of_length_le hj] at h1
      exact hx (h1.subset (List.mem_append_left _ hc))
    · rw [List.drop_append_of_le_length (by omega)] at h2
      exact hy (hv.trans ((List.suffix_append _ _).isInfix.trans h2.isInfix))

/-- A text ending in `e` has no suffix ending in another character. -/
theorem not_suffix_concat (hw : w.getLast? ≠ some c) (hne : w ≠ []) : ¬ w <:+ x ++ [c] := by
  intro h
  rcases List.suffix_concat_iff.mp h with rfl | ⟨t, rfl, -⟩
  · exact hne rfl
  · simp at hw

/-- A suffix of `x ++ '.' :: id`, where `id` has no dot, that starts with the only dot of
the literal is the last segment itself. -/
theorem eq_of_suffix_dot_seg {w' id : List α} (hw' : d ∉ w') (hid : d ∉ id)
    (h : d :: w' <:+ x ++ d :: id) : w' = id := by
  by_cases hl : (d :: w').length ≤ (d :: id).length
  · rcases List.suffix_cons_iff.mp (List.suffix_of_suffix_length_le h (List.suffix_append _ _) hl)
      with he | he
    · exact (List.cons.inj he).2
    · exact absurd (he.subset (List.mem_cons_self d w')) hid
  · obtain ⟨t, ht⟩ := List.suffix_of_suffix_length_le (List.suffix_append _ _) h (by omega)
    cases t with
    | nil => simp at ht; exact ht.symm
    | cons a t =>
      have : d ∈ w' := by
        have h2 := congrArg List.tail ht
        simp only [List.cons_append, List.tail_cons] at h2
        rw [← h2]; simp
      exact absurd this hw'

/-- A split at a character a final segment lacks falls before that segment. -/
theorem split_of_not_mem_append {s : List α} (h : x ++ s = y ++ c :: z) (hc : c ∉ s) :
    ∃ z', x = y ++ c :: z' ∧ z = z' ++ s := by
  rcases List.append_eq_append_iff.mp h with ⟨a, rfl, hs⟩ | ⟨a, rfl, hs⟩
  · exact absurd (hs ▸ List.mem_append_right a (List.mem_cons_self c z)) hc
  · cases a with
    | nil => exact absurd (by simp at hs; rw [← hs]; simp) hc
    | cons e a =>
      simp only [List.cons_append, List.cons.injEq] at hs
      exact ⟨a, by rw [hs.1], hs.2⟩

/-- A literal has no border: no proper non-empty suffix of it is also a prefix. -/
def Unbordered (w : List α) : Prop := ∀ k < w.length, 0 < k → ¬ w.drop k <+: w

instance [DecidableEq α] (w : List α) : Decidable (Unbordered w) := by
  unfold Unbordered; infer_instance

/-- An unbordered literal does not occur so as to overlap its own occurrence. -/
theorem Unbordered.not_prefix_drop (hw : Unbordered w) {k : Nat} (hk : k < w.length)
    (hk0 : 0 < k) : ¬ w <+: w.drop k ++ z := fun h =>
  hw k hk hk0 (List.prefix_of_prefix_length_le (List.prefix_append _ _) h (by simp))

/-- Before an occurrence of an unbordered literal that follows a text free of it, the
literal starts nowhere inside that text. -/
theorem Unbordered.not_prefix_drop_append (hw : Unbordered w) (hu : ¬ w <:+: u) {i : Nat}
    (hi : i < u.length) : ¬ w <+: u.drop i ++ (w ++ z) := by
  intro h
  have hv : ¬ w <:+: u.drop i := fun h' => hu (h'.trans (List.drop_suffix i u).isInfix)
  by_cases hl : w.length ≤ (u.drop i).length
  · exact hv (List.prefix_of_prefix_length_le h (List.prefix_append _ _) hl).isInfix
  · have hvw : u.drop i <+: w :=
      List.prefix_of_prefix_length_le (List.prefix_append _ _) h (by omega)
    obtain ⟨t, ht⟩ := hvw
    have hk : (u.drop i).length < w.length := by omega
    have hk0 : 0 < (u.drop i).length := by simp; omega
    nth_rewrite 1 [← ht] at h
    have htz : t <+: w ++ z := (List.prefix_append_right_inj _).mp h
    have htw : t <+: w := List.prefix_of_prefix_length_le htz (List.prefix_append _ _)
      (by rw [← ht, List.length_append]; omega)
    have hdrop : w.drop (u.drop i).length = t := by rw [← ht, List.drop_left]
    exact hw _ hk hk0 (hdrop ▸ htw)

/-- An unbordered literal found in `A ++ (S ++ R)`, where `A` holds none and `S ++ R` holds it
only at its start, is that occurrence. -/
theorem Unbordered.eq_of_append_eq {S A R s t : List α} (hS : Unbordered S) (hA : ¬ S <:+: A)
    (hR : ¬ S <:+: (S ++ R).tail) (h : s ++ (S ++ t) = A ++ (S ++ R)) : s = A ∧ t = R := by
  rcases List.append_eq_append_iff.mp h with ⟨a, rfl, ha⟩ | ⟨c, rfl, hc⟩
  · -- the occurrence starts inside `A`, or right after it
    cases a with
    | nil => simpa using ha
    | cons e a =>
      have := hS.not_prefix_drop_append hA (z := R) (i := s.length) (by simp)
      rw [List.drop_left] at this
      exact absurd ⟨t, ha⟩ this
  · -- the occurrence starts inside `S ++ R`
    cases c with
    | nil => simpa using hc.symm
    | cons e c => exact absurd ⟨c, t, by simp [hc]⟩ hR

/-- So every literal around such an `S` found there stands around that occurrence. -/
theorem Unbordered.aligned {S A R L₁ L₂ : List α} (hS : Unbordered S) (hA : ¬ S <:+: A)
    (hR : ¬ S <:+: (S ++ R).tail) (h : L₁ ++ (S ++ L₂) <:+: A ++ (S ++ R)) :
    L₁ <:+ A ∧ L₂ <+: R := by
  obtain ⟨s, t, hst⟩ := h
  obtain ⟨h1, h2⟩ := hS.eq_of_append_eq hA hR (s := s ++ L₁) (t := L₂ ++ t) (by simpa using hst)
  exact ⟨⟨s, h1⟩, ⟨t, h2⟩⟩

/-- Names separated from what follows by a character that neither contains are equal when
one, with the separator, starts the other. -/
theorem eq_of_prefix_before_sep {N m : List α} (hN : d ∉ N) (hm : d ∉ m)
    (h : N ++ [d] <+: m ++ d :: z) : N = m := by
  induction N generalizing m with
  | nil =>
    cases m with
    | nil => rfl
    | cons e m =>
      simp only [List.nil_append, List.cons_append, List.cons_prefix_cons] at h
      exact absurd (by rw [h.1]; simp) hm
  | cons e N ih =>
    cases m with
    | nil =>
      simp only [List.nil_append, List.cons_append, List.cons_prefix_cons] at h
      exact absurd (by rw [← h.1]; simp) hN
    | cons f m =>
      simp only [List.cons_append, List.cons_prefix_cons] at h
      rw [h.1, ih (fun h' => hN (List.mem_cons_of_mem e h')) (fun h' => hm (List.mem_cons_of_mem f h')) h.2]

theorem intercalate_singleton_cons_cons (l l' : List α) (ls : List (List α)) :
    [d].intercalate (l :: l' :: ls) = l ++ d :: [d].intercalate (l' :: ls) := by
  simp [List.intercalate]

/-- A literal without the separator occurs in a joined text only inside one of the parts. -/
theorem infix_intercalate (hw : w ≠ []) (hd : d ∉ w) {ls : List (List α)}
    (h : w <:+: [d].intercalate ls) : ∃ l ∈ ls, w <:+: l := by
  induction ls with
  | nil => exact absurd (List.infix_nil.mp (by simpa [List.intercalate] using h)) hw
  | cons l ls ih =>
    cases ls with
    | nil => exact ⟨l, List.mem_singleton_self l, by simpa [List.intercalate] using h⟩
    | cons l' ls =>
      rw [intercalate_singleton_cons_cons] at h
      rcases infix_append_sep hd h with h | h
      · exact ⟨l, List.mem_cons_self l _, h⟩
      · obtain ⟨l'', hl, h⟩ := ih h
        exact ⟨l'', List.mem_cons_of_mem l hl, h⟩

/-- Each part stands in the joined text. -/
theorem infix_intercalate_of_mem {l : List α} {ls : List (List α)} (h : l ∈ ls) :
    l <:+: [d].intercalate ls := by
  induction ls with
  | nil => cases h
  | cons l' ls ih =>
    cases ls with
    | nil => simp [List.mem_singleton.mp h, List.intercalate]
    | cons l'' ls =>
      rw [intercalate_singleton_cons_cons]
      rcases List.mem_cons.mp h with rfl | h
      · exact (List.prefix_append _ _).isInfix
      · exact (ih h).trans ((List.infix_cons (List.infix_refl _)).trans (List.suffix_append l' _).isInfix)

section SplitOn

variable [DecidableEq α]

/-- A line of a text split at `d` stands in the text. -/
theorem infix_of_mem_splitOn {l : List α} (h : l ∈ x.splitOn d) : l <:+: x :=
  List.intercalate_splitOn x d ▸ infix_intercalate_of_mem h

/-- A line of a text split at `d` holds no `d`. -/
theorem not_mem_of_mem_splitOn {l : List α} : ∀ {x : List α}, l ∈ x.splitOn d → d ∉ l
  | [], h => by
    rw [List.splitOn_nil, List.mem_singleton] at h
    exact h ▸ List.not_mem_nil d
  | c :: x, h => by
    rw [List.splitOn, List.splitOnP_cons] at h
    split_ifs at h with hc
    · rcases List.mem_cons.mp h with rfl | h
      · exact List.not_mem_nil d
      · exact not_mem_of_mem_splitOn h
    · obtain ⟨l', ls, hls⟩ := List.exists_cons_of_ne_nil (List.splitOnP_ne_nil _ x)
      rw [hls, List.modifyHead_cons, List.mem_cons] at h
      rcases h with rfl | h
      · have hl' : d ∉ l' := not_mem_of_mem_splitOn (hls ▸ List.mem_cons_self l' ls)
        simp only [List.mem_cons, not_or]
        exact ⟨fun e => hc (by simp [e]), hl'⟩
      · exact not_mem_of_mem_splitOn (hls ▸ List.mem_cons_of_mem l' h)

end SplitOn

end AssertMigration
