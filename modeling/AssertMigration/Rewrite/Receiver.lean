import AssertMigration.Regex.Pattern
import AssertMigration.Text.Occurrence

/-!
# Receiver chains

The receivers of the core grammar are chains `id(.id | [digits] | ())*` whose identifiers
`[A-Za-z_][A-Za-z0-9_]*` are neither `Should` nor `Assert`. `Chain` builds them segment by
segment from the right, so that facts about a chain follow its last segment. The facts
proved here are the ones the rewriting proofs consume: every character is a receiver
character, the chain starts an identifier, it holds neither `.Should()` nor `.Assert.`,
it ends in neither `.Should` nor `.Assert`, and each `(` in it is closed at once.
-/

namespace AssertMigration

/-- `[A-Za-z_][A-Za-z0-9_]*` -/
def isIdent : List Char → Bool
  | [] => false
  | c :: t => identStart c && t.all identChar

/-- An identifier of a chain: neither `Should` nor `Assert`. -/
def ChainIdent (id : List Char) : Prop :=
  isIdent id = true ∧ id ≠ "Should".toList ∧ id ≠ "Assert".toList

/-- The receiver chains of the core grammar. -/
inductive Chain : List Char → Prop
  | ident {id : List Char} : ChainIdent id → Chain id
  | member {r id : List Char} : Chain r → ChainIdent id → Chain (r ++ '.' :: id)
  | index {r ds : List Char} : Chain r → (∀ d ∈ ds, d.isDigit = true) →
      Chain (r ++ '[' :: ds ++ [']'])
  | call {r : List Char} : Chain r → Chain (r ++ ['(', ')'])

theorem identChar_of_identStart {c : Char} (h : identStart c = true) : identChar c = true := by
  simp only [identStart, identChar, Char.isAlphanum, Bool.or_eq_true] at *
  tauto

/-- The code points of `[a-zA-Z_]`. -/
theorem identStart_toNat {c : Char} (h : identStart c = true) :
    (65 ≤ c.toNat ∧ c.toNat ≤ 90) ∨ (97 ≤ c.toNat ∧ c.toNat ≤ 122) ∨ c.toNat = 95 := by
  simp only [identStart, Char.isAlpha, Char.isUpper, Char.isLower, ge_iff_le, UInt32.le_def,
    BitVec.le_def, Bool.or_eq_true, Bool.and_eq_true, decide_eq_true_eq, beq_iff_eq] at h
  rcases h with (h | h) | rfl
  exacts [.inl h, .inr (.inl h), .inr (.inr rfl)]

theorem identStart_eq_false_of_isPySpace {c : Char} (h : isPySpace c = true) :
    identStart c = false := by
  cases hc : identStart c
  · rfl
  · have := identStart_toNat hc
    simp only [isPySpace, Bool.or_eq_true, Bool.and_eq_true, decide_eq_true_eq, beq_iff_eq] at h
    omega

theorem isIdent_mem {id : List Char} (h : isIdent id = true) {c : Char} (hc : c ∈ id) :
    identChar c = true := by
  cases id with
  | nil => simp [isIdent] at h
  | cons d t =>
    simp only [isIdent, Bool.and_eq_true, List.all_eq_true] at h
    rcases List.mem_cons.mp hc with rfl | hc
    · exact identChar_of_identStart h.1
    · exact h.2 c hc

/-- Identifier characters are none of the punctuation the rules look for. -/
theorem not_mem_of_isIdent {id : List Char} (h : isIdent id = true) {c : Char}
    (hc : identChar c = false) : c ∉ id := fun hm => by simp [isIdent_mem h hm] at hc

theorem digit_identChar {d : Char} (h : d.isDigit = true) : identChar d = true := by
  simp [identChar, Char.isAlphanum, h]

namespace Chain

variable {r : List Char}

theorem head (h : Chain r) : ∃ c t, r = c :: t ∧ identStart c = true := by
  induction h with
  | ident hid =>
    obtain ⟨hi, -, -⟩ := hid
    rename_i id
    cases id with
    | nil => simp [isIdent] at hi
    | cons c t => exact ⟨c, t, rfl, by simp [isIdent] at hi; exact hi.1⟩
  | member _ _ ih | index _ _ ih | call _ ih =>
    obtain ⟨c, t, rfl, hc⟩ := ih
    exact ⟨c, _, rfl, hc⟩

theorem receiverChar_of_mem (h : Chain r) : ∀ c ∈ r, receiverChar c = true := by
  induction h with
  | ident hid => exact fun c hc => by simp [receiverChar, isIdent_mem hid.1 hc]
  | member _ hid ih =>
    intro c hc
    rcases List.mem_append.mp hc with hc | hc
    · exact ih c hc
    · rcases List.mem_cons.mp hc with rfl | hc
      · rfl
      · simp [receiverChar, isIdent_mem hid.1 hc]
  | index _ hds ih =>
    intro c hc
    simp only [List.mem_append, List.mem_cons, List.not_mem_nil, or_false] at hc
    rcases hc with (hc | rfl | hc) | rfl
    · exact ih c hc
    · rfl
    · simp [receiverChar, digit_identChar (hds c hc)]
    · rfl
  | call _ ih =>
    intro c hc
    simp only [List.mem_append, List.mem_cons, List.not_mem_nil, or_false] at hc
    rcases hc with hc | rfl | rfl
    · exact ih c hc
    · rfl
    · rfl

theorem not_mem_dot {id : List Char} (h : ChainIdent id) : '.' ∉ id :=
  not_mem_of_isIdent h.1 (by decide)

theorem not_mem_paren {id : List Char} (h : ChainIdent id) : ')' ∉ id :=
  not_mem_of_isIdent h.1 (by decide)

theorem not_mem_open {id : List Char} (h : ChainIdent id) : '(' ∉ id :=
  not_mem_of_isIdent h.1 (by decide)

/-- A chain does not end in `.n` for a name `n` that no chain identifier equals. -/
theorem not_suffix_dot_name {n : List Char} (h : Chain r) (hn : '.' ∉ n)
    (hl : ∀ e ∈ [']', ')'], ('.' :: n).getLast? ≠ some e) (hid : ∀ id, ChainIdent id → id ≠ n) :
    ¬ '.' :: n <:+ r := by
  induction h with
  | ident hi => exact fun h' => not_mem_dot hi (h'.subset (List.mem_cons_self _ _))
  | member _ hi _ => exact fun h' => hid _ hi (eq_of_suffix_dot_seg hn (not_mem_dot hi) h').symm
  | index _ _ _ => exact not_suffix_concat (hl ']' (by simp)) (by simp)
  | call _ _ =>
    rw [show ['(', ')'] = ['('] ++ [')'] from rfl, ← List.append_assoc]
    exact not_suffix_concat (hl ')' (by simp)) (by simp)

theorem not_suffix_should (h : Chain r) : ¬ ".Should".toList <:+ r :=
  h.not_suffix_dot_name (n := "Should".toList) (by decide) (by decide) fun _ hi => hi.2.1

theorem not_suffix_assert (h : Chain r) : ¬ ".Assert".toList <:+ r :=
  h.not_suffix_dot_name (n := "Assert".toList) (by decide) (by decide) fun _ hi => hi.2.2

/-- A chain holds no `.Should()`. -/
theorem not_infix_should (h : Chain r) : ¬ ".Should()".toList <:+: r := by
  have hlast : ∀ j < ".Should()".toList.length, ')' ∈ ".Should()".toList.drop j := by decide
  induction h with
  | ident hi => exact not_infix_of_not_mem (List.mem_cons_self '.' _) (not_mem_dot hi)
  | member _ hi ih =>
    exact not_infix_append_of_last ih hlast (by simpa using not_mem_paren hi)
  | @index r ds _ hds ih =>
    rw [List.append_assoc]
    refine not_infix_append_of_last ih hlast ?_
    simp only [List.cons_append, List.mem_cons, List.mem_append, List.mem_singleton, not_or]
    refine ⟨by decide, fun hd => ?_, by decide⟩
    simpa using hds ')' hd
  | @call r hr ih =>
    intro h'
    rcases infix_append_cases h' with h' | h' | ⟨j, hj, hjl, ht, hp⟩
    · exact ih h'
    · exact absurd h'.length_le (by decide)
    · have key : ∀ j < ".Should()".toList.length, 0 < j →
          ".Should()".toList.drop j <+: ['(', ')'] → ".Should()".toList.take j = ".Should".toList := by
        decide
      exact hr.not_suffix_should (key j hjl hj hp ▸ ht)

/-- A chain holds no `.Assert.`. -/
theorem not_infix_assert (h : Chain r) : ¬ ".Assert.".toList <:+: r := by
  have hlast : ∀ j < ".Assert.".toList.length, '.' ∈ ".Assert.".toList.drop j := by decide
  induction h with
  | ident hi => exact not_infix_of_not_mem (List.mem_cons_self '.' _) (not_mem_dot hi)
  | @member r id hr hi ih =>
    intro h'
    rcases infix_append_cases h' with h' | h' | ⟨j, hj, hjl, ht, hp⟩
    · exact ih h'
    · refine not_infix_of_count_lt (c := '.') ?_ h'
      rw [List.count_cons_self, List.count_eq_zero_of_not_mem (not_mem_dot hi)]
      decide
    · have key : ∀ j < ".Assert.".toList.length, 0 < j →
          (".Assert.".toList.drop j).head? = some '.' → ".Assert.".toList.take j = ".Assert".toList := by
        decide
      obtain ⟨e, t, he⟩ := List.exists_cons_of_ne_nil
        (List.ne_nil_of_length_pos (by rw [List.length_drop]; omega) :
          ".Assert.".toList.drop j ≠ [])
      have hp' : e :: t <+: '.' :: id := he ▸ hp
      have hhead : (".Assert.".toList.drop j).head? = some '.' := by
        rw [he, (List.cons_prefix_cons.mp hp').1]; rfl
      exact hr.not_suffix_assert (key j hjl hj hhead ▸ ht)
  | @index r ds _ hds ih =>
    rw [List.append_assoc]
    refine not_infix_append_of_last ih hlast ?_
    simp only [List.cons_append, List.mem_cons, List.mem_append, List.mem_singleton, not_or]
    refine ⟨by decide, fun hd => ?_, by decide⟩
    simpa using hds '.' hd
  | call _ ih => exact not_infix_append_of_last ih hlast (by decide)

/-- In a chain every `(` is followed at once by `)`. -/
theorem paren_closed (h : Chain r) : ∀ x y, r = x ++ '(' :: y → ∃ y', y = ')' :: y' := by
  induction h with
  | ident hi =>
    intro x y he
    exact absurd (he ▸ List.mem_append_right x (List.mem_cons_self '(' y)) (not_mem_open hi)
  | member _ hi ih =>
    intro x y he
    obtain ⟨z, rfl, rfl⟩ := split_of_not_mem_append he (by simpa using not_mem_open hi)
    obtain ⟨y', rfl⟩ := ih x z rfl
    exact ⟨_, rfl⟩
  | @index r ds _ hds ih =>
    intro x y he
    rw [List.append_assoc] at he
    have hc : '(' ∉ '[' :: ds ++ [']'] := by
      simp only [List.cons_append, List.mem_cons, List.mem_append, List.mem_singleton, not_or]
      refine ⟨by decide, fun hd => ?_, by decide⟩
      simpa using hds '(' hd
    obtain ⟨z, rfl, rfl⟩ := split_of_not_mem_append he hc
    obtain ⟨y', rfl⟩ := ih x z rfl
    exact ⟨_, rfl⟩
  | @call r _ ih =>
    intro x y he
    rcases List.append_eq_append_iff.mp he with ⟨a, rfl, ha⟩ | ⟨a, rfl, ha⟩
    · cases a with
      | nil => exact ⟨[], by simpa using ha.symm⟩
      | cons e a => cases a <;> simp at ha
    · cases a with
      | nil => exact ⟨[], by simpa using ha⟩
      | cons e a =>
        simp only [List.cons_append, List.cons.injEq] at ha
        obtain ⟨y', rfl⟩ := ih x a (by rw [ha.1])
        exact ⟨_, by rw [ha.2]; rfl⟩

end Chain

end AssertMigration
