import AssertMigration.Regex.Sub
import Mathlib.Data.List.Infix

/-!
# The JSON quote normalizers

`replace_quotes.py` rewrites doubled quotes of JSON written inside C# verbatim strings by
two `re.sub` calls over the whole content. `replace_all_quotes.py` works line by line: a
line holding one of six marker substrings has every `\""` turned into a sentinel, every
remaining `""` into `'`, and the sentinel into `\"`, by three calls of `str.replace`.

`str.replace(old, new)` replaces the non-overlapping occurrences of `old` from the left,
which is `re.sub` with the literal pattern `old` and the literal text `new`.
-/

namespace AssertMigration

/-- `str.replace(old, new)` for a non-empty `old`. -/
def replaceStr (old new : List Char) (h : consuming (old.map .chr) = true) (s : List Char) :
    List Char :=
  (⟨old.map .chr, new.map .text, h⟩ : Rule).sub s

namespace ReplaceQuotes

/-- `""([^"]+)""` -/
def doubledPat : List Tok := str "\"\"" ++ (grp (plus (notChar '"')) ++ str "\"\"")

/-- `"([^"]+)":\s*"([^"]+)"` -/
def keyValuePat : List Tok := quotedGrp ++ (str ":" ++ (.star isPySpace :: quotedGrp))

/-- `re.sub(r'""([^"]+)""', r"'\1'", content)` -/
def doubledRule : Rule := reSub doubledPat "\x27\\1\x27" rfl

/-- `re.sub(r'"([^"]+)":\s*"([^"]+)"', r"'\1': '\2'", content)` -/
def keyValueRule : Rule := reSub keyValuePat "\x27\\1\x27: \x27\\2\x27" rfl

/-- `replace_double_quotes_in_json` of `replace_quotes.py`. -/
def replaceDoubleQuotesInJson (content : List Char) : List Char :=
  applyAll [doubledRule, keyValueRule] content

end ReplaceQuotes

namespace ReplaceAllQuotes

/-- The marker substrings that make a line eligible. -/
def markers : List (List Char) :=
  ["\"\"".toList, "@\"".toList, "json".toList, "script".toList, "Script".toList,
   "stateMachine".toList]

/-- The sentinel that protects `\""` while `""` is replaced. -/
def tempEscaped : List Char := "__TEMP_ESCAPED__".toList

/-- The rewrite of one eligible line. -/
def fixLine (line : List Char) : List Char :=
  let line := replaceStr "\\\"\"".toList tempEscaped rfl line
  let line := replaceStr "\"\"".toList ['\x27'] rfl line
  replaceStr tempEscaped "\\\"".toList rfl line

/-- `any(marker in line for marker in markers)` -/
def hasMarker (line : List Char) : Bool := markers.any (fun m => decide (m <:+: line))

/-- One line of the loop: rewritten when it holds a marker, kept otherwise. -/
def processLine (line : List Char) : List Char :=
  if hasMarker line then fixLine line else line

/-- `replace_double_quotes_comprehensive` of `replace_all_quotes.py`. -/
def replaceDoubleQuotesComprehensive (content : List Char) : List Char :=
  ['\n'].intercalate ((content.splitOn '\n').map processLine)

end ReplaceAllQuotes

end AssertMigration
