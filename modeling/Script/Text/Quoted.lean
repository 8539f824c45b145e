import Script.Text.Printable

/-!
# Quoted text

A message that names a piece of source text shows it between quotation marks,
with an escape for every character that would break the line, end the quotation
or stay invisible.

## Main definitions

* `hexDigits` — a number in lower-case hexadecimal digits, without leading zeros.
* `escape` — the characters that stand for a character inside a quotation.
* `quote` — a text between quotation marks.
-/

namespace Script.Text

/-- A number in lower-case hexadecimal digits, without leading zeros. -/
def hexDigits (n : Nat) : List Char := Nat.toDigits 16 n

/-- What stands for a character inside a quotation. -/
def escape (c : Char) : List Char :=
  if c = '"' then ['\\', '"']
  else if c = '\\' then ['\\', '\\']
  else if c = '\t' then ['\\', 't']
  else if c = '\r' then ['\\', 'r']
  else if c = '\n' then ['\\', 'n']
  else if c = '\x00' then ['\\', '0']
  else if isPrintable c then [c]
  else ['\\', 'u', '{'] ++ hexDigits c.toNat ++ ['}']

/-- A text between quotation marks. -/
def quote (text : String) : String :=
  String.ofList ('"' :: text.toList.flatMap escape ++ ['"'])

example : quote "a'b" = "\"a'b\"" := by decide +kernel

example : quote "\t\x00\\\"" = "\"\\t\\0\\\\\\\"\"" := by decide +kernel

example : quote "\u0085\u0301" = "\"\\u\x7b85\x7d\\u\x7b301\x7d\"" := by decide +kernel

end Script.Text
