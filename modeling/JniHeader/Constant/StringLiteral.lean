import JniHeader.Text.Utf8

/-!
# C string literals

A text as a C string literal in printable ASCII. Quotes, backslashes and the
common controls have their short escapes; every other byte of the text's UTF-8
form is written as three octal digits, so that no digit after it can join in.
-/
namespace JniHeader.StringLiteral

/-- One code point inside a literal. -/
def escape (c : CodePoint) : Text :=
  if c = '\\' then "\\\\"
  else if c = '"' then "\\\""
  else if c = '\n' then "\\n"
  else if c = '\t' then "\\t"
  else if c = '\r' then "\\r"
  else if c.isPlain then [c]
  else c.utf8.flatMap fun b => CodePoint.ofChar '\\' :: Text.octal b.toNat

def write (t : Text) : Text := "\"" ++ t.flatMap escape ++ "\""

end JniHeader.StringLiteral
