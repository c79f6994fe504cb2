import CallByNeed.Text.Printable

set_option autoImplicit false

/-!
Characters and texts in quotes. The escapes are those of the usual short forms;
every other character without a glyph of its own is written as its code.
-/

namespace CallByNeed.Text

def hexDigits (n : Nat) : String := String.ofList (Nat.toDigits 16 n)

/-- One character inside the given quote mark. -/
def escape (quote c : Char) : String :=
  match c with
  | '\x00' => "\\0"
  | '\t' => "\\t"
  | '\n' => "\\n"
  | '\r' => "\\r"
  | '\\' => "\\\\"
  | c =>
    if c = quote then "\\" ++ c.toString
    else if isPrintable c then c.toString
    else "\\u\x7b" ++ hexDigits c.toNat ++ "\x7d"

def quoteChar (c : Char) : String := "'" ++ escape '\x27' c ++ "'"

def quote (s : String) : String := "\"" ++ String.join (s.toList.map (escape '"')) ++ "\""

end CallByNeed.Text
