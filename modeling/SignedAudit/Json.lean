import SignedAudit.Hex

namespace SignedAudit.Json

/-! # JSON text

Strings and objects as they are written. A string escapes the quote, the backslash and every byte below
32, the latter by its short form where there is one; every other byte stands for itself, so that text
keeps its encoding whatever it is. -/

/-- How a byte is written inside a string. -/
def escapeByte (b : UInt8) : Bytes :=
  if b = Ascii.backslash then Bytes.ascii "\\\\"
  else if b = Ascii.quote then Bytes.ascii "\\\""
  else if b = Ascii.backspace then Bytes.ascii "\\b"
  else if b = Ascii.formFeed then Bytes.ascii "\\f"
  else if b = Ascii.newline then Bytes.ascii "\\n"
  else if b = Ascii.carriageReturn then Bytes.ascii "\\r"
  else if b = Ascii.tab then Bytes.ascii "\\t"
  else if b < Ascii.space then Bytes.ascii "\\u00" ++ Hex.encode [b]
  else [b]

/-- A text as it is written inside a string. -/
def escape (text : Bytes) : Bytes := text.flatMap escapeByte

@[simp] theorem escape_nil : escape [] = [] := rfl

@[simp] theorem escape_cons (b : UInt8) (text : Bytes) :
    escape (b :: text) = escapeByte b ++ escape text := rfl

@[simp] theorem escape_append (a b : Bytes) : escape (a ++ b) = escape a ++ escape b := by
  simp [escape]

/-- A text as a string with its quotes. -/
def quoted (text : Bytes) : Bytes := Ascii.quote :: escape text ++ [Ascii.quote]

/-- A member of an object: its name, and a value that is already written. -/
def member (name value : Bytes) : Bytes := quoted name ++ Ascii.colon :: value

/-- An object of written members, in their order. -/
def object (members : List Bytes) : Bytes :=
  Ascii.openBrace :: [Ascii.comma].intercalate members ++ [Ascii.closeBrace]

end SignedAudit.Json
