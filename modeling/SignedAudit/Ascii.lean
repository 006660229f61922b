namespace SignedAudit.Ascii

/-! # Bytes of ASCII

Names for the bytes that the formats of this library give a meaning to. -/

/-- The byte that moves back by one. -/
abbrev backspace : UInt8 := 8

/-- The byte that moves to the next stop. -/
abbrev tab : UInt8 := 9

/-- The byte that ends a line. -/
abbrev newline : UInt8 := 10

/-- The byte that moves to the next page. -/
abbrev formFeed : UInt8 := 12

/-- The byte that moves to the start of the line. -/
abbrev carriageReturn : UInt8 := 13

/-- The least byte that is not a control byte. -/
abbrev space : UInt8 := 32

/-- The double quote. -/
abbrev quote : UInt8 := 34

/-- The single quote. -/
abbrev apostrophe : UInt8 := 39

/-- The plus sign. -/
abbrev plus : UInt8 := 43

/-- The comma. -/
abbrev comma : UInt8 := 44

/-- The dash, which is also the minus sign. -/
abbrev dash : UInt8 := 45

/-- The point. -/
abbrev point : UInt8 := 46

/-- The slash. -/
abbrev slash : UInt8 := 47

/-- The digit zero, after which the other digits follow. -/
abbrev zero : UInt8 := 48

/-- The digit nine. -/
abbrev nine : UInt8 := 57

/-- The colon. -/
abbrev colon : UInt8 := 58

/-- The letter between a date and a time of day. -/
abbrev upperT : UInt8 := 84

/-- The letter for UTC. -/
abbrev upperZ : UInt8 := 90

/-- The backslash. -/
abbrev backslash : UInt8 := 92

/-- The first hexadecimal digit above nine. -/
abbrev lowerA : UInt8 := 97

/-- The last hexadecimal digit. -/
abbrev lowerF : UInt8 := 102

/-- The opening brace. -/
abbrev openBrace : UInt8 := 123

/-- The vertical bar. -/
abbrev bar : UInt8 := 124

/-- The closing brace. -/
abbrev closeBrace : UInt8 := 125

end SignedAudit.Ascii
