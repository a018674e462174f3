/-!
# Characters of XML

Which characters an XML text may hold, by `isXmlChar`, and which of them make names, by `isNameStart`
and `isNameChar`.
-/

namespace Dbgp.Xml

/-- Everything but the control characters other than tab and line ends, and the noncharacters `U+FFFE`
and `U+FFFF`. -/
def isXmlChar (c : Char) : Bool :=
  (0x20 ≤ c.toNat || c = '\t' || c = '\n' || c = '\r') && c.toNat ≠ 0xFFFE && c.toNat ≠ 0xFFFF

/-- The four characters of white space, all of which pass `isXmlChar`. -/
def isSpace (c : Char) : Bool :=
  c = ' ' || c = '\t' || c = '\n' || c = '\r'

/-- Beyond ASCII: the ranges of characters with which a name may start, by `isNameStart`. -/
def nameStartRanges : List (Nat × Nat) :=
  [(0xC0, 0xD6), (0xD8, 0xF6), (0xF8, 0x2FF), (0x370, 0x37D), (0x37F, 0x1FFF), (0x200C, 0x200D),
   (0x2070, 0x218F), (0x2C00, 0x2FEF), (0x3001, 0xD7FF), (0xF900, 0xFDCF), (0xFDF0, 0xFFFD),
   (0x10000, 0xEFFFF)]

/-- Beyond ASCII: the ranges of characters that a name may hold by `isNameChar` but not start with. -/
def nameTailRanges : List (Nat × Nat) :=
  [(0xB7, 0xB7), (0x300, 0x36F), (0x203F, 0x2040)]

/-- Whether a character lies in one of some `ranges`, ends included. -/
def inRanges (ranges : List (Nat × Nat)) (c : Char) : Bool :=
  ranges.any fun r => r.1 ≤ c.toNat && c.toNat ≤ r.2

/-- Whether a name without a colon may start with a character; see `nameStartRanges`. -/
def isNameStart (c : Char) : Bool :=
  c.isAlpha || c = '_' || inRanges nameStartRanges c

/-- Whether a name without a colon may hold a character; see `nameTailRanges`. -/
def isNameChar (c : Char) : Bool :=
  isNameStart c || c.isDigit || c = '-' || c = '.' || inRanges nameTailRanges c

end Dbgp.Xml
