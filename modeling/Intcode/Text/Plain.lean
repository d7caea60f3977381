/-!
# Plain text

A text without its control characters and control sequences. A control sequence starts with the
escape character, and a terminal obeys it instead of showing it. A message that quotes a text
quotes it plain, so that the text cannot act on the terminal.

Layout characters are shown, also those in the middle of an escape or control sequence. The plain
text right after one is shown with it, and the sequence goes on at the next control character; a
character outside ASCII ends it.
-/

namespace Intcode.Text

/-- Whether a character is one of the control characters of ASCII. -/
def isControl (c : Char) : Bool := c.toNat < 0x20 || c.toNat == 0x7F

/-- The control characters that only set the place of what follows: tab, line feed, form feed and
carriage return. -/
def isLayout (c : Char) : Bool := c == '\t' || c == '\n' || c == '\x0C' || c == '\r'

/-- Whether the number of a character lies in a range that includes both ends. -/
def isBetween (low high : Nat) (c : Char) : Bool := low ≤ c.toNat && c.toNat ≤ high

/-- How far into a control sequence a text has come. -/
inductive Sequence where
  | outside
  /-- After the escape character. -/
  | escape
  /-- In an escape sequence with intermediate characters, up to its last character. -/
  | escapeIntermediate
  /-- After escape and `[`, up to the last character. -/
  | control
  /-- After escape and `P`: the parameters of a device string come first. -/
  | deviceEntry
  | deviceParameters
  | deviceIntermediate
  /-- In the body of a device string, or in a string that means nothing to a terminal. -/
  | string
  /-- After escape and `]`, up to the bell character. -/
  | command
deriving DecidableEq, Repr

namespace Sequence

/-- Whether a character that comes here is shown. -/
def shows (c : Char) : Sequence → Bool
  | outside => !isControl c || isLayout c
  | escape | escapeIntermediate | control => isLayout c
  | _ => false

/-- Where a character that is not shown leads. The escape character starts a new sequence and two
control characters cancel one, wherever they come. A string ends at the byte `9C`, even if that
byte is a part of a longer character. -/
def next (c : Char) (s : Sequence) : Sequence :=
  if c = '\x1B' then escape
  else if c = '\x18' || c = '\x1A' then outside
  else
    match s with
    | outside => outside
    | escape =>
        if c = '[' then control
        else if c = ']' then command
        else if c = 'P' then deviceEntry
        else if c = 'X' || c = '^' || c = '_' then string
        else if isBetween 0x20 0x2F c then escapeIntermediate
        else if isBetween 0x30 0x7E c then outside
        else escape
    | escapeIntermediate => if isBetween 0x30 0x7E c then outside else escapeIntermediate
    | control => if isBetween 0x40 0x7E c then outside else control
    | deviceEntry =>
        if isBetween 0x20 0x2F c then deviceIntermediate
        else if isBetween 0x30 0x3F c then deviceParameters
        else if isBetween 0x40 0x7E c then string
        else deviceEntry
    | deviceParameters =>
        if isBetween 0x20 0x2F c then deviceIntermediate
        else if isBetween 0x3C 0x7E c then string
        else deviceParameters
    | deviceIntermediate => if isBetween 0x30 0x7E c then string else deviceIntermediate
    | string => if (String.utf8EncodeChar c).contains 0x9C then outside else string
    | command => if c = '\x07' then outside else command

/-- Where a character that is shown leads: it changes nothing, unless it is outside ASCII. -/
def afterShown (c : Char) (s : Sequence) : Sequence := if c.toNat < 0x80 then s else outside

end Sequence

/-- The characters shown of a text that starts at `s` in a sequence; `isOpen` tells whether the
character before it was shown. -/
def shown (isOpen : Bool) (s : Sequence) : List Char → List Char
  | [] => []
  | c :: cs =>
    if s.shows c || (isOpen && Sequence.outside.shows c) then c :: shown true (s.afterShown c) cs
    else shown false (s.next c) cs

/-- A text without its control characters and control sequences, but with its layout. -/
def plain (cs : List Char) : List Char := shown false .outside cs

example : plain ['a', '\x0B', 'b'] = ['a', 'b'] := by decide
example : plain ['\x1B', '[', '1', 'm', 'a', '\t'] = ['a', '\t'] := by decide
example : plain ['\x1B', '[', '\n', '1', '\x07', '2', 'm', 'a'] = ['\n', '1', 'a'] := by decide

end Intcode.Text
