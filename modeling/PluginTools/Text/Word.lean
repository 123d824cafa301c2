/-
Words, the text of names and keywords: a letter or an underscore, then letters, digits, marks and
connecting punctuation, in the sense of the Unicode properties XID_Start and XID_Continue.
-/
import PluginTools.Text.WordTable

namespace PluginTools.Word

def isAsciiLetter (c : Char) : Bool := ('a' ≤ c && c ≤ 'z') || ('A' ≤ c && c ≤ 'Z')

/-- Whether a word may open with the character. -/
def isOpening (c : Char) : Bool :=
  if c.toNat < 0x80 then isAsciiLetter c || c == '_' else inRanges c.toNat openingRanges

/-- Whether a word may go on with the character. -/
def isContinuing (c : Char) : Bool :=
  if c.toNat < 0x80 then isAsciiLetter c || c == '_' || ('0' ≤ c && c ≤ '9')
  else inRanges c.toNat openingRanges || inRanges c.toNat continuingRanges

/-- The word a text starts with, and what follows it. -/
def read? : List Char → Option (List Char × List Char)
  | [] => none
  | c :: cs =>
    if isOpening c then
      let (more, rest) := cs.span isContinuing
      some (c :: more, rest)
    else none

/-- What follows the given word, if the text starts with it and not with a longer one. -/
def after? (word : String) (cs : List Char) : Option (List Char) :=
  (read? cs).bind fun (w, rest) => if w = word.toList then some rest else none

/-- Whether the text starts with the given word. -/
def opens (word : String) (cs : List Char) : Bool := (after? word cs).isSome

end PluginTools.Word
