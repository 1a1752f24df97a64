import Definiens.Text.Combining
import Definiens.Text.Ignorable
import Definiens.Text.Unprintable

/-!
# Quoted text

A quoted text stands on one line between double quotes.  NUL, tab, line feed, carriage return, the
double quote and the backslash are written as a backslash and a letter or the character itself;
every other character that does not print, that may be left out in drawing, or that would merge with
the character before it is written by its code point.
-/

namespace Definiens.Text

/-- The code point of a character in braces: `\u`, then lower case hexadecimal digits, no padding. -/
def codePointEscape (c : Char) : List Char :=
  '\\' :: 'u' :: '\x7b' :: Nat.toDigits 16 c.toNat ++ ['\x7d']

def quoteChar (c : Char) : List Char :=
  if c = '\x00' then ['\\', '0']
  else if c = '\t' then ['\\', 't']
  else if c = '\n' then ['\\', 'n']
  else if c = '\x0d' then ['\\', 'r']
  else if c = '"' then ['\\', '"']
  else if c = '\\' then ['\\', '\\']
  else if isCombining c || isIgnorable c || isUnprintable c then codePointEscape c
  else [c]

def quoteChars (text : List Char) : List Char := text.flatMap quoteChar

def quoted (text : String) : String :=
  String.ofList ('"' :: quoteChars text.toList ++ ['"'])

end Definiens.Text
