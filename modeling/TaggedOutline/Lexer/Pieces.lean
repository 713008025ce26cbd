import TaggedOutline.Header.Quoted
import TaggedOutline.Lexer
import TaggedOutline.Pattern.Ends

/-!
# Rules that lexers share

Header lines and locator paths agree on spaces, quoted strings and the way punctuation is read.
-/

namespace TaggedOutline

namespace LexRule

/-- Spaces and tabs. -/
def spacePattern : Pattern := .plus true (.one (.ofList [' ', '\t']))

/-- A quoted string: anything but a quote or a backslash, or a backslash with the character after
it, up to the closing quote. -/
def quotedPattern : Pattern :=
  .inOrder [
    .char '"',
    .star true (.alt
      (.one (.compl (.ofList ['"', '\\'])))
      (.seq (.char '\\') (.one (.compl (.single '\n'))))),
    .char '"']

/-- The rule of spaces, which no grammar sees. -/
def spaces : LexRule := { name := "ws", pattern := spacePattern.atHead, silent := true }

/-- The rule of quoted strings, whose text is what the quoted form stands for. -/
def quoted : LexRule where
  name := "string"
  pattern := quotedPattern.atHead
  transform t := Header.unescape (Header.dropEnds t)

/-- The rule of a punctuation mark. -/
def mark (name : String) (sign : Text) : LexRule :=
  { name, pattern := (Pattern.inOrder (sign.map .char)).atHead, structural := true }

end LexRule

end TaggedOutline
