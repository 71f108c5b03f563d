import Provenance.Text.Cursor

/-! # Tokens of a script

  A token carries its text, where it stands, and whether a line ends before it.
  Literals carry their value as the reader of literals has worked it out.
-/

namespace Provenance.Script

/-! ## §1. Notes on effects -/

/-- What a comment says of the code behind it. -/
inductive EffectNote where
  /-- The call has no effects. -/
  | pureCall
  /-- The calls of the function have no effects. -/
  | pureFunction
deriving DecidableEq, Repr

/-- What the text of a comment says behind its first mark. -/
def EffectNote.of? (text : List Char) : Option EffectNote :=
  match text.dropWhile fun c => [' ', '\t', '\n', '\r', '\x0c'].contains c with
  | mark :: rest =>
    if mark != '@' && mark != '#' then none
    else if "__PURE__".toList.isPrefixOf rest then some .pureCall
    else if "__NO_SIDE_EFFECTS__".toList.isPrefixOf rest then some .pureFunction
    else none
  | [] => none

/-! ## §2. Tokens -/

/-- The kind of a token. -/
inductive TokenKind where
  | eof
  /-- An identifier or a keyword. -/
  | word
  /-- A name with a number sign in front. -/
  | privateWord
  | number
  | bigint
  | string
  /-- A part of a template literal, with the marks at its ends. -/
  | template
  | punctuator
  /-- A text between the tags of markup. -/
  | markupText
deriving DecidableEq, Repr

/-- A token. -/
structure Token where
  kind : TokenKind
  /-- The name of a word without escapes, the value of a string, the raw text of
      a template part, and otherwise the text as it stands. -/
  text : String := ""
  start : Nat := 0
  stop : Nat := 0
  /-- Whether a line ends between the token before and this one. -/
  lineBefore : Bool := false
  /-- Whether a word is written with an escape. -/
  escaped : Bool := false
  /-- Whether the value of a string has marks for halves of pairs in it. -/
  hasHalves : Bool := false
  /-- What comments in front say of the call or the function here. -/
  notes : List EffectNote := []
  /-- The value of a template part, if its escapes are valid. -/
  cooked : Option String := none
  /-- Whether a template part is the last one. -/
  isTail : Bool := false
deriving DecidableEq, Repr

/-! ## §3. Comments -/

/-- A comment that stands before the token it belongs to. -/
structure Comment where
  /-- The text of the comment with its marks. -/
  text : String
  isLine : Bool
  /-- Whether a line ends between what comes before and the comment. -/
  lineBefore : Bool
  /-- Whether a line ends right behind the comment. -/
  lineBehind : Bool
  /-- The offset of the token that the comment belongs to. -/
  owner : Nat
deriving DecidableEq, Repr

/-- What a comment says of effects. -/
def Comment.note? (comment : Comment) : Option EffectNote :=
  EffectNote.of? (comment.text.toList.drop 2)

/-- Whether what follows a comment stands on another line. -/
def Comment.endsLine (comment : Comment) : Bool := comment.isLine || comment.lineBehind

/-- Whether a comment claims to be kept on a line of its own. -/
def Comment.isLegal (comment : Comment) : Bool :=
  match comment.text.toList with
  | '/' :: _ :: '!' :: _ => true
  | _ =>
    (comment.text.splitOn "@license").length > 1 || (comment.text.splitOn "@preserve").length > 1

/-! ## §4. Words -/

/-- The words that can never be names. -/
def reservedWords : List String :=
  ["break", "case", "catch", "class", "const", "continue", "debugger", "default", "delete",
   "do", "else", "enum", "export", "extends", "false", "finally", "for", "function", "if",
   "import", "in", "instanceof", "new", "null", "return", "super", "switch", "this", "throw",
   "true", "try", "typeof", "var", "void", "while", "with"]

/-- Whether a word is reserved; `await` and `yield` are reserved in some places
    only. -/
def isReserved (word : String) : Bool := reservedWords.contains word

namespace Token

/-- Whether a token is a punctuator with this text. -/
def isMark (token : Token) (text : String) : Bool :=
  token.kind == .punctuator && token.text == text

/-- Whether a token is this word, written without escapes. -/
def isWord (token : Token) (text : String) : Bool :=
  token.kind == .word && !token.escaped && token.text == text

/-- Whether a token is a word that is not reserved, whatever its context says of
    `await` and `yield`. -/
def isPlainName (token : Token) : Bool :=
  token.kind == .word && !isReserved token.text

end Token

end Provenance.Script
