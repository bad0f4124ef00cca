import HandlerSplit.Operator
/-!
# Tokens

What a source text is made of. A token has a kind, the text it was read from, and the place
where it starts. Semicolons are tokens of their own, written or inserted at the end of a
line, and so are comments, which the parser attaches to the tree.
-/

namespace HandlerSplit

/-- Reserved words. -/
inductive Keyword where
  | «break» | case | chan | const | «continue» | default | defer | «else» | fallthrough | «for»
  | func | go | goto | «if» | «import» | interface | map | package | range | «return» | select
  | struct | switch | type | var
  deriving DecidableEq, Repr

namespace Keyword

/-- All reserved words, in alphabetical order. -/
def all : List Keyword :=
  [«break», case, chan, const, «continue», default, defer, «else», fallthrough, «for», func, go,
    goto, «if», «import», interface, map, package, range, «return», select, struct, switch, type,
    var]

/-- How the word is written. -/
def spelling : Keyword → String
  | «break» => "break"
  | case => "case"
  | chan => "chan"
  | const => "const"
  | «continue» => "continue"
  | default => "default"
  | defer => "defer"
  | «else» => "else"
  | fallthrough => "fallthrough"
  | «for» => "for"
  | func => "func"
  | go => "go"
  | goto => "goto"
  | «if» => "if"
  | «import» => "import"
  | interface => "interface"
  | map => "map"
  | package => "package"
  | range => "range"
  | «return» => "return"
  | select => "select"
  | struct => "struct"
  | switch => "switch"
  | type => "type"
  | var => "var"

/-- The reserved word a text spells, if it is one. -/
def ofWord? (word : String) : Option Keyword :=
  all.find? (·.spelling == word)

theorem mem_all (k : Keyword) : k ∈ all := by
  cases k <;> decide

end Keyword

/-- Punctuation and the operators that are not binary. -/
inductive Punct where
  | not | arrow | tilde | inc | dec | assign | define | ellipsis
  | lparen | rparen | lbracket | rbracket | lbrace | rbrace
  | comma | period | colon
  deriving DecidableEq, Repr

/-- How the mark is written. -/
def Punct.spelling : Punct → String
  | not => "!"
  | arrow => "<-"
  | tilde => "~"
  | inc => "++"
  | dec => "--"
  | assign => "="
  | define => ":="
  | ellipsis => "..."
  | lparen => "("
  | rparen => ")"
  | lbracket => "["
  | rbracket => "]"
  | lbrace => "\x7b"
  | rbrace => "\x7d"
  | comma => ","
  | period => "."
  | colon => ":"

/-- Kinds of basic literals. -/
inductive LitKind where
  | int | float | imag | char | string
  deriving DecidableEq, Repr

/-- How a text fails to be a token. -/
inductive LexFault where
  | commentOpen
  | stringOpen
  | rawStringOpen
  | runeOpen
  | strayCharacter (c : Char)
  deriving DecidableEq, Repr

/-- The wording of the fault. -/
def LexFault.message : LexFault → String
  | commentOpen => "comment not terminated"
  | stringOpen => "string literal not terminated"
  | rawStringOpen => "raw string literal not terminated"
  | runeOpen => "rune literal not terminated"
  | strayCharacter c => "unexpected character: " ++ String.singleton c

/-- Kinds of tokens, with what they carry. -/
inductive TokenKind where
  | ident (name : String)
  /-- A literal, as written, with its quotes. -/
  | literal (kind : LitKind) (text : String)
  | keyword (word : Keyword)
  | op (o : BinaryOp)
  /-- A binary operator with `=`, such as `+=`. -/
  | opAssign (o : BinaryOp)
  | punct (mark : Punct)
  /-- A semicolon, inserted at the end of a line when `auto` holds. -/
  | semicolon (auto : Bool)
  /-- A comment with its delimiters. -/
  | comment (text : String)
  | eof
  | fault (f : LexFault)
  deriving DecidableEq, Repr

namespace TokenKind

/-- Comments are no part of the grammar. -/
def isTrivia : TokenKind → Bool
  | comment _ => true
  | _ => false

/-- Semicolons, written or inserted. -/
def isSemicolon : TokenKind → Bool
  | semicolon _ => true
  | _ => false

/-- Whether a line that ends after this token ends the statement. -/
def endsStatement : TokenKind → Bool
  | ident _ | literal _ _ => true
  | keyword .break | keyword .continue | keyword .fallthrough | keyword .return => true
  | punct .inc | punct .dec | punct .rparen | punct .rbracket | punct .rbrace => true
  | _ => false

/-- Whether the token can start a type that stands alone as the result of a function. -/
def startsType : TokenKind → Bool
  | ident _ => true
  | punct .lbracket | punct .arrow => true
  | keyword .struct | keyword .map | keyword .chan | keyword .func | keyword .interface => true
  | op .mul => true
  | _ => false

/-- What an error message calls the token. -/
def name : TokenKind → String
  | ident n => "identifier `" ++ n ++ "`"
  | literal .int _ => "integer"
  | literal .float _ => "float"
  | literal .imag _ => "imaginary"
  | literal .char _ => "rune"
  | literal .string _ => "string"
  | keyword w => "'" ++ w.spelling ++ "'"
  | op o => "'" ++ o.spelling ++ "'"
  | opAssign o => "'" ++ o.spelling ++ "='"
  | punct p => "'" ++ p.spelling ++ "'"
  | semicolon true => "newline"
  | semicolon false => "';'"
  | comment _ => "comment"
  | eof => "end of input"
  | fault _ => "error"

end TokenKind

/-- Where a token stands: byte offsets of its ends, and the line and column of its start,
both counted from 1, columns in characters. Neither is bounded: counters of 32 bits agree
with them up to line and column `2 ^ 32 - 1`. -/
structure Span where
  start : Nat
  stop : Nat
  line : Nat
  column : Nat
  deriving DecidableEq, Repr

/-- A token with the text it was read from. -/
structure Token where
  kind : TokenKind
  text : List Char
  span : Span
  deriving DecidableEq, Repr

/-- The line on which a token ends; raw strings and block comments may cover several. -/
def Token.endLine (t : Token) : Nat :=
  t.span.line + t.text.count '\n'

end HandlerSplit
