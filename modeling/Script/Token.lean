/-!
# Tokens

A source text is read as a sequence of tokens.  A token is a kind together with
the piece of text it was read from; a letter run is a keyword when it is one of
the seven reserved words and an identifier otherwise.

## Main definitions

* `Kind` — the kinds of token, with their printed names `Kind.name`.
* `Kind.reserved`, `Kind.ofWord` — the reserved words and the kind of a letter run.
* `Token` — a kind and its literal, printed by `Token.describe`.
-/

namespace Script

/-- The kind of a token. -/
inductive Kind where
  /-- The end of the source. -/
  | eof
  /-- A character that belongs to no other kind. -/
  | illegal
  /-- A name. -/
  | ident
  /-- A run of decimal digits. -/
  | int
  /-- The sign `=`. -/
  | assign
  /-- The sign `+`. -/
  | plus
  /-- The sign `-`. -/
  | minus
  /-- The sign `*`. -/
  | asterisk
  /-- The sign `/`. -/
  | slash
  /-- The sign `!`. -/
  | bang
  /-- The sign `==`. -/
  | equal
  /-- The sign `!=`. -/
  | notEqual
  /-- The sign `<`. -/
  | lessThan
  /-- The sign `>`. -/
  | greaterThan
  /-- The sign `<=`. -/
  | lessThanOrEqual
  /-- The sign `>=`. -/
  | greaterThanOrEqual
  /-- The sign `,`. -/
  | comma
  /-- The sign `;`. -/
  | semicolon
  /-- The opening parenthesis. -/
  | lparen
  /-- The closing parenthesis. -/
  | rparen
  /-- The opening brace. -/
  | lbrace
  /-- The closing brace. -/
  | rbrace
  /-- The word `let`. -/
  | kwLet
  /-- The word `return`. -/
  | kwReturn
  /-- The word `fn`. -/
  | kwFunction
  /-- The word `true`. -/
  | kwTrue
  /-- The word `false`. -/
  | kwFalse
  /-- The word `if`. -/
  | kwIf
  /-- The word `else`. -/
  | kwElse
  deriving DecidableEq, Repr, Inhabited

namespace Kind

/-- The kind's name, as diagnostics print it. -/
def name : Kind → String
  | eof => "EOF"
  | illegal => "ILLEGAL"
  | ident => "IDENT"
  | int => "INT"
  | assign => "ASSIGN"
  | plus => "PLUS"
  | minus => "MINUS"
  | asterisk => "ASTERISK"
  | slash => "SLASH"
  | bang => "BANG"
  | equal => "EQUAL"
  | notEqual => "NOTEQUAL"
  | lessThan => "LESSTHAN"
  | greaterThan => "GREATERTHAN"
  | lessThanOrEqual => "LESSTHANOREQUAL"
  | greaterThanOrEqual => "GREATERTHANOREQUAL"
  | comma => "COMMA"
  | semicolon => "SEMICOLON"
  | lparen => "LPAREN"
  | rparen => "RPAREN"
  | lbrace => "LBRACE"
  | rbrace => "RBRACE"
  | kwLet => "LET"
  | kwReturn => "RETURN"
  | kwFunction => "FUNCTION"
  | kwTrue => "TRUE"
  | kwFalse => "FALSE"
  | kwIf => "IF"
  | kwElse => "ELSE"

/-- Every kind, once. -/
def all : List Kind :=
  [eof, illegal, ident, int, assign, plus, minus, asterisk, slash, bang, equal, notEqual,
    lessThan, greaterThan, lessThanOrEqual, greaterThanOrEqual, comma, semicolon, lparen,
    rparen, lbrace, rbrace, kwLet, kwReturn, kwFunction, kwTrue, kwFalse, kwIf, kwElse]

theorem mem_all (kind : Kind) : kind ∈ all := by
  cases kind <;> decide

/-- The reserved words in alphabetical order, each with its kind. -/
def reserved : List (String × Kind) :=
  [("else", kwElse), ("false", kwFalse), ("fn", kwFunction), ("if", kwIf), ("let", kwLet),
    ("return", kwReturn), ("true", kwTrue)]

/-- The kind of a word: its own when it is reserved, else that of a name. -/
def ofWord (word : String) : Kind :=
  (reserved.lookup word).getD ident

end Kind

/-- A token: its kind and the text it was read from. -/
structure Token where
  /-- What the token is. -/
  kind : Kind
  /-- The text of the token in the source. -/
  literal : String
  deriving DecidableEq, Repr, Inhabited

namespace Token

/-- The token that stands past the end of every source. -/
def eof : Token := ⟨.eof, ""⟩

@[simp] theorem kind_eof : eof.kind = .eof := rfl

@[simp] theorem literal_eof : eof.literal = "" := rfl

/-- Whether the token has the given kind. -/
def is (token : Token) (kind : Kind) : Bool := token.kind = kind

/-- The token's printed form: the name of its kind, and the literal where the
kind does not determine it. -/
def describe (token : Token) : String :=
  match token.kind with
  | .ident | .int | .illegal => token.kind.name ++ " (" ++ token.literal ++ ")"
  | kind => kind.name

end Token

end Script
