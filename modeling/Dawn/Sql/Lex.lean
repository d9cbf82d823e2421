import Dawn.Lib.Bytes
import Dawn.Lib.Trace

/-!
# The lexer

`Lex` and its tokens (`lex.h`, `lex.cpp`). A lexer is the text on the two sides of its position, so that
`next_char` moves a character to the left and `back` moves one to the right. `next_char` gives 0 at the end of
the text without moving, but `back` moves all the same.

`next_token` returns false at the end of the text, at a byte 0, and wherever it cannot read a token; it does
not say which.
-/

namespace Dawn

/-- The terminals of the grammar, under the names they have there. -/
inductive TokenType
  | PLUS | MINUS | STAR | DIVIDE | EQUAL | GREATER | LESS
  | GT_EQ | LE_EQ | NOT_EQ | OR | AND | NOT
  | SEMICOLON | CREATE | TABLE | LEFT_PARENTHESES | RIGHT_PARENTHESES | COMMA | PRIMARY_KEY
  | CHAR | INT_NUM | INT | DECIMAL | BOOLEAN | ID | DROP | INSERT | INTO | VALUES | DELETE | FROM | WHERE
  | SELECT | NATURAL | JOIN | GREATER_SIGN | LESS_SIGN | DECIMAL_NUM | STRING | TRUE | FALSE
  deriving DecidableEq, Repr

/-- The union in a `Token`. A decimal is kept as it is spelled. -/
inductive TokenVal
  | integer (n : ℤ)
  | decimal (text : List UInt8)
  | varchar (text : List UInt8)
  deriving DecidableEq, Repr

structure Token where
  type : TokenType
  val : TokenVal
  deriving DecidableEq, Repr

/-- The bytes of a literal of the source. -/
def ascii (s : String) : List UInt8 := s.toList.map fun c => c.toNat.toUInt8

/-- The number that digits denote. -/
def digitsValue (digits : List UInt8) : ℕ := digits.foldl (fun n d => 10 * n + (d.toNat - 48)) 0

/-- The conversion of the double that `atof` gives to an `integer_t`. A number below `2^31` is exact in a double;
from there on the conversion is out of range, and the instruction for it gives the least integer. -/
def integerOfDigits (digits : List UInt8) : ℤ :=
  if digitsValue digits < 2 ^ 31 then digitsValue digits else -2 ^ 31

/-- A lexer: the text up to `pos_`, last character first, and the text after it. -/
structure Lex where
  before : List UInt8
  after : List UInt8
  deriving DecidableEq, Repr

namespace Lex

/-- The constructor. The length is kept in 32 bits, and the lexer reads no further. -/
def ofText (sql : List UInt8) : Lex := ⟨[], sql.take (wrap32 sql.length).toNat⟩

/-- The position `pos_`. -/
def pos (lex : Lex) : ℤ := lex.before.length - 1

def back (lex : Lex) : Lex :=
  match lex.before with
  | [] => lex
  | c :: before => ⟨before, c :: lex.after⟩

def getChar (lex : Lex) : UInt8 := lex.before.headD 0

def peekNext (lex : Lex) : UInt8 := lex.after.headD 0

/-- The loop `c = next_char(); while (p(c)) c = next_char();`: the characters for which `p` holds, the one that
ends the loop, and the lexer then. -/
def scan (p : UInt8 → Bool) (before : List UInt8) : List UInt8 → List UInt8 × UInt8 × Lex
  | [] => ([], 0, ⟨before, []⟩)
  | c :: after =>
    if p c then
      let (word, rest) := scan p (c :: before) after
      (c :: word, rest)
    else ([], c, ⟨c :: before, after⟩)

def isDigit (c : UInt8) : Bool := 48 ≤ c ∧ c ≤ 57

def isLetter (c : UInt8) : Bool := (97 ≤ c ∧ c ≤ 122) ∨ (65 ≤ c ∧ c ≤ 90) ∨ c = 95

/-- The characters of names and keywords. -/
def isWord (c : UInt8) : Bool := isLetter c || isDigit c

/-- The characters between tokens, space and newline. -/
def isBlank (c : UInt8) : Bool := c = 32 ∨ c = 10

/-- `key_words`. -/
def keyWords : List (List UInt8 × TokenType) :=
  [(ascii "create", .CREATE), (ascii "CREATE", .CREATE),
    (ascii "table", .TABLE), (ascii "TABLE", .TABLE),
    (ascii "primary key", .PRIMARY_KEY), (ascii "PRIMARY KEY", .PRIMARY_KEY),
    (ascii "char", .CHAR), (ascii "CHAR", .CHAR),
    (ascii "int", .INT), (ascii "INT", .INT),
    (ascii "decimal", .DECIMAL), (ascii "DECIMAL", .DECIMAL),
    (ascii "boolean", .BOOLEAN), (ascii "BOOLEAN", .BOOLEAN),
    (ascii "drop", .DROP), (ascii "DROP", .DROP),
    (ascii "insert", .INSERT), (ascii "INSERT", .INSERT),
    (ascii "into", .INTO), (ascii "INTO", .INTO),
    (ascii "values", .VALUES), (ascii "VALUES", .VALUES),
    (ascii "delete", .DELETE), (ascii "DELETE", .DELETE),
    (ascii "from", .FROM), (ascii "FROM", .FROM),
    (ascii "where", .WHERE), (ascii "WHERE", .WHERE),
    (ascii "select", .SELECT), (ascii "SELECT", .SELECT),
    (ascii "true", .TRUE), (ascii "TRUE", .TRUE),
    (ascii "false", .FALSE), (ascii "FALSE", .FALSE),
    (ascii "natural", .NATURAL), (ascii "NATURAL", .NATURAL),
    (ascii "join", .JOIN), (ascii "JOIN", .JOIN),
    (ascii "or", .OR), (ascii "OR", .OR),
    (ascii "not", .NOT), (ascii "NOT", .NOT),
    (ascii "and", .AND), (ascii "AND", .AND)]

/-- `key_words_prefix`. -/
def keyWordsPrefix : List (List UInt8) := [ascii "primary", ascii "PRIMARY"]

/-- `is_key_word`. -/
def keyWord (buf : List UInt8) : Option TokenType := keyWords.lookup (cStr buf)

/-- `is_special_key_word`. -/
def isSpecialKeyWord (buf : List UInt8) (tk : Token) (lex : Lex) : Bool × Token × Lex :=
  let (_, c, lex) := scan (· = 32) lex.before lex.after
  let (word, _, lex) := scan isWord lex.before lex.after
  match keyWord (buf ++ [32, c] ++ word) with
  | some type => (true, { tk with type }, lex.back)
  | none => (false, tk, lex.back)

/-- `read_string`, with what is in the buffer so far. Either quote ends a string. -/
def readString (tk : Token) (buf before : List UInt8) : List UInt8 → Bool × Token × Lex
  | [] => (false, tk, ⟨before, []⟩)
  | c :: after =>
    if c = 0 then (false, tk, ⟨c :: before, after⟩)
    else if c = 34 ∨ c = 39 then (true, ⟨.STRING, .varchar buf⟩, ⟨c :: before, after⟩)
    else if c = 92 then
      -- A backslash stands before a character that is meant as it is.
      match after with
      | [] => (false, tk, ⟨c :: before, []⟩)
      | c' :: after => readString tk (buf ++ [c']) (c' :: c :: before) after
    else readString tk (buf ++ [c]) (c :: before) after

/-- `read_id`. -/
def readId (tk : Token) (lex : Lex) : Bool × Token × Lex :=
  let (word, c, lex') := scan isWord lex.before lex.after
  let buf := lex.getChar :: word
  if c = 32 ∧ buf ∈ keyWordsPrefix then isSpecialKeyWord buf tk lex'
  else
    match keyWord buf with
    | some type => (true, { tk with type }, lex'.back)
    | none => (true, ⟨.ID, .varchar buf⟩, lex'.back)

/-- `read_decimal`. -/
def readDecimal (buf : List UInt8) (lex : Lex) : Bool × Token × Lex :=
  let (digits, _, lex') := scan isDigit lex.before lex.after
  (true, ⟨.DECIMAL_NUM, .decimal (buf ++ digits)⟩, lex'.back)

/-- `read_number`. The token that was there before is looked at. -/
def readNumber (tk : Token) (lex : Lex) : Bool × Token × Lex :=
  let (digits, c, lex') := scan isDigit lex.before lex.after
  let buf := lex.getChar :: digits
  if c = 46 then
    if isDigit lex'.peekNext then readDecimal (buf ++ [46]) lex' else (false, tk, lex')
  else
    (true, ⟨if tk.type = .DECIMAL then .DECIMAL else .INT_NUM, .integer (integerOfDigits buf)⟩, lex'.back)

/-- The tokens `<`, `<=`, `>` and `>=`, after their first character. -/
def readSign (eqType type : TokenType) (tk : Token) (lex : Lex) : Bool × Token × Lex :=
  match lex.after with
  | [] => (true, { tk with type }, lex.back)
  | c :: after =>
    if c = 61 then (true, { tk with type := eqType }, ⟨c :: lex.before, after⟩)
    else (true, { tk with type }, lex)

/-- The tokens of one character. -/
def symbols : List (UInt8 × TokenType) :=
  [(40, .LEFT_PARENTHESES), (41, .RIGHT_PARENTHESES), (59, .SEMICOLON), (44, .COMMA), (42, .STAR), (61, .EQUAL)]

/-- The `switch` of `next_token`, at the first character that is not blank. -/
def readToken (tk : Token) (c : UInt8) (lex : Lex) : Bool × Token × Lex :=
  match symbols.lookup c with
  | some type => (true, { tk with type }, lex)
  | none =>
    if c = 60 then readSign .LE_EQ .LESS_SIGN tk lex
    else if c = 62 then readSign .GT_EQ .GREATER_SIGN tk lex
    else if c = 34 ∨ c = 39 then readString tk [] lex.before lex.after
    else if isLetter c then readId tk lex
    else if isDigit c then readNumber tk lex
    else (false, tk, lex)

/-- `next_token`, with the token that the caller passes. -/
def nextToken (tk : Token) (lex : Lex) : Bool × Token × Lex :=
  let (_, c, lex) := scan isBlank lex.before lex.after
  readToken tk c lex

end Lex

end Dawn
