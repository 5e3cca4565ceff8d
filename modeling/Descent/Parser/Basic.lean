import Descent.Value.Basic

/-!
# Parsers

A parser is data: a tree of primitives and combinators over a set of rules, which it calls by name. What it does is said
where parsers are run. Choice commits as it goes: a failed alternative leaves the cursor where it stopped, and the next
one starts there; `attempt`, `suchThat` and sequences are the ones that move the cursor back.
-/
namespace Descent

/-- A parser that may call the rules of `ρ`. -/
inductive Parser (ρ : Type) : Type
  | satisfy (accept : CodePoint → Bool)
  | literal (t : Text)
  /-- The longest run of accepted code points, which may be empty. -/
  | span (accept : CodePoint → Bool)
  /-- Nothing, at the end of the source. -/
  | eof
  /-- The offset of the cursor. -/
  | offset
  /-- A value, with nothing read. A failure as value is a failure. -/
  | pure (v : Value)
  /-- A fault, with nothing read. -/
  | fault (e : Fault)
  /-- A parser, and then one that depends on its value. -/
  | bind (p : Parser ρ) (next : Value → Parser ρ)
  /-- A parser, and where it fails, another one from there on. -/
  | orElse (p q : Parser ρ)
  /-- A parser that moves the cursor back where it fails. -/
  | attempt (p : Parser ρ)
  /-- A parser whose value must be accepted; a rejected value moves the cursor back. -/
  | suchThat (p : Parser ρ) (accept : Value → Bool) (rejection : Failure)
  /-- A parser whose failure is replaced by a value. -/
  | recover (p : Parser ρ) (fallback : Value)
  /-- A parser whose failure says what was expected where it started. -/
  | expecting (p : Parser ρ) (description : Text)
  /-- The values of a parser, applied until it fails or reads nothing. -/
  | many (p : Parser ρ)
  /-- A parser whose ending is noted. -/
  | trace (p : Parser ρ) (label : Text)
  /-- A rule, one level of nesting deeper. -/
  | rule (r : ρ)

namespace Parser

variable {ρ σ : Type}

/-! ## Values -/

/-- The value of a parser, transformed. -/
def mapM (p : Parser ρ) (f : Value → Except Fault Value) : Parser ρ :=
  p.bind fun v => match f v with
    | .ok w => .pure w
    | .error e => .fault e

/-- The value of a parser, transformed by a function that has no faults. -/
def map (p : Parser ρ) (f : Value → Value) : Parser ρ := p.bind fun v => .pure (f v)

/-- A fixed value in place of the parser's. -/
def const (p : Parser ρ) (v : Value) : Parser ρ := p.map fun _ => v

/-- Both values as a pair. -/
def and (p q : Parser ρ) : Parser ρ := p.bind fun a => q.map fun b => .tuple [a, b]

/-- The first of two values. -/
def left (p q : Parser ρ) : Parser ρ := p.bind fun a => q.const a

/-- The second of two values. -/
def right (p q : Parser ρ) : Parser ρ := p.bind fun _ => q

/-! ## Code points -/

def one : Parser ρ := .satisfy fun _ => true

def char (c : CodePoint) : Parser ρ := .satisfy fun d => d == c

def digit : Parser ρ := .satisfy CodePoint.isDigit

def upper : Parser ρ := .satisfy CodePoint.isUpper

def lower : Parser ρ := .satisfy CodePoint.isLower

def alpha : Parser ρ := .orElse upper lower

def hexDigit : Parser ρ := .satisfy CodePoint.isHexDigit

def space : Parser ρ := char 0x20

def tab : Parser ρ := char 0x09

def carriageReturn : Parser ρ := char 0x0D

def lineFeed : Parser ρ := char 0x0A

/-! ## Failure and choice -/

/-- Always fails. -/
def empty : Parser ρ := .pure (.failure .plain)

/-- A fixed value where the parser fails. -/
def otherwise (p : Parser ρ) (v : Value) : Parser ρ := .orElse p (.pure v)

/-- The parser if the condition holds, and one that fails if not. -/
def when (p : Parser ρ) (condition : Bool) : Parser ρ := if condition then p else empty

/-- A value that says "nothing matched" where the parser fails. -/
def optional (p : Parser ρ) (fallback : Value) : Parser ρ := .recover p fallback

/-- A fixed failure in place of the parser's. -/
def error (p : Parser ρ) (f : Failure) : Parser ρ := .recover p (.failure f)

/-- The first of several parsers that succeeds. Without parsers it fails. -/
def choice : List (Parser ρ) → Parser ρ
  | [] => empty
  | p :: ps => ps.foldl .orElse p

def anyChar (cs : Text) : Parser ρ := choice (cs.map char)

/-- The first of the given texts that is there. -/
def anyLiteral (ts : List Text) : Parser ρ := choice (ts.map .literal)

/-! ## Repetition -/

/-- The values of a parser that succeeds at least once. -/
def many1 (p : Parser ρ) : Parser ρ :=
  p.many.bind fun
    | .list [] => empty
    | values => .pure values

/-- The value put in front of a list. -/
def consValue (v : Value) : Value → Value
  | .list items => .list (v :: items)
  | other => other

/-- The values of parsers applied in a row, without moving the cursor back. -/
def chain : List (Parser ρ) → Parser ρ
  | [] => .pure (.list [])
  | p :: ps => p.bind fun v => (chain ps).map (consValue v)

/-- The values of parsers applied in a row; a failure of one moves the cursor back to the start. -/
def sequence (ps : List (Parser ρ)) : Parser ρ := .attempt (chain ps)

def times (p : Parser ρ) (n : Nat) : Parser ρ := sequence (List.replicate n p)

/-- The value with the offsets at which it starts and ends. -/
def withRange (p : Parser ρ) : Parser ρ :=
  offset.bind fun start => p.bind fun v => offset.bind fun stop => .pure (.tuple [v, .tuple [start, stop]])

/-! ## Rules -/

def rename (f : ρ → σ) : Parser ρ → Parser σ
  | satisfy accept => satisfy accept
  | literal t => literal t
  | span accept => span accept
  | eof => eof
  | offset => offset
  | pure v => pure v
  | fault e => fault e
  | bind p next => bind (p.rename f) fun v => (next v).rename f
  | orElse p q => orElse (p.rename f) (q.rename f)
  | attempt p => attempt (p.rename f)
  | suchThat p accept rejection => suchThat (p.rename f) accept rejection
  | recover p fallback => recover (p.rename f) fallback
  | expecting p description => expecting (p.rename f) description
  | many p => many (p.rename f)
  | trace p label => trace (p.rename f) label
  | rule r => rule (f r)

end Parser
end Descent
