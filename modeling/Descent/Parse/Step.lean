import Descent.Parse.Guard
import Descent.Parse.Record
import Descent.Parser.Basic

/-!
# Running parsers

A parser takes a cursor to a reply: an outcome and the cursor behind it. Besides success and failure, which the
combinators look at, there are two outcomes that pass through every combinator and leave the cursor where it is: a
fault, and the refusal of a rule that would nest too deeply. A refusal is therefore never mistaken for a failure.

The parser decides the recursion inside one rule body, and the room left in the guard the recursion through rules, so
running is total for every grammar.
-/
namespace Descent

/-- Something a parse leaves behind besides its outcome. Every call of a rule is noted, whether it is entered or
refused. -/
inductive Event (ρ : Type)
  | entered (r : ρ)
  /-- A rule was refused at the given offset. -/
  | refused (r : ρ) (offset : Nat)
  | traced (record : Record)
deriving DecidableEq

/-- Where a parse stands. -/
structure Cursor (ρ : Type) where
  index : Nat
  guard : Guard
  /-- What happened so far, the latest first. -/
  events : List (Event ρ) := []
deriving DecidableEq

/-- What a parser comes to. -/
inductive Outcome
  | success (v : Value)
  | failure (f : Failure)
  | fault (e : Fault)
  /-- A rule was not entered, because it would have nested too deeply. -/
  | refused
deriving DecidableEq

/-- An outcome and the cursor behind it. -/
abbrev Reply (ρ : Type) := Outcome × Cursor ρ

/-- The parser that each rule stands for; putting it together may be a fault. -/
abbrev Grammar (ρ : Type) := ρ → Except Fault (Parser ρ)

/-- The outcome that a value stands for. -/
def Value.outcome : Value → Outcome
  | .failure f => .failure f
  | v => .success v

namespace Cursor

variable {ρ : Type}

def moveTo (c : Cursor ρ) (index : Nat) : Cursor ρ := { c with index }

def note (c : Cursor ρ) (e : Event ρ) : Cursor ρ := { c with events := e :: c.events }

end Cursor

namespace Parser

variable {ρ : Type}

/-- Applies a parser until it fails or reads nothing, at most as often as the first number says. The values so far come
latest first. -/
def repeatWhile (step : Cursor ρ → Reply ρ) : Nat → List Value → Cursor ρ → Reply ρ
  | 0, values, c => (.success (.list values.reverse), c)
  | most + 1, values, c =>
    match step c with
    | (.success v, c') =>
      if c'.index = c.index then (.success (.list (v :: values).reverse), c')
      else repeatWhile step most (v :: values) c'
    | (.failure _, c') => (.success (.list values.reverse), c')
    | reply => reply

/-- Runs a parser, with a way to run rules. -/
def step (s : Source) (enter : ρ → Cursor ρ → Reply ρ) : Parser ρ → Cursor ρ → Reply ρ
  | satisfy accept, c =>
    match s.get? c.index with
    | some x => if accept x then (.success (.str [x]), c.moveTo (c.index + 1)) else (.failure .plain, c)
    | none => (.failure .plain, c)
  | literal t, c =>
    if s.holds c.index t then (.success (.str t), c.moveTo (c.index + t.length)) else (.failure .plain, c)
  | span accept, c =>
    let stop := s.spanEnd accept c.index
    (.success (.str (s.slice c.index stop)), c.moveTo stop)
  | eof, c => (if c.index < s.size then .failure .plain else .success .none, c)
  | offset, c => (.success (.int c.index), c)
  | pure v, c => (v.outcome, c)
  | fault e, c => (.fault e, c)
  | bind p next, c =>
    match step s enter p c with
    | (.success v, c') => step s enter (next v) c'
    | reply => reply
  | orElse p q, c =>
    match step s enter p c with
    | (.failure _, c') =>
      match step s enter q c' with
      | (.failure _, c'') => (.failure .plain, c'')
      | reply => reply
    | reply => reply
  | attempt p, c =>
    match step s enter p c with
    | (.failure f, c') => (.failure f, c'.moveTo c.index)
    | reply => reply
  | suchThat p accept rejection, c =>
    match step s enter p c with
    | (.success v, c') =>
      if accept v then (.success v, c') else (.failure rejection, c'.moveTo c.index)
    | reply => reply
  | recover p fallback, c =>
    match step s enter p c with
    | (.failure _, c') => (fallback.outcome, c')
    | reply => reply
  | expecting p description, c =>
    match step s enter p c with
    | (.failure _, c') => (.failure (.expectedAt s description c.index), c')
    | reply => reply
  | many p, c => repeatWhile (step s enter p) (s.size - c.index + 1) [] c
  | trace p label, c =>
    match step s enter p c with
    | (.success v, c') => (.success v, c'.note (.traced (.won label c.index c'.index)))
    | (.failure f, c') => (.failure f, c'.note (.traced (.lost label c.index)))
    | reply => reply
  | rule r, c => enter r c

end Parser

/-- Runs a rule: enters the guard, runs the parser that the rule stands for, and leaves the guard again. The first
number bounds the nesting; no more of it is needed than the guard has room for. -/
def Grammar.call {ρ : Type} (g : Grammar ρ) (s : Source) : Nat → ρ → Cursor ρ → Reply ρ
  | 0, r, c => (.refused, c.note (.refused r c.index))
  | levels + 1, r, c =>
    match c.guard.enter with
    | none => (.refused, c.note (.refused r c.index))
    | some guard =>
      let c' := { c with guard }.note (.entered r)
      let reply := match g r with
        | .ok p => p.step s (g.call s levels) c'
        | .error e => (.fault e, c')
      (reply.1, { reply.2 with guard := reply.2.guard.leave })

def Grammar.parse {ρ : Type} (g : Grammar ρ) (s : Source) (p : Parser ρ) (c : Cursor ρ) : Reply ρ :=
  p.step s (g.call s c.guard.room) c

end Descent
