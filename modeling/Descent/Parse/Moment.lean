import Descent.Parse.Step

/-!
# Parsing moment by moment

A run of a parser as a machine that does one thing at a time. A combinator that has started one of its parts waits on a
stack until that part comes back. The machine says what `Parser.step` and `Grammar.call` leave out because they are
functions:

* No number bounds it. A loop goes on as long as its condition holds, and a rule is entered wherever the guard lets it
  in. That every run ends is something to prove.
* A code point is taken out of the source as one of an array, and a span is built with its numbers checked. Either may
  break down. That neither does is something to prove as well.
* Between the start of a run and its end there are moments, at which rules are nested and loops are on their way. A run
  can be cut off at any of them.
-/
namespace Descent

variable {ρ : Type}

/-! ## Moments -/

/-- What a combinator does with the reply that it waits for. -/
inductive Task (ρ : Type) : Type
  | bind (next : Value → Parser ρ)
  | orElse (q : Parser ρ)
  /-- The second of two alternatives is under way. -/
  | lastAlternative
  | attempt
  | suchThat (accept : Value → Bool) (rejection : Failure)
  | recover (fallback : Value)
  | expecting (description : Text)
  /-- The loop has started `p` so many times, the last time at offset `turn`; the values so far come latest first. -/
  | many (p : Parser ρ) (calls turn : Nat) (values : List Value)
  | trace (label : Text)
  /-- The guard is to be left. -/
  | rule

/-- A combinator that waits for one of its parts, with the offset at which the combinator was started. -/
structure Waiting (ρ : Type) : Type where
  start : Nat
  task : Task ρ

/-- Why a run cannot go on. -/
inductive Breakdown
  /-- A code point was to be taken from an offset that holds none. -/
  | noCodePoint (offset : Nat)
  | noSpan (defect : Span.Defect)

/-- What the machine is about to do. -/
inductive Moment (ρ : Type) : Type
  /-- To start a parser. -/
  | run (p : Parser ρ) (c : Cursor ρ) (stack : List (Waiting ρ))
  /-- To look for the end of a run of accepted code points, which so far goes up to `stop`. -/
  | scan (accept : CodePoint → Bool) (stop : Nat) (c : Cursor ρ) (stack : List (Waiting ρ))
  /-- To hand a reply to the combinator that waits for it. -/
  | back (reply : Reply ρ) (stack : List (Waiting ρ))
  | broken (b : Breakdown)

namespace Moment

/-- The combinators that wait. -/
def stack : Moment ρ → List (Waiting ρ)
  | .run _ _ stack => stack
  | .scan _ _ _ stack => stack
  | .back _ stack => stack
  | .broken _ => []

/-- The cursor, unless the run broke down. -/
def cursor? : Moment ρ → Option (Cursor ρ)
  | .run _ c _ => some c
  | .scan _ _ c _ => some c
  | .back reply _ => some reply.2
  | .broken _ => none

end Moment

/-! ## Steps -/

/-- The moment behind a span that has to be built: what it is for, or a breakdown. -/
def Moment.ofSpan (span : Except Span.Defect Span) (next : Span → Moment ρ) : Moment ρ :=
  match span with
  | .ok span => next span
  | .error defect => .broken (.noSpan defect)

/-- What a waiting combinator does with a reply. Whatever is not listed is passed on. -/
def Waiting.resume (s : Source) (w : Waiting ρ) (reply : Reply ρ) (stack : List (Waiting ρ)) : Moment ρ :=
  match w.task, reply with
  | .bind next, (.success v, c) => .run (next v) c stack
  | .orElse q, (.failure _, c) => .run q c (⟨w.start, .lastAlternative⟩ :: stack)
  | .lastAlternative, (.failure _, c) => .back (.failure .plain, c) stack
  | .attempt, (.failure f, c) => .back (.failure f, c.moveTo w.start) stack
  | .suchThat accept rejection, (.success v, c) =>
    .back (if accept v then (.success v, c) else (.failure rejection, c.moveTo w.start)) stack
  | .recover fallback, (.failure _, c) => .back (fallback.outcome, c) stack
  | .expecting description, (.failure _, c) =>
    .ofSpan (Span.locate s w.start w.start) fun span =>
      .back (.failure ⟨.general, some (.expectedAt description (some span))⟩, c) stack
  | .many p calls turn values, (.success v, c) =>
    if c.index = turn then .back (.success (.list (v :: values).reverse), c) stack
    else .run p c (⟨w.start, .many p (calls + 1) c.index (v :: values)⟩ :: stack)
  | .many _ _ _ values, (.failure _, c) => .back (.success (.list values.reverse), c) stack
  | .trace label, (.success v, c) => .back (.success v, c.note (.traced (.won label w.start c.index))) stack
  | .trace label, (.failure f, c) => .back (.failure f, c.note (.traced (.lost label w.start))) stack
  | .rule, (o, c) => .back (o, { c with guard := c.guard.leave }) stack
  | _, reply => .back reply stack

/-- How a parser starts. -/
def Grammar.begin (g : Grammar ρ) (s : Source) : Parser ρ → Cursor ρ → List (Waiting ρ) → Moment ρ
  | .satisfy accept, c, stack =>
    if c.index < s.size then
      match s.get? c.index with
      | some x => .back (if accept x then (.success (.str [x]), c.moveTo (c.index + 1)) else (.failure .plain, c)) stack
      | none => .broken (.noCodePoint c.index)
    else .back (.failure .plain, c) stack
  | .literal t, c, stack =>
    .back (if s.holds c.index t then (.success (.str t), c.moveTo (c.index + t.length)) else (.failure .plain, c)) stack
  | .span accept, c, stack => .scan accept c.index c stack
  | .eof, c, stack => .back (if c.index < s.size then .failure .plain else .success .none, c) stack
  | .offset, c, stack => .back (.success (.int c.index), c) stack
  | .pure v, c, stack => .back (v.outcome, c) stack
  | .fault e, c, stack => .back (.fault e, c) stack
  | .bind p next, c, stack => .run p c (⟨c.index, .bind next⟩ :: stack)
  | .orElse p q, c, stack => .run p c (⟨c.index, .orElse q⟩ :: stack)
  | .attempt p, c, stack => .run p c (⟨c.index, .attempt⟩ :: stack)
  | .suchThat p accept rejection, c, stack => .run p c (⟨c.index, .suchThat accept rejection⟩ :: stack)
  | .recover p fallback, c, stack => .run p c (⟨c.index, .recover fallback⟩ :: stack)
  | .expecting p description, c, stack => .run p c (⟨c.index, .expecting description⟩ :: stack)
  | .many p, c, stack => .run p c (⟨c.index, .many p 1 c.index []⟩ :: stack)
  | .trace p label, c, stack => .run p c (⟨c.index, .trace label⟩ :: stack)
  | .rule r, c, stack =>
    match c.guard.enter with
    | none => .back (.refused, c.note (.refused r c.index)) stack
    | some guard =>
      let inside := { c with guard }.note (.entered r)
      match g r with
      | .ok p => .run p inside (⟨c.index, .rule⟩ :: stack)
      | .error e => .back (.fault e, inside) (⟨c.index, .rule⟩ :: stack)

/-- One more code point of a run, or the end of the run. -/
def Source.scan (s : Source) (accept : CodePoint → Bool) (stop : Nat) (c : Cursor ρ) (stack : List (Waiting ρ)) :
    Moment ρ :=
  if stop < s.size then
    match s.get? stop with
    | some x =>
      if accept x then .scan accept (stop + 1) c stack
      else .back (.success (.str (s.slice c.index stop)), c.moveTo stop) stack
    | none => .broken (.noCodePoint stop)
  else .back (.success (.str (s.slice c.index stop)), c.moveTo stop) stack

/-- The next moment. There is none behind a reply that nobody waits for, and none behind a breakdown. -/
def Grammar.next (g : Grammar ρ) (s : Source) : Moment ρ → Option (Moment ρ)
  | .run p c stack => some (g.begin s p c stack)
  | .scan accept stop c stack => some (s.scan accept stop c stack)
  | .back reply (w :: stack) => some (w.resume s reply stack)
  | .back _ [] => none
  | .broken _ => none

/-- The cursor of the moment that comes so many steps behind another, unless the run is over by then. -/
def Grammar.cutOff (g : Grammar ρ) (s : Source) : Nat → Moment ρ → Option (Cursor ρ)
  | 0, m => (g.next s m).bind fun _ => m.cursor?
  | steps + 1, m => (g.next s m).bind (g.cutOff s steps)

end Descent
