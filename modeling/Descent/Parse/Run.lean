import Descent.Parse.Moment

/-!
# Whole parses

A whole parse decodes its input, checks its size, starts at offset zero with an unused guard, and turns the refusal of a
rule into a failure located where the rule was refused. The interpreter may run out of frames before the guard refuses
anything; that ends the parse with the same kind of failure, located where the parse was cut off.
-/
namespace Descent

/-- What a parse is given: text, or bytes that encode it. -/
inductive Input
  | source (s : Source)
  | bytes (bs : List Nat)

def Input.decode : Input → Except Fault Source
  | .source s => .ok s
  | .bytes bs => match Utf8.decode bs with
    | .ok t => .ok (.ofText t)
    | .error e => .error (.encoding e)

/-- The interpreter that a parse runs in. Every open call takes a frame. -/
structure Interpreter where
  /-- The most calls that may be open at once. -/
  callLimit : Int := Guard.defaultCallLimit
  /-- For how many steps of a parse the frames last, if not for all of them. How many frames a step takes, and how many
  are taken when the parse starts, is up to the interpreter and its caller, so it may be any number. -/
  steps : Option Nat := none

/-- The limits of a parse; a size of zero or less is no limit. -/
structure Limits where
  size : Int := 10485760
  depth : Int := Guard.defaultLimit
  interpreter : Interpreter := {}

/-- The source of an input, unless it is larger than allowed. -/
def Limits.source (limits : Limits) (input : Input) : Except Fault Source :=
  match input.decode with
  | .error e => .error e
  | .ok s =>
    if 0 < limits.size ∧ limits.size < s.size then .error (.sourceTooLarge s.size limits.size.toNat) else .ok s

/-- What is noted when a limit on nesting is requested. -/
def Guard.clampRecords (requested reserved : Int) (callLimit : Int := defaultCallLimit) : List Record :=
  let granted := clamp requested reserved callLimit
  if granted < requested then [.clamped requested callLimit granted] else []

namespace Limits

/-- The nesting that is granted. -/
def granted (limits : Limits) : Int := Guard.clamp limits.depth Guard.reserve limits.interpreter.callLimit

/-- The guard of a parse that has not entered a rule, or has left all of them. -/
def guard (limits : Limits) : Guard := .ofRequest limits.depth limits.interpreter.callLimit

/-- Where every parse starts. -/
def start {ρ : Type} (limits : Limits) : Cursor ρ := ⟨0, limits.guard, []⟩

/-- What is noted before a parse starts. -/
def records (limits : Limits) : List Record :=
  Guard.clampRecords limits.depth Guard.reserve limits.interpreter.callLimit

end Limits

/-- What a whole parse ends with. -/
inductive Ending
  | success (v : Value)
  | failure (f : Failure)
  | fault (e : Fault)
deriving DecidableEq

/-- The ending of a reply. A refusal becomes a failure located at the cursor. -/
def Reply.ending {ρ : Type} (s : Source) : Reply ρ → Ending
  | (.success v, _) => .success v
  | (.failure f, _) => .failure f
  | (.fault e, _) => .fault e
  | (.refused, c) => .failure (.tooDeepAt s c.guard.limit c.index)

/-- What is noted at the end of a parse. -/
def Reply.records {ρ : Type} (s : Source) (reply : Reply ρ) : List Record :=
  let refusal := match reply.1 with
    | .refused => [Record.tooDeep reply.2.guard.limit reply.2.index]
    | _ => []
  refusal ++ match reply.ending s with
    | .success _ => [.succeeded reply.2.index s.size]
    | .failure f => [.failed reply.2.index f.message]
    | .fault _ => []

/-- The rules that were entered, in order. -/
def Cursor.rules {ρ : Type} (c : Cursor ρ) : List ρ :=
  c.events.reverse.filterMap fun
    | .entered r => some r
    | _ => none

/-- The records of traced parsers, in order. -/
def Cursor.traces {ρ : Type} (c : Cursor ρ) : List Record :=
  c.events.reverse.filterMap fun
    | .traced record => some record
    | _ => none

/-- A whole parse that has ended. -/
structure Run (ρ : Type) where
  source : Source
  ending : Ending
  final : Cursor ρ
  records : List Record

/-- The run of a parse that came back with a reply. -/
def Reply.run {ρ : Type} (limits : Limits) (s : Source) (reply : Reply ρ) : Run ρ where
  source := s
  ending := reply.ending s
  final := reply.2
  records := limits.records ++ reply.2.traces ++ reply.records s

/-- The run of a parse that was cut off. By then the rules that were under way have left the guard, and the limit that
is reported is the one on nesting. -/
def Cursor.cutOffRun {ρ : Type} (limits : Limits) (s : Source) (c : Cursor ρ) : Run ρ :=
  let failure := Failure.tooDeepAt s limits.granted c.index
  { source := s
    ending := .failure failure
    final := { c with guard := limits.guard }
    records := limits.records ++ c.traces ++
      [.outOfFrames limits.interpreter.callLimit c.index limits.granted, .failed c.index failure.message] }

/-- The moment at which a whole parse starts. -/
def Parser.firstMoment {ρ : Type} (p : Parser ρ) (limits : Limits) : Moment ρ := .run p limits.start []

/-- The cursor at which the interpreter runs out of frames, if it does before the parse is over. -/
def Grammar.cutOff? {ρ : Type} (g : Grammar ρ) (p : Parser ρ) (limits : Limits) (s : Source) : Option (Cursor ρ) :=
  limits.interpreter.steps.bind fun steps => g.cutOff s steps (p.firstMoment limits)

/-- The interpreter has the frames for a whole parse. -/
def Grammar.HasFrames {ρ : Type} (g : Grammar ρ) (p : Parser ρ) (limits : Limits) (s : Source) : Prop :=
  (g.cutOff? p limits s).isNone

instance {ρ : Type} (g : Grammar ρ) (p : Parser ρ) (limits : Limits) (s : Source) : Decidable (g.HasFrames p limits s) :=
  inferInstanceAs (Decidable (_ = true))

def Grammar.run {ρ : Type} (g : Grammar ρ) (p : Parser ρ) (limits : Limits) (s : Source) : Run ρ :=
  match g.cutOff? p limits s with
  | none => (g.parse s p limits.start).run limits s
  | some c => c.cutOffRun limits s

/-- Parses an input, if it can be decoded and is not too large. -/
def Grammar.parseInput {ρ : Type} (g : Grammar ρ) (p : Parser ρ) (limits : Limits) (input : Input) :
    Except Fault (Run ρ) :=
  (limits.source input).map (g.run p limits)

/-! ## Failures as errors -/

/-- A failed parse, for callers that treat it as an error. -/
structure ParseError where
  diagnostic : Diagnostic
  failure : Failure
  /-- The offset at which the parse stopped. -/
  index : Nat
deriving DecidableEq, Repr

/-- The error of a failure, with its diagnostic or the general one located where the parse stopped. -/
def Failure.toError (f : Failure) (s : Source) (stopped : Nat) : ParseError where
  diagnostic := f.diagnostic.getD (.parseFailed (some (.point s stopped)))
  failure := f
  index := stopped

/-- How a parse falls short of a value. -/
inductive Shortfall
  | fault (e : Fault)
  | error (e : ParseError)
deriving DecidableEq

/-- The value of a parse, or what came instead. -/
def Run.value {ρ : Type} (r : Run ρ) : Except Shortfall Value :=
  match r.ending with
  | .success v => .ok v
  | .failure f => .error (.error (f.toError r.source r.final.index))
  | .fault e => .error (.fault e)

/-- What comes of reading a document. -/
structure Reading where
  value : Except Shortfall Value
  records : List Record

/-- Reads a document. A rejected one is noted once more, with the offset where the parse stopped. -/
def Grammar.read {ρ : Type} (g : Grammar ρ) (p : Parser ρ) (rejected : Nat → Record) (limits : Limits)
    (input : Input) : Reading :=
  match g.parseInput p limits input with
  | .error e => ⟨.error (.fault e), []⟩
  | .ok run =>
    let rejection := match run.ending with
      | .failure _ => [rejected run.final.index]
      | _ => []
    ⟨run.value, run.records ++ rejection⟩

end Descent
