/-!
# Log records and logged computations

The analysis notes what it skips or concludes as log records. A logged computation is a value of its own: the records in order
and then either a result or a failure. The records made before a failure are kept, and nothing in a result depends on them.
-/

namespace FormatAudit

/-- How important a record is. -/
inductive Level where
  | debug | info | error
  deriving DecidableEq, Repr

/-- The name of a level. -/
def Level.name : Level → String
  | .debug => "DEBUG"
  | .info => "INFO"
  | .error => "ERROR"

/-- The rank of a level among the levels. -/
def Level.rank : Level → Nat
  | .debug => 10
  | .info => 20
  | .error => 40

/-- The part of the program that a record comes from. -/
inductive LogSource where
  | program | settings | expressions | formatTable | verdict | forwarding | audit
  deriving DecidableEq, Repr

/-- The name of a part of the program, as it stands in a log. -/
def LogSource.name : LogSource → String
  | .program => "varfmt"
  | .settings => "varfmt.config"
  | .expressions => "varfmt.lowering"
  | .formatTable => "varfmt.printers"
  | .verdict => "varfmt.provenance"
  | .forwarding => "varfmt.passthrough"
  | .audit => "varfmt.checkers"

/-- One record. `traced` marks a record that is followed by a description of where a failure arose. -/
structure LogRecord where
  level : Level
  source : LogSource
  message : String
  traced : Bool := false
  deriving DecidableEq, Repr

/-- A record as one line: level, source and message. -/
def LogRecord.line (r : LogRecord) : String :=
  r.level.name ++ " " ++ r.source.name ++ ": " ++ r.message

/-- A computation that keeps a log and may fail with an `ε`. -/
structure Logged (ε α : Type) where
  log : List LogRecord
  result : Except ε α

namespace Logged

variable {ε α β : Type}

/-- A result without records. -/
def ret (a : α) : Logged ε α :=
  { log := [], result := .ok a }

/-- A failure without records. -/
def fail (e : ε) : Logged ε α :=
  { log := [], result := .error e }

/-- One record. -/
def note (r : LogRecord) : Logged ε Unit :=
  { log := [r], result := .ok () }

/-- Several records. -/
def noteAll (rs : List LogRecord) : Logged ε Unit :=
  { log := rs, result := .ok () }

/-- The same computation with its failure put in other words. -/
def mapError {ε' : Type} (f : ε → ε') (x : Logged ε α) : Logged ε' α :=
  { log := x.log, result := x.result.mapError f }

/-- Continues with the result, after the records so far. -/
def andThen (x : Logged ε α) (f : α → Logged ε β) : Logged ε β :=
  match x.result with
  | .ok a =>
    let y := f a
    { log := x.log ++ y.log, result := y.result }
  | .error e => { log := x.log, result := .error e }

instance : Monad (Logged ε) where
  pure := ret
  bind := andThen

/-- A computation without records. -/
def ofExcept (x : Except ε α) : Logged ε α :=
  { log := [], result := x }

instance : MonadLift (Except ε) (Logged ε) where
  monadLift := ofExcept

@[simp]
theorem result_pure (a : α) : (pure a : Logged ε α).result = .ok a := rfl

@[simp]
theorem log_pure (a : α) : (pure a : Logged ε α).log = [] := rfl

@[simp]
theorem result_fail (e : ε) : (fail e : Logged ε α).result = .error e := rfl

@[simp]
theorem result_note (r : LogRecord) : (note r : Logged ε Unit).result = .ok () := rfl

@[simp]
theorem result_noteAll (rs : List LogRecord) : (noteAll rs : Logged ε Unit).result = .ok () := rfl

@[simp]
theorem result_ofExcept (x : Except ε α) : (ofExcept x).result = x := rfl

/-- The result of a sequence is the sequence of the results: the log never decides. -/
@[simp]
theorem result_bind (x : Logged ε α) (f : α → Logged ε β) : (x >>= f).result = x.result >>= fun a => (f a).result := by
  show (andThen x f).result = _
  unfold andThen
  cases x.result <;> rfl

/-- A sequence keeps the records of both its parts if the first one succeeds. -/
theorem log_bind_of_ok {x : Logged ε α} {a : α} (h : x.result = .ok a) (f : α → Logged ε β) :
    (x >>= f).log = x.log ++ (f a).log := by
  show (andThen x f).log = _
  simp only [andThen, h]

/-- What follows a failure adds no records. -/
theorem log_bind_of_error {x : Logged ε α} {e : ε} (h : x.result = .error e) (f : α → Logged ε β) :
    (x >>= f).log = x.log := by
  show (andThen x f).log = _
  simp only [andThen, h]

/-- A computation is its records and its result. -/
@[ext]
theorem ext {x y : Logged ε α} (hl : x.log = y.log) (hr : x.result = y.result) : x = y := by
  cases x; cases y; simp_all

end Logged

/-- Runs a computation on every item of a list, from the first to the last. -/
def mapList {m : Type → Type} [Monad m] {α β : Type} (f : α → m β) : List α → m (List β)
  | [] => pure []
  | a :: as => do
    let b ← f a
    let bs ← mapList f as
    pure (b :: bs)

/-- How far a sequence of steps came: the state reached, the records made, and the fault that stopped it, if one did. A step
that fails leaves the state as it was. -/
structure Progress (ε σ : Type) where
  state : σ
  log : List LogRecord
  fault : Option ε

namespace Progress

variable {ε σ α : Type}

/-- Takes one step after the other over a list, until one fails. -/
def along (step : σ → α → Logged ε σ) : σ → List α → Progress ε σ
  | s, [] => { state := s, log := [], fault := none }
  | s, a :: as =>
    let r := step s a
    match r.result with
    | .error e => { state := s, log := r.log, fault := some e }
    | .ok s' =>
      let rest := along step s' as
      { rest with log := r.log ++ rest.log }

end Progress

end FormatAudit
