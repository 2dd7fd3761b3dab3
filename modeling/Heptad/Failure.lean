import Heptad.Value.Text

/-!
# Failures of an evaluation

An evaluation fails for a reason of its own, an `EvalError`, or because of a
fault in the values it was given. Each reason has a kind and a stable code, so
that callers need not look at its wording; the two differ only for nesting
beyond the limit, which is an invalid step with a code of its own. A reason
whose wording cannot be put together becomes a fault (`EvalError.raised`).
-/

namespace Heptad

/-- The kinds of reasons for which an evaluation fails. -/
inductive ErrorKind where
  /-- Any reason, not told further apart. -/
  | general
  /-- Fewer operands than needed. -/
  | stackUnderflow
  /-- An application of what is no primitive. -/
  | unknownPrimitive
  /-- A step that cannot be run. -/
  | invalidStep
  /-- A basis index that addresses no morphism. -/
  | basisIndex
  /-- A derivation that leaves nothing. -/
  | emptyResult
  /-- A primitive that failed on its arguments. -/
  | primitiveFailed
  /-- A call while another one is in flight. -/
  | concurrent
  deriving DecidableEq

namespace ErrorKind

/-- The code of a kind. -/
def code : ErrorKind → String
  | general => "ERR_LAMBDA7"
  | stackUnderflow => "ERR_STACK_UNDERFLOW"
  | unknownPrimitive => "ERR_UNKNOWN_PRIMITIVE"
  | invalidStep => "ERR_INVALID_STEP"
  | basisIndex => "ERR_BASIS_INDEX"
  | emptyResult => "ERR_EMPTY_RESULT"
  | primitiveFailed => "ERR_PRIMITIVE_FAILED"
  | concurrent => "ERR_CONCURRENT_EVAL"

end ErrorKind

/-- The code of nesting beyond the limit. -/
def depthCode : String := "ERR_RECURSION_LIMIT"

mutual

/-- The reasons for which an evaluation fails. -/
inductive EvalError where
  /-- An application on an empty stack. -/
  | emptyStack
  /-- An application with too few operands. -/
  | missingOperands (primitive : String) (needed found : Nat)
  /-- An application of a name that names nothing. -/
  | noPrimitive (name : String)
  /-- An application of something that is no name, with nothing to apply again. -/
  | notAPrimitive (top : Value)
  /-- A conditional with too few operands. -/
  | condOperands (found : Nat)
  /-- A step the stack language does not have. -/
  | notAStep (index : Nat) (step : Value)
  /-- A step the field language does not have. -/
  | notAMorphism (index : Nat) (step : Value)
  /-- A derivation nested beyond the limit. -/
  | tooDeep (depth : Nat) (limit : Value)
  /-- A value that is no integer, where a basis index is needed. -/
  | notAnIndex (v : Value)
  /-- An integer that is no ordinal. -/
  | outsideBasis (i : Int)
  /-- A derivation that leaves nothing. -/
  | noResult
  /-- A primitive that failed on its arguments. -/
  | primitiveFailed (primitive : String) (args : List Value) (cause : Failure)
  /-- A call while another one is in flight. -/
  | inFlight (evaluator : String)

/-- What an evaluation ends with if not with a result. -/
inductive Failure where
  /-- A reason of the evaluation itself. -/
  | evaluation (e : EvalError)
  /-- A fault in a value. -/
  | fault (f : Fault)

end

namespace EvalError

/-- The kind of a reason. -/
def kind : EvalError → ErrorKind
  | emptyStack | missingOperands .. => .stackUnderflow
  | noPrimitive _ | notAPrimitive _ => .unknownPrimitive
  | condOperands _ | notAStep .. | notAMorphism .. | tooDeep .. => .invalidStep
  | notAnIndex _ | outsideBasis _ => .basisIndex
  | noResult => .emptyResult
  | primitiveFailed .. => .primitiveFailed
  | inFlight _ => .concurrent

/-- The code of a reason. -/
def code : EvalError → String
  | tooDeep .. => depthCode
  | e => e.kind.code

end EvalError

namespace EvalError

/-- Whether a reason can be worded: the values its wording shows have a text. -/
def isShowable : EvalError → Bool
  | notAPrimitive v | notAStep _ v | notAMorphism _ v | tooDeep _ v | notAnIndex v => v.isShowable
  | outsideBasis i => hasDecimal i
  | primitiveFailed _ args _ => Value.areShowable args
  | emptyStack | missingOperands .. | noPrimitive _ | condOperands _ | noResult | inFlight _ => true

/-- What an evaluation ends with for a reason. Its wording is put together first, and
    where that fails it is what the evaluation ends with. -/
def raised (e : EvalError) : Failure :=
  if e.isShowable then .evaluation e else .fault .tooManyDigits

theorem raised_of_showable {e : EvalError} (h : e.isShowable = true) : e.raised = .evaluation e :=
  if_pos h

theorem raised_of_not_showable {e : EvalError} (h : e.isShowable = false) :
    e.raised = .fault .tooManyDigits := by
  rw [raised, h]
  rfl

/-- A reason that an evaluation ends with can be worded. -/
theorem eq_of_raised {e e' : EvalError} (h : e'.raised = .evaluation e) : e' = e := by
  rw [raised] at h
  split at h
  · exact Failure.evaluation.inj h
  · cases h

end EvalError

/-- A code and a wording together. -/
def coded (code text : String) : String := s!"{code}: {text}"

mutual

/-- The wording of a reason, without its code. -/
def EvalError.detail : EvalError → String
  | .emptyStack => "Apply (@) on an empty stack"
  | .missingOperands name needed found =>
    s!"Apply (@) for '{name}' requires {needed} arguments on the stack, but found {found}."
  | .noPrimitive name => s!"No primitive named {quoted name}"
  | .notAPrimitive v =>
    s!"Expected a primitive function identifier on the stack for Apply, but got {v.repr}"
  | .condOperands found => s!"Cond (?) requires 3 arguments on the stack, but found {found}."
  | .notAStep i v => s!"Step {i} is not a Morphism, Literal or SubDerivation: {v.repr}"
  | .notAMorphism i v =>
    s!"Invalid item in derivation at step {i}: {v.repr}. Expected a Morphism."
  | .tooDeep depth limit => s!"Sub-derivation depth exceeded: {depth} > {limit.text}"
  | .notAnIndex v => s!"Not a basis index: {v.repr}"
  | .outsideBasis i => s!"Basis index {i} outside 0..6"
  | .noResult => "Stack is empty after evaluation; no result"
  | .primitiveFailed name args cause =>
    s!"Primitive '{name}' failed on {(Value.list args).repr}: {cause.message}"
  | .inFlight name => s!"{name} already has an evaluation in flight"

/-- The wording of a failure; reasons of the evaluation begin with their code. -/
def Failure.message : Failure → String
  | .evaluation e => coded e.code e.detail
  | .fault f => f.message

end

/-- The wording of a reason with its code. -/
def EvalError.message (e : EvalError) : String := (Failure.evaluation e).message

end Heptad
