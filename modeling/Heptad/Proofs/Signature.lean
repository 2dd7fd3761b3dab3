import Mathlib.Order.Bounds.Defs
import Heptad.Primitive

/-!
# What a function needs

The parameters of a function are in an order: those with a position come first, the
required ones among them before the others. So the operands of a function, which are
counted up to the first parameter that is not required, are all of its required
positions, and there is no call by position with fewer arguments.

* `Signature`: parameters in an order that is allowed;
* `declaredArity_eq_countP`: all required positions are counted;
* `fill?`: a call by position alone, which gives each parameter in turn its part of the
  arguments that are left (`Parameter.take?`);
* `countP_le_of_fill?`, `fill?_of_length`: it needs an argument for each required position,
  and can do with these;
* `Asks`: what a computation wants to know of a function it is given;
* `declaredArity_isLeast`: the operands a registered function takes are the fewest it can
  be called with, and it is asked for its result on exactly so many.
-/

namespace Heptad

variable {α β γ : Type}

/-! ## Signatures -/

/-- The place of a kind of parameters among the others. -/
def ParameterKind.place : ParameterKind → Nat
  | positionalOnly => 0
  | positional => 1
  | allPositions => 2
  | named => 3
  | allNames => 4

/-- Whether a kind of parameters takes all that is left. -/
def ParameterKind.collects (k : ParameterKind) : Bool := k = .allPositions || k = .allNames

namespace Parameter

/-- Whether a parameter has a position of its own. -/
def isPositional (p : Parameter) : Bool := p.kind = .positionalOnly || p.kind = .positional

/-- One parameter can stand before another. -/
structure Precedes (p q : Parameter) : Prop where
  /-- The kinds are in order. -/
  place_le : p.kind.place ≤ q.kind.place
  /-- What is left is taken by one parameter. -/
  kind_ne : p.kind.collects = true → p.kind ≠ q.kind
  /-- No position is required behind one with a default. -/
  isRequired_eq_false : p.isPositional = true → p.hasDefault = true → q.isRequired = false

instance : DecidableRel Precedes := fun _ _ =>
  decidable_of_iff (_ ∧ _ ∧ _) ⟨fun ⟨h₁, h₂, h₃⟩ => ⟨h₁, h₂, h₃⟩, fun ⟨h₁, h₂, h₃⟩ => ⟨h₁, h₂, h₃⟩⟩

variable {p q : Parameter}

theorem isPositional_iff : p.isPositional = true ↔ p.kind.place ≤ 1 := by
  rw [isPositional]
  cases p.kind <;> decide

/-- Before a required position there are only required positions. -/
theorem Precedes.isRequired (h : p.Precedes q) (hq : q.isRequired = true) :
    p.isRequired = true := by
  have hposition : q.isPositional = true := (Bool.and_eq_true_iff.1 hq).1
  have hp : p.isPositional = true :=
    isPositional_iff.2 (Nat.le_trans h.place_le (isPositional_iff.1 hposition))
  cases hdefault : p.hasDefault with
  | true =>
    rw [h.isRequired_eq_false hp hdefault] at hq
    cases hq
  | false =>
    show (p.isPositional && !p.hasDefault) = true
    rw [hp, hdefault]
    rfl

end Parameter

/-- The parameters of a function, in an order that is allowed. -/
structure Signature where
  parameters : List Parameter
  ordered : parameters.Pairwise Parameter.Precedes

variable {p : Parameter} {ps : List Parameter}

/-- Behind a parameter that is not required no position is. -/
theorem countP_isRequired_eq_zero (h : (p :: ps).Pairwise Parameter.Precedes)
    (hp : p.isRequired = false) : (p :: ps).countP Parameter.isRequired = 0 := by
  refine List.countP_eq_zero.2 (List.forall_mem_cons.2 ⟨Bool.eq_false_iff.1 hp, ?_⟩)
  intro q hq hrequired
  have hprecedes := (List.pairwise_cons.1 h).1 q hq
  rw [hprecedes.isRequired hrequired] at hp
  cases hp

/-- Counting required parameters up to the first one that is not misses none. -/
theorem declaredArity_eq_countP (h : ps.Pairwise Parameter.Precedes) :
    declaredArity ps = ps.countP Parameter.isRequired := by
  induction ps with
  | nil => rfl
  | cons p ps ih =>
    cases hp : p.isRequired with
    | true =>
      rw [declaredArity, List.takeWhile_cons_of_pos hp, List.length_cons, ← declaredArity,
        ih h.of_cons, List.countP_cons_of_pos hp]
    | false =>
      rw [countP_isRequired_eq_zero h hp, declaredArity,
        List.takeWhile_cons_of_neg (Bool.eq_false_iff.1 hp)]
      rfl

/-! ## Calls by position -/

/-- What a parameter is given by a call. -/
inductive Filling (α : Type) where
  /-- An argument. -/
  | argument (a : α)
  /-- Nothing, so that its default is taken. -/
  | default
  /-- All arguments that are left. -/
  | rest (args : List α)

namespace Parameter

/-- What a parameter is given of the arguments that are left, all of them without names,
    and what it leaves. -/
def take? (p : Parameter) (args : List α) : Option (Filling α × List α) :=
  match p.kind, args with
  | .positionalOnly, a :: args | .positional, a :: args => some (.argument a, args)
  | .allPositions, args => some (.rest args, [])
  | .allNames, args => some (.rest [], args)
  | .positionalOnly, [] | .positional, [] | .named, args =>
    if p.hasDefault then some (.default, args) else none

/-- What a parameter is given if no argument is left. -/
def unfilled (p : Parameter) : Filling α := if p.kind.collects then .rest [] else .default

/-- A required position takes an argument. -/
theorem take?_of_isRequired (hp : p.isRequired = true) (a : α) (args : List α) :
    p.take? (a :: args) = some (.argument a, args) := by
  obtain ⟨kind, hasDefault⟩ := p
  cases kind with
  | positionalOnly | positional => rfl
  | allPositions | named | allNames => cases hp

/-- All others can do without. -/
theorem take?_nil (hp : p.isRequired = false) (hname : p.kind = .named → p.hasDefault = true) :
    p.take? ([] : List α) = some (p.unfilled, []) := by
  obtain ⟨kind, hasDefault⟩ := p
  cases kind with
  | allPositions | allNames => rfl
  | named =>
    obtain rfl : hasDefault = true := hname rfl
    rfl
  | positionalOnly | positional =>
    cases hasDefault with
    | true => rfl
    | false => cases hp

theorem length_of_take? {args rest : List α} {filling : Filling α}
    (h : p.take? args = some (filling, rest)) :
    rest.length + (if p.isRequired then 1 else 0) ≤ args.length := by
  obtain ⟨kind, hasDefault⟩ := p
  cases kind with
  | allPositions => cases h; exact Nat.zero_le _
  | allNames => cases h; exact Nat.le_refl _
  | named =>
    cases hasDefault with
    | true => cases h; exact Nat.le_refl _
    | false => cases h
  | positionalOnly | positional =>
    cases args with
    | cons a args =>
      cases h
      exact Nat.add_le_add_left (by split <;> decide) _
    | nil =>
      cases hasDefault with
      | true => cases h; exact Nat.le_refl _
      | false => cases h

end Parameter

/-- What the parameters are given one after the other by a call with arguments, all of
    them without names, if there can be such a call. -/
def fill? : List Parameter → List α → Option (List (Filling α))
  | [], [] => some []
  | [], _ :: _ => none
  | p :: ps, args => do
    let (filling, rest) ← p.take? args
    return filling :: (← fill? ps rest)

theorem fill?_cons {args rest : List α} {filling : Filling α} {fillings : List (Filling α)}
    (htake : p.take? args = some (filling, rest)) (hrest : fill? ps rest = some fillings) :
    fill? (p :: ps) args = some (filling :: fillings) := by
  rw [fill?, htake]
  show (fill? ps rest >>= _) = _
  rw [hrest]
  rfl

/-- A call needs an argument for each required position. -/
theorem countP_le_of_fill? {args : List α} {fillings : List (Filling α)}
    (h : fill? ps args = some fillings) : ps.countP Parameter.isRequired ≤ args.length := by
  induction ps generalizing args fillings with
  | nil => exact Nat.zero_le _
  | cons p ps ih =>
    obtain ⟨⟨filling, rest⟩, htake, h⟩ := Option.bind_eq_some_iff.1 h
    obtain ⟨fillings, hrest, -⟩ := Option.bind_eq_some_iff.1 h
    rw [List.countP_cons]
    exact Nat.le_trans (Nat.add_le_add_right (ih hrest) _) (Parameter.length_of_take? htake)

/-- No parameter has to be given by name. -/
def NamesOptional (ps : List Parameter) : Prop := ∀ p ∈ ps, p.kind = .named → p.hasDefault = true

instance : DecidablePred NamesOptional := fun ps =>
  inferInstanceAs (Decidable (∀ p ∈ ps, p.kind = .named → p.hasDefault = true))

/-- Parameters of which no position is required can do without arguments. -/
theorem fill?_nil (hrequired : ps.countP Parameter.isRequired = 0) (hnames : NamesOptional ps) :
    fill? ps ([] : List α) = some (ps.map Parameter.unfilled) := by
  induction ps with
  | nil => rfl
  | cons p ps ih =>
    obtain ⟨hp, hps⟩ := List.forall_mem_cons.1 (List.countP_eq_zero.1 hrequired)
    obtain ⟨hname, hnames⟩ := List.forall_mem_cons.1 hnames
    exact fill?_cons (Parameter.take?_nil (Bool.eq_false_iff.2 hp) hname)
      (ih (List.countP_eq_zero.2 hps) hnames)

/-- As many arguments as required positions fill these in order, and nothing else. -/
theorem fill?_of_length (h : ps.Pairwise Parameter.Precedes) (hnames : NamesOptional ps)
    {args : List α} (hl : args.length = ps.countP Parameter.isRequired) :
    fill? ps args =
      some (args.map .argument ++ (ps.drop args.length).map Parameter.unfilled) := by
  induction ps generalizing args with
  | nil =>
    obtain rfl := List.length_eq_zero_iff.1 hl
    rfl
  | cons p ps ih =>
    cases hp : p.isRequired with
    | true =>
      rw [List.countP_cons_of_pos hp] at hl
      obtain ⟨a, args, rfl⟩ := List.exists_cons_of_length_eq_add_one hl
      obtain ⟨-, hnames⟩ := List.forall_mem_cons.1 hnames
      exact fill?_cons (Parameter.take?_of_isRequired hp a args)
        (ih h.of_cons hnames (Nat.succ.inj hl))
    | false =>
      have hnone := countP_isRequired_eq_zero h hp
      rw [hnone] at hl
      obtain rfl := List.length_eq_zero_iff.1 hl
      exact fill?_nil hnone hnames

/-! ## Registered functions -/

/-- A function registered by its name, with the operands its parameters ask for. -/
def Operation.registered (name : String) (parameters : List Parameter)
    (run : List Value → Except Failure Value) : Operation :=
  ⟨name, declaredArity parameters, run⟩

/-- The primitives are registered. -/
theorem Primitive.operation_eq_registered (p : Primitive) (callback : Value.Callback) :
    p.operation callback = .registered p.name p.parameters (p.run callback) := rfl

/-- A computation asks the function it is given for its result on some arguments: it can
    make a difference to it, even if the function is the same on all others. -/
def Asks (use : (α → β) → γ) (a : α) : Prop :=
  ∃ f g, (∀ b, b ≠ a → f b = g b) ∧ use f ≠ use g

namespace Operation

variable {name : String} {run : List Value → Except Failure Value} {args : List Value}

theorem call_of_length (h : args.length = declaredArity ps) :
    (registered name ps run).call args = run args :=
  if_pos (Int.natCast_inj.2 h)

theorem call_of_length_ne (h : args.length ≠ declaredArity ps) :
    (registered name ps run).call args =
      .error (.fault (.argumentCount name (declaredArity ps) args.length)) :=
  if_neg fun h' => h (Int.natCast_inj.1 h')

/-- A function is asked for nothing but its result on the arguments as they are given. -/
theorem asks_call_iff {asked : List Value} :
    Asks (fun run => (registered name ps run).call args) asked ↔
      asked = args ∧ args.length = declaredArity ps := by
  constructor
  · rintro ⟨f, g, hsame, hne⟩
    by_cases hl : args.length = declaredArity ps
    · simp only [call_of_length hl] at hne
      refine ⟨Classical.byContradiction fun hasked => hne (hsame args ?_), hl⟩
      exact fun h => hasked h.symm
    · simp only [call_of_length_ne hl] at hne
      exact absurd rfl hne
  · rintro ⟨rfl, hl⟩
    classical
    refine ⟨fun _ => .ok .null, fun b => if b = asked then .ok .noRule else .ok .null, ?_, ?_⟩
    · intro b hb
      exact (if_neg hb).symm
    · simp only [call_of_length hl, if_pos]
      exact nofun

end Operation

/-- The operands of a registered function. Its parameters being in order, they are all
    of its positions without a default. Unless some parameter has to be given by name,
    there is no call by position with fewer arguments, and with so many each of them
    fills such a position, in order, and nothing else. So many arguments are passed on
    as they are, and the function is asked for its result on no others; any other number
    is refused for its type without asking it at all. -/
theorem declaredArity_isLeast (s : Signature) :
    declaredArity s.parameters =
      s.parameters.countP (fun p => p.isPositional && !p.hasDefault) ∧
    (NamesOptional s.parameters →
      IsLeast {n | ∃ args : List Value, args.length = n ∧ (fill? s.parameters args).isSome}
        (declaredArity s.parameters) ∧
      ∀ args : List Value, args.length = declaredArity s.parameters →
        fill? s.parameters args =
          some (args.map .argument ++ (s.parameters.drop args.length).map Parameter.unfilled)) ∧
    ∀ (name : String) (args : List Value),
      (args.length = declaredArity s.parameters → ∀ run,
        (Operation.registered name s.parameters run).call args = run args) ∧
      (args.length ≠ declaredArity s.parameters → ∀ run, ∃ f : Fault,
        (Operation.registered name s.parameters run).call args = .error (.fault f) ∧
          f.kind = .type) ∧
      ∀ asked, Asks (fun run => (Operation.registered name s.parameters run).call args) asked ↔
        asked = args ∧ args.length = declaredArity s.parameters := by
  have harity := declaredArity_eq_countP s.ordered
  refine ⟨harity, fun hnames => ⟨⟨?_, ?_⟩, ?_⟩, fun name args => ⟨?_, ?_, ?_⟩⟩
  · let args := List.replicate (declaredArity s.parameters) Value.null
    have hl : args.length = declaredArity s.parameters := List.length_replicate
    refine ⟨args, hl, ?_⟩
    rw [fill?_of_length s.ordered hnames (hl.trans harity)]
    rfl
  · rintro n ⟨args, rfl, hfill⟩
    obtain ⟨fillings, hfill⟩ := Option.isSome_iff_exists.1 hfill
    rw [harity]
    exact countP_le_of_fill? hfill
  · exact fun args hl => fill?_of_length s.ordered hnames (hl.trans harity)
  · exact fun hl run => Operation.call_of_length hl
  · exact fun hl run => ⟨_, Operation.call_of_length_ne hl, rfl⟩
  · exact fun asked => Operation.asks_call_iff

/-- Parameters of every kind, with and without a default: two positions are required. -/
theorem declaredArity_isLeast_of_mixed :
    ∃ s : Signature, s.parameters = [⟨.positionalOnly, false⟩, ⟨.positional, false⟩,
        ⟨.positional, true⟩, ⟨.allPositions, false⟩, ⟨.named, true⟩, ⟨.allNames, false⟩] ∧
      IsLeast {n | ∃ args : List Value, args.length = n ∧ (fill? s.parameters args).isSome} 2 ∧
      (∀ run, (Operation.registered "f" s.parameters run).call [.int 1, .bool true] =
        run [.int 1, .bool true]) ∧
      ¬ Asks (fun run => (Operation.registered "f" s.parameters run).call [.int 1]) [.int 1] := by
  refine ⟨⟨_, by decide⟩, rfl, ?_, ?_, ?_⟩
  · exact ((declaredArity_isLeast _).2.1 (by decide)).1
  · exact ((declaredArity_isLeast _).2.2 "f" _).1 rfl
  · rw [((declaredArity_isLeast _).2.2 "f" [.int 1]).2.2]
    exact fun h => absurd h.2 (by decide)

end Heptad
