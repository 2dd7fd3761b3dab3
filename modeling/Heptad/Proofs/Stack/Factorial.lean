import Mathlib.Data.Nat.Factorial.Basic
import Heptad.Derivation.Factorial
import Heptad.Proofs.Stack.Depth
import Heptad.Proofs.Stack.Result
import Heptad.Proofs.Stack.Run

/-!
# Factorials run

Two families of derivations unroll the factorial of a number. Both push a one and
then multiply what is on the stack by each factor in turn; they differ in the block of
steps that does so, which names the primitive every time or applies it once more. The
invariant of both is the same: before a factor the stack holds the factorial of the
number before it. With debugging each of these products is shown, and one that has no text
is where a run fails.

* `CanShow`: whether an integer can be put on record, which takes a text with debugging;
* `Multiplies`: a block of steps that multiplies what is on the stack by a factor;
* `multiplies_times`, `multiplies_timesAgain`: the blocks of the two families;
* `leads_factors`, `overflows_factors`: the blocks of all factors one behind the other;
* `factorials_evaluate`: so both families have factorials as their values;
* `undescribed_factorial`: one that a call does not return for its length.
-/

namespace Heptad

namespace Derivation

/-! ## Derivations of factorials -/

/-- Blocks of one length, one behind the other. -/
theorem length_blocks (block : Nat → Derivation) {n : Nat}
    (h : ∀ factor, (block factor).length = n) (m : Nat) :
    ((List.range m).flatMap fun i => block (i + 2)).length = n * m := by
  induction m with
  | zero => rfl
  | succ m ih =>
    rw [List.range_succ, List.flatMap_append, List.length_append, ih, List.flatMap_singleton, h,
      Nat.mul_succ]

theorem length_factorial (n : Int) : ((factorial n).length : Int) = 1 + 3 * max 0 (n - 1) := by
  have htimes (factor : Nat) : (times factor).length = 3 := rfl
  rw [factorial, List.length_cons, length_blocks times htimes]
  omega

/-- The derivation for an integer below one is that for one. -/
theorem factorial_of_lt {n : Int} (h : n < 1) : factorial n = factorial 1 := by
  rw [factorial, factorial, Int.toNat_of_nonpos (Int.sub_nonpos_of_le (Int.le_of_lt h))]
  rfl

/-- What counts as an integer is compared with an integer as one. -/
theorem lt?_int_of_int {v : Value} {n : Int} (h : v.int? = some n) (m : Int) :
    v.lt? (.int m) = .ok (decide (n < m)) := by
  rw [← Number.lt_int_int]
  cases v with
  | bool | int | morphism =>
    cases h
    rfl
  | null | float | str | bytes | list | tuple | mapping | literal | sub | noRule | reentrant =>
    cases h

/-- What counts as an integer has a derivation of its factorial. -/
theorem factorialOf_of_int {v : Value} {n : Int} (h : v.int? = some n) :
    factorialOf v = .ok (factorial n) := by
  rw [factorialOf, lt?_int_of_int h, h]
  by_cases hn : n < 1
  · rw [decide_eq_true hn, factorial_of_lt hn]
    rfl
  · rw [decide_eq_false hn]
    rfl

end Derivation

namespace Stack

open Heptad.Derivation

/-! ## Integers on record -/

theorem hasDecimal_one : hasDecimal 1 = true := rfl

/-- Whether a session can put an integer on record: with debugging it has to have a text. -/
def CanShow (s : Session Event) (i : Int) : Prop := s.tracer.debug = true → hasDecimal i = true

section

variable {s t : Session Event} {i j : Int}

/-- Sessions that are debugged alike can put the same integers on record. -/
theorem CanShow.of_debug (h : CanShow s i) (hd : t.tracer.debug = s.tracer.debug) : CanShow t i :=
  fun ht => h (hd.symm.trans ht)

/-- An integer can be put on record if one at least as far from zero can. -/
theorem CanShow.of_natAbs_le (h : CanShow s j) (hle : i.natAbs ≤ j.natAbs) : CanShow s i :=
  fun hs => hasDecimal_of_natAbs_le hle (h hs)

/-- The factors of a positive product can be put on record if the product can. -/
theorem CanShow.factors {a b : Nat} (h : CanShow s (a * b : Nat)) (ha : 0 < a) (hb : 0 < b) :
    CanShow s a ∧ CanShow s b :=
  ⟨h.of_natAbs_le (Nat.le_mul_of_pos_right a hb), h.of_natAbs_le (Nat.le_mul_of_pos_left b ha)⟩

end

/-! ## What blocks add -/

/-- Whether an action is no application, or one of a primitive by its name. -/
def Action.isExplicit : Action → Bool
  | .applied _ _ _ implicit _ => !implicit
  | _ => true

/-- A session after `n` steps more without a warning, in which what is put on record
    satisfies `P`. -/
structure Passes (P : Event → Prop) (n : Nat) (s t : Session Event) : Prop where
  steps : t.steps = s.steps + n
  warnings : t.warnings = s.warnings
  events : (∀ e ∈ s.tracer.events, P e) → ∀ e ∈ t.tracer.events, P e
  debug : t.tracer.debug = s.tracer.debug

namespace Passes

variable {P : Event → Prop} {m n : Nat} {s t u : Session Event}

theorem refl (P : Event → Prop) (s : Session Event) : Passes P 0 s s :=
  ⟨rfl, rfl, id, rfl⟩

theorem trans (h : Passes P m s t) (h' : Passes P n t u) : Passes P (m + n) s u where
  steps := by rw [h'.steps, h.steps, Nat.add_assoc]
  warnings := h'.warnings.trans h.warnings
  events := h'.events ∘ h.events
  debug := h'.debug.trans h.debug

/-- One step and its event. -/
theorem tick_record {e : Event} (s : Session Event) (he : P e) : Passes P 1 s (s.tick.record e) :=
  ⟨rfl, rfl, fun hs => List.forall_mem_append.2 ⟨hs, List.forall_mem_singleton.2 he⟩, rfl⟩

end Passes

/-- From `c` the machine comes to the frame `f` of the same derivation in `n` steps. -/
def Leads (P : Event → Prop) (n : Nat) (limit : Value) (c : Config) (f : Frame) : Prop :=
  ∃ t, Passes P n c.session t ∧ run limit c = run limit ⟨f, c.callers, t⟩

/-- The run from `c` fails, as an integer has too many digits. -/
def Overflows (limit : Value) (c : Config) : Prop :=
  (run limit c).1 = .error (.fault .tooManyDigits)

section

variable {P : Event → Prop} {m n : Nat} {limit : Value} {c : Config} {f g : Frame}

theorem Leads.trans (h : Leads P m limit c f)
    (h' : ∀ t : Session Event, t.tracer.debug = c.session.tracer.debug →
      Leads P n limit ⟨f, c.callers, t⟩ g) : Leads P (m + n) limit c g := by
  obtain ⟨t, ht, hrun⟩ := h
  obtain ⟨u, hu, hrun'⟩ := h' t ht.debug
  exact ⟨u, ht.trans hu, hrun.trans hrun'⟩

theorem Leads.overflows (h : Leads P m limit c f)
    (h' : ∀ t : Session Event, t.tracer.debug = c.session.tracer.debug →
      Overflows limit ⟨f, c.callers, t⟩) : Overflows limit c := by
  obtain ⟨t, ht, hrun⟩ := h
  exact (congrArg Prod.fst hrun).trans (h' t ht.debug)

variable {action : Action}

/-- One step, if what it does can be put on record. -/
theorem leads_of_moves (hm : Config.Moves c c.ticked f action)
    (ha : c.session.tracer.debug = true → action.isShowable = true)
    (hP : P (c.ticked.event action)) : Leads P 1 limit c f := by
  have hadmits : c.session.tracer.admits (c.ticked.event action) = true := by
    cases hd : c.session.tracer.debug with
    | false => exact Tracer.admits_of_off hd _
    | true => exact Tracer.admits_of_showable (ha hd)
  exact ⟨_, .tick_record c.session hP,
    run_of_running (Config.next_of_transition (.moved hm hadmits))⟩

/-- The run fails at one that cannot be put on record. -/
theorem overflows_of_moves (hm : Config.Moves c c.ticked f action)
    (hd : c.session.tracer.debug = true) (ha : action.isShowable = false) : Overflows limit c :=
  congrArg Prod.fst
    (run_of_halted (Config.next_of_transition (.undescribed hm (Tracer.admits_of_on hd ha))))

end

section

variable {P : Event → Prop} {limit : Value} {rest below stack : List Value}
  {last : Option Primitive} {callers : List Pending} {s : Session Event}

/-- A literal pushes its value. -/
theorem moves_literal (v : Value) : Config.Moves
    ⟨⟨.literal v :: rest, stack, last⟩, callers, s⟩
    (Config.ticked ⟨⟨.literal v :: rest, stack, last⟩, callers, s⟩) ⟨rest, v :: stack, last⟩
    (.pushed v callers.length) :=
  .pushed rfl (.literal v)

/-- The product of two integers, by its name or once more. -/
theorem moves_product {implicit : Bool} {a b : Nat}
    (h : Targets stack last .multiply implicit (.int b :: .int a :: below)) : Config.Moves
    ⟨⟨.morphism .apply :: rest, stack, last⟩, callers, s⟩
    (Config.ticked ⟨⟨.morphism .apply :: rest, stack, last⟩, callers, s⟩)
    ⟨rest, .int (a * b : Nat) :: below, some .multiply⟩
    (.applied .multiply [.int a, .int b] (.int (a * b : Nat)) implicit callers.length) := by
  have hcall : Primitive.multiply.call s.tick.callback
      (Config.arguments .multiply (.int b :: .int a :: below)) = .ok (.int (a * b : Nat)) :=
    call_eq_ok_iff.2 (.multiply nofun rfl)
  exact .applied rfl (target_eq_ok_iff.2 h) (Nat.le_add_left _ _) hcall

/-- A product that can be put on record can be so with its factors. -/
theorem leads_product {implicit : Bool} {a b : Nat} (ha : 0 < a) (hb : 0 < b)
    (h : Targets stack last .multiply implicit (.int b :: .int a :: below))
    (hs : CanShow s (a * b : Nat))
    (hP : ∀ step args v depth, P ⟨step, .applied .multiply args v implicit depth⟩) :
    Leads P 1 limit ⟨⟨.morphism .apply :: rest, stack, last⟩, callers, s⟩
      ⟨rest, .int (a * b : Nat) :: below, some .multiply⟩ := by
  obtain ⟨hfst, hsnd⟩ := hs.factors ha hb
  refine leads_of_moves (moves_product h) (fun hd => ?_) (hP _ _ _ _)
  have hargs : Value.areShowable [.int a, .int b] = true := Value.areShowable_iff.2
    (List.forall_mem_cons.2 ⟨hfst hd, List.forall_mem_singleton.2 (hsnd hd)⟩)
  exact Bool.and_eq_true_iff.2 ⟨hargs, hs hd⟩

/-- With debugging, the product of two integers is where a run fails if it has no text. -/
theorem overflows_product {implicit : Bool} {a b : Nat} (hd : s.tracer.debug = true)
    (h : Targets stack last .multiply implicit (.int b :: .int a :: below))
    (hproduct : hasDecimal (a * b : Nat) = false) :
    Overflows limit ⟨⟨.morphism .apply :: rest, stack, last⟩, callers, s⟩ :=
  overflows_of_moves (moves_product h) hd (Bool.and_eq_false_iff.2 (.inr hproduct))

end

/-! ## Blocks -/

/-- A block of `n` steps multiplies the integer on top of the stack by a factor, if a
    primitive is remembered as in `Q`, and remembers one as in `Q` again. What it puts on
    record satisfies `P`. The run fails in the block if the product is to be put on record
    and has no text. -/
structure Multiplies (P : Event → Prop) (Q : Option Primitive → Prop) (n : Nat)
    (block : Nat → List Value) : Prop where
  leads {limit : Value} {factor a : Nat} {rest below : List Value} {last : Option Primitive} :
    0 < a → 0 < factor → Q last → ∃ last', Q last' ∧ ∀ callers s, CanShow s (a * factor : Nat) →
      Leads P n limit ⟨⟨block factor ++ rest, .int a :: below, last⟩, callers, s⟩
        ⟨rest, .int (a * factor : Nat) :: below, last'⟩
  overflows {limit : Value} {factor a : Nat} {rest below : List Value} {last : Option Primitive}
    {callers : List Pending} {s : Session Event} :
    Q last → s.tracer.debug = true → hasDecimal (a * factor : Nat) = false →
      Overflows limit ⟨⟨block factor ++ rest, .int a :: below, last⟩, callers, s⟩

section

variable {P : Event → Prop} {limit : Value} {factor a : Nat} {rest below : List Value}
  {last : Option Primitive} {callers : List Pending} {s : Session Event}

/-- A factor is pushed before it is multiplied with. -/
theorem leads_factor (hs : CanShow s factor)
    (hP : ∀ step depth, P ⟨step, .pushed (.int factor) depth⟩) :
    Leads P 1 limit ⟨⟨.literal (.int factor) :: rest, .int a :: below, last⟩, callers, s⟩
      ⟨rest, .int factor :: .int a :: below, last⟩ :=
  leads_of_moves (moves_literal _) hs (hP _ _)

/-- With debugging a run fails if it fails once the factor is pushed: pushing a factor
    that has no text is where it fails as well. -/
theorem overflows_factor (hd : s.tracer.debug = true)
    (h : ∀ t : Session Event, t.tracer.debug = true →
      Overflows limit ⟨⟨rest, .int factor :: .int a :: below, last⟩, callers, t⟩) :
    Overflows limit ⟨⟨.literal (.int factor) :: rest, .int a :: below, last⟩, callers, s⟩ := by
  cases hfactor : hasDecimal factor with
  | false => exact overflows_of_moves (moves_literal _) hd hfactor
  | true =>
    have hleads : Leads (fun _ => True) 1 limit
        ⟨⟨.literal (.int factor) :: rest, .int a :: below, last⟩, callers, s⟩
        ⟨rest, .int factor :: .int a :: below, last⟩ :=
      leads_factor (fun _ => hfactor) fun _ _ => trivial
    exact hleads.overflows fun t ht => h t (ht.trans hd)

/-- The name of the primitive is pushed after its operands. -/
theorem leads_name (hP : ∀ step depth, P ⟨step, .pushed (.str "multiply") depth⟩)
    (stack : List Value) :
    Leads P 1 limit ⟨⟨.literal (.str "multiply") :: rest, stack, last⟩, callers, s⟩
      ⟨rest, .str "multiply" :: stack, last⟩ :=
  leads_of_moves (moves_literal _) (fun _ => rfl) (hP _ _)

/-- A factor, the name of the primitive and an application of it. -/
theorem leads_times (hP : ∀ event, event.action.isExplicit → P event) (ha : 0 < a)
    (hfactor : 0 < factor) (hs : CanShow s (a * factor : Nat)) :
    Leads P 3 limit ⟨⟨times factor ++ rest, .int a :: below, last⟩, callers, s⟩
      ⟨rest, .int (a * factor : Nat) :: below, some .multiply⟩ := by
  have hfst : Leads P 1 limit ⟨⟨times factor ++ rest, .int a :: below, last⟩, callers, s⟩
      ⟨.literal (.str "multiply") :: .morphism .apply :: rest,
        .int factor :: .int a :: below, last⟩ :=
    leads_factor (hs.factors ha hfactor).2 fun _ _ => hP _ rfl
  have hname := hfst.trans fun t _ => leads_name (fun _ _ => hP _ rfl) _
  exact hname.trans fun t ht =>
    leads_product ha hfactor (.named rfl) (hs.of_debug ht) fun _ _ _ _ => hP _ rfl

/-- Naming the primitive at each factor. -/
theorem multiplies_times :
    Multiplies (fun event => event.action.isExplicit) (fun _ => True) 3 times where
  leads ha hfactor _ := ⟨some .multiply, trivial, fun _ _ => leads_times (fun _ => id) ha hfactor⟩
  overflows _ hd hproduct := overflows_factor hd fun _ ht =>
    (leads_name (P := fun _ => True) (fun _ _ => trivial) _).overflows fun _ hu =>
      overflows_product (hu.trans ht) (.named rfl) hproduct

/-- Applying the primitive once more at each factor. -/
theorem multiplies_timesAgain :
    Multiplies (fun _ => True) (· = some .multiply) 2 timesAgain where
  leads := by
    rintro limit factor a rest below _ ha hfactor rfl
    refine ⟨some .multiply, rfl, fun callers s hs => ?_⟩
    have hfst : Leads (fun _ => True) 1 limit
        ⟨⟨timesAgain factor ++ rest, .int a :: below, some .multiply⟩, callers, s⟩
        ⟨.morphism .apply :: rest, .int factor :: .int a :: below, some .multiply⟩ :=
      leads_factor (hs.factors ha hfactor).2 fun _ _ => trivial
    exact hfst.trans fun t ht =>
      leads_product ha hfactor (.again nofun) (hs.of_debug ht) fun _ _ _ _ => trivial
  overflows := by
    rintro limit factor a rest below _ callers s rfl hd hproduct
    exact overflows_factor hd fun t ht => overflows_product ht (.again nofun) hproduct

end

section

variable {P : Event → Prop} {Q : Option Primitive → Prop} {n : Nat} {block : Nat → List Value}

/-- The blocks of the factors from two on, one behind the other, leave the factorial of
    the last of them in place of a one, if it can be put on record. -/
theorem leads_factors (h : Multiplies P Q n block) (limit : Value) (m : Nat)
    (rest below : List Value) (last : Option Primitive) (hlast : Q last) :
    ∃ last', Q last' ∧ ∀ callers s, CanShow s (m + 1).factorial →
      Leads P (n * m) limit
        ⟨⟨((List.range m).flatMap fun i => block (i + 2)) ++ rest, .int 1 :: below, last⟩,
          callers, s⟩
        ⟨rest, .int (m + 1).factorial :: below, last'⟩ := by
  induction m generalizing rest with
  | zero => exact ⟨last, hlast, fun callers s _ => ⟨s, .refl P s, rfl⟩⟩
  | succ m ih =>
    obtain ⟨last₁, hlast₁, hbefore⟩ := ih (block (m + 2) ++ rest)
    have hpos := Nat.factorial_pos (m + 1)
    obtain ⟨last₂, hlast₂, hblock⟩ : ∃ last', Q last' ∧ ∀ callers s,
        CanShow s ((m + 1).factorial * (m + 2) : Nat) → Leads P n limit
          ⟨⟨block (m + 2) ++ rest, .int (m + 1).factorial :: below, last₁⟩, callers, s⟩
          ⟨rest, .int ((m + 1).factorial * (m + 2) : Nat) :: below, last'⟩ :=
      h.leads hpos (Nat.succ_pos _) hlast₁
    refine ⟨last₂, hlast₂, fun callers s hs => ?_⟩
    have hfactorial : (m + 1).factorial * (m + 2) = (m + 2).factorial := by
      rw [Nat.factorial_succ (m + 1), Nat.mul_comm]
    rw [← hfactorial] at hs
    rw [List.range_succ, List.flatMap_append, List.flatMap_singleton, List.append_assoc,
      ← hfactorial]
    exact (hbefore callers s (hs.factors hpos (Nat.succ_pos _)).1).trans fun t ht =>
      hblock callers t (hs.of_debug ht)

/-- With debugging the run fails in one of these blocks if the factorial has no text. -/
theorem overflows_factors (h : Multiplies P Q n block) (limit : Value) {m : Nat}
    (hm : hasDecimal (m + 1).factorial = false) (rest below : List Value)
    (last : Option Primitive) (hlast : Q last) (callers : List Pending) {s : Session Event}
    (hd : s.tracer.debug = true) :
    Overflows limit
      ⟨⟨((List.range m).flatMap fun i => block (i + 2)) ++ rest, .int 1 :: below, last⟩,
        callers, s⟩ := by
  induction m generalizing rest with
  | zero => cases hm.symm.trans hasDecimal_one
  | succ m ih =>
    rw [List.range_succ, List.flatMap_append, List.flatMap_singleton, List.append_assoc]
    cases hbefore : hasDecimal (m + 1).factorial with
    | false => exact ih hbefore _
    | true =>
      obtain ⟨last₁, hlast₁, hleads⟩ :=
        leads_factors h limit m (block (m + 2) ++ rest) below last hlast
      have hfactorial : (m + 1).factorial * (m + 2) = (m + 2).factorial := by
        rw [Nat.factorial_succ (m + 1), Nat.mul_comm]
      rw [← hfactorial] at hm
      exact (hleads callers s fun _ => hbefore).overflows fun t ht =>
        h.overflows hlast₁ (ht.trans hd) hm

end

/-! ## Derivations -/

/-- The value of the derivation for an integer. -/
def productUpTo (n : Int) : Nat := if 1 ≤ n then n.toNat.factorial else 1

theorem factorial_productUpTo (n : Int) : ((n - 1).toNat + 1).factorial = productUpTo n := by
  rw [productUpTo]
  split
  · rw [show (n - 1).toNat + 1 = n.toNat by omega]
  · rw [show (n - 1).toNat = 0 by omega]
    rfl

section

variable {limit : Value} {s : Session Event}

/-- Both derivations begin with a one. -/
theorem leads_one {P : Event → Prop} (hP : ∀ step depth, P ⟨step, .pushed (.int 1) depth⟩)
    (rest : List Value) :
    Leads P 1 limit ⟨.start (.literal (.int 1) :: rest), [], s⟩ ⟨rest, [.int 1], none⟩ :=
  leads_of_moves (moves_literal _) (fun _ => hasDecimal_one) (hP _ _)

/-- From the start of the derivation for an integer to its end. -/
theorem leads_factorial (limit : Value) (n : Int) (hs : CanShow s (productUpTo n)) :
    ∃ last, Leads (fun event => event.action.isExplicit) (factorial n).length limit
      ⟨.start (factorial n), [], s⟩ ⟨[], [.int (productUpTo n)], last⟩ := by
  obtain ⟨last, -, hfactors⟩ :=
    leads_factors multiplies_times limit (n - 1).toNat [] [] none trivial
  have hlength : (factorial n).length = 1 + 3 * (n - 1).toNat := by
    have := length_factorial n
    omega
  rw [List.append_nil, factorial_productUpTo] at hfactors
  rw [hlength]
  exact ⟨last, (leads_one (fun _ _ => rfl) _).trans fun t ht => hfactors [] t (hs.of_debug ht)⟩

/-- With debugging the run of the derivation for an integer fails if its value has no
    text. -/
theorem overflows_factorial {n : Int} (hd : s.tracer.debug = true)
    (hn : hasDecimal (productUpTo n) = false) : Overflows limit ⟨.start (factorial n), [], s⟩ := by
  rw [← factorial_productUpTo] at hn
  refine (leads_one (P := fun _ => True) (fun _ _ => trivial) _).overflows fun t ht => ?_
  have hfactors := overflows_factors multiplies_times limit hn [] [] none trivial []
    (ht.trans hd)
  rw [List.append_nil] at hfactors
  exact hfactors

/-- From the start of the continued form for a positive number to its end. -/
theorem leads_continuedFactorial (limit : Value) (m : Nat)
    (hs : CanShow s (m + 1).factorial) :
    ∃ last, Leads (fun _ => True) (1 + 3 + 2 * m) limit
      ⟨.start (continuedFactorial (m + 1)), [], s⟩ ⟨[], [.int (m + 1).factorial], last⟩ := by
  obtain ⟨last, -, hfactors⟩ :=
    leads_factors multiplies_timesAgain limit m [] [] _ rfl
  rw [List.append_nil] at hfactors
  have hone : CanShow s (1 * 1 : Nat) := fun _ => hasDecimal_one
  refine ⟨last, ((leads_one (fun _ _ => trivial) _).trans fun t ht => ?_).trans fun t ht =>
    hfactors [] t (hs.of_debug ht)⟩
  exact leads_times (fun _ _ => trivial) Nat.one_pos Nat.one_pos (hone.of_debug ht)

/-- With debugging the run of the continued form fails if the factorial has no text. -/
theorem overflows_continuedFactorial {m : Nat} (hd : s.tracer.debug = true)
    (hm : hasDecimal (m + 1).factorial = false) :
    Overflows limit ⟨.start (continuedFactorial (m + 1)), [], s⟩ := by
  have hone (t : Session Event) : CanShow t (1 * 1 : Nat) := fun _ => hasDecimal_one
  refine ((leads_one (P := fun _ => True) (fun _ _ => trivial) _).trans fun t _ =>
    leads_times (fun _ _ => trivial) Nat.one_pos Nat.one_pos (hone t)).overflows fun t ht => ?_
  have hfactors := overflows_factors multiplies_timesAgain limit hm [] [] _ rfl []
    (ht.trans hd)
  rw [List.append_nil] at hfactors
  exact hfactors

end

/-! ## Calls -/

namespace Evaluator

variable {e : Evaluator} {derivation v : Value} {steps : List Value}

/-- An admitted call whose steps lead to a single value returns it. -/
theorem evaluate_of_leads {P : Event → Prop} {n : Nat} {last : Option Primitive}
    (hfree : e.shell.inFlight = false) (henter : enter e.limit 0 = .ok ())
    (hi : derivation.items? = .ok steps)
    (h : Leads P n e.limit ⟨.start steps, [], e.opening steps⟩ ⟨[], [v], last⟩) :
    (e.evaluate derivation).outcome = .ok v ∧
      (e.evaluate derivation).after.shell.warnings = [] ∧
      (e.evaluate derivation).after.shell.steps = n ∧
      ∀ event ∈ (e.evaluate derivation).after.shell.tracer.events, P event := by
  obtain ⟨t, ht, hrun⟩ := h
  obtain ⟨houtcome, hafter⟩ := evaluate_of_steps hfree hi
  have hlast : Config.Transition e.limit ⟨⟨[], [v], last⟩, [], t⟩ _ := .finished rfl rfl rfl rfl
  have hend := run_of_halted (Config.next_of_transition hlast)
  rw [runDerivation, henter] at houtcome hafter
  dsimp only at houtcome hafter
  rw [hrun, hend] at houtcome hafter
  rw [houtcome, hafter]
  exact ⟨rfl, ht.warnings, ht.steps.trans (Nat.zero_add n), ht.events (List.forall_mem_nil P)⟩

/-- An admitted call fails if its steps come to an integer of too many digits that is to
    be put on record. -/
theorem evaluate_of_overflows (hfree : e.shell.inFlight = false)
    (henter : enter e.limit 0 = .ok ()) (hi : derivation.items? = .ok steps)
    (h : Overflows e.limit ⟨.start steps, [], e.opening steps⟩) :
    (e.evaluate derivation).outcome = .error (.fault .tooManyDigits) := by
  rw [(evaluate_of_steps hfree hi).1, runDerivation, henter]
  exact h

/-- Whether an evaluator can put an integer on record: with debugging it has to have a
    text. -/
def CanShow (e : Evaluator) (i : Int) : Prop := e.shell.tracer.debug = true → hasDecimal i = true

end Evaluator

/-- Both families of derivations have factorials as their values, wherever a derivation
    may be entered at all and the factorial can be put on record. The one that is computed
    for an integer names the primitive at each factor; its value for those below one is one.
    The other one names it once, and each member of it goes on where the one before ends. No
    warning is given, and as many steps are counted as there are. With debugging, a
    factorial that has no text is what a call fails for. -/
theorem factorials_evaluate (e : Evaluator) (hfree : e.shell.inFlight = false)
    (henter : enter e.limit 0 = .ok ()) :
    (∀ (v : Value) (n : Int), v.int? = some n →
      ∃ d, Derivation.factorialOf v = .ok d ∧ (d.length : Int) = 1 + 3 * max 0 (n - 1) ∧
        ∀ D : Value, D.items? = .ok d →
          (e.CanShow (productUpTo n) →
            (e.evaluate D).outcome = .ok (.int (productUpTo n)) ∧
              (e.evaluate D).after.shell.warnings = [] ∧
              (e.evaluate D).after.shell.steps = d.length ∧
              ∀ event ∈ (e.evaluate D).after.shell.tracer.events, event.action.isExplicit) ∧
          (¬ e.CanShow (productUpTo n) →
            (e.evaluate D).outcome = .error (.fault .tooManyDigits))) ∧
    (∀ n : Nat, 1 ≤ n → ∀ D : Value, D.items? = .ok (Derivation.continuedFactorial n) →
      (e.CanShow n.factorial →
        (e.evaluate D).outcome = .ok (.int n.factorial) ∧
          (e.evaluate D).after.shell.warnings = [] ∧
          (e.evaluate D).after.shell.steps = 2 * n + 2) ∧
      (¬ e.CanShow n.factorial →
        (e.evaluate D).outcome = .error (.fault .tooManyDigits))) ∧
    Derivation.continuedFactorial 3 =
      [.literal (.int 1), .literal (.int 1), .literal (.str "multiply"), .morphism .apply,
        .literal (.int 2), .morphism .apply, .literal (.int 3), .morphism .apply] ∧
    Derivation.continuedFactorial 4 =
      Derivation.continuedFactorial 3 ++ [.literal (.int 4), .morphism .apply] := by
  have hundescribed {i : Int} (h : ¬ e.CanShow i) :
      e.shell.tracer.debug = true ∧ hasDecimal i = false := by
    obtain ⟨hd, hi⟩ := Classical.not_imp.1 h
    exact ⟨hd, Bool.eq_false_iff.2 hi⟩
  refine ⟨fun v n hv => ⟨_, Derivation.factorialOf_of_int hv, Derivation.length_factorial n,
    fun D hD => ⟨fun hs => ?_, fun hs => ?_⟩⟩, fun n hn D hD => ⟨fun hs => ?_, fun hs => ?_⟩,
    rfl, rfl⟩
  · obtain ⟨last, hleads⟩ := leads_factorial (s := e.opening _) e.limit n hs
    exact e.evaluate_of_leads hfree henter hD hleads
  · obtain ⟨hd, hn⟩ := hundescribed hs
    exact e.evaluate_of_overflows hfree henter hD (overflows_factorial hd hn)
  · obtain ⟨m, rfl⟩ := Nat.exists_eq_add_of_le' hn
    obtain ⟨last, hleads⟩ := leads_continuedFactorial (s := e.opening _) e.limit m hs
    obtain ⟨hvalue, hwarnings, hsteps, -⟩ := e.evaluate_of_leads hfree henter hD hleads
    exact ⟨hvalue, hwarnings, hsteps.trans (by omega)⟩
  · obtain ⟨m, rfl⟩ := Nat.exists_eq_add_of_le' hn
    obtain ⟨hd, hm⟩ := hundescribed hs
    exact e.evaluate_of_overflows hfree henter hD (overflows_continuedFactorial hd hm)

/-- Where no conditional can run a branch, the empty product and four factors. -/
theorem factorials_evaluate_unnested :
    let e := Evaluator.new .null (.int 0)
    (e.evaluate (.tuple (Derivation.factorial (-3)))).outcome = .ok (.int 1) ∧
      (e.evaluate (.tuple (Derivation.continuedFactorial 4))).outcome = .ok (.int 24) ∧
      (e.evaluate (.tuple (Derivation.continuedFactorial 4))).after.shell.steps = 10 := by
  obtain ⟨hcomputed, hcontinued, -⟩ := factorials_evaluate (.new .null (.int 0)) rfl
    (enter_int_eq_ok.2 (Int.le_refl 0))
  obtain ⟨d, hd, -, hvalue⟩ := hcomputed (.int (-3)) (-3) rfl
  cases (Derivation.factorialOf_of_int rfl).symm.trans hd
  obtain ⟨hfour, -, hsteps⟩ := (hcontinued 4 (by decide) (.tuple _) rfl).1 nofun
  exact ⟨((hvalue (.tuple _) rfl).1 nofun).1, hfour, hsteps⟩

/-- A factorial that has no text. -/
theorem not_hasDecimal_factorial : hasDecimal (Nat.factorial 1559) = false := by
  rw [← Bool.not_eq_true, hasDecimal_iff]
  decide +kernel

/-- With debugging the derivation for a number whose factorial has no text fails. -/
theorem undescribed_factorial :
    let e := Evaluator.new (.bool true) .null
    Derivation.factorialOf (.int 1559) = .ok (Derivation.factorial 1559) ∧
      (e.evaluate (.tuple (Derivation.factorial 1559))).outcome =
        .error (.fault .tooManyDigits) := by
  refine ⟨Derivation.factorialOf_of_int rfl, ?_⟩
  exact Evaluator.evaluate_of_overflows rfl (enter_int_eq_ok.2 (by decide)) rfl
    (overflows_factorial rfl not_hasDecimal_factorial)

end Stack

end Heptad
