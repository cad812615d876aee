import Mathlib.Data.List.Basic

namespace Effects

/-- The atomic operations of a system with the type of each one's answer. -/
structure Signature where
  Op : Type
  Resp : Op → Type

/-- A program as a tree of atomic operations. `fail` is an error return.
`fault` is undefined behaviour, `overflow` a wrapped machine number that the
program cannot recover from, `spin` an exhausted retry bound. -/
inductive Prog (S : Signature) (ε α : Type) where
  | ret (a : α)
  | fail (e : ε)
  | op (o : S.Op) (k : S.Resp o → Prog S ε α)
  | fault
  | overflow
  | spin

namespace Prog
variable {S : Signature} {ε α β γ : Type}

def bind : Prog S ε α → (α → Prog S ε β) → Prog S ε β
  | ret a, f => f a
  | fail e, _ => fail e
  | op o k, f => op o fun r => (k r).bind f
  | fault, _ => fault
  | overflow, _ => overflow
  | spin, _ => spin

instance : Monad (Prog S ε) where
  pure := ret
  bind := bind

def perform (o : S.Op) : Prog S ε (S.Resp o) := op o ret

/-- Runs `handle` on an error return, as a caller does that inspects the
status of a call before it goes on. -/
def orElse : Prog S ε α → (ε → Prog S ε α) → Prog S ε α
  | ret a, _ => ret a
  | fail e, handle => handle e
  | op o k, handle => op o fun r => (k r).orElse handle
  | fault, _ => fault
  | overflow, _ => overflow
  | spin, _ => spin

@[simp] theorem pure_eq (a : α) : (pure a : Prog S ε α) = ret a := rfl

@[simp] theorem bind_eq (p : Prog S ε α) (f : α → Prog S ε β) : p >>= f = p.bind f := rfl

@[simp] theorem ret_bind (a : α) (f : α → Prog S ε β) : (ret a).bind f = f a := rfl

@[simp] theorem fail_bind (e : ε) (f : α → Prog S ε β) : (fail e).bind f = fail e := rfl

@[simp] theorem op_bind (o : S.Op) (k : S.Resp o → Prog S ε α) (f : α → Prog S ε β) :
    (op o k).bind f = op o fun r => (k r).bind f := rfl

@[simp] theorem fault_bind (f : α → Prog S ε β) : (fault : Prog S ε α).bind f = fault := rfl

@[simp] theorem overflow_bind (f : α → Prog S ε β) :
    (overflow : Prog S ε α).bind f = overflow := rfl

@[simp] theorem spin_bind (f : α → Prog S ε β) : (spin : Prog S ε α).bind f = spin := rfl

@[simp] theorem perform_bind (o : S.Op) (f : S.Resp o → Prog S ε β) :
    (perform o).bind f = op o f := rfl

@[simp] theorem bind_ret (p : Prog S ε α) : p.bind ret = p := by
  induction p with
  | op o k ih => simp only [op_bind, ih]
  | _ => rfl

theorem bind_assoc (p : Prog S ε α) (f : α → Prog S ε β) (g : β → Prog S ε γ) :
    (p.bind f).bind g = p.bind fun a => (f a).bind g := by
  induction p with
  | op o k ih => simp only [op_bind, ih]
  | _ => rfl

@[simp] theorem ret_orElse (a : α) (handle : ε → Prog S ε α) : (ret a).orElse handle = ret a := rfl

@[simp] theorem fail_orElse (e : ε) (handle : ε → Prog S ε α) :
    (fail e : Prog S ε α).orElse handle = handle e := rfl

end Prog

/-- What a complete run leaves: a result or an error with the state reached,
or one of the ways not to return at all. -/
inductive Outcome (ε α σ : Type) where
  | ok (a : α) (s : σ)
  | error (e : ε) (s : σ)
  | fault
  | overflow
  | spin

def Outcome.value? {ε α σ : Type} : Outcome ε α σ → Option α
  | .ok a _ => some a
  | _ => none

def Outcome.error? {ε α σ : Type} : Outcome ε α σ → Option ε
  | .error e _ => some e
  | _ => none

theorem Outcome.exists_of_error? {ε α σ : Type} {out : Outcome ε α σ} {e : ε} (failed : out.error? = some e) :
    ∃ s, out = .error e s := by
  cases out with
  | error e' s =>
    cases failed
    exact ⟨s, rfl⟩
  | _ => cases failed

/-- The state in which a program returns. -/
def Outcome.state? {ε α σ : Type} : Outcome ε α σ → Option σ
  | .ok _ s => some s
  | .error _ s => some s
  | _ => none

/-- The meaning of the atomic operations on a state. `none` is undefined
behaviour. -/
abbrev Handler (S : Signature) (σ : Type) := (o : S.Op) → σ → Option (S.Resp o × σ)

section Run
variable {S : Signature} {ε α β σ : Type} (h : Handler S σ)

def run : Prog S ε α → σ → Outcome ε α σ
  | .ret a, s => .ok a s
  | .fail e, s => .error e s
  | .op o k, s => match h o s with
    | some (r, s') => run (k r) s'
    | none => .fault
  | .fault, _ => .fault
  | .overflow, _ => .overflow
  | .spin, _ => .spin

def Outcome.andThen (out : Outcome ε α σ) (f : α → σ → Outcome ε β σ) : Outcome ε β σ :=
  match out with
  | .ok a s => f a s
  | .error e s => .error e s
  | .fault => .fault
  | .overflow => .overflow
  | .spin => .spin

def Outcome.recover (out : Outcome ε α σ) (f : ε → σ → Outcome ε α σ) : Outcome ε α σ :=
  match out with
  | .error e s => f e s
  | other => other

@[simp] theorem andThen_ok (a : α) (s : σ) (f : α → σ → Outcome ε β σ) :
    (Outcome.ok a s).andThen f = f a s := rfl

@[simp] theorem andThen_error (e : ε) (s : σ) (f : α → σ → Outcome ε β σ) :
    (Outcome.error e s : Outcome ε α σ).andThen f = .error e s := rfl

@[simp] theorem recover_ok (a : α) (s : σ) (f : ε → σ → Outcome ε α σ) :
    (Outcome.ok a s).recover f = .ok a s := rfl

@[simp] theorem recover_error (e : ε) (s : σ) (f : ε → σ → Outcome ε α σ) :
    (Outcome.error e s : Outcome ε α σ).recover f = f e s := rfl

@[simp] theorem run_ret (a : α) (s : σ) : run h (.ret a : Prog S ε α) s = .ok a s := rfl

@[simp] theorem run_fail (e : ε) (s : σ) : run h (.fail e : Prog S ε α) s = .error e s := rfl

@[simp] theorem run_overflow (s : σ) : run h (.overflow : Prog S ε α) s = .overflow := rfl

@[simp] theorem run_spin (s : σ) : run h (.spin : Prog S ε α) s = .spin := rfl

@[simp] theorem run_fault (s : σ) : run h (.fault : Prog S ε α) s = .fault := rfl

theorem run_op_of {o : S.Op} {s s' : σ} {r : S.Resp o} (step : h o s = some (r, s'))
    (k : S.Resp o → Prog S ε α) : run h (.op o k) s = run h (k r) s' := by
  simp only [run, step]

theorem run_perform_of {o : S.Op} {s s' : σ} {r : S.Resp o} (step : h o s = some (r, s')) :
    run h (.perform o : Prog S ε _) s = .ok r s' := by
  simp only [Prog.perform, run, step]

theorem run_bind (p : Prog S ε α) (f : α → Prog S ε β) (s : σ) :
    run h (p.bind f) s = (run h p s).andThen fun a s' => run h (f a) s' := by
  induction p generalizing s with
  | op o k ih =>
    simp only [Prog.op_bind, run]
    cases h o s with
    | none => rfl
    | some out => exact ih out.1 out.2
  | _ => rfl

theorem run_orElse (p : Prog S ε α) (handle : ε → Prog S ε α) (s : σ) :
    run h (p.orElse handle) s = (run h p s).recover fun e s' => run h (handle e) s' := by
  induction p generalizing s with
  | op o k ih =>
    simp only [Prog.orElse, run]
    cases h o s with
    | none => rfl
    | some out => exact ih out.1 out.2
  | _ => rfl

theorem run_bind_ok {p : Prog S ε α} {s s' : σ} {a : α} (first : run h p s = .ok a s')
    (f : α → Prog S ε β) : run h (p.bind f) s = run h (f a) s' := by
  rw [run_bind, first, andThen_ok]

theorem run_bind_error {p : Prog S ε α} {s s' : σ} {e : ε} (first : run h p s = .error e s')
    (f : α → Prog S ε β) : run h (p.bind f) s = .error e s' := by
  rw [run_bind, first, andThen_error]

theorem run_bind_fault {p : Prog S ε α} {s : σ} (first : run h p s = .fault) (f : α → Prog S ε β) :
    run h (p.bind f) s = .fault := by
  rw [run_bind, first]
  rfl

theorem run_bind_overflow {p : Prog S ε α} {s : σ} (first : run h p s = .overflow) (f : α → Prog S ε β) :
    run h (p.bind f) s = .overflow := by
  rw [run_bind, first]
  rfl

end Run

section Within
variable {S : Signature} {ε α β σ : Type} (h : Handler S σ) (fits : S.Op → Prop)

/-- No operation of the run from `s` exceeds the bounds `fits` sets, and no
machine number of the program wraps for good. -/
def Within : Prog S ε α → σ → Prop
  | .op o k, s => fits o ∧ ∀ r s', h o s = some (r, s') → Within (k r) s'
  | .overflow, _ => False
  | .ret _, _ => True
  | .fail _, _ => True
  | .fault, _ => True
  | .spin, _ => True

variable {h fits}

@[simp] theorem within_ret (a : α) (s : σ) : Within h fits (.ret a : Prog S ε α) s := trivial

theorem within_bind {p : Prog S ε α} {f : α → Prog S ε β} {s : σ} :
    Within h fits (p.bind f) s ↔
      Within h fits p s ∧ ∀ a s', run h p s = .ok a s' → Within h fits (f a) s' := by
  induction p generalizing s with
  | ret a => simp [Within, run]
  | op o k ih =>
    simp only [Prog.op_bind, Within, run, ih]
    constructor
    · rintro ⟨bound, rest⟩
      refine ⟨⟨bound, fun r s' step => (rest r s' step).1⟩, fun a t done => ?_⟩
      cases step : h o s with
      | none => simp [step] at done
      | some out => exact (rest out.1 out.2 step).2 a t (by simpa only [step] using done)
    · rintro ⟨⟨bound, first⟩, rest⟩
      exact ⟨bound, fun r s' step => ⟨first r s' step, fun a t done =>
        rest a t (by simpa only [step] using done)⟩⟩
  | _ => simp [Within, run]

/-- Whether a run stays within decidable bounds can be decided by running
it. -/
instance decidableWithin [∀ o, Decidable (fits o)] : (p : Prog S ε α) → (s : σ) → Decidable (Within h fits p s)
  | .op o k, s =>
    match step : h o s with
    | none => decidable_of_iff (fits o) ⟨fun bound => ⟨bound, fun r s' other => nomatch step.symm.trans other⟩, And.left⟩
    | some (r, s') =>
      have := decidableWithin (k r) s'
      decidable_of_iff (fits o ∧ Within h fits (k r) s') (and_congr Iff.rfl
        ⟨fun within r' s'' other => by cases step.symm.trans other; exact within, fun all => all r s' step⟩)
  | .ret _, _ => isTrue trivial
  | .fail _, _ => isTrue trivial
  | .fault, _ => isTrue trivial
  | .overflow, _ => isFalse id
  | .spin, _ => isTrue trivial

theorem Within.not_overflow {p : Prog S ε α} {s : σ} (within : Within h fits p s) : run h p s ≠ .overflow := by
  induction p generalizing s with
  | op o k ih =>
    intro ended
    cases step : h o s with
    | none => simp [run, step] at ended
    | some out =>
      rw [run_op_of h step] at ended
      exact ih out.1 (within.2 out.1 out.2 step) ended
  | overflow => exact within.elim
  | _ => nofun

theorem Within.first {p : Prog S ε α} {f : α → Prog S ε β} {s : σ}
    (within : Within h fits (p.bind f) s) : Within h fits p s :=
  (within_bind.mp within).1

theorem Within.rest {p : Prog S ε α} {f : α → Prog S ε β} {s s' : σ} {a : α}
    (within : Within h fits (p.bind f) s) (done : run h p s = .ok a s') :
    Within h fits (f a) s' :=
  (within_bind.mp within).2 a s' done

theorem within_orElse {p : Prog S ε α} {handle : ε → Prog S ε α} {s : σ}
    (within : Within h fits (p.orElse handle) s) :
    Within h fits p s ∧ ∀ e s', run h p s = .error e s' → Within h fits (handle e) s' := by
  induction p generalizing s with
  | fail e =>
    refine ⟨trivial, fun e' s' done => ?_⟩
    simp only [run, Outcome.error.injEq] at done
    obtain ⟨rfl, rfl⟩ := done
    exact within
  | op o k ih =>
    simp only [Prog.orElse, Within] at within
    refine ⟨⟨within.1, fun r s' step => (ih r (within.2 r s' step)).1⟩, fun e t done => ?_⟩
    cases step : h o s with
    | none => simp [run, step] at done
    | some out =>
      exact (ih out.1 (within.2 out.1 out.2 step)).2 e t (by simpa only [run, step] using done)
  | overflow => exact within.elim
  | _ => simp [Within, run]

end Within

section Only
variable {S : Signature} {ε α β σ : Type} {good : S.Op → Prop}

/-- Every operation of the program is a `good` one. -/
def Prog.Only (good : S.Op → Prop) : Prog S ε α → Prop
  | .op o k => good o ∧ ∀ r, (k r).Only good
  | _ => True

theorem Prog.Only.bind {p : Prog S ε α} {f : α → Prog S ε β} (first : p.Only good) (rest : ∀ a, (f a).Only good) :
    (p.bind f).Only good := by
  induction p with
  | ret a => exact rest a
  | op o k ih => exact ⟨first.1, fun r => ih r (first.2 r)⟩
  | _ => exact trivial

theorem Prog.Only.orElse {p : Prog S ε α} {handle : ε → Prog S ε α} (first : p.Only good)
    (rest : ∀ e, (handle e).Only good) : (p.orElse handle).Only good := by
  induction p with
  | fail e => exact rest e
  | op o k ih => exact ⟨first.1, fun r => ih r (first.2 r)⟩
  | _ => exact trivial

theorem Prog.Only.ite {c : Prop} [Decidable c] {p q : Prog S ε α} (yes : p.Only good) (no : q.Only good) :
    (if c then p else q).Only good := by
  split
  · exact yes
  · exact no

theorem Prog.only_true (p : Prog S ε α) : p.Only fun _ => True := by
  induction p with
  | op o k ih => exact ⟨trivial, ih⟩
  | _ => exact trivial

theorem Prog.Only.mono {better : S.Op → Prop} {p : Prog S ε α} (only : p.Only good) (implies : ∀ o, good o → better o) :
    p.Only better := by
  induction p with
  | op o k ih => exact ⟨implies o only.1, fun r => ih r (only.2 r)⟩
  | _ => exact trivial

/-- What every operation of a program preserves, the program preserves. -/
theorem Prog.Only.preserves {h : Handler S σ} {R : σ → σ → Prop} (start : ∀ s, R s s)
    (next : ∀ s t u, R s t → R t u → R s u) (step : ∀ o s r s', good o → h o s = some (r, s') → R s s')
    {p : Prog S ε α} (only : p.Only good) {s s' : σ} (ended : (run h p s).state? = some s') : R s s' := by
  induction p generalizing s with
  | ret a => cases ended; exact start _
  | fail e => cases ended; exact start _
  | op o k ih =>
    rw [run] at ended
    cases taken : h o s with
    | none => rw [taken] at ended; cases ended
    | some out =>
      rw [taken] at ended
      exact next s out.2 s' (step o s out.1 out.2 only.1 taken) (ih out.1 (only.2 out.1) ended)
  | _ => cases ended

/-- A run that returns stays within the bounds its operations keep. -/
theorem Prog.Only.within {h : Handler S σ} {p : Prog S ε α} (only : p.Only good) {s s' : σ} {a : α}
    (done : run h p s = .ok a s') : Within h good p s := by
  induction p generalizing s with
  | op o k ih =>
    refine ⟨only.1, fun r t taken => ih r (only.2 r) ?_⟩
    rwa [run_op_of h taken] at done
  | overflow => cases done
  | _ => exact trivial

/-- Machines that agree on the operations of a program run it alike. -/
theorem Prog.Only.run_congr {h h' : Handler S σ} {p : Prog S ε α} (only : p.Only good)
    (same : ∀ o s, good o → h o s = h' o s) (s : σ) : run h p s = run h' p s := by
  induction p generalizing s with
  | op o k ih =>
    simp only [run, same o s only.1]
    cases h' o s with
    | none => rfl
    | some out => exact ih out.1 (only.2 out.1) out.2
  | _ => rfl

/-- A program without operations that returns is that return. -/
theorem Prog.Only.eq_ret {h : Handler S σ} {p : Prog S ε α} (only : p.Only fun _ => False) {s s' : σ} {a : α}
    (runs : run h p s = .ok a s') : p = .ret a := by
  cases p with
  | ret b =>
    cases runs
    rfl
  | op o k => exact only.1.elim
  | _ => cases runs

end Only

section Stops
variable {S : Signature} {ε α β σ : Type}

/-- What operations can do to a state, with the answers they give. -/
abbrev Steps (S : Signature) (σ : Type) := (o : S.Op) → σ → S.Resp o → σ → Prop

/-- The steps of a machine on which every operation succeeds. -/
def Handler.steps (h : Handler S σ) : Steps S σ := fun o s r s' => h o s = some (r, s')

variable (step : Steps S σ) (part : S.Op → σ → σ → Prop)

/-- A run in which each operation takes one of its steps can return `a` in
state `t`. -/
def Finishes : Prog S ε α → σ → α → σ → Prop
  | .op o k, s, a, t => ∃ r s', step o s r s' ∧ Finishes (k r) s' a t
  | .ret b, s, a, t => b = a ∧ s = t
  | _, _, _, _ => False

/-- Such a run can fail with `e` in state `t`. -/
def Fails : Prog S ε α → σ → ε → σ → Prop
  | .op o k, s, e, t => ∃ r s', step o s r s' ∧ Fails (k r) s' e t
  | .fail d, s, e, t => d = e ∧ s = t
  | _, _, _, _ => False

/-- The states in which such a run can be stopped: before or after any of its
operations, or inside one at a state `part` gives for it. -/
def Stops : Prog S ε α → σ → σ → Prop
  | .op o k, s, t => t = s ∨ part o s t ∨ ∃ r s', step o s r s' ∧ Stops (k r) s' t
  | _, s, t => t = s

variable {step part}

theorem stops_bind {p : Prog S ε α} {f : α → Prog S ε β} {s t : σ} (stops : Stops step part (p.bind f) s t) :
    Stops step part p s t ∨ ∃ a s', Finishes step p s a s' ∧ Stops step part (f a) s' t := by
  induction p generalizing s with
  | ret a => exact Or.inr ⟨a, s, ⟨rfl, rfl⟩, stops⟩
  | op o k ih =>
    rcases stops with here | inside | ⟨r, s', taken, later⟩
    · exact Or.inl (Or.inl here)
    · exact Or.inl (Or.inr (Or.inl inside))
    · rcases ih r later with first | ⟨a, s'', done, rest⟩
      · exact Or.inl (Or.inr (Or.inr ⟨r, s', taken, first⟩))
      · exact Or.inr ⟨a, s'', ⟨r, s', taken, done⟩, rest⟩
  | _ => exact Or.inl stops

theorem stops_start (p : Prog S ε α) (s : σ) : Stops step part p s s := by
  cases p with
  | op o k => exact Or.inl rfl
  | _ => rfl

theorem stops_bind_right {h : Handler S σ} (possible : ∀ o s r s', h o s = some (r, s') → step o s r s')
    {p : Prog S ε α} {f : α → Prog S ε β} {s s' t : σ} {a : α} (done : run h p s = .ok a s')
    (stops : Stops step part (f a) s' t) : Stops step part (p.bind f) s t := by
  induction p generalizing s with
  | ret b =>
    cases done
    exact stops
  | op o k ih =>
    cases taken : h o s with
    | none => simp [run, taken] at done
    | some out =>
      refine Or.inr (Or.inr ⟨out.1, out.2, possible o s out.1 out.2 taken, ih out.1 ?_⟩)
      simpa only [run, taken] using done
  | _ => simp [run] at done

/-- What every step of a program preserves holds wherever it stops. -/
theorem Prog.Only.stops {good : S.Op → Prop} {R : σ → σ → Prop} (start : ∀ s, R s s)
    (next : ∀ s t u, R s t → R t u → R s u) (steps : ∀ o s r s', good o → step o s r s' → R s s')
    (parts : ∀ o s s', good o → part o s s' → R s s') {p : Prog S ε α} (only : p.Only good) {s t : σ}
    (stops : Stops step part p s t) : R s t := by
  induction p generalizing s with
  | op o k ih =>
    rcases stops with here | inside | ⟨r, s', taken, later⟩
    · exact here ▸ start s
    · exact parts o s t only.1 inside
    · exact next s s' t (steps o s r s' only.1 taken) (ih r (only.2 r) later)
  | _ =>
    cases stops
    exact start _

/-- The program does not return, whatever its operations answer. -/
def Prog.Barren : Prog S ε α → Prop
  | .op _ k => ∀ r, (k r).Barren
  | .ret _ => False
  | _ => True

theorem Prog.Barren.bind {p : Prog S ε α} (barren : p.Barren) (f : α → Prog S ε β) : (p.bind f).Barren := by
  induction p with
  | ret a => exact barren.elim
  | op o k ih => exact fun r => ih r (barren r)
  | _ => exact trivial

theorem Prog.Barren.not_finishes {p : Prog S ε α} (barren : p.Barren) {s t : σ} {a : α} : ¬ Finishes step p s a t := by
  induction p generalizing s with
  | ret b => exact barren.elim
  | op o k ih =>
    rintro ⟨r, s', _, later⟩
    exact ih r (barren r) later
  | _ => exact id

/-- A program that goes on only when the operation did what the machine
does. -/
def Prog.Strict (h : Handler S σ) (step : Steps S σ) : Prog S ε α → Prop
  | .op o k => (∀ s r s', step o s r s' → h o s = some (r, s') ∨ (k r).Barren) ∧ ∀ r, (k r).Strict h step
  | _ => True

theorem Prog.Strict.bind {h : Handler S σ} {p : Prog S ε α} {f : α → Prog S ε β} (first : p.Strict h step)
    (rest : ∀ a, (f a).Strict h step) : (p.bind f).Strict h step := by
  induction p with
  | ret a => exact rest a
  | op o k ih =>
    refine ⟨fun s r s' taken => ?_, fun r => ih r (first.2 r)⟩
    rcases first.1 s r s' taken with same | barren
    · exact Or.inl same
    · exact Or.inr (barren.bind f)
  | _ => exact trivial

theorem Prog.Strict.ite {h : Handler S σ} {c : Prop} [Decidable c] {p q : Prog S ε α} (yes : p.Strict h step)
    (no : q.Strict h step) : (if c then p else q).Strict h step := by
  split
  · exact yes
  · exact no

/-- Such a program returns only what it returns on the machine. -/
theorem Prog.Strict.run {h : Handler S σ} {p : Prog S ε α} (strict : p.Strict h step) {s t : σ} {a : α}
    (done : Finishes step p s a t) : run h p s = .ok a t := by
  induction p generalizing s with
  | ret b =>
    obtain ⟨rfl, rfl⟩ := done
    rfl
  | op o k ih =>
    obtain ⟨r, s', taken, later⟩ := done
    rcases strict.1 s r s' taken with same | barren
    · rw [run_op_of h same]
      exact ih r (strict.2 r) later
    · exact absurd later barren.not_finishes
  | _ => exact done.elim

theorem finishes_of_run {h : Handler S σ} (possible : ∀ o s r s', h o s = some (r, s') → step o s r s')
    {p : Prog S ε α} {s t : σ} {a : α} (done : run h p s = .ok a t) : Finishes step p s a t := by
  induction p generalizing s with
  | ret b =>
    cases done
    exact ⟨rfl, rfl⟩
  | op o k ih =>
    cases taken : h o s with
    | none => simp [run, taken] at done
    | some out =>
      rw [run_op_of h taken] at done
      exact ⟨out.1, out.2, possible o s out.1 out.2 taken, ih out.1 done⟩
  | _ => cases done

theorem fails_of_run {h : Handler S σ} (possible : ∀ o s r s', h o s = some (r, s') → step o s r s')
    {p : Prog S ε α} {s t : σ} {e : ε} (failed : run h p s = .error e t) : Fails step p s e t := by
  induction p generalizing s with
  | fail d =>
    cases failed
    exact ⟨rfl, rfl⟩
  | op o k ih =>
    cases taken : h o s with
    | none => simp [run, taken] at failed
    | some out =>
      rw [run_op_of h taken] at failed
      exact ⟨out.1, out.2, possible o s out.1 out.2 taken, ih out.1 failed⟩
  | _ => cases failed

theorem finishes_bind {p : Prog S ε α} {f : α → Prog S ε β} {s t : σ} {b : β} (done : Finishes step (p.bind f) s b t) :
    ∃ a s', Finishes step p s a s' ∧ Finishes step (f a) s' b t := by
  induction p generalizing s with
  | ret a => exact ⟨a, s, ⟨rfl, rfl⟩, done⟩
  | op o k ih =>
    obtain ⟨r, s', taken, later⟩ := done
    obtain ⟨a, s'', first, rest⟩ := ih r later
    exact ⟨a, s'', ⟨r, s', taken, first⟩, rest⟩
  | _ => exact done.elim

theorem fails_bind {p : Prog S ε α} {f : α → Prog S ε β} {s t : σ} {e : ε} (failed : Fails step (p.bind f) s e t) :
    Fails step p s e t ∨ ∃ a s', Finishes step p s a s' ∧ Fails step (f a) s' e t := by
  induction p generalizing s with
  | ret a => exact Or.inr ⟨a, s, ⟨rfl, rfl⟩, failed⟩
  | fail d => exact Or.inl failed
  | op o k ih =>
    obtain ⟨r, s', taken, later⟩ := failed
    rcases ih r later with first | ⟨a, s'', done, rest⟩
    · exact Or.inl ⟨r, s', taken, first⟩
    · exact Or.inr ⟨a, s'', ⟨r, s', taken, done⟩, rest⟩
  | _ => exact failed.elim

/-- Where every step is one of the machine, so is the run. -/
theorem Prog.Only.run_of_finishes {good : S.Op → Prop} {h : Handler S σ}
    (sure : ∀ o s r s', good o → step o s r s' → h o s = some (r, s')) {p : Prog S ε α} (only : p.Only good) {s t : σ} {a : α}
    (done : Finishes step p s a t) : run h p s = .ok a t := by
  induction p generalizing s with
  | ret b =>
    obtain ⟨rfl, rfl⟩ := done
    rfl
  | op o k ih =>
    obtain ⟨r, s', taken, later⟩ := done
    rw [run_op_of h (sure o s r s' only.1 taken)]
    exact ih r (only.2 r) later
  | _ => exact done.elim

theorem Prog.Only.run_of_fails {good : S.Op → Prop} {h : Handler S σ}
    (sure : ∀ o s r s', good o → step o s r s' → h o s = some (r, s')) {p : Prog S ε α} (only : p.Only good) {s t : σ} {e : ε}
    (failed : Fails step p s e t) : run h p s = .error e t := by
  induction p generalizing s with
  | fail d =>
    obtain ⟨rfl, rfl⟩ := failed
    rfl
  | op o k ih =>
    obtain ⟨r, s', taken, later⟩ := failed
    rw [run_op_of h (sure o s r s' only.1 taken)]
    exact ih r (only.2 r) later
  | _ => exact failed.elim

theorem fails_orElse {p : Prog S ε α} {handle : ε → Prog S ε α} {s t : σ} {e : ε}
    (failed : Fails step (p.orElse handle) s e t) : ∃ d s', Fails step p s d s' ∧ Fails step (handle d) s' e t := by
  induction p generalizing s with
  | fail d => exact ⟨d, s, ⟨rfl, rfl⟩, failed⟩
  | op o k ih =>
    obtain ⟨r, s', taken, later⟩ := failed
    obtain ⟨d, s'', first, rest⟩ := ih r later
    exact ⟨d, s'', ⟨r, s', taken, first⟩, rest⟩
  | _ => exact failed.elim

/-- A handler that does not return adds no way to return. -/
theorem finishes_orElse {p : Prog S ε α} {handle : ε → Prog S ε α} (barren : ∀ e, (handle e).Barren) {s t : σ} {a : α}
    (done : Finishes step (p.orElse handle) s a t) : Finishes step p s a t := by
  induction p generalizing s with
  | fail e => exact absurd done (barren e).not_finishes
  | op o k ih =>
    obtain ⟨r, s', taken, later⟩ := done
    exact ⟨r, s', taken, ih r later⟩
  | _ => exact done

theorem Prog.Barren.orElse {p : Prog S ε α} {handle : ε → Prog S ε α} (barren : p.Barren)
    (rest : ∀ e, (handle e).Barren) : (p.orElse handle).Barren := by
  induction p with
  | ret a => exact barren.elim
  | fail e => exact rest e
  | op o k ih => exact fun r => ih r (barren r)
  | _ => exact trivial

theorem Prog.Strict.orElse {h : Handler S σ} {p : Prog S ε α} {handle : ε → Prog S ε α} (first : p.Strict h step)
    (barren : ∀ e, (handle e).Barren) (rest : ∀ e, (handle e).Strict h step) : (p.orElse handle).Strict h step := by
  induction p with
  | fail e => exact rest e
  | op o k ih =>
    refine ⟨fun s r s' taken => ?_, fun r => ih r (first.2 r)⟩
    rcases first.1 s r s' taken with same | stops
    · exact Or.inl same
    · exact Or.inr (stops.orElse barren)
  | _ => exact trivial

/-- More steps, more failing runs. -/
theorem Fails.mono {step' : Steps S σ} (more : ∀ o s r s', step o s r s' → step' o s r s') {p : Prog S ε α} {s t : σ} {e : ε}
    (failed : Fails step p s e t) : Fails step' p s e t := by
  induction p generalizing s with
  | fail d => exact failed
  | op o k ih =>
    obtain ⟨r, s', taken, later⟩ := failed
    exact ⟨r, s', more o s r s' taken, ih r later⟩
  | _ => exact failed.elim

theorem Finishes.mono {step' : Steps S σ} (more : ∀ o s r s', step o s r s' → step' o s r s') {p : Prog S ε α} {s t : σ} {a : α}
    (done : Finishes step p s a t) : Finishes step' p s a t := by
  induction p generalizing s with
  | ret b => exact done
  | op o k ih =>
    obtain ⟨r, s', taken, later⟩ := done
    exact ⟨r, s', more o s r s' taken, ih r later⟩
  | _ => exact done.elim

/-- A program of operations that leave the state, whatever they answer, leaves
it. -/
theorem Prog.Only.finishes_same {good : S.Op → Prop} (quiet : ∀ o s r s', good o → step o s r s' → s' = s) {p : Prog S ε α}
    (only : p.Only good) {s t : σ} {a : α} (done : Finishes step p s a t) : t = s := by
  induction p generalizing s with
  | ret b => exact done.2.symm
  | op o k ih =>
    obtain ⟨r, s', taken, later⟩ := done
    exact (ih r (only.2 r) later).trans (quiet o s r s' only.1 taken)
  | _ => exact done.elim

theorem Prog.Only.fails_same {good : S.Op → Prop} (quiet : ∀ o s r s', good o → step o s r s' → s' = s) {p : Prog S ε α}
    (only : p.Only good) {s t : σ} {e : ε} (failed : Fails step p s e t) : t = s := by
  induction p generalizing s with
  | fail d => exact failed.2.symm
  | op o k ih =>
    obtain ⟨r, s', taken, later⟩ := failed
    exact (ih r (only.2 r) later).trans (quiet o s r s' only.1 taken)
  | _ => exact failed.elim

/-- The program has no error return. -/
def Prog.Unfailing : Prog S ε α → Prop
  | .op _ k => ∀ r, (k r).Unfailing
  | .fail _ => False
  | _ => True

theorem Prog.Unfailing.bind {p : Prog S ε α} {f : α → Prog S ε β} (first : p.Unfailing) (rest : ∀ a, (f a).Unfailing) :
    (p.bind f).Unfailing := by
  induction p with
  | ret a => exact rest a
  | fail e => exact first.elim
  | op o k ih => exact fun r => ih r (first r)
  | _ => exact trivial

theorem Prog.Unfailing.not_fails {p : Prog S ε α} (unfailing : p.Unfailing) {s t : σ} {e : ε} : ¬ Fails step p s e t := by
  induction p generalizing s with
  | fail d => exact unfailing.elim
  | op o k ih =>
    rintro ⟨r, s', _, later⟩
    exact ih r (unfailing r) later
  | _ => exact id

end Stops

section Compositional
variable {S : Signature} {ε σ : Type}

/-- A property of programs that sequencing keeps. -/
structure Compositional (P : (α : Type) → Prog S ε α → Prop) : Prop where
  ret : ∀ {α : Type} (a : α), P α (.ret a)
  fail : ∀ {α : Type} (e : ε), P α (.fail e)
  fault : ∀ {α : Type}, P α .fault
  overflow : ∀ {α : Type}, P α .overflow
  spin : ∀ {α : Type}, P α .spin
  bind : ∀ {α β : Type} {p : Prog S ε α} {f : α → Prog S ε β}, P α p → (∀ a, P β (f a)) → P β (p.bind f)

theorem Compositional.ite {P : (α : Type) → Prog S ε α → Prop} (_ : Compositional P) {α : Type} {c : Prop}
    [Decidable c] {p q : Prog S ε α} (yes : P α p) (no : P α q) : P α (if c then p else q) := by
  split
  · exact yes
  · exact no

theorem compositional_only (good : S.Op → Prop) :
    Compositional (S := S) (ε := ε) fun _ p => p.Only good where
  ret _ := trivial
  fail _ := trivial
  fault := trivial
  overflow := trivial
  spin := trivial
  bind first rest := first.bind rest

theorem compositional_strict (h : Handler S σ) (step : Steps S σ) :
    Compositional (S := S) (ε := ε) fun _ p => p.Strict h step where
  ret _ := trivial
  fail _ := trivial
  fault := trivial
  overflow := trivial
  spin := trivial
  bind first rest := first.bind rest

end Compositional

section Performs
variable {S : Signature} {ε α β σ : Type} (h : Handler S σ)

/-- The run from `s` performs the operation `o`. -/
def Performs : Prog S ε α → σ → S.Op → Prop
  | .op first k, s, o => o = first ∨ ∃ r s', h first s = some (r, s') ∧ Performs (k r) s' o
  | _, _, _ => False

variable {h}

theorem performs_bind {p : Prog S ε α} {f : α → Prog S ε β} {s : σ} {o : S.Op} :
    Performs h (p.bind f) s o ↔ Performs h p s o ∨ ∃ a s', run h p s = .ok a s' ∧ Performs h (f a) s' o := by
  induction p generalizing s with
  | ret a => simp [Performs, run]
  | op first k ih =>
    simp only [Prog.op_bind, Performs, run, ih]
    constructor
    · rintro (here | ⟨r, s', taken, inside | ⟨a, t, done, later⟩⟩)
      · exact Or.inl (Or.inl here)
      · exact Or.inl (Or.inr ⟨r, s', taken, inside⟩)
      · exact Or.inr ⟨a, t, by rw [taken]; exact done, later⟩
    · rintro ((here | ⟨r, s', taken, inside⟩) | ⟨a, t, done, later⟩)
      · exact Or.inl here
      · exact Or.inr ⟨r, s', taken, Or.inl inside⟩
      · cases taken : h first s with
        | none => simp [taken] at done
        | some out =>
          rw [taken] at done
          exact Or.inr ⟨out.1, out.2, rfl, Or.inr ⟨a, t, done, later⟩⟩
  | _ => simp [Performs, run]

/-- A run performs no other operations than its program has. -/
theorem Prog.Only.performs {good : S.Op → Prop} {p : Prog S ε α} (only : p.Only good) {s : σ} {o : S.Op}
    (performed : Performs h p s o) : good o := by
  induction p generalizing s with
  | op first k ih =>
    rcases performed with rfl | ⟨r, s', _, later⟩
    · exact only.1
    · exact ih r (only.2 r) later
  | _ => exact performed.elim

end Performs

section Yields
variable {S : Signature} {ε α β σ : Type} {h : Handler S σ} {p q : Prog S ε α} {f : α → Prog S ε β} {s : σ}
  {good : α → Prop} {better : β → Prop}

/-- The program ends in the state it starts in, with an error or with a value
that has the property. -/
def Yields (h : Handler S σ) (p : Prog S ε α) (s : σ) (good : α → Prop) : Prop :=
  (∃ a, run h p s = .ok a s ∧ good a) ∨ ∃ e, run h p s = .error e s

theorem yields_of_run {a : α} (runs : run h p s = .ok a s) (holds : good a) : Yields h p s good := Or.inl ⟨a, runs, holds⟩

theorem yields_of_error {e : ε} (fails : run h p s = .error e s) : Yields h p s good := Or.inr ⟨e, fails⟩

theorem yields_ret {a : α} (holds : good a) : Yields h (.ret a : Prog S ε α) s good := yields_of_run rfl holds

theorem yields_fail {e : ε} : Yields h (.fail e : Prog S ε α) s good := yields_of_error rfl

theorem Yields.mono {weaker : α → Prop} (yields : Yields h p s good) (implies : ∀ a, good a → weaker a) :
    Yields h p s weaker := by
  rcases yields with ⟨a, runs, holds⟩ | ⟨e, fails⟩
  · exact yields_of_run runs (implies a holds)
  · exact yields_of_error fails

theorem Yields.bind (first : Yields h p s good) (rest : ∀ a, good a → Yields h (f a) s better) :
    Yields h (p.bind f) s better := by
  rcases first with ⟨a, runs, holds⟩ | ⟨e, fails⟩
  · rcases rest a holds with ⟨b, later, reached⟩ | ⟨e, fails⟩
    · exact yields_of_run ((run_bind_ok h runs f).trans later) reached
    · exact yields_of_error ((run_bind_ok h runs f).trans fails)
  · exact yields_of_error (run_bind_error h fails f)

theorem Yields.ite {c : Prop} [Decidable c] (yes : c → Yields h p s good) (no : ¬ c → Yields h q s good) :
    Yields h (if c then p else q) s good := by
  split
  · exact yes ‹_›
  · exact no ‹_›

theorem Yields.value {a : α} {s' : σ} (yields : Yields h p s good) (runs : run h p s = .ok a s') : good a := by
  rcases yields with ⟨a', runs', holds⟩ | ⟨e, fails⟩
  · have same := runs.symm.trans runs'
    simp only [Outcome.ok.injEq] at same
    rw [same.1]
    exact holds
  · cases runs.symm.trans fails

end Yields

end Effects
