import LumoDB.Lib.Program
import Mathlib.Logic.Function.Basic
import Mathlib.Logic.Relation

namespace Effects

/-- A machine that several programs share. An operation is carried out only
within the bounds `fits` sets. The programs are reasoned about on states `Γ`
that may hold more than the machine's own, which `view` shows. -/
structure Arena (S : Signature) (σ Γ : Type) where
  handler : Handler S σ
  fits : S.Op → σ → Prop
  view : Γ → σ

section Safe
variable {S : Signature} {ε α β σ Γ : Type} (A : Arena S σ Γ) (rely guar : Γ → Γ → Prop)

/-- From `x` on the program does nothing undefined, each of its operations moves
the state as `guar` allows, and it ends as `done` and `failed` say, as long as
the others move the state as `rely` allows. -/
def Safe (done : α → Γ → Prop) (failed : ε → Γ → Prop) : Prog S ε α → Γ → Prop
  | .ret a, x => done a x
  | .fail e, x => failed e x
  | .op o k, x => ∀ y, rely x y → A.fits o (A.view y) →
    ∃ r y', A.handler o (A.view y) = some (r, A.view y') ∧ guar y y' ∧ Safe done failed (k r) y'
  | .fault, _ => False
  | .overflow, _ => True
  | .spin, _ => True

variable {A rely guar} {done done' : α → Γ → Prop} {failed failed' : ε → Γ → Prop} {x : Γ} {p : Prog S ε α}

theorem Safe.mono (safe : Safe A rely guar done failed p x) (ends : ∀ a y, done a y → done' a y)
    (fails : ∀ e y, failed e y → failed' e y) : Safe A rely guar done' failed' p x := by
  induction p generalizing x with
  | ret a => exact ends a x safe
  | fail e => exact fails e x safe
  | op o k ih =>
    intro y moved fits
    obtain ⟨r, y', step, allowed, later⟩ := safe y moved fits
    exact ⟨r, y', step, allowed, ih r later⟩
  | _ => exact safe

/-- What runs in sequence is safe if the second part is safe where the first
one ends. -/
theorem Safe.bind {f : α → Prog S ε β} {finished : β → Γ → Prop} (first : Safe A rely guar done failed p x)
    (rest : ∀ a y, done a y → Safe A rely guar finished failed (f a) y) :
    Safe A rely guar finished failed (p.bind f) x := by
  induction p generalizing x with
  | ret a => exact rest a x first
  | op o k ih =>
    intro y moved fits
    obtain ⟨r, y', step, allowed, later⟩ := first y moved fits
    exact ⟨r, y', step, allowed, ih r later⟩
  | _ => exact first

theorem Safe.orElse {handle : ε → Prog S ε α} (first : Safe A rely guar done failed p x)
    (rest : ∀ e y, failed e y → Safe A rely guar done failed' (handle e) y) :
    Safe A rely guar done failed' (p.orElse handle) x := by
  induction p generalizing x with
  | fail e => exact rest e x first
  | op o k ih =>
    intro y moved fits
    obtain ⟨r, y', step, allowed, later⟩ := first y moved fits
    exact ⟨r, y', step, allowed, ih r later⟩
  | _ => exact first

/-- What neither the program nor the others can undo holds at the end. -/
theorem Safe.stable {keeps : Γ → Prop} (safe : Safe A rely guar done failed p x) (others : ∀ y z, rely y z → keeps y → keeps z)
    (own : ∀ y z, guar y z → keeps y → keeps z) (before : keeps x) :
    Safe A rely guar (fun a y => done a y ∧ keeps y) failed p x := by
  induction p generalizing x with
  | ret a => exact ⟨safe, before⟩
  | op o k ih =>
    intro y moved fits
    obtain ⟨r, y', step, allowed, later⟩ := safe y moved fits
    exact ⟨r, y', step, allowed, ih r later (own y y' allowed (others x y moved before))⟩
  | _ => exact safe

theorem Safe.ite {c : Prop} [Decidable c] {q : Prog S ε α} (yes : c → Safe A rely guar done failed p x)
    (no : ¬ c → Safe A rely guar done failed q x) : Safe A rely guar done failed (if c then p else q) x := by
  split
  · exact yes ‹_›
  · exact no ‹_›

/-- One operation is safe if it is in every state the others may leave. -/
theorem safe_perform {o : S.Op} {done : S.Resp o → Γ → Prop}
    (each : ∀ y, rely x y → A.fits o (A.view y) →
      ∃ r y', A.handler o (A.view y) = some (r, A.view y') ∧ guar y y' ∧ done r y') :
    Safe A rely guar done failed (.perform o) x := each

/-- An operation that leaves the state is safe where leaving it is allowed. -/
theorem safe_read {o : S.Op} {done : S.Resp o → Γ → Prop} (still : ∀ y, guar y y)
    (each : ∀ y, rely x y → ∃ r, A.handler o (A.view y) = some (r, A.view y) ∧ done r y) :
    Safe A rely guar done failed (.perform o) x := by
  intro y moved _
  obtain ⟨r, step, ends⟩ := each y moved
  exact ⟨r, y, step, still y, ends⟩

end Safe

/-- Programs that run at the same time: what each of them has still to do. -/
abbrev Pool {ι : Type} (S : Signature) (ε : Type) (α : ι → Type) := (i : ι) → Prog S ε (α i)

section Pools
variable {S : Signature} {ε σ Γ ι : Type} {α : ι → Type}

section Steps
variable [DecidableEq ι] (h : Handler S σ) (fits : S.Op → σ → Prop)

/-- One of the programs carries out its next operation. -/
inductive Pool.Step : Pool S ε α × σ → Pool S ε α × σ → Prop where
  | op {P : Pool S ε α} {s s' : σ} {i : ι} {o : S.Op} {k : S.Resp o → Prog S ε (α i)} {r : S.Resp o}
      (next : P i = .op o k) (bound : fits o s) (taken : h o s = some (r, s')) :
      Pool.Step (P, s) (Function.update P i (k r), s')

/-- The programs can come from the one state to the other, in some order of
their operations. -/
def Pool.Reaches : Pool S ε α × σ → Pool S ε α × σ → Prop := Relation.ReflTransGen (Pool.Step h fits)

/-- The next operation of some program is undefined. -/
def Pool.Faults (P : Pool S ε α) (s : σ) : Prop :=
  ∃ i, P i = .fault ∨ ∃ o k, P i = .op o k ∧ fits o s ∧ h o s = none

end Steps

/-- What each program relies on and what it guarantees: moves of the one are
moves the others reckon with. -/
structure Compatible (rely guar : ι → Γ → Γ → Prop) : Prop where
  refl : ∀ i x, rely i x x
  trans : ∀ i x y z, rely i x y → rely i y z → rely i x z
  moves : ∀ i j x y, i ≠ j → guar i x y → rely j x y

/-- Every program is safe from some earlier state on, since which only the
others have moved. -/
def Pool.Guarded (A : Arena S σ Γ) (rely guar : ι → Γ → Γ → Prop) (done : (i : ι) → α i → Γ → Prop)
    (failed : ι → ε → Γ → Prop) (P : Pool S ε α) (x : Γ) : Prop :=
  ∀ i, ∃ y, rely i y x ∧ Safe A (rely i) (guar i) (done i) (failed i) (P i) y

variable {A : Arena S σ Γ} {rely guar : ι → Γ → Γ → Prop} {done : (i : ι) → α i → Γ → Prop} {failed : ι → ε → Γ → Prop}
  {P P' : Pool S ε α} {x : Γ} {s s' : σ}

theorem Pool.Guarded.start (compatible : Compatible rely guar)
    (safe : ∀ i, Safe A (rely i) (guar i) (done i) (failed i) (P i) x) : Guarded A rely guar done failed P x :=
  fun i => ⟨x, compatible.refl i x, safe i⟩

theorem Pool.Guarded.not_faults (guarded : Guarded A rely guar done failed P x) :
    ¬ Faults A.handler A.fits P (A.view x) := by
  rintro ⟨i, here | ⟨o, k, next, bound, undefined⟩⟩
  · obtain ⟨y, _, safe⟩ := guarded i
    rw [here] at safe
    exact safe
  · obtain ⟨y, moved, safe⟩ := guarded i
    rw [next] at safe
    obtain ⟨r, y', step, _⟩ := safe x moved bound
    cases undefined.symm.trans step

theorem Pool.Guarded.at_return (guarded : Guarded A rely guar done failed P x) {i : ι} {a : α i} (ended : P i = .ret a) :
    ∃ y, rely i y x ∧ done i a y := by
  obtain ⟨y, moved, safe⟩ := guarded i
  rw [ended] at safe
  exact ⟨y, moved, safe⟩

theorem Pool.Guarded.at_failure (guarded : Guarded A rely guar done failed P x) {i : ι} {e : ε} (ended : P i = .fail e) :
    ∃ y, rely i y x ∧ failed i e y := by
  obtain ⟨y, moved, safe⟩ := guarded i
  rw [ended] at safe
  exact ⟨y, moved, safe⟩

variable [DecidableEq ι]

theorem Pool.Guarded.step (compatible : Compatible rely guar) (guarded : Guarded A rely guar done failed P x)
    (step : Step A.handler A.fits (P, A.view x) (P', s')) :
    ∃ x', A.view x' = s' ∧ (∃ i, guar i x x') ∧ Guarded A rely guar done failed P' x' := by
  cases step with
  | @op _ _ _ i o k r next bound taken =>
    obtain ⟨y, moved, safe⟩ := guarded i
    rw [next] at safe
    obtain ⟨r', x', performed, allowed, later⟩ := safe x moved bound
    have same := taken.symm.trans performed
    simp only [Option.some.injEq, Prod.mk.injEq] at same
    obtain ⟨rfl, rfl⟩ := same
    refine ⟨x', rfl, ⟨i, allowed⟩, fun j => ?_⟩
    by_cases mine : j = i
    · subst mine
      rw [Function.update_self]
      exact ⟨x', compatible.refl j x', later⟩
    · obtain ⟨z, before, safe⟩ := guarded j
      rw [Function.update_of_ne mine]
      exact ⟨z, compatible.trans j z x x' before (compatible.moves i j x x' (Ne.symm mine) allowed), safe⟩

/-- In every order of the operations each program moves the state only as it
guarantees, and so each stays safe. -/
theorem Pool.Guarded.reaches (compatible : Compatible rely guar) (guarded : Guarded A rely guar done failed P x)
    (reaches : Reaches A.handler A.fits (P, A.view x) (P', s')) :
    ∃ x', A.view x' = s' ∧ Relation.ReflTransGen (fun y z => ∃ i, guar i y z) x x' ∧
      Guarded A rely guar done failed P' x' := by
  generalize last : (P', s') = final at reaches
  induction reaches generalizing P' s' with
  | refl =>
    cases last
    exact ⟨x, rfl, .refl, guarded⟩
  | @tail middle final before step ih =>
    subst last
    obtain ⟨Q, t⟩ := middle
    obtain ⟨y, rfl, moves, guarded'⟩ := ih rfl
    obtain ⟨x', shown, move, later⟩ := guarded'.step compatible step
    exact ⟨x', shown, moves.tail move, later⟩

end Pools

section Schedules
variable {S : Signature} {ε σ ι : Type} {α : ι → Type} [DecidableEq ι] {h : Handler S σ} {fits : S.Op → σ → Prop}
  [∀ o s, Decidable (fits o s)] {schedule : List ι} {i : ι}

/-- What the program returns, if it has nothing else to do. -/
def Prog.returned? {α : Type} : Prog S ε α → Option α
  | .ret a => some a
  | _ => none

theorem Prog.eq_ret_of_returned? {α : Type} {p : Prog S ε α} {a : α} (returned : p.returned? = some a) : p = .ret a := by
  cases p with
  | ret b => rw [Option.some.inj returned]
  | _ => cases returned

def Prog.failed? {α : Type} : Prog S ε α → Option ε
  | .fail e => some e
  | _ => none

theorem Prog.eq_fail_of_failed? {α : Type} {p : Prog S ε α} {e : ε} (failed : p.failed? = some e) : p = .fail e := by
  cases p with
  | fail other => rw [Option.some.inj failed]
  | _ => cases failed

/-- The program `i` carries out its next operation, where it can. -/
def Pool.turn (h : Handler S σ) (fits : S.Op → σ → Prop) [∀ o s, Decidable (fits o s)] (x : Pool S ε α × σ) (i : ι) :
    Pool S ε α × σ :=
  match x.1 i with
  | .op o k =>
    if fits o x.2 then
      match h o x.2 with
      | some (r, s') => (Function.update x.1 i (k r), s')
      | none => x
    else x
  | _ => x

/-- The programs take turns as the schedule says. -/
def Pool.follow (h : Handler S σ) (fits : S.Op → σ → Prop) [∀ o s, Decidable (fits o s)] (schedule : List ι)
    (x : Pool S ε α × σ) : Pool S ε α × σ := schedule.foldl (turn h fits) x

theorem Pool.reaches_turn (x : Pool S ε α × σ) (i : ι) : Reaches h fits x (turn h fits x i) := by
  obtain ⟨P, s⟩ := x
  unfold turn
  split
  · rename_i o k next
    split
    · rename_i bound
      split
      · rename_i r s' taken
        exact .single (.op next bound taken)
      · exact .refl
    · exact .refl
  · exact .refl

theorem Pool.reaches_follow (x : Pool S ε α × σ) : Reaches h fits x (follow h fits schedule x) := by
  induction schedule generalizing x with
  | nil => exact .refl
  | cons i later ih => exact (reaches_turn x i).trans (ih (turn h fits x i))

theorem Pool.turn_other (x : Pool S ε α × σ) {j : ι} (other : i ≠ j) : (turn h fits x j).1 i = x.1 i := by
  unfold turn
  split
  · split
    · split
      · exact Function.update_of_ne other _ _
      · rfl
    · rfl
  · rfl

theorem Pool.follow_other (absent : i ∉ schedule) (x : Pool S ε α × σ) : (follow h fits schedule x).1 i = x.1 i := by
  induction schedule generalizing x with
  | nil => rfl
  | cons j later ih =>
    rw [List.mem_cons, not_or] at absent
    exact (ih absent.2 (turn h fits x j)).trans (turn_other x absent.1)

end Schedules

end Effects
