import LumoDB.Lib.Program

namespace Effects

section CutOff
variable {S : Signature} {ε α β σ : Type} (h : Handler S σ) (part : S.Op → σ → σ → Prop)

/-- A run of `p` on the machine `h` can be cut off in state `t`: before or
after an operation, or inside one at a state `part` gives for it. -/
abbrev CutOff (p : Prog S ε α) (s t : σ) : Prop := Stops h.steps part p s t

/-- Operations that change nothing and have no inside. -/
structure Silent (good : S.Op → Prop) : Prop where
  same : ∀ o s r s', good o → h o s = some (r, s') → s' = s
  whole : ∀ o s t, good o → ¬ part o s t

/-- A cut finds the program not begun or complete. -/
def Indivisible (p : Prog S ε α) : Prop := ∀ s t, CutOff h part p s t → t = s ∨ (run h p s).state? = some t

variable {h part} {p q : Prog S ε α} {f : α → Prog S ε β} {s s' t : σ} {a : α} {o : S.Op} {good : S.Op → Prop}

/-- A cut of a sequence falls into its first part or into the rest. -/
theorem cutOff_bind (cut : CutOff h part (p.bind f) s t) :
    CutOff h part p s t ∨ ∃ a s', run h p s = .ok a s' ∧ CutOff h part (f a) s' t := by
  rcases stops_bind cut with first | ⟨a, s', done, later⟩
  · exact Or.inl first
  · exact Or.inr ⟨a, s', p.only_true.run_of_finishes (fun _ _ _ _ _ step => step) done, later⟩

/-- After a first part that returns, the rest. -/
theorem cutOff_after (cut : CutOff h part (p.bind f) s t) (runs : run h p s = .ok a s') :
    CutOff h part p s t ∨ CutOff h part (f a) s' t := by
  refine (cutOff_bind cut).imp_right ?_
  rintro ⟨b, s₁, done, later⟩
  have same := runs.symm.trans done
  simp only [Outcome.ok.injEq] at same
  obtain ⟨rfl, rfl⟩ := same
  exact later

/-- A run can be cut off where it returns. -/
theorem cutOff_end (runs : run h p s = .ok a s') : CutOff h part p s s' := by
  rw [← Prog.bind_ret p]
  exact stops_bind_right (fun _ _ _ _ => id) runs rfl

/-- A cut of a handled program falls into it or into the handler of its
error. -/
theorem cutOff_orElse {handle : ε → Prog S ε α} (cut : CutOff h part (p.orElse handle) s t) :
    CutOff h part p s t ∨ ∃ e s', run h p s = .error e s' ∧ CutOff h part (handle e) s' t := by
  induction p generalizing s with
  | fail e => exact Or.inr ⟨e, s, rfl, cut⟩
  | op o k ih =>
    rcases cut with here | inside | ⟨r, s', taken, later⟩
    · exact Or.inl (Or.inl here)
    · exact Or.inl (Or.inr (Or.inl inside))
    · rcases ih r later with first | ⟨e, s'', failed, rest⟩
      · exact Or.inl (Or.inr (Or.inr ⟨r, s', taken, first⟩))
      · exact Or.inr ⟨e, s'', by rw [run_op_of h taken]; exact failed, rest⟩
  | _ => exact Or.inl cut

theorem cutOff_idle (idle : p.Only fun _ => False) (cut : CutOff h part p s t) : t = s := by
  cases p with
  | op o k => exact idle.1.elim
  | _ => exact cut

theorem Silent.unchanged (silent : Silent h part good) (only : p.Only good) (ended : (run h p s).state? = some s') : s' = s :=
  only.preserves (R := fun s t => t = s) (fun _ => rfl) (fun _ _ _ first second => second.trans first) silent.same ended

theorem Silent.cutOff (silent : Silent h part good) (only : p.Only good) (cut : CutOff h part p s t) : t = s :=
  only.stops (R := fun s t => t = s) (fun _ => rfl) (fun _ _ _ first second => second.trans first) silent.same
    (fun o s t fine inside => absurd inside (silent.whole o s t fine)) cut

theorem indivisible_ret (a : α) : Indivisible h part (.ret a : Prog S ε α) := fun _ _ cut => Or.inl cut

theorem indivisible_fail (e : ε) : Indivisible h part (.fail e : Prog S ε α) := fun _ _ cut => Or.inl cut

/-- One operation without an inside, whatever is made of its answer. -/
theorem indivisible_op {k : S.Resp o → Prog S ε α} (whole : ∀ s t, ¬ part o s t) (idle : ∀ r, (k r).Only fun _ => False)
    (returns : ∀ r s, (run h (k r) s).state? = some s) : Indivisible h part (.op o k) := by
  rintro s t (rfl | inside | ⟨r, s', step, later⟩)
  · exact Or.inl rfl
  · exact absurd inside (whole s t)
  · obtain rfl := cutOff_idle (idle r) later
    rw [run_op_of h step]
    exact Or.inr (returns r _)

theorem indivisible_perform (whole : ∀ s t, ¬ part o s t) : Indivisible h part (.perform o : Prog S ε _) :=
  indivisible_op whole (fun _ => trivial) fun _ _ => rfl

theorem Indivisible.ite {c : Prop} [Decidable c] (yes : Indivisible h part p) (no : Indivisible h part q) :
    Indivisible h part (if c then p else q) := by
  split
  · exact yes
  · exact no

/-- Silent operations before it keep a program indivisible. -/
theorem Indivisible.after (silent : Silent h part good) (reads : p.Only good) (rest : ∀ a, Indivisible h part (f a)) :
    Indivisible h part (p.bind f) := by
  intro s t cut
  rcases cutOff_bind cut with first | ⟨a, s', runs, later⟩
  · exact Or.inl (silent.cutOff reads first)
  · obtain rfl := silent.unchanged reads (by rw [runs]; rfl)
    rw [run_bind_ok h runs]
    exact rest a _ _ later

/-- A cut of the last part of a sequence finds it not begun or complete. -/
theorem Indivisible.last (whole : Indivisible h part p) (cut : CutOff h part p s t) (runs : run h p s = .ok a s') :
    t = s ∨ t = s' := by
  rcases whole s t cut with same | ended
  · exact Or.inl same
  · rw [runs, Outcome.state?, Option.some.injEq] at ended
    exact Or.inr ended.symm

/-- A cut of a sequence finds its indivisible first part not begun, or falls
into the rest. -/
theorem Indivisible.cutOff (first : Indivisible h part p) (cut : CutOff h part (p.bind f) s t) (runs : run h p s = .ok a s') :
    t = s ∨ CutOff h part (f a) s' t := by
  rcases cutOff_after cut runs with early | later
  · rcases first.last early runs with same | rfl
    · exact Or.inl same
    · exact Or.inr (stops_start _ _)
  · exact Or.inr later

/-- The state after `count` operations of a run. -/
def cutAfter (h : Handler S σ) : Nat → Prog S ε α → σ → σ
  | count + 1, .op o k, s => match h o s with
    | some (r, s') => cutAfter h count (k r) s'
    | none => s
  | _, _, s => s

theorem cutAfter_cutOff (count : Nat) (p : Prog S ε α) (s : σ) : CutOff h part p s (cutAfter h count p s) := by
  induction count generalizing p s with
  | zero =>
    rw [cutAfter]
    · exact stops_start p s
    · exact fun _ _ => nofun
  | succ count ih =>
    cases p with
    | op o k =>
      rw [cutAfter]
      cases step : h o s with
      | none => exact Or.inl rfl
      | some out => exact Or.inr (Or.inr ⟨out.1, out.2, step, ih _ _⟩)
    | _ => exact rfl

end CutOff

end Effects
