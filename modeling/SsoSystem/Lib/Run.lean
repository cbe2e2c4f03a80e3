/-
SsoSystem.Lib.Run — runs of a system and the rule of invariants.

A system is a step function from a state and an event to the next state, or
to nothing when the system does not survive the event. A run feeds it a list
of events. `Along` says that every step of a run meets a condition on the
event and the state it meets; under such a condition an invariant of the
single steps is an invariant of the run (`invariant_of_run`).
-/
import Mathlib.Data.List.Basic
import Mathlib.Logic.Function.Basic

namespace SsoSystem.Run

open List Option

variable {σ ε : Type} (step : σ → ε → Option σ)

/-- The state after these events; `none` when one of them was not survived. -/
def run : List ε → σ → Option σ
  | [], s => some s
  | e :: es, s => (step s e).bind (run es)

/-- Every step of the run meets the condition, in the state before it. -/
def Along (cond : σ → ε → Prop) : List ε → σ → Prop
  | [], _ => True
  | e :: es, s => cond s e ∧ ∀ s', step s e = some s' → Along cond es s'

variable {step}

theorem run_append (es fs : List ε) (s : σ) :
    run step (es ++ fs) s = (run step es s).bind (run step fs) := by
  induction es generalizing s with
  | nil => rfl
  | cons e es ih =>
    simp only [cons_append, run]
    cases step s e with
    | none => rfl
    | some s' => exact ih s'

variable {c d cond : σ → ε → Prop} {es : List ε} {s s' : σ} {Inv : σ → Prop}

theorem Along.and (hc : Along step c es s)
    (hd : Along step d es s) : Along step (fun s e => c s e ∧ d s e) es s := by
  induction es generalizing s with
  | nil => trivial
  | cons e es ih => exact ⟨⟨hc.1, hd.1⟩, fun s' hs => ih (hc.2 s' hs) (hd.2 s' hs)⟩

theorem Along.mono (hcd : ∀ s e, c s e → d s e) (hc : Along step c es s) : Along step d es s := by
  induction es generalizing s with
  | nil => trivial
  | cons e es ih => exact ⟨hcd s e hc.1, fun s' hs => ih (hc.2 s' hs)⟩

theorem Along.cons {e : ε} (hc : c s e)
    (hs : step s e = some s') (hrest : Along step c es s') : Along step c (e :: es) s := by
  refine ⟨hc, fun t ht => ?_⟩
  rw [hs] at ht
  cases ht
  exact hrest

/-- A condition on the events alone holds along every run of such events. -/
theorem along_of_forall {c : ε → Prop} (hc : ∀ e ∈ es, c e) (s : σ) :
    Along step (fun _ e => c e) es s := by
  induction es generalizing s with
  | nil => trivial
  | cons e es ih =>
    exact ⟨hc e mem_cons_self, fun s' _ => ih (fun f hf => hc f (mem_cons_of_mem e hf)) s'⟩

/-- A condition that can be decided can be decided along a run. -/
instance Along.decidable {c : σ → ε → Prop} [∀ s e, Decidable (c s e)] :
    (es : List ε) → (s : σ) → Decidable (Along step c es s)
  | [], _ => .isTrue trivial
  | e :: es, s =>
    match hs : step s e with
    | none => decidable_of_iff (c s e) (by simp [Along, hs])
    | some s' =>
      have : Decidable (Along step c es s') := Along.decidable es s'
      decidable_of_iff (c s e ∧ Along step c es s') (by simp [Along, hs])

theorem Along.append {es fs : List ε} (hes : Along step c es s)
    (hfs : ∀ s', run step es s = some s' → Along step c fs s') : Along step c (es ++ fs) s := by
  induction es generalizing s with
  | nil => exact hfs s rfl
  | cons e es ih =>
    refine ⟨hes.1, fun t ht => ih (hes.2 t ht) fun s' hs' => hfs s' ?_⟩
    rw [run, ht]
    exact hs'

/-- What one step preserves, a run preserves. -/
theorem invariant_of_run (hstep : ∀ s e s', Inv s → cond s e → step s e = some s' → Inv s')
    (hinv : Inv s) (hcond : Along step cond es s) (hrun : run step es s = some s') : Inv s' := by
  induction es generalizing s with
  | nil =>
    cases hrun
    exact hinv
  | cons e es ih =>
    rw [run] at hrun
    obtain ⟨t, ht, hrest⟩ := bind_eq_some_iff.mp hrun
    exact ih (hstep s e t hinv hcond.1 ht) (hcond.2 t ht) hrest

/-- Two conditions that agree wherever an invariant holds agree along a run, if the steps that
meet them keep the invariant. -/
theorem along_iff_along (Inv : σ → Prop) {dom c d : σ → ε → Prop}
    (hiff : ∀ s e, Inv s → dom s e → (c s e ↔ d s e))
    (hstep : ∀ s e s', Inv s → dom s e → c s e → step s e = some s' → Inv s')
    (hinv : Inv s) (hdom : Along step dom es s) : Along step c es s ↔ Along step d es s := by
  induction es generalizing s with
  | nil => exact Iff.rfl
  | cons e es ih =>
    constructor
    · intro hc
      refine ⟨(hiff s e hinv hdom.1).mp hc.1, fun s' hs' => ?_⟩
      exact (ih (hstep s e s' hinv hdom.1 hc.1 hs') (hdom.2 s' hs')).mp (hc.2 s' hs')
    · intro hd
      have hc := (hiff s e hinv hdom.1).mpr hd.1
      refine ⟨hc, fun s' hs' => ?_⟩
      exact (ih (hstep s e s' hinv hdom.1 hc hs') (hdom.2 s' hs')).mpr (hd.2 s' hs')

theorem along_congr (Inv : σ → Prop) (hiff : ∀ s e, Inv s → (c s e ↔ d s e))
    (hstep : ∀ s e s', Inv s → c s e → step s e = some s' → Inv s')
    (hinv : Inv s) : Along step c es s ↔ Along step d es s := by
  have htrue : Along step (fun _ _ => True) es s := along_of_forall (fun _ _ => trivial) s
  exact along_iff_along Inv (fun s e hs _ => hiff s e hs) (fun s e s' hs _ => hstep s e s' hs) hinv
    htrue

/-- Where a step keeps a property exactly if it meets a condition, the property holds in every
state a run goes through exactly if the condition holds along the run. -/
theorem forall_reached_iff_along {Inv P : σ → Prop}
    (hsome : ∀ s e, (step s e).isSome) (hinv : ∀ s e s', Inv s → step s e = some s' → Inv s')
    (hiff : ∀ s e s', Inv s → P s → step s e = some s' → (P s' ↔ cond s e))
    (hs : Inv s) (hP : P s) :
    (∀ before after s', es = before ++ after → run step before s = some s' → P s') ↔
      Along step cond es s := by
  induction es generalizing s with
  | nil =>
    refine iff_of_true (fun before after s' heq hrun => ?_) trivial
    obtain ⟨rfl, -⟩ := append_eq_nil_iff.mp heq.symm
    cases hrun
    exact hP
  | cons e es ih =>
    obtain ⟨t, ht⟩ := isSome_iff_exists.mp (hsome s e)
    constructor
    · intro h
      have hPt : P t := h [e] es t rfl (by rw [run, ht]; rfl)
      refine Along.cons ((hiff s e t hs hP ht).mp hPt) ht
        ((ih (hinv s e t hs ht) hPt).mp fun before after s' heq hrun => ?_)
      exact h (e :: before) after s' (by rw [heq]; rfl) (by rw [run, ht]; exact hrun)
    · rintro ⟨hcond, hrest⟩ before after s' heq hrun
      cases before with
      | nil =>
        cases hrun
        exact hP
      | cons e' before =>
        obtain ⟨rfl, heq'⟩ := cons.inj heq
        rw [run, ht] at hrun
        have hPt := (hiff s e t hs hP ht).mpr hcond
        exact (ih (hinv s e t hs ht) hPt).mpr (hrest t ht) before after s' heq' hrun

theorem invariant_of_steps (hstep : ∀ s e s', Inv s → step s e = some s' → Inv s')
    (hinv : Inv s) (hrun : run step es s = some s') : Inv s' := by
  have htrue : Along step (fun _ _ => True) es s := along_of_forall (fun _ _ => trivial) s
  exact invariant_of_run (fun s e s' hs _ => hstep s e s' hs) hinv htrue hrun

/-- A run and the run of some of its events: if these events take related states to related
states, and the others leave the relation, the shorter run exists and ends in a related
state. -/
theorem simulation_of_filter {τ : Type} {step' : τ → ε → Option τ} {R : σ → τ → Prop}
    {keep : ε → Bool} (hkeep : ∀ s t e s', R s t → cond s e → step s e = some s' → keep e = true →
      ∃ t', step' t e = some t' ∧ R s' t')
    (hskip : ∀ s t e s', R s t → cond s e → step s e = some s' → keep e = false → R s' t)
    {t : τ} (hrel : R s t) (hcond : Along step cond es s) (hrun : run step es s = some s') :
    ∃ t', run step' (es.filter keep) t = some t' ∧ R s' t' := by
  induction es generalizing s t with
  | nil =>
    cases hrun
    exact ⟨t, rfl, hrel⟩
  | cons e es ih =>
    rw [run] at hrun
    obtain ⟨u, hu, hrest⟩ := bind_eq_some_iff.mp hrun
    cases hk : keep e with
    | true =>
      obtain ⟨t₁, ht₁, hrel₁⟩ := hkeep s t e u hrel hcond.1 hu hk
      obtain ⟨t', ht', hrel'⟩ := ih hrel₁ (hcond.2 u hu) hrest
      refine ⟨t', ?_, hrel'⟩
      rw [filter_cons_of_pos hk, run, ht₁]
      exact ht'
    | false =>
      rw [filter_cons_of_neg (by simp [hk])]
      exact ih (hskip s t e u hrel hcond.1 hu hk) (hcond.2 u hu) hrest

/-- What holds of the entries of a table holds after one was written, if it holds of that one. -/
theorem forall_update_some {κ : Type} [DecidableEq κ] {f : κ → Option σ} {k : κ} {o : Option σ}
    {P : κ → σ → Prop} (hnew : ∀ a, o = some a → P k a) (hold : ∀ i a, f i = some a → P i a) :
    ∀ i a, Function.update f k o i = some a → P i a :=
  (Function.forall_update_iff f fun i o => ∀ a, o = some a → P i a).mpr ⟨hnew, fun i _ => hold i⟩

/-- An entry after one was set is the new one, or an old one elsewhere. -/
theorem update_eq_some {κ : Type} [DecidableEq κ] {f : κ → Option σ} {k i : κ} {o : Option σ}
    {a : σ}
    (h : Function.update f k o i = some a) : i = k ∧ o = some a ∨ i ≠ k ∧ f i = some a := by
  by_cases hi : i = k
  · subst hi
    exact .inl ⟨rfl, by simpa using h⟩
  · exact .inr ⟨hi, by simpa [hi] using h⟩

/-- What a computed result can be seen to have, it has. -/
theorem exists_some_of_any {o : Option σ} {P Q : σ → Prop} [DecidablePred P]
    (hany : o.any (fun a => decide (P a)) = true) (himp : ∀ a, o = some a → P a → Q a) :
    ∃ a, o = some a ∧ Q a := by
  cases o with
  | none => cases hany
  | some a => exact ⟨a, rfl, himp a rfl (of_decide_eq_true hany)⟩

end SsoSystem.Run
