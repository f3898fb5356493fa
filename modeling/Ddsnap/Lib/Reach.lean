import Mathlib.Logic.Relation

/-!
# Runs of a partial step function

The states that a partial step function reaches from given initial states, when every step meets a side condition,
and the rule that proves an invariant of all of them from one step.
-/

namespace Reach

variable {σ κ : Type*}

/-- The states reached from `init` by steps that meet `ok`. -/
inductive Run (step : σ → κ → Option σ) (ok : σ → κ → Prop) (init : σ → Prop) : σ → Prop where
  | start {s : σ} : init s → Run step ok init s
  | step {s s' : σ} {c : κ} : Run step ok init s → ok s c → step s c = some s' → Run step ok init s'

variable {step : σ → κ → Option σ} {ok : σ → κ → Prop} {init : σ → Prop} {s : σ}

/-- What holds initially and is kept by every step holds in every state reached. -/
theorem Run.invariant {I : σ → Prop} (h : Run step ok init s) (h0 : ∀ s, init s → I s)
    (hs : ∀ s c s', I s → ok s c → step s c = some s' → I s') : I s := by
  induction h with
  | start hi => exact h0 _ hi
  | step _ hok hst ih => exact hs _ _ _ ih hok hst

/-- The calls of a list are carried out in order, as long as they meet `ok`. -/
def exec (step : σ → κ → Option σ) (ok : σ → κ → Prop) [∀ s c, Decidable (ok s c)] : σ → List κ → Option σ
  | s, [] => some s
  | s, c :: cs => if ok s c then (step s c).bind fun s' => exec step ok s' cs else none

/-- A list of calls is a run. -/
theorem Run.of_exec [∀ s c, Decidable (ok s c)] {s' : σ} (h : Run step ok init s) (cs : List κ)
    (he : exec step ok s cs = some s') : Run step ok init s' := by
  induction cs generalizing s with
  | nil => simp only [exec, Option.some.injEq] at he; exact he ▸ h
  | cons c cs ih =>
    simp only [exec] at he
    split at he
    · rename_i hok
      obtain ⟨s1, h1, h2⟩ := Option.bind_eq_some_iff.1 he
      exact ih (.step h hok h1) h2
    · cases he

/-- The state after a list of calls, or the first state if one of them fails. -/
theorem Run.exec_getD [∀ s c, Decidable (ok s c)] (h : Run step ok init s) (cs : List κ) :
    Run step ok init ((exec step ok s cs).getD s) := by
  cases he : exec step ok s cs with
  | none => exact h
  | some s' => exact h.of_exec cs he

end Reach
