import Kinetics.Proofs.Runs
/-!
# Readers step by step

A reader started in a session gives a result or a fault, and leaves a session in both cases. The
lemmas on `Reader.start` take one construct apart, so that no later proof opens the monad.
-/

open List

namespace Kinetics.Reading

variable {β γ : Type} {r : Reader β} {f : β → Reader γ} {s s' : Session}

namespace Reader

lemma start_get (s : Session) : (get : Reader Session).start s = (.ok s, s) := rfl

lemma start_bind_of_ok {a : β} (h : r.start s = (.ok a, s')) : (r >>= f).start s = (f a).start s' :=
  runFrom_bind_of_ok h

lemma start_bind_of_error {e : Fault} (h : r.start s = (.error e, s')) : (r >>= f).start s = (.error e, s') :=
  runFrom_bind_of_error h

lemma start_bind_eq_ok {b : γ} :
    (r >>= f).start s = (.ok b, s') ↔ ∃ a s₁, r.start s = (.ok a, s₁) ∧ (f a).start s₁ = (.ok b, s') :=
  runFrom_bind_eq_ok

lemma exists_of_seen {c : γ} {f : β → γ} {s : Session}
    (h : (r.start s).1.toOption.map f = some c) : ∃ a s', r.start s = (.ok a, s') ∧ f a = c := by
  rcases hr : r.start s with ⟨e | a, s'⟩
  · rw [hr] at h
    cases h
  · rw [hr] at h
    exact ⟨a, s', rfl, Option.some.inj h⟩

end Reader

variable {xs : List β}

lemma gives_quit {P : γ → Prop} (text : String) (status : Int) : Gives P (quit text status : Reader γ) := gives_throw _

lemma gives_foldlM {P : γ → Prop} {c : γ} {g : γ → β → Reader γ} (xs : List β)
    (hg : ∀ x ∈ xs, ∀ c, P c → Gives P (g c x)) (hc : P c) : Gives P (xs.foldlM g c) := by
  induction xs generalizing c with
  | nil => exact gives_pure hc
  | cons x xs ih =>
    exact (hg x mem_cons_self c hc).bind fun _ hc' => ih (fun y hy => hg y (mem_cons_of_mem _ hy)) hc'

lemma gives_forM {A : β → Prop} {g : β → Reader Unit}
    (h : ∀ x ∈ xs, Gives (fun _ => A x) (g x)) : Gives (fun _ => ∀ x ∈ xs, A x) (xs.forM g) := by
  induction xs with
  | nil => exact gives_pure (by simp)
  | cons x xs ih =>
    refine (h x mem_cons_self).bind fun _ hx => ?_
    refine (ih fun z hz => h z (mem_cons_of_mem _ hz)).imp fun _ hxs => ?_
    exact forall_mem_cons.2 ⟨hx, hxs⟩

end Kinetics.Reading
