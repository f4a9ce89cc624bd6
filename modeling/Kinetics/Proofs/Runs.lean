import Kinetics.Proofs.Outcome
import Kinetics.Workspace.Job
import Mathlib
/-!
# Computations with a state

Draws from a random source, searches for an order and jobs on a folder give a result or a fault, and
leave a state in both cases. The lemmas on `runFrom` and `Job.start` take one construct apart;
`Gives` says what every result satisfies, whatever the state was.
-/

open List

namespace Kinetics

variable {σ β γ : Type}

/-- What a computation gives that starts in a state, and the state that it leaves. -/
def runFrom (x : ExceptT Fault (StateM σ) β) (s : σ) : Except Fault β × σ := StateT.run (ExceptT.run x) s

variable {c : γ} {b : β}

section Runs
variable {x : ExceptT Fault (StateM σ) β} {f : β → ExceptT Fault (StateM σ) γ} {s s' : σ}

lemma runFrom_lift (e : Except Fault β) (s : σ) : runFrom (liftM e : ExceptT Fault (StateM σ) β) s = (e, s) := rfl

lemma runFrom_bind_of_ok (h : runFrom x s = (.ok b, s')) : runFrom (x >>= f) s = runFrom (f b) s' := by
  unfold runFrom at h ⊢
  rw [ExceptT.run_bind, StateT.run_bind, h]
  rfl

lemma runFrom_bind_of_error {e : Fault} (h : runFrom x s = (.error e, s')) :
    runFrom (x >>= f) s = (.error e, s') := by
  unfold runFrom at h ⊢
  rw [ExceptT.run_bind, StateT.run_bind, h]
  rfl

lemma runFrom_bind_eq_ok : runFrom (x >>= f) s = (.ok c, s') ↔
    ∃ b s₁, runFrom x s = (.ok b, s₁) ∧ runFrom (f b) s₁ = (.ok c, s') := by
  rcases h : runFrom x s with ⟨b | b, s₁⟩
  · simp [runFrom_bind_of_error h]
  · rw [runFrom_bind_of_ok h]
    constructor
    · intro hc
      exact ⟨b, s₁, rfl, hc⟩
    · rintro ⟨_, _, ⟨⟩, hc⟩
      exact hc

end Runs

/-! ## What every result satisfies -/

/-- Every result, if there is one, has a property, whatever the state was at the start. -/
def Gives (P : β → Prop) (x : ExceptT Fault (StateM σ) β) : Prop := ∀ s b s', runFrom x s = (.ok b, s') → P b

variable {g : β → PUnit → ExceptT Fault (StateM σ) (ForInStep PUnit)} {xs : List β} {e : Except Fault γ}

section Gives
variable {P : γ → Prop} {Q : β → Prop} {x : ExceptT Fault (StateM σ) β} {f : β → ExceptT Fault (StateM σ) γ}

lemma gives_pure (h : P c) : Gives P (pure c : ExceptT Fault (StateM σ) γ) := by
  rintro s b s' ⟨⟩
  exact h

lemma gives_throw (e : Fault) : Gives P (throw e : ExceptT Fault (StateM σ) γ) := by
  rintro s b s' ⟨⟩

lemma gives_lift (h : Yields P e) : Gives P (liftM e : ExceptT Fault (StateM σ) γ) := by
  intro s c s' hc
  exact h c (Prod.mk.inj hc).1

lemma Gives.imp {R : β → Prop} (hx : Gives Q x) (hR : ∀ b, Q b → R b) : Gives R x := by
  intro s b s' hb
  exact hR b (hx s b s' hb)

lemma Gives.bind (hx : Gives Q x) (hf : ∀ b, Q b → Gives P (f b)) : Gives P (x >>= f) := by
  intro s c s' hc
  obtain ⟨b, s₁, hb, hfb⟩ := runFrom_bind_eq_ok.1 hc
  exact hf b (hx s b s₁ hb) s₁ c s' hfb

lemma gives_bind (hf : ∀ b, Gives P (f b)) : Gives P (x >>= f) := by
  intro s c s' hc
  obtain ⟨b, s₁, -, hfb⟩ := runFrom_bind_eq_ok.1 hc
  exact hf b s₁ c s' hfb

lemma gives_mapM (h : ∀ x ∈ xs, Gives P (f x)) : Gives (fun ys => ∀ y ∈ ys, P y) (xs.mapM f) := by
  induction xs with
  | nil => exact gives_pure (by simp)
  | cons x xs ih =>
    rw [forall_mem_cons] at h
    rw [mapM_cons]
    refine h.1.bind fun y hy => (ih h.2).bind fun ys hys => gives_pure ?_
    exact forall_mem_cons.2 ⟨hy, hys⟩

end Gives

/-! ## Results and faults -/

/-- There is a result with a property, whatever the state was at the start. -/
def Returns (P : β → Prop) (x : ExceptT Fault (StateM σ) β) : Prop := ∀ s, ∃ b s', runFrom x s = (.ok b, s') ∧ P b

/-- From a state with `pre`, a result comes with `post`. A fault leaves such a state again, and shows `fault`. -/
def Ends (pre : σ → Prop) (x : ExceptT Fault (StateM σ) β) (post : β → σ → Prop) (fault : Prop) : Prop :=
  ∀ s, pre s → (∀ b s', runFrom x s = (.ok b, s') → post b s') ∧ ∀ e s', runFrom x s = (.error e, s') → pre s' ∧ fault

/-- What is known of the state stays so, and a result has a property. -/
def Meets (pre : σ → Prop) (P : β → Prop) (fault : Prop) (x : ExceptT Fault (StateM σ) β) : Prop :=
  Ends pre x (fun b s => pre s ∧ P b) fault

section Ends
variable {pre : σ → Prop} {fault stop : Prop} {P : γ → Prop} {Q R : β → Prop} {post : γ → σ → Prop}
  {x : ExceptT Fault (StateM σ) β} {f : β → ExceptT Fault (StateM σ) γ}

lemma ends_pure (h : ∀ s, pre s → post c s) : Ends pre (pure c : ExceptT Fault (StateM σ) γ) post fault := by
  intro s hs
  constructor
  · rintro b s' ⟨⟩
    exact h s hs
  · rintro e s' ⟨⟩

lemma meets_pure (h : P c) : Meets pre P fault (pure c : ExceptT Fault (StateM σ) γ) := ends_pure fun _ hs => ⟨hs, h⟩

lemma meets_throw (e : Fault) (h : fault) : Meets pre P fault (throw e : ExceptT Fault (StateM σ) γ) := by
  intro s hs
  constructor
  · rintro b s' ⟨⟩
  · rintro e s' ⟨⟩
    exact ⟨hs, h⟩

/-- A fault of a step that has a result under some condition shows that the condition does not hold. -/
lemma meets_lift {A : Prop} (h : A → ∃ c, e = .ok c) :
    Meets pre (e = .ok ·) (¬A) (liftM e : ExceptT Fault (StateM σ) γ) := by
  intro s hs
  constructor
  · intro c s' hc
    rw [runFrom_lift, Prod.mk.injEq] at hc
    obtain ⟨hc, rfl⟩ := hc
    exact ⟨hs, hc⟩
  · intro f s' hf
    rw [runFrom_lift, Prod.mk.injEq] at hf
    obtain ⟨hf, rfl⟩ := hf
    refine ⟨hs, fun ha => ?_⟩
    obtain ⟨c, hc⟩ := h ha
    cases hf.symm.trans hc

lemma meets_get : Meets pre pre fault (get : ExceptT Fault (StateM σ) σ) := by
  intro s hs
  constructor
  · rintro b s' ⟨⟩
    exact ⟨hs, hs⟩
  · rintro e s' ⟨⟩

lemma Ends.imp {x : ExceptT Fault (StateM σ) γ} {post' : γ → σ → Prop} (hx : Ends pre x post stop)
    (hp : ∀ c s, post c s → post' c s) (hs : stop → fault) : Ends pre x post' fault := by
  intro s h
  obtain ⟨hr, hf⟩ := hx s h
  exact ⟨fun c s' hc => hp c s' (hr c s' hc), fun e s' he => (hf e s' he).imp_right hs⟩

lemma Meets.imp (hx : Meets pre Q stop x) (hR : ∀ b, Q b → R b) (hs : stop → fault) : Meets pre R fault x :=
  Ends.imp hx (fun b _ h => h.imp_right (hR b)) hs

lemma Meets.bind (hx : Meets pre Q stop x) (hs : stop → fault) (hf : ∀ b, Q b → Ends pre (f b) post fault) :
    Ends pre (x >>= f) post fault := by
  intro s hp
  rcases h : runFrom x s with ⟨e | b, s₁⟩
  · rw [runFrom_bind_of_error h]
    constructor
    · rintro c s' ⟨⟩
    · rintro e' s' ⟨⟩
      exact ((hx s hp).2 e s₁ h).imp_right hs
  · rw [runFrom_bind_of_ok h]
    obtain ⟨hp, hb⟩ := (hx s hp).1 b s₁ h
    exact hf b hb s₁ hp

lemma ends_lift_bind {e : Except Fault β} (h : e = .ok b) (hf : Ends pre (f b) post fault) :
    Ends pre (liftM e >>= f) post fault := by
  subst h
  intro s hs
  rw [runFrom_bind_of_ok (runFrom_lift _ s)]
  exact hf s hs

lemma Meets.returns (hx : Meets (fun _ => True) Q False x) : Returns Q x := by
  intro s
  rcases h : runFrom x s with ⟨e | b, s₁⟩
  · exact ((hx s trivial).2 e s₁ h).2.elim
  · exact ⟨b, s₁, rfl, ((hx s trivial).1 b s₁ h).2⟩

lemma meets_mapM (h : ∀ x ∈ xs, Meets pre (fun y => Q x ∧ P y) fault (f x)) :
    Meets pre (fun ys => (∀ x ∈ xs, Q x) ∧ ys.length = xs.length ∧ ∀ y ∈ ys, P y) fault (xs.mapM f) := by
  induction xs with
  | nil => exact meets_pure (by simp)
  | cons x xs ih =>
    rw [forall_mem_cons] at h
    rw [mapM_cons]
    refine h.1.bind id fun y hy => (ih h.2).bind id fun ys hys => meets_pure ⟨?_, by simp [hys.2.1], ?_⟩
    · exact forall_mem_cons.2 ⟨hy.1, hys.1⟩
    · exact forall_mem_cons.2 ⟨hy.2, hys.2.2⟩

/-- A loop that does not stop early has run its body for every member. -/
lemma meets_forIn (h : ∀ x ∈ xs, Meets pre (fun step => step = .yield ⟨⟩ ∧ Q x) fault (g x ⟨⟩)) :
    Meets pre (fun _ => ∀ x ∈ xs, Q x) fault (forIn xs PUnit.unit g) := by
  induction xs with
  | nil => exact meets_pure (by simp)
  | cons x xs ih =>
    rw [forall_mem_cons] at h
    rw [forIn_cons]
    refine h.1.bind id fun step hs => ?_
    obtain ⟨rfl, hx⟩ := hs
    exact (ih h.2).imp (fun _ hxs => forall_mem_cons.2 ⟨hx, hxs⟩) id

end Ends

/-! ## Jobs -/

namespace Workspace.Job

variable {j : Job β} {f : β → Job γ} {h : Host} {s s' : State}

lemma start_lift (e : Except Fault β) (h : Host) (s : State) : (liftM e : Job β).start h s = (e, s) := rfl

lemma start_bind_of_ok (hj : j.start h s = (.ok b, s')) : (j >>= f).start h s = (f b).start h s' :=
  runFrom_bind_of_ok hj

lemma start_bind_of_error {e : Fault} (hj : j.start h s = (.error e, s')) : (j >>= f).start h s = (.error e, s') :=
  runFrom_bind_of_error hj

end Workspace.Job

end Kinetics
