import Kinetics.Mechanism.Reaction
import Mathlib.Data.List.Forall2
/-!
# Computations that can stop

What a computation did when it gave a result, step by step: each lemma takes one
construct apart, so that no proof has to open the monad.
-/

open List

namespace Kinetics

variable {ε α β γ : Type}

variable {b : β} {f : α → Except ε β}

lemma bind_eq_ok {x : Except ε α} : x >>= f = .ok b ↔ ∃ a, x = .ok a ∧ f a = .ok b := by
  cases x <;> simp [bind, Except.bind]

@[simp] lemma ok_bind (a : α) (f : α → Except ε β) : (Except.ok a >>= f) = f a := rfl

@[simp] lemma pure_eq_ok {a b : α} : (pure a : Except ε α) = .ok b ↔ a = b := by
  simp [pure, Except.pure]

lemma pure_ok (a : α) : (pure a : Except ε α) = .ok a := rfl

lemma exists_bind_ok {x : Except ε α} (hx : ∃ a, x = .ok a) (hf : ∀ a, ∃ b, f a = .ok b) : ∃ b, (x >>= f) = .ok b := by
  obtain ⟨a, rfl⟩ := hx
  exact hf a

lemma exists_bind_ok_of {P : α → Prop} {x : Except ε α} (hx : ∃ a, x = .ok a ∧ P a)
    (hf : ∀ a, P a → ∃ b, f a = .ok b) : ∃ b, (x >>= f) = .ok b := by
  obtain ⟨a, rfl, ha⟩ := hx
  exact hf a ha

variable {xs : List α} {ys : List β}

lemma mapM_eq_ok : xs.mapM f = .ok ys ↔ List.Forall₂ (fun x y => f x = .ok y) xs ys := by
  induction xs generalizing ys with
  | nil => cases ys <;> simp
  | cons x xs ih =>
    simp only [mapM_cons, bind_eq_ok, pure_eq_ok, ih]
    constructor
    · rintro ⟨y, hy, ys, hys, rfl⟩
      exact .cons hy hys
    · intro h
      cases h with
      | cons hy hys => exact ⟨_, hy, _, hys, rfl⟩

/-- A map whose steps all give results that are related to what they start from. -/
lemma mapM_ok_rel {R : α → β → Prop} (h : ∀ x ∈ xs, ∃ y, f x = .ok y ∧ R x y) : ∃ ys, xs.mapM f = .ok ys ∧ List.Forall₂ R xs ys := by
  induction xs with
  | nil => exact ⟨[], rfl, .nil⟩
  | cons x xs ih =>
    obtain ⟨y, hy, hxy⟩ := h x mem_cons_self
    obtain ⟨ys, hys, hr⟩ := ih fun z hz => h z (mem_cons_of_mem _ hz)
    exact ⟨y :: ys, by rw [mapM_cons, hy, ok_bind, hys]; rfl, .cons hxy hr⟩

lemma mapM_ok (h : ∀ x ∈ xs, ∃ y, f x = .ok y) : ∃ ys, xs.mapM f = .ok ys := by
  obtain ⟨ys, hys, -⟩ := mapM_ok_rel (R := fun _ _ => True) (by simpa using h)
  exact ⟨ys, hys⟩

variable {i : ℕ}

lemma mapM_getElem? (h : xs.mapM f = .ok ys) {x : α} (hx : xs[i]? = some x) : ∃ y, ys[i]? = some y ∧ f x = .ok y := by
  have ha := mapM_eq_ok.1 h
  clear h
  induction ha generalizing i with
  | nil => simp at hx
  | cons hy _ ih =>
    cases i with
    | zero =>
      cases hx
      exact ⟨_, rfl, hy⟩
    | succ i => exact ih hx

lemma mapM_getElem?_inv (h : xs.mapM f = .ok ys) {y : β} (hy : ys[i]? = some y) : ∃ x, xs[i]? = some x ∧ f x = .ok y := by
  have hlt := (List.getElem?_eq_some_iff.1 hy).1
  rw [← (mapM_eq_ok.1 h).length_eq] at hlt
  obtain ⟨y', hy', hfx⟩ := mapM_getElem? h (List.getElem?_eq_getElem hlt)
  obtain rfl : y = y' := Option.some.inj (hy.symm.trans hy')
  exact ⟨_, List.getElem?_eq_getElem hlt, hfx⟩

lemma mapM_mem (h : xs.mapM f = .ok ys) {x : α} (hx : x ∈ xs) : ∃ y ∈ ys, f x = .ok y := by
  obtain ⟨i, hi⟩ := mem_iff_getElem?.1 hx
  obtain ⟨y, hy, hfx⟩ := mapM_getElem? h hi
  exact ⟨y, mem_of_getElem? hy, hfx⟩

lemma mapM_mem_inv (h : xs.mapM f = .ok ys) {y : β} (hy : y ∈ ys) : ∃ x ∈ xs, f x = .ok y := by
  obtain ⟨i, hi⟩ := mem_iff_getElem?.1 hy
  obtain ⟨x, hx, hfx⟩ := mapM_getElem?_inv h hi
  exact ⟨x, mem_of_getElem? hx, hfx⟩

lemma mapM_ok_ne_nil (hxs : xs ≠ []) (h : ∀ x ∈ xs, ∃ y, f x = .ok y) :
    ∃ ys, xs.mapM f = .ok ys ∧ ys ≠ [] := by
  obtain ⟨ys, hys⟩ := mapM_ok h
  refine ⟨ys, hys, fun hn => hxs ?_⟩
  have hl := (mapM_eq_ok.1 hys).length_eq
  rw [hn] at hl
  exact eq_nil_of_length_eq_zero hl

lemma mapM_eq_error {before after : List α} {x : α} {e : ε}
    (hb : ∀ y ∈ before, ∃ z, f y = .ok z) (hx : f x = .error e) : (before ++ x :: after).mapM f = .error e := by
  induction before with
  | nil =>
    rw [nil_append, mapM_cons, hx]
    rfl
  | cons y before ih =>
    rw [forall_mem_cons] at hb
    obtain ⟨z, hz⟩ := hb.1
    rw [cons_append, mapM_cons, hz, ok_bind, ih hb.2]
    rfl

lemma mapM_eq_ok_map {g : α → β} (hf : ∀ x ∈ xs, f x = .ok (g x)) : xs.mapM f = .ok (xs.map g) :=
  mapM_eq_ok.2 (forall₂_map_right_iff.2 (forall₂_same.2 hf))

/-- A map whose steps all give results is a plain map over what the steps use. -/
lemma mapM_eq_ok_map₂ {g : γ → β} {R : α → γ → Prop} {ys : List γ} (h : List.Forall₂ R xs ys)
    (hf : ∀ x y, R x y → f x = .ok (g y)) : xs.mapM f = .ok (ys.map g) :=
  mapM_eq_ok.2 (forall₂_map_right_iff.2 (h.imp hf))

lemma filterMapM_eq_ok_filterMap {f : α → Except ε (Option β)} {g : α → Option β}
    (hf : ∀ x ∈ xs, f x = .ok (g x)) : xs.filterMapM f = .ok (xs.filterMap g) := by
  induction xs with
  | nil => rfl
  | cons x xs ih =>
    have hr := ih fun y hy => hf y (mem_cons_of_mem _ hy)
    rw [filterMapM_cons, hf x mem_cons_self, ok_bind, filterMap_cons]
    cases g x with
    | none => exact hr
    | some y => rw [hr]; rfl

lemma filterMapM_ok {f : α → Except ε (Option β)} (h : ∀ x ∈ xs, ∃ y, f x = .ok y) :
    ∃ ys, xs.filterMapM f = .ok ys := by
  choose! g hg using h
  exact ⟨_, filterMapM_eq_ok_filterMap hg⟩

/-- A filter with a result is a plain filter, and all its steps give results. -/
lemma filterMapM_eq_ok {f : α → Except ε (Option β)} {g : α → Option β}
    (hg : ∀ x y, f x = .ok y → y = g x) (h : xs.filterMapM f = .ok ys) :
    ys = xs.filterMap g ∧ ∀ x ∈ xs, f x = .ok (g x) := by
  induction xs generalizing ys with
  | nil => cases h; exact ⟨rfl, by simp⟩
  | cons x xs ih =>
    rw [filterMapM_cons] at h
    obtain ⟨y, hy, hr⟩ := bind_eq_ok.1 h
    cases hg x y hy
    rw [filterMap_cons, forall_mem_cons]
    cases hgx : g x with
    | none =>
      rw [hgx] at hr
      obtain ⟨hys, ha⟩ := ih hr
      exact ⟨hys, hgx ▸ hy, ha⟩
    | some z =>
      rw [hgx] at hr
      obtain ⟨zs, hzs, he⟩ := bind_eq_ok.1 hr
      obtain ⟨rfl, ha⟩ := ih hzs
      exact ⟨(pure_eq_ok.1 he).symm, hgx ▸ hy, ha⟩

/-- A fold whose steps all give results is a plain fold over what the steps use. -/
lemma foldlM_eq_ok {f : β → α → Except ε β} {g : β → γ → β} {R : α → γ → Prop}
    {ys : List γ} (h : List.Forall₂ R xs ys) (hf : ∀ b x y, R x y → f b x = .ok (g b y)) (b : β) :
    xs.foldlM f b = .ok (ys.foldl g b) := by
  induction h generalizing b with
  | nil => rfl
  | cons hxy _ ih => rw [foldlM_cons, hf b _ _ hxy, ok_bind, ih, foldl_cons]

/-- A fold whose steps give results and keep an invariant gives a result and keeps it. -/
lemma foldlM_invariant {f : β → α → Except ε β} {I : β → Prop} (xs : List α)
    (hf : ∀ x ∈ xs, ∀ b, I b → ∃ b', f b x = .ok b' ∧ I b') (hb : I b) :
    ∃ b', xs.foldlM f b = .ok b' ∧ I b' := by
  induction xs generalizing b with
  | nil => exact ⟨b, rfl, hb⟩
  | cons x xs ih =>
    obtain ⟨c, hc, hI⟩ := hf x mem_cons_self b hb
    rw [foldlM_cons, hc, ok_bind]
    exact ih (fun y hy => hf y (mem_cons_of_mem _ hy)) hI

/-! ## What every result satisfies -/

def Yields (P : α → Prop) (x : Except ε α) : Prop := ∀ a, x = .ok a → P a

section Yields
variable {P : β → Prop} {Q : α → Prop} {x : Except ε α}

@[simp] lemma yields_ok : Yields P (.ok b : Except ε β) ↔ P b := ⟨fun h => h b rfl, by rintro h _ ⟨⟩; exact h⟩

@[simp] lemma yields_error (e : ε) : Yields P (.error e : Except ε β) := nofun

@[simp] lemma yields_pure : Yields P (pure b : Except ε β) ↔ P b := yields_ok

lemma Yields.bind (hx : Yields Q x) (hf : ∀ a, Q a → Yields P (f a)) : Yields P (x >>= f) := by
  intro b hb
  obtain ⟨a, ha, hfa⟩ := bind_eq_ok.1 hb
  exact hf a (hx a ha) b hfa

lemma Yields.imp {Q' : α → Prop} (hx : Yields Q x) (hQ : ∀ a, Q a → Q' a) : Yields Q' x := fun a ha => hQ a (hx a ha)

lemma yields_bind (hf : ∀ a, Yields P (f a)) : Yields P (x >>= f) :=
  Yields.bind (fun _ _ => trivial) fun a _ => hf a

lemma yields_joined {c : Prop} [Decidable c] {y : Except ε α} (hx : c → Yields Q x) (hy : ¬c → Yields Q y)
    (hf : ∀ a, Q a → Yields P (f a)) : Yields P (if c then x >>= f else y >>= f) := by
  split
  · next hc => exact (hx hc).bind hf
  · next hc => exact (hy hc).bind hf

lemma yields_mapM (h : ∀ x ∈ xs, Yields P (f x)) : Yields (fun ys => ∀ y ∈ ys, P y) (xs.mapM f) := by
  intro ys hys y hy
  obtain ⟨x, hx, hfx⟩ := mapM_mem_inv hys hy
  exact h x hx y hfx

variable {g : β → α → Except ε β}

lemma yields_foldlM_mem (xs : List α) (hg : ∀ x ∈ xs, ∀ b, P b → Yields P (g b x))
    (hb : P b) : Yields P (xs.foldlM g b) := by
  induction xs generalizing b with
  | nil => exact yields_pure.2 hb
  | cons x xs ih =>
    exact (hg x mem_cons_self b hb).bind fun _ hc => ih (fun y hy => hg y (mem_cons_of_mem _ hy)) hc

lemma yields_foldlM (hg : ∀ b, P b → ∀ a, Yields P (g b a)) (hb : P b) (xs : List α) : Yields P (xs.foldlM g b) :=
  yields_foldlM_mem xs (fun x _ b hb => hg b hb x) hb

end Yields

/-! ## Two computations side by side -/

section Side
variable {δ : Type} {R S : α → β → Prop} {x : Option α} {y : Option β}

variable {Q : γ → δ → Prop}

lemma rel_bind {f : α → Option γ} {g : β → Option δ} (h : Option.Rel R x y)
    (hf : ∀ a b, R a b → Option.Rel Q (f a) (g b)) : Option.Rel Q (x.bind f) (y.bind g) := by
  cases h with
  | some h => exact hf _ _ h
  | none => exact .none

lemma rel_imp (h : Option.Rel R x y) (hi : ∀ a b, R a b → S a b) : Option.Rel S x y := by
  cases h with
  | some h => exact .some (hi _ _ h)
  | none => exact .none

lemma isSome_eq_of_rel (h : Option.Rel R x y) : x.isSome = y.isSome := by
  cases h <;> rfl

lemma exists_of_rel {a : α} (h : Option.Rel R x y) (hx : x = some a) : ∃ b, y = some b ∧ R a b := by
  subst hx
  cases h with
  | some h => exact ⟨_, rfl, h⟩

/-- Two computations stop alike, or they give results that are related. -/
inductive Matches (R : α → β → Prop) : Except ε α → Except ε β → Prop
  | ok {a : α} {b : β} (h : R a b) : Matches R (.ok a) (.ok b)
  | error (e : ε) : Matches R (.error e) (.error e)

variable {f : α → Except ε γ}

lemma Matches.bind {x : Except ε α} {y : Except ε β} {g : β → Except ε δ}
    (h : Matches R x y) (hf : ∀ a b, R a b → Matches Q (f a) (g b)) : Matches Q (x >>= f) (y >>= g) := by
  cases h with
  | ok h => exact hf _ _ h
  | error e => exact .error e

lemma Matches.imp {x : Except ε α} {y : Except ε β} (h : Matches R x y) (hi : ∀ a b, R a b → S a b) :
    Matches S x y := by
  cases h with
  | ok h => exact .ok (hi _ _ h)
  | error e => exact .error e

lemma matches_bind {P : α → Prop} {x : Except ε α} {g : α → Except ε δ}
    (h : Yields P x) (hf : ∀ a, P a → Matches Q (f a) (g a)) : Matches Q (x >>= f) (x >>= g) := by
  cases x with
  | ok a => exact hf a (h a rfl)
  | error e => exact .error e

lemma matches_same {x : Except ε α} {g : α → Except ε δ} (hf : ∀ a, Matches Q (f a) (g a)) :
    Matches Q (x >>= f) (x >>= g) :=
  matches_bind (fun _ _ => trivial) fun a _ => hf a

lemma matches_mapM {f : γ → Except ε α} {g : γ → Except ε β} {xs : List γ}
    (h : ∀ x ∈ xs, Matches R (f x) (g x)) : Matches (List.Forall₂ R) (xs.mapM f) (xs.mapM g) := by
  induction xs with
  | nil => exact .ok .nil
  | cons x xs ih =>
    rw [forall_mem_cons] at h
    rw [mapM_cons, mapM_cons]
    refine h.1.bind fun a b hab => (ih h.2).bind fun as bs ha => ?_
    exact .ok (.cons hab ha)

end Side

/-! ## Members of lists -/

@[simp] lemma entryAt_eq_ok {x : α} : entryAt xs i = .ok x ↔ xs[i]? = some x := by
  unfold entryAt
  cases xs[i]? <;> simp

@[simp] lemma lastEntry_eq_ok {x : α} : lastEntry xs = .ok x ↔ xs.getLast? = some x := by
  unfold lastEntry
  cases xs.getLast? <;> simp

end Kinetics
