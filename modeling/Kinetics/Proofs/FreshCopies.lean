import Kinetics.Proofs.BankCalls
/-!
# Copies in shared memory are never stale

A load writes one statement for each slot that it fills. After any sequence of calls
the last such statement for a held slot loads the location that the slot is held for
(`Bank.reset_calls_fresh`).
-/

open List

namespace Kinetics.Accelerator

variable {α : Type}

/-! ## The last store to an address -/

def lastStore (stores : List Holding) (address : String) : Option Holding :=
  (stores.filter (·.slot.address == address)).getLast?

lemma lastStore_append (xs ys : List Holding) (a : String) :
    lastStore (xs ++ ys) a = (lastStore ys a).or (lastStore xs a) := by
  rw [lastStore, filter_append, List.getLast?_append]
  rfl

variable {stores : List Holding} {a : String}

lemma lastStore_eq_none : lastStore stores a = none ↔ ∀ h ∈ stores, h.slot.address ≠ a := by
  simp [lastStore]

lemma mem_of_lastStore {h : Holding} (hs : lastStore stores a = some h) : h ∈ stores ∧ h.slot.address = a := by
  simpa using mem_filter.1 (mem_of_getLast? hs)

variable {N : Naming} {l : Location} {e : Event α}

/-- A slot that is held after a call was last stored with its location, by this call or before it. -/
lemma Event.Sound.lastStore (he : e.Sound N) {s : Slot} (hs : (s, l) ∈ e.after.table N) :
    (∃ h, Accelerator.lastStore e.stored s.address = some h ∧ N.key h.location = l) ∨
      Accelerator.lastStore e.stored s.address = none ∧ (s, l) ∈ e.before.table N := by
  cases hl : Accelerator.lastStore e.stored s.address with
  | some h =>
    obtain ⟨hst, had⟩ := mem_of_lastStore hl
    have hen : (h.slot, N.key h.location) ∈ e.after.table N := mem_map_of_mem (he.stored h hst)
    obtain ⟨i, -, hi⟩ := he.after.numbered hen
    obtain ⟨j, -, rfl⟩ := he.after.numbered hs
    rw [hi] at had hen
    rw [Slot.address_injective had] at hen
    exact .inl ⟨h, rfl, he.after.location_unique hen hs⟩
  | none =>
    rcases he.explained _ hs with hb | hst
    · exact .inr ⟨rfl, hb⟩
    · obtain ⟨h, hh, hen⟩ := mem_map.1 hst
      have hsl : h.slot = s := congrArg Prod.fst hen
      exact absurd (congrArg Slot.address hsl) (lastStore_eq_none.1 hl h hh)

/-! ## Sequences of calls -/

variable {cs : List (Call α)}

namespace Bank

/-- Every held slot was last stored with its location. -/
def Fresh (N : Naming) (stores : List Holding) (b : Bank) : Prop :=
  ∀ x ∈ b.table N, ∃ h, lastStore stores x.1.address = some h ∧ N.key h.location = x.2

lemma Fresh.event (hb : e.before.Fresh N stores) (he : e.Sound N) : e.after.Fresh N (stores ++ e.stored) := by
  rintro ⟨s, l⟩ hs
  rw [lastStore_append]
  rcases he.lastStore hs with ⟨h, hls, hl⟩ | ⟨hn, hbf⟩
  · exact ⟨h, by rw [hls]; rfl, hl⟩
  · rw [hn]
    exact hb _ hbf

variable {b : Bank}

lemma calls_fresh [Arithmetic α] (hb : b.Ordered N) (hem : b.held = [])
    (hcs : ∀ c ∈ cs, ∀ l ∈ c.locations, N.known (N.key l)) :
    Yields (fun r : Bank × List (Event α) => r.1.Fresh N (r.2.flatMap Event.stored)) (b.calls cs) := by
  have hst : b.Fresh N [] := by simp [Fresh, table, hem]
  refine Yields.imp (yields_foldlM_mem (P := fun r : Bank × List (Event α) =>
    r.1.Ordered N ∧ r.1.Fresh N (r.2.flatMap Event.stored)) cs ?_ ⟨hb, hst⟩) fun r hr => hr.2
  rintro c hc s ⟨hs, hf⟩ r hr
  obtain ⟨e, he, hen⟩ := bind_eq_ok.1 hr
  cases hen
  have hsn := call_sound hs (hcs c hc) e he
  refine ⟨hsn.after, ?_⟩
  rw [flatMap_append, flatMap_singleton]
  refine Fresh.event ?_ hsn
  rw [(call_before s.1 c e he).1]
  exact hf

/-- A load into a sound bank gives a result, and every slot holds its location afterwards. -/
lemma load_fresh [Arithmetic α] (hb : b.Sound N) {wanted : List (Location × α)}
    (hw : ∀ r ∈ wanted, N.known (N.key r.1)) :
    ∃ loaded, b.load wanted = .ok loaded ∧ loaded.bank.Sound N ∧ ∀ s l, (s, l) ∈ loaded.bank.table N →
      (∃ h, lastStore loaded.stored s.address = some h ∧ N.key h.location = l) ∨
        lastStore loaded.stored s.address = none ∧ (s, l) ∈ b.table N := by
  obtain ⟨_, hld, b', out, rfl, hl⟩ := (load_loading hb.toOrdered hw).exists_ok hb.full.not_lt
  have hz : (wanted.map Prod.fst).zip (wanted.map Prod.snd) = wanted := (zip_of_prod rfl rfl).symm
  have hc : b.call (.load (wanted.map Prod.fst) (wanted.map Prod.snd)) = .ok
      { before := b, call := .load (wanted.map Prod.fst) (wanted.map Prod.snd), after := b', evicted := out,
        stored := (outcome b b' out).stored } := by
    simp only [call, request, length_map, lt_irrefl, if_false, hz, hld]
    rfl
  have hsn := call_sound hb.toOrdered (fun l hl => by
    obtain ⟨r, hr, rfl⟩ := mem_map.1 hl
    exact hw r hr) _ hc
  exact ⟨_, hld, hl.sound hb, fun s l hs => hsn.lastStore hs⟩

end Bank

/-! ## Texts of locations and of slots -/

lemma Slot.address_ends (k : ℕ) : ∃ start, (Slot.numbered k).address.toList = start ++ ['x', ']'] := by
  cases k with
  | zero => exact ⟨"shared_temp[threadIdx.".toList, by decide⟩
  | succ k =>
    refine ⟨"shared_temp[threadIdx.x + ".toList ++ (toString (k + 1)).toList ++ " * blockDim.".toList, ?_⟩
    simp [Slot.address]

lemma not_mem_toString (i : ℤ) : 'x' ∉ (toString i).toList := by
  have hd : ∀ n : ℕ, 'x' ∉ (toString n).toList := by
    intro n h
    have hdg : ('x' : Char).isDigit = true := by
      rw [Nat.toString_eq_repr, Nat.toList_repr] at h
      exact Nat.isDigit_of_mem_toDigits (by decide) (by decide) h
    cases hdg
  cases i with
  | ofNat n => exact hd n
  | negSucc n =>
    have hs : toString (Int.negSucc n) = "-" ++ toString (n + 1) := rfl
    rw [hs, String.toList_append, mem_append]
    rintro (h | h)
    · revert h
      decide
    · exact hd _ h

lemma element_ne_address (l : Language) (array : String) (i : ℤ) (k : ℕ) :
    l.element array i ≠ (Slot.numbered k).address := by
  intro h
  obtain ⟨start, he⟩ := Slot.address_ends k
  have ht := congrArg String.toList h
  rw [he] at ht
  cases l with
  | c =>
    -- the last character but one belongs to the index
    have hc : array.toList ++ '[' :: (toString i).toList = start ++ ['x'] := by
      have hb : (array.toList ++ '[' :: (toString i).toList) ++ [']'] = (start ++ ['x']) ++ [']'] := by
        simpa [Language.element] using ht
      exact append_cancel_right hb
    have hl := congrArg List.getLast? hc
    have hm : 'x' ∈ '[' :: (toString i).toList := mem_of_getLast? (by simpa using hl)
    rcases mem_cons.1 hm with hx | hx
    · cases hx
    · exact not_mem_toString i hx
  | cuda =>
    have := congrArg (fun cs => cs.reverse[1]?) ht
    simp [Language.element] at this
  | fortran =>
    have := congrArg (fun cs => cs.reverse[0]?) ht
    simp [Language.element] at this
  | matlab =>
    have := congrArg (fun cs => cs.reverse[0]?) ht
    simp [Language.element] at this

/-! ## Reading a copy -/

/-- After calls with indexed locations, an address that an access prints was last stored with the location that is
read. -/
lemma Bank.reset_calls_fresh [Arithmetic α] {b last : Bank} {watched : Bool}
    {log : List (Event α)} (hin : ∀ c ∈ cs, ∀ l ∈ c.locations, l.index ≠ none)
    (hrn : ({ b.reset with watched } : Bank).calls cs = .ok (last, log)) (hl : l.index ≠ none)
    {k : ℕ} (hr : (last.access l).2 = (Slot.numbered k).address) :
    ∃ h, lastStore (log.flatMap Event.stored) (last.access l).2 = some h ∧
      h.location.array = l.array ∧ h.location.index = l.index := by
  set ls := cs.flatMap Call.locations with hls
  have hu : Uniform ls := by
    intro p hp q hq _
    obtain ⟨c, hc, hp⟩ := mem_flatMap.1 hp
    obtain ⟨d, hd, hq⟩ := mem_flatMap.1 hq
    exact iff_of_false (hin c hc p hp) (hin d hd q hq)
  have hcs : ∀ c ∈ cs, c.locations ⊆ ls := fun c hc l hl => mem_flatMap.2 ⟨c, hc, hl⟩
  obtain ⟨hlt, -⟩ := reset_calls_sound hu hcs hrn
  have hfr := calls_fresh (N := hu.naming) (reset_sound b watched).toOrdered rfl
    (fun c hc l hl => mem_map_of_mem (hcs c hc hl)) _ hrn
  unfold access at hr ⊢
  cases hf : last.find? l with
  | none =>
    obtain ⟨i, hi⟩ := Option.ne_none_iff_exists'.1 hl
    rw [hf] at hr
    simp only [Location.text, hi] at hr
    exact absurd hr (element_ne_address _ _ _ _)
  | some g =>
    have he : g.entry hu.naming ∈ last.table hu.naming := mem_map_of_mem (mem_of_find?_eq_some hf)
    have hsr : g.location.serves l = true := by
      simpa using List.find?_some hf
    have hid : g.location.index ≠ none := by
      obtain ⟨p, hp, heq⟩ := mem_map.1 (hlt.known _ he)
      obtain ⟨c, hc, hp⟩ := mem_flatMap.1 hp
      have hs : p.plain = g.location.plain := heq
      have hid : p.index = g.location.index := (Location.mk.inj hs).2.1
      exact hid ▸ hin c hc p hp
    obtain ⟨h, hh, hlc⟩ := hfr _ he
    refine ⟨h, hh, ?_⟩
    have hs : h.location.plain = g.location.plain := hlc
    obtain ⟨ha, hi', -⟩ := Location.mk.inj hs
    simp only [Location.serves, Bool.and_eq_true, Bool.or_eq_true, beq_iff_eq, Option.isNone_iff_eq_none] at hsr
    obtain ⟨hsv, hn | hsm⟩ := hsr
    · exact absurd hn hid
    · exact ⟨ha.trans hsv, hi'.trans hsm⟩

end Kinetics.Accelerator
