import Kinetics.Proofs.WellFormedMechanisms
/-!
# Atomic weights that a reading leaves behind

A file can give an element another atomic weight. The weight goes into the table of the session,
where it stays when the reading is over, also if it has failed. What a reading leaves behind are the
weights that its file declares, in their order, up to the place where it stopped (`Writes`).
Everything else that reads a line is quiet: it neither looks at the table nor changes it (`Quiet`).
-/

open List

namespace Kinetics.Reading

open Text

/-! ## Tables of weights -/

lemma lookup_replace {α : Type} (w : Weights α) (name other : String) (x : α) :
    (w.map fun e => if e.1 == name then (name, x) else e).lookup other =
      if other = name then (if w.any (·.1 == name) then some x else none) else w.lookup other := by
  induction w with
  | nil => simp
  | cons e w ih =>
    obtain ⟨key, value⟩ := e
    rw [map_cons, any_cons]
    by_cases hk : key = name
    · rw [if_pos (beq_iff_eq.2 hk), lookup_cons, lookup_cons, ih]
      by_cases ho : other = name
      · simp [hk, ho]
      · have hne : (other == name) = false := by simpa using ho
        simp [hk, ho, hne]
    · have hne : (key == name) = false := by simpa using hk
      rw [if_neg (by simp [hk]), lookup_cons, lookup_cons, ih, hne, Bool.false_or]
      by_cases ho : other = name
      · have : (other == key) = false := by simpa [ho] using Ne.symm hk
        simp [ho, ho ▸ this]
      · simp [ho]

lemma Weights.get?_insert {α : Type} (w : Weights α) (name other : String) (x : α) :
    (w.insert name x).get? other = if other = name then some x else w.get? other := by
  unfold Weights.insert Weights.get?
  split
  · rename_i ha
    rw [lookup_replace, if_pos ha]
  · rename_i hnw
    rw [lookup_append]
    by_cases ho : other = name
    · have hn : w.lookup other = none := by
        rw [lookup_eq_none_iff]
        intro e he
        simp only [any_eq_true, not_exists, not_and] at hnw
        have := hnw e he
        simp only [beq_iff_eq] at this
        simpa [ho] using Ne.symm this
      rw [hn, if_pos ho, ho]
      simp
    · have hne : (other == name) = false := by simpa using ho
      simp [lookup_cons, hne, ho]

/-- The table after weights have been declared one after the other. -/
def insertAll (w : Weights Scalar) (ds : List (String × Scalar)) : Weights Scalar :=
  ds.foldl (fun w d => w.insert d.1 d.2) w

lemma insertAll_append (w : Weights Scalar) (ds es : List (String × Scalar)) :
    insertAll w (ds ++ es) = insertAll (insertAll w ds) es :=
  foldl_append

def SameOn (K : Set String) (v w : Weights Scalar) : Prop := ∀ name ∈ K, v.get? name = w.get? name

def declaredNames (ds : List (String × Scalar)) : Set String := {name | name ∈ ds.map (·.1)}

@[simp] lemma declaredNames_nil : declaredNames [] = ∅ := Set.eq_empty_of_forall_notMem fun _ h => (by cases h)

lemma declaredNames_append (ds es : List (String × Scalar)) :
    declaredNames (ds ++ es) = declaredNames ds ∪ declaredNames es := by
  ext name
  simp [declaredNames]

lemma SameOn.insertAll {K : Set String} {v w : Weights Scalar} (h : SameOn K v w) (ds : List (String × Scalar)) :
    SameOn (K ∪ declaredNames ds) (insertAll v ds) (insertAll w ds) := by
  induction ds generalizing K v w with
  | nil => simpa [declaredNames, Reading.insertAll] using h
  | cons d ds ih =>
    have hd : SameOn (K ∪ {d.1}) (v.insert d.1 d.2) (w.insert d.1 d.2) := by
      intro name hn
      rw [Weights.get?_insert, Weights.get?_insert]
      split
      · rfl
      · rename_i hne
        rcases hn with hn | hn
        · exact h name hn
        · exact absurd hn hne
    intro name hn
    refine ih hd name ?_
    simp only [declaredNames, map_cons, mem_cons, Set.mem_union, Set.mem_ofPred_eq, Set.mem_singleton_iff] at hn ⊢
    tauto

/-! ## What a file declares -/

/-- The weights that the fields of an element line declare, up to a field that is neither a symbol
nor a number. -/
def declaredIn (previous : List Char) : List (List Char) → List (String × Scalar)
  | [] => []
  | word :: rest =>
    if !word.isEmpty && word.all isLetter then
      declaredIn (if isEnd word then previous else word) rest
    else
      match Number.readReal word with
      | .ok x => (String.ofList (lower previous), .float x) :: declaredIn previous rest
      | .error _ => []

/-- The section in which the line after `raw` stands. -/
def sectionAfter (current : Option Section) (raw : List Char) : Option Section := match openingOf raw with
  | .elements => some .elements
  | .species => some .species
  | .reactions => some .reactions
  | .ending => none
  | .ignored | .thermo | .content => current

def elementFields (current : Option Section) (raw : List Char) : List (List Char) := match openingOf raw with
  | .elements => dataFields false ((afterKeyword (trimmed raw)).getD [])
  | .content => if current = some .elements then dataFields false (trimmed raw) else []
  | .ignored | .species | .reactions | .thermo | .ending => []

def declaredBy : Option Section → List (List Char) → List (String × Scalar)
  | _, [] => []
  | current, raw :: rest =>
    declaredIn [] (elementFields current raw) ++ declaredBy (sectionAfter current raw) rest

/-! ## Readers that declare weights -/

/-- A reader that gives the same in all sessions whose tables agree on `K`, and that declares weights,
all of them if it gives a result. -/
def Writes {β : Type} (K : Set String) (ds : List (String × Scalar)) (r : Reader β) : Prop :=
  ∀ s, (∃ done, done <+: ds ∧ (∀ a, (r.start s).1 = .ok a → done = ds) ∧
      (r.start s).2.weights = insertAll s.weights done) ∧
    ∀ t : Session, SameOn K s.weights t.weights → (r.start t).1 = (r.start s).1

/-- A reader that neither looks at the table nor changes it. -/
abbrev Quiet {β : Type} (r : Reader β) : Prop := Writes ∅ [] r

section Writes
variable {β γ : Type} {K L : Set String} {ds es : List (String × Scalar)} {r : Reader β} {f : β → Reader γ}

lemma Writes.mono (h : Writes K ds r) (hK : K ⊆ L) : Writes L ds r := by
  intro s
  exact ⟨(h s).1, fun t ht => (h s).2 t fun name hn => ht name (hK hn)⟩

lemma Writes.of_empty (h : Writes ∅ ds r) : Writes K ds r := h.mono (Set.empty_subset K)

lemma Writes.bind {P : β → Prop} (hr : Writes K ds r) (hP : Gives P r)
    (hf : ∀ a, P a → Writes (K ∪ declaredNames ds) es (f a)) : Writes K (ds ++ es) (r >>= f) := by
  intro s
  obtain ⟨⟨done, hd, hall, hw⟩, hsame⟩ := hr s
  rcases hs : r.start s with ⟨e | a, s'⟩
  · rw [Reader.start_bind_of_error hs]
    rw [hs] at hw
    refine ⟨⟨done, hd.trans (prefix_append _ _), fun _ h => (by cases h), hw⟩, fun t ht => ?_⟩
    have htr : r.start t = (.error e, (r.start t).2) := Prod.ext ((hsame t ht).trans (by rw [hs])) rfl
    rw [Reader.start_bind_of_error htr]
  · obtain rfl := hall a (by rw [hs])
    obtain ⟨⟨more, hm, hall', hw'⟩, hsame'⟩ := hf a (hP s a s' hs) s'
    rw [hs] at hw
    rw [Reader.start_bind_of_ok hs]
    refine ⟨⟨done ++ more, (prefix_append_right_inj _).2 hm, fun b hb => ?_, ?_⟩, fun t ht => ?_⟩
    · rw [hall' b hb]
    · rw [hw', hw, insertAll_append]
    · have htr : r.start t = (.ok a, (r.start t).2) := Prod.ext ((hsame t ht).trans (by rw [hs])) rfl
      obtain ⟨⟨done', -, hall'', hw''⟩, -⟩ := hr t
      rw [Reader.start_bind_of_ok htr]
      refine hsame' _ ?_
      rw [hw'', hall'' a (by rw [htr]), hw]
      exact ht.insertAll _

lemma Writes.then_quiet (hr : Writes K ds r) (hf : ∀ a, Quiet (f a)) : Writes K ds (r >>= f) := by
  have h := hr.bind (fun _ _ _ _ => trivial) fun a _ => (hf a).of_empty
  rwa [append_nil] at h

lemma Quiet.bind (hr : Quiet r) (hf : ∀ a, Writes K ds (f a)) : Writes K ds (r >>= f) := by
  refine Writes.bind hr.of_empty (fun _ _ _ _ => trivial) fun a _ => ?_
  exact (hf a).mono Set.subset_union_left

lemma Quiet.weights_eq (h : Quiet r) (s : Session) : (r.start s).2.weights = s.weights := by
  obtain ⟨done, hd, -, hw⟩ := (h s).1
  obtain rfl := prefix_nil.1 hd
  exact hw

/-- A reader that looks at the table only through a function that cannot tell the tables apart. -/
lemma writes_get {f : Session → Reader β} (hf : ∀ s, Quiet (f s))
    (hs : ∀ s t : Session, SameOn K s.weights t.weights → f s = f t) : Writes K [] (get >>= f) := by
  intro s
  rw [Reader.start_bind_of_ok (Reader.start_get s)]
  refine ⟨(hf s s).1, fun t ht => ?_⟩
  rw [Reader.start_bind_of_ok (Reader.start_get t), ← hs s t ht]
  exact (hf s s).2 t fun _ h => h.elim

lemma quiet_of_forall {x : Except Fault β} (h : ∀ s, (r.start s).1 = x ∧ (r.start s).2.weights = s.weights) :
    Quiet r := by
  intro s
  exact ⟨⟨[], nil_prefix, fun _ _ => rfl, (h s).2⟩, fun t _ => (h t).1.trans (h s).1.symm⟩

lemma quiet_pure (a : β) : Quiet (pure a : Reader β) := quiet_of_forall fun _ => ⟨rfl, rfl⟩

lemma quiet_lift (x : Except Fault β) : Quiet (liftM x : Reader β) := quiet_of_forall fun _ => ⟨rfl, rfl⟩

lemma quiet_throw (e : Fault) : Quiet (throw e : Reader β) := quiet_of_forall fun _ => ⟨rfl, rfl⟩

lemma quiet_quit (text : String) (status : Int) : Quiet (quit text status : Reader β) := quiet_throw _

lemma quiet_say (text : String) : Quiet (say text) := quiet_of_forall fun _ => ⟨rfl, rfl⟩

lemma quiet_remark (level : Level) (text : String) : Quiet (remark level text) := quiet_of_forall fun _ => ⟨rfl, rfl⟩

lemma mapM_quiet (hf : ∀ a, Quiet (f a)) (xs : List β) : Quiet (xs.mapM f) := by
  induction xs with
  | nil => exact quiet_pure _
  | cons x xs ih =>
    rw [mapM_cons]
    exact (hf x).bind fun _ => ih.bind fun _ => quiet_pure _

lemma forM_quiet {f : β → Reader Unit} (hf : ∀ a, Quiet (f a)) (xs : List β) : Quiet (xs.forM f) := by
  induction xs with
  | nil => exact quiet_pure _
  | cons x xs ih => exact (hf x).bind fun _ => ih

end Writes

lemma readTroe_quiet (line : List Char) (rs : List (Reaction String Scalar)) : Quiet (readTroe line rs) := by
  refine (quiet_lift _).bind fun _ => (quiet_lift _).bind ?_
  rintro ⟨a, t3, t1⟩
  dsimp only
  split
  · refine (quiet_remark _ _).bind fun _ => ?_
    split
    · exact (quiet_lift _).bind fun _ => (quiet_pure _).bind fun _ => quiet_lift _
    · exact (quiet_pure _).bind fun _ => quiet_lift _
  · split
    · exact (quiet_lift _).bind fun _ => (quiet_pure _).bind fun _ => quiet_lift _
    · exact (quiet_pure _).bind fun _ => quiet_lift _

lemma readAuxiliary_quiet (unit : EnergyUnit) (last : LastLine) (line : List Char)
    (rs : List (Reaction String Scalar)) : Quiet (readAuxiliary unit last line rs) := by
  have hl : ∀ (l : LastLine) (x : Except Fault (List (Reaction String Scalar))),
      Quiet (do return (l, ← x) : Reader (LastLine × List (Reaction String Scalar))) :=
    fun l x => (quiet_lift x).bind fun _ => quiet_pure _
  unfold readAuxiliary
  split
  case h_5 => exact (readTroe_quiet line rs).bind fun _ => quiet_pure _
  all_goals exact hl _ _

lemma readUnits_quiet (words : List (List Char)) (amount : AmountUnit) (energy : EnergyUnit) :
    Quiet (readUnits words amount energy) := by
  induction words generalizing amount energy with
  | nil => exact quiet_pure _
  | cons word rest ih =>
    unfold readUnits
    dsimp only
    split
    · exact ih _ _
    · exact ih _ _
    · exact (quiet_say _).bind fun _ => quiet_throw _

lemma sectionUnit_quiet (words : List (List Char)) : Quiet (sectionUnit words) := by
  refine (readUnits_quiet _ _ _).bind ?_
  rintro ⟨amount, energy⟩
  cases amount with
  | moles => exact quiet_pure _
  | molecules => exact quiet_throw _

lemma shapeCoefficients_quiet (i : ℕ) (r : Reaction String Scalar) : Quiet (shapeCoefficients i r) := by
  unfold shapeCoefficients
  dsimp only
  split
  · split
    · exact quiet_quit _ _
    · refine (quiet_lift _).bind fun _ => (quiet_lift _).bind fun _ => (quiet_lift _).bind fun _ => ?_
      split
      · exact (quiet_throw _).bind fun _ => quiet_pure _
      · exact quiet_pure _
  · exact quiet_pure _

lemma checkNames_quiet (names : List String) (i : ℕ) (r : Reaction String Scalar) : Quiet (checkNames names i r) := by
  unfold checkNames
  split
  · exact quiet_pure _
  · exact (quiet_remark _ _).bind fun _ => quiet_quit _ _

/-! ## What one line does -/

lemma setWeight_writes (name : String) (weight : Scalar) : Writes ∅ [(name, weight)] (setWeight name weight) := by
  intro s
  exact ⟨⟨[(name, weight)], prefix_rfl, fun _ _ => rfl, rfl⟩, fun _ _ => rfl⟩

lemma readElements_writes (elements : List String) (previous : List Char) (words : List (List Char)) :
    Writes ∅ (declaredIn previous words) (readElements elements previous words) := by
  induction words generalizing elements previous with
  | nil => exact quiet_pure _
  | cons word rest ih =>
    unfold readElements declaredIn
    by_cases hw : (!word.isEmpty && word.all isLetter) = true
    · rw [if_pos hw, if_pos hw]
      by_cases he : isEnd word = true
      · rw [if_pos he, if_pos he]
        exact ih elements previous
      · rw [if_neg he, if_neg he]
        exact ih _ word
    · rw [if_neg hw, if_neg hw]
      cases hn : Number.readReal word with
      | error e => exact quiet_throw e
      | ok weight =>
        exact (setWeight_writes _ _).bind (fun _ _ _ _ => trivial) fun _ _ => (ih elements previous).of_empty

lemma readContent_writes (d : Draft) (line : List Char) :
    Writes ∅ (declaredIn [] (if d.current = some .elements then dataFields false line else [])) (readContent d line) := by
  unfold readContent
  rcases hd : d.current with _ | _ | _ | _
  · exact quiet_pure _
  · exact (readElements_writes _ _ _).then_quiet fun _ => quiet_pure _
  · exact quiet_pure _
  · dsimp only
    split
    · rename_i ha
      cases ha
    · split
      · exact (quiet_lift _).bind fun _ => quiet_pure _
      · refine (readAuxiliary_quiet _ _ _ _).bind ?_
        rintro ⟨last, rs⟩
        exact quiet_pure _

lemma readContent_section (d : Draft) (line : List Char) :
    Gives (fun d' => d'.current = d.current) (readContent d line) := by
  unfold readContent
  split
  · exact gives_pure rfl
  · exact gives_bind fun _ => gives_pure rfl
  · exact gives_pure rfl
  · split
    · exact gives_bind fun _ => gives_pure rfl
    · refine gives_bind ?_
      rintro ⟨last, rs⟩
      exact gives_pure rfl

lemma openSection_section (d : Draft) (s : Section) (line : List Char) :
    Gives (fun d' => d'.current = some s) (openSection d s line) := by
  unfold openSection
  split
  · exact readContent_section { d with current := some s } _
  · exact gives_pure rfl

lemma readLine_section (file : List (List Char)) (d : Draft) (raw : List Char) :
    Gives (fun d' => d'.current = sectionAfter d.current raw) (readLine file d raw) := by
  rw [readLine_eq]
  unfold sectionAfter
  cases openingOf raw with
  | ignored => exact gives_pure rfl
  | elements => exact openSection_section d _ _
  | species => exact openSection_section d _ _
  | reactions => exact gives_bind fun _ => gives_pure rfl
  | thermo => exact gives_bind fun _ => gives_bind fun _ => gives_pure rfl
  | ending => exact gives_pure rfl
  | content => exact readContent_section d _

end Kinetics.Reading
