import Kinetics.Proofs.SoundDrafts
import Kinetics.Proofs.TextCuts
/-!
# Sections in every layout

The names of a section may stand behind its keyword, on the lines that follow, or on both, and the
word that ends the section may stand behind the last name or on its own line. What is read depends
on the layout in two ways (`section_names`). The names on the first line are searched from where the
first of them is found, and that may be within the keyword. And a word behind the last name ends the
section only if it is in lower case.
-/

open List

namespace Kinetics.Reading

open Text

/-! ## Words of a section -/

def addNames (names : List String) (words : List (List Char)) : List String := words.foldl (fun names w =>
    if isEnd w || names.contains (String.ofList w) then names else names ++ [String.ofList w]) names

lemma addNames_append (names : List String) (words more : List (List Char)) :
    addNames names (words ++ more) = addNames (addNames names words) more :=
  foldl_append

lemma readElements_words {words : List (List Char)} (h : ∀ w ∈ words, w ≠ [] ∧ w.all isLetter = true)
    (names : List String) (previous : List Char) :
    readElements names previous words = pure (addNames names words) := by
  induction words generalizing names previous with
  | nil => rfl
  | cons w words ih =>
    rw [forall_mem_cons] at h
    have hw : (!w.isEmpty && w.all isLetter) = true := by simp [h.1.1, h.1.2]
    rw [readElements, if_pos hw]
    cases he : isEnd w with
    | true => simp [ih h.2, addNames, he]
    | false => simp [ih h.2, addNames, he]

lemma addSpecies_names (species : List (Species Scalar)) (words : List (List Char)) :
    (addSpecies species words).map (·.name) = addNames (species.map (·.name)) words := by
  unfold addSpecies addNames
  induction words generalizing species with
  | nil => rfl
  | cons w words ih =>
    rw [foldl_cons, foldl_cons, ih]
    congr 1
    have ha : species.any (·.name == String.ofList w) = (species.map (·.name)).contains (String.ofList w) := by
      rw [contains_eq_any_beq, any_map]
      exact any_congr rfl fun x => Bool.beq_comm
    dsimp only
    rw [ha]
    split
    · rfl
    · rw [map_append]
      rfl

def Draft.names (d : Draft) : Section → List String
  | .elements => d.elements
  | .species => d.species.map (·.name)
  | .reactions => []

lemma names_current (d : Draft) (current : Option Section) (s : Section) :
    ({ d with current := current } : Draft).names s = d.names s := by
  cases s <;> rfl

def Section.keyword : Section → String
  | .elements => "elem"
  | .species => "spec"
  | .reactions => "reac"

variable {line : List Char}

lemma replaceChar_of_not_mem {c e : Char} (h : c ∉ line) : replaceChar c e line = line :=
  (map_congr_left fun _ ha => if_neg (ne_of_mem_of_not_mem ha h)).trans (map_id' line)

section Lines
variable {s : Section} (hs : s ≠ .reactions) {d : Draft}

include hs

lemma readContent_words (hd : d.current = some s) (hl : s = .elements → ∀ w ∈ fields line, w.all isLetter = true) :
    ∃ d', readContent d line = pure d' ∧ d'.current = some s ∧ d'.names s = addNames (d.names s) (fields line) := by
  cases s with
  | reactions => exact absurd rfl hs
  | species =>
    refine ⟨{ d with species := addSpecies d.species (fields line) }, by rw [readContent, hd], hd, ?_⟩
    exact addSpecies_names _ _
  | elements =>
    have hsl : '/' ∉ line := by
      intro hm
      obtain ⟨w, hw, hin⟩ := exists_field_of_isInfix (cons_ne_nil _ _)
        (forall_mem_singleton.2 (by decide)) ((singleton_infix_iff _ _).2 hm)
      exact absurd (all_eq_true.1 (hl rfl w hw) _ ((singleton_infix_iff _ _).1 hin)) (by decide)
    have hwr : readElements d.elements [] (fields line) = pure (addNames d.elements (fields line)) :=
      readElements_words (fun w hw => ⟨(of_mem_fields hw).1, hl rfl w hw⟩) _ _
    refine ⟨{ d with elements := addNames d.elements (fields line) }, ?_, hd, rfl⟩
    simp [readContent, hd, dataFields, replaceChar_of_not_mem hsl, hwr]

end Lines

/-! ## First words -/

lemma lower_blank {c : Char} (hc : isBlank c = true) : lower [c] = [c] := by
  obtain ⟨r, hr, hin⟩ := any_eq_true.1 hc
  have ha : ∀ r ∈ blankRuns, ∀ n ∈ List.range' r.1 (r.2 + 1 - r.1), lower [Char.ofNat n] = [Char.ofNat n] := by
    decide
  simp only [Bool.and_eq_true, decide_eq_true_eq] at hin
  simpa using ha r hr c.toNat (mem_range'_1.2 (by omega))

lemma opensWith_append {keyword : String} (hk : keyword ∈ sectionKeywords) {w t : List Char}
    (ht : ∀ c ∈ t.head?, isBlank c = true) (hw : keyword.length ≤ w.length ∨ opensWith keyword w = false) :
    opensWith keyword (w ++ t) = opensWith keyword w := by
  unfold opensWith at *
  by_cases hl : keyword.length ≤ w.length
  · rw [take_append_of_le_length hl]
  rw [hw.resolve_left hl]
  cases t with
  | nil => rw [append_nil, hw.resolve_left hl]
  | cons c t =>
    -- the blank behind the word is still there in lower case
    rw [beq_eq_false_iff_ne]
    intro heq
    obtain ⟨n, hn⟩ : ∃ n, keyword.length = w.length + (n + 1) := ⟨keyword.length - w.length - 1, by omega⟩
    have hm : c ∈ keyword.toList := by
      have hlw : lower (w ++ c :: t.take n) = lower w ++ ([c] ++ lower (t.take n)) := by
        rw [← lower_blank (ht c rfl), ← lower_cons]
        exact flatMap_append
      rw [← heq, hn, take_length_add_append, take_succ_cons, hlw]
      simp
    have hnn : ∀ keyword ∈ sectionKeywords, keyword.toList.all (!isBlank ·) = true := by decide
    have := all_eq_true.1 (hnn keyword hk) c hm
    simp [ht c rfl] at this

section Word
variable {raw w : List Char} {ws : List (List Char)} (hraw : '!' ∉ raw) (hfields : fields raw = w :: ws)

include hraw

lemma trimmed_eq : trimmed raw = strip raw := by
  obtain ⟨u, v, hs, -, -⟩ := exists_strip raw
  have hn : '!' ∉ strip raw := fun hm => hraw (by rw [hs]; simp [hm])
  rw [trimmed, cutComment, find?_eq_none_of_not_mem mem_cons_self hn]

include hfields

lemma not_isIgnored : isIgnored raw = false := by
  obtain ⟨u, t, rfl, hu, -, -, hne, hw⟩ := exists_first_field hfields
  obtain ⟨c, w, rfl⟩ := exists_cons_of_ne_nil hne
  unfold isIgnored
  rw [stripLeft_blanks_append hu, stripLeft, cons_append, dropWhile_cons_of_neg (by simp [hw c])]
  exact decide_eq_false fun hc => hraw (by simp [hc])

lemma exists_trimmed : ∃ t, trimmed raw = w ++ t ∧ fields t = ws ∧ ∀ c ∈ t.head?, isBlank c = true := by
  rw [trimmed_eq hraw]
  rw [← fields_strip] at hfields
  obtain ⟨u, t, hs, hu, ht, hh, -⟩ := exists_first_field hfields
  refine ⟨t, ?_, ht, hh⟩
  obtain hn | hf := strip_eq_nil_or_firm raw
  · rw [hn] at hfields
    cases hfields
  · cases u with
    | nil => exact hs
    | cons c u =>
      have := hf.start
      simp [hs, hu c mem_cons_self] at this

end Word

/-! ## The first line -/

/-- The end of a keyword that is taken for a name, since the first name is found in the keyword. -/
def strayWords (keyword : List Char) : List (List Char) → List (List Char)
  | [] => []
  | first :: _ => ((find? first keyword).map keyword.drop).toList

variable {first : List (List Char)}

lemma afterKeyword_fields {keyword t : List Char}
    (hk : ∀ c ∈ keyword, isBlank c = false) (hfields : fields (keyword ++ t) = keyword :: first)
    (ht : fields t = first) (hh : ∀ c ∈ t.head?, isBlank c = true) :
    fields ((afterKeyword (keyword ++ t)).getD []) = strayWords keyword first ++ first := by
  cases first with
  | nil =>
    rw [afterKeyword, hfields]
    rfl
  | cons name first =>
    rw [afterKeyword, hfields]
    dsimp only [strayWords]
    obtain ⟨hne, hn⟩ := of_mem_fields (ht ▸ mem_cons_self)
    cases hf : find? name keyword with
    | some i =>
      have hct := eq_of_find? hf
      have hle : i < keyword.length := by
        have hl := congrArg List.length hct
        have hp := length_pos_iff.2 hne
        simp only [length_append, length_take] at hl
        omega
      have hst := fields_around_word (s := []) (ne_nil_of_length_pos (by simpa using hle))
        (fun c hc => hk c (mem_of_mem_drop hc)) (by simp) hh
      rw [nil_append, ht] at hst
      rw [find?_append_left hf, Option.map_some, Option.getD_some, drop_append_of_le_length hle.le, hst]
      rfl
    | none =>
      obtain ⟨u, rest, rfl, hu, -, -, -, -⟩ := exists_first_field ht
      rw [fields_blanks_append hu] at ht
      obtain ⟨a, name, rfl⟩ := exists_cons_of_ne_nil hne
      cases u with
      | nil =>
        have := hh a rfl
        rw [hn a mem_cons_self] at this
        cases this
      | cons c u =>
        rw [forall_mem_cons] at hu
        have hc : c ∉ a :: name := fun hm => by simp [hn c hm] at hu
        have ha : a ∉ u := fun hm => by simpa [hn a mem_cons_self] using hu.2 a hm
        have hfs : find? (a :: name) (keyword ++ c :: (u ++ (a :: name ++ rest))) =
            some (keyword ++ c :: u).length := by
          rw [find?_append_blank hne (find?_eq_none.1 hf) hc, find?_cons_append ha, find?_of_prefix (prefix_append _ _)]
          simp [Nat.add_left_comm]
        rw [cons_append, hfs, Option.map_some, Option.getD_some, ← cons_append, ← append_assoc, drop_left, ht]
        rfl

variable {ending : List Char}

lemma ending_opens (h : ending ∈ ["end".toList, "END".toList]) :
    opensWith "end" ending = true ∧ (∀ k ∈ ["elem", "spec", "reac", "ther"], opensWith k ending = false) ∧
      ∀ k ∈ sectionKeywords, k.length ≤ ending.length ∨ opensWith k ending = false := by
  simp only [mem_cons, not_mem_nil, or_false] at h
  obtain rfl | rfl := h <;> decide

lemma ending_letters (h : ending ∈ ["end".toList, "END".toList]) : ending.all isLetter = true := by
  simp only [mem_cons, not_mem_nil, or_false] at h
  obtain rfl | rfl := h <;> decide

section Layout
variable {s : Section} (hs : s ≠ .reactions) {d : Draft} (file : List (List Char))

def closingWords (body : List (List Char)) (ending : List Char) : List (List Char) :=
  if [ending] ∈ body.map fields then [] else [ending]

lemma closingWords_cons (raw : List Char) (body : List (List Char)) (ending : List Char) :
    closingWords (raw :: body) ending = if fields raw = [ending] then [] else closingWords body ending := by
  unfold closingWords
  by_cases h : fields raw = [ending]
  · simp [h]
  · have h' := Ne.symm h
    simp [h, h']

variable {body : List (List Char)}

lemma closingWords_blank (h : body.flatMap fields = []) (ending : List Char) :
    closingWords body ending = [ending] := by
  refine if_neg fun hm => ?_
  obtain ⟨line, hl, hfields⟩ := mem_map.1 hm
  rw [flatMap_eq_nil_iff.1 h line hl] at hfields
  cases hfields

variable {raw : List Char}

lemma readLine_blank (h : fields raw = []) : readLine file d raw = pure d := by
  have hb : stripLeft raw = [] := dropWhile_eq_nil_iff.2 fun c hc => by
    by_contra hn
    obtain ⟨w, hw, -⟩ := exists_field_of_isInfix (cons_ne_nil c [])
      (forall_mem_singleton.2 (by simpa using hn)) ((singleton_infix_iff _ _).2 hc)
    rw [h] at hw
    cases hw
  have hi : isIgnored raw = true := by
    unfold isIgnored
    rw [hb]
  rw [readLine, if_pos hi]

lemma readLines_blank (h : body.flatMap fields = []) : body.foldlM (readLine file) d = pure d := by
  induction body with
  | nil => rfl
  | cons raw body ih =>
    rw [flatMap_cons, append_eq_nil_iff] at h
    rw [foldlM_cons, readLine_blank file h.1, pure_bind, ih h.2]

include hs

lemma readLine_opening {opening keyword : List Char} (hp : '!' ∉ opening) (ho : fields opening = keyword :: first)
    (hky : 4 ≤ keyword.length ∧ opensWith s.keyword keyword = true)
    (hl : s = .elements → ∀ w ∈ strayWords keyword first ++ first, w.all isLetter = true) :
    ∃ d', readLine file d opening = pure d' ∧ d'.current = some s ∧
      d'.names s = addNames (d.names s) (strayWords keyword first ++ first) := by
  obtain ⟨t, htr, ht, hh⟩ := exists_trimmed hp ho
  obtain ⟨-, hw⟩ := of_mem_fields (ho ▸ mem_cons_self)
  have hfields : fields (keyword ++ t) = keyword :: first := by
    rw [← htr, trimmed_eq hp, fields_strip, ho]
  have hr := afterKeyword_fields hw hfields ht hh
  have hop : ∀ k ∈ sectionKeywords, opensWith k (trimmed opening) = opensWith k keyword := by
    intro k hk
    have hle : ∀ k ∈ sectionKeywords, k.length ≤ 4 := by decide
    rw [htr, opensWith_append hk hh (.inl ((hle k hk).trans hky.1))]
  have hln : readLine file d opening = openSection d s (keyword ++ t) := by
    have hf := beq_iff_eq.1 hky.2
    rw [readLine_eq, openingOf, not_isIgnored hp ho, hop "elem" (by simp [sectionKeywords]),
      hop "spec" (by simp [sectionKeywords]), htr]
    cases s with
    | reactions => exact absurd rfl hs
    | elements =>
      rw [show opensWith "elem" keyword = true from hky.2]
      rfl
    | species =>
      have he : opensWith "elem" keyword = false := by
        rw [opensWith, beq_eq_false_iff_ne]
        exact fun h => absurd (hf.symm.trans h) (by decide)
      rw [he, show opensWith "spec" keyword = true from hky.2]
      rfl
  rw [hln, openSection]
  cases ha : afterKeyword (keyword ++ t) with
  | none =>
    rw [ha] at hr
    refine ⟨_, rfl, rfl, ?_⟩
    rw [← hr, names_current]
    rfl
  | some rest =>
    rw [ha, Option.getD_some] at hr
    rw [← hr] at hl ⊢
    obtain ⟨d', hd', hc, hn⟩ := readContent_words hs (d := { d with current := some s }) rfl hl
    exact ⟨d', hd', hc, by rw [hn, names_current]⟩

lemma readLine_names (hd : d.current = some s) (hp : '!' ∉ raw)
    (hf : ∀ w ∈ (fields raw).head?, ∀ keyword ∈ sectionKeywords, opensWith keyword w = false)
    (hl : s = .elements → ∀ w ∈ fields raw, w.all isLetter = true) :
    ∃ d', readLine file d raw = pure d' ∧ d'.current = some s ∧ d'.names s = addNames (d.names s) (fields raw) := by
  cases hfields : fields raw with
  | nil => exact ⟨d, readLine_blank file hfields, hd, rfl⟩
  | cons w ws =>
    obtain ⟨t, ht, -, hh⟩ := exists_trimmed hp hfields
    have hc : openingOf raw = .content := openingOf_content (not_isIgnored hp hfields) fun k hk => by
      have hw := hf w (by rw [hfields]; rfl) k hk
      rw [ht, opensWith_append hk hh (.inr hw), hw]
    have hwr : fields (trimmed raw) = fields raw := by rw [trimmed_eq hp, fields_strip]
    rw [readLine_eq, hc, ← hfields, ← hwr]
    exact readContent_words hs hd (by rwa [hwr])

lemma readLines_body (hd : d.current = some s) {body names : List (List Char)}
    (hp : ∀ line ∈ body, '!' ∉ line) (hwr : body.flatMap fields = names ++ [ending])
    (hn : ∀ w ∈ names, ∀ keyword ∈ sectionKeywords, opensWith keyword w = false)
    (he : ending ∈ ["end".toList, "END".toList])
    (hl : s = .elements → ∀ w ∈ names, w.all isLetter = true) : ∃ d', body.foldlM (readLine file) d = pure d' ∧
      d'.names s = addNames (d.names s) (names ++ closingWords body ending) := by
  have hen := ending_opens he
  induction body generalizing d names with
  | nil => simp at hwr
  | cons raw body ih =>
    rw [forall_mem_cons] at hp
    rw [flatMap_cons] at hwr
    rw [foldlM_cons, closingWords_cons]
    obtain hb | ⟨rest, last, hr⟩ := eq_nil_or_concat' (body.flatMap fields)
    · -- the last word stands on this line, alone or behind a name
      rw [hb, append_nil] at hwr
      rw [hwr]
      cases names with
      | nil =>
        obtain ⟨t, ht, -, hh⟩ := exists_trimmed hp.1 hwr
        have ho : ∀ k ∈ sectionKeywords, opensWith k (trimmed raw) = opensWith k ending := fun k hk => by
          rw [ht, opensWith_append hk hh (hen.2.2 k hk)]
        have hln : readLine file d raw = pure { d with current := none } := by
          rw [readLine_eq, openingOf, not_isIgnored hp.1 hwr, ho "elem" (by simp [sectionKeywords]),
            ho "spec" (by simp [sectionKeywords]), ho "reac" (by simp [sectionKeywords]),
            ho "ther" (by simp [sectionKeywords]), ho "end" (by simp [sectionKeywords])]
          simp [hen, readOpened]
        rw [hln, pure_bind, readLines_blank file hb]
        refine ⟨_, rfl, ?_⟩
        rw [names_current, nil_append, nil_append, if_pos rfl]
        rfl
      | cons name names =>
        obtain ⟨d', hd', -, ha⟩ := readLine_names hs file hd hp.1
          (by rw [hwr]; rintro _ ⟨⟩; exact hn name mem_cons_self) fun h => by
            rw [hwr, forall_mem_append]
            exact ⟨hl h, forall_mem_singleton.2 (ending_letters he)⟩
        rw [hd', pure_bind, readLines_blank file hb, if_neg (by simp), closingWords_blank hb, ← hwr]
        exact ⟨d', rfl, ha⟩
    · rw [hr, ← append_assoc] at hwr
      obtain ⟨rfl, hls⟩ := append_inj' hwr rfl
      cases hls
      obtain ⟨d', hd', hc, ha⟩ := readLine_names hs file hd hp.1
        (fun w hw => hn w (mem_append_left _ (mem_of_mem_head? hw)))
        fun h w hw => hl h w (mem_append_left _ hw)
      obtain ⟨d'', hd'', hal⟩ := ih hc hp.2 hr (fun w hw => hn w (mem_append_right _ hw))
        fun h w hw => hl h w (mem_append_right _ hw)
      have hln : fields raw ≠ [ending] := fun h => by
        have := hn ending (by simp [h]) "end" (by simp [sectionKeywords])
        rw [hen.1] at this
        cases this
      rw [hd', pure_bind, if_neg hln, append_assoc, addNames_append, ← ha]
      exact ⟨d'', hd'', hal⟩

end Layout

/-- The names that a section adds in any layout: those that are written, before them the end of the keyword if the
first name on its line is found in it, and behind them the last word if it does not stand alone. The layout does
not matter if nothing of the keyword is taken for a name and the last word stands alone or is in lower case. -/
theorem section_names (file : List (List Char)) {s : Section} (hs : s ≠ .reactions) (d : Draft)
    {opening keyword ending : List Char} {body first names : List (List Char)}
    (hopening : fields opening = keyword :: first)
    (hkeyword : 4 ≤ keyword.length ∧ opensWith s.keyword keyword = true)
    (hplain : ∀ line ∈ opening :: body, '!' ∉ line) (hwords : first ++ body.flatMap fields = names ++ [ending])
    (hnames : ∀ w ∈ names, ∀ keyword ∈ sectionKeywords, opensWith keyword w = false)
    (hending : ending ∈ ["end".toList, "END".toList])
    (hletters : s = .elements → ∀ w ∈ strayWords keyword first ++ names, w.all isLetter = true) :
    ∃ d', (opening :: body).foldlM (readLine file) d = pure d' ∧
      d'.names s = addNames (d.names s) (strayWords keyword first ++ names ++ closingWords body ending) ∧
      (strayWords keyword first = [] → ending = "end".toList ∨ [ending] ∈ body.map fields →
        d'.names s = addNames (d.names s) names) := by
  obtain ⟨d', hd', hall⟩ : ∃ d', (opening :: body).foldlM (readLine file) d = pure d' ∧
      d'.names s = addNames (d.names s) (strayWords keyword first ++ names ++ closingWords body ending) := by
    rw [forall_mem_cons] at hplain
    rw [foldlM_cons]
    obtain hblank | ⟨rest, last, hrest⟩ := eq_nil_or_concat' (body.flatMap fields)
    · -- everything stands on the first line
      rw [hblank, append_nil] at hwords
      subst hwords
      obtain ⟨d', hd', -, hadded⟩ := readLine_opening hs file (d := d) hplain.1 hopening hkeyword fun h => by
        rw [← append_assoc, forall_mem_append]
        exact ⟨hletters h, forall_mem_singleton.2 (ending_letters hending)⟩
      rw [hd', pure_bind, readLines_blank file hblank, closingWords_blank hblank, append_assoc]
      exact ⟨d', rfl, hadded⟩
    · rw [hrest, ← append_assoc] at hwords
      obtain ⟨rfl, hlast⟩ := append_inj' hwords rfl
      cases hlast
      obtain ⟨d', hd', hcurrent, hadded⟩ := readLine_opening hs file (d := d) hplain.1 hopening hkeyword fun h w hw =>
        hletters h w (by rw [← append_assoc]; exact mem_append_left _ hw)
      obtain ⟨d'', hd'', hall⟩ := readLines_body hs file hcurrent hplain.2 hrest
        (fun w hw => hnames w (mem_append_right _ hw)) hending
        fun h w hw => hletters h w (mem_append_right _ (mem_append_right _ hw))
      refine ⟨d'', by rw [hd', pure_bind, hd''], ?_⟩
      rw [hall, hadded, ← addNames_append]
      simp only [append_assoc]
  refine ⟨d', hd', hall, fun hstray hlast => hall.trans ?_⟩
  rw [hstray, nil_append, addNames_append]
  obtain rfl | hlast := hlast
  · unfold closingWords
    split <;> rfl
  · rw [closingWords, if_pos hlast]
    rfl

/-- The symbol of nitrogen is found in the keyword, and the end of the keyword becomes an element. -/
theorem section_names_nitrogen : ∃ d', ["ELEMENTS N O".toList, "END".toList].foldlM (readLine []) {} = pure d' ∧
    d'.elements = ["NTS", "N", "O"] := by
  have hopening : fields "ELEMENTS N O".toList = "ELEMENTS".toList :: [['N'], ['O']] := by decide
  have hplain : ["ELEMENTS N O".toList, "END".toList].all (!·.contains '!') = true := by decide
  have hwords : [['N'], ['O']] ++ ["END".toList].flatMap fields = [['N'], ['O']] ++ ["END".toList] := by decide
  have hnames : ∀ w ∈ [['N'], ['O']], ∀ keyword ∈ sectionKeywords, opensWith keyword w = false := by decide
  have hletters : ∀ w ∈ strayWords "ELEMENTS".toList [['N'], ['O']] ++ [['N'], ['O']], w.all isLetter = true := by
    decide
  obtain ⟨d', hd', hadded, -⟩ := section_names [] (s := .elements) (by decide) {} hopening
    (by decide) (fun line hline => by simpa using all_eq_true.1 hplain line hline) hwords hnames (by simp)
    fun _ => hletters
  exact ⟨d', hd', hadded.trans (by decide)⟩

end Kinetics.Reading
